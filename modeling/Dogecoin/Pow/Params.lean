import Dogecoin.Primitives.Transaction

/-!
# Consensus parameters of the proof of work

`Consensus::Params` (consensus/params.h) holds the parameters of one range of
heights.  A chain keeps its ranges in a binary search tree keyed by the
height where each comes into use, and `Params::GetConsensus`
(chainparams.cpp) finds the parameters of a height by walking it.

This module models the fields that the proof-of-work checks and the
retargeting read, the tree and its walk, and the trees that chainparams.cpp
assembles for its four chains.  For the main chain, `getConsensus_main`
says which of its three parameter sets the walk finds at each height.
-/

namespace Dogecoin.Pow

open Dogecoin.Primitives

/-- The chains of chainparams.cpp, as `NameOfChain()` names them. -/
inductive ChainName
  | main
  | test
  | regtest
  | inu
deriving DecidableEq, Repr

/-- `Consensus::Params`: the fields of the proof of work and of the auxpow. -/
structure Params where
  powLimit : UInt256
  nPowTargetTimespan : Int64
  fDigishieldDifficultyCalculation : Bool
  nAuxpowChainId : Int32
  fStrictChainId : Bool
  /-- The height where these parameters come into use. -/
  nHeightEffective : UInt32
deriving DecidableEq, Repr

/-- The binary search tree of parameters that `pLeft` and `pRight` link; `NULL` is `null`. -/
inductive ConsensusTree
  | null
  | node (pLeft : ConsensusTree) (params : Params) (pRight : ConsensusTree)
deriving DecidableEq, Repr

/-- `Params::GetConsensus` from the root of `tree`; `none` only for the `NULL` tree. -/
def ConsensusTree.getConsensus (nTargetHeight : UInt32) : ConsensusTree → Option Params
  | null => none
  | node pLeft this pRight =>
      if nTargetHeight < this.nHeightEffective ∧ pLeft ≠ null then pLeft.getConsensus nTargetHeight
      else if nTargetHeight > this.nHeightEffective ∧ pRight ≠ null then
        match pRight.getConsensus nTargetHeight with
        | some pCandidate =>
            if pCandidate.nHeightEffective ≤ nTargetHeight then some pCandidate else some this
        | none => some this
      -- no better match below the target height
      else some this

/-- A tree of one node answers with that node for every height. -/
@[simp]
theorem getConsensus_leaf (nTargetHeight : UInt32) (params : Params) :
    (ConsensusTree.node .null params .null).getConsensus nTargetHeight = some params := by
  simp [ConsensusTree.getConsensus]

/-- A root with one leaf below it and one above it, as the main and regression test chains assemble them. -/
theorem getConsensus_three (nTargetHeight : UInt32) (below root above : Params) :
    (ConsensusTree.node (.node .null below .null) root (.node .null above .null)).getConsensus
        nTargetHeight =
      some (if nTargetHeight < root.nHeightEffective then below
        else if nTargetHeight > root.nHeightEffective ∧ above.nHeightEffective ≤ nTargetHeight
        then above else root) := by
  unfold ConsensusTree.getConsensus
  by_cases early : nTargetHeight < root.nHeightEffective
  · simp [early]
  · by_cases late : nTargetHeight > root.nHeightEffective
    · by_cases reached : above.nHeightEffective ≤ nTargetHeight
      · simp [early, late, reached]
      · simp [early, late, reached]
    · simp [early, late]

/-! ## The chains -/

/-- The main chain before Digishield: blocks below 145000. -/
def CMainParams.consensus : Params where
  powLimit := 0x00000fffffffffffffffffffffffffffffffffffffffffffffffffffffffffff
  nPowTargetTimespan := 4 * 60 * 60
  fDigishieldDifficultyCalculation := false
  nAuxpowChainId := 0x0062
  fStrictChainId := true
  nHeightEffective := 0

/-- Blocks 145000 to 371336 of the main chain: Digishield without auxpow. -/
def CMainParams.digishieldConsensus : Params :=
  { CMainParams.consensus with
    nHeightEffective := 145000
    fDigishieldDifficultyCalculation := true
    nPowTargetTimespan := 60 }

/-- Blocks from 371337 of the main chain: auxpow. -/
def CMainParams.auxpowConsensus : Params :=
  { CMainParams.digishieldConsensus with nHeightEffective := 371337 }

def CMainParams.pConsensusRoot : ConsensusTree :=
  .node (.node .null CMainParams.consensus .null) CMainParams.digishieldConsensus
    (.node .null CMainParams.auxpowConsensus .null)

def CTestNetParams.consensus : Params where
  powLimit := 0x00000fffffffffffffffffffffffffffffffffffffffffffffffffffffffffff
  nPowTargetTimespan := 4 * 60 * 60
  fDigishieldDifficultyCalculation := false
  nAuxpowChainId := 0x0062
  fStrictChainId := false
  nHeightEffective := 0

def CTestNetParams.digishieldConsensus : Params :=
  { CTestNetParams.consensus with
    nHeightEffective := 145000
    nPowTargetTimespan := 60
    fDigishieldDifficultyCalculation := true }

/-- Test network blocks from 157500, which allow blocks of the minimum difficulty again. -/
def CTestNetParams.minDifficultyConsensus : Params :=
  { CTestNetParams.digishieldConsensus with nHeightEffective := 157500 }

def CTestNetParams.auxpowConsensus : Params :=
  { CTestNetParams.minDifficultyConsensus with nHeightEffective := 158100 }

def CTestNetParams.pConsensusRoot : ConsensusTree :=
  .node (.node .null CTestNetParams.consensus .null) CTestNetParams.digishieldConsensus
    (.node .null CTestNetParams.minDifficultyConsensus
      (.node .null CTestNetParams.auxpowConsensus .null))

/--
The regression test chain before Digishield.  chainparams.cpp never sets its
`nHeightEffective`; it is a leaf, so no walk compares against it for its
answer, and the model takes `0`.
-/
def CRegTestParams.consensus : Params where
  powLimit := 0x7fffffffffffffffffffffffffffffffffffffffffffffffffffffffffffffff
  nPowTargetTimespan := 4 * 60 * 60
  fDigishieldDifficultyCalculation := false
  nAuxpowChainId := 0x0062
  fStrictChainId := true
  nHeightEffective := 0

def CRegTestParams.digishieldConsensus : Params :=
  { CRegTestParams.consensus with
    nHeightEffective := 10
    nPowTargetTimespan := 1
    fDigishieldDifficultyCalculation := true }

def CRegTestParams.auxpowConsensus : Params :=
  { CRegTestParams.digishieldConsensus with nHeightEffective := 20 }

def CRegTestParams.pConsensusRoot : ConsensusTree :=
  .node (.node .null CRegTestParams.consensus .null) CRegTestParams.digishieldConsensus
    (.node .null CRegTestParams.auxpowConsensus .null)

/-- The inu chain: one parameter set, with the limit `(~arith_uint256()) >> 6`. -/
def CInuParams.consensus : Params where
  powLimit := BitVec.allOnes 256 >>> 6
  nPowTargetTimespan := 60
  fDigishieldDifficultyCalculation := true
  nAuxpowChainId := 0x62
  fStrictChainId := false
  nHeightEffective := 0

def CInuParams.pConsensusRoot : ConsensusTree :=
  .node .null CInuParams.consensus .null

/-- `ParamsFor(chain)`: the root of the chain's tree of parameters. -/
def paramsFor : ChainName → ConsensusTree
  | .main => CMainParams.pConsensusRoot
  | .test => CTestNetParams.pConsensusRoot
  | .regtest => CRegTestParams.pConsensusRoot
  | .inu => CInuParams.pConsensusRoot

/-- The main chain: its first parameters below 145000, Digishield up to 371336, auxpow from 371337. -/
theorem getConsensus_main (nTargetHeight : UInt32) :
    CMainParams.pConsensusRoot.getConsensus nTargetHeight =
      some (if nTargetHeight < 145000 then CMainParams.consensus
        else if nTargetHeight < 371337 then CMainParams.digishieldConsensus
        else CMainParams.auxpowConsensus) := by
  unfold CMainParams.pConsensusRoot
  rw [getConsensus_three]
  congr 1
  simp only [CMainParams.auxpowConsensus, CMainParams.digishieldConsensus]
  by_cases early : nTargetHeight < 145000
  · simp [early]
  · by_cases late : nTargetHeight < 371337
    · have mid : ¬(nTargetHeight > 145000 ∧ (371337 : UInt32) ≤ nTargetHeight) :=
        fun both => UInt32.not_le.2 late both.2
      simp [early, late, mid]
    · have past : nTargetHeight > 145000 ∧ (371337 : UInt32) ≤ nTargetHeight := by
        simp only [UInt32.lt_iff_toNat_lt, UInt32.le_iff_toNat_le, UInt32.toNat_ofNat] at early late ⊢
        omega
      simp [early, late, past]

end Dogecoin.Pow
