import Mathlib.Data.List.DropRight
import Mathlib.Algebra.Group.Int.Defs
import Mathlib.Algebra.Group.Nat.Defs
import Mathlib.Algebra.GroupWithZero.Nat

/-!
# Transactions, their outputs and scripts

The parts of `primitives/transaction.h`, `script/script.h` and `amount.h` that
the coins database and the transaction checks read.  A `CScript` is a byte
string (`prevector<28, unsigned char>`), and a `CTxOut` pairs an amount with a
locking script.  The null output, with amount `-1`, marks a spent output
inside a `CCoins` record.  A `uint256` is a 256-bit vector, null when zero.

Amounts are `CAmount = int64_t`.  The code stores them, compares them and adds
amounts already checked to lie in `MoneyRange`, so they are integers here; the
range checks that matter are stated where they are used.  The fields that have
a fixed width in the source and whose width the code relies on (`nVersion`,
`n`, `nSequence`, `nLockTime`) keep it.

The size of a transaction is the size of its serialization without witness
data, the one `CheckTransaction` bounds: `compactSize` lengths in front of
every vector and script, fixed widths for the other fields.
-/

namespace Dogecoin.Primitives

/-- `uint256`: a 256-bit hash. -/
abbrev UInt256 := BitVec 256

/-- `MAX_MONEY` (amount.h): `1000000 * E12COIN`. -/
def MAX_MONEY : Int := 1000000 * 1000000000000

/-- `MoneyRange` (amount.h). -/
def moneyRange (nValue : Int) : Bool :=
  0 ≤ nValue && nValue ≤ MAX_MONEY

/-- `CScript`: the bytes of a script. -/
abbrev CScript := List UInt8

/-- `MAX_SCRIPT_SIZE` (script/script.h). -/
def MAX_SCRIPT_SIZE : Nat := 10000

/-- `OP_RETURN` (script/script.h). -/
def OP_RETURN : UInt8 := 0x6a

/-- `OP_DUP` (script/script.h). -/
def OP_DUP : UInt8 := 0x76

/-- `OP_EQUAL` (script/script.h). -/
def OP_EQUAL : UInt8 := 0x87

/-- `OP_EQUALVERIFY` (script/script.h). -/
def OP_EQUALVERIFY : UInt8 := 0x88

/-- `OP_HASH160` (script/script.h). -/
def OP_HASH160 : UInt8 := 0xa9

/-- `OP_CHECKSIG` (script/script.h). -/
def OP_CHECKSIG : UInt8 := 0xac

/--
`CScript::IsUnspendable`: a script starting with `OP_RETURN`, or longer than
`MAX_SCRIPT_SIZE`, can never be spent.
-/
def CScript.isUnspendable (script : CScript) : Bool :=
  (script.head? == some OP_RETURN) || decide (MAX_SCRIPT_SIZE < script.length)

/-- `CTxOut`: an amount and its locking script. -/
structure CTxOut where
  nValue : Int
  scriptPubKey : CScript
deriving DecidableEq, Repr

namespace CTxOut

/-- `CTxOut::SetNull`, which is also the default constructor `CTxOut()`. -/
def null : CTxOut where
  nValue := -1
  scriptPubKey := []

/-- `CTxOut::IsNull`: only the amount is inspected. -/
def isNull (out : CTxOut) : Bool :=
  out.nValue == -1

@[simp]
theorem isNull_null : null.isNull = true := by
  decide

end CTxOut

/-- `COutPoint`: an output of an earlier transaction, by hash and index. -/
structure COutPoint where
  hash : UInt256
  n : UInt32
deriving DecidableEq, Repr

/-- `COutPoint::IsNull`: the null hash with index `(uint32_t) -1`, as in a coinbase input. -/
def COutPoint.isNull (prevout : COutPoint) : Bool :=
  prevout.hash == 0 && prevout.n == UInt32.ofNat (2 ^ 32 - 1)

/-- `CTxIn`: the output it spends, its unlocking script and its sequence number. -/
structure CTxIn where
  prevout : COutPoint
  scriptSig : CScript
  nSequence : UInt32
deriving DecidableEq, Repr

/-- `CTransaction`: version, inputs, outputs and lock time. -/
structure CTransaction where
  nVersion : Int32
  vin : List CTxIn
  vout : List CTxOut
  nLockTime : UInt32
deriving DecidableEq, Repr

/-- `CTransaction::IsCoinBase`: one input, spending the null outpoint. -/
def CTransaction.isCoinBase (tx : CTransaction) : Bool :=
  match tx.vin with
  | [txin] => txin.prevout.isNull
  | _ => false

/-! ## Serialized size -/

/-- `GetSizeOfCompactSize`. -/
def getSizeOfCompactSize (nSize : Nat) : Nat :=
  if nSize < 253 then 1
  else if nSize ≤ 0xFFFF then 3
  else if nSize ≤ 0xFFFFFFFF then 5
  else 9

/-- The serialized size of a script: its length as a `compactSize`, then its bytes. -/
def CScript.serializeSize (script : CScript) : Nat :=
  getSizeOfCompactSize script.length + script.length

/-- The serialized size of an input: a 36-byte outpoint, the script, a 4-byte sequence. -/
def CTxIn.serializeSize (txin : CTxIn) : Nat :=
  36 + txin.scriptSig.serializeSize + 4

/-- The serialized size of an output: an 8-byte amount and the script. -/
def CTxOut.serializeSize (txout : CTxOut) : Nat :=
  8 + txout.scriptPubKey.serializeSize

/--
`GetSerializeSize(tx, SER_NETWORK, PROTOCOL_VERSION | SERIALIZE_TRANSACTION_NO_WITNESS)`:
version, inputs, outputs and lock time.
-/
def CTransaction.getSerializeSize (tx : CTransaction) : Nat :=
  4 + getSizeOfCompactSize tx.vin.length + (tx.vin.map CTxIn.serializeSize).sum +
    getSizeOfCompactSize tx.vout.length + (tx.vout.map CTxOut.serializeSize).sum + 4

end Dogecoin.Primitives
