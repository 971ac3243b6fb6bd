import Dogecoin.Primitives.Transaction
import Dogecoin.Coins.Coins
import Dogecoin.Coins.Cache
import Dogecoin.Coins.Stack
import Dogecoin.Coins.StackInvariant
import Dogecoin.Coins.Simulation
import Dogecoin.Coins.Usage
import Dogecoin.Serialize.VarInt
import Dogecoin.Serialize.CompactSize
import Dogecoin.Serialize.Transaction
import Dogecoin.Validation.CheckTransaction
import Dogecoin.Coins.Compressor
import Dogecoin.Coins.Serialize
import Dogecoin.Coins.Undo
import Dogecoin.Validation.Connect
import Dogecoin.Validation.UndoRoundTrip
import Dogecoin.Validation.CacheStack
import Dogecoin.Lib.ExceptSpec
import Dogecoin.Script.Script
import Dogecoin.Script.Interpreter
import Dogecoin.Script.Verify
import Dogecoin.Script.SoftFork
import Dogecoin.Script.Safety
import Dogecoin.Chain.BlockIndex
import Dogecoin.Lib.Ancestry
import Dogecoin.Chain.SkipList
import Dogecoin.Chain.Chain
import Dogecoin.Chain.VersionBits
import Dogecoin.Arith.Compact
import Dogecoin.Pow.Params
import Dogecoin.Pow.Header
import Dogecoin.Pow.AuxPow
import Dogecoin.Consensus.Merkle
import Dogecoin.Consensus.MerkleCounter
import Dogecoin.Consensus.MerkleComputation
import Dogecoin.Script.ScriptNum
import Dogecoin.Script.Push
import Dogecoin.Script.SignatureEncoding
import Dogecoin.Script.Standard
import Dogecoin.Lib.Worklist
import Dogecoin.Mempool.TxMemPool
import Dogecoin.Mempool.Consistency
import Dogecoin.Mempool.Removal
import Dogecoin.Serialize.BlockEncodings
import Dogecoin.Key.PubKey
import Dogecoin.Net.ReceiveMsgBytes
import Dogecoin.Lib.BaseConversion
import Dogecoin.Util.Base58
import Dogecoin.Util.MoneyStr
import Dogecoin.Net.RollingBloom
