import Zdeex.Framework.KeyMap
import Zdeex.Framework.Run
import Zdeex.Framework.Checks
import Zdeex.Framework.Laxer
import Zdeex.Framework.Outcome
import Zdeex.Framework.LayerStack
import Zdeex.Framework.LazyLayers
import Zdeex.Framework.Lineage
import Zdeex.Framework.OwnedIndex
import Zdeex.Framework.MerkleFrontier
import Zdeex.Framework.MerkleTree
import Zdeex.Framework.OrderedMap
import Zdeex.Framework.Limbs
import Zdeex.Framework.Floating
import Zdeex.Framework.StepTable
import Zdeex.Framework.Traced
import Zdeex.Framework.Bytes
import Zdeex.Framework.BitStream
import Zdeex.Framework.Reader
import Zdeex.Framework.Codec
import Zdeex.Framework.Probe
import Zdeex.Framework.SteppedSum
import Zdeex.Framework.Judged
import Zdeex.Framework.Crashing
import Zdeex.Framework.Unspent
import Zdeex.Framework.Matching
import Zdeex.Framework.MatchedInOrder
import Zdeex.Primitives.Uint256
import Zdeex.Primitives.Serialize
import Zdeex.Primitives.IntegerEncodings
import Zdeex.Primitives.TransactionFormat
import Zdeex.Coins.CCoins
import Zdeex.Coins.View
import Zdeex.Coins.Frame
import Zdeex.Coins.Utxo
import Zdeex.Coins.Db
import Zdeex.Coins.PlainMap
import Zdeex.Coins.BestHash
import Zdeex.Coins.Nullifiers
import Zdeex.Coins.Anchors
import Zdeex.Coins.Shielded
import Zdeex.Coins.MemoryUsage
import Zdeex.Merkle.IncrementalMerkleTree
import Zdeex.Merkle.TreeRoot
import Zdeex.Merkle.IncrementalWitness
import Zdeex.Merkle.WitnessTracks
import Zdeex.Merkle.TreeSize
import Zdeex.Merkle.WitnessFormat
import Zdeex.Pow.ArithUint256
import Zdeex.Pow.BaseUint
import Zdeex.Pow.Compact
import Zdeex.Pow.BlockProof
import Zdeex.Pow.Retarget
import Zdeex.Pow.Easing
import Zdeex.Pow.StakeTarget
import Zdeex.Pow.SegIds
import Zdeex.Pow.CheckProofOfWork
import Zdeex.Pow.EquihashArrays
import Zdeex.Pow.Equihash
import Zdeex.Emission.HushEmission
import Zdeex.Emission.ScSupply
import Zdeex.Emission.ScLinear
import Zdeex.Emission.ScSubsidy
import Zdeex.Emission.Commission
import Zdeex.Emission.ScSupplyBound
import Zdeex.Emission.ScMaxMoney
import Zdeex.Notary.State
import Zdeex.Notary.StateFile
import Zdeex.Notary.Replay
import Zdeex.Notary.Stream
import Zdeex.Notary.ParserAgreement
import Zdeex.Notary.Checkpoints
import Zdeex.Notary.VoutUpdate
import Zdeex.Notary.NotaryPay
import Zdeex.Notary.PayFaults
import Zdeex.Notary.MinedPay
import Zdeex.Kv.HushKv
import Zdeex.Kv.Ownership
import Zdeex.Kv.SafeUpdate
import Zdeex.Script.OpReturn
import Zdeex.Script.ScriptNum
import Zdeex.Script.Instructions
import Zdeex.Script.Interpreter
import Zdeex.Script.MultiSig
import Zdeex.Script.Limits
import Zdeex.Script.SigOps
import Zdeex.Script.SoftFork
import Zdeex.Script.Blocks
import Zdeex.Framework.Uncounted
import Zdeex.Script.SignatureHash
import Zdeex.Script.SignedParts
import Zdeex.Script.Standard
import Zdeex.Script.Spending
import Zdeex.Script.LockTime
import Zdeex.Framework.Inevitable
import Zdeex.Block.CheckQueue
import Zdeex.Block.CheckQueueRuns
import Zdeex.Block.Transaction
import Zdeex.Block.CheckTransaction
import Zdeex.Block.SafeValues
import Zdeex.Block.Undo
import Zdeex.Block.CoinsView
import Zdeex.Block.Entries
import Zdeex.Block.Index
import Zdeex.Block.ConnectBlock
import Zdeex.Block.Alike
import Zdeex.Block.DisconnectBlock
import Zdeex.Block.ChainRun
import Zdeex.Block.Reorg
import Zdeex.Block.UndoBlock
import Zdeex.Block.CoinsFormat
import Zdeex.Block.Tombstones
import Zdeex.Block.Twins
import Zdeex.Block.IndexRuns
import Zdeex.Block.ActiveChain
import Zdeex.Block.Inflation
import Zdeex.Crosschain.PartialMerkleTree
import Zdeex.Crosschain.NotariesApproval
import Zdeex.Crosschain.TxAuthority
import Zdeex.Crosschain.CheckMigration
import Zdeex.Crosschain.NotarizationDb
import Zdeex.Crosschain.NotarizationFormat
import Zdeex.Crosschain.CrossChainProof
import Zdeex.Validity.Z2zHeight
import Zdeex.Validity.BlockStatus
import Zdeex.Validity.Candidates
import Zdeex.Validity.CandidateOrder
import Zdeex.Validity.ChainPower
import Zdeex.Validity.SkipList
import Zdeex.Validity.ChainIndex
import Zdeex.Validity.Linking
import Zdeex.Validity.Choosing
import Zdeex.Validity.Activation
import Zdeex.Validity.CandidateRuns
import Zdeex.Validity.Finality
import Zdeex.Validity.ChainTotals
import Zdeex.Validity.TotalRuns
import Zdeex.Validity.BlockStats
import Zdeex.Validity.ReloadTotals
import Zdeex.Mempool.Pool
import Zdeex.Mempool.Indexes
import Zdeex.Mempool.Descendants
import Zdeex.Mempool.Removal
import Zdeex.Mempool.Maintenance
import Zdeex.Mempool.Clear
import Zdeex.Mempool.OrphanPool
import Zdeex.Wallet.MapWallet
import Zdeex.Wallet.NoteWitnesses
import Zdeex.Wallet.WitnessCache
import Zdeex.Wallet.AbsentNullifiers
import Zdeex.Wallet.ChainNotifications
import Zdeex.Wallet.TrackedNotes
import Zdeex.Wallet.TrackedBuild
import Zdeex.Wallet.SyncedNotes
import Zdeex.Wallet.WitnessRuns
import Zdeex.Wallet.CoinSelection
import Zdeex.Wallet.OrderPositions
import Zdeex.Wallet.DeleteTransactions
import Zdeex.Wallet.SpendRecords
import Zdeex.Cc.Condition
import Zdeex.Cc.TokenOpRet
import Zdeex.Cc.TokenImport
import Zdeex.Cc.Tokens
import Zdeex.Cc.TokenSupply
import Zdeex.Cc.Assets
import Zdeex.Cc.FillPrice
import Zdeex.Cc.BidFill
import Zdeex.Cc.BurnedTokens
import Zdeex.Cc.Accesses
import Zdeex.Cc.AccessBounds
import Zdeex.Cc.Rewards
import Zdeex.Cc.Deposits
import Zdeex.Cc.Faucet
import Zdeex.Cc.FaucetPays
import Zdeex.Cc.ImportCoin
import Zdeex.Cc.ImportPayouts
import Zdeex.Cc.ImportPayload
import Zdeex.Crosschain.MerkleBranches
import Zdeex.Block.BodyCheck
import Zdeex.Crosschain.MerkleMatches
import Zdeex.Cc.TokenRoundTrip
import Zdeex.Cc.ConditionKeys
import Zdeex.Cc.TokenBuilders
import Zdeex.Cc.BuiltInputs
import Zdeex.Cc.BuiltOutputs
import Zdeex.Cc.BuiltTransactions
import Zdeex.Cc.SellsConserve
import Zdeex.Cc.BuildersConserve
import Zdeex.Cc.Dispatch
import Zdeex.Cc.CallHistory
import Zdeex.Cc.Verdicts
