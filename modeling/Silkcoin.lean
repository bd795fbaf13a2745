import Silkcoin.Lib.Validation
import Silkcoin.Lib.Store
import Silkcoin.Lib.SpendLedger
import Silkcoin.Amount
import Silkcoin.Bignum
import Silkcoin.Script
import Silkcoin.Transaction
import Silkcoin.Block
import Silkcoin.Accept
import Silkcoin.TxDb
import Silkcoin.Inputs
import Silkcoin.ConnectBlock
import Silkcoin.Value
import Silkcoin.TxIndex
import Silkcoin.Chain
import Silkcoin.PathIndependence
import Silkcoin.Wallet
import Silkcoin.WalletNotices
import Silkcoin.Node
import Silkcoin.Switch
import Silkcoin.TipAgreement
import Silkcoin.LevelDb
import Silkcoin.Lib.InverseIndex
import Silkcoin.Mempool
import Silkcoin.Compact
import Silkcoin.Retarget
import Silkcoin.MinWork
import Silkcoin.Interpreter
import Silkcoin.SigOps
import Silkcoin.FailedSwitch
import Silkcoin.Supply
import Silkcoin.PoolConflicts
import Silkcoin.PoolInputs
import Silkcoin.Lib.Incremental
import Silkcoin.DataStream
import Silkcoin.Messages
import Silkcoin.Framing
import Silkcoin.Lib.SetIndex
import Silkcoin.OrphanTx
import Silkcoin.OrphanMessage
import Silkcoin.KeyStore
import Silkcoin.KeyPool
import Silkcoin.WalletBirthday
import Silkcoin.WalletRescan
import Silkcoin.WalletSpent
import Silkcoin.Kernel
import Silkcoin.AddBlock
import Silkcoin.SyncCheckpoint
import Silkcoin.ProcessBlock
import Silkcoin.OrphanBlocks
import Silkcoin.CreateNewBlock
import Silkcoin.BlockTemplate
import Silkcoin.CoinStake
import Silkcoin.SignBlock
import Silkcoin.SignedBlock
import Silkcoin.Lib.MerkleTree
import Silkcoin.MerkleRoot
import Silkcoin.StackAccess
import Silkcoin.ScriptLimits
import Silkcoin.Lib.Codec
import Silkcoin.Serialize
import Silkcoin.DiskFiles
import Silkcoin.IsMine
import Silkcoin.StakeReward
import Silkcoin.WalletBalance
import Silkcoin.Lib.Positions
import Silkcoin.Lib.Buckets
import Silkcoin.NetAddr
import Silkcoin.AddrMan
import Silkcoin.AddrTables
import Silkcoin.AddrCheck
import Silkcoin.MerkleBranch
import Silkcoin.Lib.Lineage
import Silkcoin.MainChain
import Silkcoin.FindBlock
import Silkcoin.CheckpointChain
import Silkcoin.KernelChain
import Silkcoin.Locator
import Silkcoin.StakeModifier
import Silkcoin.Solver
import Silkcoin.Lib.Delimited
import Silkcoin.SignatureHash
import Silkcoin.Lib.Matching
import Silkcoin.StandardRun
import Silkcoin.SignSignature
import Silkcoin.Lib.Assign
import Silkcoin.CombineSignatures
import Silkcoin.Lib.Recall
import Silkcoin.SignatureCache
import Silkcoin.CanonicalSignature
import Silkcoin.ScriptOps
import Silkcoin.Lib.Subset
import Silkcoin.SelectCoins
import Silkcoin.CoinAge
import Silkcoin.ValueSums
import Silkcoin.JustCheck
import Silkcoin.StreamQueue
import Silkcoin.AddMultisig
import Silkcoin.Lib.Shuffle
import Silkcoin.SelectTried
import Silkcoin.DiskIndex
import Silkcoin.Lib.Decimal
import Silkcoin.Lib.OrderedMap
import Silkcoin.MapValue
import Silkcoin.AccountingEntry
import Silkcoin.WalletRecord
import Silkcoin.WalletRepair
import Silkcoin.Lib.Memo
import Silkcoin.SelectedValue
import Silkcoin.CreateTransaction
import Silkcoin.Lib.Marks
import Silkcoin.ImportBlocks
import Silkcoin.Lib.Components
import Silkcoin.AddressGroupings
import Silkcoin.PeersFile
import Silkcoin.PeersRoundTrip
import Silkcoin.Lib.CString
import Silkcoin.Lib.Glob
import Silkcoin.WildcardMatch
import Silkcoin.Lib.OrderStatistic
import Silkcoin.MedianTime
import Silkcoin.Maturity
import Silkcoin.CheckMultiSig
import Silkcoin.MinFee
import Silkcoin.Lib.Radix
import Silkcoin.Base58
import Silkcoin.Lib.Regroup
import Silkcoin.BaseText
import Silkcoin.Base64
import Silkcoin.Money
import Silkcoin.KeyForms
import Silkcoin.Passphrase
import Silkcoin.Alert
import Silkcoin.Mruset
import Silkcoin.Inventory
import Silkcoin.Lib.Words
import Silkcoin.BaseUint
import Silkcoin.BignumForms
import Silkcoin.AddrText
import Silkcoin.Lib.Takes
import Silkcoin.SignRawTransaction
import Silkcoin.ReorderTransactions
import Silkcoin.Lib.Worklist
import Silkcoin.TrustedChange
import Silkcoin.Lib.Tally
import Silkcoin.AccountBalances
import Silkcoin.TotalBalance
import Silkcoin.GetBlocks
import Silkcoin.WalletDump
