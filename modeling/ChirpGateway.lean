import ChirpGateway.Address.Base58Encode
import ChirpGateway.Address.Bech32Code
import ChirpGateway.Address.ScriptAddress
import ChirpGateway.Address.SegwitCode
import ChirpGateway.Address.Typo
import ChirpGateway.Api.ConfigPost
import ChirpGateway.Api.Password
import ChirpGateway.Chirp.CoinbaseCheck
import ChirpGateway.Chirp.Draw
import ChirpGateway.Chirp.OutputBytes
import ChirpGateway.Chirp.Persistence
import ChirpGateway.Chirp.Record
import ChirpGateway.Chirp.RegistryRun
import ChirpGateway.Chirp.Tenure
import ChirpGateway.Coinbase.Coinbaser
import ChirpGateway.Coinbase.HeightPush
import ChirpGateway.Coinbase.Input
import ChirpGateway.Coinbase.Room
import ChirpGateway.Coinbase.ScriptSig
import ChirpGateway.Coinbase.Shared
import ChirpGateway.Coinbase.Size
import ChirpGateway.Coinbase.UserCoinbase
import ChirpGateway.Coinbase.UserTx
import ChirpGateway.Coinbase.Vout
import ChirpGateway.Config.Kept
import ChirpGateway.Config.ModTable
import ChirpGateway.Config.Options
import ChirpGateway.Config.Read
import ChirpGateway.Config.SavedFile
import ChirpGateway.Config.Settings
import ChirpGateway.Config.UsernameMods
import ChirpGateway.Datum.Authentic
import ChirpGateway.Datum.CoinbaserFetch
import ChirpGateway.Datum.CoinbaserParse
import ChirpGateway.Datum.Configure
import ChirpGateway.Datum.Header
import ChirpGateway.Datum.PowAtomic
import ChirpGateway.Datum.PowCache
import ChirpGateway.Datum.PowMessage
import ChirpGateway.Datum.Queue
import ChirpGateway.Datum.Receive
import ChirpGateway.Datum.Send
import ChirpGateway.Datum.ServerMsg
import ChirpGateway.Datum.SessionNonces
import ChirpGateway.Datum.ValidationBounds
import ChirpGateway.Lib.BigEndian
import ChirpGateway.Lib.Coverage
import ChirpGateway.Lib.CyclicRanges
import ChirpGateway.Lib.CyclicScan
import ChirpGateway.Lib.Hex
import ChirpGateway.Lib.History
import ChirpGateway.Lib.JsonText
import ChirpGateway.Lib.LinearChecksum
import ChirpGateway.Lib.LongDivision
import ChirpGateway.Lib.Merkle
import ChirpGateway.Lib.Occupancy
import ChirpGateway.Lib.Outbox
import ChirpGateway.Lib.Ranking
import ChirpGateway.Lib.RoundRobin
import ChirpGateway.Lib.Script
import ChirpGateway.Lib.ScriptNum
import ChirpGateway.Lib.SizedRecords
import ChirpGateway.Lib.SlotChain
import ChirpGateway.Lib.Slots
import ChirpGateway.Lib.Tables
import ChirpGateway.Lib.Thresholds
import ChirpGateway.Lib.Window
import ChirpGateway.Lib.Wire
import ChirpGateway.Lib.Within
import ChirpGateway.Lib.Writes
import ChirpGateway.Pow.Distinguish
import ChirpGateway.Pow.Header
import ChirpGateway.Rpc.Handover
import ChirpGateway.Rpc.Submitblock
import ChirpGateway.Sockets.FreeSlots
import ChirpGateway.Sockets.KeptApart
import ChirpGateway.Sockets.ReadPath
import ChirpGateway.Sockets.Slots
import ChirpGateway.Sockets.ThreadLoop
import ChirpGateway.Sockets.ThreadPool
import ChirpGateway.Stratum.Block
import ChirpGateway.Stratum.BlockCoinbase
import ChirpGateway.Stratum.BlockLimits
import ChirpGateway.Stratum.Client
import ChirpGateway.Stratum.ClientStream
import ChirpGateway.Stratum.DiffLedger
import ChirpGateway.Stratum.Dupes
import ChirpGateway.Stratum.DupesCleanup
import ChirpGateway.Stratum.DupesRun
import ChirpGateway.Stratum.EmptyBarrier
import ChirpGateway.Stratum.EmptyBarrierRun
import ChirpGateway.Stratum.Job
import ChirpGateway.Stratum.MerkleBranches
import ChirpGateway.Stratum.MerkleScratch
import ChirpGateway.Stratum.Messages
import ChirpGateway.Stratum.ModUsername
import ChirpGateway.Stratum.NotifyRun
import ChirpGateway.Stratum.Pacing
import ChirpGateway.Stratum.SessionId
import ChirpGateway.Stratum.ShareRun
import ChirpGateway.Stratum.ShareTargets
import ChirpGateway.Stratum.Submit
import ChirpGateway.Stratum.TxCount
import ChirpGateway.Stratum.TypeLimits
import ChirpGateway.Stratum.UsernameExact
import ChirpGateway.Stratum.Vardiff
import ChirpGateway.Stratum.WorkLoop
import ChirpGateway.Template.Arena
import ChirpGateway.Template.Carousel
import ChirpGateway.Template.CarouselSet
import ChirpGateway.Template.HeaderFields
import ChirpGateway.Template.Lifetime
import ChirpGateway.Template.Parser
import ChirpGateway.Template.Rotation
import ChirpGateway.Template.SupplierPaid
import ChirpGateway.Template.Swap
import ChirpGateway.Template.Target
import ChirpGateway.Template.Truncation
