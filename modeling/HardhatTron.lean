import HardhatTron.Lib.Runs
import HardhatTron.Lib.OrderedMap
import HardhatTron.Lib.Number
import HardhatTron.Lib.Checkpoints
import HardhatTron.Node.Snapshots
import HardhatTron.Node.SnapshotRuns
import HardhatTron.Node.SnapshotIds
import HardhatTron.Runtime.FixtureData
import HardhatTron.Runtime.InstanceIdSettling
import HardhatTron.Runtime.InstanceIdSharing
import HardhatTron.Node.MiningRace
import HardhatTron.Node.Chain
import HardhatTron.Runtime.Time
import HardhatTron.Runtime.TimeFaults
import HardhatTron.Runtime.TimeWarp
import HardhatTron.Lib.Separated
import HardhatTron.Runtime.PrebuildRuns
import HardhatTron.Lib.Recency
import HardhatTron.Runtime.TxReceipts
import HardhatTron.Runtime.KnownReceipts
import HardhatTron.Runtime.ValueFlow
import HardhatTron.Runtime.CreateMappings
import HardhatTron.Runtime.CreateMappingRuns
import HardhatTron.Lib.Serializability
import HardhatTron.Node.Cheatcodes
import HardhatTron.Node.MiningFlags
import HardhatTron.Lib.Directory
import HardhatTron.Compile.Downloader
import HardhatTron.Compile.Manifest
import HardhatTron.Compile.CompilerCache
import HardhatTron.Compile.ManifestMirrors
import HardhatTron.Compile.SourceResolver
import HardhatTron.Compile.CompileBatches
import HardhatTron.Tre.Lifecycle
import HardhatTron.Tre.ServingContainer
import HardhatTron.Runtime.MetadataProvider
import HardhatTron.Lib.HexBytes
import HardhatTron.Node.NodeView
import HardhatTron.Runtime.AutoRegister
import HardhatTron.Runtime.CreatePairing
import HardhatTron.Lib.Ledger
import HardhatTron.Runtime.BalanceChanges
import HardhatTron.Runtime.TokenBalances
import HardhatTron.Lib.TypeText
import HardhatTron.Runtime.AbiTypes
import HardhatTron.Lib.RangeScan
import HardhatTron.Node.StorageRange
import HardhatTron.Lib.Faults
import HardhatTron.Node.RevertFaults
import HardhatTron.Node.SnapshotRace
import HardhatTron.Runtime.AbiValues
import HardhatTron.Runtime.DecodeReturn
import HardhatTron.Runtime.EncodeArgs
import HardhatTron.Node.SlotNarrowing
import HardhatTron.Node.MiningSchedule
import HardhatTron.Node.RestoreWrites
import HardhatTron.Node.SlotClock
import HardhatTron.Node.StoragePages
import HardhatTron.Runtime.PrebuildSplits
import HardhatTron.Runtime.Overloads
import HardhatTron.Lib.Json
import HardhatTron.Runtime.BigIntJson
import HardhatTron.Runtime.AddressForms
import HardhatTron.Runtime.Impersonation
import HardhatTron.Node.TransactionCapsule
import HardhatTron.Node.SignatureRuns
import HardhatTron.Runtime.FacadeNames
import HardhatTron.Runtime.DeployPolling
import HardhatTron.Compile.ListFiles
import HardhatTron.Lib.JsonText
import HardhatTron.Runtime.AccountBalance
import HardhatTron.Tre.TaskWrappers
import HardhatTron.Runtime.ArtifactLoads
import HardhatTron.Runtime.AddressCaches
import HardhatTron.Compile.CompilerVersions
import HardhatTron.Runtime.RevertData
import HardhatTron.Runtime.EvmShim
