import Busyncr.Lib.ByteCodec
import Busyncr.Lib.ByteReader
import Busyncr.Lib.Directory
import Busyncr.Lib.OrderedTable
import Busyncr.Lib.Saturating
import Busyncr.Lib.Transition
import Busyncr.Core.Identity
import Busyncr.Core.Manifest
import Busyncr.Core.Crypto
import Busyncr.Core.Keyfile
import Busyncr.Core.Compression
import Busyncr.Store.Snapshots
import Busyncr.Store.Gc
import Busyncr.Store.Chunks
import Busyncr.Store.Prune
import Busyncr.Daemon.Integrity
import Busyncr.Daemon.TokenRuns
import Busyncr.Daemon.RegistryRuns
import Busyncr.Daemon.RegistryScans
import Busyncr.Daemon.ServiceRuns
import Busyncr.Daemon.RetentionRuns
import Busyncr.Daemon.BackupWindow
import Busyncr.Store.CrashRuns
import Busyncr.Client.RestoreSoundness
import Busyncr.Client.RoundTrip
import Busyncr.Store.Refcount
import Busyncr.Store.Marks
import Busyncr.Client.KeyRuns
import Busyncr.Client.KeySets
import Busyncr.Client.LedgerRuns
import Busyncr.Core.PolicyBench
import Busyncr.Core.Expansion
import Busyncr.Core.ManifestLimits
import Busyncr.Client.BenchAgreement
import Busyncr.Store.GcOutcome
import Busyncr.Store.Orphans
import Busyncr.Store.Pruned
import Busyncr.Client.FirstBackup
import Busyncr.Store.ObjectPaths
import Busyncr.Client.SafePaths
import Busyncr.Client.Calendar
import Busyncr.Client.Certificates
import Busyncr.Client.MessageSize
import Busyncr.Lib.Percentile
import Busyncr.Lib.Completion
import Busyncr.Core.RetentionBound
import Busyncr.Core.DedupAccounting
import Busyncr.Core.FanOutRuns
import Busyncr.Store.Status
import Busyncr.Client.ManifestProjection
import Busyncr.Store.Collection
import Busyncr.Store.Sequences
import Busyncr.Daemon.ServiceContents
import Busyncr.Client.Migration
import Busyncr.Daemon.Bootstrap
import Busyncr.Daemon.Admission
