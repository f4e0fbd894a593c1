import RansomTag.Ftl.Api
import RansomTag.Library.Occupancy
import RansomTag.Ftl.View
import RansomTag.Ftl.PmtInvariant
import RansomTag.Ftl.PmtCommit
import RansomTag.Ftl.PmtAccess
import RansomTag.Ftl.DataInvariant
import RansomTag.Ftl.DataWrite
import RansomTag.Ftl.DataReclaim
import RansomTag.Ftl.Calls
import RansomTag.Ftl.RootLog
import RansomTag.Ftl.Mount
import RansomTag.Library.RingBuffer
import RansomTag.Usb.Command
import RansomTag.Usb.Msc
import RansomTag.Usb.Outcomes
import RansomTag.Hypervisor.Windows
import RansomTag.Usb.Capacity
import RansomTag.Usb.TagPath
import RansomTag.Ftl.Format
import RansomTag.Onfm.Reads
import RansomTag.Onfm.Requests
import RansomTag.Usb.ReadPath
import RansomTag.Ftl.LookupErrors
import RansomTag.Ftl.PmtRuns
import RansomTag.Hypervisor.Mft
import RansomTag.Library.Leases
import RansomTag.Mtd.MultiPlane
import RansomTag.Onfm.PageLayers
import RansomTag.Onfm.PartialWrites
import RansomTag.Ubi.FreeBlocks
import RansomTag.Usb.Ownership
import RansomTag.Ftl.Retention
import RansomTag.Hypervisor.ClusterBitmap
import RansomTag.Hypervisor.DetectorLists
import RansomTag.Hypervisor.Ext4Parsing
import RansomTag.Hypervisor.GuestMemory
import RansomTag.Hypervisor.LinuxDirectories
import RansomTag.Hypervisor.PatternList
import RansomTag.Hypervisor.RecoveryWindows
import RansomTag.Hypervisor.TaskLists
import RansomTag.Hypervisor.WinIntrospection
import RansomTag.Library.Pieces
import RansomTag.Recovery.Ext4Chunks
import RansomTag.Library.Chains
import RansomTag.Library.LittleEndian
import RansomTag.Library.Paths
import RansomTag.Library.Removals
import RansomTag.Library.Slices
import RansomTag.Recovery.BlockGroups
import RansomTag.Recovery.DeletedInodes
import RansomTag.Recovery.DirectoryBlocks
import RansomTag.Recovery.Ext4Snapshot
import RansomTag.Recovery.MftVersions
import RansomTag.Recovery.OutputNames
import RansomTag.Ftl.JournalSpace
import RansomTag.Ftl.DeviceRuns
import RansomTag.Ubi.TableSearch
import RansomTag.Ubi.WearLeveling
import RansomTag.Ubi.FormattedDevice
import RansomTag.Ftl.ProgramOrder
import RansomTag.Ftl.RootLogged
import RansomTag.Ftl.CleanMount
import RansomTag.Ftl.Persistence
import RansomTag.Ftl.VersionChains
import RansomTag.Ftl.VersionRecovery
import RansomTag.Ubi.FtlOnUbi
