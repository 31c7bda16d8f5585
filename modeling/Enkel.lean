import Enkel.Outcome
import Enkel.Words
import Enkel.RadixTable
import Enkel.Types
import Enkel.MemoryState
import Enkel.TagRange
import Enkel.FreeBlockSearch
import Enkel.Paging
import Enkel.PageTables
import Enkel.KernelInvariant
import Enkel.MapPages
import Enkel.Refill
import Enkel.TableCount
import Enkel.Reachable
import Enkel.Progress
import Enkel.AddressMap
import Enkel.AllocationRuns
import Enkel.MemoryMap
import Enkel.MemoryMapStates
import Enkel.RefillReturns
import Enkel.NestedRefill
import Enkel.HardwareWalk
import Enkel.LargePages
import Enkel.UserMapping
import Enkel.KernelPages
import Enkel.FailedSearch
import Enkel.BitFields
import Enkel.VolumeTable
import Enkel.PathLookup
import Enkel.LongestRoot
import Enkel.Unmounting
import Enkel.ByteMemory
import Enkel.ProcessNesting
import Enkel.ProcessContext
import Enkel.SyscallStack
import Enkel.ElfLoader
import Enkel.SegmentBounds
import Enkel.SegmentContents
import Enkel.TlsImage
import Enkel.Rounding
import Enkel.ThreadLocal
import Enkel.MemoryLayout
import Enkel.ProcessStack
import Enkel.StackStrings
import Enkel.StackLayout
import Enkel.StackDecoding
import Enkel.StackAlignment
import Enkel.WriteLog
import Enkel.StackWrites
import Enkel.ProcessStart
import Enkel.RequestRuns
import Enkel.ProgramBreak
import Enkel.SameFile
import Enkel.HeapContents
import Enkel.BinaryRegistry
import Enkel.RegistryRuns
import Enkel.TranslatedMemory
import Enkel.FileMapping
import Enkel.RegionContents
import Enkel.ServedRefills
import Enkel.MappingReturns
import Enkel.RegionReads
import Enkel.IntrusiveList
import Enkel.NodePools
import Enkel.NodePoolLists
import Enkel.NodePoolRuns
import Enkel.NodePoolRefill
import Enkel.Circular
import Enkel.RingBuffer
import Enkel.StandardStreams
import Enkel.VolumeCalls
import Enkel.PositionedReads
import Enkel.FatHandles
import Enkel.DescriptorSafety
import Enkel.PathCalls
import Enkel.X86Stack
import Enkel.SyscallEntry
import Enkel.ProgramRun
import Enkel.FailedStart
import Enkel.ResourceLedger
import Enkel.OpenedFiles
import Enkel.RunFiles
import Enkel.RunBalance
import Enkel.SeekPositions
import Enkel.TransferResults
import Enkel.CachedSizes
import Enkel.CdromReads
import Enkel.DiskReads
import Enkel.Keyboard
import Enkel.TranslatedWords
import Enkel.PciConfig
import Enkel.PciAccesses
import Enkel.StackCompleteness
import Enkel.ExecveStrings
import Enkel.ExecveArguments
import Enkel.SpanMapping
import Enkel.SpanReleases
import Enkel.PoolDemand
import Enkel.LiveFrames
import Enkel.AcpiMapping
import Enkel.Numerals
import Enkel.IntegerText
import Enkel.LeafFlags
import Enkel.SegmentIndices
import Enkel.Protection
import Enkel.TextArrays
import Enkel.PathArrays
import Enkel.FramebufferRuns
import Enkel.FileBounds
import Enkel.HandleLoads
import Enkel.NumeralBuffers
import Enkel.KeyInput
import Enkel.GlyphPixels
import Enkel.TexturePixels
import Enkel.Base45
import Enkel.SpecialPaths
import Enkel.FontFile
import Enkel.TextEnds
import Enkel.TextLines
import Enkel.HpetCalibration
import Enkel.HpetSleeps
import Enkel.QrDump
import Enkel.Resolution
import Enkel.CommandLists
import Enkel.ApStartup
import Enkel.MadtEntries
import Enkel.ShellInput
import Enkel.ShellLines
import Enkel.StackTrace
import Enkel.MemoryMove
import Enkel.CharacterConversion
import Enkel.NodeSplits
import Enkel.NodePartition
import Enkel.InterruptFrames
import Enkel.InterruptReturns
import Enkel.RecordFields
import Enkel.UserMode
import Enkel.AhciCommands
import Enkel.InterruptController
import Enkel.InterruptTable
import Enkel.AllocatedMemory
import Enkel.BootMapping
import Enkel.KernelImage
import Enkel.BootHandover
import Enkel.DevicePaths
import Enkel.SegmentTable
import Enkel.FatRuns
import Enkel.FatArea
import Enkel.FatMount
