import AimKernel.Bits
import AimKernel.Dyadic
import AimKernel.DyadicPool
import AimKernel.BuddyPmalloc
import AimKernel.Machine
import AimKernel.BuddyLoops
import AimKernel.BuddySpec
import AimKernel.BuddyRun
import AimKernel.MemoryZones
import AimKernel.ZoneFree
import AimKernel.ZoneAddresses
import AimKernel.PageAllocator
import AimKernel.AlignedPages
import AimKernel.BootPageTables
import AimKernel.BootTranslation
import AimKernel.IntrusiveRing
import AimKernel.ListHead
import AimKernel.DeviceList
import AimKernel.DeviceRun
import AimKernel.SlubVmalloc
import AimKernel.SlubSpec
import AimKernel.KoffsetBridge
import AimKernel.SlubRun
import AimKernel.MemoryStack
import AimKernel.BuddyService
import AimKernel.PageApi
import AimKernel.PageRecords
import AimKernel.StaleRecords
import AimKernel.ZeroedAllocation
import AimKernel.BootLoader
import AimKernel.BootEntry
import AimKernel.TrapFrame
import AimKernel.PageFilling
import AimKernel.BootstrapVmalloc
import AimKernel.Rpi2Zone
import AimKernel.DeviceWalk
import AimKernel.StoppingSink
import AimKernel.Snprintf
import AimKernel.FormatBuffer
import AimKernel.BootPrint
import AimKernel.FormatNumbers
import AimKernel.FormatCompose
import AimKernel.BootPrintCount
import AimKernel.SectorRounds
import AimKernel.ArmLoader
import AimKernel.Patches
import AimKernel.Framebuffer
import AimKernel.FbConsole
import AimKernel.FbRows
import AimKernel.Mailbox
import AimKernel.CString
import AimKernel.CMemory
import AimKernel.StringCompare
import AimKernel.StringCopy
import AimKernel.CyclicRedundancy
import AimKernel.ImageChecksum
import AimKernel.ScrollingTape
import AimKernel.CgaConsole
import AimKernel.WordStack
import AimKernel.I386Trap
import AimKernel.ExclusiveLock
import AimKernel.SharedConsole
import AimKernel.KernelSpace
import AimKernel.TaggedMessage
import AimKernel.PropertyMailbox
import AimKernel.Rpi2Boot
