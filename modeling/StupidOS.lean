import StupidOS.Lib.Word
import StupidOS.Lib.Loop
import StupidOS.Lib.Mixing
import StupidOS.Lib.Cycle
import StupidOS.Lib.Memory
import StupidOS.Lib.Run
import StupidOS.Lib.Scan
import StupidOS.Lib.Chain
import StupidOS.Lib.Extents
import StupidOS.Lib.Blocks
import StupidOS.Boot.Bios
import StupidOS.Boot.Mbr
import StupidOS.Boot.A20
import StupidOS.Boot.Disk
import StupidOS.Boot.DiskError
import StupidOS.Boot.Geometry
import StupidOS.Boot.StpdFs
import StupidOS.Boot.StpdRoot
import StupidOS.Boot.StpdSearch
import StupidOS.Boot.Fat12
import StupidOS.Boot.MemoryMap
import StupidOS.Boot.BootInfo
import StupidOS.Boot.Logger
import StupidOS.Boot.LoggerText
import StupidOS.Boot.PrintMmap
import StupidOS.Boot.EfiLogger
import StupidOS.Boot.EfiRepeat
import StupidOS.Lib.StringOps
import StupidOS.Lib.Cells
import StupidOS.Lib.Frame
import StupidOS.Stupidc.Arr
import StupidOS.Kernel.Const
import StupidOS.Kernel.Cga
import StupidOS.Kernel.CgaStack
import StupidOS.Kernel.Klog
import StupidOS.Kernel.KlogOutput
import StupidOS.Kernel.KlogFormat
import StupidOS.Kernel.KlogScan
import StupidOS.Loggers
import StupidOS.Kernel.Floppy
import StupidOS.Kernel.Isr
import StupidOS.Kernel.Queue
import StupidOS.Kernel.VmemSeg
import StupidOS.Kernel.Vmem
import StupidOS.Kernel.VmemArena
import StupidOS.Kernel.VmemSearch
import StupidOS.Kernel.VmemHash
import StupidOS.Kernel.VmemRuns
import StupidOS.Kernel.VmemCalls
import StupidOS.Kernel.VmemSystem
import StupidOS.Kernel.VmemAccounts
import StupidOS.Kernel.VmemEvents
import StupidOS.Kernel.Mmu
import StupidOS.Kernel.Bootstrap
import StupidOS.Kernel.Mappings
import StupidOS.Kernel.Pmm
import StupidOS.Kernel.PmmSteps
import StupidOS.Kernel.PmmList
import StupidOS.Kernel.PmmRuns
import StupidOS.Kernel.PmmLowMem
import StupidOS.Kernel.Proc
import StupidOS.Kernel.PmmInit
import StupidOS.Kernel.PmmFit
import StupidOS.Kernel.PmmMemory
import StupidOS.Kernel.Kbd
import StupidOS.Kernel.Kmain
import StupidOS.Kernel.FromDisk
import StupidOS.Kernel.KmainMemory
import StupidOS.Lib.Bytes
import StupidOS.Lib.File
import StupidOS.Lib.Strtol
import StupidOS.Ar.Archive
import StupidOS.Ar.ReadData
import StupidOS.Ar.Header
import StupidOS.Ar.Ranlib
import StupidOS.Ar.Names
import StupidOS.Ar.Safety
import StupidOS.Ar.Positions
import StupidOS.Fas2sym.Buffer
import StupidOS.Lib.Records
import StupidOS.Lib.Elf32
import StupidOS.Fas2sym.Elf
import StupidOS.Fas2sym.Puts
import StupidOS.Fas2sym.Fas
import StupidOS.Fas2sym.Failure
import StupidOS.Fas2sym.RoundTrip
import StupidOS.Fas2sym.Resolve
import StupidOS.Lib.Traced
import StupidOS.Fas2sym.Access
import StupidOS.Fas2sym.Loading
import StupidOS.Lib.Stdio
import StupidOS.Fdisk.Fildev
import StupidOS.Fdisk.Store
import StupidOS.Fdisk.Repl
import StupidOS.Lib.Heap
import StupidOS.Lib.Numeral
import StupidOS.Mtree.Node
import StupidOS.Coff.Header
import StupidOS.Coff.Readcoff
import StupidOS.Coff.Getsym
import StupidOS.Kernel.PmmStack
import StupidOS.Kernel.RegContract
import StupidOS.Lib.Tso
import StupidOS.Lib.Sections
import StupidOS.Kernel.Lock
import StupidOS.Kernel.Idt
import StupidOS.Kernel.Pic
import StupidOS.Boot.FatRoot
import StupidOS.Boot.FatBoot
import StupidOS.Boot.StpdBoot
