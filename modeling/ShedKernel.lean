import ShedKernel.Console.CellProperties
import ShedKernel.Console.Format
import ShedKernel.Console.FormatBuffer
import ShedKernel.Console.FormatProperties
import ShedKernel.Console.Screen
import ShedKernel.Console.ScreenProperties
import ShedKernel.Console.Serial
import ShedKernel.Console.SerialProperties
import ShedKernel.Console.WriteProperties
import ShedKernel.Cpu.Gdt
import ShedKernel.Cpu.Hardware
import ShedKernel.Cpu.HardwareProperties
import ShedKernel.Cpu.Idt
import ShedKernel.Cpu.IdtProperties
import ShedKernel.Cpu.Interrupts
import ShedKernel.Cpu.Launch
import ShedKernel.Cpu.LaunchProperties
import ShedKernel.Cpu.Segments
import ShedKernel.Cpu.Start
import ShedKernel.Cpu.StartProperties
import ShedKernel.Cpu.Syscall
import ShedKernel.Cpu.SyscallProperties
import ShedKernel.Drivers.Drawing
import ShedKernel.Drivers.Keyboard
import ShedKernel.Drivers.KeyboardProperties
import ShedKernel.Drivers.Layout
import ShedKernel.Drivers.LayoutProperties
import ShedKernel.Drivers.ShiftProperties
import ShedKernel.Drivers.Vga13
import ShedKernel.Editor.CommandBuffer
import ShedKernel.Editor.CommandBufferProperties
import ShedKernel.Editor.Config
import ShedKernel.Editor.CursorProperties
import ShedKernel.Editor.DirtyProperties
import ShedKernel.Editor.ExhaustionProperties
import ShedKernel.Editor.FlatText
import ShedKernel.Editor.HeldSession
import ShedKernel.Editor.Keypress
import ShedKernel.Editor.OnHeap
import ShedKernel.Editor.OnHeapProperties
import ShedKernel.Editor.OpenProperties
import ShedKernel.Editor.PasteProperties
import ShedKernel.Editor.QuitProperties
import ShedKernel.Editor.Refresh
import ShedKernel.Editor.RefreshProperties
import ShedKernel.Editor.RowBlocks
import ShedKernel.Editor.RowRefinement
import ShedKernel.Editor.RowRefusals
import ShedKernel.Editor.RowStore
import ShedKernel.Editor.RowStoreProperties
import ShedKernel.Editor.SaveProperties
import ShedKernel.Editor.SaveReports
import ShedKernel.Editor.SavedText
import ShedKernel.Editor.SessionSimulation
import ShedKernel.FileSystem.AllocationProperties
import ShedKernel.FileSystem.Apart
import ShedKernel.FileSystem.Directory
import ShedKernel.FileSystem.Disk
import ShedKernel.FileSystem.DiskProperties
import ShedKernel.FileSystem.FileTable
import ShedKernel.FileSystem.FileTableProperties
import ShedKernel.FileSystem.Isolation
import ShedKernel.FileSystem.Leaks
import ShedKernel.FileSystem.Names
import ShedKernel.FileSystem.OneMemory
import ShedKernel.FileSystem.OneMemoryProperties
import ShedKernel.FileSystem.OperationProperties
import ShedKernel.FileSystem.ReadProperties
import ShedKernel.FileSystem.Session
import ShedKernel.Foundation.AddressSpace
import ShedKernel.Foundation.Agreement
import ShedKernel.Foundation.Bitmap
import ShedKernel.Foundation.BlockDevice
import ShedKernel.Foundation.BlockList
import ShedKernel.Foundation.ByteCopy
import ShedKernel.Foundation.ByteMemory
import ShedKernel.Foundation.Bytes
import ShedKernel.Foundation.CString
import ShedKernel.Foundation.Calendar
import ShedKernel.Foundation.Interleaving
import ShedKernel.Foundation.InterruptController
import ShedKernel.Foundation.InterruptGate
import ShedKernel.Foundation.MaximalRuns
import ShedKernel.Foundation.NamedTable
import ShedKernel.Foundation.Numeral
import ShedKernel.Foundation.PageTable
import ShedKernel.Foundation.PcPorts
import ShedKernel.Foundation.Pieces
import ShedKernel.Foundation.Raster
import ShedKernel.Foundation.Records
import ShedKernel.Foundation.Ring
import ShedKernel.Foundation.Run
import ShedKernel.Foundation.Schedule
import ShedKernel.Foundation.SegmentAccess
import ShedKernel.Foundation.SegmentDescriptor
import ShedKernel.Foundation.Service
import ShedKernel.Foundation.Simulation
import ShedKernel.Foundation.TextCursor
import ShedKernel.Foundation.Word32
import ShedKernel.Foundation.X86
import ShedKernel.Foundation.X86Interrupt
import ShedKernel.Foundation.X86String
import ShedKernel.Heap.Allocator
import ShedKernel.Heap.AllocatorProperties
import ShedKernel.Heap.BestFitProperties
import ShedKernel.Heap.EditProperties
import ShedKernel.Heap.NodeChain
import ShedKernel.Heap.Ownership
import ShedKernel.Heap.ReallocProperties
import ShedKernel.Heap.Session
import ShedKernel.Heap.SessionProperties
import ShedKernel.Heap.TilingProperties
import ShedKernel.Heap.UserFrees
import ShedKernel.Paging.BootProperties
import ShedKernel.Paging.BreakProperties
import ShedKernel.Paging.Confinement
import ShedKernel.Paging.FrameProperties
import ShedKernel.Paging.FramebufferProperties
import ShedKernel.Paging.GrantProperties
import ShedKernel.Paging.InitProperties
import ShedKernel.Paging.Kernel
import ShedKernel.Paging.Loader
import ShedKernel.Paging.LoaderProperties
import ShedKernel.Paging.MapProperties
import ShedKernel.Paging.OnePageProperties
import ShedKernel.Paging.PageMap
import ShedKernel.Paging.SbrkProperties
import ShedKernel.Paging.TerminationProperties
import ShedKernel.Shell.Commands
import ShedKernel.Shell.Interpreter
import ShedKernel.Shell.InterpreterProperties
import ShedKernel.Shell.KeyboardProperties
import ShedKernel.Shell.LineProperties
import ShedKernel.Shell.Lines
import ShedKernel.Shell.LoopProperties
import ShedKernel.Shell.StrtokProperties
import ShedKernel.Shell.TokenProperties
import ShedKernel.Shell.TypingProperties
import ShedKernel.Strings.Copy
import ShedKernel.Strings.PointerCopy
import ShedKernel.Time.Mktime
import ShedKernel.Time.MktimeProperties
import ShedKernel.UserLibrary.Write
import ShedKernel.UserShell.LineProperties
import ShedKernel.UserShell.Lines
