import Mp3Kernel.Lib.Runs
import Mp3Kernel.Lib.Memory
import Mp3Kernel.Lib.Stacks
import Mp3Kernel.Lib.Words
import Mp3Kernel.Lib.Ring
import Mp3Kernel.Lib.Chain
import Mp3Kernel.Lib.Refine
import Mp3Kernel.Lib.StackMachine
import Mp3Kernel.Lib.Layout
import Mp3Kernel.Lib.Copy
import Mp3Kernel.Lib.CString
import Mp3Kernel.Terminal.Screen
import Mp3Kernel.Terminal.Console
import Mp3Kernel.Terminal.LogicalScreen
import Mp3Kernel.Terminal.Rows
import Mp3Kernel.Terminal.CursorRange
import Mp3Kernel.Terminal.Lines
import Mp3Kernel.Terminal.LineEditor
import Mp3Kernel.Terminal.Bystander
import Mp3Kernel.Terminal.TerminalRead
import Mp3Kernel.Terminal.Handshake
import Mp3Kernel.Terminal.EnterKey
import Mp3Kernel.Terminal.Backspace
import Mp3Kernel.Filesys.Image
import Mp3Kernel.Filesys.Lookup
import Mp3Kernel.Filesys.ReadData
import Mp3Kernel.Filesys.ReadContents
import Mp3Kernel.Filesys.Program
import Mp3Kernel.Filesys.Loader
import Mp3Kernel.Kernel.Task
import Mp3Kernel.Filesys.FileRead
import Mp3Kernel.Kernel.Descriptors
import Mp3Kernel.Kernel.DirectoryRead
import Mp3Kernel.Kernel.ReadBounds
import Mp3Kernel.Kernel.UserPointers
import Mp3Kernel.Kernel.Command
import Mp3Kernel.Kernel.CommandBounds
import Mp3Kernel.Kernel.Paging
import Mp3Kernel.Kernel.Sched
import Mp3Kernel.Kernel.SchedRules
import Mp3Kernel.Kernel.TaskForest
import Mp3Kernel.Kernel.Rollback
import Mp3Kernel.Kernel.LoadTask
import Mp3Kernel.Kernel.Isolation
import Mp3Kernel.Kernel.VideoMapping
import Mp3Kernel.Kernel.IdtPit
import Mp3Kernel.Kernel.ContextSwitch
import Mp3Kernel.Kernel.Preemption
import Mp3Kernel.Kernel.HaltStatus
import Mp3Kernel.Kernel.History
import Mp3Kernel.Kernel.TaskDirectory
import Mp3Kernel.Kernel.PageWalk
import Mp3Kernel.Kernel.AddressSpace
import Mp3Kernel.Kernel.MemoryProtection
import Mp3Kernel.Kernel.Turns
import Mp3Kernel.Kernel.Rtc
import Mp3Kernel.Kernel.RtcWait
import Mp3Kernel.Kernel.OpenName
import Mp3Kernel.Filesys.BlockList
import Mp3Kernel.Terminal.Keyboard
import Mp3Kernel.Terminal.Keypress
import Mp3Kernel.Terminal.Strokes
import Mp3Kernel.Terminal.Itoa
import Mp3Kernel.Terminal.Printf
import Mp3Kernel.Terminal.FormatScan
import Mp3Kernel.Filesys.ImageLayout
import Mp3Kernel.Terminal.BlockMoves
import Mp3Kernel.Terminal.ScreenMemory
import Mp3Kernel.Kernel.SystemCall
import Mp3Kernel.Kernel.InterruptEntry
import Mp3Kernel.Kernel.Sessions
import Mp3Kernel.Lib.Interrupts
import Mp3Kernel.Kernel.Gates
import Mp3Kernel.Lib.Cascade
import Mp3Kernel.Kernel.I8259
import Mp3Kernel.Programs.Blink
import Mp3Kernel.Programs.BlinkList
import Mp3Kernel.Programs.BlinkPhase
import Mp3Kernel.Programs.UserLibrary
import Mp3Kernel.Programs.Reading
import Mp3Kernel.Programs.Cat
import Mp3Kernel.Programs.Grep
import Mp3Kernel.Kernel.RtcDriver
import Mp3Kernel.Programs.Ls
import Mp3Kernel.Programs.GrepDirectory
import Mp3Kernel.Programs.Shell
