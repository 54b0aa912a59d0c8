import LinuxSamples.Program.Runs
import LinuxSamples.Memory.Heap
import LinuxSamples.Memory.Store
import LinuxSamples.Memory.Ownership
import LinuxSamples.Stl.Vector
import LinuxSamples.Stl.Growth
import LinuxSamples.Stl.VectorLoops
import LinuxSamples.Stl.VectorSpec
import LinuxSamples.Stl.VectorMembers
import LinuxSamples.Stl.VectorRuns
import LinuxSamples.Stl.VectorCorrect
import LinuxSamples.Stl.VectorOrder
import LinuxSamples.Memory.CString
import LinuxSamples.Stl.String
import LinuxSamples.Stl.StringSpec
import LinuxSamples.Stl.StringRuns
import LinuxSamples.Stl.StringCorrect
import LinuxSamples.Stl.StringOrder
import LinuxSamples.Memory.Ledger
import LinuxSamples.Memory.CStringFaults
import LinuxSamples.Stl.StringLedger
import LinuxSamples.Text.Initialiser
import LinuxSamples.Awk.Functions
import LinuxSamples.Awk.TablePacker
import LinuxSamples.Awk.Headers
import LinuxSamples.Awk.TableLayout
import LinuxSamples.Awk.PassThrough
import LinuxSamples.Awk.DeclaredNames
import LinuxSamples.Network.Wire
import LinuxSamples.Socket.Buffer
import LinuxSamples.Socket.UppercaseEcho
import LinuxSamples.Socket.Greeting
import LinuxSamples.Socket.FileTransfer
import LinuxSamples.Socket.FileTransferSteps
import LinuxSamples.Socket.FileTransferInvariant
import LinuxSamples.Socket.FileTransferSafety
import LinuxSamples.Socket.FileTransferProgress
import LinuxSamples.Socket.FileTransferCorrect
import LinuxSamples.Socket.FileNameRequest
import LinuxSamples.Socket.UnsuccessfulDownload
import LinuxSamples.Stl.Substring
import LinuxSamples.Stl.StringChar
import LinuxSamples.Stl.StringAlias
import LinuxSamples.Stl.StringVector
import LinuxSamples.Stl.StringNul
import LinuxSamples.Stl.StringThrows
import LinuxSamples.Order.StrictWeak
import LinuxSamples.Stl.Pair
import LinuxSamples.Stl.VectorElements
import LinuxSamples.Stl.VectorReserve
import LinuxSamples.Thread.Alternation
import LinuxSamples.Program.Tally
import LinuxSamples.Thread.Counter
import LinuxSamples.Process.Mailbox
import LinuxSamples.Directory.Listing
import LinuxSamples.Crypto.Aead
import LinuxSamples.Crypto.AesGcm
import LinuxSamples.Text.Lines
import LinuxSamples.Shell.LogScripts
import LinuxSamples.Text.Wildcard
import LinuxSamples.Shell.Glob
import LinuxSamples.Shell.LineSelection
import LinuxSamples.Program.Nesting
import LinuxSamples.Hook.MallocHook
import LinuxSamples.Program.Critical
import LinuxSamples.Thread.Counting
import LinuxSamples.Thread.CriticalRegion
import LinuxSamples.Thread.Jobs
import LinuxSamples.Thread.FlagSemaphore
import LinuxSamples.Thread.MissedSignal
import LinuxSamples.Process.Fifo
import LinuxSamples.Process.NamedPipe
import LinuxSamples.Process.UnixSocket
import LinuxSamples.Network.Blocks
import LinuxSamples.Socket.Chat
import LinuxSamples.Text.Options
import LinuxSamples.Arguments.Getopt
import LinuxSamples.Text.Replace
import LinuxSamples.Shell.Words
import LinuxSamples.Shell.Getopts
import LinuxSamples.Shell.ReadText
import LinuxSamples.Shell.ReplaceInFiles
import LinuxSamples.Arguments.GetoptLong
import LinuxSamples.Stl.ClassVector
import LinuxSamples.Stl.ClassVectorLoops
import LinuxSamples.Stl.ClassVectorSpec
import LinuxSamples.Stl.ClassVectorMembers
import LinuxSamples.Stl.ClassVectorNests
import LinuxSamples.Stl.ClassVectorRuns
import LinuxSamples.Stl.VectorClass
import LinuxSamples.Stl.StringClass
import LinuxSamples.Stl.ClassVectorFrames
import LinuxSamples.Stl.StringFrames
import LinuxSamples.Stl.ClassVectorThrows
import LinuxSamples.Stl.ClassVectorUnchanged
