import ApueToyCodes.Lib.ByteMem
import ApueToyCodes.Lib.Runs
import ApueToyCodes.Lib.BlockList
import ApueToyCodes.Malloc.Mm
import ApueToyCodes.Malloc.Tags
import ApueToyCodes.Malloc.Layout
import ApueToyCodes.Malloc.Correctness.Coalesce
import ApueToyCodes.Malloc.Correctness.Refine
import ApueToyCodes.Malloc.Correctness.MallocSim
import ApueToyCodes.Malloc.Client
import ApueToyCodes.Malloc.Correctness.Runs
import ApueToyCodes.Malloc.Correctness.Safety
import ApueToyCodes.Malloc.Correctness.FreeOrder
import ApueToyCodes.Malloc.Correctness.ClientData
import ApueToyCodes.Malloc.Correctness.SizeRange
import ApueToyCodes.Malloc.Correctness.FirstFit
import ApueToyCodes.Malloc.Correctness.AllocFree
import ApueToyCodes.Lib.CStr
import ApueToyCodes.OpenServer.Opend
import ApueToyCodes.OpenServer.Csopen
import ApueToyCodes.OpenServer.Verdict
import ApueToyCodes.OpenServer.Correctness.Send
import ApueToyCodes.OpenServer.Correctness.Split
import ApueToyCodes.OpenServer.Correctness.Descriptors
import ApueToyCodes.OpenServer.Correctness.Request
import ApueToyCodes.OpenServer.Correctness.Reply
import ApueToyCodes.OpenServer.Correctness.History
import ApueToyCodes.Lib.Framing
import ApueToyCodes.OpenServer.Correctness.Framing
import ApueToyCodes.SelectLoop.Clients
import ApueToyCodes.SelectLoop.Loop
import ApueToyCodes.SelectLoop.Correctness.Bookkeeping
import ApueToyCodes.Lib.Channels
import ApueToyCodes.TellWait.Pipes
import ApueToyCodes.TellWait.Correctness.Tokens
import ApueToyCodes.GuessGame.Guess
import ApueToyCodes.GuessGame.Correctness.Decided
import ApueToyCodes.Lib.CArray
import ApueToyCodes.Sorting.InsertSort
import ApueToyCodes.Sorting.Correctness.Quick
import ApueToyCodes.Sorting.Correctness.MergeSort
import ApueToyCodes.Lib.Gap
import ApueToyCodes.Sorting.Correctness.Shell
import ApueToyCodes.Lib.HeapTree
import ApueToyCodes.Lib.ArrayHeap
import ApueToyCodes.Sorting.Correctness.CreatHeap
import ApueToyCodes.Sorting.Correctness.HeapSort
import ApueToyCodes.Sorting.Correctness.IndexRange
import ApueToyCodes.OpenServer.Correctness.ArgSplit
import ApueToyCodes.Lib.CInt
import ApueToyCodes.FullIo.Readn
import ApueToyCodes.FullIo.Correctness.FullLength
import ApueToyCodes.SelectLoop.Correctness.ClientTable
import ApueToyCodes.Lib.FdTrace
import ApueToyCodes.UnixSocket.Sockets
import ApueToyCodes.UnixSocket.Correctness.Ownership
import ApueToyCodes.OpenServer.ServerStart
import ApueToyCodes.OpenServer.Correctness.Start
import ApueToyCodes.FdPassing.MyFd
import ApueToyCodes.FdPassing.Correctness.RoundTrip
import ApueToyCodes.Popen.MyPopen
import ApueToyCodes.Popen.Correctness.Cleanup
import ApueToyCodes.Popen.Correctness.Streams
import ApueToyCodes.TcpSocket.Helpers
import ApueToyCodes.TcpSocket.Correctness.Ownership
import ApueToyCodes.GuessGame.Correctness.Score
import ApueToyCodes.Lib.Clock
import ApueToyCodes.Timeout.Timer
import ApueToyCodes.Timeout.Correctness.Schedule
import ApueToyCodes.Lib.Congruential
import ApueToyCodes.Rand.MyRand
import ApueToyCodes.Rand.Correctness.Period
import ApueToyCodes.Environ.Putenv
import ApueToyCodes.Environ.Correctness.PutGet
import ApueToyCodes.Sorting.Correctness.TwoSorts
import ApueToyCodes.Malloc.Correctness.Exact
import ApueToyCodes.Sorting.Correctness.MergeInPlace
import ApueToyCodes.ApueDb.Correctness.Separator
import ApueToyCodes.FooHash.Correctness.Results
import ApueToyCodes.Rot13.Correctness.Agree
import ApueToyCodes.Semaph.Correctness.Units
import ApueToyCodes.OpenServer.ClientMain
import ApueToyCodes.OpenServer.Correctness.ClientMain
import ApueToyCodes.Printd.Correctness.Reuse
import ApueToyCodes.Printd.Correctness.Workers
import ApueToyCodes.Printd.Correctness.Ipp
import ApueToyCodes.Semaph.Correctness.OpenRace
