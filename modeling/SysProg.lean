import SysProg.Library.Machine
import SysProg.Library.Border
import SysProg.FileIo.Kmp
import SysProg.FileIo.Kmp.Table
import SysProg.Chat.LinkedList
import SysProg.FileIo.Kmp.Search
import SysProg.Chat.Deque
import SysProg.Chat.Deque.Mirror
import SysProg.Chat.Deque.Representation
import SysProg.Chat.Deque.Behaviour
import SysProg.Chat.Client
import SysProg.Chat.Client.Delivery
import SysProg.Library.ForkJoin
import SysProg.Library.Rounding
import SysProg.Threading.MergeSort
import SysProg.Threading.MergeSort.Footprint
import SysProg.Threading.MergeSort.Correct
import SysProg.Library.Threads
import SysProg.Threading.Hogwarts
import SysProg.Threading.Hogwarts.Handoff
import SysProg.Threading.Hogwarts.Completion
import SysProg.Memory.Feast
import SysProg.Memory.Feast.Lfu
import SysProg.Library.Circular
import SysProg.Threading.RingBuffer
import SysProg.Threading.RingBuffer.Fifo
import SysProg.Threading.RingBuffer.Progress
import SysProg.Threading.RingBuffer.Wakeup
import SysProg.Network.SelectClient
import SysProg.Network.SelectClient.Wakeup
import SysProg.Chat.LinkedList.Links
import SysProg.Threading.Hogwarts.Progress
import SysProg.Threading.BatchBuffer
import SysProg.Threading.BatchBuffer.Alternation
import SysProg.Threading.BatchBuffer.Fills
import SysProg.Network.ForkServer
import SysProg.Network.ForkServer.Reaping
import SysProg.Threading.SharedList
import SysProg.Threading.CondSemaphore
import SysProg.Threading.CondSemaphore.Bound
import SysProg.Threading.SharedList.Chain
import SysProg.Library.Descriptors
import SysProg.Process.ShellPipe
import SysProg.Process.Pipe
import SysProg.Process.ShellPipe.Progress
import SysProg.Process.Pipe.Transfer
import SysProg.Process.FileServer
import SysProg.Process.FileServer.Session
import SysProg.Process.FileServer.Leak
import SysProg.Chat.Deque.Stack
import SysProg.Threading.TwoCounters
import SysProg.Threading.TwoCounters.Turns
import SysProg.Library.Transfer
import SysProg.Network.SendAll
import SysProg.FileIo.Kmp.Output
import SysProg.FileIo.Kmp.Reading
import SysProg.FileIo.Kmp.Reading.Interrupted
import SysProg.Library.Strtok
import SysProg.Process.Shell
import SysProg.Process.Shell.Tokens
import SysProg.Process.Shell.Lines
import SysProg.Process.Shell.Loop
import SysProg.FileIo.Kmp.Bounds
import SysProg.Threading.MergeSort.Halves
import SysProg.Library.Scanf
import SysProg.Memory.Feast.Orders
import SysProg.Threading.InsertionSort
import SysProg.Memory.Feast.Termination
import SysProg.BufferedIo.FwriteCopy
import SysProg.FileIo.Printing
import SysProg.Library.Sockets
import SysProg.Network.Listener
import SysProg.Network.Listener.Reply
import SysProg.Network.Listener.Addresses
import SysProg.Network.Client1
import SysProg.Process.UnixDaemon
import SysProg.Process.FileServer.Outcome
import SysProg.Process.FileServer.Range
import SysProg.Network.Listener.Serving
import SysProg.Threading.WatchCount
import SysProg.Threading.WatchCount.Total
import SysProg.Threading.TwoCounters.Returns
import SysProg.Threading.Summing
import SysProg.Threading.MergeSort.Ranges
import SysProg.Process.ForkExec
import SysProg.Library.Strcat
import SysProg.Process.Mkfifo
import SysProg.FileIo.Kmp.Linear
import SysProg.FileIo.Kmp.Program
import SysProg.Library.Channel
import SysProg.Library.Critical
import SysProg.Misc.Mqueue
import SysProg.Misc.Mqueue.Delivery
import SysProg.Threading.Counting
import SysProg.Threading.MyJoin
import SysProg.Threading.WatchCount.Completion
import SysProg.BufferedIo.FgetcBuffer
import SysProg.BufferedIo.FputsEcho
import SysProg.Chat.StdinPipe
import SysProg.FileIo.Ls
import SysProg.Network.ForkServer.Greeted
import SysProg.Network.Listener.Turns
import SysProg.Network.Talker
import SysProg.Network.Talker.Exchange
import SysProg.Network.ThreadedClient
import SysProg.Process.Daemon
import SysProg.Process.ShellPipe.Restored
import SysProg.Threading.RingBuffer.Completion
import SysProg.Threading.SharedList.Program
import SysProg.Network.SelectClient.Delivery
import SysProg.Threading.CondSemaphore.Deadlock
