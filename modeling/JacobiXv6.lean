import JacobiXv6.Jacobi.MaximumPrinciple
import JacobiXv6.Jacobi.Termination
import JacobiXv6.Jacobi.Input
import JacobiXv6.Log.Atomicity
import JacobiXv6.Log.Reserve
import JacobiXv6.Kernel.Handling
import JacobiXv6.Kernel.Multicast
import JacobiXv6.Kernel.PipeStream
import JacobiXv6.Kernel.PipeSleep
import JacobiXv6.Kernel.Sleeplock
import JacobiXv6.Kernel.Kills
import JacobiXv6.Kernel.IpcSleepers
import JacobiXv6.Kernel.Console
import JacobiXv6.Kernel.Reaping
import JacobiXv6.Kernel.Places
import JacobiXv6.Fs.Transparency
import JacobiXv6.Fs.IdeQueue
import JacobiXv6.FileSystem.Path
import JacobiXv6.FileSystem.SharedFile
import JacobiXv6.FileSystem.MkfsContents
import JacobiXv6.Assig.Progress
import JacobiXv6.Assig.UnicastSum
import JacobiXv6.Jacobi.Calls
import JacobiXv6.User.ShStrings
import JacobiXv6.User.Memmove
import JacobiXv6.Kernel.Syscall
import JacobiXv6.User.Printint
import JacobiXv6.Kernel.Mp
import JacobiXv6.User.Grep
import JacobiXv6.Kernel.Copyout
