import CppCoroutines.Machine
import CppCoroutines.Relay
import CppCoroutines.Channel
import CppCoroutines.Coroutine
import CppCoroutines.HalfDuplex
import CppCoroutines.Rendezvous
import CppCoroutines.Generator
import CppCoroutines.Executor
import CppCoroutines.Executor.Ledger
import CppCoroutines.Executor.Ends
import CppCoroutines.Wrapping
import CppCoroutines.Allocator
import CppCoroutines.HandlerAllocator
import CppCoroutines.HandlerAllocator.Releases
import CppCoroutines.Asio
import CppCoroutines.Duplex
import CppCoroutines.Classic.Server
import CppCoroutines.Classic.Lifetime
import CppCoroutines.Classic.Client
import CppCoroutines.Classic.Totals
import CppCoroutines.Classic.Moves
import CppCoroutines.Classic.Pair
import CppCoroutines.Classic.Deadlock
import CppCoroutines.Await.Adapters
import CppCoroutines.Await.Server
import CppCoroutines.Await.Client
import CppCoroutines.Await.Listener
import CppCoroutines.Await.Callback
import CppCoroutines.Await.Join
import CppCoroutines.Await.Polling
import CppCoroutines.WinRT.PoolAwaiter
import CppCoroutines.WinRT.Continuations
import CppCoroutines.WinRT.Disconnect
import CppCoroutines.WinRT.Blocks
import CppCoroutines.WinRT.Shutdown
import CppCoroutines.WinRT.Client
import CppCoroutines.WinRT.Timeout
import CppCoroutines.WinRT.Totals
import CppCoroutines.Basics.MoveNext
import CppCoroutines.Basics.IntGenerator
import CppCoroutines.Basics.Pipeline
import CppCoroutines.Basics.Ownership
import CppCoroutines.Await.Pending
import CppCoroutines.Executor.Stop
import CppCoroutines.Await.Stop
import CppCoroutines.Await.Pair
import CppCoroutines.WinRT.Promise
import CppCoroutines.WinRT.Completion
import CppCoroutines.WinRT.Results
import CppCoroutines.Basics.Future
import CppCoroutines.Basics.FutureRuns
import CppCoroutines.Basics.FutureEnds
import CppCoroutines.Polling
import CppCoroutines.Await.Repost
import CppCoroutines.Await.Easy
import CppCoroutines.Executor.Release
import CppCoroutines.Await.Clock
import CppCoroutines.WinRT.Awaited
import CppCoroutines.WinRT.Echo
import CppCoroutines.WinRT.Waiting
import CppCoroutines.Classic.Connections
import CppCoroutines.Executor.Alone
import CppCoroutines.Await.Sessions
