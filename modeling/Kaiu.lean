import Kaiu.Library.Exit
import Kaiu.Exceptions
import Kaiu.PromiseState
import Kaiu.PromiseOnce
import Kaiu.ChainReference
import Kaiu.PromiseNest
import Kaiu.PromiseCompleted
import Kaiu.PromiseChain
import Kaiu.PromiseSchedule
import Kaiu.StreamState
import Kaiu.StreamSteps
import Kaiu.StreamDelivery
import Kaiu.StreamCompletion
import Kaiu.StreamFailure
import Kaiu.Library.Census
import Kaiu.PromiseCombine
import Kaiu.EventLoop
import Kaiu.EventLoopJoin
import Kaiu.EventBag
import Kaiu.Task
import Kaiu.StreamHandoff
import Kaiu.TaskStream
import Kaiu.TaskStreamOrder
import Kaiu.Decimal
import Kaiu.DecimalValue
import Kaiu.DecimalParallel
import Kaiu.DecimalObjects
import Kaiu.StreamStopping
import Kaiu.StreamTable
import Kaiu.EventThreads
import Kaiu.TaskReaction
import Kaiu.PromiseRethrow
import Kaiu.EventLoopShutdown
import Kaiu.StreamForward
import Kaiu.PromiseLinks
import Kaiu.PromiseBind
import Kaiu.DecimalExact
import Kaiu.DecimalInteger
import Kaiu.DecimalText
import Kaiu.PromiseFinalizers
import Kaiu.StreamChecks
import Kaiu.StreamRefused
import Kaiu.Library.LevelOrder
import Kaiu.SynchronousLoop
import Kaiu.Assertions
import Kaiu.Library.Mutex
import Kaiu.LockMany
import Kaiu.ConcurrentQueue
import Kaiu.StarterPistol
import Kaiu.StreamThreads
import Kaiu.StreamLock
import Kaiu.Library.Refinement
import Kaiu.QueueAtomic
import Kaiu.EventLoopStart
import Kaiu.EventLoopProgress
import Kaiu.ScopedCounter
import Kaiu.EventLoopOrder
import Kaiu.Library.Strides
import Kaiu.TaskStreamPools
import Kaiu.DecimalFactorial
import Kaiu.LockManyProgress
import Kaiu.SynchronousThrow
import Kaiu.PromiseLifetime
import Kaiu.Library.Deliveries
import Kaiu.StreamLifetime
import Kaiu.TaskPipeline
