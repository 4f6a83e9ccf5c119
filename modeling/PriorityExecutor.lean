import PriorityExecutor.Foundation.CeilDiv
import PriorityExecutor.Foundation.Binary64
import PriorityExecutor.Foundation.SlotRing
import PriorityExecutor.Foundation.LossyLink
import PriorityExecutor.Foundation.Leases
import PriorityExecutor.Foundation.LinearSearch
import PriorityExecutor.Foundation.WordSum
import PriorityExecutor.Foundation.DemandWindow
import PriorityExecutor.Foundation.Extremes
import PriorityExecutor.Strategy.Collect
import PriorityExecutor.Strategy.Eligibility
import PriorityExecutor.Strategy.PlainPath
import PriorityExecutor.Strategy.FixedPriorities
import PriorityExecutor.Strategy.DispatchSafety
import PriorityExecutor.Chain.ReleaseTime
import PriorityExecutor.Chain.Ring
import PriorityExecutor.Chain.Overtaking
import PriorityExecutor.Chain.EarliestFirst
import PriorityExecutor.Chain.Experiment
import PriorityExecutor.Chain.DequeBounds
import PriorityExecutor.Chain.StaticExperiment
import PriorityExecutor.Chain.LoneCallback
import PriorityExecutor.Chain.Topics
import PriorityExecutor.Chain.WiredChains
import PriorityExecutor.Chain.Overwrite
import PriorityExecutor.Chain.SharedTimer
import PriorityExecutor.Chain.Instants
import PriorityExecutor.Analysis.TaskSet
import PriorityExecutor.Analysis.TheoremTwo
import PriorityExecutor.Analysis.TheoremOne
import PriorityExecutor.Analysis.Termination
import PriorityExecutor.Analysis.Vectors
import PriorityExecutor.Analysis.Reordering
import PriorityExecutor.Analysis.Comparison
import PriorityExecutor.Timing.SimpleTimer
import PriorityExecutor.Executor.Exclusion
import PriorityExecutor.Executor.TimerGuard
import PriorityExecutor.Executor.Passes
import PriorityExecutor.Executor.Quiescence
import PriorityExecutor.Executor.SingleThread
import PriorityExecutor.Executor.Lifecycle
import PriorityExecutor.Executor.WaitForWork
import PriorityExecutor.Executor.ExperimentThreads
