import PriorityExecutor.Strategy.Rounds

/-!
# Worker threads

`MultiThreadTimedExecutor::run` is the loop of every worker thread.  Its atomic steps
are the critical section that selects an executable, the end of the callback, the
erase from `scheduled_timers_`, and the destruction of the loop-local `any_executable`.

The critical section leaves the loop body early in two cases.  Without an executable
`any_executable` is empty and its destruction does nothing.  With a timer that another
thread has scheduled, the group is given back under the lock and `any_executable` keeps
it, so that its destructor gives the group back once more, outside the lock.
-/

namespace PriorityExecutor

/-- Where a thread is in its loop, with its `any_executable`. -/
inductive Phase where
  | idle
  /-- The callback is about to be executed or being executed. -/
  | executing (anyExec : AnyExecutable)
  /-- The callback has finished; a timer is still in `scheduled_timers_`. -/
  | executed (anyExec : AnyExecutable)
  /-- The timer was scheduled already; `any_executable` is not yet destroyed. -/
  | discarded (anyExec : AnyExecutable)
  deriving DecidableEq, Repr

/-- The data that the worker threads `ι` share, and the phase of each. -/
structure ExecutorState (ι : Type*) where
  strategy : Strategy
  canBeTakenFrom : GroupId → Bool := fun _ => true
  scheduledTimers : List Handle := []
  phase : ι → Phase := fun _ => .idle

/-- One atomic step of a thread.  The round of the critical section brings its inputs. -/
inductive WorkerEvent where
  | select (input : RoundInput)
  | finish
  | erase
  | destroy

/-- The second half of `get_next_ready_executable`: the result, and the flags after a
mutually exclusive group was marked as taken. -/
def getNextReadyExecutable (mutuallyExclusive canBeTakenFrom : GroupId → Bool)
    (anyExec : AnyExecutable) : Bool × (GroupId → Bool) :=
  match anyExec.isFilled, anyExec.callbackGroup with
  | true, some group =>
      (true,
        if mutuallyExclusive group then Function.update canBeTakenFrom group false
        else canBeTakenFrom)
  | success, _ => (success, canBeTakenFrom)

/-- `callback_group->can_be_taken_from().store(true)` for a group that is not null. -/
def giveBack (canBeTakenFrom : GroupId → Bool) : Option GroupId → GroupId → Bool
  | none => canBeTakenFrom
  | some group => Function.update canBeTakenFrom group true

/-- The round of a critical section reads the flags of the groups as they are. -/
def RoundInput.withFlags (input : RoundInput) (flags : GroupId → Bool) : RoundInput :=
  { input with canBeTakenFrom := flags, view := { input.view with canBeTakenFrom := flags } }

namespace ExecutorState

variable {ι : Type*} [DecidableEq ι]

/-- What the round of a critical section settles on, before its bookkeeping. -/
def chosen (state : ExecutorState ι) (input : RoundInput) :
    Option (Handle × AnyExecutable) :=
  let input := input.withFlags state.canBeTakenFrom
  (state.strategy.ready input).selected input.view

/-- The critical section after the round has returned `anyExec`. -/
def afterRound (mutuallyExclusive : GroupId → Bool) (state : ExecutorState ι) (thread : ι)
    (anyExec : AnyExecutable) (strategy : Strategy) : ExecutorState ι :=
  let (success, flags) :=
    getNextReadyExecutable mutuallyExclusive state.canBeTakenFrom anyExec
  if success then
    match anyExec.timer with
    | some timer =>
        if timer ∈ state.scheduledTimers then
          { state with
            strategy
            canBeTakenFrom := giveBack flags anyExec.callbackGroup
            phase := Function.update state.phase thread (.discarded anyExec) }
        else
          { strategy
            canBeTakenFrom := flags
            scheduledTimers := timer :: state.scheduledTimers
            phase := Function.update state.phase thread (.executing anyExec) }
    | none =>
        { state with
          strategy
          canBeTakenFrom := flags
          phase := Function.update state.phase thread (.executing anyExec) }
  else
    { state with strategy, canBeTakenFrom := flags }

/-- The step of a thread, where its phase allows it. -/
def next (mutuallyExclusive : GroupId → Bool) (state : ExecutorState ι)
    (label : ι × WorkerEvent) : Option (ExecutorState ι) :=
  match state.phase label.1, label.2 with
  | .idle, .select input =>
      match state.strategy.round (input.withFlags state.canBeTakenFrom) with
      | .error _ => none
      | .ok (anyExec, strategy) =>
          some (state.afterRound mutuallyExclusive label.1 anyExec strategy)
  | .executing anyExec, .finish =>
      -- the copy passed to `execute_subscription` is destroyed, or
      -- `execute_any_executable` stores the flag itself
      some { state with
        canBeTakenFrom := giveBack state.canBeTakenFrom anyExec.callbackGroup
        phase := Function.update state.phase label.1 (.executed anyExec) }
  | .executed anyExec, .erase =>
      -- the group pointer is reset, so the destruction that follows does nothing
      some { state with
        scheduledTimers :=
          match anyExec.timer with
          | some timer => state.scheduledTimers.erase timer
          | none => state.scheduledTimers
        phase := Function.update state.phase label.1 .idle }
  | .discarded anyExec, .destroy =>
      some { state with
        canBeTakenFrom := giveBack state.canBeTakenFrom anyExec.callbackGroup
        phase := Function.update state.phase label.1 .idle }
  | _, _ => none

/-- The step relation of all threads. -/
def Step (mutuallyExclusive : GroupId → Bool) (before : ExecutorState ι)
    (label : ι × WorkerEvent) (after : ExecutorState ι) : Prop :=
  before.next mutuallyExclusive label = some after

end ExecutorState

end PriorityExecutor
