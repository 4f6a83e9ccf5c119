import PriorityExecutor.Executor.Exclusion
import PriorityExecutor.Foundation.Leases

/-!
# The timer guard

`scheduled_timers_` is filled in one critical section and emptied in another, and the
callback runs outside both.  A thread leases its timer from the insert to the erase, and
the set is the registry of these leases.

The invariant does not look at the callback groups: it holds for mutually exclusive and
for reentrant groups, and in the runs in which their flags go wrong.
-/

namespace PriorityExecutor

/-- The timer that a thread has inserted and not yet erased. -/
def Phase.heldTimer : Phase → Option Handle
  | .executing anyExec | .executed anyExec => anyExec.timer
  | .idle | .discarded _ => none

namespace ExecutorState

variable {ι : Type*} [DecidableEq ι] {mutuallyExclusive : GroupId → Bool}
  {before after : ExecutorState ι} {label : ι × WorkerEvent}

/-- The registry of the timers. -/
def leases (state : ExecutorState ι) : Leases ι Handle :=
  ⟨state.scheduledTimers, fun thread => (state.phase thread).heldTimer⟩

/-- The thread executes, or is about to execute, the callback of the timer. -/
def ExecutesTimer (state : ExecutorState ι) (thread : ι) (timer : Handle) : Prop :=
  ∃ anyExec, state.phase thread = .executing anyExec ∧ anyExec.timer = some timer

/-- The step makes its thread discard the timer. -/
def DiscardsTimer (before : ExecutorState ι) (thread : ι) (after : ExecutorState ι)
    (timer : Handle) : Prop :=
  before.phase thread = .idle ∧
    ∃ anyExec, after.phase thread = .discarded anyExec ∧ anyExec.timer = some timer

/-- No thread has started and no timer is scheduled; the flags of the groups are free. -/
def NothingScheduled (state : ExecutorState ι) : Prop :=
  state.phase = (fun _ => .idle) ∧ state.scheduledTimers = []

/-- What the guard promises at a state. -/
structure Guarded (state : ExecutorState ι) : Prop where
  once : state.scheduledTimers.Nodup
  scheduled_iff : ∀ timer,
    timer ∈ state.scheduledTimers ↔ ∃ thread, (state.phase thread).heldTimer = some timer
  oneHolder : ∀ timer left right, (state.phase left).heldTimer = some timer →
    (state.phase right).heldTimer = some timer → left = right
  oneExecution : ∀ timer left right, state.ExecutesTimer left timer →
    state.ExecutesTimer right timer → left = right

/-! ## Each step is a move of its thread -/

theorem leases_update {thread : ι} {phase : Phase}
    (phaseEq : after.phase = Function.update before.phase thread phase) :
    after.leases =
      ⟨after.scheduledTimers,
        Function.update before.leases.holding thread phase.heldTimer⟩ := by
  unfold leases
  congr 1
  funext other
  rw [phaseEq, Function.update_apply, Function.update_apply]
  split <;> rfl

/-- A thread whose own lease stays as it is. -/
theorem move_of_same {thread : ι} (phase : Phase)
    (timersEq : after.scheduledTimers = before.scheduledTimers)
    (phaseEq : after.phase = Function.update before.phase thread phase)
    (same : phase.heldTimer = (before.phase thread).heldTimer) :
    Leases.Move thread before.leases after.leases := by
  have unchanged : after.leases = before.leases := by
    rw [leases_update phaseEq, timersEq, same]
    exact congrArg _ (Function.update_eq_self thread _)
  rw [unchanged]
  exact .stay

/-- A thread without a lease whose timer is inserted. -/
theorem move_of_insert {thread : ι} {timer : Handle} (phase : Phase)
    (timersEq : after.scheduledTimers = timer :: before.scheduledTimers)
    (phaseEq : after.phase = Function.update before.phase thread phase)
    (unheld : (before.phase thread).heldTimer = none) (held : phase.heldTimer = some timer)
    (free : timer ∉ before.scheduledTimers) :
    Leases.Move thread before.leases after.leases := by
  rw [leases_update phaseEq, timersEq, held]
  exact .acquire unheld free

/-- A thread whose timer is erased. -/
theorem move_of_erase {thread : ι} (timer : Handle) (phase : Phase)
    (timersEq : after.scheduledTimers = before.scheduledTimers.erase timer)
    (phaseEq : after.phase = Function.update before.phase thread phase)
    (held : (before.phase thread).heldTimer = some timer)
    (unheld : phase.heldTimer = none) :
    Leases.Move thread before.leases after.leases := by
  rw [leases_update phaseEq, timersEq, unheld]
  exact .release held

/-- A critical section acquires the timer that it starts, and discards only a timer that
is scheduled. -/
theorem afterRound_move {state : ExecutorState ι} {thread : ι}
    (idle : state.phase thread = .idle) (anyExec : AnyExecutable) (strategy : Strategy) :
    Leases.Move thread state.leases
        (state.afterRound mutuallyExclusive thread anyExec strategy).leases ∧
      ∀ timer,
        state.DiscardsTimer thread
          (state.afterRound mutuallyExclusive thread anyExec strategy) timer →
        timer ∈ state.scheduledTimers := by
  unfold afterRound
  simp only
  split
  next =>
    split
    next timer timerEq =>
      split
      next scheduled =>
        constructor
        · refine move_of_same (.discarded anyExec) rfl rfl ?_
          rw [idle]
          rfl
        · rintro other ⟨_, discarded, phaseEq, otherEq⟩
          simp only [Function.update_self, Phase.discarded.injEq] at phaseEq
          subst phaseEq
          rw [timerEq, Option.some.injEq] at otherEq
          exact otherEq ▸ scheduled
      next free =>
        constructor
        · refine move_of_insert (.executing anyExec) rfl rfl ?_ timerEq free
          rw [idle]
          rfl
        · rintro other ⟨_, discarded, phaseEq, _⟩
          simp at phaseEq
    next noTimer =>
      constructor
      · refine move_of_same (.executing anyExec) rfl rfl ?_
        rw [idle]
        exact noTimer
      · rintro other ⟨_, discarded, phaseEq, _⟩
        simp at phaseEq
  next =>
    constructor
    · exact .stay
    · rintro other ⟨_, discarded, phaseEq, _⟩
      simp only [idle] at phaseEq
      cases phaseEq

theorem Step.move (step : before.Step mutuallyExclusive label after) :
    Leases.Move label.1 before.leases after.leases ∧
      ∀ timer, before.DiscardsTimer label.1 after timer → timer ∈ before.scheduledTimers := by
  unfold Step next at step
  split at step
  next input idle _ =>
    split at step
    next => cases step
    next anyExec strategy _ =>
      cases step
      exact afterRound_move idle anyExec strategy
  next anyExec executing _ =>
    cases step
    refine ⟨move_of_same (.executed anyExec) rfl rfl (by rw [executing]; rfl), ?_⟩
    rintro timer ⟨idle, _⟩
    rw [executing] at idle
    cases idle
  next anyExec executed _ =>
    cases step
    constructor
    · cases timerEq : anyExec.timer with
      | none =>
          refine move_of_same .idle rfl rfl ?_
          rw [executed]
          exact timerEq.symm
      | some timer =>
          refine move_of_erase timer .idle rfl rfl ?_ rfl
          rw [executed]
          exact timerEq
    · rintro timer ⟨idle, _⟩
      rw [executed] at idle
      cases idle
  next anyExec discarded _ =>
    cases step
    refine ⟨move_of_same .idle rfl rfl (by rw [discarded]; rfl), ?_⟩
    rintro timer ⟨idle, _⟩
    rw [discarded] at idle
    cases idle
  next => cases step

/-! ## The guard along a run -/

omit [DecidableEq ι] in
theorem NothingScheduled.exact {state : ExecutorState ι} (nothing : state.NothingScheduled) :
    state.leases.Exact := by
  have empty : state.leases = ⟨[], fun _ => none⟩ := by
    rw [leases, nothing.1, nothing.2]
    rfl
  rw [empty]
  exact Leases.empty_exact

theorem exact_of_run {start stop : ExecutorState ι} {labels : List (ι × WorkerEvent)}
    (nothing : start.NothingScheduled)
    (run : Steps (Step mutuallyExclusive) start labels stop) : stop.leases.Exact :=
  run.invariant (fun state => state.leases.Exact) nothing.exact
    fun exact step => exact.move step.move.1

omit [DecidableEq ι] in
theorem ExecutesTimer.heldTimer {state : ExecutorState ι} {thread : ι} {timer : Handle}
    (executes : state.ExecutesTimer thread timer) :
    (state.phase thread).heldTimer = some timer := by
  obtain ⟨anyExec, executing, timerEq⟩ := executes
  rw [executing]
  exact timerEq

omit [DecidableEq ι] in
theorem guarded_of_exact {state : ExecutorState ι} (exact : state.leases.Exact) :
    state.Guarded where
  once := exact.nodup
  scheduled_iff := exact.registered_iff
  oneHolder _ _ _ := exact.unique
  oneExecution _ _ _ left right := exact.unique left.heldTimer right.heldTimer

/-- At every reachable state the set of scheduled timers is exact and no timer has two
holders, and the step that follows discards a timer only while a thread holds it. -/
theorem timer_guard {start stop : ExecutorState ι} {labels : List (ι × WorkerEvent)}
    (nothing : start.NothingScheduled)
    (run : Steps (Step mutuallyExclusive) start labels stop) :
    stop.Guarded ∧
      ∀ label after, stop.Step mutuallyExclusive label after →
        ∀ timer, stop.DiscardsTimer label.1 after timer →
          ∃ holder, (stop.phase holder).heldTimer = some timer := by
  have exact := exact_of_run nothing run
  refine ⟨guarded_of_exact exact, ?_⟩
  intro label after step timer discards
  exact (exact.registered_iff timer).mp (step.move.2 timer discards)

/-- Thread 1 discards the timer that thread 0 has finished and not yet erased. -/
theorem timer_guard_discard :
    ∃ before after : ExecutorState (Fin 3),
      before.DiscardsTimer 1 after 1 ∧ before.Guarded ∧
        ∃ holder, (before.phase holder).heldTimer = some 1 := by
  obtain ⟨before, executed, after, step, idle, discarded⟩ : ∃ before : ExecutorState (Fin 3),
      replay (next fun _ => true) timerAndSubscription
          [(0, .select (onlyReady 1)), (0, .finish)] = some before ∧
        ∃ after, before.Step (fun _ => true) (1, .select (onlyReady 1)) after ∧
          before.phase 1 = .idle ∧ after.phase 1 = .discarded (.fill .timer 1 0) :=
    ⟨_, rfl, _, rfl, rfl, rfl⟩
  have run : Steps (Step fun _ => true) timerAndSubscription
      ([(0, .select (onlyReady 1)), (0, .finish)].map id) before :=
    .of_replay id id _ executed
  have discards : before.DiscardsTimer 1 after 1 := ⟨idle, _, discarded, rfl⟩
  have guarded := timer_guard ⟨rfl, rfl⟩ run
  exact ⟨before, after, discards, guarded.1, guarded.2 (1, _) after step 1 discards⟩

end ExecutorState

end PriorityExecutor
