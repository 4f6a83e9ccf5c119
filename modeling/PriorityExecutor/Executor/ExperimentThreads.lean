import PriorityExecutor.Chain.DequeBounds
import PriorityExecutor.Chain.StaticExperiment
import PriorityExecutor.Executor.Lifecycle

/-!
# The experiments on worker threads

After its set-up an experiment calls `spin`, and everything else happens between the
threads.  They touch the memory strategy in their critical sections only, so every call of
`spin` is a run of rounds to it, one for each critical section.

For the programs with static priorities this gives the order in which callbacks begin, and
for all of them that no critical section is left by a fault: a thread that has
`wait_mutex_` completes its round and gives the lock up again.
-/

namespace PriorityExecutor

/-! ## The rounds of the threads -/

namespace ExecutorState

variable {ι : Type*} [DecidableEq ι] {mutuallyExclusive : GroupId → Bool}
  {before after : ExecutorState ι} {label : ι × WorkerEvent}

/-- The round of a critical section that puts `anyExec` in place. -/
def roundOf (state : ExecutorState ι) (input : RoundInput) (anyExec : AnyExecutable) : Round :=
  let seen := input.withFlags state.canBeTakenFrom
  ⟨state.strategy.ready seen, seen.view, anyExec⟩

/-- A thread whose round succeeds gets through its critical section. -/
theorem exists_select {state : ExecutorState ι} {thread : ι}
    (idle : state.phase thread = .idle) {input : RoundInput}
    {anyExec : AnyExecutable} {strategy : Strategy}
    (succeeds : state.strategy.round (input.withFlags state.canBeTakenFrom) =
      .ok (anyExec, strategy)) :
    ∃ after, state.Step mutuallyExclusive (thread, .select input) after := by
  refine ⟨state.afterRound mutuallyExclusive thread anyExec strategy, ?_⟩
  unfold Step next
  simp only [idle, succeeds]

/-- The thread has `anyExec` from its critical section. -/
def Took (state : ExecutorState ι) (thread : ι) (anyExec : AnyExecutable) : Prop :=
  state.phase thread = .executing anyExec ∨ state.phase thread = .discarded anyExec

omit [DecidableEq ι] in
theorem Took.unique {state : ExecutorState ι} {thread : ι} {anyExec other : AnyExecutable}
    (took : state.Took thread anyExec) (tookOther : state.Took thread other) :
    anyExec = other := by
  rcases took with executing | discarded
  · rcases tookOther with otherPhase | otherPhase
    · simpa [executing] using otherPhase
    · simp [executing] at otherPhase
  · rcases tookOther with otherPhase | otherPhase
    · simp [discarded] at otherPhase
    · simpa [discarded] using otherPhase

/-- A thread takes what its round filled. -/
theorem took_afterRound {state : ExecutorState ι} {thread : ι} {input : RoundInput}
    {anyExec : AnyExecutable} {strategy : Strategy}
    (result : state.strategy.round (input.withFlags state.canBeTakenFrom) =
      .ok (anyExec, strategy)) (filled : anyExec.isFilled = true) :
    (state.afterRound mutuallyExclusive thread anyExec strategy).Took thread anyExec := by
  rcases chosen_of_round result filled with ⟨_, group, _, groupEq, takeable⟩
  rcases afterRound_filled filled groupEq takeable with ⟨_, phase, _⟩ | ⟨phase, _⟩
  · exact .inl (by rw [phase, Function.update_self])
  · exact .inr (by rw [phase, Function.update_self])

/-- A thread that was idle and has an executable now has it from a round. -/
theorem Step.took (step : before.Step mutuallyExclusive label after) {thread : ι}
    {anyExec : AnyExecutable} (idle : before.phase thread = .idle)
    (took : after.Took thread anyExec) :
    ∃ input, label = (thread, .select input) ∧ anyExec.isFilled = true ∧
      RoundStep before.strategy (before.roundOf input anyExec) after.strategy := by
  have busy : after.phase thread ≠ .idle := by
    rcases took with executing | discarded
    · simp [executing]
    · simp [discarded]
  rcases label with ⟨mover, event⟩
  have same : thread = mover := by
    by_contra different
    exact busy ((SpinState.phase_of_ne step different).trans idle)
  subst same
  cases event with
  | select input =>
      rcases step.select_cases with ⟨_, found, strategy, result, rfl⟩
      have isFilled : found.isFilled = true := by
        by_contra notFilled
        rw [afterRound_empty (Bool.eq_false_of_not_eq_true notFilled)] at busy
        exact busy idle
      have foundEq : found = anyExec := (took_afterRound result isFilled).unique took
      subst foundEq
      refine ⟨input, rfl, isFilled, ?_⟩
      rw [afterRound_strategy]
      exact .of_round result
  | finish | erase | destroy =>
      unfold Step next at step
      simp [idle] at step

end ExecutorState

namespace SpinState

variable {κ : Type*} [DecidableEq κ] {created : Nat} {mutuallyExclusive : GroupId → Bool}

/-- With these inputs the thread makes its round and gives `wait_mutex_` up again. -/
def Completes (mutuallyExclusive : GroupId → Bool) (state : SpinState κ created)
    (thread : κ × Fin (created + 1)) (input : RoundInput) : Prop :=
  ∃ after, state.Step mutuallyExclusive (.select thread) after ∧
    state.executor.Step mutuallyExclusive (thread, .select input) after.executor ∧
    after.position thread ≠ .locked

/-- A step is a round of the memory strategy if a thread selects, and leaves it alone
otherwise. -/
theorem Step.strategy {before after : SpinState κ created} {event : SpinEvent κ created}
    (step : before.Step mutuallyExclusive event after) :
    (∃ thread round, event.selects = some thread ∧
        RoundStep before.executor.strategy round after.executor.strategy) ∨
      event.selects = none ∧ after.executor.strategy = before.executor.strategy := by
  cases step with
  | @select thread _ executor _ step =>
      rcases step.round rfl with ⟨round, roundStep, _⟩
      exact .inl ⟨thread, round, rfl, roundStep⟩
  | work _ outside _ step =>
      refine .inr ⟨rfl, step.strategy ?_⟩
      rintro input rfl
      cases outside
  | shutdown => exact .inr ⟨rfl, rfl⟩
  | throws => exact .inr ⟨rfl, rfl⟩
  | spin => exact .inr ⟨rfl, rfl⟩
  | lock => exact .inr ⟨rfl, rfl⟩
  | create => exact .inr ⟨rfl, rfl⟩
  | runLast => exact .inr ⟨rfl, rfl⟩
  | test => exact .inr ⟨rfl, rfl⟩
  | enter => exact .inr ⟨rfl, rfl⟩
  | startJoining => exact .inr ⟨rfl, rfl⟩
  | join => exact .inr ⟨rfl, rfl⟩
  | «return» => exact .inr ⟨rfl, rfl⟩

/-- To the memory strategy the calls of `spin` are one run of rounds. -/
theorem exists_rounds {start stop : SpinState κ created}
    {events : List (SpinEvent κ created)}
    (run : Steps (Step mutuallyExclusive) start events stop) :
    ∃ rounds, Steps RoundStep start.executor.strategy rounds stop.executor.strategy ∧
      rounds.length = (events.filterMap SpinEvent.selects).length := by
  induction run with
  | nil => exact ⟨[], .nil, rfl⟩
  | snoc _ step ih =>
      rcases ih with ⟨rounds, run, sameLength⟩
      rcases step.strategy with ⟨thread, round, selects, roundStep⟩ | ⟨noRound, same⟩
      · refine ⟨rounds ++ [round], run.snoc roundStep, ?_⟩
        simp [sameLength, selects]
      · refine ⟨rounds, same ▸ run, ?_⟩
        simp [sameLength, noRound]

/-- With fewer critical sections than an `int` holds no counter overflows. -/
theorem countersAtMost_of_run {start stop : SpinState κ created}
    {events : List (SpinEvent κ created)}
    (run : Steps (Step mutuallyExclusive) start events stop)
    (fresh : start.executor.strategy.CountersAtMost 0)
    (few : (events.filterMap SpinEvent.selects).length < 2 ^ 31) :
    stop.executor.strategy.CountersAtMost (events.filterMap SpinEvent.selects).length := by
  rcases exists_rounds run with ⟨rounds, roundRun, sameLength⟩
  rw [← sameLength, ← zero_add rounds.length] at few ⊢
  exact fresh.of_run roundRun few

theorem Reached.completes {state : SpinState κ created}
    (reached : state.Reached mutuallyExclusive) {thread : κ × Fin (created + 1)}
    (locked : state.position thread = .locked) {input : RoundInput}
    {anyExec : AnyExecutable} {strategy : Strategy}
    (succeeds : state.executor.strategy.round
      (input.withFlags state.executor.canBeTakenFrom) = .ok (anyExec, strategy)) :
    state.Completes mutuallyExclusive thread input := by
  have idle : state.executor.phase thread = .idle := by
    by_contra busy
    have inBody := (reached.inStep thread).mp busy
    rw [locked] at inBody
    cases inBody
  rcases ExecutorState.exists_select idle succeeds with ⟨executor, selects⟩
  refine ⟨_, .select locked selects, selects, ?_⟩
  simpa [setPosition] using afterBody_ne_locked _

/-- A thread takes executables from rounds only. -/
theorem Step.took {before after : SpinState κ created} {event : SpinEvent κ created}
    (step : before.Step mutuallyExclusive event after) {thread : κ × Fin (created + 1)}
    {anyExec : AnyExecutable} (idle : before.executor.phase thread = .idle)
    (took : after.executor.Took thread anyExec) :
    ∃ input, anyExec.isFilled = true ∧
      RoundStep before.executor.strategy (before.executor.roundOf input anyExec)
        after.executor.strategy := by
  rcases step.executor with same | ⟨label, moved⟩
  · rw [same, ExecutorState.Took, idle] at took
    rcases took with impossible | impossible
    · cases impossible
    · cases impossible
  · rcases moved.took idle took with ⟨input, _, filled, round⟩
    exact ⟨input, filled, round⟩

/-- The created thread of a call comes to have the lock. -/
theorem exists_locked (strategy : Strategy) :
    ∃ events, ∃ middle : SpinState Unit 1,
      Steps (Step mutuallyExclusive) (constructed 2 0 strategy : SpinState Unit 1) events
          middle ∧
        middle.position ((), 0) = .locked ∧ middle.executor = { strategy } := by
  have called := Steps.singleton (@Step.spin Unit _ 1 mutuallyExclusive
    (constructed 2 0 strategy) () rfl rfl)
  have locked := called.snoc (@Step.lock Unit _ 1 _ _ () rfl ⟨nofun, nofun⟩)
  have created := locked.snoc (@Step.create Unit _ 1 _ _ () 0 rfl)
  have running := created.snoc (@Step.runLast Unit _ 1 _ _ () rfl)
  have tested := running.snoc (@Step.test Unit _ 1 _ _ ((), 0) rfl)
  refine ⟨_, _, tested.snoc (@Step.enter Unit _ 1 _ _ ((), 0) rfl ⟨nofun, ?_⟩), rfl,
    rfl⟩
  rintro ⟨_, id⟩
  revert id
  exact Fin.forall_fin_two.mpr ⟨nofun, nofun⟩

end SpinState

/-! ## Static priorities -/

namespace StaticExperiment

variable {experiment : StaticExperiment} {κ : Type*} [DecidableEq κ] {created : Nat}
  {mutuallyExclusive : GroupId → Bool}

/-- A program with static priorities sets its chains up without a fault.  In every state
that the calls of `spin` then reach, a thread that has `wait_mutex_` completes its round
whatever it reads, no counter has overflowed before the critical section 2^31, and a
thread that takes an executable takes what goes first in the table of the program among
all whose groups no thread has taken. -/
theorem threads_serve_first (complete : experiment.Complete) :
    ∃ state, experiment.setUp = .ok state ∧
      ∀ start : SpinState κ created, start.Initial →
        start.executor.strategy = state.strat →
        ∀ events before,
          Steps (SpinState.Step mutuallyExclusive) start events before →
          (∀ thread input, before.position thread = .locked →
            before.Completes mutuallyExclusive thread input) ∧
          ((events.filterMap SpinEvent.selects).length < 2 ^ 31 →
            before.executor.strategy.CountersAtMost
              (events.filterMap SpinEvent.selects).length) ∧
          ∀ event after thread anyExec, before.Step mutuallyExclusive event after →
            before.executor.phase thread = .idle →
            after.executor.Took thread anyExec →
            ∃ input served,
              RoundStep before.executor.strategy (before.executor.roundOf input anyExec)
                after.executor.strategy ∧
              (before.executor.roundOf input anyExec).ServesFirst experiment.table
                served := by
  rcases complete.setUp with ⟨state, succeeds, made⟩
  refine ⟨state, succeeds, ?_⟩
  intro start initial startEq events before run
  rcases SpinState.exists_rounds run with ⟨rounds, roundRun, _⟩
  rw [startEq] at roundRun
  have follows := (made.followsTable.of_run roundRun).1
  refine ⟨?_, ?_, ?_⟩
  · intro thread input locked
    rcases follows.round (input.withFlags before.executor.canBeTakenFrom) with
      ⟨anyExec, after, result, _⟩
    exact (SpinState.reached_of_run initial run).completes locked result
  · apply SpinState.countersAtMost_of_run run
    rw [startEq]
    exact made.countersAtMost
  · intro event after thread anyExec step idle took
    rcases step.took idle took with ⟨input, filled, round⟩
    rcases follows.servesFirst round filled with ⟨served, first⟩
    exact ⟨input, served, round, first⟩

/-- The two threads of `arb_static.cpp`: the created one takes the timer of chain 2, and
not what is ready of chain 0. -/
theorem threads_serve_first_arbStatic :
    ∃ state, arbStatic.setUp = .ok state ∧
      ∃ events, ∃ before after : SpinState Unit 1,
        Steps (SpinState.Step fun _ => true)
          (SpinState.constructed 2 0 state.strat : SpinState Unit 1) events before ∧
        before.position ((), 0) = .locked ∧
        (∀ input, before.Completes (fun _ => true) ((), 0) input) ∧
        before.Step (fun _ => true) (.select ((), 0)) after ∧
        after.executor.Took ((), 0) (.fill .timer (arbStatic.handleOf 2 0) 0) ∧
        ∃ input served, (before.executor.roundOf input
          (.fill .timer (arbStatic.handleOf 2 0) 0)).ServesFirst arbStatic.table served := by
  have round : ∃ state after, arbStatic.setUp = .ok state ∧
      state.strat.round (threeReady.withFlags fun _ => true) =
        .ok (.fill .timer (arbStatic.handleOf 2 0) 0, after) := ⟨_, _, rfl, rfl⟩
  rcases round with ⟨state, strategy, succeeds, result⟩
  rcases @threads_serve_first arbStatic Unit _ 1 (fun _ => true) arbStatic_complete with
    ⟨found, foundEq, runs⟩
  rw [succeeds] at foundEq
  cases foundEq
  rcases SpinState.exists_locked state.strat with ⟨events, before, run, locked, executorEq⟩
  have initial := SpinState.constructed_initial (κ := Unit) 2 0 state.strat
  rcases runs _ initial rfl events before run with ⟨completes, _, serves⟩
  have idle : before.executor.phase ((), 0) = .idle := by
    rw [executorEq]
  have resultThere : before.executor.strategy.round
      (threeReady.withFlags before.executor.canBeTakenFrom) =
        .ok (.fill .timer (arbStatic.handleOf 2 0) 0, strategy) := by
    rw [executorEq]
    exact result
  have selects : before.executor.Step (fun _ => true) (((), 0), .select threeReady)
      (before.executor.afterRound (fun _ => true) ((), 0)
        (.fill .timer (arbStatic.handleOf 2 0) 0) strategy) := by
    unfold ExecutorState.Step ExecutorState.next
    simp only [idle, resultThere]
  have step := SpinState.Step.select locked selects
  have took := @ExecutorState.took_afterRound _ _ (fun _ => true) _ ((), 0) _ _ _ resultThere
    rfl
  rcases serves _ _ _ _ step idle took with ⟨input, served, _, first⟩
  exact ⟨state, succeeds, events, before, _, run, locked,
    fun input => completes _ input locked, step, took, input, served, first⟩

end StaticExperiment

/-! ## Deadlines -/

namespace Experiment

open Strategy

variable {experiment : Experiment} {κ : Type*} [DecidableEq κ] {created : Nat}
  {mutuallyExclusive : GroupId → Bool}

theorem assigned_eq_some {chainIndex index : Nat} {release : Int}
    (isAssigned : experiment.assigned chainIndex index = some release) :
    ∃ other < chainIndex, release = toInt32 (experiment.firstRelease other) := by
  induction chainIndex with
  | zero => cases isAssigned
  | succ chainIndex ih =>
      rw [assigned] at isAssigned
      split at isAssigned
      next =>
        cases isAssigned
        exact ⟨chainIndex, Nat.lt_succ_self chainIndex, rfl⟩
      next =>
        rcases ih isAssigned with ⟨other, before, releaseEq⟩
        exact ⟨other, Nat.lt_succ_of_lt before, releaseEq⟩

/-- The clock is in range if it is near the releases that were read. -/
theorem Released.clockInRange (complete : experiment.Complete) {state : SetUpState}
    (held : experiment.Released experiment.chainLengths.length state) {millis : Int}
    (near : ∀ index < experiment.chainLengths.length,
      |millis - toInt32 (experiment.firstRelease index)| ≤ 2 ^ 31 - 1) :
    state.strat.ClockInRange millis := by
  intro handle executable entry _ isFirst release releaseEq
  rcases held.holds.only entry with ⟨index, stage, made, registered, rfl⟩
  rw [held.holds.entry made registered] at entry
  cases entry
  have isZero : stage = 0 := of_decide_eq_true isFirst
  subst isZero
  rcases assigned_eq_some releaseEq with ⟨other, inRange, rfl⟩
  have period : (1 : Int) ≤ experiment.periodOf index :=
    Int.toNat_le.mp (complete.periodRange index made.1).1
  refine ⟨(near other inRange).trans_lt (by decide), ?_⟩
  calc
    _ ≤ (2 ^ 31 - 1 : Int) := near other inRange
    _ ≤ (2 ^ 31 - 1) * experiment.periodOf index := le_mul_of_one_le_right (by decide) period

/-- A program with deadlines sets its chains up without a fault.  In every state that the
calls of `spin` then reach, the vectors are as long as the loops left them, no counter has
overflowed before the critical section 2^31, and a thread that has `wait_mutex_` completes
its round while the clock is in range. -/
theorem threads_never_fault (complete : experiment.Complete)
    (covers : experiment.DequesCover) :
    ∃ state, experiment.setUp = .ok state ∧
      ∀ start : SpinState κ created, start.Initial →
        start.executor.strategy = state.strat →
        ∀ events stop, Steps (SpinState.Step mutuallyExclusive) start events stop →
          (∀ vector, (stop.executor.strategy.deques vector).length =
            (state.strat.deques vector).length) ∧
          ((events.filterMap SpinEvent.selects).length < 2 ^ 31 →
            stop.executor.strategy.CountersAtMost
              (events.filterMap SpinEvent.selects).length) ∧
          ∀ thread input, stop.position thread = .locked →
            stop.executor.strategy.ClockInRange input.dispatch.millis →
            stop.Completes mutuallyExclusive thread input := by
  rcases complete.setUp with ⟨state, succeeds, released⟩
  refine ⟨state, succeeds, ?_⟩
  intro start initial startEq events stop run
  rcases SpinState.exists_rounds run with ⟨rounds, roundRun, _⟩
  rw [startEq] at roundRun
  have accessible : stop.executor.strategy.Accessible
      (fun vector => (state.strat.deques vector).length) experiment.sharedSize :=
    roundRun.invariant (fun strategy => strategy.Accessible _ experiment.sharedSize)
      (released.accessible complete covers) fun held step => held.step step
  refine ⟨accessible.vectors, ?_, ?_⟩
  · apply SpinState.countersAtMost_of_run run
    rw [startEq]
    exact released.countersAtMost
  intro thread input locked inRange
  let seen := input.withFlags stop.executor.canBeTakenFrom
  have clock : stop.executor.strategy.ClockInRange seen.dispatch.millis := inRange
  rcases accessible.round clock with ⟨anyExec, after, result⟩
  exact (SpinState.reached_of_run initial run).completes locked result

theorem threads_never_fault_multiTest :
    ∃ state, multiTest.setUp = .ok state ∧
      ∃ events, ∃ stop : SpinState Unit 1,
        Steps (SpinState.Step fun _ => true)
          (SpinState.constructed 2 0 state.strat : SpinState Unit 1) events stop ∧
        stop.position ((), 0) = .locked ∧
        ∀ input : RoundInput, input.dispatch.millis = 1000 →
          stop.Completes (fun _ => true) ((), 0) input := by
  rcases @threads_never_fault multiTest Unit _ 1 (fun _ => true) multiTest_complete
    (fun _ _ _ => by decide) with ⟨state, succeeds, runs⟩
  rcases SpinState.exists_locked state.strat with ⟨events, stop, run, locked, executor⟩
  have initial := SpinState.constructed_initial (κ := Unit) 2 0 state.strat
  refine ⟨state, succeeds, events, stop, run, locked, ?_⟩
  intro input millis
  apply (runs _ initial rfl events stop run).2.2 _ input locked
  rcases multiTest_complete.setUp with ⟨other, otherEq, released⟩
  rw [succeeds] at otherEq
  cases otherEq
  rw [executor, millis]
  exact released.clockInRange multiTest_complete (by decide)

end Experiment

end PriorityExecutor
