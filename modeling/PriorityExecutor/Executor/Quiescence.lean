import Mathlib.Algebra.BigOperators.Group.Finset.Piecewise
import Mathlib.Algebra.Order.BigOperators.Group.Finset
import PriorityExecutor.Executor.TimerGuard

/-!
# No group and no timer stays taken

A discarded timer may give its group back once too often, so a set flag does not say
that nobody holds the group.  The other direction survives every run: a flag is cleared
only while some thread executes a callback of the group, and a timer is scheduled only
while some thread has it.

Between two selections a thread has at most two steps of its own to take, and nothing
that other threads do can prevent them.  So from every reachable state the threads get
back to the top of their loops, and then every group is takeable and no timer is
scheduled.
-/

namespace PriorityExecutor

/-- Two sums whose terms differ at one point only. -/
theorem sum_add_of_differ_at {α : Type*} [Fintype α] [DecidableEq α] {left right : α → Nat}
    (point : α) (others : ∀ other, other ≠ point → left other = right other) :
    (∑ item, left item) + right point = (∑ item, right item) + left point := by
  have rest : ∑ item ∈ Finset.univ.erase point, left item =
      ∑ item ∈ Finset.univ.erase point, right item :=
    Finset.sum_congr rfl fun item member => others item (Finset.ne_of_mem_erase member)
  rw [← Finset.add_sum_erase _ left (Finset.mem_univ point),
    ← Finset.add_sum_erase _ right (Finset.mem_univ point), rest]
  omega

namespace Phase

/-- The steps of its own that a thread takes before it selects again. -/
def remaining : Phase → Nat
  | .idle => 0
  | .executing _ => 2
  | .executed _ | .discarded _ => 1

theorem remaining_eq_zero {phase : Phase} : phase.remaining = 0 ↔ phase = .idle := by
  cases phase <;> simp [remaining]

theorem remaining_le (phase : Phase) : phase.remaining ≤ 2 := by
  cases phase <;> simp [remaining]

end Phase

/-- The event is a critical section that selects an executable. -/
def WorkerEvent.IsSelect : WorkerEvent → Prop
  | .select _ => True
  | .finish | .erase | .destroy => False

namespace ExecutorState

variable {ι : Type*} [DecidableEq ι] {mutuallyExclusive : GroupId → Bool}
  {before after : ExecutorState ι} {label : ι × WorkerEvent}

/-! ## A cleared flag has a holder -/

/-- Every group that cannot be taken is mutually exclusive and held by a thread. -/
def TakenHeld (mutuallyExclusive : GroupId → Bool) (state : ExecutorState ι) : Prop :=
  ∀ group, state.canBeTakenFrom group = false →
    mutuallyExclusive group = true ∧ ∃ thread, (state.phase thread).Holds group

omit [DecidableEq ι] in
/-- A step that sets no flag to false and takes no holder from a cleared group. -/
theorem TakenHeld.of_frame (taken : TakenHeld mutuallyExclusive before)
    (flags : ∀ group, after.canBeTakenFrom group = false →
      before.canBeTakenFrom group = false)
    (holders : ∀ group thread, after.canBeTakenFrom group = false →
      (before.phase thread).Holds group → (after.phase thread).Holds group) :
    TakenHeld mutuallyExclusive after := by
  intro group cleared
  obtain ⟨exclusive, thread, held⟩ := taken group (flags group cleared)
  exact ⟨exclusive, thread, holders group thread cleared held⟩

/-- Giving a group back clears no flag. -/
theorem flag_of_giveBack {flags : GroupId → Bool} {own : Option GroupId} {group : GroupId}
    (cleared : giveBack flags own group = false) :
    own ≠ some group ∧ flags group = false := by
  by_cases same : own = some group
  · simp [same, giveBack] at cleared
  · rw [giveBack_of_ne same] at cleared
    exact ⟨same, cleared⟩

/-- A thread that changes its phase and held nothing before leaves all holders. -/
theorem holds_of_update_unheld {thread other : ι} {phase : Phase} {group : GroupId}
    (phaseEq : after.phase = Function.update before.phase thread phase)
    (unheld : ¬ (before.phase thread).Holds group)
    (held : (before.phase other).Holds group) : (after.phase other).Holds group := by
  rw [holds_of_update phaseEq, if_neg]
  · exact held
  · rintro rfl
    exact unheld held

theorem TakenHeld.step (taken : TakenHeld mutuallyExclusive before)
    (step : before.Step mutuallyExclusive label after) :
    TakenHeld mutuallyExclusive after := by
  cases step.effect with
  | nothing phaseEq flagsEq =>
      exact taken.of_frame (by simp [flagsEq]) (by simp [phaseEq])
  | @start _ anyExec group _ _ idle groupEq _ phaseEq flagsEq =>
      intro found cleared
      by_cases same : found = group
      · subst same
        refine ⟨?_, label.1, ?_⟩
        · by_contra notExclusive
          have before' := taken found (by simpa [flagsEq, notExclusive] using cleared)
          exact notExclusive before'.1
        · rw [holds_of_update phaseEq, if_pos rfl]
          simpa using groupEq
      · have clearedBefore : before.canBeTakenFrom found = false := by
          rw [flagsEq] at cleared
          split at cleared
          · rwa [Function.update_of_ne same] at cleared
          · exact cleared
        obtain ⟨exclusive, thread, held⟩ := taken found clearedBefore
        exact ⟨exclusive, thread, holds_of_update_unheld phaseEq (by simp [idle]) held⟩
  | discard idle _ _ phaseEq flagsEq =>
      refine taken.of_frame (by simp [flagsEq]) ?_
      exact fun _ _ _ => holds_of_update_unheld phaseEq (by simp [idle])
  | @finish anyExec executing phaseEq flagsEq =>
      refine taken.of_frame ?_ ?_
      · intro group cleared
        rw [flagsEq] at cleared
        exact (flag_of_giveBack cleared).2
      · -- a group that is still cleared is not the one of the finished callback
        intro group thread cleared held
        rw [flagsEq] at cleared
        refine holds_of_update_unheld phaseEq ?_ held
        rw [executing, Phase.holds_executing]
        exact (flag_of_giveBack cleared).1
  | erase executed phaseEq flagsEq =>
      refine taken.of_frame (by simp [flagsEq]) ?_
      exact fun _ _ _ => holds_of_update_unheld phaseEq (by simp [executed])
  | destroy discarded phaseEq flagsEq =>
      refine taken.of_frame ?_ ?_
      · intro group cleared
        rw [flagsEq] at cleared
        exact (flag_of_giveBack cleared).2
      · exact fun _ _ _ => holds_of_update_unheld phaseEq (by simp [discarded])

/-- In every run, also in those that break mutual exclusion, a group whose flag is
cleared is mutually exclusive and some thread is executing one of its callbacks. -/
theorem taken_held_of_run {start stop : ExecutorState ι} {labels : List (ι × WorkerEvent)}
    (initial : start.Initial) (run : Steps (Step mutuallyExclusive) start labels stop) :
    TakenHeld mutuallyExclusive stop := by
  refine run.invariant (TakenHeld mutuallyExclusive) ?_ fun taken step => taken.step step
  intro group cleared
  simp [initial.2] at cleared

/-- In the run that breaks mutual exclusion the group is cleared at the end, and it is
held. -/
theorem taken_held_of_run_duplicate :
    ∃ stop, Steps (Step fun _ => true) timerAndSubscription duplicateTimer stop ∧
      stop.canBeTakenFrom 0 = false ∧ ∃ thread, (stop.phase thread).Holds 0 := by
  obtain ⟨stop, executed, cleared⟩ : ∃ stop,
      replay (next fun _ => true) timerAndSubscription duplicateTimer = some stop ∧
        stop.canBeTakenFrom 0 = false :=
    ⟨_, rfl, rfl⟩
  have run : Steps (Step fun _ => true) timerAndSubscription (duplicateTimer.map id) stop :=
    .of_replay id id _ executed
  have held := taken_held_of_run ⟨rfl, rfl⟩ run 0 cleared
  rw [List.map_id] at run
  exact ⟨stop, run, cleared, held.2⟩

/-! ## Every thread gets back to the top of its loop -/

/-- A step of a thread that is not at the top of its loop. -/
def OwnStep (mutuallyExclusive : GroupId → Bool) (before : ExecutorState ι)
    (label : ι × WorkerEvent) (after : ExecutorState ι) : Prop :=
  ¬ label.2.IsSelect ∧ before.Step mutuallyExclusive label after

/-- All threads are at the top of their loops, every group is takeable and no timer is
scheduled. -/
structure Quiescent (state : ExecutorState ι) : Prop where
  idle : state.phase = fun _ => .idle
  takeable : state.canBeTakenFrom = fun _ => true
  unscheduled : state.scheduledTimers = []

omit [DecidableEq ι] in
/-- Without a thread in its loop body nothing is taken and nothing is scheduled. -/
theorem TakenHeld.quiescent {state : ExecutorState ι}
    (taken : TakenHeld mutuallyExclusive state) (exact : state.leases.Exact)
    (idle : state.phase = fun _ => .idle) : state.Quiescent := by
  refine ⟨idle, ?_, ?_⟩
  · funext group
    by_contra cleared
    rw [Bool.not_eq_true] at cleared
    obtain ⟨_, thread, held⟩ := taken group cleared
    simp [idle] at held
  · rw [List.eq_nil_iff_forall_not_mem]
    intro timer scheduled
    obtain ⟨thread, held⟩ := (exact.registered_iff timer).mp scheduled
    simp [leases, idle, Phase.heldTimer] at held

/-- An own step takes its thread one step closer to the top of the loop. -/
theorem OwnStep.phase (step : before.OwnStep mutuallyExclusive label after) :
    ∃ phase, after.phase = Function.update before.phase label.1 phase ∧
      phase.remaining + 1 = (before.phase label.1).remaining ∧
      after.strategy = before.strategy := by
  obtain ⟨own, step⟩ := step
  unfold Step next at step
  split at step
  next selects =>
    rw [selects] at own
    exact absurd trivial own
  next executing _ =>
    cases step
    exact ⟨_, rfl, by rw [executing]; rfl, rfl⟩
  next executed _ =>
    cases step
    exact ⟨_, rfl, by rw [executed]; rfl, rfl⟩
  next discarded _ =>
    cases step
    exact ⟨_, rfl, by rw [discarded]; rfl, rfl⟩
  next => cases step

/-- A thread that is not at the top of its loop can always take its next step. -/
theorem exists_ownStep {state : ExecutorState ι} {thread : ι}
    (busy : state.phase thread ≠ .idle) :
    ∃ event after, state.OwnStep mutuallyExclusive (thread, event) after := by
  cases found : state.phase thread with
  | idle => exact absurd found busy
  | executing anyExec => exact ⟨.finish, _, id, by unfold Step next; rw [found]⟩
  | executed anyExec => exact ⟨.erase, _, id, by unfold Step next; rw [found]⟩
  | discarded anyExec => exact ⟨.destroy, _, id, by unfold Step next; rw [found]⟩

/-- The own steps that all threads together still have to take. -/
def remaining [Fintype ι] (state : ExecutorState ι) : Nat :=
  ∑ thread, (state.phase thread).remaining

theorem OwnStep.remaining [Fintype ι] (step : before.OwnStep mutuallyExclusive label after) :
    after.remaining + 1 = before.remaining := by
  obtain ⟨phase, phaseEq, closer, _⟩ := step.phase
  have others : ∀ other, other ≠ label.1 →
      (after.phase other).remaining = (before.phase other).remaining := by
    intro other different
    rw [phaseEq, Function.update_of_ne different]
  have differ := sum_add_of_differ_at label.1 others
  have own : (after.phase label.1).remaining = phase.remaining := by
    rw [phaseEq, Function.update_self]
  unfold ExecutorState.remaining
  omega

omit [DecidableEq ι] in
theorem remaining_eq_zero [Fintype ι] {state : ExecutorState ι} :
    state.remaining = 0 ↔ state.phase = fun _ => .idle := by
  simp only [remaining, Finset.sum_eq_zero_iff, Finset.mem_univ, true_imp_iff,
    Phase.remaining_eq_zero, funext_iff]

omit [DecidableEq ι] in
theorem remaining_le_card [Fintype ι] (state : ExecutorState ι) :
    state.remaining ≤ 2 * Fintype.card ι := by
  calc state.remaining
      ≤ ∑ _thread : ι, 2 := Finset.sum_le_sum fun thread _ => (state.phase thread).remaining_le
    _ = 2 * Fintype.card ι := by
        rw [Finset.sum_const, Nat.nsmul_eq_mul, Nat.mul_comm, Finset.card_univ]

theorem OwnStep.run {start stop : ExecutorState ι} {labels : List (ι × WorkerEvent)}
    (own : Steps (OwnStep mutuallyExclusive) start labels stop) :
    Steps (Step mutuallyExclusive) start labels stop := by
  induction own with
  | nil => exact .nil
  | snoc _ last ih => exact .snoc ih last.2

/-- From every reachable state, whatever own steps the threads have begun to take can
be continued until nobody holds a group or a timer any more.  All orders take the same
number of steps, at most two for each thread. -/
theorem run_drains [Fintype ι] {start state middle : ExecutorState ι}
    {labels begun : List (ι × WorkerEvent)} (initial : start.Initial)
    (nothing : start.NothingScheduled)
    (run : Steps (Step mutuallyExclusive) start labels state)
    (own : Steps (OwnStep mutuallyExclusive) state begun middle) :
    ∃ rest stop, Steps (OwnStep mutuallyExclusive) middle rest stop ∧ stop.Quiescent ∧
      stop.strategy = state.strategy ∧
      begun.length + rest.length = state.remaining ∧
      begun.length + rest.length ≤ 2 * Fintype.card ι := by
  have lowers : ∀ {before : ExecutorState ι} {label after},
      OwnStep mutuallyExclusive before label after → after.remaining < before.remaining := by
    intro before label after step
    have := step.remaining
    omega
  have enabled : ∀ {state : ExecutorState ι}, state.phase ≠ (fun _ => .idle) →
      ∃ label after, OwnStep mutuallyExclusive state label after := by
    intro state busy
    obtain ⟨thread, moving⟩ := Function.ne_iff.mp busy
    obtain ⟨event, after, step⟩ := exists_ownStep moving
    exact ⟨_, after, step⟩
  obtain ⟨rest, stop, last, idle⟩ := exists_steps_final (OwnStep mutuallyExclusive)
    ExecutorState.remaining (fun _ => True) (fun state => state.phase = fun _ => .idle)
    (fun _ _ => trivial) (fun _ => lowers) (fun _ => enabled) (trivial : True)
  have whole := own.append last
  have reached := run.append (OwnStep.run whole)
  have atMost := whole.length_add_rank_le ExecutorState.remaining (fun _ => True) trivial
    (fun _ _ => trivial) (fun _ => lowers)
  have atLeast := whole.rank_le_length_add ExecutorState.remaining fun step => step.remaining.ge
  have strategyEq := whole.invariant (fun reached => reached.strategy = state.strategy) rfl
    fun same step => step.phase.choose_spec.2.2.trans same
  rw [List.length_append, remaining_eq_zero.mpr idle] at atMost atLeast
  have bound := state.remaining_le_card
  refine ⟨rest, stop, last, ?_, strategyEq, by omega, by omega⟩
  exact (taken_held_of_run initial reached).quiescent (exact_of_run nothing reached) idle

/-- When two threads execute callbacks of one group, four steps of their own take the
executor back to rest. -/
theorem run_drains_duplicate :
    ∃ state middle, Steps (Step fun _ => true) timerAndSubscription duplicateTimer state ∧
      Steps (OwnStep fun _ => true) state [(2, .finish)] middle ∧
      ∃ rest stop, Steps (OwnStep fun _ => true) middle rest stop ∧ stop.Quiescent ∧
        rest.length = 3 := by
  obtain ⟨state, executed, middle, finished, busy⟩ : ∃ state : ExecutorState (Fin 3),
      replay (next fun _ => true) timerAndSubscription duplicateTimer = some state ∧
        ∃ middle, state.Step (fun _ => true) (2, .finish) middle ∧ state.remaining = 4 :=
    ⟨_, rfl, _, rfl, by decide⟩
  have run : Steps (Step fun _ => true) timerAndSubscription (duplicateTimer.map id) state :=
    .of_replay id id _ executed
  have begun : Steps (OwnStep fun _ => true) state [(2, .finish)] middle :=
    .singleton ⟨id, finished⟩
  obtain ⟨rest, stop, last, quiescent, _, total, _⟩ :=
    run_drains ⟨rfl, rfl⟩ ⟨rfl, rfl⟩ run begun
  rw [busy, List.length_singleton] at total
  rw [List.map_id] at run
  exact ⟨state, middle, run, begun, rest, stop, last, quiescent, by omega⟩

end ExecutorState

end PriorityExecutor
