import PriorityExecutor.Executor.Worker

/-!
# Mutual exclusion of callback groups

A thread holds a mutually exclusive callback group from its selection to the end of
the callback.  The flag of the group is meant to say so: it is cleared at the
selection and set at the end.

A discarded timer breaks this.  Its group is given back twice, and the second time
outside the lock; a thread that takes the group in between loses its protection.  As
long as no selection takes a group that a discarded `any_executable` will still give
back, the flag is exact.
-/

namespace PriorityExecutor

namespace Phase

/-- The thread executes, or is about to execute, a callback of the group. -/
def Holds (phase : Phase) (group : GroupId) : Prop :=
  ∃ anyExec, phase = .executing anyExec ∧ anyExec.callbackGroup = some group

/-- The thread will give the group back when it destroys its `any_executable`. -/
def WillReset (phase : Phase) (group : GroupId) : Prop :=
  ∃ anyExec, phase = .discarded anyExec ∧ anyExec.callbackGroup = some group

def isDiscarded : Phase → Bool
  | .discarded _ => true
  | _ => false

@[simp] theorem holds_executing {anyExec : AnyExecutable} {group : GroupId} :
    (executing anyExec).Holds group ↔ anyExec.callbackGroup = some group := by
  simp [Holds]

@[simp] theorem not_holds_idle {group : GroupId} : ¬ idle.Holds group := by
  simp [Holds]

@[simp] theorem not_holds_executed {anyExec : AnyExecutable} {group : GroupId} :
    ¬ (executed anyExec).Holds group := by
  simp [Holds]

@[simp] theorem not_holds_discarded {anyExec : AnyExecutable} {group : GroupId} :
    ¬ (discarded anyExec).Holds group := by
  simp [Holds]

@[simp] theorem willReset_discarded {anyExec : AnyExecutable} {group : GroupId} :
    (discarded anyExec).WillReset group ↔ anyExec.callbackGroup = some group := by
  simp [WillReset]

@[simp] theorem not_willReset_idle {group : GroupId} : ¬ idle.WillReset group := by
  simp [WillReset]

@[simp] theorem not_willReset_executing {anyExec : AnyExecutable} {group : GroupId} :
    ¬ (executing anyExec).WillReset group := by
  simp [WillReset]

@[simp] theorem not_willReset_executed {anyExec : AnyExecutable} {group : GroupId} :
    ¬ (executed anyExec).WillReset group := by
  simp [WillReset]

end Phase

/-- Giving a group back leaves the flags of the others. -/
theorem giveBack_of_ne {flags : GroupId → Bool} {own : Option GroupId} {group : GroupId}
    (different : own ≠ some group) : giveBack flags own group = flags group := by
  cases own with
  | none => rfl
  | some given =>
      refine Function.update_of_ne ?_ _ _
      rintro rfl
      exact different rfl

namespace ExecutorState

variable {ι : Type*} [DecidableEq ι] {mutuallyExclusive : GroupId → Bool}
  {before after : ExecutorState ι} {label : ι × WorkerEvent}

/-! ## What a step can do -/

/-- A critical section that returns no executable leaves flags, timers and phases. -/
theorem afterRound_empty {state : ExecutorState ι} {thread : ι} {anyExec : AnyExecutable}
    {strategy : Strategy} (empty : anyExec.isFilled = false) :
    state.afterRound mutuallyExclusive thread anyExec strategy = { state with strategy } := by
  simp [afterRound, getNextReadyExecutable, empty]

/-- A critical section that takes a takeable group either keeps it, with the flag
cleared if the group is mutually exclusive, or discards the executable, and the flags
are as before. -/
theorem afterRound_filled {state : ExecutorState ι} {thread : ι} {anyExec : AnyExecutable}
    {strategy : Strategy} {group : GroupId} (filled : anyExec.isFilled = true)
    (groupEq : anyExec.callbackGroup = some group)
    (takeable : state.canBeTakenFrom group = true) :
    ((∀ timer, anyExec.timer = some timer → timer ∉ state.scheduledTimers) ∧
      (state.afterRound mutuallyExclusive thread anyExec strategy).phase =
        Function.update state.phase thread (.executing anyExec) ∧
      (state.afterRound mutuallyExclusive thread anyExec strategy).canBeTakenFrom =
        if mutuallyExclusive group then Function.update state.canBeTakenFrom group false
        else state.canBeTakenFrom) ∨
      (state.afterRound mutuallyExclusive thread anyExec strategy).phase =
        Function.update state.phase thread (.discarded anyExec) ∧
      (state.afterRound mutuallyExclusive thread anyExec strategy).canBeTakenFrom =
        state.canBeTakenFrom := by
  have restored : giveBack (if mutuallyExclusive group then
      Function.update state.canBeTakenFrom group false else state.canBeTakenFrom)
      anyExec.callbackGroup = state.canBeTakenFrom := by
    rw [groupEq]
    funext other
    by_cases same : other = group
    · simp [giveBack, same, takeable]
    · cases mutuallyExclusive group <;> simp [giveBack, same]
  have marked : getNextReadyExecutable mutuallyExclusive state.canBeTakenFrom anyExec =
      (true, if mutuallyExclusive group then
        Function.update state.canBeTakenFrom group false else state.canBeTakenFrom) := by
    simp [getNextReadyExecutable, filled, groupEq]
  unfold afterRound
  simp only [marked, ↓reduceIte]
  split
  next timer timerEq =>
    split
    next => exact .inr ⟨rfl, restored⟩
    next fresh =>
      refine .inl ⟨?_, rfl, rfl⟩
      intro other otherEq
      rw [timerEq] at otherEq
      cases otherEq
      exact fresh
  next noTimer =>
    refine .inl ⟨?_, rfl, rfl⟩
    intro timer timerEq
    rw [noTimer] at timerEq
    cases timerEq

/-- The critical section will take the group: it settles on an executable of the
group, and not on a timer that some thread has scheduled. -/
def Takes (state : ExecutorState ι) (input : RoundInput) (group : GroupId) : Prop :=
  ∃ handle anyExec,
    state.chosen input = some (handle, anyExec) ∧
    anyExec.callbackGroup = some group ∧
    ∀ timer, anyExec.timer = some timer → timer ∉ state.scheduledTimers

/-- What a step of a thread does to the phases and the flags. -/
inductive Effect (mutuallyExclusive : GroupId → Bool) (before : ExecutorState ι)
    (label : ι × WorkerEvent) (after : ExecutorState ι) : Prop where
  | nothing : after.phase = before.phase → after.canBeTakenFrom = before.canBeTakenFrom →
      Effect mutuallyExclusive before label after
  | start {input : RoundInput} {anyExec : AnyExecutable} {group : GroupId} :
      label.2 = .select input → before.Takes input group →
      before.phase label.1 = .idle → anyExec.callbackGroup = some group →
      before.canBeTakenFrom group = true →
      after.phase = Function.update before.phase label.1 (.executing anyExec) →
      after.canBeTakenFrom =
        (if mutuallyExclusive group then Function.update before.canBeTakenFrom group false
        else before.canBeTakenFrom) →
      Effect mutuallyExclusive before label after
  | discard {anyExec : AnyExecutable} {group : GroupId} :
      before.phase label.1 = .idle → anyExec.callbackGroup = some group →
      before.canBeTakenFrom group = true →
      after.phase = Function.update before.phase label.1 (.discarded anyExec) →
      after.canBeTakenFrom = before.canBeTakenFrom →
      Effect mutuallyExclusive before label after
  | finish {anyExec : AnyExecutable} :
      before.phase label.1 = .executing anyExec →
      after.phase = Function.update before.phase label.1 (.executed anyExec) →
      after.canBeTakenFrom = giveBack before.canBeTakenFrom anyExec.callbackGroup →
      Effect mutuallyExclusive before label after
  | erase {anyExec : AnyExecutable} :
      before.phase label.1 = .executed anyExec →
      after.phase = Function.update before.phase label.1 .idle →
      after.canBeTakenFrom = before.canBeTakenFrom →
      Effect mutuallyExclusive before label after
  | destroy {anyExec : AnyExecutable} :
      before.phase label.1 = .discarded anyExec →
      after.phase = Function.update before.phase label.1 .idle →
      after.canBeTakenFrom = giveBack before.canBeTakenFrom anyExec.callbackGroup →
      Effect mutuallyExclusive before label after

omit [DecidableEq ι] in
/-- A round that fills `any_exec` settled on it, with a group whose flag is set. -/
theorem chosen_of_round {state : ExecutorState ι} {input : RoundInput}
    {anyExec : AnyExecutable} {strategy : Strategy}
    (result : state.strategy.round (input.withFlags state.canBeTakenFrom) =
      .ok (anyExec, strategy)) (filled : anyExec.isFilled = true) :
    ∃ handle group,
      state.chosen input = some (handle, anyExec) ∧
      anyExec.callbackGroup = some group ∧ state.canBeTakenFrom group = true := by
  have step := RoundStep.of_round result
  obtain ⟨_, executable, entity, group, _, _, _, _, _, takeable, anyExecEq, _⟩ :=
    step.dispatchesHighest filled
  rcases step.dispatchStep with ⟨_, empty, _⟩ | ⟨handle, selected, _⟩
  · simp only at empty
    simp [empty] at filled
  · simp only at anyExecEq
    exact ⟨handle, group, selected, by rw [anyExecEq, AnyExecutable.callbackGroup_fill],
      takeable⟩

theorem Step.effect (step : before.Step mutuallyExclusive label after) :
    Effect mutuallyExclusive before label after := by
  unfold Step next at step
  split at step
  next input idle selects =>
    split at step
    next => cases step
    next anyExec strategy result =>
      cases step
      cases filled : anyExec.isFilled with
      | false =>
          rw [afterRound_empty filled]
          exact .nothing rfl rfl
      | true =>
          obtain ⟨handle, group, chosen, groupEq, takeable⟩ := chosen_of_round result filled
          rcases afterRound_filled filled groupEq takeable with
            ⟨fresh, phaseEq, flagsEq⟩ | ⟨phaseEq, flagsEq⟩
          · exact .start selects ⟨handle, anyExec, chosen, groupEq, fresh⟩ idle groupEq
              takeable phaseEq flagsEq
          · exact .discard idle groupEq takeable phaseEq flagsEq
  next anyExec executing _ =>
    cases step
    exact .finish executing rfl rfl
  next anyExec executed _ =>
    cases step
    exact .erase executed rfl rfl
  next anyExec discarded _ =>
    cases step
    exact .destroy discarded rfl rfl
  next => cases step

/-! ## The invariant -/

/-- At most one thread holds a mutually exclusive group, and the flag of the group is
false exactly when one does. -/
structure Exclusive (mutuallyExclusive : GroupId → Bool) (state : ExecutorState ι) :
    Prop where
  atMostOne : ∀ group, mutuallyExclusive group = true → ∀ left right,
    (state.phase left).Holds group → (state.phase right).Holds group → left = right
  flag : ∀ group, mutuallyExclusive group = true →
    (state.canBeTakenFrom group = false ↔ ∃ thread, (state.phase thread).Holds group)

/-- Some thread still has a discarded `any_executable` of the group to destroy. -/
def ResetPending (state : ExecutorState ι) (group : GroupId) : Prop :=
  ∃ thread, (state.phase thread).WillReset group

/-- The invariant of clean runs. -/
structure Clean (mutuallyExclusive : GroupId → Bool) (state : ExecutorState ι) : Prop
    extends Exclusive mutuallyExclusive state where
  noOverlap : ∀ group, mutuallyExclusive group = true → state.ResetPending group →
    ∀ thread, ¬ (state.phase thread).Holds group

/-- No mutually exclusive group with a pending reset is about to be taken. -/
def TakesNoPending (mutuallyExclusive : GroupId → Bool) (state : ExecutorState ι)
    (event : WorkerEvent) : Prop :=
  ∀ input group, event = .select input → state.Takes input group →
    mutuallyExclusive group = true → ¬ state.ResetPending group

/-- A step that takes no mutually exclusive group with a pending reset. -/
def CleanStep (mutuallyExclusive : GroupId → Bool) (before : ExecutorState ι)
    (label : ι × WorkerEvent) (after : ExecutorState ι) : Prop :=
  before.TakesNoPending mutuallyExclusive label.2 ∧
    before.Step mutuallyExclusive label after

/-- Every thread is at the top of its loop and every group is takeable. -/
def Initial (state : ExecutorState ι) : Prop :=
  state.phase = (fun _ => .idle) ∧ state.canBeTakenFrom = fun _ => true

omit [DecidableEq ι] in
theorem Initial.clean {state : ExecutorState ι} (initial : state.Initial) :
    Clean mutuallyExclusive state := by
  obtain ⟨phaseEq, flagsEq⟩ := initial
  refine ⟨⟨?_, ?_⟩, ?_⟩
  · intro group _ left right leftHolds
    simp [phaseEq] at leftHolds
  · intro group _
    simp [phaseEq, flagsEq]
  · intro group _ _ thread
    simp [phaseEq]

theorem holds_of_update {thread other : ι} {phase : Phase} {group : GroupId}
    (phaseEq : after.phase = Function.update before.phase thread phase) :
    (after.phase other).Holds group ↔
      if other = thread then phase.Holds group else (before.phase other).Holds group := by
  rw [phaseEq, Function.update_apply]
  split <;> rfl

theorem willReset_of_update {thread other : ι} {phase : Phase} {group : GroupId}
    (phaseEq : after.phase = Function.update before.phase thread phase) :
    (after.phase other).WillReset group ↔
      if other = thread then phase.WillReset group
      else (before.phase other).WillReset group := by
  rw [phaseEq, Function.update_apply]
  split <;> rfl

/-- A thread that holds nothing before and after its step changes no holder. -/
theorem holds_iff_of_update {thread other : ι} {phase : Phase} {group : GroupId}
    (phaseEq : after.phase = Function.update before.phase thread phase)
    (heldNot : ¬ (before.phase thread).Holds group) (holdsNot : ¬ phase.Holds group) :
    (after.phase other).Holds group ↔ (before.phase other).Holds group := by
  rw [holds_of_update phaseEq]
  split
  next same =>
    subst same
    exact iff_of_false holdsNot heldNot
  next => rfl

/-- Only a discarded executable brings a new pending reset. -/
theorem ResetPending.of_update {thread : ι} {phase : Phase} {group : GroupId}
    (pending : after.ResetPending group)
    (phaseEq : after.phase = Function.update before.phase thread phase)
    (noReset : ¬ phase.WillReset group) : before.ResetPending group := by
  obtain ⟨other, resets⟩ := pending
  rw [willReset_of_update phaseEq] at resets
  split at resets
  · exact absurd resets noReset
  · exact ⟨other, resets⟩

omit [DecidableEq ι] in
/-- A takeable group has no holder. -/
theorem Exclusive.not_holds (invariant : Exclusive mutuallyExclusive before)
    {group : GroupId} (exclusive : mutuallyExclusive group = true)
    (takeable : before.canBeTakenFrom group = true) (thread : ι) :
    ¬ (before.phase thread).Holds group := by
  intro held
  have taken := (invariant.flag group exclusive).mpr ⟨thread, held⟩
  rw [takeable] at taken
  cases taken

omit [DecidableEq ι] in
/-- Steps that change no holder and no flag of a mutually exclusive group. -/
theorem Clean.of_same (clean : Clean mutuallyExclusive before)
    (holds : ∀ thread group,
      (after.phase thread).Holds group ↔ (before.phase thread).Holds group)
    (flags : ∀ group, mutuallyExclusive group = true →
      after.canBeTakenFrom group = before.canBeTakenFrom group)
    (noOverlap : ∀ group, mutuallyExclusive group = true → after.ResetPending group →
      ∀ thread, ¬ (before.phase thread).Holds group) :
    Clean mutuallyExclusive after := by
  refine ⟨⟨?_, ?_⟩, ?_⟩
  · intro group exclusive left right leftHolds rightHolds
    exact clean.atMostOne group exclusive left right ((holds left group).mp leftHolds)
      ((holds right group).mp rightHolds)
  · intro group exclusive
    simp only [holds, flags group exclusive]
    exact clean.flag group exclusive
  · intro group exclusive pending thread
    rw [holds]
    exact noOverlap group exclusive pending thread

theorem Clean.start (clean : Clean mutuallyExclusive before) {thread : ι}
    {anyExec : AnyExecutable} {group : GroupId} (idle : before.phase thread = .idle)
    (groupEq : anyExec.callbackGroup = some group)
    (takeable : before.canBeTakenFrom group = true)
    (phaseEq : after.phase = Function.update before.phase thread (.executing anyExec))
    (flagsEq : after.canBeTakenFrom =
      if mutuallyExclusive group then Function.update before.canBeTakenFrom group false
      else before.canBeTakenFrom)
    (noTake : mutuallyExclusive group = true → ¬ before.ResetPending group) :
    Clean mutuallyExclusive after := by
  have holds : ∀ other found, (after.phase other).Holds found ↔
      other = thread ∧ found = group ∨ (before.phase other).Holds found := by
    intro other found
    rw [holds_of_update phaseEq]
    split
    next same =>
      subst same
      simp [idle, groupEq, eq_comm]
    next different => simp [different]
  have pending : ∀ found, after.ResetPending found → before.ResetPending found :=
    fun _ resets => resets.of_update phaseEq (by simp)
  have free : mutuallyExclusive group = true →
      ∀ other, ¬ (before.phase other).Holds group :=
    fun exclusive => clean.not_holds exclusive takeable
  refine ⟨⟨?_, ?_⟩, ?_⟩
  · intro found exclusive left right leftHolds rightHolds
    rw [holds] at leftHolds rightHolds
    rcases leftHolds with ⟨rfl, rfl⟩ | leftHeld
    · rcases rightHolds with ⟨rfl, _⟩ | rightHeld
      · rfl
      · exact absurd rightHeld (free exclusive right)
    · rcases rightHolds with ⟨rfl, rfl⟩ | rightHeld
      · exact absurd leftHeld (free exclusive left)
      · exact clean.atMostOne found exclusive left right leftHeld rightHeld
  · intro found exclusive
    by_cases same : found = group
    · subst same
      rw [flagsEq, if_pos exclusive, Function.update_self]
      exact ⟨fun _ => ⟨thread, (holds thread found).mpr (.inl ⟨rfl, rfl⟩)⟩, fun _ => rfl⟩
    · have flagSame : after.canBeTakenFrom found = before.canBeTakenFrom found := by
        rw [flagsEq]
        split
        · exact Function.update_of_ne same _ _
        · rfl
      simp only [flagSame, holds, same, and_false, false_or]
      exact clean.flag found exclusive
  · intro found exclusive resets other held
    rcases (holds other found).mp held with ⟨_, rfl⟩ | was
    · exact noTake exclusive (pending found resets)
    · exact clean.noOverlap found exclusive (pending found resets) other was

theorem Clean.finish (clean : Clean mutuallyExclusive before) {thread : ι}
    {anyExec : AnyExecutable} (executing : before.phase thread = .executing anyExec)
    (phaseEq : after.phase = Function.update before.phase thread (.executed anyExec))
    (flagsEq : after.canBeTakenFrom =
      giveBack before.canBeTakenFrom anyExec.callbackGroup) :
    Clean mutuallyExclusive after := by
  have holds : ∀ other found, (after.phase other).Holds found ↔
      other ≠ thread ∧ (before.phase other).Holds found := by
    intro other found
    rw [holds_of_update phaseEq]
    split
    next same => simp [same]
    next different => simp [different]
  have pending : ∀ found, after.ResetPending found → before.ResetPending found :=
    fun _ resets => resets.of_update phaseEq (by simp)
  refine ⟨⟨?_, ?_⟩, ?_⟩
  · intro found exclusive left right leftHolds rightHolds
    exact clean.atMostOne found exclusive left right ((holds left found).mp leftHolds).2
      ((holds right found).mp rightHolds).2
  · intro found exclusive
    by_cases own : anyExec.callbackGroup = some found
    · -- the group is free again: the thread was its only holder
      have nobody : ¬ ∃ other, (after.phase other).Holds found := by
        rintro ⟨other, held⟩
        obtain ⟨different, was⟩ := (holds other found).mp held
        exact different (clean.atMostOne found exclusive other thread was
          (by rw [executing]; simpa using own))
      have free : after.canBeTakenFrom found = true := by
        rw [flagsEq, own, giveBack, Function.update_self]
      simp [free, nobody]
    · have flagSame : after.canBeTakenFrom found = before.canBeTakenFrom found := by
        rw [flagsEq, giveBack_of_ne own]
      have sameHolders : (∃ other, (after.phase other).Holds found) ↔
          ∃ other, (before.phase other).Holds found := by
        constructor
        · rintro ⟨other, held⟩
          exact ⟨other, ((holds other found).mp held).2⟩
        · rintro ⟨other, held⟩
          refine ⟨other, (holds other found).mpr ⟨?_, held⟩⟩
          rintro rfl
          rw [executing] at held
          exact own (Phase.holds_executing.mp held)
      rw [flagSame, sameHolders]
      exact clean.flag found exclusive
  · intro found exclusive resets other held
    exact clean.noOverlap found exclusive (pending found resets) other
      ((holds other found).mp held).2

theorem Clean.step (clean : Clean mutuallyExclusive before)
    (step : before.CleanStep mutuallyExclusive label after) :
    Clean mutuallyExclusive after := by
  obtain ⟨noTake, step⟩ := step
  cases step.effect with
  | nothing phaseEq flagsEq =>
      refine clean.of_same (by simp [phaseEq]) (by simp [flagsEq]) ?_
      intro group exclusive pending
      unfold ResetPending at pending
      rw [phaseEq] at pending
      exact clean.noOverlap group exclusive pending
  | start selects takes idle groupEq takeable phaseEq flagsEq =>
      exact clean.start idle groupEq takeable phaseEq flagsEq (noTake _ _ selects takes)
  | @discard _ group idle groupEq takeable phaseEq flagsEq =>
      refine clean.of_same ?_ (by simp [flagsEq]) ?_
      · exact fun _ _ => holds_iff_of_update phaseEq (by simp [idle]) (by simp)
      · intro found exclusive pending
        by_cases own : found = group
        · subst own
          exact clean.not_holds exclusive takeable
        · refine clean.noOverlap found exclusive (pending.of_update phaseEq ?_)
          rw [Phase.willReset_discarded, groupEq, Option.some.injEq]
          exact fun same => own same.symm
  | finish executing phaseEq flagsEq => exact clean.finish executing phaseEq flagsEq
  | erase executed phaseEq flagsEq =>
      refine clean.of_same ?_ (by simp [flagsEq]) ?_
      · exact fun _ _ => holds_iff_of_update phaseEq (by simp [executed]) (by simp)
      · exact fun found exclusive pending =>
          clean.noOverlap found exclusive (pending.of_update phaseEq (by simp))
  | @destroy anyExec discarded phaseEq flagsEq =>
      refine clean.of_same ?_ ?_ ?_
      · exact fun _ _ => holds_iff_of_update phaseEq (by simp [discarded]) (by simp)
      · -- the group has no holder, so its flag was set already
        intro found exclusive
        by_cases own : anyExec.callbackGroup = some found
        · have pending : before.ResetPending found :=
            ⟨label.1, by rw [discarded]; simpa using own⟩
          have free : before.canBeTakenFrom found ≠ false := by
            intro taken
            obtain ⟨thread, held⟩ := (clean.flag found exclusive).mp taken
            exact clean.noOverlap found exclusive pending thread held
          rw [flagsEq, own, giveBack, Function.update_self]
          exact (Bool.eq_true_of_not_eq_false free).symm
        · rw [flagsEq, giveBack_of_ne own]
      · exact fun found exclusive pending =>
          clean.noOverlap found exclusive (pending.of_update phaseEq (by simp))

/-- In every run from the start in which no critical section takes a mutually exclusive
group while a discarded `any_executable` of that group is still to be destroyed, every
group has at most one holder, and its flag is false exactly while it has one. -/
theorem exclusive_of_clean_run {start stop : ExecutorState ι}
    {labels : List (ι × WorkerEvent)} (initial : start.Initial)
    (run : Steps (CleanStep mutuallyExclusive) start labels stop) :
    Exclusive mutuallyExclusive stop :=
  (run.invariant (Clean mutuallyExclusive) initial.clean
    fun clean step => clean.step step).toExclusive

/-! ## When a pending reset strikes -/

/-- A thread that holds a group while another still has to give it back loses its
protection as soon as the other does. -/
theorem not_exclusive_of_destroy {holder resetter : ι} {group : GroupId}
    (exclusive : mutuallyExclusive group = true)
    (held : (before.phase holder).Holds group)
    (pending : (before.phase resetter).WillReset group) :
    ∃ after, before.Step mutuallyExclusive (resetter, .destroy) after ∧
      (after.phase holder).Holds group ∧ ¬ Exclusive mutuallyExclusive after := by
  obtain ⟨anyExec, discarded, groupEq⟩ := pending
  have different : holder ≠ resetter := by
    rintro rfl
    rw [discarded] at held
    simp at held
  let after : ExecutorState ι :=
    { before with
      canBeTakenFrom := giveBack before.canBeTakenFrom anyExec.callbackGroup
      phase := Function.update before.phase resetter .idle }
  have stillHeld : (after.phase holder).Holds group := by
    simpa only [after, Function.update_of_ne different] using held
  refine ⟨after, ?_, stillHeld, ?_⟩
  · simp only [Step, next, discarded, after]
  · intro invariant
    have taken := (invariant.flag group exclusive).mpr ⟨holder, stillHeld⟩
    simp [after, groupEq, giveBack] at taken

/-! A system on which the results are tried: one mutually exclusive group with timer 1
and subscription 2, and three threads. -/

/-- A round in which the wait leaves the slot of `ready` only. -/
def onlyReady (ready : Handle) : RoundInput where
  canBeTakenFrom _ := true
  weakNodes := [some ⟨[some { id := 0, subscriptions := [2], timers := [1] }]⟩]
  outcome :=
    { addToWaitSet := fun _ waitSet => waitSet
      wait := fun waitSet =>
        { waitSet with
          subscriptions := waitSet.subscriptions.map fun slot =>
            slot.filter fun handle => handle = ready
          timers := waitSet.timers.map fun slot =>
            slot.filter fun handle => handle = ready }
      isReady := fun _ _ => false }
  view :=
    { entityExists := fun _ _ => true
      getGroup := fun _ _ => some 0
      canBeTakenFrom := fun _ => true }
  dispatch := { millis := 0 }

def timerAndSubscription : ExecutorState (Fin 3) where
  strategy :=
    ((({} : Strategy).setExecutablePriority 1 5 .timer .chainIndependentPriority 0)
      ).setExecutablePriority 2 6 .subscription .chainIndependentPriority 0

/-- Thread 0 has finished the timer and not yet erased it when thread 1 selects the
timer and discards it.  Thread 2 takes the group for the subscription.  The destruction
in thread 1 sets the flag, and once the timer is erased thread 0 takes the group too. -/
def duplicateTimer : List (Fin 3 × WorkerEvent) :=
  [(0, .select (onlyReady 1)), (0, .finish), (1, .select (onlyReady 1)),
    (2, .select (onlyReady 2)), (1, .destroy), (0, .erase), (0, .select (onlyReady 1))]

/-- Two threads execute callbacks of the group at once. -/
theorem duplicate_timer_breaks_exclusion :
    timerAndSubscription.Initial ∧
      ∃ stop, Steps (Step fun _ => true) timerAndSubscription duplicateTimer stop ∧
        (stop.phase 0).Holds 0 ∧ (stop.phase 2).Holds 0 ∧
        ¬ Exclusive (fun _ => true) stop := by
  obtain ⟨stop, executed⟩ : ∃ stop,
      replay (next fun _ => true) timerAndSubscription duplicateTimer = some stop ∧
        stop.phase 0 = .executing (.fill .timer 1 0) ∧
        stop.phase 2 = .executing (.fill .subscription 2 0) :=
    ⟨_, rfl, rfl, rfl⟩
  obtain ⟨executed, first, second⟩ := executed
  have run : Steps (Step fun _ => true) timerAndSubscription (duplicateTimer.map id) stop :=
    .of_replay id id duplicateTimer executed
  rw [List.map_id] at run
  have firstHolds : (stop.phase 0).Holds 0 := by
    rw [first]
    simp
  have secondHolds : (stop.phase 2).Holds 0 := by
    rw [second]
    simp
  refine ⟨⟨rfl, rfl⟩, stop, run, firstHolds, secondHolds, ?_⟩
  intro exclusive
  have := exclusive.atMostOne 0 rfl 0 2 firstHolds secondHolds
  cases this

/-- A step while no thread has a discarded `any_executable` is clean. -/
theorem CleanStep.of_quiet (step : before.Step mutuallyExclusive label after)
    (quiet : ∀ thread, (before.phase thread).isDiscarded = false) :
    before.CleanStep mutuallyExclusive label after := by
  refine ⟨?_, step⟩
  rintro input group _ _ _ ⟨thread, anyExec, discarded, _⟩
  simpa [discarded, Phase.isDiscarded] using quiet thread

/-- The timer may be selected twice when its second `any_executable` is destroyed
before the group is taken again. -/
theorem exclusive_of_clean_run_discard :
    ∃ stop : ExecutorState (Fin 3),
      (stop.phase 2).Holds 0 ∧ Exclusive (fun _ => true) stop := by
  obtain ⟨s₁, step₁, s₂, step₂, quiet₂, s₃, step₃, s₄, step₄, quiet₄, s₅, step₅, last⟩ :
      ∃ s₁, timerAndSubscription.Step (fun _ => true) (0, .select (onlyReady 1)) s₁ ∧
      ∃ s₂ : ExecutorState (Fin 3), s₁.Step (fun _ => true) (0, .finish) s₂ ∧
        (∀ thread, (s₂.phase thread).isDiscarded = false) ∧
      ∃ s₃, s₂.Step (fun _ => true) (1, .select (onlyReady 1)) s₃ ∧
      ∃ s₄ : ExecutorState (Fin 3), s₃.Step (fun _ => true) (1, .destroy) s₄ ∧
        (∀ thread, (s₄.phase thread).isDiscarded = false) ∧
      ∃ s₅ : ExecutorState (Fin 3), s₄.Step (fun _ => true) (2, .select (onlyReady 2)) s₅ ∧
        s₅.phase 2 = .executing (.fill .subscription 2 0) :=
    ⟨_, rfl, _, rfl, by decide, _, rfl, _, rfl, by decide, _, rfl, rfl⟩
  have run : Steps (CleanStep fun _ => true) timerAndSubscription
      [(0, .select (onlyReady 1)), (0, .finish), (1, .select (onlyReady 1)), (1, .destroy),
        (2, .select (onlyReady 2))] s₅ :=
    .snoc (.snoc (.snoc (.snoc (.snoc .nil (.of_quiet step₁ fun _ => rfl))
      ⟨nofun, step₂⟩) (.of_quiet step₃ quiet₂)) ⟨nofun, step₄⟩) (.of_quiet step₅ quiet₄)
  refine ⟨s₅, ?_, exclusive_of_clean_run ⟨rfl, rfl⟩ run⟩
  rw [last]
  simp

end ExecutorState

end PriorityExecutor
