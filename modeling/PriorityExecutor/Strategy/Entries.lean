import PriorityExecutor.Strategy.Eligibility
import PriorityExecutor.Strategy.Rounds

/-!
# Properties of all entries

A wait registers what it meets for the first time and sets flags, and touches nothing else
in the map.  So it keeps every property of entries that those registered on the fly have
and that does not depend on the flags.

One such property bounds the dispatch counters, which are of type `int` and overflow after
`2^31 - 1` dispatches: a round adds one to one of them at most.
-/

namespace PriorityExecutor

namespace Strategy

/-- Every entry of `priority_map` has the property. -/
def Entries (property : Handle → PriorityExecutable → Prop) (strategy : Strategy) : Prop :=
  ∀ handle executable,
    strategy.priorityMap handle = some executable → property handle executable

/-- The property is of entries registered on the fly too, and the flags do not matter. -/
structure FlagFree (property : Handle → PriorityExecutable → Prop) : Prop where
  fresh : ∀ handle type, property handle (.ofPriority 0 type)
  flag : ∀ {handle executable} canBeRun,
    property handle executable → property handle { executable with canBeRun }

variable {property : Handle → PriorityExecutable → Prop} {strategy : Strategy}

theorem Entries.assign (entries : strategy.Entries property) {handle : Handle}
    {executable : PriorityExecutable} (holds : property handle executable) :
    (strategy.assign handle executable).Entries property := by
  intro other found entry
  by_cases same : other = handle
  · subst same
    rw [strategy.assign_self] at entry
    cases entry
    exact holds
  · rw [strategy.assign_of_ne _ same] at entry
    exact entries other found entry

/-- An absent key reads as a blank entry, which is one registered on the fly. -/
theorem Entries.atKey (flagFree : FlagFree property) (entries : strategy.Entries property)
    (handle : Handle) : property handle (strategy.atKey handle) := by
  cases entry : strategy.priorityMap handle with
  | none =>
      rw [atKey_of_none entry]
      exact flagFree.fresh handle .subscription
  | some executable =>
      rw [atKey_of_some entry]
      exact entries handle executable entry

theorem Entries.getAndResetPriority (flagFree : FlagFree property)
    (entries : strategy.Entries property) (handle : Handle) (type : ExecutableType) :
    (strategy.getAndResetPriority handle type).Entries property := by
  unfold Strategy.getAndResetPriority
  split
  next => exact entries.assign (flagFree.fresh handle type)
  next => exact entries

/-- Collecting an entity registers it, if anything. -/
theorem collectEntity_priorityMap (strategy : Strategy) (entity : Entity) :
    (strategy.collectEntity entity).priorityMap = strategy.priorityMap ∨
      (strategy.collectEntity entity).priorityMap =
        (strategy.getAndResetPriority entity.2 entity.1).priorityMap := by
  rcases entity with ⟨kind, handle⟩
  cases kind with
  | subscription =>
      apply Or.inl
      cases found : strategy.priorityMap handle <;>
        simp [collectEntity, collectSubscription, pushExecutable,
          Strategy.getAndResetPriority, getPrioritySettings, found]
  | service =>
      apply Or.inl
      cases found : strategy.priorityMap handle <;>
        simp [collectEntity, collectService, pushExecutable,
          Strategy.getAndResetPriority, getPrioritySettings, found]
  | client | timer | waitable => exact .inr rfl

theorem Entries.collectEntities (flagFree : FlagFree property)
    (entries : strategy.Entries property) (canBeTakenFrom : GroupId → Bool)
    (weakNodes : WeakNodeList) :
    (strategy.collectEntities canBeTakenFrom weakNodes).1.Entries property := by
  rw [collectEntities_eq_foldl]
  induction visitedEntities canBeTakenFrom weakNodes generalizing strategy with
  | nil => exact entries
  | cons entity entities ih =>
      apply ih
      rcases strategy.collectEntity_priorityMap entity with same | registered
      · rw [Entries, same]
        exact entries
      · rw [Entries, registered]
        exact entries.getAndResetPriority flagFree entity.2 entity.1

theorem Entries.markReady (flagFree : FlagFree property)
    (entries : strategy.Entries property) (ready : Nat → Handle → Bool)
    (handles : List Handle) : (markReady ready strategy handles).Entries property := by
  induction handles generalizing ready strategy with
  | nil => exact entries
  | cons head tail ih =>
      rw [markReady_cons]
      apply ih
      apply entries.assign
      split
      next => exact flagFree.flag true (entries.atKey flagFree head)
      next => exact flagFree.flag false (entries.atKey flagFree head)

theorem Entries.markKinds (flagFree : FlagFree property)
    (entries : strategy.Entries property) (outcome : WaitOutcome) (waitSet : WaitSet)
    (start : Strategy) (types : List ExecutableType) :
    (markKinds outcome waitSet start types strategy).Entries property := by
  induction types generalizing strategy with
  | nil => exact entries
  | cons type types ih => exact ih (entries.markReady flagFree _ _)

/-- The wait of a round keeps every property of this kind. -/
theorem Entries.waitForWork (flagFree : FlagFree property)
    (entries : strategy.Entries property) (canBeTakenFrom : GroupId → Bool)
    (weakNodes : WeakNodeList) (outcome : WaitOutcome) :
    (strategy.waitForWork canBeTakenFrom weakNodes outcome).Entries property := by
  have cleared : strategy.clearHandles.Entries property := entries
  have collected := cleared.collectEntities flagFree canBeTakenFrom weakNodes
  rw [Strategy.waitForWork, Entries, removeNullHandles_priorityMap]
  exact collected.markKinds flagFree outcome _ _ _

end Strategy

/-! ## Dispatch counters -/

namespace Strategy

/-- Every executable has counted so many dispatches at most. -/
def CountersAtMost (bound : Nat) (strategy : Strategy) : Prop :=
  strategy.Entries fun _ executable => 0 ≤ executable.counter ∧ executable.counter ≤ bound

theorem counter_flagFree (bound : Nat) :
    FlagFree fun _ executable => 0 ≤ executable.counter ∧ executable.counter ≤ bound where
  fresh _ _ := ⟨le_rfl, Int.natCast_nonneg bound⟩
  flag _ counted := counted

variable {before after : Strategy} {bound : Nat}

/-- The wait dispatches nothing. -/
theorem CountersAtMost.ready (counted : before.CountersAtMost bound) (input : RoundInput) :
    (before.ready input).CountersAtMost bound :=
  Entries.waitForWork (counter_flagFree bound) counted _ _ _

/-- The bookkeeping counts one dispatch more, which an `int` still holds. -/
theorem CountersAtMost.bookkeeping (counted : before.CountersAtMost bound)
    (fits : bound + 1 < 2 ^ 31) {input : DispatchInput} {handle : Handle}
    (result : before.bookkeeping input handle = .ok after) :
    after.CountersAtMost (bound + 1) := by
  intro other found entry
  by_cases same : other = handle
  · subst same
    rcases bookkeeping_counts result with ⟨executable, updated, old, new, _, counter⟩
    rw [new] at entry
    cases entry
    rcases counted other executable old with ⟨nonneg, atMost⟩
    rcases counter with unchanged | increased
    · rw [unchanged]
      exact ⟨nonneg, by omega⟩
    · rw [toInt32_eq_self (by omega) (by omega)] at increased
      rw [increased]
      exact ⟨by omega, by omega⟩
  · rw [(bookkeeping_frame result).2 other same] at entry
    rcases counted other found entry with ⟨nonneg, atMost⟩
    exact ⟨nonneg, by omega⟩

theorem CountersAtMost.mono (counted : before.CountersAtMost bound) {larger : Nat}
    (le : bound ≤ larger) : before.CountersAtMost larger := by
  intro handle executable entry
  rcases counted handle executable entry with ⟨nonneg, atMost⟩
  exact ⟨nonneg, atMost.trans (Int.ofNat_le.mpr le)⟩

/-- One round. -/
theorem CountersAtMost.step (counted : before.CountersAtMost bound)
    (fits : bound + 1 < 2 ^ 31) {round : Round} (step : RoundStep before round after) :
    after.CountersAtMost (bound + 1) := by
  have ready : round.ready.CountersAtMost bound := by
    rcases step with ⟨input, readyEq, _, _⟩
    rw [readyEq]
    exact counted.ready input
  rcases step.getNextExecutable with ⟨input, result⟩
  rcases getNextExecutable_eq_ok result with ⟨queue, ⟨_, _, rfl⟩ | ⟨handle, _, update⟩⟩
  · exact ready.mono (Nat.le_succ bound)
  · have left : { round.ready with allExecutables := queue }.CountersAtMost bound := ready
    exact left.bookkeeping fits update

/-- Fewer rounds than an `int` holds overflow no counter. -/
theorem CountersAtMost.of_run {start stop : Strategy} (counted : start.CountersAtMost bound)
    {rounds : List Round} (run : Steps RoundStep start rounds stop)
    (fits : bound + rounds.length < 2 ^ 31) :
    stop.CountersAtMost (bound + rounds.length) := by
  induction run with
  | nil => exact counted
  | snoc _ step ih =>
      rw [List.length_append, List.length_singleton, ← add_assoc] at fits ⊢
      exact (ih (Nat.lt_of_succ_lt fits)).step fits step

end Strategy

end PriorityExecutor
