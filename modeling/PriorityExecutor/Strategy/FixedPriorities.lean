import PriorityExecutor.Strategy.Entries

/-!
# Fixed priorities

Where every registered executable has a chain-aware priority, the strategy is a scheduler
with fixed priorities.  A table assigns them; whatever else a round collects is registered
on the fly, as chain-independent with priority zero, and goes before the table.

Nothing that a round does touches a priority, and nothing in the bookkeeping of such an
executable can fail.  So the table is still in force after every run, no round of it
faults, and what a round serves is first in the table among everything that could run.
-/

namespace PriorityExecutor

/-! ## Calls that succeed -/

/-- A call fails only in the bookkeeping of an executable that it took from the queue. -/
theorem Strategy.getNextExecutable_eq_error {strategy : Strategy} {view : SelectionView}
    {input : DispatchInput} {fault : Fault}
    (result : strategy.getNextExecutable view input = .error fault) :
    ∃ handle ∈ strategy.allExecutables, ∃ queue,
      { strategy with allExecutables := queue }.bookkeeping input handle = .error fault := by
  rcases strategy.getNextExecutable_eq view input with ⟨queue, callEq⟩
  rw [callEq] at result
  cases chosen : strategy.selected view with
  | none =>
      rw [chosen] at result
      cases result
  | some pair =>
      rcases pair with ⟨handle, anyExec⟩
      rcases selected_eq_some chosen with ⟨_, _, splits, _⟩
      have queued : handle ∈ strategy.allExecutables := by
        rw [← strategy.mem_queueOrder, splits]
        simp
      refine ⟨handle, queued, queue, ?_⟩
      rw [chosen] at result
      dsimp only at result
      cases booked : { strategy with allExecutables := queue }.bookkeeping input handle with
      | ok after =>
          rw [booked] at result
          cases result
      | error found =>
          rw [booked] at result
          cases result
          rfl

/-- A call succeeds where the bookkeeping of whatever it may take from the queue does. -/
theorem Strategy.getNextExecutable_succeeds {strategy : Strategy} {view : SelectionView}
    {input : DispatchInput} {property : Strategy → Prop}
    (nothing : ∀ queue, property { strategy with allExecutables := queue })
    (books : ∀ handle ∈ strategy.allExecutables, ∀ queue, ∃ after,
      { strategy with allExecutables := queue }.bookkeeping input handle = .ok after ∧
        property after) :
    ∃ anyExec after, strategy.getNextExecutable view input = .ok (anyExec, after) ∧
      property after := by
  cases result : strategy.getNextExecutable view input with
  | error fault =>
      rcases getNextExecutable_eq_error result with ⟨handle, queued, queue, failed⟩
      rcases books handle queued queue with ⟨after, booked, _⟩
      rw [booked] at failed
      cases failed
  | ok found =>
      rcases found with ⟨anyExec, after⟩
      refine ⟨anyExec, after, rfl, ?_⟩
      rcases getNextExecutable_eq_ok result with
        ⟨queue, ⟨_, _, rfl⟩ | ⟨handle, selected, update⟩⟩
      · exact nothing queue
      · rcases selected_eq_some selected with ⟨_, _, splits, _⟩
        have queued : handle ∈ strategy.allExecutables := by
          rw [← strategy.mem_queueOrder, splits]
          simp
        rcases books handle queued queue with ⟨after, booked, kept⟩
        rw [update] at booked
        cases booked
        exact kept

/-! ## A table in force -/

/-- The listed executables are chain-aware and have the priorities of the table; all
others in the map were registered on the fly. -/
structure Strategy.FollowsTable (table : Handle → Option Int) (strategy : Strategy) :
    Prop where
  listed : ∀ {handle priority}, table handle = some priority →
    ∃ executable, strategy.priorityMap handle = some executable ∧
      executable.schedType = .chainAwarePriority ∧ executable.priority = priority
  unlisted : strategy.Entries fun handle executable => table handle = none →
    executable.schedType = .chainIndependentPriority ∧ executable.priority = 0

/-- `served` may go before `other`: it is not in the table, or both are, and the priority
of `other` is not higher. -/
def Precedes (table : Handle → Option Int) (served other : Handle) : Prop :=
  match table served, table other with
  | none, _ => True
  | some _, none => False
  | some priority, some otherPriority => otherPriority ≤ priority

/-- The round put the entity of `served` into `any_exec`, and `served` goes first in the
table among all that it could have dispatched. -/
structure Round.ServesFirst (table : Handle → Option Int) (round : Round)
    (served : Handle) : Prop where
  selected : round.ready.selected round.view = some (served, round.anyExec)
  queued : served ∈ round.ready.allExecutables
  runnable : round.ready.Runnable round.view served
  first : ∀ other ∈ round.ready.allExecutables, round.ready.Runnable round.view other →
    Precedes table served other

namespace Strategy.FollowsTable

variable {table : Handle → Option Int} {strategy before after : Strategy}

theorem notDeadline (follows : strategy.FollowsTable table) {handle : Handle}
    {executable : PriorityExecutable}
    (entry : strategy.priorityMap handle = some executable) :
    executable.schedType ≠ .deadline := by
  intro isDeadline
  cases place : table handle with
  | none =>
      rw [(follows.unlisted handle executable entry place).1] at isDeadline
      cases isDeadline
  | some priority =>
      rcases follows.listed place with ⟨found, foundEntry, schedType, _⟩
      rw [entry] at foundEntry
      cases foundEntry
      rw [schedType] at isDeadline
      cases isDeadline

theorem congr (follows : before.FollowsTable table)
    (same : after.priorityMap = before.priorityMap) : after.FollowsTable table := by
  refine ⟨?_, ?_⟩
  · intro handle priority place
    rw [same]
    exact follows.listed place
  · rw [Entries, same]
    exact follows.unlisted

/-- An entry may change in everything but its class and its priority. -/
theorem assign (follows : strategy.FollowsTable table) {handle : Handle}
    {executable update : PriorityExecutable}
    (entry : strategy.priorityMap handle = some executable)
    (schedType : update.schedType = executable.schedType)
    (priority : update.priority = executable.priority) :
    (strategy.assign handle update).FollowsTable table := by
  refine ⟨?_, ?_⟩
  · intro other listedPriority place
    rcases follows.listed place with ⟨found, foundEntry, isChainAware, isListed⟩
    by_cases same : other = handle
    · subst same
      rw [entry] at foundEntry
      cases foundEntry
      exact ⟨update, strategy.assign_self other _, schedType.trans isChainAware,
        priority.trans isListed⟩
    · exact ⟨found, (strategy.assign_of_ne _ same).trans foundEntry, isChainAware, isListed⟩
  · apply follows.unlisted.assign
    intro place
    rw [schedType, priority]
    exact follows.unlisted handle executable entry place

theorem ready (follows : strategy.FollowsTable table) (input : RoundInput) :
    (strategy.ready input).FollowsTable table := by
  have waited := strategy.waitForWork_flagsOnly input.canBeTakenFrom input.weakNodes
    input.outcome
  refine ⟨?_, ?_⟩
  · intro handle priority place
    rcases follows.listed place with ⟨executable, entry, schedType, isListed⟩
    rcases waited.entry entry with ⟨flag, entryAfter⟩
    exact ⟨_, entryAfter, schedType, isListed⟩
  · apply follows.unlisted.waitForWork
    exact ⟨fun _ _ _ => ⟨rfl, rfl⟩, fun _ holds => holds⟩

/-- A dispatch succeeds, whatever the clock says, and leaves the table in force. -/
theorem bookkeeping (follows : strategy.FollowsTable table) {handle : Handle}
    (registered : (strategy.priorityMap handle).isSome) (input : DispatchInput) :
    ∃ after, strategy.bookkeeping input handle = .ok after ∧ after.FollowsTable table := by
  rcases Option.isSome_iff_exists.mp registered with ⟨executable, entry⟩
  refine ⟨_, bookkeeping_of_notDeadline entry (follows.notDeadline entry) input, ?_⟩
  apply follows.assign entry
  · rw [PriorityExecutable.countStage_schedType]
  · rw [PriorityExecutable.countStage_priority]

/-- So does a round. -/
theorem round (follows : strategy.FollowsTable table) (input : RoundInput) :
    ∃ anyExec after, strategy.round input = .ok (anyExec, after) ∧
      after.FollowsTable table := by
  have ready := follows.ready input
  have valid : QueueValid (strategy.ready input) := strategy.waitForWork_valid _ _ _
  apply getNextExecutable_succeeds
  · exact fun _ => ready.congr rfl
  · intro handle queued queue
    have left : { strategy.ready input with allExecutables := queue }.FollowsTable table :=
      ready.congr rfl
    exact left.bookkeeping (valid.registered handle queued) input.dispatch

theorem step (follows : before.FollowsTable table) {round : Round}
    (step : RoundStep before round after) : after.FollowsTable table := by
  rcases step with ⟨input, _, _, result⟩
  rcases follows.round input with ⟨anyExec, stop, succeeds, kept⟩
  rw [result] at succeeds
  cases succeeds
  exact kept

/-- What no runnable executable outranks goes first in the table. -/
theorem precedes (follows : strategy.FollowsTable table) {served other : Handle}
    {servedEntry otherEntry : PriorityExecutable}
    (servedFound : strategy.priorityMap served = some servedEntry)
    (otherFound : strategy.priorityMap other = some otherEntry)
    (highest : ¬ Outranks strategy.deques otherEntry servedEntry) :
    Precedes table served other := by
  rw [Precedes]
  cases servedPlace : table served with
  | none => trivial
  | some priority =>
      rcases follows.listed servedPlace with ⟨_, foundEntry, servedClass, servedPriority⟩
      rw [servedFound] at foundEntry
      cases foundEntry
      cases otherPlace : table other with
      | none =>
          -- the class of the executables registered on the fly goes first
          have otherClass := (follows.unlisted other otherEntry otherFound otherPlace).1
          refine highest (.inl ?_)
          rw [servedClass, otherClass]
          decide
      | some otherPriority =>
          rcases follows.listed otherPlace with ⟨_, foundEntry, otherClass, otherIs⟩
          rw [otherFound] at foundEntry
          cases foundEntry
          rw [Outranks, otherClass, servedClass, otherIs, servedPriority] at highest
          simpa using highest

/-- One round. -/
theorem servesFirst (follows : before.FollowsTable table) {round : Round}
    (step : RoundStep before round after) (filled : round.anyExec.isFilled = true) :
    ∃ served, round.ServesFirst table served := by
  have valid := step.valid
  have ready : round.ready.FollowsTable table := by
    rcases step with ⟨input, readyEq, _, _⟩
    rw [readyEq]
    exact follows.ready input
  rcases step.dispatchStep with ⟨_, empty, _⟩ | ⟨served, selected, _⟩
  · rw [empty] at filled
    cases filled
  rcases round.ready.selected_eq_some selected with ⟨_, _, splits, found, _⟩
  rcases SelectionView.consider_filled found filled with
    ⟨entity, group, mayRun, entityEq, groupEq, takeable, _⟩
  have queued : served ∈ round.ready.allExecutables := by
    rw [← round.ready.mem_queueOrder, splits]
    simp
  refine ⟨served, selected, queued, ⟨entity, group, mayRun, entityEq, groupEq, takeable⟩, ?_⟩
  intro other otherQueued runnable
  rcases Option.isSome_iff_exists.mp (valid.registered served queued) with
    ⟨servedEntry, servedFound⟩
  rcases Option.isSome_iff_exists.mp (valid.registered other otherQueued) with
    ⟨otherEntry, otherFound⟩
  have highest := round.ready.selected_highest valid selected other otherQueued runnable
  rw [atKey_of_some servedFound, atKey_of_some otherFound] at highest
  exact ready.precedes servedFound otherFound highest

/-- After every run of rounds the table is in force, and every round of the run that
fills `any_exec` serves first what goes first. -/
theorem of_run {start stop : Strategy} (follows : start.FollowsTable table)
    {rounds : List Round} (run : Steps RoundStep start rounds stop) :
    stop.FollowsTable table ∧
      ∀ round ∈ rounds, round.anyExec.isFilled = true →
        ∃ served, round.ServesFirst table served :=
  ⟨run.invariant (fun strategy => strategy.FollowsTable table) follows fun held step =>
      held.step step,
    run.forall_labels (fun strategy => strategy.FollowsTable table) follows
      (fun held step => held.step step) fun held step => held.servesFirst step⟩

end Strategy.FollowsTable

end PriorityExecutor
