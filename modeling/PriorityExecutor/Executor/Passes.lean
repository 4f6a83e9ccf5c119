import PriorityExecutor.Executor.Exclusion

/-!
# Passes without a callback

A pass is one iteration of the loop of a worker thread.  `get_next_executable` books a
dispatch as soon as it has settled on an executable, and whether a callback runs is
decided later: `any_exec` may have stayed empty, another thread may have scheduled the
timer, or the subscription may have nothing to take.

No path takes the bookkeeping back.  `sum` counts the dispatches of an executable and
never goes down, so after such a pass it differs, whatever the other threads did.
-/

namespace PriorityExecutor

/-! ## Executing a subscription -/

/-- How a take ends: with a message, without one, or with an `RCLError`. -/
inductive TakeResult where
  | taken
  | nothing
  | rclError
  deriving DecidableEq, Repr

/-- `take_and_do_error_handling`: whether it calls `handle_action`.  An `RCLError` is
caught and logged. -/
def takeAndDoErrorHandling : TakeResult → Bool
  | .taken => true
  | .nothing | .rclError => false

/-- The subscription of an `any_exec`: the kind of its messages, and how its takes end. -/
structure Subscription where
  isSerialized : Bool := false
  canLoanMessages : Bool := false
  takeSerialized : TakeResult := .nothing
  takeLoanedMessage : TakeResult := .nothing
  takeTypeErased : TakeResult := .nothing
  deriving DecidableEq, Repr

/-- `execute_subscription`: whether one of its branches handles a message. -/
def executeSubscription (subscription : Subscription) : Bool :=
  if subscription.isSerialized then
    takeAndDoErrorHandling subscription.takeSerialized
  else if subscription.canLoanMessages then
    takeAndDoErrorHandling subscription.takeLoanedMessage
  else
    takeAndDoErrorHandling subscription.takeTypeErased

/-- Whether a thread that leaves its critical section in this phase runs a callback.
`idle` stands for an empty `any_exec`. -/
def Phase.runsCallback (phase : Phase) (subscription : Subscription) : Bool :=
  match phase with
  | .executing anyExec =>
      if anyExec.subscription.isSome then executeSubscription subscription else true
  | _ => false

/-! ## What a pass leaves behind -/

/-- The two states have the same bookkeeping: the deques, the recorded releases, and
the counters of `handle`.  An executable without a record counts as a new one. -/
structure SameBookkeeping (before after : Strategy) (handle : Handle) : Prop where
  deques : after.deques = before.deques
  releaseTime : ∀ other, after.releaseTimeOf other = before.releaseTimeOf other
  curIndex : (after.atKey handle).curIndex = (before.atKey handle).curIndex
  counter : (after.atKey handle).counter = (before.atKey handle).counter
  sum : (after.atKey handle).sum = (before.atKey handle).sum

theorem RoundStep.sum_le {before after : Strategy} {round : Round}
    (step : RoundStep before round after) (handle : Handle) :
    (before.atKey handle).sum ≤ (after.atKey handle).sum := by
  rcases step.dispatchStep with ⟨_, _, same⟩ | ⟨dispatched, _, dispatch⟩
  · rw [same.sum]
  · rw [dispatch.sum]
    split <;> omega

namespace ExecutorState

variable {ι : Type*} [DecidableEq ι] {mutuallyExclusive : GroupId → Bool}
  {before after : ExecutorState ι} {label : ι × WorkerEvent}

theorem afterRound_strategy (state : ExecutorState ι) (thread : ι)
    (anyExec : AnyExecutable) (strategy : Strategy) :
    (state.afterRound mutuallyExclusive thread anyExec strategy).strategy = strategy := by
  simp only [afterRound]
  split
  · split
    · split <;> rfl
    · rfl
  · rfl

/-- A critical section is a round that settles on what `chosen` says. -/
theorem Step.round {input : RoundInput} (step : before.Step mutuallyExclusive label after)
    (selects : label.2 = .select input) :
    ∃ round, RoundStep before.strategy round after.strategy ∧
      round.ready.selected round.view = before.chosen input := by
  unfold Step next at step
  rw [selects] at step
  split at step
  next found _ selectsEq =>
    cases selectsEq
    split at step
    next => cases step
    next anyExec strategy result =>
      cases step
      rw [afterRound_strategy]
      exact ⟨_, .of_round result, rfl⟩
  next impossible => cases impossible
  next impossible => cases impossible
  next impossible => cases impossible
  next => cases step

/-- Outside its critical section a thread does not touch the memory strategy. -/
theorem Step.strategy (step : before.Step mutuallyExclusive label after)
    (outside : ∀ input, label.2 ≠ .select input) : after.strategy = before.strategy := by
  unfold Step next at step
  split at step
  next input _ selects => exact absurd selects (outside input)
  next =>
    cases step
    rfl
  next =>
    cases step
    rfl
  next =>
    cases step
    rfl
  next => cases step

theorem Step.sum_le (step : before.Step mutuallyExclusive label after) (handle : Handle) :
    (before.strategy.atKey handle).sum ≤ (after.strategy.atKey handle).sum := by
  by_cases selects : ∃ input, label.2 = .select input
  · obtain ⟨input, selects⟩ := selects
    obtain ⟨round, roundStep, _⟩ := step.round selects
    exact roundStep.sum_le handle
  · rw [step.strategy fun input selected => selects ⟨input, selected⟩]

/-- In no run does the number of dispatches of an executable go down. -/
theorem sum_le_of_run {labels : List (ι × WorkerEvent)}
    (run : Steps (Step mutuallyExclusive) before labels after) (handle : Handle) :
    (before.strategy.atKey handle).sum ≤ (after.strategy.atKey handle).sum :=
  run.invariant
    (fun state => (before.strategy.atKey handle).sum ≤ (state.strategy.atKey handle).sum)
    (Int.le_refl _) fun held step => Int.le_trans held (step.sum_le handle)

/-- A critical section that settles on an executable counts its dispatch. -/
theorem Step.sum_of_chosen {input : RoundInput} {handle : Handle} {anyExec : AnyExecutable}
    (step : before.Step mutuallyExclusive label after) (selects : label.2 = .select input)
    (chosen : before.chosen input = some (handle, anyExec)) :
    (after.strategy.atKey handle).sum = (before.strategy.atKey handle).sum + 1 := by
  obtain ⟨round, roundStep, selected⟩ := step.round selects
  rw [chosen] at selected
  rcases roundStep.dispatchStep with ⟨nothing, _, _⟩ | ⟨dispatched, selectedEq, dispatch⟩
  · rw [nothing] at selected
    cases selected
  · rw [selectedEq] at selected
    cases selected
    rw [dispatch.sum, if_pos rfl]

/-- A pass of `thread` in which `get_next_executable` chooses `handle` and no callback
is executed: the critical section, and then the steps of all threads until `thread` is
at the top of its loop again. -/
def PassWithoutCallback (mutuallyExclusive : GroupId → Bool) (before : ExecutorState ι)
    (thread : ι) (handle : Handle) (after : ExecutorState ι) : Prop :=
  ∃ (input : RoundInput) (anyExec : AnyExecutable) (selected : ExecutorState ι)
    (subscription : Subscription) (labels : List (ι × WorkerEvent)),
    before.chosen input = some (handle, anyExec) ∧
    before.Step mutuallyExclusive (thread, .select input) selected ∧
    (selected.phase thread).runsCallback subscription = false ∧
    Steps (Step mutuallyExclusive) selected labels after ∧
    (∀ next, (thread, .select next) ∉ labels) ∧
    after.phase thread = .idle

/-- A pass without a callback never leaves the bookkeeping as it was. -/
theorem not_sameBookkeeping_of_pass {thread : ι} {handle : Handle}
    (pass : before.PassWithoutCallback mutuallyExclusive thread handle after) :
    ¬ SameBookkeeping before.strategy after.strategy handle := by
  obtain ⟨input, anyExec, selected, _, labels, chosen, step, _, run, _, _⟩ := pass
  intro same
  have counted := step.sum_of_chosen rfl chosen
  have kept := sum_le_of_run run handle
  rw [same.sum] at kept
  omega

/-! Timer 1 is the first executable of a `DEADLINE` chain, and subscription 2 belongs to
a chain-aware one; their callback group is reentrant. -/

def timerAndChain : ExecutorState (Fin 2) where
  strategy :=
    { priorityMap := fun handle =>
        if handle = 1 then
          some { PriorityExecutable.ofDeadline 10 20 .timer .deadline with
            isFirstInChain := true
            deadlines := some 0
            releaseTime := some 0 }
        else if handle = 2 then
          some (.ofPriority 5 .subscription .chainAwarePriority)
        else none
      deques := fun _ => [[20], []] }

/-- While thread 0 executes the timer, thread 1 selects it too and discards it.  Its
pass moves the release of the chain, pushes a deadline that no callback belongs to,
and advances the timer to its next deque. -/
theorem discarded_timer_books_dispatch :
    ∃ before after, Steps (Step fun _ => false) timerAndChain [(0, .select (onlyReady 1))] before ∧
      before.PassWithoutCallback (fun _ => false) 1 1 after ∧
      before.strategy.deques 0 = [[20], [30]] ∧
      after.strategy.deques 0 = [[20, 40], [30]] ∧
      before.strategy.releaseTimeOf 1 = some 10 ∧
      after.strategy.releaseTimeOf 1 = some 20 ∧
      ¬ SameBookkeeping before.strategy after.strategy 1 := by
  obtain ⟨before, first, middle, second, after, third, chosen, discarded, idle, pushed, moved,
      released, delayed⟩ :
      ∃ before, timerAndChain.Step (fun _ => false) (0, .select (onlyReady 1)) before ∧
      ∃ middle, before.Step (fun _ => false) (1, .select (onlyReady 1)) middle ∧
      ∃ after, middle.Step (fun _ => false) (1, .destroy) after ∧
        before.chosen (onlyReady 1) = some (1, .fill .timer 1 0) ∧
        middle.phase 1 = .discarded (.fill .timer 1 0) ∧ after.phase 1 = .idle ∧
        before.strategy.deques 0 = [[20], [30]] ∧
        after.strategy.deques 0 = [[20, 40], [30]] ∧
        before.strategy.releaseTimeOf 1 = some 10 ∧
        after.strategy.releaseTimeOf 1 = some 20 :=
    ⟨_, rfl, _, rfl, _, rfl, rfl, rfl, rfl, rfl, rfl, rfl, rfl⟩
  have pass : before.PassWithoutCallback (fun _ => false) 1 1 after := by
    refine ⟨onlyReady 1, _, middle, {}, [(1, .destroy)], chosen, second, ?_,
      .singleton third, ?_, idle⟩
    · rw [discarded]
      rfl
    · simp
  refine ⟨before, after, .singleton first, pass, pushed, moved, released, delayed, ?_⟩
  intro same
  have := same.releaseTime 1
  rw [released, delayed] at this
  cases this

/-- The take of subscription 2 finds no message. -/
theorem not_sameBookkeeping_of_pass_nothing :
    ∃ after : ExecutorState (Fin 2), after.phase 0 = .idle ∧
      ¬ SameBookkeeping timerAndChain.strategy after.strategy 2 := by
  obtain ⟨selected, first, finished, second, after, third, chosen, executing, idle⟩ :
      ∃ selected, timerAndChain.Step (fun _ => false) (0, .select (onlyReady 2)) selected ∧
      ∃ finished, selected.Step (fun _ => false) (0, .finish) finished ∧
      ∃ after : ExecutorState (Fin 2), finished.Step (fun _ => false) (0, .erase) after ∧
        timerAndChain.chosen (onlyReady 2) = some (2, .fill .subscription 2 0) ∧
        selected.phase 0 = .executing (.fill .subscription 2 0) ∧ after.phase 0 = .idle :=
    ⟨_, rfl, _, rfl, _, rfl, rfl, rfl, rfl⟩
  have pass : timerAndChain.PassWithoutCallback (fun _ => false) 0 2 after := by
    refine ⟨onlyReady 2, _, selected, { takeTypeErased := .nothing },
      [(0, .finish), (0, .erase)], chosen, first, ?_, .snoc (.singleton second) third,
      ?_, idle⟩
    · rw [executing]
      rfl
    · simp
  exact ⟨after, idle, not_sameBookkeeping_of_pass pass⟩

end ExecutorState

end PriorityExecutor
