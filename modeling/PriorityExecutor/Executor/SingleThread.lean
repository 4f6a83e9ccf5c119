import PriorityExecutor.Executor.Passes
import PriorityExecutor.Executor.Quiescence
import PriorityExecutor.Strategy.PlainPath

/-!
# The single-threaded executor

`TimedExecutor::spin` selects and executes in one thread.  It has no lock and no set of
scheduled timers, its `any_executable` keeps the group for the destructor to give back,
and its selection can do without priorities.

The multi-threaded executor was derived from it.  With one worker thread, the two make
the same rounds and run the same callbacks: what the lock, the guard and the early exits
of `run` add is for the other threads only.
-/

namespace PriorityExecutor

/-- `TimedExecutor` between two iterations of `spin`. -/
structure TimedExecutor where
  strategy : Strategy
  canBeTakenFrom : GroupId → Bool := fun _ => true
  usePriorities : Bool := true

namespace TimedExecutor

def setUsePriorities (executor : TimedExecutor) (usePrio : Bool) : TimedExecutor :=
  { executor with usePriorities := usePrio }

/-- `wait_for_work` and the selection of `get_next_ready_executable`. -/
def select (executor : TimedExecutor) (input : RoundInput) :
    Except Fault (AnyExecutable × Strategy) :=
  if executor.usePriorities then executor.strategy.round input
  else .ok (executor.strategy.plainRound input)

/-- One iteration of `spin`.  The destruction of `any_executable` gives the group back, and
`execute_any_executable` has done so before, but `execute_subscription` has not. -/
def iterate (mutuallyExclusive : GroupId → Bool) (executor : TimedExecutor)
    (input : RoundInput) : Except Fault (AnyExecutable × TimedExecutor) :=
  match executor.select (input.withFlags executor.canBeTakenFrom) with
  | .error fault => .error fault
  | .ok (anyExec, strategy) =>
      let (success, flags) :=
        getNextReadyExecutable mutuallyExclusive executor.canBeTakenFrom anyExec
      let flags := if success ∧ anyExec.subscription = none then
          giveBack flags anyExec.callbackGroup
        else flags
      .ok (anyExec,
        { executor with
          strategy
          canBeTakenFrom := giveBack flags anyExec.callbackGroup })

/-- The steps of `spin`, with the inputs of a round and the `any_executable` it filled. -/
def SpinStep (mutuallyExclusive : GroupId → Bool) (before : TimedExecutor)
    (visit : RoundInput × AnyExecutable) (after : TimedExecutor) : Prop :=
  before.iterate mutuallyExclusive visit.1 = .ok (visit.2, after)

end TimedExecutor

/-- The callback that an `any_executable` stands for, if it is filled. -/
def AnyExecutable.callback (anyExec : AnyExecutable) : Option AnyExecutable :=
  if anyExec.isFilled then some anyExec else none

section Flags

variable {mutuallyExclusive : GroupId → Bool}

theorem giveBack_takeable (own : Option GroupId) :
    giveBack (fun _ => true) own = fun _ => true := by
  cases own with
  | none => rfl
  | some group => exact Function.update_eq_self group _

/-- Marking the group of an executable and giving it back leaves it takeable. -/
theorem giveBack_marked (anyExec : AnyExecutable) :
    giveBack (getNextReadyExecutable mutuallyExclusive (fun _ => true) anyExec).2
      anyExec.callbackGroup = fun _ => true := by
  unfold getNextReadyExecutable
  split
  next group filled groupEq =>
    rw [groupEq]
    split
    · rw [giveBack, Function.update_idem]
      exact giveBack_takeable (some group)
    · exact giveBack_takeable (some group)
  next => exact giveBack_takeable _

theorem getNextReadyExecutable_success {flags : GroupId → Bool} (anyExec : AnyExecutable) :
    (getNextReadyExecutable mutuallyExclusive flags anyExec).1 = anyExec.isFilled := by
  unfold getNextReadyExecutable
  split
  next _ filled _ => exact filled.symm
  next => rfl

end Flags

namespace TimedExecutor

variable {mutuallyExclusive : GroupId → Bool}

/-- An iteration that starts with all groups takeable selects from all of them and
leaves them takeable. -/
theorem iterate_takeable {executor : TimedExecutor} {input : RoundInput}
    (takeable : executor.canBeTakenFrom = fun _ => true) :
    executor.iterate mutuallyExclusive input =
      (executor.select (input.withFlags fun _ => true)).map fun result =>
        (result.1, { executor with strategy := result.2 }) := by
  unfold iterate
  rw [takeable]
  cases executor.select (input.withFlags fun _ => true) with
  | error fault => rfl
  | ok result =>
      obtain ⟨anyExec, strategy⟩ := result
      have given : giveBack (if anyExec.isFilled ∧ anyExec.subscription = none then
          giveBack (getNextReadyExecutable mutuallyExclusive (fun _ => true) anyExec).2
            anyExec.callbackGroup
          else (getNextReadyExecutable mutuallyExclusive (fun _ => true) anyExec).2)
          anyExec.callbackGroup = fun _ => true := by
        rw [giveBack_marked]
        split
        · exact giveBack_takeable _
        · exact giveBack_marked anyExec
      simp only [Except.map, getNextReadyExecutable_success, given]

end TimedExecutor

namespace TimedExecutor

variable {mutuallyExclusive : GroupId → Bool} {before after : TimedExecutor}

/-- The round of an iteration, on either path. -/
def RoundOf (usePriorities : Bool) (before : Strategy) (round : Round) (after : Strategy) :
    Prop :=
  if usePriorities then RoundStep before round after else PlainStep before round after

/-- An iteration that starts with all groups takeable is a round that collects from all
groups. -/
theorem SpinStep.round {visit : RoundInput × AnyExecutable}
    (takeable : before.canBeTakenFrom = fun _ => true)
    (step : before.SpinStep mutuallyExclusive visit after) :
    after.canBeTakenFrom = (fun _ => true) ∧ after.usePriorities = before.usePriorities ∧
      RoundOf before.usePriorities before.strategy
        ⟨before.strategy.ready (visit.1.withFlags fun _ => true),
          (visit.1.withFlags fun _ => true).view, visit.2⟩ after.strategy := by
  rw [SpinStep, iterate_takeable takeable] at step
  cases result : before.select (visit.1.withFlags fun _ => true) with
  | error fault =>
      rw [result] at step
      cases step
  | ok chosen =>
      rw [result] at step
      obtain ⟨anyExec, strategy⟩ := chosen
      obtain ⟨input, found⟩ := visit
      cases step
      refine ⟨takeable, rfl, ?_⟩
      unfold select at result
      unfold RoundOf
      split at result
      next priorities =>
        rw [if_pos priorities]
        exact .of_round result
      next plain =>
        rw [if_neg plain]
        exact ⟨input.withFlags fun _ => true, rfl, rfl, Except.ok.inj result⟩

/-- Every run of `spin` gets back to the top of its loop with all groups takeable, so
that the assertion on the group of the next executable holds; it is a run of rounds on
one path, each of which collected from all groups. -/
theorem spin_takeable {start stop : TimedExecutor}
    {visits : List (RoundInput × AnyExecutable)}
    (takeable : start.canBeTakenFrom = fun _ => true)
    (run : Steps (SpinStep mutuallyExclusive) start visits stop) :
    stop.canBeTakenFrom = (fun _ => true) ∧ ∃ rounds,
      Steps (RoundOf start.usePriorities) start.strategy rounds stop.strategy ∧
      rounds.map Round.anyExec = visits.map Prod.snd := by
  have kept : stop.canBeTakenFrom = (fun _ => true) ∧
      stop.usePriorities = start.usePriorities ∧ ∃ rounds,
        Steps (RoundOf start.usePriorities) start.strategy rounds stop.strategy ∧
        rounds.map Round.anyExec = visits.map Prod.snd := by
    induction run with
    | nil => exact ⟨takeable, rfl, [], .nil, rfl⟩
    | snoc _ last ih =>
        obtain ⟨free, path, rounds, earlier, dispatched⟩ := ih
        obtain ⟨freeAfter, pathAfter, round⟩ := last.round free
        rw [path] at pathAfter round
        refine ⟨freeAfter, pathAfter, _, .snoc earlier round, ?_⟩
        rw [List.map_append, List.map_append, dispatched]
        rfl
  exact ⟨kept.1, kept.2.2⟩

/-- The group of the timer, and of the same subscriptions once the timer has been served. -/
def timerThenRest : List RoundInput :=
  [groupReady threeMembers, groupReady { threeMembers with timers := [] }]

/-- The executor without priorities serves the timer, then the first subscription, and is
back with all groups. -/
theorem spin_takeable_plain :
    ∃ stop rounds,
      Steps (SpinStep fun _ => true)
          (({ strategy := registeredThree } : TimedExecutor).setUsePriorities false)
          (timerThenRest.zip [.fill .timer 4 0, .fill .subscription 1 0]) stop ∧
        stop.canBeTakenFrom = (fun _ => true) ∧
        Steps (RoundOf false) registeredThree rounds stop.strategy ∧
        rounds.map Round.anyExec = [.fill .timer 4 0, .fill .subscription 1 0] := by
  have visits : ∃ middle, SpinStep (fun _ => true)
      (({ strategy := registeredThree } : TimedExecutor).setUsePriorities false)
      (groupReady threeMembers, .fill .timer 4 0) middle ∧ ∃ stop,
        SpinStep (fun _ => true) middle
          (groupReady { threeMembers with timers := [] }, .fill .subscription 1 0) stop :=
    ⟨_, rfl, _, rfl⟩
  obtain ⟨middle, first, stop, second⟩ := visits
  obtain ⟨free, rounds, run, dispatched⟩ := spin_takeable rfl (.snoc (.singleton first) second)
  exact ⟨stop, rounds, .snoc (.singleton first) second, free, run, dispatched⟩

end TimedExecutor

/-! ## One worker thread -/

namespace WorkerEvent

/-- The inputs of the round, if the event is one. -/
def input : WorkerEvent → Option RoundInput
  | .select input => some input
  | .finish | .erase | .destroy => none

end WorkerEvent

/-- The callback that a thread has begun and not finished. -/
def Phase.begun : Phase → List AnyExecutable
  | .executing anyExec => [anyExec]
  | .idle | .executed _ | .discarded _ => []

namespace ExecutorState

variable {ι : Type*} [DecidableEq ι] {mutuallyExclusive : GroupId → Bool}
  {before after : ExecutorState ι}

/-- The callback whose execution the step ends. -/
def finished (state : ExecutorState ι) (label : ι × WorkerEvent) : Option AnyExecutable :=
  match state.phase label.1, label.2 with
  | .executing anyExec, .finish => some anyExec
  | _, _ => none

/-- A step, with the callback that it ends. -/
def ObservedStep (mutuallyExclusive : GroupId → Bool) (before : ExecutorState ι)
    (label : (ι × WorkerEvent) × Option AnyExecutable) (after : ExecutorState ι) : Prop :=
  before.Step mutuallyExclusive label.1 after ∧ label.2 = before.finished label.1

/-- What the only thread knows: nobody else has taken a group or a timer. -/
structure Alone (mutuallyExclusive : GroupId → Bool) (state : ExecutorState ι)
    (thread : ι) : Prop where
  notDiscarded : ∀ anyExec, state.phase thread ≠ .discarded anyExec
  unscheduled : state.phase thread = .idle → state.scheduledTimers = []
  scheduled : ∀ anyExec, state.phase thread = .executing anyExec ∨
      state.phase thread = .executed anyExec →
    anyExec.isFilled = true ∧ state.scheduledTimers = anyExec.timer.toList
  marked : ∀ anyExec, state.phase thread = .executing anyExec →
    state.canBeTakenFrom =
      (getNextReadyExecutable mutuallyExclusive (fun _ => true) anyExec).2
  takeable : (∀ anyExec, state.phase thread ≠ .executing anyExec) →
    state.canBeTakenFrom = fun _ => true

/-- The single-threaded executor with the same strategy, at the top of its loop. -/
def sequential (state : ExecutorState ι) : TimedExecutor :=
  { strategy := state.strategy }

/-- The critical section of a thread that shares nothing discards nothing. -/
theorem afterRound_alone {state : ExecutorState ι} {thread : ι} {anyExec : AnyExecutable}
    (strategy : Strategy) (unscheduled : state.scheduledTimers = [])
    (filled : anyExec.isFilled = true) :
    state.afterRound mutuallyExclusive thread anyExec strategy =
      { strategy
        canBeTakenFrom :=
          (getNextReadyExecutable mutuallyExclusive state.canBeTakenFrom anyExec).2
        scheduledTimers := anyExec.timer.toList
        phase := Function.update state.phase thread (.executing anyExec) } := by
  unfold afterRound
  simp only [getNextReadyExecutable_success, filled, if_true, unscheduled]
  cases anyExec.timer <;> rfl

theorem Step.select_cases {thread : ι} {input : RoundInput}
    (step : before.Step mutuallyExclusive (thread, .select input) after) :
    before.phase thread = .idle ∧ ∃ anyExec strategy,
      before.strategy.round (input.withFlags before.canBeTakenFrom) =
        .ok (anyExec, strategy) ∧
      after = before.afterRound mutuallyExclusive thread anyExec strategy := by
  unfold Step next at step
  split at step
  next idle selects =>
    cases selects
    split at step
    next => cases step
    next anyExec strategy result =>
      cases step
      exact ⟨idle, anyExec, strategy, result, rfl⟩
  next selects => cases selects
  next selects => cases selects
  next selects => cases selects
  next => cases step

/-- A round of the only thread is an iteration of the single-threaded executor, whose
callback the thread then begins. -/
theorem Alone.select {thread : ι} {input : RoundInput}
    (alone : Alone mutuallyExclusive before thread)
    (step : before.Step mutuallyExclusive (thread, .select input) after) :
    ∃ anyExec,
      before.sequential.SpinStep mutuallyExclusive (input, anyExec) after.sequential ∧
      Alone mutuallyExclusive after thread ∧
      anyExec.callback.toList = (after.phase thread).begun := by
  obtain ⟨idle, anyExec, strategy, result, rfl⟩ := step.select_cases
  have takeable := alone.takeable (by simp [idle])
  have unscheduled := alone.unscheduled idle
  rw [takeable] at result
  refine ⟨anyExec, ?_, ?_⟩
  · rw [TimedExecutor.SpinStep, TimedExecutor.iterate_takeable rfl]
    simp only [TimedExecutor.select, sequential, if_true, result, afterRound_strategy]
    rfl
  · cases filled : anyExec.isFilled with
    | false =>
        rw [afterRound_empty filled]
        refine ⟨⟨?_, fun _ => unscheduled, ?_, ?_, fun _ => takeable⟩, ?_⟩
        · simp [idle]
        · simp [idle]
        · simp [idle]
        · simp [AnyExecutable.callback, filled, idle, Phase.begun]
    | true =>
        rw [afterRound_alone strategy unscheduled filled, takeable]
        refine ⟨⟨?_, ?_, ?_, ?_, ?_⟩, ?_⟩
        · simp
        · simp
        · simp [filled]
        · simp
        · simp
        · simp [AnyExecutable.callback, filled, Phase.begun]

/-- Outside its critical section the only thread ends the callback it has begun, and
the single-threaded executor is where it was. -/
theorem Alone.outside {thread : ι} {event : WorkerEvent}
    (alone : Alone mutuallyExclusive before thread)
    (step : before.Step mutuallyExclusive (thread, event) after)
    (outside : event.input = none) :
    after.sequential = before.sequential ∧ Alone mutuallyExclusive after thread ∧
      (before.phase thread).begun =
        (before.finished (thread, event)).toList ++ (after.phase thread).begun := by
  unfold Step next at step
  split at step
  next selects =>
    cases selects
    cases outside
  next anyExec executing finishes =>
    cases step
    simp only at executing
    cases finishes
    have marked := alone.marked anyExec executing
    have scheduled := alone.scheduled anyExec (.inl executing)
    refine ⟨rfl, ⟨?_, ?_, ?_, ?_, ?_⟩, ?_⟩
    · simp
    · simp
    · simpa using scheduled
    · simp
    · intro _
      simp only [marked]
      exact giveBack_marked anyExec
    · simp [executing, finished, Phase.begun]
  next anyExec executed erases =>
    cases step
    simp only at executed
    cases erases
    have scheduled := alone.scheduled anyExec (.inr executed)
    have takeable := alone.takeable (by simp [executed])
    refine ⟨rfl, ⟨?_, ?_, ?_, ?_, fun _ => takeable⟩, ?_⟩
    · simp
    · intro _
      simp only [scheduled.2]
      cases anyExec.timer <;> simp
    · simp
    · simp
    · simp [executed, finished, Phase.begun]
  next anyExec discarded _ => exact absurd discarded (alone.notDiscarded anyExec)
  next => cases step

theorem exists_finish (mutuallyExclusive : GroupId → Bool) {thread : ι}
    {anyExec : AnyExecutable} (executing : before.phase thread = .executing anyExec) :
    ∃ after, before.Step mutuallyExclusive (thread, .finish) after ∧
      after.phase thread = .executed anyExec :=
  ⟨_, by unfold Step next; rw [executing], by simp⟩

theorem exists_erase (mutuallyExclusive : GroupId → Bool) {thread : ι}
    {anyExec : AnyExecutable} (executed : before.phase thread = .executed anyExec) :
    ∃ after, before.Step mutuallyExclusive (thread, .erase) after ∧
      after.phase thread = .idle :=
  ⟨_, by unfold Step next; rw [executed], by simp⟩

/-- The only thread makes the iterations of the single-threaded executor. -/
theorem Alone.exists_select {thread : ι} {input : RoundInput} {anyExec : AnyExecutable}
    {executor : TimedExecutor} (alone : Alone mutuallyExclusive before thread)
    (idle : before.phase thread = .idle)
    (visit : before.sequential.SpinStep mutuallyExclusive (input, anyExec) executor) :
    ∃ after, before.Step mutuallyExclusive (thread, .select input) after ∧
      after.sequential = executor ∧
      after.phase thread = if anyExec.isFilled then .executing anyExec else .idle := by
  have takeable := alone.takeable (by simp [idle])
  have unscheduled := alone.unscheduled idle
  rw [TimedExecutor.SpinStep, TimedExecutor.iterate_takeable rfl] at visit
  cases result : before.strategy.round (input.withFlags fun _ => true) with
  | error fault =>
      simp only [TimedExecutor.select, sequential, if_true, result] at visit
      cases visit
  | ok chosen =>
      obtain ⟨found, strategy⟩ := chosen
      simp only [TimedExecutor.select, sequential, if_true, result] at visit
      cases visit
      refine ⟨before.afterRound mutuallyExclusive thread found strategy, ?_, ?_, ?_⟩
      · unfold Step next
        simp only [idle, takeable, result]
      · simp only [sequential, afterRound_strategy]
      · cases filled : found.isFilled with
        | false => simp [afterRound_empty filled, idle]
        | true => simp [afterRound_alone strategy unscheduled filled]

theorem Alone.iteration {thread : ι} {input : RoundInput} {anyExec : AnyExecutable}
    {executor : TimedExecutor} (alone : Alone mutuallyExclusive before thread)
    (idle : before.phase thread = .idle)
    (visit : before.sequential.SpinStep mutuallyExclusive (input, anyExec) executor) :
    ∃ labels stop, Steps (ObservedStep mutuallyExclusive) before labels stop ∧
      Alone mutuallyExclusive stop thread ∧ stop.phase thread = .idle ∧
      stop.sequential = executor ∧
      labels.filterMap (fun label => label.1.2.input) = [input] ∧
      labels.filterMap Prod.snd = anyExec.callback.toList := by
  obtain ⟨first, selects, sameFirst, phaseFirst⟩ := alone.exists_select idle visit
  have nothing : before.finished (thread, .select input) = none := by simp [finished, idle]
  have run₁ : Steps (ObservedStep mutuallyExclusive) before
      [((thread, .select input), none)] first :=
    .singleton ⟨selects, nothing.symm⟩
  obtain ⟨_, _, aloneFirst, _⟩ := alone.select selects
  cases filled : anyExec.isFilled with
  | false =>
      rw [filled] at phaseFirst
      exact ⟨_, first, run₁, aloneFirst, phaseFirst, sameFirst, rfl,
        by simp [AnyExecutable.callback, filled]⟩
  | true =>
      rw [filled] at phaseFirst
      obtain ⟨second, finishes, executed⟩ := exists_finish mutuallyExclusive phaseFirst
      obtain ⟨third, erases, idleAgain⟩ := exists_erase mutuallyExclusive executed
      obtain ⟨sameSecond, aloneSecond, _⟩ := aloneFirst.outside finishes rfl
      obtain ⟨sameThird, aloneThird, _⟩ := aloneSecond.outside erases rfl
      have ended : first.finished (thread, .finish) = some anyExec := by
        simp [finished, phaseFirst]
      have quiet : second.finished (thread, .erase) = none := by simp [finished, executed]
      have run₃ : Steps (ObservedStep mutuallyExclusive) before
          ([((thread, .select input), none)] ++ [((thread, .finish), some anyExec)] ++
            [((thread, .erase), none)]) third :=
        .snoc (.snoc run₁ ⟨finishes, ended.symm⟩) ⟨erases, quiet.symm⟩
      refine ⟨_, third, run₃, aloneThird, idleAgain,
        sameThird.trans (sameSecond.trans sameFirst), ?_, ?_⟩
      · rfl
      · simp [AnyExecutable.callback, filled]

/-! ## The runs of both -/

section OneThread

variable {start stop : ExecutorState ι}

omit [DecidableEq ι] in
theorem Quiescent.alone {state : ExecutorState ι} (quiescent : state.Quiescent)
    (thread : ι) : Alone mutuallyExclusive state thread where
  notDiscarded := by simp [quiescent.idle]
  unscheduled _ := quiescent.unscheduled
  scheduled := by simp [quiescent.idle]
  marked := by simp [quiescent.idle]
  takeable _ := quiescent.takeable

/-- What a run of the only thread does so far, the single-threaded executor does too. -/
theorem exists_visits [Subsingleton ι] (thread : ι)
    {labels : List ((ι × WorkerEvent) × Option AnyExecutable)}
    (quiescent : start.Quiescent)
    (run : Steps (ObservedStep mutuallyExclusive) start labels stop) :
    Alone mutuallyExclusive stop thread ∧ ∃ visits,
      Steps (TimedExecutor.SpinStep mutuallyExclusive) start.sequential visits
        stop.sequential ∧
      visits.map Prod.fst = labels.filterMap (fun label => label.1.2.input) ∧
      visits.filterMap (fun visit => visit.2.callback) =
        labels.filterMap Prod.snd ++ (stop.phase thread).begun := by
  induction run with
  | nil =>
      refine ⟨quiescent.alone thread, [], .nil, rfl, ?_⟩
      simp [quiescent.idle, Phase.begun]
  | @snoc middle stop labels label earlier last ih =>
      obtain ⟨alone, visits, spins, inputs, callbacks⟩ := ih
      obtain ⟨⟨mover, event⟩, ended⟩ := label
      obtain ⟨step, endedEq⟩ := last
      have only : mover = thread := Subsingleton.elim _ _
      simp only [only] at step endedEq
      cases inputEq : event.input with
      | some input =>
          have selects : event = .select input := by
            cases event <;> simp_all [WorkerEvent.input]
          subst selects
          obtain ⟨anyExec, visit, aloneAfter, begun⟩ := alone.select step
          have idle := step.select_cases.1
          have nothing : ended = none := by simp [endedEq, finished, idle]
          refine ⟨aloneAfter, visits ++ [(input, anyExec)], .snoc spins visit, ?_, ?_⟩
          · simp [inputs, WorkerEvent.input]
          · rw [List.filterMap_append, callbacks, idle, ← begun, nothing]
            cases filled : anyExec.callback <;> simp [Phase.begun, filled]
      | none =>
          obtain ⟨same, aloneAfter, begun⟩ := alone.outside step inputEq
          refine ⟨aloneAfter, visits, ?_, ?_, ?_⟩
          · rwa [same]
          · simp [inputs, inputEq]
          · rw [callbacks, begun, ← endedEq]
            cases ended <;> simp

/-- The only thread can do what the single-threaded executor does. -/
theorem exists_labels [Subsingleton ι] (thread : ι)
    {visits : List (RoundInput × AnyExecutable)} {executor : TimedExecutor}
    (quiescent : start.Quiescent)
    (spins : Steps (TimedExecutor.SpinStep mutuallyExclusive) start.sequential visits
      executor) :
    ∃ labels stop, Steps (ObservedStep mutuallyExclusive) start labels stop ∧
      Alone mutuallyExclusive stop thread ∧ stop.phase thread = .idle ∧
      stop.sequential = executor ∧
      labels.filterMap (fun label => label.1.2.input) = visits.map Prod.fst ∧
      labels.filterMap Prod.snd = visits.filterMap fun visit => visit.2.callback := by
  induction spins with
  | nil =>
      exact ⟨[], start, .nil, quiescent.alone thread, by rw [quiescent.idle], rfl, rfl, rfl⟩
  | @snoc middle executor visits visit _ last ih =>
      obtain ⟨labels, reached, run, alone, idle, rfl, inputs, callbacks⟩ := ih
      obtain ⟨labels', stop, iteration, aloneAfter, idleAgain, same, input, callback⟩ :=
        alone.iteration idle last
      refine ⟨labels ++ labels', stop, run.append iteration, aloneAfter, idleAgain, same,
        ?_, ?_⟩
      · simp [inputs, input]
      · rw [List.filterMap_append, List.filterMap_append, callbacks, callback]
        cases filled : visit.2.callback <;> simp [filled]

/-- With one worker thread the multi-threaded executor and the single-threaded one have
the same traces: the same inputs lead to the same callbacks in the same order and to the
same strategy. -/
theorem one_thread_traces_iff [Subsingleton ι] (mutuallyExclusive : GroupId → Bool)
    (thread : ι) (quiescent : start.Quiescent) (inputs : List RoundInput)
    (callbacks : List AnyExecutable) (strategy : Strategy) :
    (∃ labels stop, Steps (ObservedStep mutuallyExclusive) start labels stop ∧
        stop.phase thread = .idle ∧
        labels.filterMap (fun label => label.1.2.input) = inputs ∧
        labels.filterMap Prod.snd = callbacks ∧ stop.strategy = strategy) ↔
      ∃ visits executor,
        Steps (TimedExecutor.SpinStep mutuallyExclusive) { strategy := start.strategy }
          visits executor ∧
        visits.map Prod.fst = inputs ∧
        visits.filterMap (fun visit => visit.2.callback) = callbacks ∧
        executor.strategy = strategy := by
  constructor
  · rintro ⟨labels, stop, run, idle, rfl, rfl, rfl⟩
    obtain ⟨_, visits, spins, inputsEq, callbacksEq⟩ :=
      exists_visits thread quiescent run
    rw [idle, Phase.begun, List.append_nil] at callbacksEq
    exact ⟨visits, stop.sequential, spins, inputsEq, callbacksEq, rfl⟩
  · rintro ⟨visits, executor, spins, rfl, rfl, rfl⟩
    obtain ⟨labels, stop, run, _, idle, rfl, inputsEq, callbacksEq⟩ :=
      exists_labels thread quiescent spins
    exact ⟨labels, stop, run, idle, inputsEq, callbacksEq, rfl⟩

/-- The worker dispatches the timer and then the subscription that the single-threaded
executor does. -/
theorem one_thread_traces_iff_alone :
    ∃ labels, ∃ stop : ExecutorState Unit,
      Steps (ObservedStep fun _ => true) { strategy := registeredThree } labels stop ∧
        labels.filterMap (fun label => label.1.2.input) = TimedExecutor.timerThenRest ∧
        labels.filterMap Prod.snd = [.fill .timer 4 0, .fill .subscription 3 0] := by
  have visits : ∃ middle, TimedExecutor.SpinStep (fun _ => true)
      { strategy := registeredThree } (groupReady threeMembers, .fill .timer 4 0) middle ∧
      ∃ stop, TimedExecutor.SpinStep (fun _ => true) middle
        (groupReady { threeMembers with timers := [] }, .fill .subscription 3 0) stop :=
    ⟨_, rfl, _, rfl⟩
  obtain ⟨middle, first, executor, second⟩ := visits
  have quiescent : ({ strategy := registeredThree } : ExecutorState Unit).Quiescent :=
    ⟨rfl, rfl, rfl⟩
  obtain ⟨labels, stop, run, _, inputs, callbacks, _⟩ :=
    (one_thread_traces_iff (fun _ => true) () quiescent TimedExecutor.timerThenRest
      [.fill .timer 4 0, .fill .subscription 3 0] executor.strategy).mpr
      ⟨_, executor, .snoc (.singleton first) second, rfl, rfl, rfl⟩
  exact ⟨labels, stop, run, inputs, callbacks⟩

end OneThread

end ExecutorState

end PriorityExecutor
