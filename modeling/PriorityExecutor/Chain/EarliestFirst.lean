import PriorityExecutor.Chain.Overtaking
import PriorityExecutor.Strategy.Rounds

/-!
# The earliest deadline first

The executor compares the fronts of deques.  This module says when that is a comparison
of deadlines: a stage stands at the deque of the instance it takes next, and the front of
that deque is this instance as long as fewer than `M` instances are unfinished.  While a
chain meets its deadlines that is so whenever one of its stages can run, because `M`
periods cover the relative deadline.

Rounds are therefore seen together with the histories of the chains they dispatch.
Executables of other classes may be there as well; they wait for the chains.
-/

namespace PriorityExecutor

namespace Chain

/-! ## Instances are a period apart -/

/-- Every instance is due at least one period after the one before. -/
def Spaced (chain : Chain) (history : History) : Prop :=
  ∀ number < history.released,
    history.instant number + chain.period ≤ history.instant (number + 1)

variable {chain : Chain} {history : History}

theorem Spaced.add_le (spaced : chain.Spaced history) {number distance : Nat}
    (exists' : number + distance ≤ history.released) :
    history.instant number + distance * chain.period ≤
      history.instant (number + distance) := by
  induction distance with
  | zero => simp
  | succ distance ih =>
      have before := ih (Nat.le_of_succ_le exists')
      have last := spaced (number + distance) exists'
      rw [Nat.cast_succ, add_mul, one_mul, ← add_assoc]
      exact (Int.add_le_add_right before _).trans last

/-- The deques of a chain cover its relative deadline. -/
theorem deadline_le_size (chain : Chain) :
    chain.deadline ≤ chain.size * chain.period := by
  have positive : 0 < chain.period := chain.period_pos
  have covers : 0 ≤ IntDiv.ceilDiv chain.deadline chain.period :=
    (IntDiv.pos positive chain.deadline_pos).le
  rw [size, Int.toNat_of_nonneg covers]
  exact IntDiv.le_mul positive

/-- A new instance a period or more after the newest one keeps the distance. -/
theorem Spaced.record_first (spaced : chain.Spaced history) {deadline : Int}
    (later : history.instant history.released + chain.period ≤ deadline) :
    chain.Spaced (history.record 0 deadline) := by
  intro number exists'
  rw [History.released_record_first] at exists'
  rcases Nat.lt_succ_iff_lt_or_eq.mp exists' with isOld | rfl
  · rw [History.instant_record isOld.le, History.instant_record isOld]
    exact spaced number isOld
  · rw [History.instant_record (Nat.le_refl _), History.instant_record_first]
    exact later

theorem Spaced.record_later (spaced : chain.Spaced history) {stage : Nat} {deadline : Int}
    (notFirst : stage ≠ 0) : chain.Spaced (history.record stage deadline) := by
  have released : (history.record stage deadline).released = history.released :=
    History.count_record_of_ne (Ne.symm notFirst)
  intro number exists'
  rw [released] at exists'
  rw [History.instant_record exists'.le, History.instant_record exists']
  exact spaced number exists'

/-- A release moves by one period or more. -/
theorem Member.dispatch_first_spaced {executable : PriorityExecutable}
    {before after : Strategy} {input : DispatchInput} {handle : Handle}
    (member : chain.Member 0 executable)
    (entry : before.priorityMap handle = some executable)
    (result : before.bookkeeping input handle = .ok after) :
    ∃ release next, executable.releaseTime = some release ∧
      after.releaseTimeOf handle = some next ∧ release + chain.period ≤ next := by
  rcases Strategy.bookkeeping_first entry member.schedType (by simp [member.isFirst]) result
    with ⟨release, _, next, _, _, releaseEq, _, nextEq, _, _, _, entryAfter⟩
  have positive : 0 < executable.period := by
    rw [member.period]
    exact chain.period_pos
  rcases PriorityExecutable.nextRelease_later positive nextEq with ⟨periods, one, nextIs⟩
  refine ⟨release, next, releaseEq, ?_, ?_⟩
  · simp only [Strategy.releaseTimeOf, entryAfter, Option.bind_some,
      PriorityExecutable.afterDispatch]
  · rw [nextIs, ← member.period]
    exact Int.add_le_add_left (le_mul_of_one_le_left positive.le one) release

/-! ## The front of a deque -/

/-- While the instances that are due are taken by the last stage, a stage whose instance
has been released is fewer than `M` instances ahead of it. -/
theorem Spaced.ahead_lt_size (spaced : chain.Spaced history)
    (inOrder : history.InOrder chain.last) {stage : Nat} (isStage : stage ≤ chain.last)
    {now : Int} (released : history.instant (history.count stage) - chain.deadline ≤ now)
    (met : ∀ number ≤ history.released, history.instant number ≤ now →
      number < history.count chain.last) :
    history.count stage - history.count chain.last < chain.size := by
  by_contra notFewer
  have positive := chain.size_pos
  have far : chain.size + history.count chain.last ≤ history.count stage := by omega
  have exists' := inOrder.le_released isStage
  -- the instance `M` before would be due by now
  have back : history.count stage - chain.size + chain.size = history.count stage :=
    Nat.sub_add_cancel ((Nat.le_add_right _ _).trans far)
  have apart : history.instant (history.count stage - chain.size) +
      chain.size * chain.period ≤ history.instant (history.count stage) := by
    have := spaced.add_le (back.le.trans exists')
    rwa [back] at this
  have due : history.instant (history.count stage - chain.size) ≤ now := by
    linarith only [apart, released, chain.deadline_le_size]
  have taken := met _ ((Nat.sub_le _ _).trans exists') due
  exact absurd (Nat.le_sub_of_add_le' far) (Nat.not_le.mpr taken)

/-- Then the comparator reads the deadline of the instance the stage takes next. -/
theorem Ring.currentDeadline_eq {counter : Nat → Int} {strategy : Strategy}
    (ring : chain.Ring counter strategy history) (inRange : chain.DeadlinesInRange history)
    {stage : Nat} (isStage : stage ≤ chain.last)
    (ahead : history.count stage - history.count chain.last < chain.size) :
    ∃ executable, strategy.priorityMap (chain.executables stage) = some executable ∧
      executable.schedType = .deadline ∧ 0 < history.instant (history.count stage) ∧
      (executable.currentDeadline strategy.deques : Int) =
        history.instant (history.count stage) := by
  rcases ring.member stage isStage with ⟨executable, entry, member, curIndex, _, _⟩
  rcases ring.currentDeadline inRange isStage member curIndex with ⟨_, positive, front⟩
  have lower := ring.inOrder.le_of_le isStage (Nat.le_refl chain.last)
  rw [frontGap, Nat.mod_eq_of_lt ahead, Nat.add_sub_cancel' lower] at positive front
  exact ⟨executable, entry, member.schedType, positive, front⟩

/-- A stage is registered as `DEADLINE`, so an executable of another class is none. -/
theorem Ring.ne_stage {counter : Nat → Int} {strategy : Strategy}
    (ring : chain.Ring counter strategy history) {handle : Handle}
    {executable : PriorityExecutable}
    (entry : strategy.priorityMap handle = some executable)
    (notDeadline : executable.schedType ≠ .deadline) {stage : Nat}
    (isStage : stage ≤ chain.last) : chain.executables stage ≠ handle := by
  rintro rfl
  rcases ring.member stage isStage with ⟨found, foundEntry, member, _⟩
  rw [entry] at foundEntry
  cases foundEntry
  exact notDeadline member.schedType

end Chain

/-! ## Rounds and chains -/

/-- Only the executables of the `DEADLINE` class touch the deques. -/
theorem Strategy.bookkeeping_deques {strategy after : Strategy} {input : DispatchInput}
    {handle : Handle} {executable : PriorityExecutable}
    (entry : strategy.priorityMap handle = some executable)
    (notDeadline : executable.schedType ≠ .deadline)
    (result : strategy.bookkeeping input handle = .ok after) :
    after.deques = strategy.deques := by
  rw [Strategy.bookkeeping_of_notDeadline entry notDeadline] at result
  cases result
  rfl

/-- Until its selection a round changes flags only. -/
theorem RoundStep.waited {before after : Strategy} {round : Round}
    (step : RoundStep before round after) : FlagsOnly before round.ready := by
  rcases step with ⟨input, readyEq, _, _⟩
  rw [readyEq]
  exact before.waitForWork_flagsOnly _ _ _

/-- A round that settles on an executable books it in the state after the wait. -/
theorem RoundStep.bookkeeping {before after : Strategy} {round : Round}
    (step : RoundStep before round after) {handle : Handle}
    (selected : round.ready.selected round.view = some (handle, round.anyExec)) :
    ∃ current input, FlagsOnly before current ∧
      current.priorityMap = round.ready.priorityMap ∧
      current.bookkeeping input handle = .ok after := by
  have waited := step.waited
  rcases step.getNextExecutable with ⟨input, result⟩
  rcases Strategy.getNextExecutable_eq_ok result with
    ⟨queue, ⟨nothing, _⟩ | ⟨found, foundSelected, update⟩⟩
  · rw [nothing] at selected
    cases selected
  · rw [selected] at foundSelected
    cases foundSelected
    exact ⟨{ round.ready with allExecutables := queue }, input,
      ⟨waited.isF1tenth, waited.deques, waited.entry, waited.fresh⟩, rfl, update⟩

/-- A round, with the clock of its selection and the history of every chain before it. -/
structure Turn (ι : Type*) where
  now : Int
  round : Round
  history : ι → History

/-- An element of the queue that the round could dispatch. -/
def Turn.CanRun {ι : Type*} (turn : Turn ι) (handle : Handle) : Prop :=
  handle ∈ turn.round.ready.allExecutables ∧
    turn.round.ready.Runnable turn.round.view handle

namespace ChainSystem

variable {ι : Type*} [DecidableEq ι] (system : ChainSystem ι)

/-- What the round settled on: nothing, an executable of another class, or a stage that
does not get ahead of its predecessor. -/
inductive Settles (before : ChainState ι) (turn : Turn ι) (after : ChainState ι) : Prop where
  | nothing : turn.round.ready.selected turn.round.view = none → after.2 = before.2 →
      Settles before turn after
  | foreign {handle : Handle} {executable : PriorityExecutable} :
      turn.round.ready.selected turn.round.view = some (handle, turn.round.anyExec) →
      turn.round.ready.priorityMap handle = some executable →
      executable.schedType ≠ .deadline → after.2 = before.2 → Settles before turn after
  | stage {index : ι} {stage : Nat} :
      turn.round.ready.selected turn.round.view =
        some ((system.chain index).executables stage, turn.round.anyExec) →
      system.LosslessDispatch before (index, stage) after → Settles before turn after

/-- A round, recorded in the histories of the chains. -/
structure TurnStep (before : ChainState ι) (turn : Turn ι) (after : ChainState ι) :
    Prop where
  round : RoundStep before.1 turn.round after.1
  history : turn.history = before.2
  settles : system.Settles before turn after

/-- The chains are on time at this turn.  What can run belongs to an instance whose
release has come, the last stage has taken every instance that is due, and the deadlines
fit the deques. -/
structure OnTime (turn : Turn ι) : Prop where
  released : ∀ index, ∀ stage ≤ (system.chain index).last,
    turn.CanRun ((system.chain index).executables stage) →
      (turn.history index).instant ((turn.history index).count stage) -
        (system.chain index).deadline ≤ turn.now
  met : ∀ index, ∀ number ≤ (turn.history index).released,
    (turn.history index).instant number ≤ turn.now →
      number < (turn.history index).count (system.chain index).last
  inRange : ∀ index, (system.chain index).DeadlinesInRange (turn.history index)

/-- Whenever some stage can run, the round dispatches a stage of a chain, and the
instance it takes is due no later than that of any stage that can run. -/
def EarliestFirst (turn : Turn ι) : Prop :=
  ∀ index, ∀ stage ≤ (system.chain index).last,
    turn.CanRun ((system.chain index).executables stage) →
      ∃ served, ∃ servedStage ≤ (system.chain served).last,
        turn.round.ready.selected turn.round.view =
          some ((system.chain served).executables servedStage, turn.round.anyExec) ∧
        (turn.history served).instant ((turn.history served).count servedStage) ≤
          (turn.history index).instant ((turn.history index).count stage)

/-! ## Runs of rounds -/

variable {system} {release : ι → Int} {counter : ι → Nat → Int}
  {before after : ChainState ι} {turn : Turn ι}

/-- The chains of a run: their rings, and the distance of their instances. -/
structure Kept (system : ChainSystem ι) (release : ι → Int) (counter : ι → Nat → Int)
    (state : ChainState ι) : Prop where
  invariant : system.Invariant release counter state
  spaced : ∀ index, (system.chain index).Spaced (state.2 index)

omit [DecidableEq ι] in
theorem Invariant.flagsOnly (held : system.Invariant release counter before)
    (same : FlagsOnly before.1 after.1) (history : after.2 = before.2) :
    system.Invariant release counter after := by
  refine ⟨same.isF1tenth.trans held.notShared, ?_, ?_⟩
  · rw [history]
    exact held.start
  · rw [history]
    exact fun index => (held.ring index).flagsOnly same

omit [DecidableEq ι] in
/-- An executable of another class is booked without touching any chain. -/
theorem Invariant.foreign (held : system.Invariant release counter before)
    {current : Strategy} {input : DispatchInput} {handle : Handle}
    {executable : PriorityExecutable} (same : FlagsOnly before.1 current)
    (entry : current.priorityMap handle = some executable)
    (notDeadline : executable.schedType ≠ .deadline)
    (result : current.bookkeeping input handle = .ok after.1)
    (history : after.2 = before.2) : system.Invariant release counter after := by
  have frame := Strategy.bookkeeping_frame result
  have deques := Strategy.bookkeeping_deques entry notDeadline result
  refine ⟨frame.1.trans (same.isF1tenth.trans held.notShared), ?_, ?_⟩
  · rw [history]
    exact held.start
  · intro index
    rw [history]
    have ring := (held.ring index).flagsOnly same
    apply ring.frame
    · rw [deques]
    · intro stage isStage
      exact frame.2 _ (ring.ne_stage entry notDeadline isStage)

/-- A dispatch keeps the instances of its chain a period apart. -/
theorem Kept.spaced_step (kept : system.Kept release counter before) {index : ι}
    {stage : Nat} (dispatch : system.Dispatch before (index, stage) after) :
    ∀ other, (system.chain other).Spaced (after.2 other) := by
  rcases dispatch with ⟨inRange, ⟨current, input, same, result⟩, historyEq⟩
  dsimp only at inRange result historyEq
  intro other
  rw [historyEq]
  by_cases isOwn : other = index
  case neg =>
    rw [Function.update_of_ne isOwn]
    exact kept.spaced other
  subst isOwn
  rw [Function.update_self]
  by_cases isFirst : stage = 0
  case neg => exact (kept.spaced other).record_later isFirst
  subst isFirst
  have ring := (kept.invariant.ring other).flagsOnly same
  rcases ring.member 0 (Nat.zero_le _) with ⟨executable, entry, member, _, _, releaseTime⟩
  rcases member.dispatch_first_spaced entry result with
    ⟨release, next, releaseEq, nextEq, later⟩
  rw [releaseTime rfl] at releaseEq
  cases releaseEq
  apply (kept.spaced other).record_first
  rw [nextEq, Option.getD_some]
  linarith only [later]

theorem Kept.step (kept : system.Kept release counter before)
    (step : system.TurnStep before turn after) : system.Kept release counter after := by
  have same : after.2 = before.2 →
      ∀ index, (system.chain index).Spaced (after.2 index) := by
    intro history
    rw [history]
    exact kept.spaced
  cases step.settles with
  | nothing none history =>
      refine ⟨?_, same history⟩
      rcases step.round.dispatchStep with ⟨_, _, flags⟩ | ⟨handle, selected, _⟩
      · exact kept.invariant.flagsOnly flags history
      · rw [none] at selected
        cases selected
  | foreign selected entry notDeadline history =>
      refine ⟨?_, same history⟩
      rcases step.round.bookkeeping selected with ⟨current, input, flags, mapEq, result⟩
      rw [← mapEq] at entry
      exact kept.invariant.foreign flags entry notDeadline result history
  | stage selected dispatch =>
      exact ⟨kept.invariant.step dispatch, kept.spaced_step dispatch.1⟩

omit [DecidableEq ι] in
theorem Initial.kept {state : ChainState ι}
    (initial : system.Initial release counter state) : system.Kept release counter state := by
  refine ⟨initial.invariant, ?_⟩
  intro index number exists'
  rw [initial.history] at exists'
  exact absurd exists' (Nat.not_lt_zero number)

/-- At a turn on time the comparator sees every stage that can run with the deadline of
its next instance. -/
theorem Kept.currentDeadline (kept : system.Kept release counter before)
    (step : system.TurnStep before turn after) (onTime : system.OnTime turn) {index : ι}
    {stage : Nat} (isStage : stage ≤ (system.chain index).last)
    (canRun : turn.CanRun ((system.chain index).executables stage)) :
    let executable := turn.round.ready.atKey ((system.chain index).executables stage)
    executable.schedType = .deadline ∧
      0 < (turn.history index).instant ((turn.history index).count stage) ∧
      (executable.currentDeadline turn.round.ready.deques : Int) =
        (turn.history index).instant ((turn.history index).count stage) := by
  have ring := (kept.invariant.ring index).flagsOnly step.round.waited
  have spaced := kept.spaced index
  rw [← step.history] at ring spaced
  have ahead := spaced.ahead_lt_size ring.inOrder isStage
    (onTime.released index stage isStage canRun) (onTime.met index)
  rcases ring.currentDeadline_eq (onTime.inRange index) isStage ahead with
    ⟨executable, entry, schedType, positive, front⟩
  simp only [Strategy.atKey_of_some entry]
  exact ⟨schedType, positive, front⟩

/-- One turn. -/
theorem Kept.earliestFirst (kept : system.Kept release counter before)
    (step : system.TurnStep before turn after) (onTime : system.OnTime turn)
    (filled : turn.round.anyExec.isFilled = true) : system.EarliestFirst turn := by
  intro index stage isStage canRun
  have valid := step.round.valid
  rcases kept.currentDeadline step onTime isStage canRun with ⟨schedType, positive, front⟩
  cases step.settles with
  | nothing none _ =>
      rcases step.round.dispatchStep with ⟨_, empty, _⟩ | ⟨handle, selected, _⟩
      · rw [empty] at filled
        cases filled
      · rw [none] at selected
        cases selected
  | @foreign handle executable selected entry notDeadline _ =>
      -- the class of the chains comes first
      have highest := turn.round.ready.selected_highest valid selected _ canRun.1 canRun.2
      refine absurd (.inl ?_) highest
      rw [schedType, Strategy.atKey_of_some entry]
      cases found : executable.schedType with
      | deadline => exact absurd found notDeadline
      | chainIndependentPriority | chainAwarePriority | default => decide
  | @stage served servedStage selected dispatch =>
      refine ⟨served, servedStage, dispatch.1.1, selected, ?_⟩
      have highest := turn.round.ready.selected_highest valid selected _ canRun.1 canRun.2
      have servedRuns : turn.CanRun ((system.chain served).executables servedStage) := by
        rcases turn.round.ready.selected_eq_some selected with ⟨_, _, splits, found, _⟩
        rcases SelectionView.consider_filled found filled with
          ⟨entity, group, ready, entityEq, groupEq, takeable, _⟩
        refine ⟨?_, entity, group, ready, entityEq, groupEq, takeable⟩
        rw [← turn.round.ready.mem_queueOrder, splits]
        simp
      rcases kept.currentDeadline step onTime dispatch.1.1 servedRuns with
        ⟨servedType, servedPositive, servedFront⟩
      by_contra earlier
      apply highest
      refine .inr ⟨schedType.trans servedType.symm, ?_⟩
      rw [schedType]
      refine ⟨?_, .inr (.inl ?_)⟩
      · intro zero
        rw [zero] at front
        exact absurd front positive.ne
      · rw [← Int.ofNat_lt, front, servedFront]
        exact Int.not_le.mp earlier

/-- In every run of rounds over chains and other executables, with any number of either:
at every turn at which the chains are on time, a round that fills `any_exec` serves the
earliest deadline. -/
theorem earliest_first_of_run {start stop : ChainState ι} {turns : List (Turn ι)}
    (initial : system.Initial release counter start)
    (run : Steps system.TurnStep start turns stop) :
    ∀ turn ∈ turns, system.OnTime turn → turn.round.anyExec.isFilled = true →
      system.EarliestFirst turn :=
  run.forall_labels (system.Kept release counter) initial.kept Kept.step
    fun kept step onTime filled => kept.earliestFirst step onTime filled

variable (system) in
/-- The chains after a round that dispatched a stage. -/
def dispatched (before : ChainState ι) (strategy : Strategy) (index : ι) (stage : Nat) :
    ChainState ι :=
  (strategy, Function.update before.2 index ((before.2 index).record stage
    ((strategy.releaseTimeOf ((system.chain index).executables 0)).getD 0 +
      (system.chain index).deadline)))

/-- A round that settles on a stage is a turn, unless the stage gets ahead. -/
theorem turnStep_of_round {strategy : Strategy} {index : ι} {stage : Nat}
    (round : RoundStep before.1 turn.round strategy) (history : turn.history = before.2)
    (isStage : stage ≤ (system.chain index).last)
    (selected : turn.round.ready.selected turn.round.view =
      some ((system.chain index).executables stage, turn.round.anyExec))
    (inOrder : (before.2 index).InOrder (system.chain index).last)
    (ahead : ∀ previous, previous + 1 = stage →
      (before.2 index).count stage < (before.2 index).count previous) :
    system.TurnStep before turn (system.dispatched before strategy index stage) := by
  rcases round.bookkeeping selected with ⟨current, input, flags, _, result⟩
  refine ⟨round, history,
    .stage selected ⟨⟨isStage, ⟨current, input, flags, result⟩, rfl⟩, ?_⟩⟩
  simp only [dispatched, Function.update_self]
  exact inOrder.record ahead

/-! Turns on which the result is tried: the sample chain, and then its first two
executables at once.  The second one works on instance 0, and the first one would begin
instance 1. -/

def firstInput : RoundInput := groupReady { id := 0, subscriptions := [0] }

def firstTurn : Turn Unit where
  now := 0
  round :=
    ⟨(sampleStart 2).1.ready firstInput, firstInput.view, .fill .subscription 0 0⟩
  history := (sampleStart 2).2

def secondInput : RoundInput :=
  { groupReady { id := 0, subscriptions := [0, 1] } with dispatch := { millis := 10 } }

/-- The state between the two turns. -/
def afterFirst (strategy : Strategy) : ChainState Unit :=
  (sampleSystem 2).dispatched (sampleStart 2) strategy () 0

def secondTurn (strategy : Strategy) : Turn Unit where
  now := 10
  round := ⟨strategy.ready secondInput, secondInput.view, .fill .subscription 1 0⟩
  history := (afterFirst strategy).2

/-- Both instances have been released by then, and none is due. -/
theorem secondTurn_onTime {strategy : Strategy} (release : strategy.releaseTimeOf 0 = some 10) :
    (sampleSystem 2).OnTime (secondTurn strategy) := by
  have instants : ∀ number, 20 ≤ ((secondTurn strategy).history ()).instant number ∧
      ((secondTurn strategy).history ()).instant number ≤ 30 := by
    intro number
    have recorded : ((secondTurn strategy).history ()).instant =
        Function.update (fun _ => 20) 1 30 := by
      simp only [secondTurn, afterFirst, dispatched, Function.update_self, History.record]
      have deadline : (strategy.releaseTimeOf 0).getD 0 + 20 = 30 := by rw [release]; rfl
      exact congrArg (Function.update _ 1) deadline
    rw [recorded, Function.update_apply]
    split <;> omega
  refine ⟨?_, ?_, ?_⟩
  · intro index stage _ _
    have upper := (instants (((secondTurn strategy).history index).count stage)).2
    change ((secondTurn strategy).history ()).instant _ - 20 ≤ 10
    omega
  · intro index number _ due
    have lower := (instants number).1
    change ((secondTurn strategy).history ()).instant number ≤ 10 at due
    omega
  · intro index number _ _
    have bounds := instants number
    change 0 < ((secondTurn strategy).history ()).instant number ∧
      ((secondTurn strategy).history ()).instant number < 2 ^ 32
    omega

theorem earliest_first_of_run_overlap :
    ∃ strategy stop,
      Steps (sampleSystem 2).TurnStep (sampleStart 2) [firstTurn, secondTurn strategy] stop ∧
      (∀ stage ≤ 1, (secondTurn strategy).CanRun stage) ∧
      (secondTurn strategy).round.anyExec = .fill .subscription 1 0 ∧
      (sampleSystem 2).EarliestFirst (secondTurn strategy) := by
  have rounds : ∃ strategy after, RoundStep (sampleStart 2).1 firstTurn.round strategy ∧
      strategy.releaseTimeOf 0 = some 10 ∧
      RoundStep strategy (secondTurn strategy).round after ∧
      (secondTurn strategy).round.ready.selected (secondTurn strategy).round.view =
        some (1, (secondTurn strategy).round.anyExec) ∧
      (secondTurn strategy).CanRun 0 ∧ (secondTurn strategy).CanRun 1 :=
    ⟨_, _, .of_round rfl, rfl, .of_round rfl, rfl, ⟨by decide, 0, 0, rfl, rfl, rfl, rfl⟩,
      ⟨by decide, 1, 0, rfl, rfl, rfl, rfl⟩⟩
  rcases rounds with ⟨strategy, after, first, release, second, selected, canRun, canRunNext⟩
  have firstStep : (sampleSystem 2).TurnStep (sampleStart 2) firstTurn (afterFirst strategy) :=
    turnStep_of_round first rfl (Nat.zero_le 2) rfl (fun _ _ => Nat.le_refl 0) nofun
  have inOrder : ((afterFirst strategy).2 ()).InOrder 2 := by
    simp only [afterFirst, dispatched, Function.update_self]
    exact History.InOrder.record (fun _ _ => Nat.le_refl 0) nofun
  have secondStep : (sampleSystem 2).TurnStep (afterFirst strategy) (secondTurn strategy)
      ((sampleSystem 2).dispatched (afterFirst strategy) after () 1) := by
    apply turnStep_of_round second rfl (by decide) selected inOrder
    intro previous isPrevious
    cases isPrevious
    exact Nat.zero_lt_one
  have run := Steps.snoc (.singleton firstStep) secondStep
  refine ⟨strategy, _, run, ?_, rfl, ?_⟩
  · intro stage isStage
    rcases Nat.le_one_iff_eq_zero_or_eq_one.mp isStage with rfl | rfl
    · exact canRun
    · exact canRunNext
  · exact earliest_first_of_run (sampleStart_initial 2) run _
      (List.mem_cons_of_mem _ List.mem_cons_self) (secondTurn_onTime release) rfl

end ChainSystem

end PriorityExecutor
