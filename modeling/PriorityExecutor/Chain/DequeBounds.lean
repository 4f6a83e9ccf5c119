import PriorityExecutor.Chain.Experiment
import PriorityExecutor.Strategy.DispatchSafety

/-!
# The deques that dispatches name

The loops of an experiment leave behind all that its dispatches access.  Only a shared
timer reaches for more: it pushes the deadline of chain 0 to chain 1 under the index that
chain 0 has come to, and `cur_index` is reduced modulo the number of deques of chain 0.

So whether chain 1 has at least as many deques as chain 0 decides whether a round can
name one that does not exist.
-/

namespace PriorityExecutor

/-! ## A round for one timer -/

/-- A round that finds one timer, and finds it ready. -/
def timerRound (timer : Handle) (dispatch : DispatchInput) : RoundInput where
  canBeTakenFrom _ := true
  weakNodes := [some ⟨[some { id := 0, timers := [timer] }]⟩]
  outcome :=
    { addToWaitSet := fun _ waitSet => waitSet, wait := id, isReady := fun _ _ => true }
  view :=
    { entityExists := fun _ _ => true
      getGroup := fun _ _ => some 0
      canBeTakenFrom := fun _ => true }
  dispatch

namespace Strategy

variable {strategy : Strategy} {timer : Handle} {executable : PriorityExecutable}

theorem ready_timerRound (entry : strategy.priorityMap timer = some executable)
    (dispatch : DispatchInput) :
    strategy.ready (timerRound timer dispatch) =
      { strategy.assign timer executable.allowRun with
        subscriptionHandles := []
        serviceHandles := []
        clientHandles := []
        timerHandles := [timer]
        waitableHandles := []
        allExecutables := [timer] } := by
  have pushed : ∀ strategy : Strategy,
      StdHeap.push (compareHandles strategy) [] timer = [timer] := fun _ => rfl
  simp [ready, timerRound, waitForWork, clearHandles, collectEntities, collectNode,
    collectGroup, collectTimer, pushExecutable, pushed, getAndResetPriority,
    getPrioritySettings, entry, addHandlesToWaitSet, removeNullHandles, markReady,
    keepReady, slotReady, atKey, assign]

/-- The round is the dispatch of the timer. -/
theorem round_timerRound (entry : strategy.priorityMap timer = some executable)
    (isTimer : executable.type = .timer) (dispatch : DispatchInput) :
    ∃ current : Strategy,
      current.isF1tenth = strategy.isF1tenth ∧ current.deques = strategy.deques ∧
      current.priorityMap =
        Function.update strategy.priorityMap timer (some executable.allowRun) ∧
      strategy.round (timerRound timer dispatch) =
        (current.bookkeeping dispatch timer).map fun after =>
          (.fill .timer timer 0, after) := by
  have popped : ∀ strategy : Strategy,
      StdHeap.pop (compareHandles strategy) [timer] = [] := fun _ => rfl
  refine ⟨{ strategy.ready (timerRound timer dispatch) with allExecutables := [] },
    ?_, ?_, ?_, ?_⟩
  · rw [ready_timerRound entry]
    rfl
  · rw [ready_timerRound entry]
    rfl
  · rw [ready_timerRound entry]
    rfl
  · rw [round, ready_timerRound entry]
    simp [getNextExecutable, selectionLoop, popped, atKey, assign, timerRound,
      SelectionView.consider, SelectionView.entityOf, PriorityExecutable.allowRun, isTimer]

end Strategy

namespace Experiment

open Strategy

variable {experiment : Experiment} {strategy before after : Strategy}

/-! ## Where the shared timer has come to -/

/-- Every handle that the first loop may register. -/
def handles (experiment : Experiment) : List Handle :=
  (List.range experiment.chainLengths.length).flatMap fun index =>
    (List.range (experiment.lengthOf index)).map (experiment.handleOf index)

theorem mem_handles {index stage : Nat} (inRange : index < experiment.chainLengths.length)
    (exists' : stage < experiment.lengthOf index) :
    experiment.handleOf index stage ∈ experiment.handles := by
  rw [handles, List.mem_flatMap]
  exact ⟨index, List.mem_range.mpr inRange, List.mem_map.mpr
    ⟨stage, List.mem_range.mpr exists', rfl⟩⟩

/-- The record of the timer of chain 0 between two dispatches. -/
def timerRecord (experiment : Experiment) (curIndex : Nat) (release : Int) (canBeRun : Bool)
    (counter sum : Int) : PriorityExecutable :=
  { experiment.entry 0 0 with
    curIndex, canBeRun, counter, sum, releaseTime := some release }

/-- The timer has come to `index`, and the vectors are as they were made. -/
structure TimerAt (experiment : Experiment) (index : Nat) (strategy : Strategy) : Prop where
  isF1tenth : strategy.isF1tenth = true
  owner : (strategy.deques (experiment.vectorOf 0)).length = experiment.sizeOf 0
  driven : (strategy.deques (experiment.vectorOf 1)).length = experiment.sizeOf 1
  timer : ∃ release canBeRun counter sum,
    strategy.priorityMap (experiment.handleOf 0 0) =
      some (experiment.timerRecord index release canBeRun counter sum)
  follower : ∃ executable,
    strategy.priorityMap (experiment.handleOf 1 1) = some executable ∧ executable.chainId = 1
  followers : ∀ handle executable, strategy.priorityMap handle = some executable →
    executable.chainId = 1 → executable.deadlines = some (experiment.vectorOf 1)

theorem timerRecord_chainId (experiment : Experiment) (curIndex : Nat) (release : Int)
    (canBeRun : Bool) (counter sum : Int) :
    (experiment.timerRecord curIndex release canBeRun counter sum).chainId = 0 :=
  toInt32_natCast (Nat.two_pow_pos 31)

/-- Another record of the timer, with nothing else changed but the contents of deques. -/
theorem TimerAt.replace (complete : experiment.Complete) {index next : Nat}
    (timerAt : experiment.TimerAt index before)
    (isF1tenth : after.isF1tenth = before.isF1tenth)
    (lengths : ∀ vector, (after.deques vector).length = (before.deques vector).length)
    {release : Int} {canBeRun : Bool} {counter sum : Int}
    (entry : after.priorityMap (experiment.handleOf 0 0) =
      some (experiment.timerRecord next release canBeRun counter sum))
    (others : ∀ other, other ≠ experiment.handleOf 0 0 →
      after.priorityMap other = before.priorityMap other) :
    experiment.TimerAt next after where
  isF1tenth := isF1tenth.trans timerAt.isF1tenth
  owner := (lengths _).trans timerAt.owner
  driven := (lengths _).trans timerAt.driven
  timer := ⟨release, canBeRun, counter, sum, entry⟩
  follower := by
    rcases timerAt.follower with ⟨executable, found, isOne⟩
    refine ⟨executable, (others _ ?_).trans found, isOne⟩
    intro same
    exact absurd (complete.handles same).1 Nat.one_ne_zero
  followers := by
    intro handle executable found isOne
    by_cases same : handle = experiment.handleOf 0 0
    · rw [same, entry] at found
      cases found
      rw [timerRecord_chainId] at isOne
      cases isOne
    · exact timerAt.followers handle executable ((others handle same).symm.trans found) isOne

/-- The loop over the map finds a node of chain 1. -/
theorem TimerAt.shareDeadline_eq {index : Nat} (timerAt : experiment.TimerAt index strategy)
    (two : 1 < experiment.chainLengths.length) (long : 2 ≤ experiment.lengthOf 1)
    {executable : PriorityExecutable} (chainId : executable.chainId = 0) (millis : Int)
    (deques : Deques) (slot value : Nat) :
    strategy.shareDeadline ⟨millis, experiment.handles⟩ executable deques slot value =
      pushBack deques (some (experiment.vectorOf 1)) slot value := by
  rw [shareDeadline, if_pos ⟨timerAt.isF1tenth, chainId⟩]
  cases found : (experiment.handles.filterMap strategy.priorityMap).find?
      fun entry => entry.chainId = 1 with
  | none =>
      rcases timerAt.follower with ⟨follower, entry, isOne⟩
      have member : follower ∈ experiment.handles.filterMap strategy.priorityMap :=
        List.mem_filterMap.mpr ⟨_, mem_handles two long, entry⟩
      exact absurd (decide_eq_true isOne) (List.find?_eq_none.mp found follower member)
  | some entry =>
      have member := List.mem_of_find?_eq_some found
      rcases List.mem_filterMap.mp member with ⟨handle, _, entryEq⟩
      have isOne : entry.chainId = 1 := by simpa using List.find?_some found
      rw [← timerAt.followers handle entry entryEq isOne]

theorem timerRecord_nextIndex (complete : experiment.Complete)
    (inRange : 0 < experiment.chainLengths.length) (curIndex : Nat) (release : Int)
    (canBeRun : Bool) (counter sum : Int) :
    (experiment.timerRecord curIndex release canBeRun counter sum).nextIndex =
      .ok ((curIndex + 1) % experiment.sizeOf 0) := by
  have size : (experiment.timerRecord curIndex release canBeRun counter sum).maxChainNum =
      .ok (experiment.sizeOf 0) := complete.maxChainNum inRange
  have nonzero : (experiment.sizeOf 0 : Int) ≠ 0 :=
    Int.natCast_ne_zero.mpr (complete.sizeOf_pos inRange).ne'
  simp only [PriorityExecutable.nextIndex, size, bind, Except.bind, if_neg nonzero,
    Int.natAbs_natCast]
  rfl

/-- A dispatch at the time of the recorded release is on time. -/
theorem timerRecord_nextRelease (complete : experiment.Complete)
    (inRange : 0 < experiment.chainLengths.length) (curIndex : Nat) (release : Int)
    (canBeRun : Bool) (counter sum : Int) :
    (experiment.timerRecord curIndex release canBeRun counter sum).nextRelease release
      release = .ok (release + experiment.periodOf 0) := by
  have positive : (0 : Int) < experiment.periodOf 0 :=
    Int.natCast_pos.mpr (complete.periodRange 0 inRange).1
  rw [PriorityExecutable.nextRelease, sub_self, if_pos (by exact positive)]
  rfl

/-- The dispatch of the timer pushes to its own deque, and then to the deque of chain 1
with the same index. -/
theorem TimerAt.releaseStage_eq (complete : experiment.Complete)
    (two : 1 < experiment.chainLengths.length) (long : 2 ≤ experiment.lengthOf 1)
    {index : Nat} (timerAt : experiment.TimerAt index strategy) (release : Int)
    (canBeRun : Bool) (counter sum : Int) :
    ∃ pushed value, (∀ vector,
        (pushed vector).length = (strategy.deques vector).length) ∧
      strategy.releaseStage ⟨release, experiment.handles⟩
          (experiment.timerRecord index release canBeRun counter sum) =
        (pushBack pushed (some (experiment.vectorOf 1))
          ((index + 1) % experiment.sizeOf 0) value).map fun deques =>
            (experiment.timerRecord index (release + experiment.periodOf 0) canBeRun counter
              sum, deques) := by
  have inRange := Nat.zero_lt_of_lt two
  let timer := experiment.timerRecord index release canBeRun counter sum
  let value := toUint (release + experiment.periodOf 0 + timer.deadline)
  have inBounds : (index + 1) % experiment.sizeOf 0 <
      (strategy.deques (experiment.vectorOf 0)).length := by
    rw [timerAt.owner]
    exact Nat.mod_lt _ (complete.sizeOf_pos inRange)
  rcases exists_pushBack inBounds value with ⟨pushed, pushedEq⟩
  refine ⟨pushed, value, length_of_pushBack pushedEq, ?_⟩
  have nextIndex := timerRecord_nextIndex complete inRange index release canBeRun counter sum
  have nextRelease :=
    timerRecord_nextRelease complete inRange index release canBeRun counter sum
  have copied := timerAt.shareDeadline_eq two long
    (experiment.timerRecord_chainId index release canBeRun counter sum) release pushed
    ((index + 1) % experiment.sizeOf 0) value
  have releaseTime : timer.releaseTime = some release := rfl
  have first : timer.isFirstInChain = true ∧ timer.schedType = .deadline := ⟨rfl, rfl⟩
  have own : pushBack strategy.deques timer.deadlines ((index + 1) % experiment.sizeOf 0)
      value = .ok pushed := pushedEq
  change strategy.releaseStage _ timer = _
  rw [releaseStage, if_pos first, releaseNext_eq releaseTime nextIndex nextRelease own, copied]
  rfl

/-- If chain 1 does not have that deque, the dispatch names one that does not exist. -/
theorem TimerAt.dispatch_fault (complete : experiment.Complete)
    (two : 1 < experiment.chainLengths.length) (long : 2 ≤ experiment.lengthOf 1)
    {index : Nat} (timerAt : experiment.TimerAt index strategy) {release : Int}
    {canBeRun : Bool} {counter sum : Int}
    (entry : strategy.priorityMap (experiment.handleOf 0 0) =
      some (experiment.timerRecord index release canBeRun counter sum))
    (missing : experiment.sizeOf 1 ≤ (index + 1) % experiment.sizeOf 0) :
    strategy.bookkeeping ⟨release, experiment.handles⟩ (experiment.handleOf 0 0) =
      .error .indexOutOfRange := by
  rcases timerAt.releaseStage_eq complete two long release canBeRun counter (sum + 1) with
    ⟨pushed, value, lengths, staged⟩
  have outside : ¬ (index + 1) % experiment.sizeOf 0 <
      (pushed (experiment.vectorOf 1)).length := by
    rw [lengths, timerAt.driven]
    exact not_lt.mpr missing
  rw [pushBack, if_neg outside] at staged
  rw [bookkeeping, getPrioritySettings, entry]
  exact Except.bind_eq_error.mpr (.inl staged)

/-- If it does, the timer comes to the next index. -/
theorem TimerAt.dispatch (complete : experiment.Complete)
    (two : 1 < experiment.chainLengths.length) (long : 2 ≤ experiment.lengthOf 1)
    {index : Nat} (timerAt : experiment.TimerAt index strategy) {release : Int}
    {canBeRun : Bool} {counter sum : Int}
    (entry : strategy.priorityMap (experiment.handleOf 0 0) =
      some (experiment.timerRecord index release canBeRun counter sum))
    (inBounds : (index + 1) % experiment.sizeOf 0 < experiment.sizeOf 1) :
    ∃ after, strategy.bookkeeping ⟨release, experiment.handles⟩ (experiment.handleOf 0 0) =
        .ok after ∧
      experiment.TimerAt ((index + 1) % experiment.sizeOf 0) after := by
  rcases timerAt.releaseStage_eq complete two long release canBeRun counter (sum + 1) with
    ⟨pushed, value, lengths, staged⟩
  rcases exists_pushBack ((lengths _).trans timerAt.driven ▸ inBounds) value with
    ⟨deques, dequesEq⟩
  rw [dequesEq] at staged
  let released := experiment.timerRecord index (release + experiment.periodOf 0) canBeRun
    counter (sum + 1)
  let update := experiment.timerRecord ((index + 1) % experiment.sizeOf 0)
    (release + experiment.periodOf 0) canBeRun (toInt32 (counter + 1)) (sum + 1)
  have notLast : released.finishStage deques = .ok deques := by
    simp [PriorityExecutable.finishStage, released, timerRecord, Experiment.entry]
  have indexed : released.indexStage = .ok
      { released with curIndex := (index + 1) % experiment.sizeOf 0 } := by
    rw [PriorityExecutable.indexStage, if_pos (by exact rfl),
      timerRecord_nextIndex complete (Nat.zero_lt_of_lt two)]
    rfl
  refine ⟨{ strategy.assign (experiment.handleOf 0 0) update with deques }, ?_, ?_⟩
  · rw [bookkeeping, getPrioritySettings, entry]
    apply Except.bind_eq_ok.mpr
    refine ⟨(released, deques), staged, Except.bind_eq_ok.mpr ⟨deques, notLast, ?_⟩⟩
    exact Except.bind_eq_ok.mpr ⟨_, indexed, rfl⟩
  · have others : ∀ other, other ≠ experiment.handleOf 0 0 →
        (strategy.assign (experiment.handleOf 0 0) update).priorityMap other =
          strategy.priorityMap other := fun _ => strategy.assign_of_ne update
    apply timerAt.replace complete
    · rfl
    · intro vector
      exact (length_of_pushBack dequesEq vector).trans (lengths vector)
    · exact strategy.assign_self _ update
    · exact others

/-- One more round for the timer. -/
theorem TimerAt.round (complete : experiment.Complete)
    (two : 1 < experiment.chainLengths.length) (long : 2 ≤ experiment.lengthOf 1)
    {index : Nat} (timerAt : experiment.TimerAt index before) :
    ∃ input,
      (experiment.sizeOf 1 ≤ (index + 1) % experiment.sizeOf 0 →
        before.round input = .error .indexOutOfRange) ∧
      ((index + 1) % experiment.sizeOf 0 < experiment.sizeOf 1 →
        ∃ round after, RoundStep before round after ∧
          experiment.TimerAt ((index + 1) % experiment.sizeOf 0) after) := by
  rcases timerAt.timer with ⟨release, canBeRun, counter, sum, entry⟩
  let timer := experiment.handleOf 0 0
  let dispatch : DispatchInput := ⟨release, experiment.handles⟩
  rcases round_timerRound entry rfl dispatch with
    ⟨current, isF1tenth, deques, priorityMap, roundEq⟩
  have entryNow : current.priorityMap timer =
      some (experiment.timerRecord index release true counter sum) := by
    rw [priorityMap, Function.update_self]
    rfl
  have timerNow : experiment.TimerAt index current := by
    apply timerAt.replace complete isF1tenth
    · intro vector
      rw [deques]
    · exact entryNow
    · intro other different
      rw [priorityMap, Function.update_of_ne different]
  refine ⟨timerRound timer dispatch, ?_, ?_⟩
  · intro missing
    rw [roundEq, timerNow.dispatch_fault complete two long entryNow missing]
    rfl
  · intro inBounds
    rcases timerNow.dispatch complete two long entryNow inBounds with ⟨after, booked, next⟩
    rw [booked] at roundEq
    exact ⟨_, after, .of_round roundEq, next⟩

/-- So the timer comes to every index that chain 1 has. -/
theorem TimerAt.exists_run (complete : experiment.Complete)
    (two : 1 < experiment.chainLengths.length) (long : 2 ≤ experiment.lengthOf 1)
    (short : experiment.sizeOf 1 < experiment.sizeOf 0) {start : Strategy}
    (timerAt : experiment.TimerAt 0 start) {index : Nat} (below : index < experiment.sizeOf 1) :
    ∃ rounds stop, Steps RoundStep start rounds stop ∧ experiment.TimerAt index stop := by
  induction index with
  | zero => exact ⟨[], start, .nil, timerAt⟩
  | succ index ih =>
      rcases ih (Nat.lt_of_succ_lt below) with ⟨rounds, middle, run, reached⟩
      rcases reached.round complete two long with ⟨_, _, next⟩
      rw [Nat.mod_eq_of_lt (below.trans short)] at next
      rcases next below with ⟨round, stop, step, timerAt⟩
      exact ⟨_, stop, run.snoc step, timerAt⟩

/-! ## Whether every deque is there -/

/-- Chain 1 has a deque for each that a shared timer names. -/
def DequesCover (experiment : Experiment) : Prop :=
  experiment.isF1tenth = true → 1 < experiment.chainLengths.length →
    2 ≤ experiment.lengthOf 1 → experiment.sizeOf 0 ≤ experiment.sizeOf 1

/-- Every timer that is registered has a release when the second loop is over. -/
theorem isSome_assigned {chainIndex index : Nat} (inRange : index < chainIndex)
    (registered : experiment.Registered index 0) :
    (experiment.assigned chainIndex index).isSome = true := by
  induction chainIndex with
  | zero => exact absurd inRange (Nat.not_lt_zero index)
  | succ chainIndex ih =>
      rw [assigned]
      by_cases isTimer : index = experiment.timerRow chainIndex
      · rw [if_pos isTimer]
        rfl
      · rw [if_neg isTimer]
        -- otherwise this is chain 1, which has no timer of its own
        have notLast : index ≠ chainIndex := by
          rintro rfl
          rw [timerRow] at isTimer
          split at isTimer
          next shared => exact registered ⟨shared.1, shared.2, rfl⟩
          next => exact isTimer rfl
        exact ih (Nat.lt_of_le_of_ne (Nat.le_of_lt_succ inRange) notLast)

/-- The number of deques that a shared timer indexes. -/
def sharedSize (experiment : Experiment) : Option Nat :=
  if experiment.isF1tenth then some (experiment.sizeOf 0) else none

theorem sharedSize_eq_some {size : Nat} (shared : experiment.sharedSize = some size) :
    experiment.isF1tenth = true ∧ size = experiment.sizeOf 0 := by
  rw [sharedSize] at shared
  split at shared
  next isShared =>
    cases shared
    exact ⟨isShared, rfl⟩
  next => cases shared

/-- The loops leave everything accessible if chain 1 has the deques that it needs. -/
theorem Released.accessible (complete : experiment.Complete) (covers : experiment.DequesCover)
    {state : SetUpState}
    (held : experiment.Released experiment.chainLengths.length state) :
    state.strat.Accessible (fun vector => (state.strat.deques vector).length)
      experiment.sharedSize := by
  refine ⟨fun _ => rfl, ?_, ?_⟩
  · rw [held.holds.isF1tenth, sharedSize]
    cases experiment.isF1tenth <;> rfl
  · intro handle executable entry
    rcases held.holds.only entry with ⟨index, stage, made, registered, rfl⟩
    rw [held.holds.entry made registered] at entry
    cases entry
    have size := held.length_deques complete made.1
    have chainId : (experiment.released experiment.chainLengths.length index stage).chainId =
        index := toInt32_natCast (made.1.trans complete.fewChains)
    refine ⟨?_, ?_, ?_⟩
    · intro _
      refine ⟨_, rfl, ?_, ?_, ?_, ?_⟩
      · rw [size]
        exact complete.maxChainNum made.1
      · rw [size]
        exact complete.sizeOf_pos made.1
      · exact Int.natCast_pos.mpr (complete.periodRange index made.1).1
      · intro isFirst
        have isZero : stage = 0 := of_decide_eq_true isFirst
        subst isZero
        exact isSome_assigned made.1 registered
    · intro found vector shared _ _ isOwner deadlines
      cases deadlines
      rw [chainId] at isOwner
      have isZero : index = 0 := Int.natCast_eq_zero.mp isOwner
      subst isZero
      rw [(sharedSize_eq_some shared).2]
      exact size.le
    · intro found shared isDriven
      rw [chainId] at isDriven
      have isOne : index = 1 := Nat.cast_eq_one.mp isDriven
      subst isOne
      rcases sharedSize_eq_some shared with ⟨isShared, rfl⟩
      -- the first node of chain 1 is not registered, so this is another one
      have notFirst : stage ≠ 0 := fun isZero => registered ⟨isShared, rfl, isZero⟩
      have long : 2 ≤ experiment.lengthOf 1 :=
        (Nat.succ_le_succ (Nat.pos_of_ne_zero notFirst)).trans made.2
      exact ⟨_, rfl, (covers isShared made.1 long).trans size.ge⟩

/-- A shared timer begins at its deque 0. -/
theorem Released.timerAt (complete : experiment.Complete)
    (shared : experiment.isF1tenth = true) (two : 1 < experiment.chainLengths.length)
    (long : 2 ≤ experiment.lengthOf 1) {state : SetUpState}
    (held : experiment.Released experiment.chainLengths.length state) :
    experiment.TimerAt 0 state.strat := by
  have first := Nat.zero_lt_of_lt two
  have registered : experiment.Registered 0 0 := by simp [Registered]
  rcases Option.isSome_iff_exists.mp (isSome_assigned first registered) with
    ⟨release, releaseEq⟩
  refine ⟨held.holds.isF1tenth.trans shared, held.length_deques complete first,
    held.length_deques complete two, ⟨release, true, 0, 0, ?_⟩, ?_, ?_⟩
  · rw [held.holds.entry ⟨first, complete.notEmpty 0 first⟩ registered, Experiment.released,
      if_pos rfl, releaseEq]
    rfl
  · exact ⟨_, held.holds.entry ⟨two, long⟩ (by simp [Registered]),
      toInt32_natCast (by decide)⟩
  · intro handle executable entry isOne
    rcases held.holds.only entry with ⟨index, stage, made, registered, rfl⟩
    rw [held.holds.entry made registered] at entry
    cases entry
    have chainId : (experiment.released experiment.chainLengths.length index stage).chainId =
        index := toInt32_natCast (made.1.trans complete.fewChains)
    rw [chainId] at isOne
    rw [Nat.cast_eq_one.mp isOne]
    rfl

theorem Released.countersAtMost {chainIndex : Nat} {state : SetUpState}
    (held : experiment.Released chainIndex state) : state.strat.CountersAtMost 0 := by
  apply held.holds.countersAtMost
  intro index stage
  unfold Experiment.released
  split <;> rfl

/-- A program with deadlines sets its chains up without a fault.  In the runs of rounds
that follow no counter overflows before the round 2^31, and the conversion of a distance in
time is the only fault that a round can come to, if and only if chain 1 has the deques that
a shared timer names. -/
theorem faults_at_clock_iff (complete : experiment.Complete) :
    ∃ state, experiment.setUp = .ok state ∧
      ((∀ rounds stop, Steps RoundStep state.strat rounds stop →
          ∀ input fault, stop.round input = .error fault → fault = .intConversion) ↔
        experiment.DequesCover) ∧
      ∀ rounds stop, Steps RoundStep state.strat rounds stop →
        rounds.length < 2 ^ 31 → stop.CountersAtMost rounds.length := by
  rcases complete.setUp with ⟨state, succeeds, released⟩
  refine ⟨state, succeeds, ⟨?_, ?_⟩, ?_⟩
  · intro clockOnly shared two long
    by_contra short
    have short : experiment.sizeOf 1 < experiment.sizeOf 0 := not_le.mp short
    have positive := complete.sizeOf_pos two
    -- the last index that both chains have
    rcases (released.timerAt complete shared two long).exists_run complete two long short
        (Nat.sub_one_lt_of_lt positive) with ⟨rounds, stop, run, timerAt⟩
    rcases timerAt.round complete two long with ⟨input, faults, _⟩
    rw [Nat.sub_add_cancel positive, Nat.mod_eq_of_lt short] at faults
    cases clockOnly rounds stop run input _ (faults le_rfl)
  · intro covers rounds stop run input fault result
    have accessible : stop.Accessible _ experiment.sharedSize :=
      run.invariant (fun strategy => strategy.Accessible _ experiment.sharedSize)
        (released.accessible complete covers) fun held step => held.step step
    rcases accessible.round_clock result with ⟨_, _, _, failed⟩
    exact failed.eq
  · intro rounds stop run few
    have counted := released.countersAtMost.of_run run
    rw [zero_add] at counted
    exact counted few

/-- The vectors of `multi_test.cpp` with a longer deadline for chain 0. -/
def longOwner : Experiment :=
  { multiTest with chainDeadlines := [160, 80, 120, 140, 160, 180] }

theorem longOwner_complete : longOwner.Complete where
  fewChains := by decide
  runtimes := by decide
  periods := by decide
  deadlines := by decide
  notEmpty := by decide
  periodRange := by decide
  deadlineRange := by decide
  handles same := Nat.pair_eq_pair.mp same
  vectors := Function.injective_id

theorem faults_at_clock_iff_longOwner :
    ∃ state, longOwner.setUp = .ok state ∧
      ∃ rounds stop input fault, Steps RoundStep state.strat rounds stop ∧
        stop.round input = .error fault ∧ fault ≠ .intConversion := by
  rcases faults_at_clock_iff longOwner_complete with ⟨state, succeeds, clockOnly, _⟩
  have short : ¬ longOwner.DequesCover := by
    intro covers
    exact absurd (covers rfl (by decide) (by decide)) (by decide)
  rw [← clockOnly] at short
  push Not at short
  rcases short with ⟨rounds, stop, run, input, fault, result, notClock⟩
  exact ⟨state, succeeds, rounds, stop, input, fault, run, result, notClock⟩

end Experiment

end PriorityExecutor
