import PriorityExecutor.Chain.Ring

/-!
# A chain driven by the timer of another chain

With `is_f1tenth`, chain 1 has no timer.  Every dispatch of chain 0's timer computes
one deadline and one deque index, from the parameters of chain 0, and pushes to both
chains.  Chain 1 therefore receives its own deadlines in its own deques exactly when
the two relative deadlines are equal and the deadlines fit a `uint`.

Only the timer's dispatches are steps here.  Between two of them anything may happen
to the strategy that keeps the set-up of the two chains and the timer's own entry.
-/

namespace PriorityExecutor

/-- A value and the deque it is pushed to. -/
structure Push where
  slot : Nat
  value : Nat
  deriving DecidableEq, Repr

/-- `after` is `before` with one value pushed to an existing deque. -/
def Push.Appends (push : Push) (before after : List (List Nat)) : Prop :=
  push.slot < before.length ∧
    after = before.modify push.slot fun queue => queue ++ [push.value]

/-- What a vector gained determines the push. -/
theorem Push.Appends.unique {left right : Push} {before after : List (List Nat)}
    (leftAppends : left.Appends before after) (rightAppends : right.Appends before after) :
    left = right := by
  obtain ⟨leftSlot, leftValue⟩ := left
  obtain ⟨rightSlot, rightValue⟩ := right
  obtain ⟨leftLt, rfl⟩ := leftAppends
  obtain ⟨_, same⟩ := rightAppends
  have atLeft := congrArg (fun queues => queues[leftSlot]?) same
  simp only [List.getElem?_modify, List.getElem?_eq_getElem leftLt, Option.map_eq_map,
    Option.map_some, ↓reduceIte, Option.some.injEq] at atLeft
  split at atLeft
  next equal =>
    subst equal
    simpa using atLeft
  next => simp at atLeft

/-- Two chains with the timer of the first one. -/
structure SharedTimer where
  owner : Chain
  driven : Chain
  samePeriod : driven.period = owner.period
  ownVector : owner.vector ≠ driven.vector

namespace SharedTimer

def timer (shared : SharedTimer) : Handle := shared.owner.executables 0

/-- The two chains are set up in a strategy: each has as many deques as its own
parameters ask for, chain 1 has an executable, and all of its executables share its
vector. -/
structure SetUp (shared : SharedTimer) (strategy : Strategy) : Prop where
  isF1tenth : strategy.isF1tenth = true
  timerEntry : ∃ executable, strategy.priorityMap shared.timer = some executable ∧
    shared.owner.Member 0 executable ∧ executable.chainId = 0
  driven : ∃ handle executable, strategy.priorityMap handle = some executable ∧
    executable.chainId = 1
  drivenVector : ∀ handle executable, strategy.priorityMap handle = some executable →
    executable.chainId = 1 → executable.deadlines = some shared.driven.vector
  ownerSize : (strategy.deques shared.owner.vector).length = shared.owner.size
  drivenSize : (strategy.deques shared.driven.vector).length = shared.driven.size

/-- What one dispatch of the timer does: the release right after it, and the pushes to
the two chains. -/
structure Release where
  release : Int
  owner : Push
  driven : Push
  deriving DecidableEq, Repr

/-- The traversal of the hash map visits every entry. -/
def Visits (input : DispatchInput) (strategy : Strategy) : Prop :=
  ∀ handle, (strategy.priorityMap handle).isSome → handle ∈ input.mapOrder

/-- A dispatch of the timer, from a state that other dispatches and rounds have made of
`before`. -/
def TimerDispatch (shared : SharedTimer) (before : Strategy) (label : Release)
    (after : Strategy) : Prop :=
  ∃ current input executable released pushed,
    shared.SetUp current ∧ Visits input current ∧
    (∃ flag, current.priorityMap shared.timer = (before.priorityMap shared.timer).map
      fun executable => { executable with canBeRun := flag }) ∧
    current.priorityMap shared.timer = some executable ∧
    current.bookkeeping input shared.timer = .ok after ∧
    current.releaseStage input { executable with sum := executable.sum + 1 } =
      .ok (released, pushed) ∧
    after.releaseTimeOf shared.timer = some label.release ∧
    label.owner.Appends (current.deques shared.owner.vector) (pushed shared.owner.vector) ∧
    label.driven.Appends (current.deques shared.driven.vector)
      (pushed shared.driven.vector)

/-- The push gives a chain the deadline of a release, in the deque of its number. -/
def Push.Delivers (push : Push) (chain : Chain) (release : Int) (number : Nat) : Prop :=
  push.slot = number % chain.size ∧ (push.value : Int) = release + chain.deadline

/-- The pushes that the `number`-th dispatch owes to the two chains. -/
def Release.Correct (shared : SharedTimer) (label : Release) (number : Nat) : Prop :=
  Push.Delivers label.owner shared.owner label.release number ∧
    Push.Delivers label.driven shared.driven label.release number

/-- The deadline of the release is a `uint`. -/
def Release.Fits (shared : SharedTimer) (label : Release) : Prop :=
  0 ≤ label.release + shared.owner.deadline ∧ label.release + shared.owner.deadline < 2 ^ 32

/-- The pushes that the `number`-th dispatch makes: chain 1 gets those of chain 0. -/
def Release.Copied (shared : SharedTimer) (label : Release) (number : Nat) : Prop :=
  label.owner = ⟨number % shared.owner.size,
      toUint (label.release + shared.owner.deadline)⟩ ∧
    label.driven = label.owner

/-! ## One dispatch -/

variable {shared : SharedTimer}

/-- With the set-up in place the loop over the map finds an executable of chain 1. -/
theorem SetUp.shareDeadline_eq {strategy : Strategy} {input : DispatchInput}
    {executable : PriorityExecutable} (setUp : shared.SetUp strategy)
    (visits : Visits input strategy) (chainId : executable.chainId = 0) (deques : Deques)
    (slot value : Nat) :
    strategy.shareDeadline input executable deques slot value =
      pushBack deques (some shared.driven.vector) slot value := by
  rw [Strategy.shareDeadline, if_pos ⟨setUp.isF1tenth, chainId⟩]
  obtain ⟨handle, member, entry, isDriven⟩ := setUp.driven
  split
  next none =>
    have visited : member ∈ input.mapOrder.filterMap strategy.priorityMap :=
      List.mem_filterMap.mpr ⟨handle, visits handle (by simp [entry]), entry⟩
    have missed := List.find?_eq_none.mp none member visited
    simp [isDriven] at missed
  next found foundEq =>
    obtain ⟨visited, _, visitedEntry⟩ :=
      List.mem_filterMap.mp (List.mem_of_find?_eq_some foundEq)
    have foundDriven : found.chainId = 1 := by simpa using List.find?_some foundEq
    rw [setUp.drivenVector visited found visitedEntry foundDriven]

theorem appends_of_pushBack {deques after : Deques} {vector : DequesPtr} {slot value : Nat}
    (result : pushBack deques (some vector) slot value = .ok after) :
    Push.Appends ⟨slot, value⟩ (deques vector) (after vector) ∧
      ∀ other, other ≠ vector → after other = deques other := by
  obtain ⟨_, vectorEq, inBounds, rfl⟩ := pushBack_eq_ok result
  cases vectorEq
  exact ⟨⟨inBounds, Function.update_self _ _ _⟩,
    fun other different => Function.update_of_ne different _ _⟩

/-- A dispatch pushes the same value to the same slot of both chains and moves the
timer on by one deque. -/
theorem TimerDispatch.pushes {before after : Strategy} {label : Release}
    (step : shared.TimerDispatch before label after)
    {previous : PriorityExecutable}
    (entry : before.priorityMap shared.timer = some previous) :
    ∃ next, after.priorityMap shared.timer = some next ∧
      next.curIndex = (previous.curIndex + 1) % shared.owner.size ∧
      label.owner = ⟨next.curIndex, toUint (label.release + shared.owner.deadline)⟩ ∧
      label.driven = label.owner := by
  obtain ⟨current, input, executable, released, pushed, setUp, visits, ⟨flag, sameEntry⟩,
    currentEntry, result, releaseEq, recorded, ownerAppends, drivenAppends⟩ := step
  rw [entry, Option.map_some] at sameEntry
  obtain ⟨registered, registeredEntry, member, chainId⟩ := setUp.timerEntry
  cases currentEntry.symm.trans registeredEntry
  have sameIndex : executable.curIndex = previous.curIndex := by
    cases currentEntry.symm.trans sameEntry
    rfl
  have isFirst : executable.isFirstInChain = true := by simp [member.isFirst]
  obtain ⟨found, released', pushed', deques, indexed, foundEntry, releaseEq', _, indexedEq,
    rfl⟩ := Strategy.bookkeeping_eq_ok result
  cases currentEntry.symm.trans foundEntry
  cases releaseEq.symm.trans releaseEq'
  rw [Strategy.releaseStage, if_pos ⟨isFirst, member.schedType⟩] at releaseEq
  obtain ⟨release, slot, next, own, _, slotEq, _, ownEq, sharedEq, rfl⟩ :=
    Strategy.releaseNext_eq_ok releaseEq
  obtain ⟨slot', slotEq', counted⟩ :=
    PriorityExecutable.indexStage_eq_ok (by exact member.schedType) indexedEq
  have advanced : executable.nextIndex = .ok slot := slotEq
  cases Except.ok.inj (slotEq'.symm.trans advanced)
  have slotIs : slot = (previous.curIndex + 1) % shared.owner.size := by
    rw [member.nextIndex advanced, sameIndex]
  have entryAfter : ({ current.assign shared.timer indexed.countStage with deques } :
      Strategy).priorityMap shared.timer = some indexed.countStage :=
    current.assign_self _ _
  have releaseIs : next = label.release := by
    simpa [Strategy.releaseTimeOf, entryAfter, counted] using recorded
  -- the two pushes of the release stage, one after the other
  rw [show executable.deadlines = some shared.owner.vector from member.deadlines] at ownEq
  obtain ⟨toOwner, ownFrame⟩ := appends_of_pushBack ownEq
  obtain ⟨toDriven, drivenFrame⟩ := appends_of_pushBack
    ((setUp.shareDeadline_eq visits (by exact chainId) _ _ _).symm.trans sharedEq)
  rw [ownFrame _ shared.ownVector.symm] at toDriven
  rw [← drivenFrame _ shared.ownVector] at toOwner
  have ownerIs := ownerAppends.unique toOwner
  have drivenIs := drivenAppends.unique toDriven
  refine ⟨_, entryAfter, by rw [counted, slotIs], ?_, drivenIs.trans ownerIs.symm⟩
  rw [ownerIs, counted, releaseIs, member.deadline]

/-- The dispatches of a run so far. -/
def Counted (shared : SharedTimer) (strategy : Strategy) (number : Nat) : Prop :=
  ∃ executable, strategy.priorityMap shared.timer = some executable ∧
    executable.curIndex = number % shared.owner.size

/-- Every dispatch of a run pushes the same value to the same slot of both chains: the
owner's deadline, to the owner's deque of its number. -/
theorem copied_of_run {start stop : Strategy} {labels : List Release}
    (fresh : shared.Counted start 0)
    (run : Steps shared.TimerDispatch start labels stop) :
    shared.Counted stop labels.length ∧
      ∀ (number : Nat) (label : Release), labels[number]? = some label →
        label.Copied shared (number + 1) := by
  induction run with
  | nil => exact ⟨fresh, by simp⟩
  | @snoc middle stop labels label earlier last ih =>
      obtain ⟨⟨previous, entry, curIndex⟩, copied⟩ := ih
      obtain ⟨next, entryAfter, nextIndex, ownerIs, drivenIs⟩ := last.pushes entry
      rw [curIndex, Nat.mod_add_mod] at nextIndex
      refine ⟨⟨next, entryAfter, by rw [nextIndex, List.length_append]; rfl⟩, ?_⟩
      intro number found foundEq
      rw [List.getElem?_append] at foundEq
      split at foundEq
      next => exact copied number found foundEq
      next late =>
        obtain ⟨single, rfl⟩ := List.getElem?_eq_some_iff.mp foundEq
        have isLast : number = labels.length := by
          rw [List.length_singleton] at single
          omega
        subst isLast
        simp only [Nat.sub_self, List.getElem_cons_zero]
        exact ⟨by rw [ownerIs, nextIndex], drivenIs⟩

/-! ## Which deadlines chain 1 gets -/

theorem size_eq_of_deadline_eq (shared : SharedTimer)
    (same : shared.owner.deadline = shared.driven.deadline) :
    shared.owner.size = shared.driven.size := by
  rw [Chain.size, Chain.size, same, shared.samePeriod]

/-- A copied push is the right one for chain 1 exactly when the relative deadlines are
equal, which determine the number of deques as well, and no deadline is cut to a `uint`. -/
theorem Release.Copied.correct_iff {label : Release} {number : Nat}
    (copied : label.Copied shared number) :
    label.Correct shared number ↔
      shared.owner.deadline = shared.driven.deadline ∧ label.Fits shared := by
  obtain ⟨ownerIs, drivenIs⟩ := copied
  constructor
  · rintro ⟨⟨_, ownerValue⟩, ⟨_, drivenValue⟩⟩
    rw [drivenIs] at drivenValue
    have same : shared.owner.deadline = shared.driven.deadline := by omega
    rw [ownerIs] at ownerValue
    have stored : (toUint (label.release + shared.owner.deadline) : Int) =
        label.release + shared.owner.deadline := ownerValue
    unfold toUint at stored
    exact ⟨same, by omega, by omega⟩
  · rintro ⟨same, nonneg, upper⟩
    have stored := toUint_of_range nonneg upper
    rw [Release.Correct, drivenIs, ownerIs]
    refine ⟨⟨rfl, stored⟩, ?_, ?_⟩
    · rw [shared.size_eq_of_deadline_eq same]
    · rw [← same]
      exact stored

/-- What other dispatches and rounds may have made of a state before the next dispatch of
the timer. -/
def Offers (shared : SharedTimer) (strategy current : Strategy) (input : DispatchInput) :
    Prop :=
  shared.SetUp current ∧ Visits input current ∧
    ∃ flag, current.priorityMap shared.timer = (strategy.priorityMap shared.timer).map
      fun executable => { executable with canBeRun := flag }

/-- The state has a further dispatch that names a deque past the end of a vector. -/
def IndexFault (shared : SharedTimer) (strategy : Strategy) : Prop :=
  ∃ current input, shared.Offers strategy current input ∧
    current.bookkeeping input shared.timer = .error .indexOutOfRange

/-- Every further dispatch returns that comes near enough to the recorded release to count
the periods. -/
def Continues (shared : SharedTimer) (strategy : Strategy) : Prop :=
  ∀ current input release, shared.Offers strategy current input →
    current.releaseTimeOf shared.timer = some release →
    |input.millis - release| < 2 ^ 53 →
    |input.millis - release| ≤ (2 ^ 31 - 1) * shared.owner.period →
    ∃ after, current.bookkeeping input shared.timer = .ok after

/-- With equal relative deadlines both vectors have the slot that is pushed to, and the
update fails at the release time only. -/
theorem SetUp.releaseNext_fault {strategy : Strategy} {input : DispatchInput}
    {executable : PriorityExecutable} {fault : Fault} (setUp : shared.SetUp strategy)
    (visits : Visits input strategy) (member : shared.owner.Member 0 executable)
    (chainId : executable.chainId = 0)
    (same : shared.owner.deadline = shared.driven.deadline)
    (result : strategy.releaseNext input executable = .error fault) :
    executable.releaseTime = none ∧ fault = .nullPointer ∨
      ∃ release, executable.releaseTime = some release ∧
        executable.nextRelease input.millis release = .error fault := by
  unfold Strategy.releaseNext at result
  split at result
  next none =>
    cases result
    exact .inl ⟨none, rfl⟩
  next release releaseEq =>
    rcases Except.bind_eq_error.mp result with failed | ⟨slot, slotEq, result⟩
    · rw [member.nextIndex_eq] at failed
      cases failed
    rcases Except.bind_eq_error.mp result with failed | ⟨next, _, result⟩
    · exact .inr ⟨release, releaseEq, failed⟩
    have inBounds : slot < shared.owner.size := by
      rw [member.nextIndex slotEq]
      exact Nat.mod_lt _ shared.owner.size_pos
    have inOwner : slot < (strategy.deques shared.owner.vector).length := by
      rwa [setUp.ownerSize]
    have inDriven : slot < (strategy.deques shared.driven.vector).length := by
      rwa [setUp.drivenSize, ← shared.size_eq_of_deadline_eq same]
    rcases Except.bind_eq_error.mp result with failed | ⟨own, ownEq, result⟩
    · simp [pushBack, member.deadlines, inOwner] at failed
    rcases Except.bind_eq_error.mp result with failed | ⟨_, _, impossible⟩
    · rw [member.deadlines] at ownEq
      obtain ⟨_, ownFrame⟩ := appends_of_pushBack ownEq
      rw [setUp.shareDeadline_eq visits chainId] at failed
      simp [pushBack, ownFrame _ shared.ownVector.symm, inDriven] at failed
    · cases impossible

/-- With equal relative deadlines a dispatch fails at the release time only. -/
theorem Counted.bookkeeping_fault {strategy current : Strategy} {number : Nat}
    {input : DispatchInput} {fault : Fault} (counted : shared.Counted strategy number)
    (offers : shared.Offers strategy current input)
    (same : shared.owner.deadline = shared.driven.deadline)
    (result : current.bookkeeping input shared.timer = .error fault) :
    ∃ executable, current.priorityMap shared.timer = some executable ∧
      executable.period = shared.owner.period ∧
      (executable.releaseTime = none ∧ fault = .nullPointer ∨
        ∃ release, executable.releaseTime = some release ∧
          executable.nextRelease input.millis release = .error fault) := by
  obtain ⟨setUp, visits, flag, sameEntry⟩ := offers
  obtain ⟨previous, entry, curIndex⟩ := counted
  obtain ⟨executable, currentEntry, member, chainId⟩ := setUp.timerEntry
  rw [entry, Option.map_some] at sameEntry
  have sameIndex : executable.curIndex = previous.curIndex := by
    cases currentEntry.symm.trans sameEntry
    rfl
  have inBounds : executable.curIndex < shared.owner.size := by
    rw [sameIndex, curIndex]
    exact Nat.mod_lt _ shared.owner.size_pos
  have failed := member.bookkeeping_fault currentEntry setUp.ownerSize inBounds result
  rw [Strategy.releaseStage, if_pos ⟨by simp [member.isFirst], member.schedType⟩] at failed
  have atRelease := setUp.releaseNext_fault visits member.counted chainId same failed
  exact ⟨executable, currentEntry, member.period, atRelease⟩

/-- With equal relative deadlines no dispatch names a deque that does not exist. -/
theorem Counted.not_indexFault {strategy : Strategy} {number : Nat}
    (counted : shared.Counted strategy number)
    (same : shared.owner.deadline = shared.driven.deadline) :
    ¬ shared.IndexFault strategy := by
  rintro ⟨current, input, offers, result⟩
  obtain ⟨_, _, _, ⟨_, impossible⟩ | ⟨_, _, failed⟩⟩ :=
    counted.bookkeeping_fault offers same result
  · cases impossible
  · cases PriorityExecutable.nextRelease_eq_error failed

theorem Counted.continues {strategy : Strategy} {number : Nat}
    (counted : shared.Counted strategy number)
    (same : shared.owner.deadline = shared.driven.deadline) : shared.Continues strategy := by
  intro current input release offers recorded near spans
  cases result : current.bookkeeping input shared.timer with
  | ok after => exact ⟨after, rfl⟩
  | error fault =>
      obtain ⟨executable, entry, periodEq, failed⟩ :=
        counted.bookkeeping_fault offers same result
      have releaseTime : executable.releaseTime = some release := by
        simpa [Strategy.releaseTimeOf, entry] using recorded
      have positive : 0 < executable.period := by
        rw [periodEq]
        exact shared.owner.period_pos
      rw [← periodEq] at spans
      rcases failed with ⟨none, _⟩ | ⟨found, foundEq, failed⟩
      · rw [none] at releaseTime
        cases releaseTime
      · cases releaseTime.symm.trans foundEq
        rw [PriorityExecutable.nextRelease_eq positive near spans] at failed
        cases failed

/-! Chains of period 10 on which the result is tried: chain 0 with deadline 20, handle 0
and vector 0, and chain 1 with handle 1 and vector 1. -/

def sample (deadline : Int) (positive : 1 ≤ deadline) (fits : deadline < 2 ^ 31) :
    SharedTimer where
  owner := (sampleSystem 1).chain ()
  driven := { (sampleSystem 0).chain () with
    executables := fun stage => stage + 1
    vector := 1
    deadline
    deadline_pos := positive
    deadline_fits := fits }
  samePeriod := rfl
  ownVector := Nat.zero_ne_one

/-- Both chains are set up, and the timer has been dispatched before. -/
def sampleSetUp (deadline : Int) (count : Nat := 0) (release : Int := 0) : Strategy where
  isF1tenth := true
  priorityMap handle :=
    if handle = 0 then
      some { PriorityExecutable.ofDeadline 10 20 .timer .deadline with
        isFirstInChain := true, deadlines := some 0, releaseTime := some release
        curIndex := count % 2, counter := count, sum := count }
    else if handle = 1 then
      some { PriorityExecutable.ofDeadline 10 deadline .subscription .deadline with
        isLastInChain := true, deadlines := some 1, chainId := 1 }
    else none
  deques vector :=
    if vector = 0 then [[20], []]
    else [toUint deadline] ::
      List.replicate ((IntDiv.ceilDiv deadline 10).toNat - 1) []

theorem sampleSetUp_setUp (deadline : Int) (positive : 1 ≤ deadline)
    (fits : deadline < 2 ^ 31) (count : Nat := 0) (release : Int := 0) :
    (sample deadline positive fits).SetUp (sampleSetUp deadline count release) where
  isF1tenth := rfl
  timerEntry := ⟨_, rfl, ⟨rfl, rfl, rfl, rfl, rfl, rfl⟩, rfl⟩
  driven := ⟨1, _, rfl, rfl⟩
  drivenVector := by
    intro handle executable entry isDriven
    simp only [sampleSetUp] at entry
    split_ifs at entry
    · cases entry
      cases isDriven
    · cases entry
      rfl
  ownerSize := rfl
  drivenSize := by
    have sizePos := (sample deadline positive fits).driven.size_pos
    have sizeEq : (sample deadline positive fits).driven.size =
        (IntDiv.ceilDiv deadline 10).toNat := rfl
    rw [sizeEq] at sizePos ⊢
    change (_ :: List.replicate _ _).length = _
    rw [List.length_cons, List.length_replicate]
    omega

theorem sampleSetUp_visits (deadline : Int) (count : Nat := 0) (release : Int := 0) :
    Visits { millis := release, mapOrder := [0, 1] } (sampleSetUp deadline count release) := by
  intro handle registered
  simp only [sampleSetUp] at registered
  split_ifs at registered with isTimer isDriven
  · simp [isTimer]
  · simp [isDriven]
  · cases registered

/-- Over any run of at least one dispatch of the timer, both chains got their own
deadlines in their own deques, no deque index left a vector, and every further dispatch
near enough to the release returns, if and only if the two relative deadlines are equal and
the deadline of every release fits a `uint`. -/
theorem correct_pushes_iff {start stop : Strategy} {labels : List Release}
    (fresh : shared.Counted start 0)
    (run : Steps shared.TimerDispatch start labels stop) (some' : labels ≠ []) :
    ((∀ (number : Nat) (label : Release), labels[number]? = some label →
        label.Correct shared (number + 1)) ∧
      ¬ shared.IndexFault stop ∧ shared.Continues stop) ↔
      shared.owner.deadline = shared.driven.deadline ∧
        ∀ label ∈ labels, label.Fits shared := by
  obtain ⟨counted, copied⟩ := copied_of_run fresh run
  constructor
  · rintro ⟨correct, _⟩
    obtain ⟨first, rest, rfl⟩ := List.exists_cons_of_ne_nil some'
    refine ⟨((copied 0 first rfl).correct_iff.mp (correct 0 first rfl)).1, ?_⟩
    intro label member
    obtain ⟨number, found⟩ := List.mem_iff_getElem?.mp member
    exact ((copied number label found).correct_iff.mp (correct number label found)).2
  · rintro ⟨same, fits⟩
    refine ⟨?_, counted.not_indexFault same, counted.continues same⟩
    intro number label found
    exact (copied number label found).correct_iff.mpr
      ⟨same, fits label (List.mem_of_getElem? found)⟩

/-- With deadline 20 for both chains two dispatches are correct. -/
theorem correct_pushes_iff_equal :
    ∃ stop, Steps (sample 20 (by decide) (by decide)).TimerDispatch (sampleSetUp 20)
        [⟨10, ⟨1, 30⟩, ⟨1, 30⟩⟩, ⟨20, ⟨0, 40⟩, ⟨0, 40⟩⟩] stop ∧
      Release.Correct (sample 20 (by decide) (by decide)) ⟨20, ⟨0, 40⟩, ⟨0, 40⟩⟩ 2 ∧
      (sample 20 (by decide) (by decide)).Continues stop := by
  have run : ∃ stop, Steps (sample 20 (by decide) (by decide)).TimerDispatch
      (sampleSetUp 20) [⟨10, ⟨1, 30⟩, ⟨1, 30⟩⟩, ⟨20, ⟨0, 40⟩, ⟨0, 40⟩⟩] stop :=
    ⟨_, .snoc
      (.singleton ⟨_, _, _, _, _, sampleSetUp_setUp 20 _ _, sampleSetUp_visits 20,
        ⟨true, rfl⟩, rfl, rfl, rfl, rfl, ⟨by decide, rfl⟩, ⟨by decide, rfl⟩⟩)
      ⟨_, _, _, _, _, sampleSetUp_setUp 20 _ _ 1 10, sampleSetUp_visits 20 1 10,
        ⟨true, rfl⟩, rfl, rfl, rfl, rfl, ⟨by decide, rfl⟩, ⟨by decide, rfl⟩⟩⟩
  obtain ⟨stop, run⟩ := run
  have fits : ∀ label ∈ [Release.mk 10 ⟨1, 30⟩ ⟨1, 30⟩, ⟨20, ⟨0, 40⟩, ⟨0, 40⟩⟩],
      label.Fits (sample 20 (by decide) (by decide)) := by
    intro label member
    rcases List.mem_pair.mp member with rfl | rfl
    · exact ⟨by decide, by decide⟩
    · exact ⟨by decide, by decide⟩
  have correct := (correct_pushes_iff ⟨_, rfl, rfl⟩ run (List.cons_ne_nil _ _)).mpr ⟨rfl, fits⟩
  exact ⟨stop, run, correct.1 1 _ rfl, correct.2.2⟩

/-- With deadline 40 for chain 1 its first deadline should be 50, and it gets the 30 of
chain 0. -/
theorem driven_gets_owner_deadline :
    (sample 40 (by decide) (by decide)).SetUp (sampleSetUp 40) ∧
      (sample 40 (by decide) (by decide)).Counted (sampleSetUp 40) 0 ∧
      (∃ stop, Steps (sample 40 (by decide) (by decide)).TimerDispatch (sampleSetUp 40)
        [⟨10, ⟨1, 30⟩, ⟨1, 30⟩⟩] stop) ∧
      ¬ Release.Correct (sample 40 (by decide) (by decide)) ⟨10, ⟨1, 30⟩, ⟨1, 30⟩⟩ 1 := by
  refine ⟨sampleSetUp_setUp 40 _ _, ⟨_, rfl, rfl⟩, ?_, ?_⟩
  · exact ⟨_, .singleton ⟨_, _, _, _, _, sampleSetUp_setUp 40 _ _, sampleSetUp_visits 40,
      ⟨true, rfl⟩, rfl, rfl, rfl, rfl, ⟨by decide, rfl⟩, ⟨by decide, rfl⟩⟩⟩
  · rintro ⟨_, _, drivenValue⟩
    cases drivenValue

end SharedTimer

end PriorityExecutor
