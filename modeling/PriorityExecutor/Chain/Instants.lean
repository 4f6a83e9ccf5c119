import PriorityExecutor.Strategy.Bookkeeping
import PriorityExecutor.Strategy.Comparator

/-!
# Stored deadlines and the instants they stand for

An instant is computed from a 64-bit clock, passes through an `int` parameter when a
release time is assigned, and ends as a 32-bit `uint` in a deque.

The abstract scheduler below keeps the instants themselves: its deques hold integers, a
missing deadline is no value at all, and nothing is converted.  The strategy simulates
it with the stored values.  As long as the instants fit the two narrow types, the stored
deadlines are ordered as the instants are, and the comparator gives the same answers.
-/

namespace PriorityExecutor

/-! ## The two conversions -/

/-- The stored values of two instants compare as the instants do, and neither is the
value that stands for no deadline. -/
structure SameOrder (left right : Int) : Prop where
  lt_iff : toUint left < toUint right ↔ left < right
  eq_iff : toUint left = toUint right ↔ left = right
  leftPresent : toUint left ≠ 0
  rightPresent : toUint right ≠ 0

/-- An instant that a deque can store and tell from no deadline. -/
def Storable (instant : Int) : Prop := 0 < instant ∧ instant < 2 ^ 32

theorem Storable.sameOrder {left right : Int} (leftStorable : Storable left)
    (rightStorable : Storable right) : SameOrder left right := by
  obtain ⟨leftPos, leftLt⟩ := leftStorable
  obtain ⟨rightPos, rightLt⟩ := rightStorable
  have leftEq := toUint_of_range leftPos.le leftLt
  have rightEq := toUint_of_range rightPos.le rightLt
  constructor <;> omega

/-- All instants up to a horizon are ordered as stored if and only if the horizon comes
before the wrap of the stored values. -/
theorem sameOrder_iff_horizon {horizon : Int} (horizonPos : 0 < horizon) :
    (∀ left right, 0 < left → left ≤ horizon → 0 < right → right ≤ horizon →
      SameOrder left right) ↔ horizon < 2 ^ 32 := by
  constructor
  · intro ordered
    by_contra late
    have atWrap := ordered (2 ^ 32) (2 ^ 32) (by omega) (by omega) (by omega) (by omega)
    exact atWrap.leftPresent (by decide)
  · intro early left right leftPos leftLe rightPos rightLe
    exact Storable.sameOrder ⟨leftPos, by omega⟩ ⟨rightPos, by omega⟩

/-- An instant that the `int` parameter of `assign_release_time` can hold. -/
def Assignable (instant : Int) : Prop := -2 ^ 31 ≤ instant ∧ instant < 2 ^ 31

theorem toInt32_eq_iff {instant : Int} :
    toInt32 instant = instant ↔ Assignable instant := by
  unfold toInt32 Assignable
  omega

namespace Strategy

/-- `assign_release_time` records the instant that it is given if and only if this fits
its parameter. -/
theorem assignReleaseTime_recorded {strategy after : Strategy} {handle : Handle}
    {instant recorded : Int} (result : strategy.assignReleaseTime handle instant = .ok after)
    (recordedEq : after.releaseTimeOf handle = some recorded) :
    recorded = toInt32 instant := by
  unfold assignReleaseTime modifySettings at result
  split at result
  next => cases result
  next =>
    cases result
    simpa [releaseTimeOf, eq_comm] using recordedEq

end Strategy

/-! ## The abstract scheduler -/

/-- The deques with instants in the place of stored values. -/
abbrev Instants := DequesPtr → List (List Int)

/-- The stored values of the instants, position by position. -/
def Instants.stored (instants : Instants) : Deques :=
  fun vector => (instants vector).map (List.map toUint)

/-- An access to one deque of a vector. -/
def updateDeque {α : Type} (deques : DequesPtr → List (List α))
    (deadlines : Option DequesPtr) (index : Nat) (update : List α → List α) :
    Except Fault (DequesPtr → List (List α)) :=
  match deadlines with
  | none => .error .nullPointer
  | some vector =>
      if index < (deques vector).length then
        .ok (Function.update deques vector ((deques vector).modify index update))
      else
        .error .indexOutOfRange

/-- The instant that the front of the current deque stands for. -/
def PriorityExecutable.currentInstant (instants : Instants)
    (executable : PriorityExecutable) : Option Int :=
  match executable.deadlines with
  | none => none
  | some vector => ((instants vector).getD executable.curIndex []).head?

/-- The comparator on instants: a missing deadline is last, an earlier instant is
first, and the counter decides between equal ones. -/
def instantComparator (instants : Instants) (left right : PriorityExecutable) : Bool :=
  if left.schedType = .deadline ∧ right.schedType = .deadline then
    match left.currentInstant instants, right.currentInstant instants with
    | none, _ => true
    | some _, none => false
    | some leftInstant, some rightInstant =>
        if leftInstant = rightInstant then decide (left.counter > right.counter)
        else decide (leftInstant > rightInstant)
  else
    comparator (fun _ => []) left right

namespace Strategy

/-- `shareDeadline` with an instant. -/
def shareInstant (strategy : Strategy) (input : DispatchInput)
    (executable : PriorityExecutable) (instants : Instants) (index : Nat)
    (instant : Int) : Except Fault Instants :=
  if strategy.isF1tenth ∧ executable.chainId = 0 then
    match (input.mapOrder.filterMap strategy.priorityMap).find?
        fun entry => entry.chainId = 1 with
    | none => .ok instants
    | some entry => updateDeque instants entry.deadlines index fun queue => queue ++ [instant]
  else
    .ok instants

/-- The instant of the next deadline: the next release and the relative deadline. -/
def nextInstant (input : DispatchInput) (executable : PriorityExecutable) :
    Except Fault Int :=
  match executable.releaseTime with
  | none => .error .nullPointer
  | some release => do
      let next ← executable.nextRelease input.millis release
      .ok (next + executable.deadline)

/-- `releaseStage` with the instant that it pushes, if it pushes one. -/
def releaseInstants (strategy : Strategy) (input : DispatchInput)
    (executable : PriorityExecutable) (instants : Instants) :
    Except Fault (Option Int × Instants) :=
  if executable.isFirstInChain ∧ executable.schedType = .deadline then do
    let index ← executable.nextIndex
    let instant ← nextInstant input executable
    let instants ← updateDeque instants executable.deadlines index
      fun queue => queue ++ [instant]
    let instants ← strategy.shareInstant input executable instants index instant
    .ok (some instant, instants)
  else
    .ok (none, instants)

/-- `finishStage` on instants. -/
def finishInstants (executable : PriorityExecutable) (instants : Instants) :
    Except Fault Instants :=
  if executable.isLastInChain ∧ executable.schedType = .deadline then
    updateDeque instants executable.deadlines executable.curIndex List.tail
  else
    .ok instants

/-- The deques after a dispatch, with the instant that it pushes. -/
def dispatchInstants (strategy : Strategy) (input : DispatchInput) (handle : Handle)
    (instants : Instants) : Except Fault (Option Int × Instants) :=
  match strategy.getPrioritySettings handle with
  | none => .error .nullPointer
  | some executable => do
      let (pushed, instants) ← strategy.releaseInstants input executable instants
      let instants ← finishInstants executable instants
      .ok (pushed, instants)

end Strategy

/-! ## The strategy simulates it -/

theorem pushBack_eq_updateDeque (deques : Deques) (deadlines : Option DequesPtr)
    (index value : Nat) :
    pushBack deques deadlines index value =
      updateDeque deques deadlines index fun queue => queue ++ [value] := by
  cases deadlines <;> rfl

theorem popFront_eq_updateDeque (deques : Deques) (deadlines : Option DequesPtr)
    (index : Nat) :
    popFront deques deadlines index = updateDeque deques deadlines index List.tail := by
  cases deadlines <;> rfl

theorem modify_map_of_agree {α β : Type} {convert : α → β} {update : α → α}
    {convertedUpdate : β → β}
    (agree : ∀ value, convertedUpdate (convert value) = convert (update value))
    (values : List α) (index : Nat) :
    (values.map convert).modify index convertedUpdate =
      (values.modify index update).map convert := by
  apply List.ext_getElem?
  intro position
  rw [List.getElem?_modify, List.getElem?_map, List.getElem?_map, List.getElem?_modify]
  cases values[position]? with
  | none => rfl
  | some value =>
      by_cases same : index = position
      · simp [same, agree]
      · simp [same]

/-- An access to the stored values is the same access to the instants. -/
theorem updateDeque_stored {instants : Instants} {after : Deques}
    {deadlines : Option DequesPtr} {index : Nat} {update : List Int → List Int}
    {storedUpdate : List Nat → List Nat}
    (agree : ∀ queue, storedUpdate (queue.map toUint) = (update queue).map toUint)
    (result : updateDeque instants.stored deadlines index storedUpdate = .ok after) :
    ∃ instants' : Instants,
      updateDeque instants deadlines index update = .ok instants' ∧
        after = instants'.stored := by
  cases deadlines with
  | none => cases result
  | some vector =>
      simp only [updateDeque, Instants.stored, List.length_map] at result ⊢
      split at result
      next inBounds =>
        cases result
        refine ⟨_, if_pos inBounds, ?_⟩
        funext other
        by_cases same : other = vector
        · subst same
          rw [Instants.stored, Function.update_self, Function.update_self]
          exact modify_map_of_agree agree _ _
        · rw [Instants.stored, Function.update_of_ne same, Function.update_of_ne same]
          rfl
      next => cases result

namespace Strategy

theorem pushBack_stored {instants : Instants} {after : Deques}
    {deadlines : Option DequesPtr} {index : Nat} {instant : Int}
    (result : pushBack instants.stored deadlines index (toUint instant) = .ok after) :
    ∃ instants' : Instants,
      updateDeque instants deadlines index (fun queue => queue ++ [instant]) =
          .ok instants' ∧
        after = instants'.stored := by
  rw [pushBack_eq_updateDeque] at result
  exact updateDeque_stored (fun queue => by simp) result

theorem shareDeadline_stored {strategy : Strategy} {input : DispatchInput}
    {executable : PriorityExecutable} {instants : Instants} {after : Deques} {index : Nat}
    {instant : Int}
    (result : strategy.shareDeadline input executable instants.stored index
      (toUint instant) = .ok after) :
    ∃ instants' : Instants,
      strategy.shareInstant input executable instants index instant = .ok instants' ∧
        after = instants'.stored := by
  unfold shareDeadline at result
  unfold shareInstant
  split at result
  next shared =>
    rw [if_pos shared]
    cases found : (input.mapOrder.filterMap strategy.priorityMap).find?
        fun entry => entry.chainId = 1 with
    | none =>
        rw [found] at result
        cases result
        exact ⟨instants, rfl, rfl⟩
    | some entry =>
        rw [found] at result
        exact pushBack_stored result
  next alone =>
    cases result
    rw [if_neg alone]
    exact ⟨instants, rfl, rfl⟩

theorem releaseNext_stored {strategy : Strategy} {input : DispatchInput}
    {executable released : PriorityExecutable} {instants : Instants} {after : Deques}
    (same : strategy.deques = instants.stored)
    (result : strategy.releaseNext input executable = .ok (released, after)) :
    ∃ index instant, ∃ owned shared : Instants,
      executable.nextIndex = .ok index ∧ nextInstant input executable = .ok instant ∧
      updateDeque instants executable.deadlines index (fun queue => queue ++ [instant]) =
        .ok owned ∧
      strategy.shareInstant input executable owned index instant = .ok shared ∧
      after = shared.stored := by
  obtain ⟨release, index, next, pushed, releaseEq, indexEq, nextEq, pushedEq, sharedEq, _⟩ :=
    releaseNext_eq_ok result
  rw [same] at pushedEq
  obtain ⟨owned, ownedEq, rfl⟩ := pushBack_stored pushedEq
  obtain ⟨shared, sharedIs, rfl⟩ := shareDeadline_stored sharedEq
  refine ⟨index, _, owned, shared, indexEq, ?_, ownedEq, sharedIs, rfl⟩
  rw [nextInstant, releaseEq]
  exact Except.bind_eq_ok.mpr ⟨next, nextEq, rfl⟩

theorem releaseStage_stored {strategy : Strategy} {input : DispatchInput}
    {executable released : PriorityExecutable} {instants : Instants} {after : Deques}
    (same : strategy.deques = instants.stored)
    (result : strategy.releaseStage input { executable with sum := executable.sum + 1 } =
      .ok (released, after)) :
    ∃ pushed, ∃ instants' : Instants,
      strategy.releaseInstants input executable instants = .ok (pushed, instants') ∧
        after = instants'.stored ∧
        ∃ sum releaseTime, released = { executable with sum, releaseTime } := by
  unfold releaseStage at result
  unfold releaseInstants
  split at result
  next first =>
    obtain ⟨index, instant, owned, shared, indexEq, instantEq, ownedEq, sharedEq, rfl⟩ :=
      releaseNext_stored same result
    obtain ⟨_, _, _, _, _, _, _, _, _, rfl⟩ := releaseNext_eq_ok result
    refine ⟨some instant, shared, ?_, rfl, _, _, rfl⟩
    rw [if_pos (by exact first)]
    exact Except.bind_eq_ok.mpr ⟨index, indexEq, Except.bind_eq_ok.mpr ⟨instant, instantEq,
      Except.bind_eq_ok.mpr ⟨owned, ownedEq, Except.bind_eq_ok.mpr ⟨shared, sharedEq,
        rfl⟩⟩⟩⟩
  next later =>
    cases result
    exact ⟨none, instants, if_neg (by exact later), same, _, _, rfl⟩

theorem finishStage_stored {executable : PriorityExecutable} {instants : Instants}
    {after : Deques} (result : executable.finishStage instants.stored = .ok after) :
    ∃ instants' : Instants,
      finishInstants executable instants = .ok instants' ∧ after = instants'.stored := by
  unfold PriorityExecutable.finishStage at result
  unfold finishInstants
  split at result
  next last =>
    rw [popFront_eq_updateDeque] at result
    rw [if_pos last]
    exact updateDeque_stored (fun queue => by cases queue <;> rfl) result
  next notLast =>
    cases result
    exact ⟨instants, if_neg notLast, rfl⟩

/-- A dispatch of the strategy is a dispatch of the abstract scheduler. -/
theorem bookkeeping_simulates {strategy after : Strategy} {input : DispatchInput}
    {handle : Handle} {instants : Instants} (same : strategy.deques = instants.stored)
    (result : strategy.bookkeeping input handle = .ok after) :
    ∃ pushed, ∃ instants' : Instants,
      strategy.dispatchInstants input handle instants = .ok (pushed, instants') ∧
        after.deques = instants'.stored := by
  obtain ⟨executable, released, released', deques, indexed, entry, releasedEq, finishEq, _,
    rfl⟩ := bookkeeping_eq_ok result
  obtain ⟨pushed, middle, middleEq, rfl, _, _, rfl⟩ := releaseStage_stored same releasedEq
  obtain ⟨instants', finishIs, rfl⟩ := finishStage_stored finishEq
  refine ⟨pushed, instants', ?_, rfl⟩
  rw [dispatchInstants, getPrioritySettings, entry]
  refine Except.bind_eq_ok.mpr ⟨(pushed, middle), middleEq, ?_⟩
  exact Except.bind_eq_ok.mpr ⟨instants', finishIs, rfl⟩

end Strategy

/-! ## The comparator on stored values -/

/-- Every instant in a deque can be stored. -/
def Instants.AllStorable (instants : Instants) : Prop :=
  ∀ vector, ∀ queue ∈ instants vector, ∀ instant ∈ queue, Storable instant

namespace PriorityExecutable

theorem currentDeadline_stored (instants : Instants) (executable : PriorityExecutable) :
    executable.currentDeadline instants.stored =
      ((executable.currentInstant instants).map toUint).getD 0 := by
  unfold currentDeadline currentQueue currentInstant
  cases executable.deadlines with
  | none => rfl
  | some vector =>
      simp only [Instants.stored, List.getD_eq_getElem?_getD, List.getElem?_map]
      cases (instants vector)[executable.curIndex]? with
      | none => rfl
      | some queue => simp

theorem currentInstant_storable {instants : Instants} (storable : instants.AllStorable)
    {executable : PriorityExecutable} {instant : Int}
    (current : executable.currentInstant instants = some instant) : Storable instant := by
  unfold currentInstant at current
  split at current
  next => cases current
  next vector _ =>
    rw [List.getD_eq_getElem?_getD] at current
    cases found : (instants vector)[executable.curIndex]? with
    | none =>
        rw [found] at current
        cases current
    | some queue =>
        rw [found] at current
        exact storable vector queue (List.mem_of_getElem? found) instant
          (List.mem_of_head? current)

end PriorityExecutable

/-- Outside the `DEADLINE` class the comparator reads no deque. -/
theorem comparator_of_not_deadline {left right : PriorityExecutable}
    (notBoth : ¬ (left.schedType = .deadline ∧ right.schedType = .deadline))
    (deques other : Deques) :
    comparator deques left right = comparator other left right := by
  unfold comparator
  split
  next => rfl
  next sameClass =>
    rw [not_not] at sameClass
    cases leftType : left.schedType with
    | chainIndependentPriority => rfl
    | chainAwarePriority => rfl
    | default => rfl
    | deadline => exact absurd ⟨leftType, sameClass ▸ leftType⟩ notBoth

/-- On storable instants the comparator answers as on the instants themselves. -/
theorem comparator_stored {instants : Instants} (storable : instants.AllStorable)
    (left right : PriorityExecutable) :
    comparator instants.stored left right = instantComparator instants left right := by
  unfold instantComparator
  split
  next both =>
    simp only [comparator, both.1, both.2, ne_eq, not_true_eq_false, ↓reduceIte,
      PriorityExecutable.currentDeadline_stored]
    cases leftEq : left.currentInstant instants with
    | none => rfl
    | some leftInstant =>
        have leftStorable := PriorityExecutable.currentInstant_storable storable leftEq
        cases rightEq : right.currentInstant instants with
        | none => simp [(leftStorable.sameOrder leftStorable).leftPresent]
        | some rightInstant =>
            have same := leftStorable.sameOrder
              (PriorityExecutable.currentInstant_storable storable rightEq)
            have opposite := (PriorityExecutable.currentInstant_storable storable
              rightEq).sameOrder leftStorable
            simp [same.leftPresent, same.rightPresent, same.eq_iff, opposite.lt_iff]
  next notBoth => exact comparator_of_not_deadline notBoth _ _

/-! ## Runs of registrations and dispatches -/

/-- A strategy and the instants that its deques stand for. -/
structure Tracked where
  strategy : Strategy
  instants : Instants

/-- What a step does with instants. -/
inductive InstantEvent where
  /-- `assign_release_time` is given an instant and records a release time. -/
  | assigned (instant recorded : Int)
  /-- The set-up pushes the first deadline of a chain. -/
  | pushed (instant : Int)
  /-- A dispatch, with the instant that it pushes if it pushes one. -/
  | dispatched (instant : Option Int)
  | other
  deriving DecidableEq, Repr

namespace InstantEvent

/-- The instants that the step pushes. -/
def pushes : InstantEvent → List Int
  | .pushed instant => [instant]
  | .dispatched instant => instant.toList
  | .assigned _ _ | .other => []

/-- The instants of the step fit the types that they are converted to. -/
def InRange : InstantEvent → Prop
  | .assigned instant _ => Assignable instant
  | .pushed instant => Storable instant
  | .dispatched instant => ∀ pushed ∈ instant, Storable pushed
  | .other => True

instance : DecidablePred InRange
  | .assigned instant _ => inferInstanceAs (Decidable (_ ≤ instant ∧ _))
  | .pushed instant => inferInstanceAs (Decidable (_ < instant ∧ _))
  | .dispatched none => isTrue nofun
  | .dispatched (some instant) =>
      decidable_of_iff (0 < instant ∧ instant < 2 ^ 32) (by simp [InRange, Storable])
  | .other => isTrue trivial

theorem InRange.storable {event : InstantEvent} (inRange : event.InRange) :
    ∀ instant ∈ event.pushes, Storable instant := by
  intro instant member
  cases event with
  | assigned => cases member
  | pushed own =>
      rw [pushes, List.mem_singleton] at member
      exact member ▸ inRange
  | dispatched own => exact inRange instant (Option.mem_toList.mp member)
  | other => cases member

end InstantEvent

/-- A step of the program.  The set-up pushes the deadline of the first release to deque
zero.  Everything else that keeps the deques is one kind of step: registrations, rounds,
and changes of the flags. -/
inductive InstantStep (before : Tracked) : InstantEvent → Tracked → Prop where
  | assign (handle : Handle) {instant recorded : Int} {strategy : Strategy} :
      before.strategy.assignReleaseTime handle instant = .ok strategy →
      strategy.releaseTimeOf handle = some recorded →
      InstantStep before (.assigned instant recorded) ⟨strategy, before.instants⟩
  | setUp (vector : DequesPtr) {instant : Int} {deques : Deques} {instants : Instants} :
      pushBack before.strategy.deques (some vector) 0 (toUint instant) = .ok deques →
      updateDeque before.instants (some vector) 0 (fun queue => queue ++ [instant]) =
        .ok instants →
      InstantStep before (.pushed instant) ⟨{ before.strategy with deques }, instants⟩
  | dispatch (handle : Handle) (input : DispatchInput) {strategy : Strategy}
      {pushed : Option Int} {instants : Instants} :
      before.strategy.bookkeeping input handle = .ok strategy →
      before.strategy.dispatchInstants input handle before.instants =
        .ok (pushed, instants) →
      InstantStep before (.dispatched pushed) ⟨strategy, instants⟩
  | other {strategy : Strategy} :
      strategy.deques = before.strategy.deques →
      InstantStep before .other ⟨strategy, before.instants⟩

/-- A step whose instants are in range. -/
def InRangeStep (before : Tracked) (event : InstantEvent) (after : Tracked) : Prop :=
  event.InRange ∧ InstantStep before event after

namespace Tracked

/-- The deques store the tracked instants, and all of them can be stored. -/
structure Represents (state : Tracked) : Prop where
  stored : state.strategy.deques = state.instants.stored
  storable : state.instants.AllStorable

/-- All deques are empty. -/
def Initial (state : Tracked) : Prop :=
  state.strategy.deques = state.instants.stored ∧
    ∀ vector, ∀ queue ∈ state.instants vector, queue = []

/-- The stored deadlines stand for the tracked instants, and the comparator answers as
if it compared these. -/
structure Accurate (state : Tracked) : Prop where
  stored : state.strategy.deques = state.instants.stored
  comparator_eq : ∀ left right,
    comparator state.strategy.deques left right =
      instantComparator state.instants left right

theorem Initial.represents {state : Tracked} (initial : state.Initial) :
    state.Represents := by
  refine ⟨initial.1, fun vector queue member instant inQueue => ?_⟩
  rw [initial.2 vector queue member] at inQueue
  cases inQueue

theorem Represents.accurate {state : Tracked} (represents : state.Represents) :
    state.Accurate := by
  refine ⟨represents.stored, fun left right => ?_⟩
  rw [represents.stored]
  exact comparator_stored represents.storable left right

end Tracked

/-- No dispatch of the strategy is left out. -/
theorem InstantStep.of_bookkeeping {before : Tracked} {handle : Handle}
    {input : DispatchInput} {strategy : Strategy}
    (stored : before.strategy.deques = before.instants.stored)
    (result : before.strategy.bookkeeping input handle = .ok strategy) :
    ∃ pushed instants, InstantStep before (.dispatched pushed) ⟨strategy, instants⟩ := by
  obtain ⟨pushed, instants, dispatched, _⟩ :=
    Strategy.bookkeeping_simulates stored result
  exact ⟨pushed, instants, .dispatch handle input result dispatched⟩

theorem updateDeque_allStorable {instants after : Instants}
    {deadlines : Option DequesPtr} {index : Nat} {update : List Int → List Int}
    (storable : instants.AllStorable)
    (keeps : ∀ queue, (∀ instant ∈ queue, Storable instant) →
      ∀ instant ∈ update queue, Storable instant)
    (result : updateDeque instants deadlines index update = .ok after) :
    after.AllStorable := by
  cases deadlines with
  | none => cases result
  | some target =>
      simp only [updateDeque] at result
      split at result
      next inBounds =>
        cases result
        intro vector queue member
        by_cases same : vector = target
        · subst same
          rw [Function.update_self] at member
          obtain ⟨position, _, positionEq⟩ := List.mem_iff_getElem.mp member
          rw [List.getElem_modify] at positionEq
          split at positionEq
          · rw [← positionEq]
            exact keeps _ (storable vector _ (List.getElem_mem _))
          · rw [← positionEq]
            exact storable vector _ (List.getElem_mem _)
        · rw [Function.update_of_ne same] at member
          exact storable vector queue member
      next => cases result

theorem push_allStorable {instants after : Instants} {deadlines : Option DequesPtr}
    {index : Nat} {instant : Int} (storable : instants.AllStorable)
    (instantStorable : Storable instant)
    (result : updateDeque instants deadlines index (fun queue => queue ++ [instant]) =
      .ok after) : after.AllStorable := by
  refine updateDeque_allStorable storable ?_ result
  intro queue all other member
  rcases List.mem_append.mp member with inQueue | isLast
  · exact all other inQueue
  · rw [List.mem_singleton] at isLast
    exact isLast ▸ instantStorable

namespace Strategy

theorem shareInstant_allStorable {strategy : Strategy} {input : DispatchInput}
    {executable : PriorityExecutable} {instants after : Instants} {index : Nat}
    {instant : Int} (storable : instants.AllStorable) (instantStorable : Storable instant)
    (result : strategy.shareInstant input executable instants index instant = .ok after) :
    after.AllStorable := by
  unfold shareInstant at result
  split at result
  · split at result
    · cases result
      exact storable
    · exact push_allStorable storable instantStorable result
  · cases result
    exact storable

theorem dispatchInstants_allStorable {strategy : Strategy} {input : DispatchInput}
    {handle : Handle} {instants after : Instants} {pushed : Option Int}
    (storable : instants.AllStorable) (pushedStorable : ∀ instant ∈ pushed, Storable instant)
    (result : strategy.dispatchInstants input handle instants = .ok (pushed, after)) :
    after.AllStorable := by
  unfold dispatchInstants at result
  split at result
  next => cases result
  next executable _ =>
    obtain ⟨⟨released, middle⟩, middleEq, result⟩ := Except.bind_eq_ok.mp result
    obtain ⟨finished, finishedEq, result⟩ := Except.bind_eq_ok.mp result
    cases result
    have middleStorable : middle.AllStorable := by
      unfold releaseInstants at middleEq
      split at middleEq
      · obtain ⟨index, _, middleEq⟩ := Except.bind_eq_ok.mp middleEq
        obtain ⟨instant, _, middleEq⟩ := Except.bind_eq_ok.mp middleEq
        obtain ⟨owned, ownedEq, middleEq⟩ := Except.bind_eq_ok.mp middleEq
        obtain ⟨shared, sharedEq, middleEq⟩ := Except.bind_eq_ok.mp middleEq
        cases middleEq
        have instantStorable := pushedStorable instant rfl
        exact shareInstant_allStorable (push_allStorable storable instantStorable ownedEq)
          instantStorable sharedEq
      · cases middleEq
        exact storable
    unfold finishInstants at finishedEq
    split at finishedEq
    · exact updateDeque_allStorable middleStorable
        (fun queue all instant member => all instant (List.mem_of_mem_tail member)) finishedEq
    · cases finishedEq
      exact middleStorable

end Strategy

/-- A step whose instants are in range keeps the representation. -/
theorem InRangeStep.represents {before after : Tracked} {event : InstantEvent}
    (represents : before.Represents) (step : InRangeStep before event after) :
    after.Represents := by
  obtain ⟨inRange, step⟩ := step
  cases step with
  | assign _ result _ =>
      refine ⟨?_, represents.storable⟩
      unfold Strategy.assignReleaseTime Strategy.modifySettings at result
      split at result
      next => cases result
      next =>
        cases result
        exact represents.stored
  | setUp _ pushed tracked =>
      rw [represents.stored] at pushed
      obtain ⟨instants, sameInstants, deques⟩ := Strategy.pushBack_stored pushed
      cases sameInstants.symm.trans tracked
      exact ⟨deques, push_allStorable represents.storable inRange tracked⟩
  | dispatch _ _ result dispatched =>
      obtain ⟨pushed, instants, sameInstants, deques⟩ :=
        Strategy.bookkeeping_simulates represents.stored result
      cases sameInstants.symm.trans dispatched
      exact ⟨deques,
        Strategy.dispatchInstants_allStorable represents.storable inRange dispatched⟩
  | other deques => exact ⟨deques.trans represents.stored, represents.storable⟩

/-- In every run whose assigned instants fit `int` and whose pushed instants are positive
and fit `uint`, every release time is recorded as it was assigned, the stored deadlines
are ordered as their instants, and the comparator answers as on the instants. -/
theorem instants_of_run {start stop : Tracked} {events : List InstantEvent}
    (initial : start.Initial) (run : Steps InRangeStep start events stop) :
    (∀ instant recorded, .assigned instant recorded ∈ events → recorded = instant) ∧
      (∀ left ∈ events.flatMap InstantEvent.pushes,
        ∀ right ∈ events.flatMap InstantEvent.pushes, SameOrder left right) ∧
      stop.Accurate := by
  have recorded : ∀ event ∈ events,
      ∀ instant recorded, event = .assigned instant recorded → recorded = instant := by
    refine run.forall_labels Tracked.Represents initial.represents
      (fun represents step => step.represents represents) ?_
    rintro before _ after _ ⟨inRange, step⟩ instant recorded rfl
    cases step with
    | assign _ result recordedEq =>
        rw [Strategy.assignReleaseTime_recorded result recordedEq]
        exact toInt32_eq_iff.mpr inRange
  have storable : ∀ event ∈ events, ∀ instant ∈ event.pushes, Storable instant :=
    run.forall_labels Tracked.Represents initial.represents
      (fun represents step => step.represents represents) fun _ step => step.1.storable
  refine ⟨fun instant own member => recorded _ member instant own rfl, ?_, ?_⟩
  · intro left inLeft right inRight
    obtain ⟨leftEvent, leftMember, leftPushed⟩ := List.mem_flatMap.mp inLeft
    obtain ⟨rightEvent, rightMember, rightPushed⟩ := List.mem_flatMap.mp inRight
    exact (storable leftEvent leftMember left leftPushed).sameOrder
      (storable rightEvent rightMember right rightPushed)
  · exact (run.invariant Tracked.Represents initial.represents
      fun represents step => step.represents represents).accurate

/-- A timer with a period and a relative deadline of ten milliseconds, and its deque. -/
def tenMillis : Tracked where
  strategy :=
    ({ deques := fun vector => if vector = 0 then [[]] else [] } : Strategy).assign 1
      { PriorityExecutable.ofDeadline 10 10 .timer .deadline with
        isFirstInChain := true
        isLastInChain := false
        deadlines := some 0 }
  instants := fun vector => if vector = 0 then [[]] else []

theorem tenMillis_initial : tenMillis.Initial := by
  constructor
  · funext vector
    simp only [tenMillis, Instants.stored, Strategy.assign_deques]
    split <;> rfl
  · intro vector queue member
    simp only [tenMillis] at member
    split at member
    · exact List.mem_singleton.mp member
    · cases member

/-- A release at 1000 ms and a dispatch at 1002 ms. -/
theorem tenMillis_accurate :
    ∃ stop : Tracked, stop.Accurate ∧ stop.strategy.deques 0 = [[1010, 1020]] := by
  obtain ⟨first, assigned, second, pushed, third, dispatched, deques⟩ :
      ∃ first, InstantStep tenMillis (.assigned 1000 1000) first ∧
      ∃ second, InstantStep first (.pushed 1010) second ∧
      ∃ third, InstantStep second (.dispatched (some 1020)) third ∧
        third.strategy.deques 0 = [[1010, 1020]] := by
    exact ⟨_, .assign 1 rfl rfl, _, .setUp 0 rfl rfl, _,
      .dispatch 1 { millis := 1002 } rfl rfl, rfl⟩
  have run : Steps InRangeStep tenMillis
      [.assigned 1000 1000, .pushed 1010, .dispatched (some 1020)] third :=
    .snoc (.snoc (.snoc .nil ⟨by decide, assigned⟩) ⟨by decide, pushed⟩)
      ⟨by decide, dispatched⟩
  exact ⟨third, (instants_of_run tenMillis_initial run).2.2, deques⟩

/-- After 2 ^ 31 milliseconds an assigned instant is recorded as a negative one.  Over
2 ^ 32 milliseconds a later deadline is stored as a smaller value. -/
theorem late_instants_not_ordered :
    (∃ stop, InstantStep tenMillis (.assigned (2 ^ 31) (-2 ^ 31)) stop) ∧
      ∃ stop : Tracked,
        Steps InstantStep tenMillis
          [.assigned 2147483640 2147483640, .dispatched (some 4294967290),
            .dispatched (some 4294967300)] stop ∧
        stop.strategy.deques 0 = [[4294967290, 4]] ∧
        ¬ SameOrder 4294967290 4294967300 := by
  refine ⟨⟨_, .assign 1 rfl rfl⟩, _, .snoc (.snoc (.snoc .nil (.assign 1 rfl rfl))
    (.dispatch 1 { millis := 4294967280 } rfl rfl))
      (.dispatch 1 { millis := 4294967290 } rfl rfl), rfl, ?_⟩
  intro same
  exact absurd (same.lt_iff.mpr (by decide)) (by decide)

end PriorityExecutor
