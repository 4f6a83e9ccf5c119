import PriorityExecutor.Strategy.Bookkeeping

/-!
# When a dispatch returns

The bookkeeping of a `DEADLINE` executable divides, follows pointers, names deques and
converts the number of periods since its release.  An executable is dispatchable in a state
if all of that is there, and its bookkeeping succeeds in exactly the states in which it is.

A dispatch changes no number of deques, so the conditions are about the state before it.
-/

namespace PriorityExecutor

/-- The vector is assigned and has a deque with this index. -/
def HasDeque (deques : Deques) (deadlines : Option DequesPtr) (index : Nat) : Prop :=
  ∃ vector, deadlines = some vector ∧ index < (deques vector).length

namespace PriorityExecutable

/-- The clock is less than a period from the release, or the periods between them can be
counted in an `int`. -/
def Countable (executable : PriorityExecutable) (millis release : Int) : Prop :=
  |millis - release| < executable.period ∨
    ∃ periods, ceilToInt |millis - release| executable.period = .ok periods

/-- What the update of a first executable reads: its release, its deque with the next index,
and with a shared timer the deque of chain 1 with the same index. -/
structure Releasable (strategy : Strategy) (input : DispatchInput) (index : Nat)
    (executable : PriorityExecutable) : Prop where
  release : ∃ release, executable.releaseTime = some release ∧
    executable.Countable input.millis release
  own : HasDeque strategy.deques executable.deadlines index
  shared : strategy.isF1tenth = true → executable.chainId = 0 → ∀ entry,
    (input.mapOrder.filterMap strategy.priorityMap).find?
      (fun entry => entry.chainId = 1) = some entry →
    HasDeque strategy.deques entry.deadlines index

/-- What a whole dispatch reads. -/
def Dispatchable (strategy : Strategy) (input : DispatchInput)
    (executable : PriorityExecutable) : Prop :=
  executable.schedType = .deadline → ∃ size, executable.maxChainNum = .ok size ∧ size ≠ 0 ∧
    (executable.isFirstInChain = true →
      executable.Releasable strategy input ((executable.curIndex + 1) % size.natAbs)) ∧
    (executable.isLastInChain = true →
      HasDeque strategy.deques executable.deadlines executable.curIndex)

end PriorityExecutable

/-! ## The single accesses -/

theorem exists_pushBack {deques : Deques} {vector : DequesPtr} {index : Nat}
    (inBounds : index < (deques vector).length) (value : Nat) :
    ∃ after, pushBack deques (some vector) index value = .ok after := by
  rw [pushBack, if_pos inBounds]
  exact ⟨_, rfl⟩

theorem HasDeque.pushBack {deques : Deques} {deadlines : Option DequesPtr} {index : Nat}
    (there : HasDeque deques deadlines index) (value : Nat) :
    ∃ after, PriorityExecutor.pushBack deques deadlines index value = .ok after := by
  rcases there with ⟨vector, rfl, inBounds⟩
  exact exists_pushBack inBounds value

theorem HasDeque.popFront {deques : Deques} {deadlines : Option DequesPtr} {index : Nat}
    (there : HasDeque deques deadlines index) :
    ∃ after, PriorityExecutor.popFront deques deadlines index = .ok after := by
  rcases there with ⟨vector, rfl, inBounds⟩
  rw [PriorityExecutor.popFront, if_pos inBounds]
  exact ⟨_, rfl⟩

theorem length_of_popFront {deques after : Deques} {deadlines : Option DequesPtr}
    {index : Nat} (result : popFront deques deadlines index = .ok after)
    (vector : DequesPtr) : (after vector).length = (deques vector).length := by
  rcases popFront_eq_ok result with ⟨target, _, _, rfl⟩
  by_cases same : vector = target
  · subst same
    simp
  · rw [Function.update_of_ne same]

/-- Only the number of deques matters. -/
theorem HasDeque.congr {deques other : Deques} {deadlines : Option DequesPtr} {index : Nat}
    (there : HasDeque deques deadlines index)
    (lengths : ∀ vector, (other vector).length = (deques vector).length) :
    HasDeque other deadlines index := by
  rcases there with ⟨vector, deadlinesEq, inBounds⟩
  exact ⟨vector, deadlinesEq, (lengths vector).symm ▸ inBounds⟩

namespace PriorityExecutable

variable {executable : PriorityExecutable}

theorem length_of_finishStage {deques after : Deques}
    (result : executable.finishStage deques = .ok after) (vector : DequesPtr) :
    (after vector).length = (deques vector).length := by
  unfold finishStage at result
  split at result
  next => exact length_of_popFront result vector
  next =>
    cases result
    rfl

end PriorityExecutable

/-! ## The stages of a dispatch -/

namespace Strategy

variable {strategy : Strategy} {input : DispatchInput} {executable : PriorityExecutable}

/-- Once the next index and the next release are known, the deadline is pushed and shared. -/
theorem releaseNext_eq {release next : Int} {index : Nat} {pushed : Deques}
    (releaseEq : executable.releaseTime = some release)
    (indexEq : executable.nextIndex = .ok index)
    (nextEq : executable.nextRelease input.millis release = .ok next)
    (pushedEq : pushBack strategy.deques executable.deadlines index
      (toUint (next + executable.deadline)) = .ok pushed) :
    strategy.releaseNext input executable =
      (strategy.shareDeadline input executable pushed index
        (toUint (next + executable.deadline))).map fun deques =>
          ({ executable with releaseTime := some next }, deques) := by
  simp only [releaseNext, releaseEq, indexEq, nextEq, pushedEq, bind, Except.bind]
  cases strategy.shareDeadline input executable pushed index
      (toUint (next + executable.deadline)) with
  | error fault => rfl
  | ok deques => rfl

theorem exists_shareDeadline {deques : Deques} {index : Nat}
    (shared : strategy.isF1tenth = true → executable.chainId = 0 → ∀ entry,
      (input.mapOrder.filterMap strategy.priorityMap).find?
        (fun entry => entry.chainId = 1) = some entry →
      HasDeque deques entry.deadlines index) (value : Nat) :
    ∃ after, strategy.shareDeadline input executable deques index value = .ok after := by
  unfold shareDeadline
  split
  next isShared =>
    split
    next => exact ⟨_, rfl⟩
    next entry found => exact (shared isShared.1 isShared.2 entry found).pushBack value
  next => exact ⟨_, rfl⟩

/-- The release stage leaves what the later stages read. -/
theorem releaseStage_keeps {released : PriorityExecutable} {pushed : Deques}
    (result : strategy.releaseStage input executable = .ok (released, pushed)) :
    released.schedType = executable.schedType ∧
      released.nextIndex = executable.nextIndex ∧
      released.deadlines = executable.deadlines ∧
      released.curIndex = executable.curIndex ∧
      released.isLastInChain = executable.isLastInChain ∧
      ∀ vector, (pushed vector).length = (strategy.deques vector).length := by
  unfold releaseStage at result
  split at result
  next =>
    rcases releaseNext_eq_ok result with ⟨_, _, _, _, _, _, _, pushedEq, sharedEq, rfl⟩
    refine ⟨rfl, rfl, rfl, rfl, rfl, ?_⟩
    intro vector
    rw [length_of_shareDeadline sharedEq, length_of_pushBack pushedEq]
  next =>
    cases result
    exact ⟨rfl, rfl, rfl, rfl, rfl, fun _ => rfl⟩

end Strategy

/-- A dispatch reads the map, the deques and whether the timer is shared. -/
theorem PriorityExecutable.Dispatchable.congr {executable : PriorityExecutable}
    {strategy other : Strategy} {input : DispatchInput}
    (dispatchable : executable.Dispatchable strategy input)
    (priorityMap : other.priorityMap = strategy.priorityMap)
    (deques : other.deques = strategy.deques)
    (isF1tenth : other.isF1tenth = strategy.isF1tenth) :
    executable.Dispatchable other input := by
  intro schedType
  rcases dispatchable schedType with ⟨size, sizeEq, nonzero, first, last⟩
  refine ⟨size, sizeEq, nonzero, ?_, ?_⟩
  · intro isFirst
    rcases first isFirst with ⟨release, own, shared⟩
    refine ⟨release, deques ▸ own, ?_⟩
    rw [isF1tenth, priorityMap, deques]
    exact shared
  · rw [deques]
    exact last

end PriorityExecutor
