import PriorityExecutor.Foundation.Binary64
import PriorityExecutor.Foundation.Run
import PriorityExecutor.Strategy.State

/-!
# Bookkeeping of a dispatch

Once the selection loop of `get_next_executable` has settled on an executable,
it updates the chain data before returning: the first executable of a `DEADLINE`
chain computes the next release and pushes its deadline, the last one pops the
finished deadline, and every one of them moves on to its next deque.

Instants are milliseconds over the integers; the 64-bit clock and `release_time`
do not overflow within 2^63 milliseconds.  The narrower conversions are kept:
`int` results of `std::ceil`, and the `uint` elements of the deques.
-/

namespace PriorityExecutor

/-- What a dispatch reads from outside: the monotonic clock, and the order in
which this traversal of the hash map visits its entries. -/
structure DispatchInput where
  millis : Int
  mapOrder : List Handle := []
  deriving Repr

/-- `(int)std::ceil(dividend / (double)divisor)`.  Division by zero gives an
infinity or a NaN, and a quotient outside `int` has no defined conversion. -/
def ceilToInt (dividend divisor : Int) : Except Fault Int :=
  if divisor = 0 then .error .intConversion
  else
    let quotient := Binary64.ceilQuotient dividend divisor
    if -2 ^ 31 ≤ quotient ∧ quotient < 2 ^ 31 then .ok quotient
    else .error .intConversion

/-- `(*deadlines)[index]->push_back(value)`. -/
def pushBack (deques : Deques) (deadlines : Option DequesPtr) (index value : Nat) :
    Except Fault Deques :=
  match deadlines with
  | none => .error .nullPointer
  | some vector =>
      if index < (deques vector).length then
        .ok (Function.update deques vector
          ((deques vector).modify index fun queue => queue ++ [value]))
      else
        .error .indexOutOfRange

/-- `if (!(*deadlines)[index]->empty()) (*deadlines)[index]->pop_front()`. -/
def popFront (deques : Deques) (deadlines : Option DequesPtr) (index : Nat) :
    Except Fault Deques :=
  match deadlines with
  | none => .error .nullPointer
  | some vector =>
      if index < (deques vector).length then
        .ok (Function.update deques vector ((deques vector).modify index List.tail))
      else
        .error .indexOutOfRange

namespace PriorityExecutable

/-- `max_chain_num`, the number of deques a chain is meant to have. -/
def maxChainNum (executable : PriorityExecutable) : Except Fault Int :=
  ceilToInt executable.deadline executable.period

/-- `((*cur_index) + 1) % max_chain_num`.  The left operand is positive, so the
sign of the right one does not matter. -/
def nextIndex (executable : PriorityExecutable) : Except Fault Nat := do
  let maxChainNum ← executable.maxChainNum
  if maxChainNum = 0 then
    .error .moduloByZero
  else
    .ok ((executable.curIndex + 1) % maxChainNum.natAbs)

/-- The value written to `*release_time`: one period later when the clock is
less than a period away from the recorded release, and otherwise as many periods
later as the distance spans. -/
def nextRelease (executable : PriorityExecutable) (millis release : Int) :
    Except Fault Int := do
  let timeDiff : Int := (millis - release).natAbs
  if timeDiff < executable.period then
    .ok (release + executable.period)
  else
    let periodsLate ← ceilToInt timeDiff executable.period
    .ok (release + periodsLate * executable.period)

/-- The branch for the last executable of a `DEADLINE` chain. -/
def finishStage (executable : PriorityExecutable) (deques : Deques) :
    Except Fault Deques :=
  if executable.isLastInChain ∧ executable.schedType = .deadline then
    popFront deques executable.deadlines executable.curIndex
  else
    .ok deques

/-- `(*cur_index) = ((*cur_index) + 1) % max_chain_num` for a `DEADLINE` executable. -/
def indexStage (executable : PriorityExecutable) : Except Fault PriorityExecutable :=
  if executable.schedType = .deadline then
    executable.nextIndex.map fun index => { executable with curIndex := index }
  else
    .ok executable

/-- The dispatch counter of the two chain-aware classes. -/
def countStage (executable : PriorityExecutable) : PriorityExecutable :=
  if executable.schedType = .chainAwarePriority ∨ executable.schedType = .deadline then
    executable.incrementCounter
  else
    executable

end PriorityExecutable

namespace Strategy

/-- With a shared timer, chain 0 hands its deadline to the first member of chain 1
that the loop over `priority_map` meets. -/
def shareDeadline (strategy : Strategy) (input : DispatchInput)
    (executable : PriorityExecutable) (deques : Deques) (index value : Nat) :
    Except Fault Deques :=
  if strategy.isF1tenth ∧ executable.chainId = 0 then
    match (input.mapOrder.filterMap strategy.priorityMap).find?
        fun entry => entry.chainId = 1 with
    | none => .ok deques
    | some entry => pushBack deques entry.deadlines index value
  else
    .ok deques

/-- The update for the first executable of a `DEADLINE` chain.  Both branches of
the source end with the same two pushes. -/
def releaseNext (strategy : Strategy) (input : DispatchInput)
    (executable : PriorityExecutable) : Except Fault (PriorityExecutable × Deques) :=
  match executable.releaseTime with
  | none => .error .nullPointer
  | some release => do
      let index ← executable.nextIndex
      let release ← executable.nextRelease input.millis release
      let value := toUint (release + executable.deadline)
      let deques ← pushBack strategy.deques executable.deadlines index value
      let deques ← strategy.shareDeadline input executable deques index value
      .ok ({ executable with releaseTime := some release }, deques)

/-- The branch for the first executable of a `DEADLINE` chain. -/
def releaseStage (strategy : Strategy) (input : DispatchInput)
    (executable : PriorityExecutable) : Except Fault (PriorityExecutable × Deques) :=
  if executable.isFirstInChain ∧ executable.schedType = .deadline then
    strategy.releaseNext input executable
  else
    .ok (executable, strategy.deques)

/-- The part of `get_next_executable` below "callback is about to be released". -/
def bookkeeping (strategy : Strategy) (input : DispatchInput) (handle : Handle) :
    Except Fault Strategy :=
  match strategy.getPrioritySettings handle with
  | none => .error .nullPointer
  | some executable => do
      let (executable, deques) ←
        strategy.releaseStage input { executable with sum := executable.sum + 1 }
      let deques ← executable.finishStage deques
      let executable ← executable.indexStage
      .ok { strategy.assign handle executable.countStage with deques }

end Strategy

/-- A dispatch of `handle`, after rounds that changed flags only. -/
def DispatchStep (before : Strategy) (handle : Handle) (after : Strategy) : Prop :=
  ∃ (current : Strategy) (input : DispatchInput),
    FlagsOnly before current ∧ current.bookkeeping input handle = .ok after

/-! ## The following release -/

/-- The release that follows `release` when the clock shows `millis`: one period later, or as
many as span the distance to the clock. -/
def followingRelease (period release millis : Int) : Int :=
  release + max 1 (IntDiv.ceilDiv |millis - release| period) * period

section FollowingRelease

variable {period release millis : Int}

theorem followingRelease_of_close (positive : 0 < period)
    (close : |millis - release| < period) :
    followingRelease period release millis = release + period := by
  have single : IntDiv.ceilDiv |millis - release| period ≤ 1 := by
    by_contra more
    have spanned : (IntDiv.ceilDiv |millis - release| period - 1) * period <
        |millis - release| := IntDiv.sub_one_mul_lt positive
    have atLeast : 1 * period ≤ (IntDiv.ceilDiv |millis - release| period - 1) * period :=
      mul_le_mul_of_nonneg_right (by omega) positive.le
    linarith
  rw [followingRelease, max_eq_left single, one_mul]

theorem followingRelease_of_far (positive : 0 < period)
    (far : period ≤ |millis - release|) :
    followingRelease period release millis =
      release + IntDiv.ceilDiv |millis - release| period * period := by
  have several : 1 ≤ IntDiv.ceilDiv |millis - release| period :=
    IntDiv.pos positive (positive.trans_le far)
  rw [followingRelease, max_eq_right several]

/-- The number of periods is one when the clock is less than a period away, and otherwise
the least one that spans the distance. -/
theorem followingRelease_cases (positive : 0 < period) (release millis : Int) :
    ∃ periods : Int, 1 ≤ periods ∧
      followingRelease period release millis = release + periods * period ∧
      (|millis - release| < period ∧ periods = 1 ∨
        period ≤ |millis - release| ∧ (periods - 1) * period < |millis - release| ∧
          |millis - release| ≤ periods * period) := by
  rcases lt_or_ge |millis - release| period with close | far
  · refine ⟨1, le_refl 1, ?_, .inl ⟨close, rfl⟩⟩
    rw [followingRelease_of_close positive close, one_mul]
  · exact ⟨_, IntDiv.pos positive (positive.trans_le far),
      followingRelease_of_far positive far,
      .inr ⟨far, IntDiv.sub_one_mul_lt positive, IntDiv.le_mul positive⟩⟩

end FollowingRelease

/-! ## Results of the single operations -/

theorem ceilToInt_eq_ok {dividend divisor quotient : Int}
    (result : ceilToInt dividend divisor = .ok quotient) :
    divisor ≠ 0 ∧ quotient < 2 ^ 31 ∧ quotient = Binary64.ceilQuotient dividend divisor := by
  simp only [ceilToInt] at result
  split at result
  next => cases result
  next nonzero =>
    split at result
    next inRange =>
      cases result
      exact ⟨nonzero, inRange.2, rfl⟩
    next => cases result

/-- A positive quotient of 2^31 - 1 at most is converted, and to its ceiling as long as
the dividend is below 2^53. -/
theorem ceilToInt_eq {dividend divisor : Int} (dividendPos : 0 < dividend)
    (dividendSmall : dividend < 2 ^ 53) (positive : 0 < divisor)
    (divisorSmall : divisor < 2 ^ 53) (spans : dividend ≤ (2 ^ 31 - 1) * divisor) :
    ceilToInt dividend divisor = .ok (IntDiv.ceilDiv dividend divisor) := by
  have quotientEq : Binary64.ceilQuotient dividend divisor = IntDiv.ceilDiv dividend divisor := by
    apply Binary64.ceilQuotient_of_lt
    · rwa [abs_of_pos dividendPos]
    · rwa [abs_of_pos positive]
  have quotientPos : 0 < IntDiv.ceilDiv dividend divisor := IntDiv.pos positive dividendPos
  have short : (IntDiv.ceilDiv dividend divisor - 1) * divisor < (2 ^ 31 - 1) * divisor :=
    (IntDiv.sub_one_mul_lt positive).trans_le spans
  have quotientLt : IntDiv.ceilDiv dividend divisor - 1 < 2 ^ 31 - 1 :=
    lt_of_mul_lt_mul_right short positive.le
  rw [ceilToInt, if_neg positive.ne']
  simp only [quotientEq]
  rw [if_pos ⟨by omega, by omega⟩]

/-- The conversion fails in one way only. -/
theorem ceilToInt_eq_error {dividend divisor : Int} {fault : Fault}
    (result : ceilToInt dividend divisor = .error fault) : fault = .intConversion := by
  simp only [ceilToInt] at result
  split at result
  · cases result
    rfl
  · split at result
    · cases result
    · cases result
      rfl

theorem PriorityExecutable.nextRelease_eq_error {executable : PriorityExecutable}
    {millis release : Int} {fault : Fault}
    (result : executable.nextRelease millis release = .error fault) :
    fault = .intConversion := by
  simp only [nextRelease] at result
  split at result
  · cases result
  · rcases Except.bind_eq_error.mp result with failed | ⟨_, _, impossible⟩
    · exact ceilToInt_eq_error failed
    · cases impossible

theorem pushBack_eq_ok {deques after : Deques} {deadlines : Option DequesPtr}
    {index value : Nat} (result : pushBack deques deadlines index value = .ok after) :
    ∃ vector, deadlines = some vector ∧ index < (deques vector).length ∧
      after = Function.update deques vector
        ((deques vector).modify index fun queue => queue ++ [value]) := by
  cases deadlines with
  | none => simp [pushBack] at result
  | some vector =>
      simp only [pushBack] at result
      split at result
      next inBounds =>
        cases result
        exact ⟨vector, rfl, inBounds, rfl⟩
      next => cases result

/-- Pushing changes no number of deques. -/
theorem length_of_pushBack {deques after : Deques} {deadlines : Option DequesPtr}
    {index value : Nat} (result : pushBack deques deadlines index value = .ok after)
    (vector : DequesPtr) : (after vector).length = (deques vector).length := by
  obtain ⟨target, _, _, rfl⟩ := pushBack_eq_ok result
  by_cases same : vector = target
  · subst same
    simp
  · rw [Function.update_of_ne same]

theorem popFront_eq_ok {deques after : Deques} {deadlines : Option DequesPtr}
    {index : Nat} (result : popFront deques deadlines index = .ok after) :
    ∃ vector, deadlines = some vector ∧ index < (deques vector).length ∧
      after = Function.update deques vector
        ((deques vector).modify index List.tail) := by
  cases deadlines with
  | none => simp [popFront] at result
  | some vector =>
      simp only [popFront] at result
      split at result
      next inBounds =>
        cases result
        exact ⟨vector, rfl, inBounds, rfl⟩
      next => cases result

namespace PriorityExecutable

/-- An update moves the release by a positive number of periods, whatever it rounds. -/
theorem nextRelease_later {executable : PriorityExecutable} {millis release next : Int}
    (positive : 0 < executable.period)
    (result : executable.nextRelease millis release = .ok next) :
    ∃ periods : Int, 1 ≤ periods ∧ next = release + periods * executable.period := by
  simp only [nextRelease, Int.natCast_natAbs] at result
  split at result
  next close =>
    cases result
    exact ⟨1, le_refl 1, by rw [one_mul]⟩
  next far =>
    obtain ⟨periods, converted, written⟩ := Except.bind_eq_ok.mp result
    obtain ⟨_, _, rfl⟩ := ceilToInt_eq_ok converted
    cases written
    have distance : 0 < |millis - release| := by omega
    exact ⟨_, Binary64.ceilQuotient_pos distance positive, rfl⟩

/-- Less than 2^53 milliseconds from the clock, an update that succeeds writes the following
release, and the clock is at most 2^31 - 1 periods away. -/
theorem nextRelease_eq_ok {executable : PriorityExecutable} {millis release next : Int}
    (positive : 0 < executable.period) (near : |millis - release| < 2 ^ 53)
    (result : executable.nextRelease millis release = .ok next) :
    next = followingRelease executable.period release millis ∧
      |millis - release| ≤ (2 ^ 31 - 1) * executable.period := by
  simp only [nextRelease, Int.natCast_natAbs] at result
  split at result
  next close =>
    cases result
    refine ⟨(followingRelease_of_close positive close).symm, ?_⟩
    linarith
  next far =>
    obtain ⟨periods, converted, written⟩ := Except.bind_eq_ok.mp result
    obtain ⟨_, inRange, periodsEq⟩ := ceilToInt_eq_ok converted
    have periodSmall : |executable.period| < 2 ^ 53 := by
      rw [abs_of_pos positive]
      exact (not_lt.mp far).trans_lt near
    rw [Binary64.ceilQuotient_of_lt (by rwa [abs_abs]) periodSmall] at periodsEq
    subst periodsEq
    cases written
    refine ⟨(followingRelease_of_far positive (not_lt.mp far)).symm, ?_⟩
    calc |millis - release|
        ≤ IntDiv.ceilDiv |millis - release| executable.period * executable.period :=
          IntDiv.le_mul positive
      _ ≤ (2 ^ 31 - 1) * executable.period :=
          mul_le_mul_of_nonneg_right (by omega) positive.le

/-- At most 2^31 - 1 periods from the clock an update succeeds. -/
theorem nextRelease_eq {executable : PriorityExecutable} {millis release : Int}
    (positive : 0 < executable.period) (near : |millis - release| < 2 ^ 53)
    (spans : |millis - release| ≤ (2 ^ 31 - 1) * executable.period) :
    executable.nextRelease millis release =
      .ok (followingRelease executable.period release millis) := by
  simp only [nextRelease, Int.natCast_natAbs]
  split
  next close => rw [followingRelease_of_close positive close]
  next far =>
    have distance : 0 < |millis - release| := positive.trans_le (not_lt.mp far)
    rw [ceilToInt_eq distance near positive ((not_lt.mp far).trans_lt near) spans,
      followingRelease_of_far positive (not_lt.mp far)]
    rfl

theorem indexStage_counts {executable indexed : PriorityExecutable}
    (result : executable.indexStage = .ok indexed) :
    indexed.sum = executable.sum ∧ indexed.counter = executable.counter := by
  unfold indexStage at result
  split at result
  · rcases Except.map_eq_ok.mp result with ⟨index, _, rfl⟩
    exact ⟨rfl, rfl⟩
  · cases result
    exact ⟨rfl, rfl⟩

@[simp] theorem countStage_sum (executable : PriorityExecutable) :
    executable.countStage.sum = executable.sum := by
  unfold countStage incrementCounter
  split <;> rfl

theorem countStage_counter (executable : PriorityExecutable) :
    executable.countStage.counter = executable.counter ∨
      executable.countStage.counter = toInt32 (executable.counter + 1) := by
  unfold countStage incrementCounter
  split
  next => exact .inr rfl
  next => exact .inl rfl

end PriorityExecutable

namespace Strategy

/-- A release update succeeds only through all of its accesses. -/
theorem releaseNext_eq_ok {strategy : Strategy} {input : DispatchInput}
    {executable after : PriorityExecutable} {deques : Deques}
    (result : strategy.releaseNext input executable = .ok (after, deques)) :
    ∃ release index next pushed,
      executable.releaseTime = some release ∧ executable.nextIndex = .ok index ∧
      executable.nextRelease input.millis release = .ok next ∧
      pushBack strategy.deques executable.deadlines index
        (toUint (next + executable.deadline)) = .ok pushed ∧
      strategy.shareDeadline input executable pushed index
        (toUint (next + executable.deadline)) = .ok deques ∧
      after = { executable with releaseTime := some next } := by
  unfold releaseNext at result
  split at result
  next => cases result
  next release releaseEq =>
    obtain ⟨index, indexEq, result⟩ := Except.bind_eq_ok.mp result
    obtain ⟨next, nextEq, result⟩ := Except.bind_eq_ok.mp result
    obtain ⟨pushed, pushedEq, result⟩ := Except.bind_eq_ok.mp result
    obtain ⟨shared, sharedEq, result⟩ := Except.bind_eq_ok.mp result
    cases result
    exact ⟨release, index, next, pushed, releaseEq, indexEq, nextEq, pushedEq,
      sharedEq, rfl⟩

/-- The bookkeeping succeeds only through all of its stages. -/
theorem bookkeeping_eq_ok {strategy after : Strategy} {input : DispatchInput}
    {handle : Handle} (result : strategy.bookkeeping input handle = .ok after) :
    ∃ executable released pushed deques indexed,
      strategy.priorityMap handle = some executable ∧
      strategy.releaseStage input { executable with sum := executable.sum + 1 } =
        .ok (released, pushed) ∧
      released.finishStage pushed = .ok deques ∧
      released.indexStage = .ok indexed ∧
      after = { strategy.assign handle indexed.countStage with deques } := by
  unfold bookkeeping at result
  split at result
  next => cases result
  next executable entry =>
    obtain ⟨⟨released, pushed⟩, releasedEq, result⟩ := Except.bind_eq_ok.mp result
    obtain ⟨deques, dequesEq, result⟩ := Except.bind_eq_ok.mp result
    obtain ⟨indexed, indexedEq, result⟩ := Except.bind_eq_ok.mp result
    cases result
    exact ⟨executable, released, pushed, deques, indexed, entry, releasedEq,
      dequesEq, indexedEq, rfl⟩

theorem length_of_shareDeadline {strategy : Strategy} {input : DispatchInput}
    {executable : PriorityExecutable} {deques after : Deques} {index value : Nat}
    (result : strategy.shareDeadline input executable deques index value = .ok after)
    (vector : DequesPtr) : (after vector).length = (deques vector).length := by
  unfold shareDeadline at result
  split at result
  · split at result
    · cases result
      rfl
    · exact length_of_pushBack result vector
  · cases result
    rfl

/-- The bookkeeping fails in one of its stages. -/
theorem bookkeeping_eq_error {strategy : Strategy} {input : DispatchInput}
    {handle : Handle} {executable : PriorityExecutable} {fault : Fault}
    (entry : strategy.priorityMap handle = some executable)
    (result : strategy.bookkeeping input handle = .error fault) :
    strategy.releaseStage input { executable with sum := executable.sum + 1 } =
        .error fault ∨
      ∃ released pushed,
        strategy.releaseStage input { executable with sum := executable.sum + 1 } =
          .ok (released, pushed) ∧
        (released.finishStage pushed = .error fault ∨
          released.indexStage = .error fault) := by
  rw [bookkeeping, getPrioritySettings, entry] at result
  rcases Except.bind_eq_error.mp result with failed | ⟨⟨released, pushed⟩, releasedEq, result⟩
  · exact .inl failed
  refine .inr ⟨released, pushed, releasedEq, ?_⟩
  rcases Except.bind_eq_error.mp result with failed | ⟨_, _, result⟩
  · exact .inl failed
  rcases Except.bind_eq_error.mp result with failed | ⟨_, _, impossible⟩
  · exact .inr failed
  · cases impossible

/-- The bookkeeping leaves everything but one entry and the deques alone. -/
theorem bookkeeping_frame {strategy after : Strategy} {input : DispatchInput}
    {handle : Handle} (result : strategy.bookkeeping input handle = .ok after) :
    after.isF1tenth = strategy.isF1tenth ∧
      ∀ other, other ≠ handle → after.priorityMap other = strategy.priorityMap other := by
  obtain ⟨_, _, _, _, indexed, _, _, _, _, rfl⟩ := bookkeeping_eq_ok result
  exact ⟨rfl, fun other different => strategy.assign_of_ne _ different⟩

theorem releaseStage_counts {strategy : Strategy} {input : DispatchInput}
    {executable released : PriorityExecutable} {deques : Deques}
    (result : strategy.releaseStage input executable = .ok (released, deques)) :
    released.sum = executable.sum ∧ released.counter = executable.counter := by
  unfold releaseStage at result
  split at result
  · rcases releaseNext_eq_ok result with ⟨_, _, _, _, _, _, _, _, _, rfl⟩
    exact ⟨rfl, rfl⟩
  · cases result
    exact ⟨rfl, rfl⟩

/-- The bookkeeping adds one to `sum`, and at most one to `counter`. -/
theorem bookkeeping_counts {strategy after : Strategy} {input : DispatchInput}
    {handle : Handle} (result : strategy.bookkeeping input handle = .ok after) :
    ∃ executable updated, strategy.priorityMap handle = some executable ∧
      after.priorityMap handle = some updated ∧ updated.sum = executable.sum + 1 ∧
      (updated.counter = executable.counter ∨
        updated.counter = toInt32 (executable.counter + 1)) := by
  rcases bookkeeping_eq_ok result with
    ⟨executable, released, _, _, indexed, entry, releasedEq, _, indexedEq, rfl⟩
  have release := releaseStage_counts releasedEq
  have index := PriorityExecutable.indexStage_counts indexedEq
  refine ⟨executable, indexed.countStage, entry, strategy.assign_self handle _, ?_, ?_⟩
  · rw [PriorityExecutable.countStage_sum, index.1, release.1]
  · have counted := indexed.countStage_counter
    rw [index.2, release.2] at counted
    exact counted

/-- The bookkeeping counts one dispatch of its executable and of no other. -/
theorem bookkeeping_sum {strategy after : Strategy} {input : DispatchInput}
    {handle : Handle} (result : strategy.bookkeeping input handle = .ok after)
    (other : Handle) :
    (after.atKey other).sum =
      (strategy.atKey other).sum + if other = handle then 1 else 0 := by
  by_cases same : other = handle
  · subst same
    rcases bookkeeping_counts result with ⟨executable, updated, entry, entryAfter, sum, _⟩
    rw [if_pos rfl, atKey_of_some entry, atKey_of_some entryAfter, sum]
  · rw [if_neg same, add_zero, atKey, (bookkeeping_frame result).2 other same, atKey]

end Strategy

/-- A dispatch counts once, whatever rounds came before it. -/
theorem DispatchStep.sum {before after : Strategy} {handle : Handle}
    (step : DispatchStep before handle after) (other : Handle) :
    (after.atKey other).sum =
      (before.atKey other).sum + if other = handle then 1 else 0 := by
  obtain ⟨current, input, same, result⟩ := step
  rw [Strategy.bookkeeping_sum result, same.sum]

/-! ## Executables of the other classes -/

@[simp] theorem PriorityExecutable.countStage_schedType (executable : PriorityExecutable) :
    executable.countStage.schedType = executable.schedType := by
  unfold countStage incrementCounter
  split <;> rfl

@[simp] theorem PriorityExecutable.countStage_priority (executable : PriorityExecutable) :
    executable.countStage.priority = executable.priority := by
  unfold countStage incrementCounter
  split <;> rfl

/-- The whole bookkeeping of an executable outside of `DEADLINE`: two counters. -/
theorem Strategy.bookkeeping_of_notDeadline {strategy : Strategy} {handle : Handle}
    {executable : PriorityExecutable}
    (entry : strategy.priorityMap handle = some executable)
    (notDeadline : executable.schedType ≠ .deadline) (input : DispatchInput) :
    strategy.bookkeeping input handle =
      .ok (strategy.assign handle
        { executable with sum := executable.sum + 1 }.countStage) := by
  simp [bookkeeping, getPrioritySettings, entry, releaseStage,
    PriorityExecutable.finishStage, PriorityExecutable.indexStage, notDeadline, bind,
    Except.bind, assign]

/-! ## `DEADLINE` executables -/

namespace PriorityExecutable

/-- The record of a `DEADLINE` executable after its dispatch. -/
def afterDispatch (executable : PriorityExecutable) (index : Nat)
    (releaseTime : Option Int) : PriorityExecutable :=
  { executable with
    sum := executable.sum + 1
    curIndex := index
    releaseTime
    counter := toInt32 (executable.counter + 1) }

/-- The last two stages advance the deque index and the dispatch counter. -/
theorem indexStage_eq_ok {executable indexed : PriorityExecutable}
    (schedType : executable.schedType = .deadline)
    (result : executable.indexStage = .ok indexed) :
    ∃ index, executable.nextIndex = .ok index ∧
      indexed.countStage =
        { executable with curIndex := index, counter := toInt32 (executable.counter + 1) } := by
  rw [indexStage, if_pos schedType] at result
  cases nextIndexEq : executable.nextIndex with
  | error fault =>
      rw [nextIndexEq] at result
      cases result
  | ok index =>
      rw [nextIndexEq] at result
      cases result
      exact ⟨index, rfl, by simp [countStage, incrementCounter, schedType]⟩

end PriorityExecutable

namespace Strategy

/-- `pushed` are the deques of `before` with one value pushed for `executable`: to the next
deque of its own vector, and to chain 1 when the timer is shared. -/
def Pushes (before : Strategy) (input : DispatchInput)
    (executable : PriorityExecutable) (value : Nat) (pushed : Deques) : Prop :=
  ∃ index own, executable.nextIndex = .ok index ∧
    pushBack before.deques executable.deadlines index value = .ok own ∧
    before.shareDeadline input executable own index value = .ok pushed

/-- After a push the value is the last one of its deque. -/
theorem getLast?_of_pushBack {deques after : Deques} {vector : DequesPtr} {index value : Nat}
    (result : pushBack deques (some vector) index value = .ok after) :
    (after vector)[index]?.bind List.getLast? = some value := by
  obtain ⟨_, vectorEq, inBounds, rfl⟩ := pushBack_eq_ok result
  cases vectorEq
  rw [Function.update_self, List.getElem?_modify, List.getElem?_eq_getElem inBounds]
  simp

/-- Sharing pushes the same value again or leaves the vector alone. -/
theorem getLast?_of_shareDeadline {strategy : Strategy} {input : DispatchInput}
    {executable : PriorityExecutable} {deques own pushed : Deques} {vector : DequesPtr}
    {index value : Nat} (ownEq : pushBack deques (some vector) index value = .ok own)
    (sharedEq : strategy.shareDeadline input executable own index value = .ok pushed) :
    (pushed vector)[index]?.bind List.getLast? = some value := by
  unfold shareDeadline at sharedEq
  split at sharedEq
  · split at sharedEq
    · cases sharedEq
      exact getLast?_of_pushBack ownEq
    · obtain ⟨other, otherEq, _, rfl⟩ := pushBack_eq_ok sharedEq
      by_cases same : vector = other
      · rw [otherEq, ← same] at sharedEq
        rw [← same]
        exact getLast?_of_pushBack sharedEq
      · rw [Function.update_of_ne same]
        exact getLast?_of_pushBack ownEq
  · cases sharedEq
    exact getLast?_of_pushBack ownEq

/-- What the vector gained determines the value. -/
theorem Pushes.unique {before : Strategy} {input : DispatchInput}
    {executable : PriorityExecutable} {left right : Nat} {pushed : Deques}
    (leftPushes : before.Pushes input executable left pushed)
    (rightPushes : before.Pushes input executable right pushed) : left = right := by
  obtain ⟨index, own, indexEq, ownEq, sharedEq⟩ := leftPushes
  obtain ⟨_, own', indexEq', ownEq', sharedEq'⟩ := rightPushes
  cases indexEq.symm.trans indexEq'
  obtain ⟨vector, deadlines, _, _⟩ := pushBack_eq_ok ownEq
  rw [deadlines] at ownEq ownEq'
  have leftLast := getLast?_of_shareDeadline ownEq sharedEq
  have rightLast := getLast?_of_shareDeadline ownEq' sharedEq'
  exact Option.some.inj (leftLast.symm.trans rightLast)

/-- Dispatch of the first executable of a `DEADLINE` chain. -/
theorem bookkeeping_first {strategy after : Strategy} {input : DispatchInput}
    {handle : Handle} {executable : PriorityExecutable}
    (entry : strategy.priorityMap handle = some executable)
    (schedType : executable.schedType = .deadline)
    (isFirst : executable.isFirstInChain = true)
    (result : strategy.bookkeeping input handle = .ok after) :
    ∃ release index next released pushed,
      executable.releaseTime = some release ∧ executable.nextIndex = .ok index ∧
      executable.nextRelease input.millis release = .ok next ∧
      strategy.releaseStage input { executable with sum := executable.sum + 1 } =
        .ok (released, pushed) ∧
      strategy.Pushes input executable (toUint (next + executable.deadline)) pushed ∧
      executable.finishStage pushed = .ok after.deques ∧
      after.priorityMap handle = some (executable.afterDispatch index (some next)) := by
  obtain ⟨found, released, pushed, deques, indexed, foundEq, releasedEq, dequesEq,
    indexedEq, rfl⟩ := bookkeeping_eq_ok result
  rw [entry] at foundEq
  cases foundEq
  have updated := releasedEq
  rw [releaseStage, if_pos ⟨isFirst, schedType⟩] at updated
  obtain ⟨release, index, next, own, releaseEq, nextIndexEq, nextEq, ownEq, sharedEq,
    rfl⟩ := releaseNext_eq_ok updated
  have advanced : executable.nextIndex = .ok index := nextIndexEq
  obtain ⟨moved, movedEq, counted⟩ := PriorityExecutable.indexStage_eq_ok
    (by exact schedType) indexedEq
  have sameIndex : moved = index := Except.ok.inj (movedEq.symm.trans advanced)
  subst moved
  refine ⟨release, index, next, _, pushed, releaseEq, advanced, nextEq, releasedEq,
    ⟨index, own, advanced, ownEq, sharedEq⟩, dequesEq, ?_⟩
  rw [counted]
  exact strategy.assign_self handle _

/-- Dispatch of a later executable of a `DEADLINE` chain. -/
theorem bookkeeping_later {strategy after : Strategy} {input : DispatchInput}
    {handle : Handle} {executable : PriorityExecutable}
    (entry : strategy.priorityMap handle = some executable)
    (schedType : executable.schedType = .deadline)
    (notFirst : executable.isFirstInChain = false)
    (result : strategy.bookkeeping input handle = .ok after) :
    ∃ index, executable.nextIndex = .ok index ∧
      executable.finishStage strategy.deques = .ok after.deques ∧
      after.priorityMap handle =
        some (executable.afterDispatch index executable.releaseTime) := by
  obtain ⟨found, released, pushed, deques, indexed, foundEq, releasedEq, dequesEq,
    indexedEq, rfl⟩ := bookkeeping_eq_ok result
  rw [entry] at foundEq
  cases foundEq
  rw [releaseStage, if_neg (by simp [notFirst])] at releasedEq
  cases releasedEq
  obtain ⟨index, indexEq, counted⟩ := PriorityExecutable.indexStage_eq_ok
    (by exact schedType) indexedEq
  refine ⟨index, indexEq, dequesEq, ?_⟩
  rw [counted]
  exact strategy.assign_self handle _

end Strategy

end PriorityExecutor
