import PriorityExecutor.Strategy.FixedPriorities

/-!
# Dispatches without a fault

The bookkeeping of a `DEADLINE` executable follows pointers, indexes vectors of deques,
divides and converts.  What these rely on is a property of each entry of the map and of
the lengths of the vectors, and no operation of the strategy takes it away: a vector never
changes its length, and `cur_index` is reduced modulo that length.

One fault is left to the clock.  A first executable counts the periods since its recorded
release in an `int`, and a `double` holds the distance to it, so its dispatch succeeds within
`2^31 - 1` periods and `2^53` milliseconds of that release.
-/

namespace PriorityExecutor

/-- What a dispatch relies on, given the lengths of the vectors.  With a shared timer
`shared` is the number of deques that chain 0 may index in a vector of chain 1. -/
structure PriorityExecutable.Accessible (lengths : DequesPtr → Nat) (shared : Option Nat)
    (executable : PriorityExecutable) : Prop where
  deques : executable.schedType = .deadline →
    ∃ vector, executable.deadlines = some vector ∧
      executable.maxChainNum = .ok (lengths vector : Int) ∧
      executable.curIndex < lengths vector ∧ 0 < executable.period ∧
      (executable.isFirstInChain = true → executable.releaseTime.isSome)
  owner : ∀ size vector, shared = some size → executable.schedType = .deadline →
    executable.isFirstInChain = true → executable.chainId = 0 →
    executable.deadlines = some vector → lengths vector ≤ size
  driven : ∀ size, shared = some size → executable.chainId = 1 →
    ∃ vector, executable.deadlines = some vector ∧ size ≤ lengths vector

/-- The clock is near enough to the recorded release of a first executable. -/
def PriorityExecutable.ClockInRange (millis : Int) (executable : PriorityExecutable) : Prop :=
  executable.schedType = .deadline → executable.isFirstInChain = true →
    ∀ release, executable.releaseTime = some release →
      |millis - release| < 2 ^ 53 ∧ |millis - release| ≤ (2 ^ 31 - 1) * executable.period

/-- The executable counts its periods, and the count does not fit. -/
def PriorityExecutable.ClockFault (millis : Int) (fault : Fault)
    (executable : PriorityExecutable) : Prop :=
  executable.schedType = .deadline ∧ executable.isFirstInChain = true ∧
    ∃ release, executable.releaseTime = some release ∧
      executable.nextRelease millis release = .error fault

namespace Strategy

/-- Everything that dispatches access is there. -/
structure Accessible (lengths : DequesPtr → Nat) (shared : Option Nat)
    (strategy : Strategy) : Prop where
  vectors : ∀ vector, (strategy.deques vector).length = lengths vector
  isF1tenth : strategy.isF1tenth = shared.isSome
  entries : strategy.Entries fun _ executable => executable.Accessible lengths shared

def ClockInRange (strategy : Strategy) (millis : Int) : Prop :=
  strategy.Entries fun _ executable => executable.ClockInRange millis

end Strategy

/-! ## Accesses that succeed -/

namespace PriorityExecutable

variable {executable : PriorityExecutable} {lengths : DequesPtr → Nat} {shared : Option Nat}

/-- Of a `DEADLINE` executable the next index exists and is one of its deques. -/
theorem Accessible.nextIndex (accessible : executable.Accessible lengths shared)
    (schedType : executable.schedType = .deadline) :
    ∃ vector index, executable.deadlines = some vector ∧ executable.nextIndex = .ok index ∧
      index < lengths vector ∧ executable.curIndex < lengths vector := by
  rcases accessible.deques schedType with ⟨vector, deadlines, size, inBounds, _, _⟩
  have positive : 0 < lengths vector := Nat.zero_lt_of_lt inBounds
  have nonzero : (lengths vector : Int) ≠ 0 := Int.natCast_ne_zero.mpr positive.ne'
  refine ⟨vector, (executable.curIndex + 1) % lengths vector, deadlines, ?_,
    Nat.mod_lt _ positive, inBounds⟩
  simp only [PriorityExecutable.nextIndex, size, bind, Except.bind, if_neg nonzero,
    Int.natAbs_natCast]

theorem ClockFault.eq {millis : Int} {fault : Fault}
    (failed : executable.ClockFault millis fault) : fault = .intConversion := by
  rcases failed with ⟨_, _, _, _, failed⟩
  exact nextRelease_eq_error failed

theorem Accessible.not_clockFault (accessible : executable.Accessible lengths shared)
    {millis : Int} (inRange : executable.ClockInRange millis) (fault : Fault) :
    ¬ executable.ClockFault millis fault := by
  rintro ⟨schedType, isFirst, release, releaseEq, failed⟩
  rcases accessible.deques schedType with ⟨_, _, _, _, period, _⟩
  rcases inRange schedType isFirst release releaseEq with ⟨near, spans⟩
  rw [nextRelease_eq period near spans] at failed
  cases failed

/-- Only the flags and the counters of the record differ. -/
theorem Accessible.afterDispatch (accessible : executable.Accessible lengths shared)
    (schedType : executable.schedType = .deadline) {index : Nat}
    (nextIndex : executable.nextIndex = .ok index) {releaseTime : Option Int}
    (released : executable.isFirstInChain = true → releaseTime.isSome) :
    (executable.afterDispatch index releaseTime).Accessible lengths shared := by
  refine ⟨?_, accessible.owner, accessible.driven⟩
  intro _
  rcases accessible.deques schedType with ⟨vector, deadlines, size, _, period, _⟩
  rcases accessible.nextIndex schedType with ⟨found, next, foundEq, nextEq, inBounds, _⟩
  rw [nextIndex] at nextEq
  cases nextEq
  rw [deadlines] at foundEq
  cases foundEq
  exact ⟨vector, deadlines, size, inBounds, period, released⟩

theorem Accessible.countStage (accessible : executable.Accessible lengths shared) :
    ({ executable with sum := executable.sum + 1 }.countStage).Accessible lengths shared := by
  unfold PriorityExecutable.countStage incrementCounter
  split
  next => exact ⟨accessible.deques, accessible.owner, accessible.driven⟩
  next => exact ⟨accessible.deques, accessible.owner, accessible.driven⟩

/-- What is registered on the fly is of no chain, and flags are not accessed. -/
theorem accessible_flagFree (lengths : DequesPtr → Nat) (shared : Option Nat) :
    Strategy.FlagFree fun _ executable => executable.Accessible lengths shared where
  fresh _ _ := ⟨nofun, fun _ _ _ => nofun, fun _ _ => nofun⟩
  flag _ accessible := ⟨accessible.deques, accessible.owner, accessible.driven⟩

theorem clockInRange_flagFree (millis : Int) :
    Strategy.FlagFree fun _ executable => executable.ClockInRange millis where
  fresh _ _ := nofun
  flag _ inRange := inRange

end PriorityExecutable

/-! ## The bookkeeping -/

namespace Strategy.Accessible

open PriorityExecutable

variable {lengths : DequesPtr → Nat} {shared : Option Nat} {strategy before after : Strategy}

/-- The copy of the deadline goes to a deque that chain 1 has. -/
theorem exists_shareDeadline (accessible : strategy.Accessible lengths shared)
    {executable : PriorityExecutable} (held : executable.Accessible lengths shared)
    (schedType : executable.schedType = .deadline)
    (isFirst : executable.isFirstInChain = true) {vector : DequesPtr}
    (deadlines : executable.deadlines = some vector) {index : Nat}
    (inBounds : index < lengths vector) {deques : Deques}
    (sameLengths : ∀ vector, (deques vector).length = lengths vector)
    (input : DispatchInput) (value : Nat) :
    ∃ after, strategy.shareDeadline input executable deques index value = .ok after := by
  unfold shareDeadline
  split
  next isShared =>
    split
    next => exact ⟨_, rfl⟩
    next entry found =>
      have member := List.mem_of_find?_eq_some found
      rcases List.mem_filterMap.mp member with ⟨handle, _, entryEq⟩
      have isDriven : entry.chainId = 1 := by simpa using List.find?_some found
      have some' : shared.isSome = true := accessible.isF1tenth ▸ isShared.1
      rcases Option.isSome_iff_exists.mp some' with ⟨size, sharedEq⟩
      rcases (accessible.entries handle entry entryEq).driven size sharedEq isDriven with
        ⟨drivenVector, drivenDeadlines, covers⟩
      have owner := held.owner size vector sharedEq schedType isFirst isShared.2 deadlines
      rw [drivenDeadlines]
      apply exists_pushBack
      rw [sameLengths]
      exact (inBounds.trans_le owner).trans_le covers
  next => exact ⟨_, rfl⟩

/-- The first stage fails at the clock only. -/
theorem releaseStage_clock (accessible : strategy.Accessible lengths shared)
    {executable : PriorityExecutable} (held : executable.Accessible lengths shared)
    {input : DispatchInput} {fault : Fault}
    (result : strategy.releaseStage input executable = .error fault) :
    executable.ClockFault input.millis fault := by
  unfold releaseStage at result
  split at result
  next first =>
    rcases held.deques first.2 with ⟨vector, deadlines, _, _, _, released⟩
    rcases held.nextIndex first.2 with ⟨found, index, foundEq, indexEq, inBounds, _⟩
    rw [deadlines] at foundEq
    cases foundEq
    rcases Option.isSome_iff_exists.mp (released first.1) with ⟨release, releaseEq⟩
    cases nextEq : executable.nextRelease input.millis release with
    | error found =>
        simp only [releaseNext, releaseEq, indexEq, nextEq, bind, Except.bind] at result
        cases result
        exact ⟨first.2, first.1, release, releaseEq, nextEq⟩
    | ok next =>
        exfalso
        rcases exists_pushBack ((accessible.vectors vector).symm ▸ inBounds)
            (toUint (next + executable.deadline)) with ⟨pushed, pushedEq⟩
        have sameLengths : ∀ vector, (pushed vector).length = lengths vector := by
          intro other
          rw [length_of_pushBack pushedEq, accessible.vectors]
        rcases accessible.exists_shareDeadline held first.2 first.1 deadlines inBounds
            sameLengths input (toUint (next + executable.deadline)) with ⟨deques, sharedEq⟩
        rw [← deadlines] at pushedEq
        rw [releaseNext_eq releaseEq indexEq nextEq pushedEq, sharedEq] at result
        cases result
  next => cases result

/-- A dispatch that succeeds keeps everything accessible. -/
theorem bookkeeping (accessible : strategy.Accessible lengths shared)
    {input : DispatchInput} {handle : Handle}
    (result : strategy.bookkeeping input handle = .ok after) :
    after.Accessible lengths shared := by
  have frame := bookkeeping_frame result
  rcases bookkeeping_eq_ok result with ⟨executable, _, _, _, _, entry, _⟩
  have held := accessible.entries handle executable entry
  -- the rest of the map is as it was
  have assigned : ∀ {update : PriorityExecutable},
      after.priorityMap handle = some update → update.Accessible lengths shared →
      after.Entries fun _ executable => executable.Accessible lengths shared := by
    intro update updated holds other found foundEntry
    by_cases same : other = handle
    · subst same
      rw [updated] at foundEntry
      cases foundEntry
      exact holds
    · rw [frame.2 other same] at foundEntry
      exact accessible.entries other found foundEntry
  by_cases schedType : executable.schedType = .deadline
  · by_cases isFirst : executable.isFirstInChain = true
    · rcases bookkeeping_first entry schedType isFirst result with
        ⟨_, index, next, _, _, _, indexEq, _, _, pushes, finished, entryAfter⟩
      have kept : (executable.afterDispatch index (some next)).Accessible lengths shared :=
        held.afterDispatch schedType indexEq fun _ => Option.isSome_some
      refine ⟨?_, frame.1.trans accessible.isF1tenth, assigned entryAfter kept⟩
      rcases pushes with ⟨_, _, _, pushed, copied⟩
      intro vector
      rw [length_of_finishStage finished, length_of_shareDeadline copied,
        length_of_pushBack pushed, accessible.vectors]
    · have notFirst : executable.isFirstInChain = false := Bool.eq_false_of_not_eq_true isFirst
      rcases bookkeeping_later entry schedType notFirst result with
        ⟨index, indexEq, finished, entryAfter⟩
      have kept : (executable.afterDispatch index executable.releaseTime).Accessible lengths
          shared := held.afterDispatch schedType indexEq fun first => absurd first isFirst
      refine ⟨?_, frame.1.trans accessible.isF1tenth, assigned entryAfter kept⟩
      intro vector
      rw [length_of_finishStage finished, accessible.vectors]
  · rw [bookkeeping_of_notDeadline entry schedType] at result
    cases result
    exact ⟨accessible.vectors, accessible.isF1tenth, accessible.entries.assign held.countStage⟩

/-- A dispatch fails at the clock only. -/
theorem bookkeeping_clock (accessible : strategy.Accessible lengths shared)
    {input : DispatchInput} {handle : Handle} {executable : PriorityExecutable}
    (entry : strategy.priorityMap handle = some executable) {fault : Fault}
    (result : strategy.bookkeeping input handle = .error fault) :
    executable.ClockFault input.millis fault := by
  have held := accessible.entries handle executable entry
  have counted : { executable with sum := executable.sum + 1 }.Accessible lengths shared :=
    ⟨held.deques, held.owner, held.driven⟩
  rcases bookkeeping_eq_error entry result with failed | ⟨released, pushed, released', rest⟩
  · exact accessible.releaseStage_clock counted failed
  exfalso
  rcases releaseStage_keeps released' with
    ⟨sameType, sameNext, sameDeadlines, sameIndex, _, lengthsEq⟩
  have sameLengths : ∀ vector, (pushed vector).length = lengths vector :=
    fun vector => (lengthsEq vector).trans (accessible.vectors vector)
  rcases rest with failed | failed
  · unfold finishStage at failed
    split at failed
    next last =>
      rcases counted.nextIndex (sameType ▸ last.2) with ⟨vector, _, deadlines, _, _, inBounds⟩
      rw [sameDeadlines, deadlines, sameIndex, popFront,
        if_pos ((sameLengths vector).symm ▸ inBounds)] at failed
      cases failed
    next => cases failed
  · unfold indexStage at failed
    split at failed
    next isDeadline =>
      rcases counted.nextIndex (sameType ▸ isDeadline) with ⟨_, index, _, indexEq, _, _⟩
      rw [sameNext, indexEq] at failed
      cases failed
    next => cases failed

/-! ## Rounds -/

theorem ready (accessible : strategy.Accessible lengths shared) (input : RoundInput) :
    (strategy.ready input).Accessible lengths shared := by
  have waited := strategy.waitForWork_flagsOnly input.canBeTakenFrom input.weakNodes
    input.outcome
  refine ⟨?_, waited.isF1tenth.trans accessible.isF1tenth, ?_⟩
  · intro vector
    exact (congrArg (fun deques => (deques vector).length) waited.deques).trans
      (accessible.vectors vector)
  · exact accessible.entries.waitForWork (accessible_flagFree lengths shared) _ _ _

theorem withQueue (accessible : strategy.Accessible lengths shared) (queue : List Handle) :
    { strategy with allExecutables := queue }.Accessible lengths shared :=
  ⟨accessible.vectors, accessible.isF1tenth, accessible.entries⟩

/-- Whatever a round did, everything is still accessible. -/
theorem step (accessible : before.Accessible lengths shared) {round : Round}
    (step : RoundStep before round after) : after.Accessible lengths shared := by
  have ready : round.ready.Accessible lengths shared := by
    rcases step with ⟨input, readyEq, _, _⟩
    rw [readyEq]
    exact accessible.ready input
  rcases step.getNextExecutable with ⟨input, result⟩
  rcases getNextExecutable_eq_ok result with ⟨queue, ⟨_, _, rfl⟩ | ⟨handle, _, update⟩⟩
  · exact ready.withQueue queue
  · exact (ready.withQueue queue).bookkeeping update

/-- A round fails at the clock only. -/
theorem round_clock (accessible : strategy.Accessible lengths shared) {input : RoundInput}
    {fault : Fault} (result : strategy.round input = .error fault) :
    ∃ handle executable, (strategy.ready input).priorityMap handle = some executable ∧
      executable.ClockFault input.dispatch.millis fault := by
  have ready := accessible.ready input
  have valid : QueueValid (strategy.ready input) := strategy.waitForWork_valid _ _ _
  rcases getNextExecutable_eq_error result with ⟨handle, queued, queue, failed⟩
  rcases Option.isSome_iff_exists.mp (valid.registered handle queued) with
    ⟨executable, entry⟩
  exact ⟨handle, executable, entry, (ready.withQueue queue).bookkeeping_clock entry failed⟩

/-- Within the range of the clock a round succeeds, whatever else it reads. -/
theorem round (accessible : strategy.Accessible lengths shared) {input : RoundInput}
    (inRange : strategy.ClockInRange input.dispatch.millis) :
    ∃ anyExec after, strategy.round input = .ok (anyExec, after) := by
  cases result : strategy.round input with
  | ok found => exact ⟨found.1, found.2, rfl⟩
  | error fault =>
      have clock : (strategy.ready input).ClockInRange input.dispatch.millis :=
        inRange.waitForWork (clockInRange_flagFree _) _ _ _
      rcases accessible.round_clock result with ⟨handle, executable, entry, failed⟩
      have held := (accessible.ready input).entries handle executable entry
      exact absurd failed (held.not_clockFault (clock handle executable entry) fault)

end Strategy.Accessible

end PriorityExecutor
