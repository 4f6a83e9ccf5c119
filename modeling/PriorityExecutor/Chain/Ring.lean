import PriorityExecutor.Foundation.SlotRing
import PriorityExecutor.Strategy.Bookkeeping
import PriorityExecutor.Strategy.Comparator

/-!
# The deadline ring of a lossless chain

The executables of a `DEADLINE` chain share one vector of `M = ceil(D / T)`
deques.  Each of them walks around the vector with its own `cur_index`; the first
one pushes one deque ahead of itself, and only the last one pops.

Instances of the chain are numbered: instance 0 is the one whose deadline the
set-up stores, and the `k`-th dispatch of the first executable releases instance
`k`.  As long as no executable is dispatched more often than its predecessor, the
vector is a ring of the instances that the last executable has not finished, in
the sense of `SlotRing`.
-/

namespace PriorityExecutor

/-- A `DEADLINE` chain: its executables `e_0, …, e_last`, the vector they share, and
the period and relative deadline they are registered with, each of them an `int`. -/
structure Chain where
  executables : Nat → Handle
  last : Nat
  vector : DequesPtr
  period : Int
  deadline : Int
  period_pos : 1 ≤ period
  deadline_pos : 1 ≤ deadline
  period_fits : period < 2 ^ 31
  deadline_fits : deadline < 2 ^ 31

namespace Chain

/-- The number of deques of the chain. -/
def size (chain : Chain) : Nat := (IntDiv.ceilDiv chain.deadline chain.period).toNat

theorem size_pos (chain : Chain) : 0 < chain.size := by
  have periodPos := chain.period_pos
  have deadlinePos := chain.deadline_pos
  have : 0 < IntDiv.ceilDiv chain.deadline chain.period :=
    IntDiv.pos (by omega) (by omega)
  unfold size
  omega

/-- `executable` is registered as stage `stage` of the chain. -/
structure Member (chain : Chain) (stage : Nat) (executable : PriorityExecutable) : Prop where
  schedType : executable.schedType = .deadline
  period : executable.period = chain.period
  deadline : executable.deadline = chain.deadline
  deadlines : executable.deadlines = some chain.vector
  isFirst : executable.isFirstInChain = decide (stage = 0)
  isLast : executable.isLastInChain = decide (stage = chain.last)

end Chain

namespace Chain.Member

variable {chain : Chain} {stage : Nat} {executable : PriorityExecutable}

theorem withFlag (member : chain.Member stage executable) (flag : Bool) :
    chain.Member stage { executable with canBeRun := flag } :=
  ⟨member.schedType, member.period, member.deadline, member.deadlines, member.isFirst,
    member.isLast⟩

theorem afterDispatch (member : chain.Member stage executable) (index : Nat)
    (releaseTime : Option Int) :
    chain.Member stage (executable.afterDispatch index releaseTime) :=
  ⟨member.schedType, member.period, member.deadline, member.deadlines, member.isFirst,
    member.isLast⟩

theorem counted (member : chain.Member stage executable) :
    chain.Member stage { executable with sum := executable.sum + 1 } :=
  ⟨member.schedType, member.period, member.deadline, member.deadlines, member.isFirst,
    member.isLast⟩

theorem maxChainNum (member : chain.Member stage executable) :
    executable.maxChainNum = .ok (chain.size : Int) := by
  have periodPos := chain.period_pos
  have periodFits := chain.period_fits
  have deadlinePos := chain.deadline_pos
  have deadlineFits := chain.deadline_fits
  have sizePos : 0 < IntDiv.ceilDiv chain.deadline chain.period :=
    IntDiv.pos (by omega) (by omega)
  rw [PriorityExecutable.maxChainNum, member.deadline, member.period, Chain.size,
    Int.toNat_of_nonneg sizePos.le]
  apply ceilToInt_eq <;> omega

theorem nextIndex_eq (member : chain.Member stage executable) :
    executable.nextIndex = .ok ((executable.curIndex + 1) % chain.size) := by
  have nonzero : (chain.size : Int) ≠ 0 := Int.natCast_ne_zero.mpr chain.size_pos.ne'
  simp only [PriorityExecutable.nextIndex, member.maxChainNum, bind, Except.bind, if_neg nonzero,
    Int.natAbs_natCast]

theorem nextIndex (member : chain.Member stage executable) {index : Nat}
    (result : executable.nextIndex = .ok index) :
    index = (executable.curIndex + 1) % chain.size :=
  Except.ok.inj (result.symm.trans member.nextIndex_eq)

end Chain.Member

namespace Chain

/-- The vector after the last stage has removed the front of its current deque. -/
def finish (chain : Chain) (stage index : Nat) (queues : List (List Nat)) :
    List (List Nat) :=
  if stage = chain.last then queues.modify index List.tail else queues

theorem Member.finishStage {chain : Chain} {stage : Nat} {executable : PriorityExecutable}
    {deques after : Deques} (member : chain.Member stage executable)
    (result : executable.finishStage deques = .ok after) :
    after = Function.update deques chain.vector
      (chain.finish stage executable.curIndex (deques chain.vector)) := by
  unfold finish
  by_cases isLast : stage = chain.last
  · rw [PriorityExecutable.finishStage,
      if_pos ⟨by simp [member.isLast, isLast], member.schedType⟩, member.deadlines] at result
    obtain ⟨vector, vectorEq, _, rfl⟩ := popFront_eq_ok result
    cases vectorEq
    rw [if_pos isLast]
  · rw [PriorityExecutable.finishStage, if_neg (by simp [member.isLast, isLast])] at result
    cases result
    rw [if_neg isLast, Function.update_eq_self]

/-- A dispatch of the first executable moves the release and pushes its deadline. -/
theorem Member.dispatch_first {chain : Chain} {executable : PriorityExecutable}
    {before after : Strategy} {input : DispatchInput} {handle : Handle}
    (member : chain.Member 0 executable) (notShared : before.isF1tenth = false)
    (entry : before.priorityMap handle = some executable)
    (result : before.bookkeeping input handle = .ok after) :
    ∃ release next, executable.releaseTime = some release ∧ release < next ∧
      after.deques = Function.update before.deques chain.vector
        (chain.finish 0 executable.curIndex
          ((before.deques chain.vector).modify ((executable.curIndex + 1) % chain.size)
            fun queue => queue ++ [toUint (next + chain.deadline)])) ∧
      after.priorityMap handle = some
        (executable.afterDispatch ((executable.curIndex + 1) % chain.size) (some next)) := by
  obtain ⟨release, index, next, _, _, releaseEq, indexEq, nextEq, _, pushes, finished,
    entryAfter⟩ :=
    Strategy.bookkeeping_first entry member.schedType (by simp [member.isFirst]) result
  obtain ⟨index', pushed, indexEq', pushedEq, sharedEq⟩ := pushes
  have periodPos := chain.period_pos
  obtain ⟨periods, onePeriod, nextIs⟩ := PriorityExecutable.nextRelease_later
    (by rw [member.period]; omega) nextEq
  have later : release < next := by
    have : 0 < periods * executable.period :=
      mul_pos (by omega) (by rw [member.period]; omega)
    omega
  rw [Strategy.shareDeadline, if_neg (by simp [notShared])] at sharedEq
  cases sharedEq
  rw [member.deadlines, member.nextIndex indexEq', member.deadline] at pushedEq
  obtain ⟨vector, vectorEq, _, rfl⟩ := pushBack_eq_ok pushedEq
  cases vectorEq
  refine ⟨release, next, releaseEq, later, ?_, ?_⟩
  · rw [member.finishStage finished]
    simp
  · rw [entryAfter, member.nextIndex indexEq]

/-- A dispatch of a later executable leaves the release alone. -/
theorem Member.dispatch_later {chain : Chain} {stage : Nat}
    {executable : PriorityExecutable} {before after : Strategy} {input : DispatchInput}
    {handle : Handle} (member : chain.Member stage executable) (notFirst : stage ≠ 0)
    (entry : before.priorityMap handle = some executable)
    (result : before.bookkeeping input handle = .ok after) :
    after.deques = Function.update before.deques chain.vector
        (chain.finish stage executable.curIndex (before.deques chain.vector)) ∧
      after.priorityMap handle = some
        (executable.afterDispatch ((executable.curIndex + 1) % chain.size)
          executable.releaseTime) := by
  obtain ⟨index, indexEq, finished, entryAfter⟩ :=
    Strategy.bookkeeping_later entry member.schedType (by simp [member.isFirst, notFirst])
      result
  exact ⟨member.finishStage finished, by rw [entryAfter, member.nextIndex indexEq]⟩

end Chain

/-- Any number of chains, with executables and vectors of their own. -/
structure ChainSystem (ι : Type*) where
  chain : ι → Chain
  distinct : ∀ {left right i j}, i ≤ (chain left).last → j ≤ (chain right).last →
    (chain left).executables i = (chain right).executables j → left = right ∧ i = j
  ownVector : ∀ {left right}, (chain left).vector = (chain right).vector → left = right

/-- What a run of one chain has done so far: how often each executable was
dispatched, and the deadline of each instance as an instant. -/
structure History where
  count : Nat → Nat := fun _ => 0
  instant : Nat → Int

namespace History

/-- The number of instances released, `c_0`. -/
def released (history : History) : Nat := history.count 0

/-- Record a dispatch of one stage; a dispatch of the first one releases an instance
with the given deadline. -/
def record (history : History) (stage : Nat) (deadline : Int) : History where
  count := Function.update history.count stage (history.count stage + 1)
  instant :=
    if stage = 0 then
      Function.update history.instant (history.released + 1) deadline
    else
      history.instant

/-- No executable was dispatched more often than its predecessor. -/
def InOrder (history : History) (last : Nat) : Prop :=
  ∀ stage < last, history.count (stage + 1) ≤ history.count stage

end History

namespace History

variable {history : History} {stage last : Nat} {deadline : Int}

theorem InOrder.le_of_le (inOrder : history.InOrder last) {earlier later : Nat}
    (ordered : earlier ≤ later) (inRange : later ≤ last) :
    history.count later ≤ history.count earlier := by
  induction later, ordered using Nat.le_induction with
  | base => exact Nat.le_refl _
  | succ later _ ih => exact (inOrder later (by omega)).trans (ih (by omega))

theorem InOrder.le_released (inOrder : history.InOrder last) (inRange : stage ≤ last) :
    history.count stage ≤ history.released :=
  inOrder.le_of_le (Nat.zero_le stage) inRange

@[simp] theorem count_record_self :
    (history.record stage deadline).count stage = history.count stage + 1 := by
  simp [record]

theorem count_record_of_ne {other : Nat} (different : other ≠ stage) :
    (history.record stage deadline).count other = history.count other := by
  simp [record, different]

/-- The order is kept unless the stage gets ahead of its predecessor. -/
theorem InOrder.record (inOrder : history.InOrder last)
    (ahead : ∀ previous, previous + 1 = stage →
      history.count stage < history.count previous) :
    (history.record stage deadline).InOrder last := by
  intro previous inRange
  have ordered := inOrder previous inRange
  by_cases isNext : previous + 1 = stage
  · have different : previous ≠ stage := by omega
    rw [isNext, count_record_self, count_record_of_ne different]
    exact ahead previous isNext
  · rw [count_record_of_ne isNext]
    by_cases isOwn : previous = stage
    · subst isOwn
      rw [count_record_self]
      exact ordered.trans (Nat.le_succ _)
    · rw [count_record_of_ne isOwn]
      exact ordered

/-- Instances that exist keep their deadline. -/
theorem instant_record {instance' : Nat} (exists' : instance' ≤ history.released) :
    (history.record stage deadline).instant instance' = history.instant instance' := by
  unfold record
  split
  · exact Function.update_of_ne (by omega) _ _
  · rfl

@[simp] theorem released_record_first :
    (history.record 0 deadline).released = history.released + 1 :=
  count_record_self

@[simp] theorem instant_record_first :
    (history.record 0 deadline).instant (history.released + 1) = deadline := by
  simp [record]

/-- A new instance with a later deadline than the newest one keeps the order. -/
theorem increasing_record_first
    (increasing : ∀ number < history.released,
      history.instant number < history.instant (number + 1))
    (later : history.instant history.released < deadline) :
    ∀ number < (history.record 0 deadline).released,
      (history.record 0 deadline).instant number <
        (history.record 0 deadline).instant (number + 1) := by
  intro number exists'
  rw [released_record_first] at exists'
  rcases Nat.lt_succ_iff_lt_or_eq.mp exists' with isOld | rfl
  · rw [instant_record (by omega), instant_record (by omega)]
    exact increasing number isOld
  · rw [instant_record (Nat.le_refl _), instant_record_first]
    exact later

/-- The new instance is at the back of the deque of its number. -/
theorem ring_record_first {size first : Nat} (unfinished : first ≤ history.released) :
    SlotRing.ring (fun number => toUint ((history.record 0 deadline).instant number)) size
        first (history.released + 1 + 1) =
      (SlotRing.ring (fun number => toUint (history.instant number)) size first
        (history.released + 1)).modify ((history.released + 1) % size) fun queue =>
          queue ++ [toUint deadline] := by
  rw [SlotRing.ring_push (by omega), instant_record_first]
  congr 1
  refine SlotRing.ring_congr fun number _ exists' => ?_
  rw [instant_record (by omega)]

end History

/-! ## The invariant of one chain -/

namespace Chain

/-- What holds of a chain between dispatches.  The counters may start anywhere, and after
2^32 dispatches they are there again. -/
structure Ring (chain : Chain) (counter : Nat → Int) (strategy : Strategy)
    (history : History) : Prop where
  inOrder : history.InOrder chain.last
  increasing : ∀ number < history.released,
    history.instant number < history.instant (number + 1)
  vector : strategy.deques chain.vector =
    SlotRing.ring (fun number => toUint (history.instant number)) chain.size
      (history.count chain.last) (history.released + 1)
  member : ∀ stage ≤ chain.last, ∃ executable,
    strategy.priorityMap (chain.executables stage) = some executable ∧
    chain.Member stage executable ∧
    executable.curIndex = history.count stage % chain.size ∧
    executable.counter = toInt32 (counter stage + history.count stage) ∧
    (stage = 0 → executable.releaseTime =
      some (history.instant history.released - chain.deadline))

theorem Ring.flagsOnly {chain : Chain} {counter : Nat → Int} {before after : Strategy}
    {history : History} (ring : chain.Ring counter before history)
    (same : FlagsOnly before after) : chain.Ring counter after history := by
  refine ⟨ring.inOrder, ring.increasing, by rw [same.deques, ring.vector], ?_⟩
  intro stage inRange
  obtain ⟨executable, entry, member, curIndex, counterEq, releaseTime⟩ :=
    ring.member stage inRange
  obtain ⟨flag, entryAfter⟩ := same.entry entry
  exact ⟨_, entryAfter, member.withFlag flag, curIndex, counterEq, releaseTime⟩

/-- Chains with other executables and another vector are not touched. -/
theorem Ring.frame {chain : Chain} {counter : Nat → Int} {before after : Strategy}
    {history : History} (ring : chain.Ring counter before history)
    (vector : after.deques chain.vector = before.deques chain.vector)
    (entries : ∀ stage ≤ chain.last,
      after.priorityMap (chain.executables stage) =
        before.priorityMap (chain.executables stage)) :
    chain.Ring counter after history := by
  refine ⟨ring.inOrder, ring.increasing, by rw [vector, ring.vector], ?_⟩
  intro stage inRange
  rw [entries stage inRange]
  exact ring.member stage inRange

/-- Popping at the last stage drops the oldest instance of the ring. -/
theorem finish_ring {chain : Chain} {history : History} {stage past : Nat}
    {value : Nat → Nat} {deadline : Int} (ordered : history.count chain.last < past) :
    chain.finish stage (history.count stage % chain.size)
        (SlotRing.ring value chain.size (history.count chain.last) past) =
      SlotRing.ring value chain.size ((history.record stage deadline).count chain.last)
        past := by
  unfold finish
  split
  next isLast =>
    subst isLast
    rw [History.count_record_self, SlotRing.ring_pop ordered]
  next notLast => rw [History.count_record_of_ne (Ne.symm notLast)]

/-- The entries of the other stages are as before the dispatch. -/
theorem Ring.member_other {chain : Chain} {counter : Nat → Int}
    {before after : Strategy} {history : History} {stage other : Nat} {deadline : Int}
    {input : DispatchInput} (ring : chain.Ring counter before history)
    (distinct : ∀ {i j}, i ≤ chain.last → j ≤ chain.last →
      chain.executables i = chain.executables j → i = j)
    (inRange : stage ≤ chain.last) (otherInRange : other ≤ chain.last)
    (different : other ≠ stage)
    (result : before.bookkeeping input (chain.executables stage) = .ok after) :
    ∃ executable,
      after.priorityMap (chain.executables other) = some executable ∧
      chain.Member other executable ∧
      executable.curIndex = (history.record stage deadline).count other % chain.size ∧
      executable.counter = toInt32 (counter other + (history.record stage deadline).count other) ∧
      (other = 0 → executable.releaseTime =
        some (history.instant history.released - chain.deadline)) := by
  have handles : chain.executables other ≠ chain.executables stage :=
    fun same => different (distinct otherInRange inRange same)
  rw [(Strategy.bookkeeping_frame result).2 _ handles,
    History.count_record_of_ne different]
  exact ring.member other otherInRange

/-- The dispatched executable has moved on by one deque and one count. -/
theorem afterDispatch_count {chain : Chain} {history : History} {stage : Nat}
    {deadline start : Int} {executable : PriorityExecutable} {releaseTime : Option Int}
    (curIndex : executable.curIndex = history.count stage % chain.size)
    (counterEq : executable.counter = toInt32 (start + history.count stage)) :
    (executable.afterDispatch ((executable.curIndex + 1) % chain.size) releaseTime).curIndex =
        (history.record stage deadline).count stage % chain.size ∧
      (executable.afterDispatch ((executable.curIndex + 1) % chain.size)
        releaseTime).counter =
          toInt32 (start + (history.record stage deadline).count stage) := by
  rw [History.count_record_self]
  constructor
  · simp only [PriorityExecutable.afterDispatch, curIndex]
    exact Nat.mod_add_mod _ _ _
  · simp only [PriorityExecutable.afterDispatch, counterEq]
    rw [toInt32_toInt32_add, add_assoc, Nat.cast_succ]

/-- A dispatch of the first executable adds the next instance to the ring. -/
theorem Ring.bookkeeping_first {chain : Chain} {counter : Nat → Int}
    {before after : Strategy} {history : History} {input : DispatchInput}
    (ring : chain.Ring counter before history) (notShared : before.isF1tenth = false)
    (distinct : ∀ {i j}, i ≤ chain.last → j ≤ chain.last →
      chain.executables i = chain.executables j → i = j)
    (inOrder : ∀ deadline, (history.record 0 deadline).InOrder chain.last)
    (result : before.bookkeeping input (chain.executables 0) = .ok after) :
    ∃ next, after.releaseTimeOf (chain.executables 0) = some next ∧
      (∃ queues, after.deques = Function.update before.deques chain.vector queues) ∧
      chain.Ring counter after (history.record 0 (next + chain.deadline)) := by
  obtain ⟨executable, entry, member, curIndex, counterEq, releaseTime⟩ :=
    ring.member 0 (Nat.zero_le _)
  have unfinished := ring.inOrder.le_released (Nat.le_refl chain.last)
  obtain ⟨release, next, releaseEq, later, dequesEq, entryAfter⟩ :=
    member.dispatch_first notShared entry result
  have releaseIs : release = history.instant history.released - chain.deadline :=
    Option.some.inj (releaseEq.symm.trans (releaseTime rfl))
  refine ⟨next, by simp [Strategy.releaseTimeOf, entryAfter,
    PriorityExecutable.afterDispatch], ⟨_, dequesEq⟩, inOrder _, ?_, ?_, ?_⟩
  · exact History.increasing_record_first ring.increasing (by omega)
  · rw [dequesEq, Function.update_self, curIndex, ring.vector, Nat.mod_add_mod,
      History.released_record_first, ← finish_ring (by omega),
      History.ring_record_first unfinished]
    rfl
  · intro stage inRange
    by_cases isFirst : stage = 0
    · subst isFirst
      obtain ⟨indexAfter, counterAfter⟩ := afterDispatch_count curIndex counterEq
      refine ⟨_, entryAfter, member.afterDispatch _ _, indexAfter, counterAfter, ?_⟩
      intro _
      simp [PriorityExecutable.afterDispatch]
    · obtain ⟨other, otherEntry, otherMember, otherIndex, otherCounter, _⟩ :=
        ring.member_other distinct (Nat.zero_le _) inRange isFirst result
      exact ⟨other, otherEntry, otherMember, otherIndex, otherCounter,
        fun isFirst' => absurd isFirst' isFirst⟩

/-- A dispatch of a later executable adds no instance; the last one removes the oldest. -/
theorem Ring.bookkeeping_later {chain : Chain} {counter : Nat → Int}
    {before after : Strategy} {history : History} {stage : Nat} {deadline : Int}
    {input : DispatchInput} (ring : chain.Ring counter before history)
    (distinct : ∀ {i j}, i ≤ chain.last → j ≤ chain.last →
      chain.executables i = chain.executables j → i = j)
    (notFirst : stage ≠ 0) (inRange : stage ≤ chain.last)
    (inOrder : (history.record stage deadline).InOrder chain.last)
    (result : before.bookkeeping input (chain.executables stage) = .ok after) :
    (∃ queues, after.deques = Function.update before.deques chain.vector queues) ∧
      chain.Ring counter after (history.record stage deadline) := by
  obtain ⟨executable, entry, member, curIndex, counterEq, _⟩ := ring.member stage inRange
  have unfinished := ring.inOrder.le_released (Nat.le_refl chain.last)
  obtain ⟨dequesEq, entryAfter⟩ := member.dispatch_later notFirst entry result
  have sameInstants : (history.record stage deadline).instant = history.instant := by
    simp [History.record, notFirst]
  have releasedEq : (history.record stage deadline).released = history.released :=
    History.count_record_of_ne (Ne.symm notFirst)
  refine ⟨⟨_, dequesEq⟩, inOrder, ?_, ?_, ?_⟩
  · rw [sameInstants, releasedEq]
    exact ring.increasing
  · rw [dequesEq, Function.update_self, curIndex, ring.vector, releasedEq, sameInstants,
      finish_ring (by omega)]
  · intro other otherInRange
    rw [sameInstants, releasedEq]
    by_cases same : other = stage
    · subst same
      obtain ⟨indexAfter, counterAfter⟩ := afterDispatch_count curIndex counterEq
      exact ⟨_, entryAfter, member.afterDispatch _ _, indexAfter, counterAfter,
        fun isFirst => absurd isFirst notFirst⟩
    · exact ring.member_other distinct inRange otherInRange same result

/-- The current deque of a stage holds the unfinished instances of its residue class. -/
theorem Ring.currentQueue {chain : Chain} {counter : Nat → Int} {strategy : Strategy}
    {history : History} (ring : chain.Ring counter strategy history) {stage : Nat}
    {executable : PriorityExecutable} (member : chain.Member stage executable)
    (curIndex : executable.curIndex = history.count stage % chain.size) :
    executable.currentQueue strategy.deques =
      (SlotRing.contents chain.size (history.count chain.last) (history.released + 1)
        (history.count stage % chain.size)).map
          fun number => toUint (history.instant number) := by
  simp only [PriorityExecutable.currentQueue, member.deadlines]
  rw [ring.vector, curIndex, SlotRing.getD_ring (Nat.mod_lt _ chain.size_pos)]

/-- Its front is the oldest unfinished instance of that class, which is the instance
that the stage takes next as long as fewer than `M` are unfinished. -/
theorem Ring.head?_currentQueue {chain : Chain} {counter : Nat → Int}
    {strategy : Strategy} {history : History} (ring : chain.Ring counter strategy history)
    {stage : Nat} (inRange : stage ≤ chain.last) {executable : PriorityExecutable}
    (member : chain.Member stage executable)
    (curIndex : executable.curIndex = history.count stage % chain.size) :
    (executable.currentQueue strategy.deques).head? =
      some (toUint (history.instant (history.count chain.last +
        (history.count stage - history.count chain.last) % chain.size))) := by
  have lower := ring.inOrder.le_of_le inRange (Nat.le_refl chain.last)
  have upper := ring.inOrder.le_released inRange
  rw [ring.currentQueue member curIndex, List.head?_map,
    SlotRing.head?_contents lower (by omega), Option.map_some]

theorem Member.finishStage_ne_error {chain : Chain} {stage : Nat}
    {executable : PriorityExecutable} {deques : Deques} {fault : Fault}
    (member : chain.Member stage executable)
    (inBounds : executable.curIndex < (deques chain.vector).length) :
    executable.finishStage deques ≠ .error fault := by
  unfold PriorityExecutable.finishStage
  split
  · simp [popFront, member.deadlines, inBounds]
  · simp

/-- The release update of the first executable finds its pointers and its deque. -/
theorem Member.releaseNext_fault {chain : Chain} {strategy : Strategy}
    {executable : PriorityExecutable} {input : DispatchInput} {fault : Fault}
    {release : Int} (member : chain.Member 0 executable)
    (notShared : strategy.isF1tenth = false)
    (releaseTime : executable.releaseTime = some release)
    (length : (strategy.deques chain.vector).length = chain.size)
    (result : strategy.releaseNext input executable = .error fault) :
    executable.nextRelease input.millis release = .error fault := by
  rw [Strategy.releaseNext, releaseTime] at result
  rcases Except.bind_eq_error.mp result with failed | ⟨index, indexEq, result⟩
  · rw [member.nextIndex_eq] at failed
    cases failed
  rcases Except.bind_eq_error.mp result with failed | ⟨next, nextEq, result⟩
  · exact failed
  have inBounds : index < (strategy.deques chain.vector).length := by
    rw [length, member.nextIndex indexEq]
    exact Nat.mod_lt _ chain.size_pos
  simp [pushBack, member.deadlines, inBounds, Strategy.shareDeadline, notShared,
    bind, Except.bind] at result

/-- The release stage keeps the registration, the index and the number of deques. -/
theorem Member.releaseStage {chain : Chain} {stage : Nat} {strategy : Strategy}
    {executable released : PriorityExecutable} {input : DispatchInput} {deques : Deques}
    (member : chain.Member stage executable)
    (result : strategy.releaseStage input executable = .ok (released, deques)) :
    chain.Member stage released ∧ released.curIndex = executable.curIndex ∧
      (deques chain.vector).length = (strategy.deques chain.vector).length := by
  unfold Strategy.releaseStage at result
  split at result
  · obtain ⟨_, _, _, pushed, _, _, _, pushedEq, sharedEq, rfl⟩ :=
      Strategy.releaseNext_eq_ok result
    refine ⟨⟨member.schedType, member.period, member.deadline, member.deadlines,
      member.isFirst, member.isLast⟩, rfl, ?_⟩
    rw [Strategy.length_of_shareDeadline sharedEq, length_of_pushBack pushedEq]
  · cases result
    exact ⟨member, rfl, rfl⟩

/-- The later stages of a dispatch do not fail, as long as the current deque exists. -/
theorem Member.bookkeeping_fault {chain : Chain} {stage : Nat} {strategy : Strategy}
    {executable : PriorityExecutable} {input : DispatchInput} {handle : Handle}
    {fault : Fault} (member : chain.Member stage executable)
    (entry : strategy.priorityMap handle = some executable)
    (length : (strategy.deques chain.vector).length = chain.size)
    (inBounds : executable.curIndex < chain.size)
    (result : strategy.bookkeeping input handle = .error fault) :
    strategy.releaseStage input { executable with sum := executable.sum + 1 } =
      .error fault := by
  rcases Strategy.bookkeeping_eq_error entry result with
    failed | ⟨released, pushed, releasedEq, failed | failed⟩
  · exact failed
  · obtain ⟨releasedMember, sameIndex, sameLength⟩ := member.counted.releaseStage releasedEq
    refine absurd failed (releasedMember.finishStage_ne_error ?_)
    rw [sameIndex, sameLength, length]
    exact inBounds
  · obtain ⟨releasedMember, _, _⟩ := member.counted.releaseStage releasedEq
    rw [PriorityExecutable.indexStage, if_pos releasedMember.schedType,
      releasedMember.nextIndex_eq] at failed
    cases failed

end Chain

/-! ## All chains together -/

section System

variable {ι : Type*}

/-- A run state: the strategy, and what happened in each chain. -/
abbrev ChainState (ι : Type*) := Strategy × (ι → History)

namespace ChainSystem

variable (system : ChainSystem ι)

/-- The state after set-up: each vector holds the deadline of instance 0 in its first
deque and nothing else, and every executable starts at that deque. -/
structure Initial (release : ι → Int) (counter : ι → Nat → Int) (state : ChainState ι) :
    Prop where
  notShared : state.1.isF1tenth = false
  vector : ∀ index, state.1.deques (system.chain index).vector =
    [toUint (release index + (system.chain index).deadline)] ::
      List.replicate ((system.chain index).size - 1) []
  member : ∀ index, ∀ stage ≤ (system.chain index).last, ∃ executable,
    state.1.priorityMap ((system.chain index).executables stage) = some executable ∧
    (system.chain index).Member stage executable ∧
    executable.curIndex = 0 ∧ executable.counter = toInt32 (counter index stage) ∧
    (stage = 0 → executable.releaseTime = some (release index))
  history : state.2 = fun index =>
    { instant := fun _ => release index + (system.chain index).deadline }

/-- The invariant of a run. -/
structure Invariant (release : ι → Int) (counter : ι → Nat → Int)
    (state : ChainState ι) : Prop where
  notShared : state.1.isF1tenth = false
  start : ∀ index,
    (state.2 index).instant 0 = release index + (system.chain index).deadline
  ring : ∀ index, (system.chain index).Ring (counter index) state.1 (state.2 index)

variable {system} {release : ι → Int} {counter : ι → Nat → Int}

theorem Initial.invariant {state : ChainState ι}
    (initial : system.Initial release counter state) :
    system.Invariant release counter state := by
  refine ⟨initial.notShared, fun index => by rw [initial.history], fun index => ?_⟩
  rw [initial.history]
  refine ⟨fun _ _ => Nat.le_refl 0, fun _ impossible => absurd impossible (Nat.not_lt_zero _),
    ?_, ?_⟩
  · rw [initial.vector]
    change _ = SlotRing.ring
      (fun _ => toUint (release index + (system.chain index).deadline)) _ 0 1
    rw [SlotRing.ring_zero_one (system.chain index).size_pos]
  · intro stage inRange
    obtain ⟨executable, entry, member, curIndex, counterEq, releaseTime⟩ :=
      initial.member index stage inRange
    refine ⟨executable, entry, member, by simp [curIndex], by simp [counterEq], ?_⟩
    intro isFirst
    rw [releaseTime isFirst]
    simp

variable [DecidableEq ι]

variable (system) in
/-- A dispatch of one stage of one chain, recorded in its history.  The deadline of a
new instance is the release time right after the dispatch plus the relative one. -/
def Dispatch (before : ChainState ι) (label : ι × Nat) (after : ChainState ι) : Prop :=
  label.2 ≤ (system.chain label.1).last ∧
    DispatchStep before.1 ((system.chain label.1).executables label.2) after.1 ∧
    after.2 = Function.update before.2 label.1 ((before.2 label.1).record label.2
      ((after.1.releaseTimeOf ((system.chain label.1).executables 0)).getD 0 +
        (system.chain label.1).deadline))

variable (system) in
/-- A dispatch after which no stage of the chain is ahead of its predecessor. -/
def LosslessDispatch (before : ChainState ι) (label : ι × Nat) (after : ChainState ι) :
    Prop :=
  system.Dispatch before label after ∧
    (after.2 label.1).InOrder (system.chain label.1).last

theorem Invariant.step {before after : ChainState ι} {label : ι × Nat}
    (held : system.Invariant release counter before)
    (dispatch : system.LosslessDispatch before label after) :
    system.Invariant release counter after := by
  obtain ⟨index, stage⟩ := label
  obtain ⟨⟨inRange, ⟨current, input, same, result⟩, historyEq⟩, inOrder⟩ := dispatch
  simp only at inRange result historyEq inOrder
  have notShared : current.isF1tenth = false := same.isF1tenth.trans held.notShared
  have frame := Strategy.bookkeeping_frame result
  have ring := (held.ring index).flagsOnly same
  have distinct : ∀ {i j}, i ≤ (system.chain index).last → j ≤ (system.chain index).last →
      (system.chain index).executables i = (system.chain index).executables j → i = j :=
    fun left right equal => (system.distinct left right equal).2
  rw [historyEq, Function.update_self] at inOrder
  -- the dispatched chain keeps its ring, and only its vector changes
  have own : (∃ queues, after.1.deques =
        Function.update current.deques (system.chain index).vector queues) ∧
      (system.chain index).Ring (counter index) after.1 (after.2 index) := by
    rw [historyEq, Function.update_self]
    by_cases isFirst : stage = 0
    · subst isFirst
      obtain ⟨next, nextEq, touched, ringAfter⟩ :=
        ring.bookkeeping_first notShared distinct (fun _ => inOrder) result
      rw [nextEq]
      exact ⟨touched, ringAfter⟩
    · exact ring.bookkeeping_later distinct isFirst inRange inOrder result
  obtain ⟨⟨queues, touched⟩, ownRing⟩ := own
  refine ⟨frame.1.trans notShared, ?_, ?_⟩
  · intro other
    rw [historyEq]
    by_cases isOwn : other = index
    · subst isOwn
      rw [Function.update_self, History.instant_record (Nat.zero_le _)]
      exact held.start other
    · rw [Function.update_of_ne isOwn]
      exact held.start other
  · intro other
    by_cases isOwn : other = index
    · subst isOwn
      exact ownRing
    · rw [historyEq, Function.update_of_ne isOwn]
      refine ((held.ring other).flagsOnly same).frame ?_ ?_
      · rw [touched]
        exact Function.update_of_ne (fun equal => isOwn (system.ownVector equal)) _ _
      · intro otherStage otherInRange
        exact frame.2 _ fun equal => isOwn (system.distinct otherInRange inRange equal).1

instance (history : History) (last : Nat) : Decidable (history.InOrder last) :=
  inferInstanceAs (Decidable (∀ stage < last, _))

variable (system) in
/-- Execute one dispatch at a clock time, if it succeeds and keeps the order. -/
def execute (state : ChainState ι) (entry : (ι × Nat) × Int) : Option (ChainState ι) :=
  match state.1.bookkeeping { millis := entry.2 }
      ((system.chain entry.1.1).executables entry.1.2) with
  | .error _ => none
  | .ok strategy =>
      let histories := Function.update state.2 entry.1.1
        ((state.2 entry.1.1).record entry.1.2
          ((strategy.releaseTimeOf ((system.chain entry.1.1).executables 0)).getD 0 +
            (system.chain entry.1.1).deadline))
      if entry.1.2 ≤ (system.chain entry.1.1).last ∧
          (histories entry.1.1).InOrder (system.chain entry.1.1).last then
        some (strategy, histories)
      else
        none

theorem execute_sound {before after : ChainState ι} {entry : (ι × Nat) × Int}
    (result : system.execute before entry = some after) :
    system.LosslessDispatch before entry.1 after := by
  unfold execute at result
  split at result
  next => cases result
  next strategy update =>
    simp only at result
    split at result
    next allowed =>
      cases result
      exact ⟨⟨allowed.1, ⟨_, _, .refl _, update⟩, rfl⟩, allowed.2⟩
    next => cases result

/-- The invariant holds in every state that dispatches in order can reach. -/
theorem Initial.invariant_of_run {start stop : ChainState ι} {labels : List (ι × Nat)}
    (initial : system.Initial release counter start)
    (run : Steps system.LosslessDispatch start labels stop) :
    system.Invariant release counter stop :=
  run.invariant (system.Invariant release counter) initial.invariant Invariant.step

end ChainSystem

end System

/-! ## A chain to try the results on -/

/-- One chain of period 10 and deadline 20, on handles `0, …, last` and vector 0. -/
def sampleSystem (last : Nat) : ChainSystem Unit where
  chain _ := {
    executables := id
    last
    vector := 0
    period := 10
    deadline := 20
    period_pos := by decide
    deadline_pos := by decide
    period_fits := by decide
    deadline_fits := by decide }
  distinct _ _ same := ⟨rfl, same⟩
  ownVector _ := rfl

/-- Its set-up with the first release. -/
def sampleStart (last : Nat) (release : Int := 0) : ChainState Unit :=
  ({ priorityMap := fun handle =>
        if handle ≤ last then
          some { PriorityExecutable.ofDeadline 10 20 .subscription .deadline with
            isFirstInChain := decide (handle = 0)
            isLastInChain := decide (handle = last)
            deadlines := some 0
            releaseTime := some release }
        else none
     deques := fun _ => [[toUint (release + 20)], []] },
    fun _ => { instant := fun _ => release + 20 })

theorem sampleStart_initial (last : Nat) (release : Int := 0) :
    (sampleSystem last).Initial (fun _ => release) (fun _ _ => 0)
      (sampleStart last release) where
  notShared := rfl
  vector _ := rfl
  member _ _ inRange := ⟨_, if_pos inRange, ⟨rfl, rfl, rfl, rfl, rfl, rfl⟩, rfl, rfl,
    fun _ => rfl⟩
  history := rfl

end PriorityExecutor
