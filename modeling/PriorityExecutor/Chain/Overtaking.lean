import PriorityExecutor.Chain.Ring

/-!
# Overtaking inside a chain

Two executables of a chain are compared by the fronts of their current deques.  The
front of a deque is the oldest unfinished instance of its class, so the comparison
sees the instances modulo the number of deques.  Fewer than `M` instances beyond the
oldest unfinished one keep their order; from `M` on an executable that is ahead can
stand at the deque of an older instance and is then served first.
-/

namespace PriorityExecutor

/-- The comparator serves `left` before `right`, whichever way it is asked. -/
def RanksAhead (deques : Deques) (left right : PriorityExecutable) : Prop :=
  comparator deques right left = true ∧ comparator deques left right = false

instance (deques : Deques) (left right : PriorityExecutable) :
    Decidable (RanksAhead deques left right) :=
  inferInstanceAs (Decidable (_ ∧ _))

/-- For two `DEADLINE` executables that have deadlines, the earlier one is ahead, and
the smaller counter decides between equal ones. -/
theorem ranksAhead_iff {deques : Deques} {left right : PriorityExecutable}
    (leftType : left.schedType = .deadline) (rightType : right.schedType = .deadline)
    (leftDeadline : left.currentDeadline deques ≠ 0)
    (rightDeadline : right.currentDeadline deques ≠ 0) :
    RanksAhead deques left right ↔
      left.currentDeadline deques < right.currentDeadline deques ∨
        left.currentDeadline deques = right.currentDeadline deques ∧
          left.counter < right.counter := by
  simp only [RanksAhead, comparator, leftType, rightType, ne_eq, not_true_eq_false,
    ↓reduceIte, leftDeadline, rightDeadline]
  by_cases equal : left.currentDeadline deques = right.currentDeadline deques
  · simp [equal]
    omega
  · simp [equal, Ne.symm equal]
    omega

namespace Chain

/-- The deadlines of all unfinished instances fit the deques and are not zero. -/
def DeadlinesInRange (chain : Chain) (history : History) : Prop :=
  ∀ number, history.count chain.last ≤ number → number ≤ history.released →
    0 < history.instant number ∧ history.instant number < 2 ^ 32

/-- How far the oldest unfinished instance in the deque of `stage` is behind the
oldest one of all. -/
def frontGap (chain : Chain) (history : History) (stage : Nat) : Nat :=
  (history.count stage - history.count chain.last) % chain.size

variable {chain : Chain} {counter : Nat → Int} {strategy : Strategy} {history : History}

theorem Ring.instant_lt (ring : chain.Ring counter strategy history) {left right : Nat}
    (ordered : left < right) (exists' : right ≤ history.released) :
    history.instant left < history.instant right := by
  induction right, ordered using Nat.le_induction with
  | base => exact ring.increasing left exists'
  | succ right _ ih => exact (ih (by omega)).trans (ring.increasing right exists')

/-- The front that the comparator reads is an instance within range. -/
theorem Ring.currentDeadline (ring : chain.Ring counter strategy history)
    (inRange : chain.DeadlinesInRange history) {stage : Nat} (isStage : stage ≤ chain.last)
    {executable : PriorityExecutable} (member : chain.Member stage executable)
    (curIndex : executable.curIndex = history.count stage % chain.size) :
    history.count chain.last + chain.frontGap history stage ≤ history.released ∧
      0 < history.instant (history.count chain.last + chain.frontGap history stage) ∧
      (executable.currentDeadline strategy.deques : Int) =
        history.instant (history.count chain.last + chain.frontGap history stage) := by
  have lower := ring.inOrder.le_of_le isStage (Nat.le_refl chain.last)
  have upper := ring.inOrder.le_released isStage
  have gap : chain.frontGap history stage ≤
      history.count stage - history.count chain.last := Nat.mod_le _ _
  have front := ring.head?_currentQueue isStage member curIndex
  have exists' : history.count chain.last + chain.frontGap history stage ≤
      history.released := by omega
  obtain ⟨positive, fits⟩ := inRange _ (Nat.le_add_right _ _) exists'
  refine ⟨exists', positive, ?_⟩
  rw [PriorityExecutable.currentDeadline, front, Option.getD_some]
  exact toUint_of_range positive.le fits

/-- Counters that have not overflowed are dispatch counts. -/
theorem counter_lt {left right : Nat} (fewer : left < right) (counted : right < 2 ^ 31) :
    toInt32 (0 + left) < toInt32 (0 + right) := by
  rw [zero_add, zero_add, toInt32_natCast counted, toInt32_natCast (fewer.trans counted)]
  exact Int.ofNat_lt.mpr fewer

/-- Of two stages the one with the smaller counter is served first exactly when its
deque does not start with a later instance than the other's. -/
theorem Ring.ranksAhead_iff (ring : chain.Ring (fun _ => 0) strategy history)
    (inRange : chain.DeadlinesInRange history) {left right : Nat}
    (leftStage : left ≤ chain.last) (rightStage : right ≤ chain.last)
    (fewer : toInt32 (0 + history.count left) < toInt32 (0 + history.count right)) :
    ∃ earlier later,
      strategy.priorityMap (chain.executables left) = some earlier ∧
      strategy.priorityMap (chain.executables right) = some later ∧
      (RanksAhead strategy.deques earlier later ↔
        chain.frontGap history left ≤ chain.frontGap history right) := by
  obtain ⟨earlier, leftEntry, leftMember, leftIndex, leftCounter, _⟩ :=
    ring.member left leftStage
  obtain ⟨later, rightEntry, rightMember, rightIndex, rightCounter, _⟩ :=
    ring.member right rightStage
  refine ⟨earlier, later, leftEntry, rightEntry, ?_⟩
  obtain ⟨leftExists, leftPos, leftFront⟩ :=
    ring.currentDeadline inRange leftStage leftMember leftIndex
  obtain ⟨rightExists, rightPos, rightFront⟩ :=
    ring.currentDeadline inRange rightStage rightMember rightIndex
  rw [PriorityExecutor.ranksAhead_iff leftMember.schedType rightMember.schedType
    (by omega) (by omega)]
  rw [← leftCounter, ← rightCounter] at fewer
  clear leftCounter rightCounter
  rcases Nat.lt_trichotomy (chain.frontGap history left) (chain.frontGap history right)
    with less | same | greater
  · have sooner := ring.instant_lt (Nat.add_lt_add_left less _) rightExists
    constructor <;> intro _ <;> omega
  · rw [same] at leftFront
    constructor <;> intro _ <;> omega
  · have sooner := ring.instant_lt (Nat.add_lt_add_left greater _) leftExists
    constructor <;> intro _ <;> omega

end Chain

namespace ChainSystem

variable {ι : Type*} [DecidableEq ι] {system : ChainSystem ι} {release : ι → Int}

/-- Of two stages of a chain, in any state that dispatches in order can reach, the one
dispatched less often is served first if and only if, modulo the number of deques, it
is not further from the oldest unfinished instance; so it is whenever the other one is
fewer than `M` instances beyond that.  The dispatch counters must not have overflowed. -/
theorem ranksAhead_iff_frontGap_le {start stop : ChainState ι} {labels : List (ι × Nat)}
    (initial : system.Initial release (fun _ _ => 0) start)
    (run : Steps system.LosslessDispatch start labels stop) (index : ι)
    (inRange : (system.chain index).DeadlinesInRange (stop.2 index)) {left right : Nat}
    (leftStage : left ≤ (system.chain index).last)
    (rightStage : right ≤ (system.chain index).last)
    (fewer : (stop.2 index).count left < (stop.2 index).count right)
    (counted : (stop.2 index).count right < 2 ^ 31) :
    ∃ earlier later,
      stop.1.priorityMap ((system.chain index).executables left) = some earlier ∧
      stop.1.priorityMap ((system.chain index).executables right) = some later ∧
      (RanksAhead stop.1.deques earlier later ↔
        (system.chain index).frontGap (stop.2 index) left ≤
          (system.chain index).frontGap (stop.2 index) right) ∧
      ((stop.2 index).count right - (stop.2 index).count (system.chain index).last <
        (system.chain index).size → RanksAhead stop.1.deques earlier later) := by
  have ring := (initial.invariant_of_run run).ring index
  obtain ⟨earlier, later, leftEntry, rightEntry, ahead⟩ :=
    ring.ranksAhead_iff inRange leftStage rightStage (Chain.counter_lt fewer counted)
  refine ⟨earlier, later, leftEntry, rightEntry, ahead, ?_⟩
  intro close
  rw [ahead, Chain.frontGap, Chain.frontGap, Nat.mod_eq_of_lt close, Nat.mod_eq_of_lt]
  all_goals omega

/-- One release: the second executable comes before the first. -/
theorem ranksAhead_iff_frontGap_le_once :
    ∃ stop earlier later, Steps (sampleSystem 2).LosslessDispatch (sampleStart 2)
        [((), 0)] stop ∧
      stop.1.priorityMap 1 = some earlier ∧ stop.1.priorityMap 0 = some later ∧
      RanksAhead stop.1.deques earlier later := by
  have run : ∃ stop, Steps (sampleSystem 2).LosslessDispatch (sampleStart 2) [((), 0)] stop ∧
      (stop.2 ()).count 0 = 1 ∧ (stop.2 ()).count 1 = 0 ∧ (stop.2 ()).count 2 = 0 ∧
      (stop.2 ()).instant 0 = 20 ∧ (stop.2 ()).instant 1 = 30 :=
    ⟨_, Steps.of_replay Prod.fst ChainSystem.execute_sound [(((), 0), 0)] rfl,
      rfl, rfl, rfl, rfl, rfl⟩
  obtain ⟨stop, run, released, second, last, oldest, newest⟩ := run
  have inRange : ((sampleSystem 2).chain ()).DeadlinesInRange (stop.2 ()) := by
    intro number _ exists'
    rw [History.released, released] at exists'
    rcases Nat.le_one_iff_eq_zero_or_eq_one.mp exists' with rfl | rfl
    · rw [oldest]
      decide
    · rw [newest]
      decide
  obtain ⟨earlier, later, leftEntry, rightEntry, _, close⟩ :=
    ranksAhead_iff_frontGap_le (sampleStart_initial 2) run () inRange
      (show 1 ≤ 2 by decide) (show 0 ≤ 2 by decide) (by omega) (by omega)
  refine ⟨stop, earlier, later, run, leftEntry, rightEntry, close ?_⟩
  change (stop.2 ()).count 0 - (stop.2 ()).count 2 < 2
  omega

/-- With two deques, the first executable is dispatched twice and the second once:
then the first stands at the deque of instance 0, the second at that of instance 1. -/
theorem overtaken_by_predecessor :
    ∃ stop first second, Steps (sampleSystem 2).LosslessDispatch (sampleStart 2)
        [((), 0), ((), 0), ((), 1)] stop ∧
      stop.1.priorityMap 0 = some first ∧ stop.1.priorityMap 1 = some second ∧
      (stop.2 ()).count 2 < (stop.2 ()).count 1 ∧
      (stop.2 ()).count 1 < (stop.2 ()).count 0 ∧
      ¬ RanksAhead stop.1.deques second first ∧ RanksAhead stop.1.deques first second :=
  ⟨_, _, _, Steps.of_replay Prod.fst ChainSystem.execute_sound
    [(((), 0), 0), (((), 0), 10), (((), 1), 12)] rfl, rfl, rfl, by decide, by decide,
    by decide, by decide⟩

end ChainSystem

end PriorityExecutor
