import Mathlib.Data.Prod.Lex
import Mathlib.Order.Lattice
import PriorityExecutor.Foundation.StdHeap
import PriorityExecutor.Strategy.State

/-!
# The dispatch comparator and the rank it implements

`PriorityExecutableComparator` is a cascade over the schedule classes.  Two
`DEADLINE` executables without a deadline compare as less in both directions, so
it is no strict weak ordering; it still never contradicts `Outranks`, the order
in which executables are meant to be served.  `compare_compatible` states that,
and the heap library needs nothing more.
-/

namespace PriorityExecutor

namespace PriorityExecutable

/-- The deque at `(*deadlines)[*cur_index]`; a null vector counts as an empty
deque, as in the guard of the comparator. -/
def currentQueue (deques : Deques) (executable : PriorityExecutable) : List Nat :=
  match executable.deadlines with
  | none => []
  | some vector => (deques vector).getD executable.curIndex []

/-- The comparator's local `p1_deadline`: the front of the current deque, or zero. -/
def currentDeadline (deques : Deques) (executable : PriorityExecutable) : Nat :=
  (executable.currentQueue deques).head?.getD 0

end PriorityExecutable

/-- `PriorityExecutableComparator::operator()` on two non-null pointers: `true`
means that `left` is served after `right`. -/
def comparator (deques : Deques) (left right : PriorityExecutable) : Bool :=
  if left.schedType ≠ right.schedType then
    if left.schedType = .deadline then false
    else if right.schedType = .deadline then true
    else if left.schedType = .chainIndependentPriority then false
    else if right.schedType = .chainIndependentPriority then true
    else if left.schedType = .chainAwarePriority then false
    else true
  else
    match left.schedType with
    | .chainIndependentPriority => decide (left.priority > right.priority)
    | .chainAwarePriority =>
        if left.priority ≠ right.priority then decide (left.priority < right.priority)
        else false
    | .deadline =>
        let leftDeadline := left.currentDeadline deques
        let rightDeadline := right.currentDeadline deques
        if leftDeadline = 0 then true
        else if rightDeadline = 0 then false
        else if leftDeadline = rightDeadline then decide (left.counter > right.counter)
        else decide (leftDeadline > rightDeadline)
    | .default => false

/-- The comparator on elements of the queue, which point into the map.  Only
entries of the map are ever pushed, so its null check never applies. -/
def compareHandles (strategy : Strategy) (left right : Handle) : Bool :=
  comparator strategy.deques (strategy.atKey left) (strategy.atKey right)

/-! ## Rank -/

namespace ExecutableScheduleType

/-- Position of a schedule class; a higher class is served first. -/
def classRank : ExecutableScheduleType → Nat
  | .default => 0
  | .chainAwarePriority => 1
  | .chainIndependentPriority => 2
  | .deadline => 3

end ExecutableScheduleType

/-- `left` has a strictly higher rank than `right`: a higher class, or within one
class an earlier deadline (having one at all first, the dispatch counter last),
a lower `CHAIN_INDEPENDENT` value, or a higher `CHAIN_AWARE` value. -/
def Outranks (deques : Deques) (left right : PriorityExecutable) : Prop :=
  right.schedType.classRank < left.schedType.classRank ∨
    left.schedType = right.schedType ∧
      match left.schedType with
      | .deadline =>
          let leftDeadline := left.currentDeadline deques
          let rightDeadline := right.currentDeadline deques
          leftDeadline ≠ 0 ∧
            (rightDeadline = 0 ∨ leftDeadline < rightDeadline ∨
              leftDeadline = rightDeadline ∧ left.counter < right.counter)
      | .chainIndependentPriority => left.priority < right.priority
      | .chainAwarePriority => left.priority > right.priority
      | .default => False

instance (deques : Deques) (left right : PriorityExecutable) :
    Decidable (Outranks deques left right) := by
  unfold Outranks
  cases left.schedType <;> exact inferInstance

/-- A rank is a point in a lexicographic order: class, presence of a deadline,
urgency, and the dispatch counter counted downwards. -/
def rankKey (deques : Deques) (executable : PriorityExecutable) :
    Nat ×ₗ Nat ×ₗ Int ×ₗ Int :=
  toLex (executable.schedType.classRank,
    match executable.schedType with
    | .deadline =>
        if executable.currentDeadline deques = 0 then toLex (0, toLex (0, 0))
        else
          toLex (1, toLex (-(executable.currentDeadline deques : Int),
            -executable.counter))
    | .chainIndependentPriority => toLex (0, toLex (-executable.priority, 0))
    | .chainAwarePriority => toLex (0, toLex (executable.priority, 0))
    | .default => toLex (0, toLex (0, 0)))

theorem outranks_iff_rankKey_lt (deques : Deques) (left right : PriorityExecutable) :
    Outranks deques left right ↔ rankKey deques right < rankKey deques left := by
  unfold Outranks rankKey
  cases leftType : left.schedType <;> cases rightType : right.schedType <;>
    simp only [ExecutableScheduleType.classRank, Prod.Lex.toLex_lt_toLex] <;>
    try simp
  case deadline.deadline =>
    split_ifs <;> simp [*, Prod.Lex.toLex_lt_toLex]
    omega

/-- No executable outranks the other way round, as a preorder on executables. -/
def RankLe (deques : Deques) (left right : PriorityExecutable) : Prop :=
  ¬ Outranks deques left right

theorem rankLe_iff (deques : Deques) (left right : PriorityExecutable) :
    RankLe deques left right ↔ rankKey deques left ≤ rankKey deques right := by
  rw [RankLe, outranks_iff_rankKey_lt, not_lt]

theorem RankLe.trans {deques : Deques} {left middle right : PriorityExecutable}
    (first : RankLe deques left middle) (second : RankLe deques middle right) :
    RankLe deques left right := by
  rw [rankLe_iff] at *
  exact first.trans second

theorem Outranks.asymm {deques : Deques} {left right : PriorityExecutable}
    (higher : Outranks deques left right) : ¬ Outranks deques right left := by
  rw [outranks_iff_rankKey_lt] at *
  exact higher.asymm

/-! ### What the comparator answers

Between two classes it asks for the class, and within one for the rank, unless its left
argument is a `DEADLINE` executable without a deadline. -/

theorem comparator_of_class_ne {deques : Deques} {left right : PriorityExecutable}
    (different : left.schedType ≠ right.schedType) :
    comparator deques left right =
      decide (left.schedType.classRank < right.schedType.classRank) := by
  rw [comparator, if_pos different]
  cases leftType : left.schedType <;> cases rightType : right.schedType <;>
    simp_all [ExecutableScheduleType.classRank]

theorem outranks_of_class_ne {deques : Deques} {left right : PriorityExecutable}
    (different : left.schedType ≠ right.schedType) :
    Outranks deques left right ↔
      right.schedType.classRank < left.schedType.classRank := by
  rw [Outranks]
  exact or_iff_left fun sameClass => different sameClass.1

/-- A `DEADLINE` executable without a deadline to compare. -/
def LacksDeadline (deques : Deques) (executable : PriorityExecutable) : Prop :=
  executable.schedType = .deadline ∧ executable.currentDeadline deques = 0

section Deadlines

variable {deques : Deques} {left right : PriorityExecutable}

/-- Of two `DEADLINE` executables the one on the left lacks a deadline. -/
theorem comparator_of_deadline_eq_zero (none : left.currentDeadline deques = 0)
    (leftType : left.schedType = .deadline) (rightType : right.schedType = .deadline) :
    comparator deques left right = true ∧ ¬Outranks deques left right := by
  constructor
  · simp [comparator, leftType, rightType, none]
  · simp [Outranks, leftType, rightType, none]

/-- Of two `DEADLINE` executables the one on the left has a deadline: the other one
outranks it with an earlier deadline, or with the same one and a lower counter. -/
theorem comparator_of_deadline_ne_zero (some' : left.currentDeadline deques ≠ 0)
    (leftType : left.schedType = .deadline) (rightType : right.schedType = .deadline) :
    comparator deques left right = true ↔ Outranks deques right left := by
  have answer : comparator deques left right =
      if right.currentDeadline deques = 0 then false
      else if left.currentDeadline deques = right.currentDeadline deques then
        decide (left.counter > right.counter)
      else decide (left.currentDeadline deques > right.currentDeadline deques) := by
    simp [comparator, leftType, rightType, some']
  have outranks : Outranks deques right left ↔ right.currentDeadline deques ≠ 0 ∧
      (right.currentDeadline deques < left.currentDeadline deques ∨
        right.currentDeadline deques = left.currentDeadline deques ∧
          right.counter < left.counter) := by
    simp [Outranks, leftType, rightType, some']
  rw [answer, outranks]
  by_cases none : right.currentDeadline deques = 0
  · simp [none]
  rw [if_neg none]
  by_cases equal : left.currentDeadline deques = right.currentDeadline deques
  · simp [equal, none]
  · rw [if_neg equal, decide_eq_true_iff]
    simp [none, Ne.symm equal]

end Deadlines

/-- The comparator asks for the rank, unless its left argument lacks a deadline. -/
theorem comparator_eq_true_iff {deques : Deques} {left right : PriorityExecutable}
    (hasDeadline : ¬ LacksDeadline deques left) :
    comparator deques left right = true ↔ Outranks deques right left := by
  by_cases same : left.schedType = right.schedType
  case neg =>
    rw [comparator_of_class_ne same, decide_eq_true_iff, outranks_of_class_ne (Ne.symm same)]
  have rightType := same.symm
  cases leftType : left.schedType with
  | deadline =>
      rw [leftType] at rightType
      exact comparator_of_deadline_ne_zero (fun none => hasDeadline ⟨leftType, none⟩)
        leftType rightType
  | chainIndependentPriority => simp [comparator, Outranks, leftType, rightType]
  | chainAwarePriority =>
      simp only [comparator, Outranks, leftType, rightType]
      by_cases equal : left.priority = right.priority
      · simp [equal]
      · simp [equal]
  | default => simp [comparator, Outranks, leftType, rightType]

/-- A `true` answer never orders an executable below a lower-ranked one. -/
theorem rankLe_of_comparator_eq_true {deques : Deques} {left right : PriorityExecutable}
    (answer : comparator deques left right = true) : RankLe deques left right := by
  by_cases lacks : LacksDeadline deques left
  case neg => exact ((comparator_eq_true_iff lacks).mp answer).asymm
  by_cases same : left.schedType = right.schedType
  · exact (comparator_of_deadline_eq_zero lacks.2 lacks.1 (same.symm.trans lacks.1)).2
  · rw [comparator_of_class_ne same, decide_eq_true_iff] at answer
    rw [RankLe, outranks_of_class_ne same]
    exact answer.asymm

theorem rankLe_of_comparator_eq_false {deques : Deques} {left right : PriorityExecutable}
    (answer : comparator deques left right = false) : RankLe deques right left := by
  intro higher
  have asked : comparator deques left right = true := by
    by_cases lacks : LacksDeadline deques left
    case neg => exact (comparator_eq_true_iff lacks).mpr higher
    by_cases same : left.schedType = right.schedType
    · exact (comparator_of_deadline_eq_zero lacks.2 lacks.1 (same.symm.trans lacks.1)).1
    · rw [comparator_of_class_ne same, decide_eq_true_iff]
      exact (outranks_of_class_ne (Ne.symm same)).mp higher
  rw [answer] at asked
  cases asked

/-- What the queue operations rely on: the comparator respects the rank. -/
theorem compare_compatible (strategy : Strategy) :
    StdHeap.Compatible (compareHandles strategy) fun left right =>
      RankLe strategy.deques (strategy.atKey left) (strategy.atKey right) where
  trans := RankLe.trans
  of_true := rankLe_of_comparator_eq_true
  of_false := rankLe_of_comparator_eq_false

/-! ## Where the comparator is a strict weak ordering -/

/-- An executable that lacks a deadline is served after itself. -/
theorem comparator_self_of_lacksDeadline {deques : Deques} {executable : PriorityExecutable}
    (lacks : LacksDeadline deques executable) :
    comparator deques executable executable = true := by
  rcases lacks with ⟨isDeadline, none⟩
  exact (comparator_of_deadline_eq_zero none isDeadline isDeadline).1

/-- On a set of executables the comparator is a strict weak ordering if and only if none
of them lacks a deadline. -/
theorem comparator_strictWeak_iff (deques : Deques) (executables : Set PriorityExecutable) :
    StdHeap.StrictWeak (comparator deques) executables ↔
      ∀ executable ∈ executables, ¬ LacksDeadline deques executable := by
  constructor
  · intro strictWeak executable member lacks
    have irrefl := strictWeak.irrefl executable member
    rw [comparator_self_of_lacksDeadline lacks] at irrefl
    cases irrefl
  · intro haveDeadlines
    refine .of_key (rankKey deques) fun left inLeft right _ => ?_
    rw [comparator_eq_true_iff (haveDeadlines left inLeft), outranks_iff_rankKey_lt]

/-- Two registered timers whose chains have no deadline yet: each is less than the
other, and less than itself. -/
theorem unassigned_deadlines_not_strictWeak :
    let first := PriorityExecutable.ofDeadline 100 100 .timer .deadline
    let second := PriorityExecutable.ofDeadline 200 200 .timer .deadline
    comparator (fun _ => []) first second = true ∧
      comparator (fun _ => []) second first = true ∧
      comparator (fun _ => []) first first = true ∧
      ¬ StdHeap.StrictWeak (comparator fun _ => []) {first, second} := by
  refine ⟨by decide, by decide, by decide, ?_⟩
  intro strictWeak
  exact absurd (strictWeak.irrefl _ (.inl rfl)) (by decide)

end PriorityExecutor
