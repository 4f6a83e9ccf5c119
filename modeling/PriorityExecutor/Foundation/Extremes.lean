import Mathlib.Data.List.Induction
import Mathlib.Order.Bounds.Basic

/-!
# Running extremes with a sentinel

A recorder keeps the least, the greatest and the latest of the values that it has seen.
It takes the bottom element for "nothing seen yet".

For the greatest value the sentinel is the neutral element and does no harm.  For the
least one it is absorbing: a recorded bottom is the true minimum of everything to come,
but the recorder forgets it at the next value.
-/

structure Extremes (α : Type*) where
  least : α
  greatest : α
  latest : α

namespace Extremes

theorem setOf_mem_concat {α : Type*} (values : List α) (value : α) :
    {other | other ∈ values ++ [value]} = insert value {other | other ∈ values} := by
  ext other
  simp [or_comm]

variable {α : Type*} [LinearOrder α] [OrderBot α]

/-- Nothing seen yet. -/
def fresh : Extremes α := ⟨⊥, ⊥, ⊥⟩

def record (extremes : Extremes α) (value : α) : Extremes α where
  least := if value < extremes.least ∨ extremes.least = ⊥ then value else extremes.least
  greatest :=
    if value > extremes.greatest ∨ extremes.greatest = ⊥ then value else extremes.greatest
  latest := value

def recordAll (values : List α) : Extremes α := values.foldl record fresh

/-- The recorder shows the true extremes of the values and their last one. -/
structure Accurate (extremes : Extremes α) (values : List α) : Prop where
  least : IsLeast {value | value ∈ values} extremes.least
  greatest : IsGreatest {value | value ∈ values} extremes.greatest
  latest : values.getLast? = some extremes.latest

@[simp] theorem recordAll_nil : recordAll ([] : List α) = fresh := rfl

theorem recordAll_concat (values : List α) (value : α) :
    recordAll (values ++ [value]) = (recordAll values).record value := by
  rw [recordAll, List.foldl_append]
  rfl

/-! ## The greatest and the latest value -/

theorem record_greatest (extremes : Extremes α) (value : α) :
    (extremes.record value).greatest = max value extremes.greatest := by
  simp only [record]
  split
  next taken =>
    rcases taken with greater | unset
    · exact (max_eq_left greater.le).symm
    · rw [unset, max_bot_right]
  next kept =>
    rw [not_or, not_lt] at kept
    exact (max_eq_right kept.1).symm

theorem recordAll_isGreatest {values : List α} (nonempty : values ≠ []) :
    IsGreatest {value | value ∈ values} (recordAll values).greatest := by
  induction values using List.reverseRecOn with
  | nil => exact absurd rfl nonempty
  | append_singleton values value ih =>
      rw [recordAll_concat, record_greatest, setOf_mem_concat]
      by_cases first : values = []
      · subst first
        simp [fresh]
      · exact (ih first).insert value

theorem recordAll_latest {values : List α} (nonempty : values ≠ []) :
    values.getLast? = some (recordAll values).latest := by
  induction values using List.reverseRecOn with
  | nil => exact absurd rfl nonempty
  | append_singleton values value _ =>
      rw [recordAll_concat, List.getLast?_concat]
      rfl

/-! ## The least value -/

/-- The recorder shows bottom exactly after bottom: it has forgotten any earlier one. -/
theorem record_least_eq_bot_iff (extremes : Extremes α) (value : α) :
    (extremes.record value).least = ⊥ ↔ value = ⊥ := by
  simp only [record]
  split
  next => exact Iff.rfl
  next kept =>
    rw [not_or, not_lt] at kept
    constructor
    · exact fun leastBot => absurd leastBot kept.2
    · exact fun valueBot => le_bot_iff.mp (valueBot ▸ kept.1)

theorem record_least_of_ne_bot {extremes : Extremes α} (set : extremes.least ≠ ⊥)
    (value : α) : (extremes.record value).least = min value extremes.least := by
  simp only [record]
  split
  next taken =>
    rcases taken with less | unset
    · exact (min_eq_left less.le).symm
    · exact absurd unset set
  next kept =>
    rw [not_or, not_lt] at kept
    exact (min_eq_right kept.1).symm

theorem recordAll_least_eq_bot_iff {values : List α} (nonempty : values ≠ []) :
    (recordAll values).least = ⊥ ↔ values.getLast? = some ⊥ := by
  induction values using List.reverseRecOn with
  | nil => exact absurd rfl nonempty
  | append_singleton values value _ =>
      rw [recordAll_concat, record_least_eq_bot_iff, List.getLast?_concat, Option.some_inj]

/-- Without bottom among the values the sentinel is never taken for one of them. -/
theorem recordAll_isLeast {values : List α} (nonempty : values ≠ [])
    (noBot : ⊥ ∉ values) : IsLeast {value | value ∈ values} (recordAll values).least := by
  induction values using List.reverseRecOn with
  | nil => exact absurd rfl nonempty
  | append_singleton values value ih =>
      rw [List.mem_append, not_or] at noBot
      rw [recordAll_concat, setOf_mem_concat]
      by_cases first : values = []
      · subst first
        simp [fresh, record]
      · have least := ih first noBot.1
        have set : (recordAll values).least ≠ ⊥ := fun unset => noBot.1 (unset ▸ least.1)
        rw [record_least_of_ne_bot set]
        exact least.insert value

/-- The recorder is accurate if and only if it saw no bottom, or saw one just now. -/
theorem recordAll_accurate_iff {values : List α} (nonempty : values ≠ []) :
    (recordAll values).Accurate values ↔ ⊥ ∉ values ∨ values.getLast? = some ⊥ := by
  constructor
  · intro accurate
    by_cases hasBot : ⊥ ∈ values
    · have leastBot : (recordAll values).least = ⊥ := le_bot_iff.mp (accurate.least.2 hasBot)
      exact .inr ((recordAll_least_eq_bot_iff nonempty).mp leastBot)
    · exact .inl hasBot
  · intro condition
    refine ⟨?_, recordAll_isGreatest nonempty, recordAll_latest nonempty⟩
    rcases condition with noBot | lastBot
    · exact recordAll_isLeast nonempty noBot
    · rw [(recordAll_least_eq_bot_iff nonempty).mpr lastBot]
      exact ⟨List.mem_of_getLast? lastBot, fun _ _ => bot_le⟩

end Extremes
