import Mathlib.Algebra.BigOperators.Group.List.Basic
import Mathlib.Data.List.Intervals
import Mathlib.Data.Nat.ModEq

/-!
# Numbered entries in a ring of queues

Entries numbered `first, first + 1, …, past - 1` are spread over `size` queues,
entry `k` into queue `k % size`.  `contents` is the queue of one slot.  Appending
the next entry and removing the oldest one change a single slot each, and the
front of a slot is the oldest entry of its residue class.
-/

namespace SlotRing

/-- The entries of one slot, oldest first. -/
def contents (size first past slot : Nat) : List Nat :=
  (List.Ico first past).filter fun entry => entry % size = slot

variable {size first past slot : Nat}

@[simp] theorem mem_contents {entry : Nat} :
    entry ∈ contents size first past slot ↔
      first ≤ entry ∧ entry < past ∧ entry % size = slot := by
  simp [contents, and_assoc]

theorem contents_pairwise_lt : (contents size first past slot).Pairwise (· < ·) :=
  (List.Ico.pairwise_lt first past).filter _

/-- The next entry is appended to its own slot. -/
theorem contents_succ (ordered : first ≤ past) :
    contents size first (past + 1) slot =
      if past % size = slot then contents size first past slot ++ [past]
      else contents size first past slot := by
  rw [contents, List.Ico.succ_top ordered, List.filter_append]
  split
  next own => simp [contents, own]
  next other => simp [contents, other]

/-- The oldest entry is the front of its own slot. -/
theorem contents_eq_cons (ordered : first < past) :
    contents size first past slot =
      if first % size = slot then first :: contents size (first + 1) past slot
      else contents size (first + 1) past slot := by
  rw [contents, List.Ico.eq_cons ordered]
  split
  next own => simp [contents, own]
  next other => simp [contents, other]

/-- Removing the oldest entry drops the front of its own slot. -/
theorem contents_tail (ordered : first < past) :
    contents size (first + 1) past slot =
      if first % size = slot then (contents size first past slot).tail
      else contents size first past slot := by
  rw [contents_eq_cons ordered]
  split <;> rfl

/-- Entries of one slot lie at equal distances from the first entry, modulo the
size of the ring. -/
theorem sub_mod_eq {left right : Nat} (leftLe : first ≤ left) (rightLe : first ≤ right)
    (same : left % size = right % size) : (left - first) % size = (right - first) % size := by
  have congruent : left ≡ right [MOD size] := same
  apply Nat.ModEq.add_right_cancel' first
  rwa [Nat.sub_add_cancel leftLe, Nat.sub_add_cancel rightLe]

/-- The front of a slot is the entry of its residue class within the first
`size` entries of the ring. -/
theorem head?_contents {entry : Nat} (lower : first ≤ entry) (upper : entry < past) :
    (contents size first past (entry % size)).head? =
      some (first + (entry - first) % size) := by
  have gapLe : (entry - first) % size ≤ entry - first := Nat.mod_le _ _
  have frontMem :
      first + (entry - first) % size ∈ contents size first past (entry % size) := by
    refine mem_contents.mpr ⟨by omega, by omega, ?_⟩
    have congruent : first + (entry - first) % size ≡ first + (entry - first) [MOD size] :=
      (Nat.mod_modEq _ _).add_left first
    rw [Nat.add_sub_cancel' lower] at congruent
    exact congruent
  cases slotEq : contents size first past (entry % size) with
  | nil => simp [slotEq] at frontMem
  | cons head rest =>
      have headMem : head ∈ contents size first past (entry % size) := by simp [slotEq]
      obtain ⟨headLe, _, headMod⟩ := mem_contents.mp headMem
      have gapEq := sub_mod_eq headLe lower headMod
      have gapBound : (head - first) % size ≤ head - first := Nat.mod_le _ _
      have sorted : (contents size first past (entry % size)).Pairwise (· < ·) :=
        contents_pairwise_lt
      rw [slotEq] at frontMem sorted
      rcases List.mem_cons.mp frontMem with frontEq | later
      · simp [frontEq]
      · have := (List.pairwise_cons.mp sorted).1 _ later
        omega

private theorem sum_range_indicator (size target : Nat) :
    ((List.range size).map fun slot => if target = slot then 1 else 0).sum =
      if target < size then 1 else 0 := by
  induction size with
  | zero => rfl
  | succ size ih =>
      rw [List.range_succ, List.map_append, List.sum_append, ih]
      simp only [List.map_cons, List.map_nil, List.sum_cons, List.sum_nil]
      split_ifs <;> omega

/-- The slots of a ring hold every entry exactly once. -/
theorem sum_length_contents (positive : 0 < size) (ordered : first ≤ past) :
    ((List.range size).map fun slot => (contents size first past slot).length).sum =
      past - first := by
  induction past, ordered using Nat.le_induction with
  | base => simp [contents]
  | succ past ordered ih =>
      have step : ∀ slot, (contents size first (past + 1) slot).length =
          (contents size first past slot).length +
            if past % size = slot then 1 else 0 := by
        intro slot
        rw [contents_succ ordered]
        split <;> simp
      simp only [step, List.sum_map_add, ih, sum_range_indicator]
      rw [if_pos (Nat.mod_lt _ positive)]
      omega

/-! ## The ring as one list -/

/-- All slots of the ring, each entry replaced by its value. -/
def ring {β : Type*} (value : Nat → β) (size first past : Nat) : List (List β) :=
  (List.range size).map fun slot => (contents size first past slot).map value

section Ring

variable {β : Type*} {value : Nat → β}

theorem getElem?_ring (slot : Nat) :
    (ring value size first past)[slot]? =
      if slot < size then some ((contents size first past slot).map value) else none := by
  rw [ring, List.getElem?_map]
  split
  next inRange => rw [List.getElem?_range inRange, Option.map_some]
  next outside => rw [List.getElem?_eq_none (by simpa using outside), Option.map_none]

theorem getD_ring (inRange : slot < size) (default : List β) :
    (ring value size first past).getD slot default =
      (contents size first past slot).map value := by
  rw [List.getD_eq_getElem?_getD, getElem?_ring, if_pos inRange, Option.getD_some]

/-- Only the values of the entries in the ring matter. -/
theorem ring_congr {other : Nat → β}
    (same : ∀ entry, first ≤ entry → entry < past → value entry = other entry) :
    ring value size first past = ring other size first past := by
  simp only [ring]
  refine List.map_congr_left fun slot _ => List.map_congr_left fun entry member => ?_
  obtain ⟨lower, upper, _⟩ := mem_contents.mp member
  exact same entry lower upper

/-- A ring with the single entry zero. -/
theorem ring_zero_one (positive : 0 < size) :
    ring value size 0 1 = [value 0] :: List.replicate (size - 1) [] := by
  obtain ⟨size, rfl⟩ := Nat.exists_eq_add_one.mpr positive
  rw [ring, List.range_succ_eq_map, List.map_cons, List.map_map, Nat.add_sub_cancel]
  congr 1
  rw [List.eq_replicate_iff]
  refine ⟨by simp, ?_⟩
  intro queue member
  obtain ⟨slot, _, rfl⟩ := List.mem_map.mp member
  simp [contents]

/-- A ring whose slots are changed at one position. -/
theorem ring_eq_modify {first' past' target : Nat} {change : List β → List β}
    (slots : ∀ slot, (contents size first' past' slot).map value =
      if target = slot then change ((contents size first past slot).map value)
      else (contents size first past slot).map value) :
    ring value size first' past' = (ring value size first past).modify target change := by
  apply List.ext_getElem?
  intro slot
  rw [List.getElem?_modify, getElem?_ring, getElem?_ring]
  split
  next => rw [slots slot, Option.map_eq_map, Option.map_some]
  next => rw [Option.map_eq_map, Option.map_none]

/-- The next entry is appended to the slot of its number. -/
theorem ring_push (ordered : first ≤ past) :
    ring value size first (past + 1) =
      (ring value size first past).modify (past % size) fun queue =>
        queue ++ [value past] := by
  apply ring_eq_modify
  intro slot
  rw [contents_succ ordered]
  split <;> simp

/-- The oldest entry is removed from the slot of its number. -/
theorem ring_pop (ordered : first < past) :
    ring value size (first + 1) past =
      (ring value size first past).modify (first % size) List.tail := by
  apply ring_eq_modify
  intro slot
  rw [contents_tail ordered]
  split <;> simp

/-- A ring holds every entry exactly once. -/
theorem sum_length_ring (positive : 0 < size) (ordered : first ≤ past) :
    ((ring value size first past).map List.length).sum = past - first := by
  rw [ring, List.map_map, ← sum_length_contents positive ordered]
  congr 1
  refine List.map_congr_left fun slot _ => ?_
  simp

end Ring

end SlotRing
