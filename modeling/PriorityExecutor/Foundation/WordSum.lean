import Mathlib.Algebra.BigOperators.Fin
import Mathlib.Algebra.Order.BigOperators.Group.Finset

/-!
# Sums in 64-bit words

Operations on `UInt64` agree with those on natural numbers where the result is in range,
and so does a loop that accumulates terms with the sum of these.

Sums over different index types are compared through an injective map of the indices.
-/

namespace WordSum

/-! ## Single operations -/

theorem toNat_add_of_fits {left right : UInt64}
    (fits : left.toNat + right.toNat < 2 ^ 64) :
    (left + right).toNat = left.toNat + right.toNat := by
  rw [UInt64.toNat_add, Nat.mod_eq_of_lt fits]

theorem toNat_mul_of_fits {left right : UInt64}
    (fits : left.toNat * right.toNat < 2 ^ 64) :
    (left * right).toNat = left.toNat * right.toNat := by
  rw [UInt64.toNat_mul, Nat.mod_eq_of_lt fits]

theorem toNat_sub_of_toNat_le {left right : UInt64} (le : right.toNat ≤ left.toNat) :
    (left - right).toNat = left.toNat - right.toNat :=
  UInt64.toNat_sub_of_le _ _ (UInt64.le_iff_toNat_le.mpr le)

/-! ## Accumulating loops -/

section Loops

variable {α : Type*} {selected : α → Prop} [DecidablePred selected] {term : α → UInt64}

theorem toNat_foldl_of_fits (items : List α) (total : UInt64)
    (fits : total.toNat +
      (items.map fun item => if selected item then (term item).toNat else 0).sum < 2 ^ 64) :
    (items.foldl (fun total item => if selected item then total + term item else total)
        total).toNat =
      total.toNat +
        (items.map fun item => if selected item then (term item).toNat else 0).sum := by
  induction items generalizing total with
  | nil => simp
  | cons head tail ih =>
      rw [List.map_cons, List.sum_cons] at fits ⊢
      rw [List.foldl_cons]
      by_cases isSelected : selected head
      · rw [if_pos isSelected] at fits ⊢
        have headFits : total.toNat + (term head).toNat < 2 ^ 64 := by omega
        have step := toNat_add_of_fits headFits
        rw [if_pos isSelected, ih _ (by omega), step]
        omega
      · rw [if_neg isSelected] at fits ⊢
        rw [if_neg isSelected, ih _ (by omega)]
        omega

/-- The sum of a list of words. -/
theorem toNat_foldl_add {items : List UInt64}
    (fits : (items.map UInt64.toNat).sum < 2 ^ 64) :
    (items.foldl (fun total item => total + item) 0).toNat =
      (items.map UInt64.toNat).sum := by
  have zero : UInt64.toNat 0 = 0 := rfl
  have sum : (items.foldl (fun total item => if True then total + id item else total)
      0).toNat = _ := toNat_foldl_of_fits items 0 (by simpa [zero] using fits)
  simpa [zero] using sum

end Loops

variable {n : Nat}

/-- `for (j = 0; j < n; ++j) if (selected(j)) total += term(j);` -/
def accumulate (selected : Fin n → Prop) [DecidablePred selected] (term : Fin n → UInt64)
    (total : UInt64) : UInt64 :=
  (List.finRange n).foldl (fun total j => if selected j then total + term j else total) total

/-- The sum that the loop adds. -/
def selectedSum (selected : Fin n → Prop) [DecidablePred selected]
    (term : Fin n → Nat) : Nat :=
  ∑ j, if selected j then term j else 0

variable {selected : Fin n → Prop} [DecidablePred selected] {term : Fin n → UInt64}

/-- The loop adds the sum of its terms where this stays in range. -/
theorem toNat_accumulate {total : UInt64} {sum : Nat}
    (sumEq : selectedSum selected (fun j => (term j).toNat) = sum)
    (fits : total.toNat + sum < 2 ^ 64) :
    (accumulate selected term total).toNat = total.toNat + sum := by
  subst sumEq
  unfold selectedSum at fits ⊢
  rw [Fin.sum_univ_def] at fits ⊢
  exact toNat_foldl_of_fits (List.finRange n) total fits

/-- Two loops, one after the other. -/
theorem toNat_accumulate_accumulate {selected' : Fin n → Prop} [DecidablePred selected']
    {term' : Fin n → UInt64} {total : UInt64} {sum sum' : Nat}
    (sumEq : selectedSum selected (fun j => (term j).toNat) = sum)
    (sumEq' : selectedSum selected' (fun j => (term' j).toNat) = sum')
    (fits : total.toNat + sum + sum' < 2 ^ 64) :
    (accumulate selected' term' (accumulate selected term total)).toNat =
      total.toNat + sum + sum' := by
  have first := toNat_accumulate sumEq (by omega : total.toNat + sum < 2 ^ 64)
  rw [← first] at fits ⊢
  exact toNat_accumulate sumEq' fits

/-! ## Comparing sums -/

theorem selectedSum_mono {lower upper : Fin n → Nat}
    (le : ∀ j, selected j → lower j ≤ upper j) :
    selectedSum selected lower ≤ selectedSum selected upper := by
  refine Finset.sum_le_sum fun j _ => ?_
  split
  next isSelected => exact le j isSelected
  next => exact le_rfl

theorem selectedSum_congr {left right : Fin n → Nat}
    (same : ∀ j, selected j → left j = right j) :
    selectedSum selected left = selectedSum selected right := by
  refine Finset.sum_congr rfl fun j _ => ?_
  split
  next isSelected => exact same j isSelected
  next => rfl

/-- Every selected term of the first sum has a place of its own in the second. -/
theorem selectedSum_le_of_place {n' : Nat} {selected' : Fin n' → Prop}
    [DecidablePred selected'] {lower : Fin n → Nat} {upper : Fin n' → Nat}
    {place : Fin n → Fin n'} (injective : Function.Injective place)
    (selects : ∀ j, selected j → selected' (place j))
    (le : ∀ j, selected j → lower j ≤ upper (place j)) :
    selectedSum selected lower ≤ selectedSum selected' upper := by
  calc selectedSum selected lower
      ≤ ∑ j, if selected' (place j) then upper (place j) else 0 := by
        refine Finset.sum_le_sum fun j _ => ?_
        split
        next isSelected =>
          rw [if_pos (selects j isSelected)]
          exact le j isSelected
        next => exact Nat.zero_le _
    _ = ∑ k ∈ Finset.univ.map ⟨place, injective⟩, if selected' k then upper k else 0 := by
        rw [Finset.sum_map]
        rfl
    _ ≤ selectedSum selected' upper :=
        Finset.sum_le_sum_of_subset (Finset.subset_univ _)

theorem le_selectedSum (selected : Fin n → Prop) [DecidablePred selected]
    (term : Fin n → Nat) {j : Fin n} (isSelected : selected j) :
    term j ≤ selectedSum selected term := by
  have single := Finset.single_le_sum
    (f := fun k => if selected k then term k else 0) (fun _ _ => Nat.zero_le _)
    (Finset.mem_univ j)
  rwa [if_pos isSelected] at single

end WordSum
