import Mathlib.Algebra.Order.Ring.Nat
import PriorityExecutor.Foundation.LinearSearch

/-!
# Demand windows

Jobs of a chain start before `start` units of time on every core are used up, besides
the `load` of the window.  A window passes when the cores supply more than this demand.
The least window that passes bounds a response time.
-/

namespace DemandWindow

/-- The demand in the window is less than what the cores supply. -/
def Passes (cores start load window : Nat) : Prop :=
  cores * start + load < cores * window

variable {cores start load window : Nat}

/-- No window up to `start` passes. -/
theorem Passes.start_lt (passes : Passes cores start load window) : start < window := by
  unfold Passes at passes
  by_contra short
  have supply := Nat.mul_le_mul_left cores (Nat.le_of_not_lt short)
  omega

/-- More cores, an earlier start and a smaller load pass as well. -/
theorem Passes.of_lighter {cores' start' load' : Nat}
    (passes : Passes cores' start' load' window) (moreCores : cores' ≤ cores)
    (earlier : start ≤ start') (lighter : load ≤ load') :
    Passes cores start load window := by
  have inWindow := passes.start_lt
  unfold Passes at passes ⊢
  have supply : cores' * window = cores' * start' + cores' * (window - start') := by
    rw [← Nat.mul_add, Nat.add_sub_cancel' inWindow.le]
  calc cores * start + load
      ≤ cores * start + load' := Nat.add_le_add_left lighter _
    _ < cores * start + cores' * (window - start') := by omega
    _ ≤ cores * start + cores * (window - start) :=
        Nat.add_le_add_left (Nat.mul_le_mul moreCores (by omega)) _
    _ = cores * window := by
        rw [← Nat.mul_add, Nat.add_sub_cancel' (by omega)]

/-- A bound of the load bounds the least window that passes. -/
theorem passes_of_cap {cap : Nat} (coresPos : 0 < cores) (bounded : load ≤ cap) :
    Passes cores start load (start + cap / cores + 1) := by
  have supply := Nat.lt_mul_div_succ cap coresPos
  unfold Passes
  rw [Nat.add_assoc, Nat.mul_add]
  omega

/-- What the cores supply in the window of `passes_of_cap`. -/
theorem supply_le_of_cap (cap : Nat) :
    cores * (start + cap / cores + 1) ≤ cores * start + cap + cores := by
  have used := Nat.mul_div_le cap cores
  rw [Nat.mul_add, Nat.mul_add, Nat.mul_one]
  omega

/-- A search whose test says that its window passes ends at the least such window, and
no later than a bounded load allows. -/
theorem exists_endsWithin {test : UInt64 → Bool} {first : UInt64} {cap : Nat}
    {load : Nat → Nat} (coresPos : 0 < cores) (bounded : ∀ window, load window ≤ cap)
    (inRange : first.toNat + cap / cores + 1 < 2 ^ 64)
    (test_iff : ∀ window : UInt64, window.toNat ≤ first.toNat + cap / cores + 1 →
      (test window = true ↔
        Passes cores first.toNat (load window.toNat) window.toNat)) :
    ∃ found,
      LinearSearch.EndsWithin test first (first.toNat + cap / cores + 1) found ∧
        first.toNat < found.toNat := by
  have fromFirst : first.toNat ≤ first.toNat + cap / cores + 1 :=
    (Nat.le_add_right _ _).trans (Nat.le_succ _)
  obtain ⟨found, ends⟩ : ∃ found,
      LinearSearch.EndsWithin test first (first.toNat + cap / cores + 1) found := by
    refine LinearSearch.exists_endsWithin inRange fromFirst ?_ ?_
    · intro window atBound
      rw [test_iff window atBound.le, atBound]
      exact passes_of_cap coresPos (bounded _)
    · -- a window before the first would pass only after it
      intro earlier lower
      rw [UInt64.lt_iff_toNat_lt] at lower
      by_contra tooEarly
      have passes := (test_iff earlier (lower.le.trans fromFirst)).mp (by simpa using tooEarly)
      exact absurd passes.start_lt (by omega)
  exact ⟨found, ends, ((test_iff found ends.bounded).mp ends.passes).start_lt⟩

/-- Such a search comes to no window past the bound. -/
theorem reaches_le {test : UInt64 → Bool} {first : UInt64} {cap : Nat} {load : Nat → Nat}
    (coresPos : 0 < cores) (bounded : ∀ window, load window ≤ cap)
    (inRange : first.toNat + cap / cores + 1 < 2 ^ 64)
    (test_iff : ∀ window : UInt64, window.toNat ≤ first.toNat + cap / cores + 1 →
      (test window = true ↔
        Passes cores first.toNat (load window.toNat) window.toNat))
    (reaches : LinearSearch.Reaches test first window) :
    window ≤ first.toNat + cap / cores + 1 := by
  by_contra past
  have atBound := UInt64.toNat_ofNat_of_lt' inRange
  have fromFirst : first ≤ .ofNat (first.toNat + cap / cores + 1) := by
    rw [UInt64.le_iff_toNat_le, atBound]
    exact (Nat.le_add_right _ _).trans (Nat.le_succ _)
  have fails := reaches.2 _ fromFirst (by omega)
  have passes := (test_iff _ atBound.le).mpr (by
    rw [atBound]
    exact passes_of_cap coresPos (bounded _))
  rw [passes] at fails
  cases fails

end DemandWindow
