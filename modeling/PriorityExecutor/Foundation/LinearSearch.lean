import Mathlib.Algebra.Order.Ring.Nat
import Mathlib.Data.Nat.Find
import Mathlib.Logic.Function.Iterate

/-!
# Linear search

`while (true) { if (test(current)) return current; current = next(current); }`, with
fuel for the turns of the loop.  It returns the first value of the orbit of `next` that
passes the test, if one does; over a machine counter that does not wrap before, this is
the least value from the start on.
-/

namespace LinearSearch

variable {α : Type*} {test : α → Bool} {next : α → α} {start found : α}

/-- The loop for at most `fuel` turns. -/
def loop (test : α → Bool) (next : α → α) : Nat → α → Option α
  | 0, _ => none
  | fuel + 1, current =>
      if test current then some current else loop test next fuel (next current)

/-- With enough fuel the loop returns `found`. -/
def Returns (test : α → Bool) (next : α → α) (start found : α) : Prop :=
  ∃ fuel, loop test next fuel start = some found

/-- The loop walks along the orbit and stops at its first value that passes. -/
theorem loop_eq_some_iff {fuel : Nat} :
    loop test next fuel start = some found ↔
      ∃ turn < fuel, next^[turn] start = found ∧ test found = true ∧
        ∀ earlier < turn, test (next^[earlier] start) = false := by
  induction fuel generalizing start with
  | zero => simp [loop]
  | succ fuel ih =>
      rw [loop]
      split
      next passes =>
        constructor
        · intro same
          cases same
          exact ⟨0, by omega, rfl, passes, by simp⟩
        · rintro ⟨turn, _, foundEq, _, before⟩
          cases turn with
          | zero => exact congrArg some foundEq
          | succ turn =>
              have fails := before 0 (by omega)
              rw [Function.iterate_zero_apply, passes] at fails
              cases fails
      next fails =>
        rw [ih]
        constructor
        · rintro ⟨turn, inFuel, foundEq, passes, before⟩
          refine ⟨turn + 1, by omega, foundEq, passes, ?_⟩
          intro earlier lower
          cases earlier with
          | zero => simpa using fails
          | succ earlier => exact before earlier (by omega)
        · rintro ⟨turn, inFuel, foundEq, passes, before⟩
          cases turn with
          | zero =>
              rw [Function.iterate_zero_apply] at foundEq
              rw [foundEq] at fails
              exact absurd passes fails
          | succ turn =>
              exact ⟨turn, by omega, foundEq, passes,
                fun earlier lower => before (earlier + 1) (by omega)⟩

theorem returns_iff :
    Returns test next start found ↔
      ∃ turn, next^[turn] start = found ∧ test found = true ∧
        ∀ earlier < turn, test (next^[earlier] start) = false := by
  unfold Returns
  simp only [loop_eq_some_iff]
  constructor
  · rintro ⟨_, turn, _, result⟩
    exact ⟨turn, result⟩
  · rintro ⟨turn, result⟩
    exact ⟨turn + 1, turn, by omega, result⟩

/-- The loop returns one value. -/
theorem Returns.unique {other : α} (left : Returns test next start found)
    (right : Returns test next start other) : found = other := by
  obtain ⟨turn, foundEq, passes, before⟩ := returns_iff.mp left
  obtain ⟨turn', otherEq, passes', before'⟩ := returns_iff.mp right
  rcases Nat.lt_trichotomy turn turn' with lower | same | higher
  · have fails := before' turn lower
    rw [foundEq, passes] at fails
    cases fails
  · rw [← foundEq, ← otherEq, same]
  · have fails := before turn' higher
    rw [otherEq, passes'] at fails
    cases fails

/-- More fuel does not change the result. -/
theorem loop_mono {fuel fuel' : Nat} (more : fuel ≤ fuel')
    (result : loop test next fuel start = some found) :
    loop test next fuel' start = some found := by
  obtain ⟨turn, inFuel, rest⟩ := loop_eq_some_iff.mp result
  exact loop_eq_some_iff.mpr ⟨turn, by omega, rest⟩

/-- Searches that all return, return one after the other with one fuel. -/
theorem exists_mapM {ι β : Type} {run : Nat → ι → Option β}
    (mono : ∀ {fuel fuel' item value}, fuel ≤ fuel' → run fuel item = some value →
      run fuel' item = some value)
    (items : List ι) (each : ∀ item ∈ items, ∃ fuel value, run fuel item = some value) :
    ∃ fuel values, items.mapM (run fuel) = some values := by
  suffices ∃ fuel, ∀ fuel' ≥ fuel, ∃ values, items.mapM (run fuel') = some values by
    obtain ⟨fuel, enough⟩ := this
    exact ⟨fuel, enough fuel le_rfl⟩
  induction items with
  | nil => exact ⟨0, fun _ _ => ⟨[], rfl⟩⟩
  | cons head tail ih =>
      rw [List.forall_mem_cons] at each
      obtain ⟨headFuel, value, headEq⟩ := each.1
      obtain ⟨tailFuel, tailEq⟩ := ih each.2
      refine ⟨max headFuel tailFuel, fun fuel enough => ?_⟩
      obtain ⟨values, valuesEq⟩ := tailEq fuel (le_trans (le_max_right _ _) enough)
      refine ⟨value :: values, ?_⟩
      rw [List.mapM_cons, mono (le_trans (le_max_left _ _) enough) headEq, valuesEq]
      rfl

/-! ## Over a machine counter -/

theorem toNat_iterate_succ {start : UInt64} {turns : Nat}
    (fits : start.toNat + turns < 2 ^ 64) :
    ((· + 1)^[turns] start).toNat = start.toNat + turns := by
  induction turns with
  | zero => rfl
  | succ turns ih =>
      rw [Function.iterate_succ_apply', UInt64.toNat_add, ih (by omega)]
      have one : UInt64.toNat 1 = 1 := rfl
      omega

/-- The loop has come to the value `window` without having returned before: counted
over the integers, so that a wrap of the counter is not hidden. -/
def Reaches (test : UInt64 → Bool) (start : UInt64) (window : Nat) : Prop :=
  start.toNat ≤ window ∧
    ∀ earlier : UInt64, start ≤ earlier → earlier.toNat < window → test earlier = false

/-- `found` is the least value from `start` on that passes. -/
structure Least (test : UInt64 → Bool) (start found : UInt64) : Prop where
  fromStart : start ≤ found
  passes : test found = true
  before : ∀ earlier, start ≤ earlier → earlier < found → test earlier = false

theorem Least.returns {test : UInt64 → Bool} {start found : UInt64}
    (least : Least test start found) : Returns test (· + 1) start found := by
  have inRange := UInt64.le_iff_toNat_le.mp least.fromStart
  have upper := found.toNat_lt
  rw [returns_iff]
  refine ⟨found.toNat - start.toNat, ?_, least.passes, ?_⟩
  · rw [← UInt64.toNat_inj, toNat_iterate_succ (by omega)]
    omega
  · intro turn lower
    have inRange : start.toNat + turn < 2 ^ 64 := by omega
    have position := toNat_iterate_succ inRange
    refine least.before _ ?_ ?_
    · rw [UInt64.le_iff_toNat_le, position]
      omega
    · rw [UInt64.lt_iff_toNat_lt, position]
      omega

theorem Least.reaches {test : UInt64 → Bool} {start found : UInt64}
    (least : Least test start found) : Reaches test start found.toNat :=
  ⟨UInt64.le_iff_toNat_le.mp least.fromStart, fun earlier fromStart lower =>
    least.before earlier fromStart (UInt64.lt_iff_toNat_lt.mpr lower)⟩

/-- Of two searches from one start, the first does not go on where the second has ended, if
it passes there as soon as both come so far. -/
theorem Least.le_of_passes {test test' : UInt64 → Bool} {start found found' : UInt64}
    (least : Least test start found) (least' : Least test' start found')
    (passes : found' < found → Reaches test start found'.toNat →
      Reaches test' start found'.toNat → test found' = true) : found ≤ found' := by
  by_contra later
  have lower : found' < found := UInt64.not_le.mp later
  have reaches : Reaches test start found'.toNat := by
    refine ⟨least'.reaches.1, ?_⟩
    intro earlier fromStart before
    apply least.before earlier fromStart
    rw [UInt64.lt_iff_toNat_lt] at lower ⊢
    exact before.trans lower
  have passed := passes lower reaches least'.reaches
  rw [least.before found' least'.fromStart lower] at passed
  cases passed

/-- A value that passes bounds the search. -/
theorem exists_least {test : UInt64 → Bool} {start bound : UInt64} (fromStart : start ≤ bound)
    (passes : test bound = true) : ∃ found, found ≤ bound ∧ Least test start found := by
  classical
  have candidate : ∃ window : Nat, ∃ value : UInt64,
      value.toNat = window ∧ start ≤ value ∧ test value = true :=
    ⟨_, bound, rfl, fromStart, passes⟩
  obtain ⟨found, foundEq, foundStart, foundPasses⟩ := Nat.find_spec candidate
  refine ⟨found, ?_, foundStart, foundPasses, ?_⟩
  · rw [UInt64.le_iff_toNat_le, foundEq]
    exact Nat.find_min' candidate ⟨bound, rfl, fromStart, passes⟩
  · intro earlier fromStart lower
    rw [UInt64.lt_iff_toNat_lt, foundEq] at lower
    have notCandidate := Nat.find_min candidate lower
    by_contra passesToo
    exact notCandidate ⟨earlier, rfl, fromStart, by simpa using passesToo⟩

/-- A search that never wraps its counter returns. -/
theorem exists_least_of_reaches {test : UInt64 → Bool} {start : UInt64}
    (noWrap : ¬ Reaches test start (2 ^ 64)) : ∃ found, Least test start found := by
  by_contra never
  refine noWrap ⟨Nat.le_of_lt start.toNat_lt, ?_⟩
  intro earlier fromStart _
  by_contra passes
  obtain ⟨found, _, least⟩ := exists_least fromStart (by simpa using passes)
  exact never ⟨found, least⟩

/-- If the value at `bound` passes as soon as the search comes to it, it bounds the
search. -/
theorem exists_least_of_reached {test : UInt64 → Bool} {start bound : UInt64}
    (fromStart : start ≤ bound)
    (passes : Reaches test start bound.toNat → test bound = true) :
    ∃ found, found ≤ bound ∧ Least test start found := by
  by_cases reached : Reaches test start bound.toNat
  · exact exists_least fromStart (passes reached)
  · -- the search has ended before it comes to the bound
    obtain ⟨earlier, earlierStart, lower, earlierPasses⟩ : ∃ earlier : UInt64,
        start ≤ earlier ∧ earlier.toNat < bound.toNat ∧ test earlier = true := by
      by_contra none
      refine reached ⟨UInt64.le_iff_toNat_le.mp fromStart, ?_⟩
      intro earlier earlierStart lower
      by_contra earlierPasses
      exact none ⟨earlier, earlierStart, lower, by simpa using earlierPasses⟩
    obtain ⟨found, foundLe, least⟩ := exists_least earlierStart earlierPasses
    rw [UInt64.le_iff_toNat_le] at foundLe
    exact ⟨found, UInt64.le_iff_toNat_le.mpr (by omega), least⟩

/-- The search ends at `found`, within the bound, and `found` is the least of all values
that pass, those before the start included. -/
structure EndsWithin (test : UInt64 → Bool) (start : UInt64) (bound : Nat)
    (found : UInt64) : Prop where
  returns : Returns test (· + 1) start found
  bounded : found.toNat ≤ bound
  passes : test found = true
  least : ∀ earlier, earlier < found → test earlier = false

/-- A value that passes bounds the search from the start, if no value before the start
passes. -/
theorem exists_endsWithin {test : UInt64 → Bool} {start : UInt64} {bound : Nat}
    (inRange : bound < 2 ^ 64) (fromStart : start.toNat ≤ bound)
    (passes : ∀ value : UInt64, value.toNat = bound → test value = true)
    (skipped : ∀ earlier, earlier < start → test earlier = false) :
    ∃ found, EndsWithin test start bound found := by
  have boundEq := UInt64.toNat_ofNat_of_lt' inRange
  have startLe : start ≤ UInt64.ofNat bound := by
    rwa [UInt64.le_iff_toNat_le, boundEq]
  obtain ⟨found, foundLe, least⟩ := exists_least startLe (passes _ boundEq)
  rw [UInt64.le_iff_toNat_le, boundEq] at foundLe
  refine ⟨found, least.returns, foundLe, least.passes, ?_⟩
  intro earlier lower
  by_cases before : earlier < start
  · exact skipped earlier before
  · exact least.before earlier (UInt64.not_lt.mp before) lower

end LinearSearch
