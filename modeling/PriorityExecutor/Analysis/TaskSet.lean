import Mathlib.Algebra.Order.BigOperators.Group.List
import PriorityExecutor.Foundation.LinearSearch
import PriorityExecutor.Foundation.WordSum

/-!
# Task sets of the response-time programs

`theorem_1.cpp` and `theorem_2.cpp` read the same parallel vectors: the runtimes of all
callbacks, cut into chains, and a period and a deadline for each chain.  The runtimes are
read one after the other, so every chain owns its part of `node_runtimes`.

A task set is a function from the chain index.  All quantities are `uint64_t`.
-/

namespace PriorityExecutor

/-- One index of the parallel vectors. -/
structure TaskChain where
  callbacks : List UInt64
  period : UInt64
  deadline : UInt64
  nonempty : callbacks ≠ []
  periodPos : 1 ≤ period
  deadlinePos : 1 ≤ deadline

namespace TaskChain

/-- The entry of `chain_runtimes`. -/
def runtime (chain : TaskChain) : UInt64 :=
  chain.callbacks.foldl (fun sum runtime => sum + runtime) 0

/-- The entry of `last_chain_callbacks`. -/
def lastCallback (chain : TaskChain) : UInt64 :=
  chain.callbacks.getLast chain.nonempty

/-- `chain_runtimes[i] - last_chain_callbacks[i]`, where the search starts. -/
def startGap (chain : TaskChain) : UInt64 := chain.runtime - chain.lastCallback

/-- The sum of the runtimes stays in range. -/
def SumFits (chain : TaskChain) : Prop := (chain.callbacks.map UInt64.toNat).sum < 2 ^ 64

instance (chain : TaskChain) : Decidable chain.SumFits :=
  inferInstanceAs (Decidable (_ < _))

theorem period_pos (chain : TaskChain) : 0 < chain.period.toNat :=
  UInt64.le_iff_toNat_le.mp chain.periodPos

theorem deadline_pos (chain : TaskChain) : 0 < chain.deadline.toNat :=
  UInt64.le_iff_toNat_le.mp chain.deadlinePos

theorem runtime_toNat {chain : TaskChain} (fits : chain.SumFits) :
    chain.runtime.toNat = (chain.callbacks.map UInt64.toNat).sum :=
  WordSum.toNat_foldl_add fits

/-- The runtime of a chain is that of its last callback and of the ones before. -/
theorem runtime_split {chain : TaskChain} (fits : chain.SumFits) :
    chain.runtime.toNat =
      (chain.callbacks.dropLast.map UInt64.toNat).sum + chain.lastCallback.toNat := by
  have split := List.dropLast_append_getLast chain.nonempty
  rw [runtime_toNat fits, ← split, List.map_append, List.sum_append]
  simp [lastCallback]

theorem startGap_toNat {chain : TaskChain} (fits : chain.SumFits) :
    chain.startGap.toNat = (chain.callbacks.dropLast.map UInt64.toNat).sum := by
  have split := runtime_split fits
  rw [startGap, WordSum.toNat_sub_of_toNat_le (by omega)]
  omega

theorem startGap_add_lastCallback {chain : TaskChain} (fits : chain.SumFits) :
    chain.startGap.toNat + chain.lastCallback.toNat = chain.runtime.toNat := by
  rw [startGap_toNat fits, runtime_split fits]

/-- The same callbacks with larger runtimes, a shorter period and the same deadline. -/
structure Heavier (light heavy : TaskChain) : Prop where
  callbacks : List.Forall₂ (· ≤ ·) light.callbacks heavy.callbacks
  period : heavy.period ≤ light.period
  deadline : heavy.deadline = light.deadline

theorem sum_le_of_forall₂ {light heavy : List UInt64} (le : List.Forall₂ (· ≤ ·) light heavy) :
    (light.map UInt64.toNat).sum ≤ (heavy.map UInt64.toNat).sum := by
  induction le with
  | nil => exact le_rfl
  | cons head _ ih =>
      rw [List.map_cons, List.map_cons, List.sum_cons, List.sum_cons]
      exact Nat.add_le_add (UInt64.le_iff_toNat_le.mp head) ih

theorem getLast_le_of_forall₂ {light heavy : List UInt64}
    (le : List.Forall₂ (· ≤ ·) light heavy) (lightNonempty : light ≠ [])
    (heavyNonempty : heavy ≠ []) :
    light.getLast lightNonempty ≤ heavy.getLast heavyNonempty := by
  induction le with
  | nil => exact absurd rfl lightNonempty
  | cons head tail ih =>
      cases tail with
      | nil => exact head
      | cons second rest =>
          rw [List.getLast_cons (List.cons_ne_nil _ _),
            List.getLast_cons (List.cons_ne_nil _ _)]
          exact ih (List.cons_ne_nil _ _) (List.cons_ne_nil _ _)

theorem dropLast_of_forall₂ {light heavy : List UInt64}
    (le : List.Forall₂ (· ≤ ·) light heavy) :
    List.Forall₂ (· ≤ ·) light.dropLast heavy.dropLast := by
  rw [List.dropLast_eq_take, List.dropLast_eq_take, le.length_eq]
  exact List.forall₂_take _ le

namespace Heavier

variable {light heavy : TaskChain}

theorem sumFits (heavier : Heavier light heavy) (fits : heavy.SumFits) : light.SumFits :=
  (sum_le_of_forall₂ heavier.callbacks).trans_lt fits

theorem runtime_le (heavier : Heavier light heavy) (fits : heavy.SumFits) :
    light.runtime.toNat ≤ heavy.runtime.toNat := by
  rw [runtime_toNat fits, runtime_toNat (heavier.sumFits fits)]
  exact sum_le_of_forall₂ heavier.callbacks

theorem startGap_le (heavier : Heavier light heavy) (fits : heavy.SumFits) :
    light.startGap.toNat ≤ heavy.startGap.toNat := by
  rw [startGap_toNat fits, startGap_toNat (heavier.sumFits fits)]
  exact sum_le_of_forall₂ (dropLast_of_forall₂ heavier.callbacks)

theorem lastCallback_le (heavier : Heavier light heavy) :
    light.lastCallback.toNat ≤ heavy.lastCallback.toNat :=
  UInt64.le_iff_toNat_le.mp
    (getLast_le_of_forall₂ heavier.callbacks light.nonempty heavy.nonempty)

theorem period_le (heavier : Heavier light heavy) :
    heavy.period.toNat ≤ light.period.toNat :=
  UInt64.le_iff_toNat_le.mp heavier.period

end Heavier

end TaskChain

/-- The second input has at most the cores of the first, a heavier chain at the place of
every chain of the first, and possibly further chains. -/
structure HeavierSet {n n' : Nat} (cores : UInt64) (chains : Fin n → TaskChain)
    (cores' : UInt64) (chains' : Fin n' → TaskChain) (place : Fin n → Fin n') : Prop where
  cores : cores' ≤ cores
  injective : Function.Injective place
  chain : ∀ i, (chains i).Heavier (chains' (place i))

/-! ## The search of both programs

For every chain a search starts at the demand of the earlier callbacks, and the window
at which its test passes is turned into the reported value. -/

namespace ResponseSearch

variable {n : Nat} (test : Fin n → UInt64 → Bool) (report : Fin n → UInt64 → UInt64)
  (chains : Fin n → TaskChain)

/-- One turn of the outer loop, where the inner loop may take `fuel` turns. -/
def responseTime (fuel : Nat) (i : Fin n) : Option UInt64 :=
  (LinearSearch.loop (test i) (· + 1) fuel (chains i).startGap).map (report i)

/-- The vector `WCRT`. -/
def main (fuel : Nat) : Option (List UInt64) :=
  (List.finRange n).mapM (responseTime test report chains fuel)

/-- With enough fuel the turn for chain `i` pushes `value`. -/
def Reports (i : Fin n) (value : UInt64) : Prop :=
  ∃ fuel, responseTime test report chains fuel i = some value

variable {test report chains}

theorem reports_of_returns {i : Fin n} {timeGap : UInt64}
    (returns : LinearSearch.Returns (test i) (· + 1) (chains i).startGap timeGap) :
    Reports test report chains i (report i timeGap) := by
  obtain ⟨fuel, found⟩ := returns
  exact ⟨fuel, Option.map_eq_some_iff.mpr ⟨timeGap, found, rfl⟩⟩

/-- A chain has one reported value. -/
theorem Reports.unique {i : Fin n} {value other : UInt64}
    (left : Reports test report chains i value)
    (right : Reports test report chains i other) : value = other := by
  obtain ⟨fuel, leftEq⟩ := left
  obtain ⟨fuel', rightEq⟩ := right
  obtain ⟨timeGap, found, rfl⟩ := Option.map_eq_some_iff.mp leftEq
  obtain ⟨timeGap', found', rfl⟩ := Option.map_eq_some_iff.mp rightEq
  have same : LinearSearch.Returns _ _ _ timeGap := ⟨fuel, found⟩
  rw [same.unique ⟨fuel', found'⟩]

/-- A second search that ends bounds the report of the first, if its window also ends the
first search as soon as this comes so far. -/
theorem exists_reports_le {n' : Nat} {test' : Fin n' → UInt64 → Bool}
    {report' : Fin n' → UInt64 → UInt64} {chains' : Fin n' → TaskChain} {i : Fin n}
    {i' : Fin n'} {gap' : UInt64}
    (least' : LinearSearch.Least (test' i') (chains' i').startGap gap')
    (fromStart : (chains i).startGap ≤ gap')
    (passes : LinearSearch.Reaches (test i) (chains i).startGap gap'.toNat →
      test i gap' = true)
    (report_le : ∀ gap ≤ gap', LinearSearch.Least (test i) (chains i).startGap gap →
      report i gap ≤ report' i' gap') :
    ∃ light heavy, Reports test report chains i light ∧
      Reports test' report' chains' i' heavy ∧ light ≤ heavy := by
  obtain ⟨gap, gapLe, least⟩ := LinearSearch.exists_least_of_reached fromStart passes
  exact ⟨_, _, reports_of_returns least.returns, reports_of_returns least'.returns,
    report_le gap gapLe least⟩

/-- If the turn for every chain ends, the program fills its vector. -/
theorem main_returns (each : ∀ i, ∃ value, Reports test report chains i value) :
    ∃ fuel values, main test report chains fuel = some values := by
  apply LinearSearch.exists_mapM
  · intro fuel fuel' i value more result
    obtain ⟨found, foundEq, valueEq⟩ := Option.map_eq_some_iff.mp result
    exact Option.map_eq_some_iff.mpr ⟨found, LinearSearch.loop_mono more foundEq, valueEq⟩
  · intro i _
    obtain ⟨value, fuel, valueEq⟩ := each i
    exact ⟨fuel, value, valueEq⟩

end ResponseSearch

end PriorityExecutor
