import PriorityExecutor.Analysis.TheoremOne
import PriorityExecutor.Analysis.TheoremTwo

/-!
# Both programs end

Neither search has a bound of its own.  The load of a window stays below a cap, so that
the supply of the cores overtakes the demand, also when the task set is overloaded.  No
window before the start of a search would have ended it.
-/

namespace PriorityExecutor

variable {n : Nat} {cores : UInt64} {chains : Fin n → TaskChain}

/-- The search of every chain ends, in both programs, not later than the cap allows and
at the least window of all, and the reported value covers the runtime of the chain. -/
theorem searches_end_at_least_window (coresPos : 1 ≤ cores) (i : Fin n) :
    (TheoremOne.Small cores chains i →
      ∃ timeGap,
        LinearSearch.EndsWithin (TheoremOne.exits cores chains i) (chains i).startGap
          ((chains i).startGap.toNat + TheoremOne.cap chains i / cores.toNat + 1)
          timeGap ∧
        TheoremOne.Reports cores chains i (TheoremOne.wcrt chains i timeGap) ∧
        (chains i).runtime ≤ TheoremOne.wcrt chains i timeGap) ∧
    (TheoremTwo.Small cores chains i →
      ∃ timeGap,
        LinearSearch.EndsWithin (TheoremTwo.exits cores chains i) (chains i).startGap
          ((chains i).startGap.toNat + TheoremTwo.cap chains i / cores.toNat + 1)
          timeGap ∧
        TheoremTwo.Reports cores chains i (TheoremTwo.wcrt chains i timeGap) ∧
        (chains i).runtime ≤ TheoremTwo.wcrt chains i timeGap) := by
  constructor
  · intro small
    obtain ⟨timeGap, ends, covers⟩ := TheoremOne.search_endsWithin coresPos small
    exact ⟨timeGap, ends, ResponseSearch.reports_of_returns ends.returns, covers⟩
  · intro small
    obtain ⟨timeGap, ends, covers⟩ := TheoremTwo.search_endsWithin coresPos small
    exact ⟨timeGap, ends, ResponseSearch.reports_of_returns ends.returns, covers⟩

open TheoremOne (slowSet) in
/-- An overloaded task set on one core. -/
theorem slowSet_searches_end :
    (∃ timeGap,
      LinearSearch.EndsWithin (TheoremOne.exits 1 slowSet 1) (slowSet 1).startGap
        ((slowSet 1).startGap.toNat + TheoremOne.cap slowSet 1 / 1 + 1) timeGap ∧
      TheoremOne.Reports 1 slowSet 1 (TheoremOne.wcrt slowSet 1 timeGap) ∧
      (slowSet 1).runtime ≤ TheoremOne.wcrt slowSet 1 timeGap) ∧
    ∃ timeGap,
      LinearSearch.EndsWithin (TheoremTwo.exits 1 slowSet 1) (slowSet 1).startGap
        ((slowSet 1).startGap.toNat + TheoremTwo.cap slowSet 1 / 1 + 1) timeGap ∧
      TheoremTwo.Reports 1 slowSet 1 (TheoremTwo.wcrt slowSet 1 timeGap) ∧
      (slowSet 1).runtime ≤ TheoremTwo.wcrt slowSet 1 timeGap :=
  ⟨(searches_end_at_least_window (by decide) 1).1 ⟨by decide, by decide, by decide⟩,
    (searches_end_at_least_window (by decide) 1).2 ⟨by decide, by decide⟩⟩

/-- On inputs that are small enough for every chain, `theorem_1.cpp` reports them all. -/
theorem TheoremOne.main_returns (coresPos : 1 ≤ cores)
    (small : ∀ i, TheoremOne.Small cores chains i) :
    ∃ fuel values, TheoremOne.main fuel cores chains = some values := by
  apply ResponseSearch.main_returns
  intro i
  obtain ⟨timeGap, ends, _⟩ := TheoremOne.search_endsWithin coresPos (small i)
  exact ⟨_, ResponseSearch.reports_of_returns ends.returns⟩

/-- On inputs that are small enough for every chain, `theorem_2.cpp` reports them all. -/
theorem TheoremTwo.main_returns (coresPos : 1 ≤ cores)
    (small : ∀ i, TheoremTwo.Small cores chains i) :
    ∃ fuel values, TheoremTwo.main fuel cores chains = some values := by
  apply ResponseSearch.main_returns
  intro i
  obtain ⟨timeGap, ends, _⟩ := TheoremTwo.search_endsWithin coresPos (small i)
  exact ⟨_, ResponseSearch.reports_of_returns ends.returns⟩

end PriorityExecutor
