import PriorityExecutor.Analysis.TheoremOne
import PriorityExecutor.Analysis.TheoremTwo

/-!
# The two programs on constrained deadlines

`theorem_2.cpp` is for arbitrary deadlines and can be run on a task set whose deadlines do
not exceed the periods, which is what `theorem_1.cpp` is for.  Both then count the other
chains in the same way, and what remains is how they count a chain with a shorter
deadline: one by a ceiling, the other by a floor and a part of one more job.

The two differ in two cases only.  Where the period divides the length, the ceiling is the
floor, and the part comes on top.  Elsewhere the part may be less than a whole job.
-/

namespace PriorityExecutor

variable {n : Nat} {cores : UInt64} {chains : Fin n → TaskChain} {i j : Fin n}
  {window : Nat}

/-- No chain has a deadline after its period. -/
def Constrained (chains : Fin n → TaskChain) : Prop :=
  ∀ k, (chains k).deadline ≤ (chains k).period

instance (chains : Fin n → TaskChain) : Decidable (Constrained chains) :=
  inferInstanceAs (Decidable (∀ _, _))

namespace TheoremOne

/-- What is left of the window for a part of one more job of chain `j`. -/
def rest (chains : Fin n → TaskChain) (i j : Fin n) (window : Nat) : Nat :=
  remainder window (length chains i j window) (chains j).period.toNat

/-- The part is counted on top of the jobs that `theorem_2.cpp` counts. -/
def CountsMore (chains : Fin n → TaskChain) (i j : Fin n) (window : Nat) : Prop :=
  (chains j).period.toNat ∣ length chains i j window ∧
    0 < (chains j).runtime.toNat ∧ 0 < rest chains i j window

/-- The part stands for a job that `theorem_2.cpp` counts as a whole. -/
def CountsLess (chains : Fin n → TaskChain) (i j : Fin n) (window : Nat) : Prop :=
  ¬ (chains j).period.toNat ∣ length chains i j window ∧
    rest chains i j window < (chains j).runtime.toNat

end TheoremOne

/-! ## One chain -/

theorem TheoremTwo.jobs_of_dvd {length period : Nat} (lengthPos : 0 < length)
    (divides : period ∣ length) : jobs length period = length / period := by
  have succ : length - 1 + 1 = length := Nat.sub_add_cancel lengthPos
  rw [← succ] at divides ⊢
  rw [Nat.succ_div_of_dvd divides]
  rfl

theorem TheoremTwo.jobs_of_not_dvd {length period : Nat} (lengthPos : 0 < length)
    (notDivides : ¬ period ∣ length) : jobs length period = length / period + 1 := by
  have succ : length - 1 + 1 = length := Nat.sub_add_cancel lengthPos
  rw [← succ] at notDivides ⊢
  rw [Nat.succ_div_of_not_dvd notDivides]
  rfl

namespace TheoremOne

theorem length_pos (shorter : (chains j).deadline < (chains i).deadline)
    (windowPos : 0 < window) : 0 < length chains i j window := by
  rw [UInt64.lt_iff_toNat_lt] at shorter
  exact Nat.lt_min.mpr ⟨windowPos, Nat.sub_pos_of_lt shorter⟩

/-- The jobs of chain `j` that `theorem_2.cpp` counts. -/
theorem term_le_jobs_iff (shorter : (chains j).deadline < (chains i).deadline)
    (windowPos : 0 < window) :
    term chains i j window ≤
        TheoremTwo.jobs (length chains i j window) (chains j).period.toNat *
          (chains j).runtime.toNat ↔
      ¬ CountsMore chains i j window := by
  have lengthPos : 0 < length chains i j window := length_pos shorter windowPos
  rw [CountsMore, rest, term]
  by_cases divides : (chains j).period.toNat ∣ length chains i j window
  · rw [TheoremTwo.jobs_of_dvd lengthPos divides]
    generalize length chains i j window / (chains j).period.toNat *
      (chains j).runtime.toNat = whole
    simp only [divides, true_and]
    omega
  · rw [TheoremTwo.jobs_of_not_dvd lengthPos divides, Nat.add_mul, Nat.one_mul]
    exact iff_of_true (Nat.add_le_add_left (Nat.min_le_left _ _) _) fun more =>
      divides more.1

theorem jobs_le_term_iff (shorter : (chains j).deadline < (chains i).deadline)
    (windowPos : 0 < window) :
    TheoremTwo.jobs (length chains i j window) (chains j).period.toNat *
          (chains j).runtime.toNat ≤ term chains i j window ↔
      ¬ CountsLess chains i j window := by
  have lengthPos : 0 < length chains i j window := length_pos shorter windowPos
  rw [CountsLess, rest, term]
  by_cases divides : (chains j).period.toNat ∣ length chains i j window
  · rw [TheoremTwo.jobs_of_dvd lengthPos divides]
    exact iff_of_true (Nat.le_add_right _ _) fun less => less.1 divides
  · rw [TheoremTwo.jobs_of_not_dvd lengthPos divides, Nat.add_mul, Nat.one_mul]
    generalize length chains i j window / (chains j).period.toNat *
      (chains j).runtime.toNat = whole
    simp only [divides, not_false_eq_true, true_and]
    omega

/-- A chain that releases one job at most before its last deadline counts no part on top. -/
theorem not_countsMore_of_lt (shorter : (chains j).deadline < (chains i).deadline)
    (windowPos : 0 < window)
    (single : (chains i).deadline.toNat - (chains j).deadline.toNat <
      (chains j).period.toNat) : ¬ CountsMore chains i j window := by
  rintro ⟨divides, _⟩
  have lengthPos : 0 < length chains i j window := length_pos shorter windowPos
  have lengthLt : length chains i j window < (chains j).period.toNat :=
    (Nat.min_le_right _ _).trans_lt single
  exact Nat.not_dvd_of_pos_of_lt lengthPos lengthLt divides

/-- Where the remainder wraps, the part is a whole job. -/
theorem not_countsLess_of_wraps
    (wraps : window < length chains i j window * (chains j).period.toNat)
    (inRange : length chains i j window * (chains j).period.toNat +
      (chains j).runtime.toNat ≤ 2 ^ 64) : ¬ CountsLess chains i j window := by
  rintro ⟨_, less⟩
  rw [rest] at less
  by_cases product : length chains i j window * (chains j).period.toNat < 2 ^ 64
  · rw [remainder_of_lt product wraps] at less
    omega
  · omega

end TheoremOne

/-! ## The load -/

/-- With constrained deadlines one job of every other chain is active. -/
theorem Constrained.othersSum_eq (constrained : Constrained chains) (i : Fin n)
    (window : Nat) :
    TheoremTwo.othersSum chains i window =
      WordSum.selectedSum (fun k => i ≠ k) fun k => min (chains k).runtime.toNat window := by
  have one : ∀ k, TheoremTwo.jobs (chains k).deadline.toNat (chains k).period.toNat = 1 := by
    intro k
    have within := UInt64.le_iff_toNat_le.mp (constrained k)
    have positive := (chains k).deadline_pos
    rw [TheoremTwo.jobs, Nat.div_eq_of_lt (by omega)]
  rw [TheoremTwo.othersSum, WordSum.selectedSum, WordSum.selectedSum]
  apply Finset.sum_congr rfl
  intro k _
  rw [if_pos trivial, one]
  by_cases own : k = i
  · simp [own]
  · simp [own, Ne.symm own]

theorem Constrained.load_le (constrained : Constrained chains) (windowPos : 0 < window)
    (notMore : ∀ j, (chains j).deadline < (chains i).deadline →
      ¬ TheoremOne.CountsMore chains i j window) :
    TheoremOne.load chains i window ≤ TheoremTwo.load chains i window := by
  rw [TheoremTwo.load, constrained.othersSum_eq]
  apply Nat.add_le_add_right
  apply WordSum.selectedSum_mono
  intro j shorter
  exact (TheoremOne.term_le_jobs_iff shorter windowPos).mpr (notMore j shorter)

theorem Constrained.le_load (constrained : Constrained chains) (windowPos : 0 < window)
    (notLess : ∀ j, (chains j).deadline < (chains i).deadline →
      ¬ TheoremOne.CountsLess chains i j window) :
    TheoremTwo.load chains i window ≤ TheoremOne.load chains i window := by
  rw [TheoremTwo.load, constrained.othersSum_eq]
  apply Nat.add_le_add_right
  apply WordSum.selectedSum_mono
  intro j shorter
  exact (TheoremOne.jobs_le_term_iff shorter windowPos).mpr (notLess j shorter)

/-! ## The reports -/

/-- Both searches for chain `i` come to the window, and it is not their first. -/
def BothVisit (cores : UInt64) (chains : Fin n → TaskChain) (i : Fin n) (window : Nat) :
    Prop :=
  (chains i).startGap.toNat < window ∧ TheoremOne.Visits cores chains i window ∧
    LinearSearch.Reaches (TheoremTwo.exits cores chains i) (chains i).startGap window

/-- On constrained deadlines and small inputs, `theorem_1.cpp` reports no more than
`theorem_2.cpp` if in no window to which both searches come it counts a part on top, and no
less if in no such window a part is less than a job. -/
theorem reports_of_constrained (coresPos : 1 ≤ cores) (constrained : Constrained chains)
    (i : Fin n) (one : TheoremOne.Small cores chains i)
    (two : TheoremTwo.Small cores chains i) :
    ∃ first second, TheoremOne.Reports cores chains i first ∧
      TheoremTwo.Reports cores chains i second ∧
      ((∀ window, BothVisit cores chains i window →
          ∀ j, (chains j).deadline < (chains i).deadline →
            ¬ TheoremOne.CountsMore chains i j window) → first ≤ second) ∧
      ((∀ window, BothVisit cores chains i window →
          ∀ j, (chains j).deadline < (chains i).deadline →
            ¬ TheoremOne.CountsLess chains i j window) → second ≤ first) := by
  rcases TheoremOne.search_endsWithin coresPos one with ⟨gap, ends, _⟩
  rcases TheoremTwo.search_endsWithin coresPos two with ⟨gap', ends', _⟩
  have passes := (one.exits_iff ends.bounded).mp ends.passes
  have passes' := (two.exits_iff coresPos ends'.bounded).mp ends'.passes
  have late := passes.start_lt
  have late' := passes'.start_lt
  have least : LinearSearch.Least (TheoremOne.exits cores chains i) (chains i).startGap gap :=
    ⟨UInt64.le_iff_toNat_le.mpr late.le, ends.passes, fun earlier _ => ends.least earlier⟩
  have least' : LinearSearch.Least (TheoremTwo.exits cores chains i) (chains i).startGap
      gap' :=
    ⟨UInt64.le_iff_toNat_le.mpr late'.le, ends'.passes, fun earlier _ => ends'.least earlier⟩
  have report := TheoremOne.wcrt_toNat (Nat.zero_lt_of_lt late) (one.report_lt ends.bounded)
  have report' := TheoremTwo.wcrt_toNat (Nat.zero_lt_of_lt late')
    (two.fits coresPos ends'.bounded)
  refine ⟨_, _, ResponseSearch.reports_of_returns ends.returns,
    ResponseSearch.reports_of_returns ends'.returns, ?_, ?_⟩
  · intro notMore
    have le : gap ≤ gap' := by
      apply least.le_of_passes least'
      intro lower visits visits'
      rw [UInt64.lt_iff_toNat_lt] at lower
      rw [one.exits_iff (lower.le.trans ends.bounded)]
      apply passes'.of_lighter le_rfl le_rfl
      exact constrained.load_le (Nat.zero_lt_of_lt late')
        (notMore _ ⟨late', visits, visits'⟩)
    rw [UInt64.le_iff_toNat_le] at le ⊢
    rw [report, report']
    omega
  · intro notLess
    have le : gap' ≤ gap := by
      apply least'.le_of_passes least
      intro lower visits' visits
      rw [UInt64.lt_iff_toNat_lt] at lower
      rw [two.exits_iff coresPos (lower.le.trans ends'.bounded)]
      apply passes.of_lighter le_rfl le_rfl
      exact constrained.le_load (Nat.zero_lt_of_lt late) (notLess _ ⟨late, visits, visits'⟩)
    rw [UInt64.le_iff_toNat_le] at le ⊢
    rw [report, report']
    omega

/-- Both programs report the same for the third chain of the task set of
`theorem_1.cpp`. -/
theorem reports_of_constrained_builtIn :
    ∃ value, TheoremOne.Reports 3 TheoremOne.builtIn 2 value ∧
      TheoremTwo.Reports 3 TheoremOne.builtIn 2 value := by
  have one : TheoremOne.Small 3 TheoremOne.builtIn 2 := ⟨by decide, by decide, by decide⟩
  have two : TheoremTwo.Small 3 TheoremOne.builtIn 2 := ⟨by decide, by decide⟩
  rcases reports_of_constrained (by decide) (by decide) 2 one two with
    ⟨first, second, firstReport, secondReport, le, ge⟩
  -- the two chains with a shorter deadline release one job in the last 40 units
  have others : ∀ j, (TheoremOne.builtIn j).deadline < (TheoremOne.builtIn 2).deadline →
      (TheoremOne.builtIn 2).deadline.toNat - (TheoremOne.builtIn j).deadline.toNat = 40 ∧
        (TheoremOne.builtIn j).period.toNat = 80 ∧
        (TheoremOne.builtIn j).runtime.toNat ≤ 22 := by decide
  have same : first = second := by
    apply UInt64.le_antisymm
    · apply le
      intro window both j shorter
      rcases others j shorter with ⟨gap, period, _⟩
      apply TheoremOne.not_countsMore_of_lt shorter (Nat.zero_lt_of_lt both.1)
      rw [gap, period]
      decide
    · apply ge
      intro window both j shorter
      rcases others j shorter with ⟨gap, period, runtime⟩
      have visited : window ≤ TheoremOne.lastWindow 3 TheoremOne.builtIn 2 :=
        one.le_lastWindow (by decide) both.2.1
      have last : TheoremOne.lastWindow 3 TheoremOne.builtIn 2 ≤ 200 := by decide
      have late : 36 < window := both.1
      apply TheoremOne.not_countsLess_of_wraps
      all_goals
        rw [TheoremOne.length, gap, period]
        omega
  exact ⟨first, firstReport, same ▸ secondReport⟩

end PriorityExecutor
