import Mathlib.Algebra.Order.Floor.Div
import PriorityExecutor.Analysis.TaskSet
import PriorityExecutor.Foundation.DemandWindow

/-!
# Response times for arbitrary deadlines

`theorem_2.cpp` looks for the first window in which the cores supply more than the
demand, for each chain.  The demand counts the jobs of chains with a shorter deadline by
a ceiling, adds the callbacks of every chain that may be active, and takes out one job
of the chain itself.

Over the integers the demand is a constant plus a load that only grows with the window
and the task set.
-/

namespace PriorityExecutor

namespace TheoremTwo

variable {n : Nat}

/-- The jobs of chain `j` that delay chain `i`. -/
def interference (chains : Fin n → TaskChain) (i j : Fin n) (timeGap : UInt64) : UInt64 :=
  ((min timeGap ((chains i).deadline - (chains j).deadline) - 1) / (chains j).period + 1) *
    (chains j).runtime

/-- The active jobs of chain `k`. -/
def active (chains : Fin n → TaskChain) (k : Fin n) (timeGap : UInt64) : UInt64 :=
  (((chains k).deadline - 1) / (chains k).period + 1) * min (chains k).runtime timeGap

/-- The value of `dbf` at the test of the loop. -/
def dbf (cores : UInt64) (chains : Fin n → TaskChain) (i : Fin n) (timeGap : UInt64) :
    UInt64 :=
  let dbf := cores * (chains i).startGap
  let dbf := WordSum.accumulate (fun j => (chains j).deadline < (chains i).deadline)
    (fun j => interference chains i j timeGap) dbf
  let dbf := WordSum.accumulate (fun _ => True) (fun k => active chains k timeGap) dbf
  dbf - min (chains i).runtime timeGap

/-- The test that ends the loop. -/
def exits (cores : UInt64) (chains : Fin n → TaskChain) (i : Fin n) (timeGap : UInt64) :
    Bool :=
  dbf cores chains i timeGap < cores * timeGap

/-- What the exit window reports. -/
def wcrt (chains : Fin n → TaskChain) (i : Fin n) (timeGap : UInt64) : UInt64 :=
  timeGap + (chains i).lastCallback - 1

/-- The vector `WCRT`. -/
def main (fuel : Nat) (cores : UInt64) (chains : Fin n → TaskChain) :
    Option (List UInt64) :=
  ResponseSearch.main (exits cores chains) (wcrt chains) chains fuel

/-- The program reports `value` for chain `i`. -/
def Reports (cores : UInt64) (chains : Fin n → TaskChain) (i : Fin n) (value : UInt64) :
    Prop :=
  ResponseSearch.Reports (exits cores chains) (wcrt chains) chains i value

/-! ## The demand over the integers -/

/-- `⌈length / period⌉` for a positive length, as the source writes it. -/
def jobs (length period : Nat) : Nat := (length - 1) / period + 1

theorem jobs_mono {length length' period period' : Nat} (longer : length ≤ length')
    (shorter : period' ≤ period) (periodPos : 0 < period') :
    jobs length period ≤ jobs length' period' :=
  Nat.add_le_add_right
    (Nat.div_le_div (by omega) shorter (by omega)) 1

/-- The interference of the chains with a shorter deadline. -/
def interferenceSum (chains : Fin n → TaskChain) (i : Fin n) (window : Nat) : Nat :=
  WordSum.selectedSum (fun j => (chains j).deadline < (chains i).deadline) fun j =>
    jobs (min window ((chains i).deadline.toNat - (chains j).deadline.toNat))
      (chains j).period.toNat * (chains j).runtime.toNat

/-- The active jobs of all chains. -/
def activeSum (chains : Fin n → TaskChain) (window : Nat) : Nat :=
  WordSum.selectedSum (fun _ => True) fun k =>
    jobs (chains k).deadline.toNat (chains k).period.toNat *
      min (chains k).runtime.toNat window

/-- The active jobs without one of the chain itself. -/
def othersSum (chains : Fin n → TaskChain) (i : Fin n) (window : Nat) : Nat :=
  WordSum.selectedSum (fun _ => True) fun k =>
    (jobs (chains k).deadline.toNat (chains k).period.toNat - if k = i then 1 else 0) *
      min (chains k).runtime.toNat window

/-- What the window adds to the demand. -/
def load (chains : Fin n → TaskChain) (i : Fin n) (window : Nat) : Nat :=
  interferenceSum chains i window + othersSum chains i window

/-- The subtraction of the own job leaves the other active jobs. -/
theorem activeSum_eq (chains : Fin n → TaskChain) (i : Fin n) (window : Nat) :
    activeSum chains window =
      othersSum chains i window + min (chains i).runtime.toNat window := by
  have own : (∑ k, if k = i then min (chains k).runtime.toNat window else 0) =
      min (chains i).runtime.toNat window := by
    rw [Finset.sum_ite_eq' Finset.univ i]
    simp
  rw [activeSum, othersSum, WordSum.selectedSum, WordSum.selectedSum, ← own,
    ← Finset.sum_add_distrib]
  refine Finset.sum_congr rfl fun k _ => ?_
  rw [if_pos trivial, if_pos trivial]
  split
  next =>
    rw [jobs, Nat.add_sub_cancel, Nat.add_mul, Nat.one_mul]
  next => simp

/-- The load grows with the window and the task set. -/
theorem load_mono {n' : Nat} {cores cores' : UInt64} {chains : Fin n → TaskChain}
    {chains' : Fin n' → TaskChain} {place : Fin n → Fin n'}
    (heavier : HeavierSet cores chains cores' chains' place)
    (sumsFit : ∀ j, (chains' j).SumFits) (i : Fin n) {window window' : Nat}
    (longer : window ≤ window') :
    load chains i window ≤ load chains' (place i) window' := by
  have runtimes : ∀ j, (chains j).runtime.toNat ≤ (chains' (place j)).runtime.toNat :=
    fun j => (heavier.chain j).runtime_le (sumsFit (place j))
  refine Nat.add_le_add ?_ ?_
  · refine WordSum.selectedSum_le_of_place heavier.injective ?_ ?_
    · intro j shorter
      rwa [(heavier.chain j).deadline, (heavier.chain i).deadline]
    · intro j _
      rw [(heavier.chain j).deadline, (heavier.chain i).deadline]
      refine Nat.mul_le_mul ?_ (runtimes j)
      exact jobs_mono (by omega) (heavier.chain j).period_le (chains' (place j)).period_pos
  · refine WordSum.selectedSum_le_of_place heavier.injective (fun _ => id) ?_
    intro k _
    have instances := jobs_mono (Nat.le_refl (chains k).deadline.toNat)
      (heavier.chain k).period_le (chains' (place k)).period_pos
    have runtime := runtimes k
    simp only [(heavier.chain k).deadline, heavier.injective.eq_iff]
    exact Nat.mul_le_mul (by omega) (by omega)

/-! ## The words of a turn -/

/-- No addition or multiplication of the turn for a window leaves the 64 bits. -/
structure Fits (cores : UInt64) (chains : Fin n → TaskChain) (i : Fin n) (window : Nat) :
    Prop where
  runtimes : ∀ j, (chains j).SumFits
  demand : cores.toNat * (chains i).startGap.toNat + interferenceSum chains i window +
    activeSum chains window < 2 ^ 64
  supply : cores.toNat * window < 2 ^ 64
  response : window + (chains i).lastCallback.toNat < 2 ^ 64

theorem jobs_toNat {length : UInt64} (lengthPos : 0 < length.toNat) (period : UInt64) :
    ((length - 1) / period + 1).toNat = jobs length.toNat period.toNat := by
  have one : UInt64.toNat 1 = 1 := rfl
  have less : (length - 1).toNat = length.toNat - 1 := by
    rw [WordSum.toNat_sub_of_toNat_le (by omega), one]
  have quotient : ((length - 1) / period).toNat = (length.toNat - 1) / period.toNat := by
    rw [UInt64.toNat_div, less]
  have small := Nat.div_le_self (length.toNat - 1) period.toNat
  have range := length.toNat_lt
  rw [WordSum.toNat_add_of_fits (by omega), quotient, one, jobs]

variable {cores : UInt64} {chains : Fin n → TaskChain} {i : Fin n} {timeGap : UInt64}

theorem interference_toNat {j : Fin n} (shorter : (chains j).deadline < (chains i).deadline)
    (gapPos : 0 < timeGap.toNat)
    (fits : jobs (min timeGap.toNat ((chains i).deadline.toNat - (chains j).deadline.toNat))
      (chains j).period.toNat * (chains j).runtime.toNat < 2 ^ 64) :
    (interference chains i j timeGap).toNat =
      jobs (min timeGap.toNat ((chains i).deadline.toNat - (chains j).deadline.toNat))
        (chains j).period.toNat * (chains j).runtime.toNat := by
  rw [UInt64.lt_iff_toNat_lt] at shorter
  have length : (min timeGap ((chains i).deadline - (chains j).deadline)).toNat =
      min timeGap.toNat ((chains i).deadline.toNat - (chains j).deadline.toNat) := by
    rw [UInt64.toNat_min, WordSum.toNat_sub_of_toNat_le shorter.le]
  have lengthPos : 0 < (min timeGap ((chains i).deadline - (chains j).deadline)).toNat := by
    omega
  have instances := jobs_toNat lengthPos (chains j).period
  rw [length] at instances
  rw [interference, WordSum.toNat_mul_of_fits (by rwa [instances]), instances]

theorem active_toNat {k : Fin n}
    (fits : jobs (chains k).deadline.toNat (chains k).period.toNat *
      min (chains k).runtime.toNat timeGap.toNat < 2 ^ 64) :
    (active chains k timeGap).toNat =
      jobs (chains k).deadline.toNat (chains k).period.toNat *
        min (chains k).runtime.toNat timeGap.toNat := by
  have instances := jobs_toNat (chains k).deadline_pos (chains k).period
  rw [← instances, ← UInt64.toNat_min] at fits ⊢
  exact WordSum.toNat_mul_of_fits fits

/-- In a positive window the demand is its value over the integers. -/
theorem dbf_toNat (gapPos : 0 < timeGap.toNat) (fits : Fits cores chains i timeGap.toNat) :
    (dbf cores chains i timeGap).toNat =
      cores.toNat * (chains i).startGap.toNat + load chains i timeGap.toNat := by
  have total := fits.demand
  have reserved : (cores * (chains i).startGap).toNat =
      cores.toNat * (chains i).startGap.toNat :=
    WordSum.toNat_mul_of_fits (by omega)
  have interferes : WordSum.selectedSum (fun j => (chains j).deadline < (chains i).deadline)
      (fun j => (interference chains i j timeGap).toNat) =
        interferenceSum chains i timeGap.toNat := by
    refine WordSum.selectedSum_congr fun j shorter => interference_toNat shorter gapPos ?_
    have single : _ ≤ interferenceSum chains i timeGap.toNat :=
      WordSum.le_selectedSum (fun j => (chains j).deadline < (chains i).deadline) _ shorter
    omega
  have actives : WordSum.selectedSum (fun _ => True)
      (fun k => (active chains k timeGap).toNat) = activeSum chains timeGap.toNat := by
    refine WordSum.selectedSum_congr fun k _ => active_toNat ?_
    have single : _ ≤ activeSum chains timeGap.toNat :=
      WordSum.le_selectedSum (fun _ => True) _ (j := k) trivial
    omega
  have sums := WordSum.toNat_accumulate_accumulate interferes actives
    (by omega : (cores * (chains i).startGap).toNat + _ + _ < 2 ^ 64)
  have own := activeSum_eq chains i timeGap.toNat
  have ownWord := UInt64.toNat_min (chains i).runtime timeGap
  rw [dbf, WordSum.toNat_sub_of_toNat_le (by omega), load]
  omega

theorem exits_iff (gapPos : 0 < timeGap.toNat) (fits : Fits cores chains i timeGap.toNat) :
    exits cores chains i timeGap = true ↔
      DemandWindow.Passes cores.toNat (chains i).startGap.toNat
        (load chains i timeGap.toNat) timeGap.toNat := by
  rw [exits, decide_eq_true_iff, UInt64.lt_iff_toNat_lt, dbf_toNat gapPos fits,
    WordSum.toNat_mul_of_fits fits.supply]
  rfl

/-- The empty window never ends the search, whatever wraps there. -/
theorem toNat_pos_of_exits (passes : exits cores chains i timeGap = true) :
    0 < timeGap.toNat := by
  by_contra zero
  have empty : timeGap = 0 := by
    rw [← UInt64.toNat_inj]
    exact Nat.eq_zero_of_not_pos zero
  rw [exits, empty, UInt64.mul_zero, decide_eq_true_iff] at passes
  exact UInt64.not_lt_zero passes

theorem wcrt_toNat (gapPos : 0 < timeGap.toNat) (fits : Fits cores chains i timeGap.toNat) :
    (wcrt chains i timeGap).toNat =
      timeGap.toNat + (chains i).lastCallback.toNat - 1 := by
  have one : UInt64.toNat 1 = 1 := rfl
  have sum := WordSum.toNat_add_of_fits fits.response
  rw [wcrt, WordSum.toNat_sub_of_toNat_le (by omega), sum, one]

/-! ## The end of the search -/

theorem jobs_eq_ceilDiv {length period : Nat} (lengthPos : 0 < length)
    (periodPos : 0 < period) : jobs length period = length ⌈/⌉ period := by
  rw [jobs, Nat.ceilDiv_eq_add_pred_div, ← Nat.add_div_right _ periodPos]
  congr 1
  omega

/-- The caps of the interference terms, which do not depend on the window. -/
def cap (chains : Fin n → TaskChain) (i : Fin n) : Nat :=
  WordSum.selectedSum (fun j => (chains j).deadline < (chains i).deadline) (fun j =>
      (((chains i).deadline.toNat - (chains j).deadline.toNat) ⌈/⌉
        (chains j).period.toNat) * (chains j).runtime.toNat) +
    WordSum.selectedSum (fun k => k ≠ i) (fun k =>
      ((chains k).deadline.toNat ⌈/⌉ (chains k).period.toNat) * (chains k).runtime.toNat) +
    ((chains i).deadline.toNat ⌈/⌉ (chains i).period.toNat - 1) * (chains i).runtime.toNat

theorem load_le_cap (chains : Fin n → TaskChain) (i : Fin n) (window : Nat) :
    load chains i window ≤ cap chains i := by
  have interferes : interferenceSum chains i window ≤
      WordSum.selectedSum (fun j => (chains j).deadline < (chains i).deadline) (fun j =>
        (((chains i).deadline.toNat - (chains j).deadline.toNat) ⌈/⌉
          (chains j).period.toNat) * (chains j).runtime.toNat) := by
    refine WordSum.selectedSum_mono fun j shorter => Nat.mul_le_mul_right _ ?_
    rw [UInt64.lt_iff_toNat_lt] at shorter
    rw [← jobs_eq_ceilDiv (by omega) (chains j).period_pos]
    exact jobs_mono (Nat.min_le_right _ _) le_rfl (chains j).period_pos
  have others : othersSum chains i window ≤
      WordSum.selectedSum (fun k => k ≠ i) (fun k =>
        ((chains k).deadline.toNat ⌈/⌉ (chains k).period.toNat) *
          (chains k).runtime.toNat) +
      ((chains i).deadline.toNat ⌈/⌉ (chains i).period.toNat - 1) *
        (chains i).runtime.toNat := by
    have own : (∑ k, if k = i then ((chains i).deadline.toNat ⌈/⌉
        (chains i).period.toNat - 1) * (chains i).runtime.toNat else 0) =
          ((chains i).deadline.toNat ⌈/⌉ (chains i).period.toNat - 1) *
            (chains i).runtime.toNat := by
      rw [Finset.sum_ite_eq' Finset.univ i]
      simp
    rw [othersSum, WordSum.selectedSum, WordSum.selectedSum, ← own,
      ← Finset.sum_add_distrib]
    refine Finset.sum_le_sum fun k _ => ?_
    rw [if_pos trivial, jobs_eq_ceilDiv (chains k).deadline_pos (chains k).period_pos]
    by_cases same : k = i
    · subst same
      rw [if_pos rfl, if_neg (not_not.mpr rfl), if_pos rfl, Nat.zero_add]
      exact Nat.mul_le_mul_left _ (Nat.min_le_left _ _)
    · rw [if_neg same, if_pos same, if_neg same, Nat.sub_zero, Nat.add_zero]
      exact Nat.mul_le_mul_left _ (Nat.min_le_left _ _)
  unfold load cap
  omega

/-- The runtimes and the cap are small enough for the 64 bits. -/
structure Small (cores : UInt64) (chains : Fin n → TaskChain) (i : Fin n) : Prop where
  runtimes : ∀ j, (chains j).SumFits
  total : cores.toNat * (chains i).startGap.toNat + cap chains i +
    (chains i).runtime.toNat + cores.toNat < 2 ^ 64

/-- The last window that the search may visit. -/
def lastWindow (cores : UInt64) (chains : Fin n → TaskChain) (i : Fin n) : Nat :=
  (chains i).startGap.toNat + cap chains i / cores.toNat + 1

theorem Small.fits (small : Small cores chains i) (coresPos : 1 ≤ cores) {window : Nat}
    (visited : window ≤ lastWindow cores chains i) : Fits cores chains i window := by
  have total := small.total
  have corePos : 1 ≤ cores.toNat := UInt64.le_iff_toNat_le.mp coresPos
  have supplied : cores.toNat * lastWindow cores chains i ≤ _ :=
    DemandWindow.supply_le_of_cap (cap chains i)
  constructor
  case runtimes => exact small.runtimes
  case demand =>
    have own := activeSum_eq chains i window
    have bounded : interferenceSum chains i window + othersSum chains i window ≤ _ :=
      load_le_cap chains i window
    omega
  case supply =>
    have inRange := Nat.mul_le_mul_left cores.toNat visited
    omega
  case response =>
    have split := TaskChain.startGap_add_lastCallback (small.runtimes i)
    have quotient := Nat.div_le_self (cap chains i) cores.toNat
    unfold lastWindow at visited
    omega

theorem Small.lastWindow_lt (small : Small cores chains i) (coresPos : 1 ≤ cores) :
    lastWindow cores chains i < 2 ^ 64 := by
  have supply := (small.fits coresPos le_rfl).supply
  have scaled := Nat.le_mul_of_pos_left (lastWindow cores chains i)
    (UInt64.le_iff_toNat_le.mp coresPos)
  omega

/-- The test in all windows that the search may visit, the empty one included. -/
theorem Small.exits_iff (small : Small cores chains i) (coresPos : 1 ≤ cores)
    (visited : timeGap.toNat ≤ lastWindow cores chains i) :
    exits cores chains i timeGap = true ↔
      DemandWindow.Passes cores.toNat (chains i).startGap.toNat
        (load chains i timeGap.toNat) timeGap.toNat := by
  by_cases gapPos : 0 < timeGap.toNat
  · exact TheoremTwo.exits_iff gapPos (small.fits coresPos visited)
  · constructor
    · exact fun passes => absurd (toNat_pos_of_exits passes) gapPos
    · exact fun passes => absurd passes.start_lt (by omega)

/-- The search of a chain ends at the least window that passes, and the reported value
covers the runtime of the chain. -/
theorem search_endsWithin (coresPos : 1 ≤ cores) (small : Small cores chains i) :
    ∃ timeGap,
      LinearSearch.EndsWithin (exits cores chains i) (chains i).startGap
        (lastWindow cores chains i) timeGap ∧
      (chains i).runtime ≤ wcrt chains i timeGap := by
  obtain ⟨found, ends, late⟩ := DemandWindow.exists_endsWithin
    (UInt64.le_iff_toNat_le.mp coresPos) (load_le_cap chains i)
    (small.lastWindow_lt coresPos) fun _ visited => small.exits_iff coresPos visited
  refine ⟨found, ends, ?_⟩
  have split := TaskChain.startGap_add_lastCallback (small.runtimes i)
  rw [UInt64.le_iff_toNat_le, wcrt_toNat (by omega) (small.fits coresPos ends.bounded)]
  omega

/-! ## Sustainability -/

/-- Every positive window that the search comes to stays in range. -/
def FitsThroughout (cores : UInt64) (chains : Fin n → TaskChain) (i : Fin n) : Prop :=
  ∀ window, 0 < window →
    LinearSearch.Reaches (exits cores chains i) (chains i).startGap window →
    Fits cores chains i window

/-- The search ends as its counter may not wrap. -/
theorem FitsThroughout.exists_least (fits : FitsThroughout cores chains i)
    (coresPos : 1 ≤ cores) :
    ∃ found, LinearSearch.Least (exits cores chains i) (chains i).startGap found := by
  apply LinearSearch.exists_least_of_reaches
  intro wraps
  have supply := (fits (2 ^ 64) (by omega) wraps).supply
  have corePos : 1 ≤ cores.toNat := UInt64.le_iff_toNat_le.mp coresPos
  omega

/-- The search of a small input comes to no window past its last one. -/
theorem Small.fitsThroughout (small : Small cores chains i) (coresPos : 1 ≤ cores) :
    FitsThroughout cores chains i := by
  intro window _ reaches
  exact small.fits coresPos (DemandWindow.reaches_le (UInt64.le_iff_toNat_le.mp coresPos)
    (load_le_cap chains i) (small.lastWindow_lt coresPos)
    (fun _ visited => small.exits_iff coresPos visited) reaches)

/-- Enlarging runtimes, shortening periods, removing cores and adding chains never
shrinks the reported response time of a chain. -/
theorem wcrt_sustainable {n' : Nat} {cores' : UInt64} {chains' : Fin n' → TaskChain}
    {place : Fin n → Fin n'} (coresPos : 1 ≤ cores')
    (heavier : HeavierSet cores chains cores' chains' place) (i : Fin n)
    (fits : FitsThroughout cores chains i)
    (heavyFits : FitsThroughout cores' chains' (place i)) :
    ∃ light heavy, Reports cores chains i light ∧ Reports cores' chains' (place i) heavy ∧
      light ≤ heavy := by
  obtain ⟨heavyGap, heavyLeast⟩ := heavyFits.exists_least coresPos
  have gapPos := toNat_pos_of_exits heavyLeast.passes
  have heavyRange := heavyFits _ gapPos heavyLeast.reaches
  have heavyPasses := (exits_iff gapPos heavyRange).mp heavyLeast.passes
  have earlier := (heavier.chain i).startGap_le (heavyRange.runtimes (place i))
  refine ResponseSearch.exists_reports_le heavyLeast ?_ ?_ ?_
  · rw [UInt64.le_iff_toNat_le]
    exact earlier.trans heavyPasses.start_lt.le
  · -- the window that ends the second search passes in the first input, too
    intro reaches
    rw [exits_iff gapPos (fits _ gapPos reaches)]
    exact heavyPasses.of_lighter (UInt64.le_iff_toNat_le.mp heavier.cores) earlier
      (load_mono heavier heavyRange.runtimes i le_rfl)
  · intro gap gapLe least
    have lightPos := toNat_pos_of_exits least.passes
    have lastLe := (heavier.chain i).lastCallback_le
    rw [UInt64.le_iff_toNat_le] at gapLe ⊢
    rw [wcrt_toNat lightPos (fits _ lightPos least.reaches), wcrt_toNat gapPos heavyRange]
    omega

/-- One chain on two cores. -/
def lightSet : Fin 1 → TaskChain := fun _ =>
  { callbacks := [1, 2], period := 10, deadline := 10,
    nonempty := by decide, periodPos := by decide, deadlinePos := by decide }

/-- The same chain with a larger callback and a shorter period, next to another chain
with a shorter deadline. -/
def heavySet : Fin 2 → TaskChain :=
  ![{ callbacks := [3], period := 4, deadline := 7,
      nonempty := by decide, periodPos := by decide, deadlinePos := by decide },
    { callbacks := [2, 2], period := 5, deadline := 10,
      nonempty := by decide, periodPos := by decide, deadlinePos := by decide }]

theorem lightSet_heavySet : HeavierSet 2 lightSet 1 heavySet fun _ => 1 where
  cores := by decide
  injective := by decide
  chain i := by
    rw [Subsingleton.elim i 0]
    exact ⟨.cons (by decide) (.cons (by decide) .nil), by decide, rfl⟩

theorem lightSet_small : Small 2 lightSet 0 := ⟨by decide, by decide⟩

theorem heavySet_small : Small 1 heavySet 1 := ⟨by decide, by decide⟩

theorem lightSet_heavySet_sustainable :
    ∃ light heavy, Reports 2 lightSet 0 light ∧ Reports 1 heavySet 1 heavy ∧
      light ≤ heavy :=
  wcrt_sustainable (by decide) lightSet_heavySet 0
    (lightSet_small.fitsThroughout (by decide)) (heavySet_small.fitsThroughout (by decide))

end TheoremTwo

end PriorityExecutor
