import PriorityExecutor.Analysis.TaskSet
import PriorityExecutor.Foundation.DemandWindow

/-!
# Response times for constrained deadlines

`theorem_1.cpp` is the same search with another demand.  A chain with a shorter deadline
interferes with the jobs that fit before its deadline and with a part of one more job,
the part that fits in what is left of the window.

What is left is computed as `time_gap - length * period`, where `length` is itself a
time and not a number of periods.  The subtraction is unsigned, and for most windows it
wraps; the minimum around it then counts the whole job.
-/

namespace PriorityExecutor

namespace TheoremOne

variable {n : Nat}

/-- What the demand counts for chain `j` with a shorter deadline than chain `i`. -/
def interference (chains : Fin n → TaskChain) (i j : Fin n) (timeGap : UInt64) : UInt64 :=
  min timeGap ((chains i).deadline - (chains j).deadline) / (chains j).period *
      (chains j).runtime +
    min (chains j).runtime
      (timeGap - min timeGap ((chains i).deadline - (chains j).deadline) *
        (chains j).period)

/-- The value of `dbf` at the test of the loop. -/
def dbf (cores : UInt64) (chains : Fin n → TaskChain) (i : Fin n) (timeGap : UInt64) :
    UInt64 :=
  let dbf := cores * (chains i).startGap
  let dbf := WordSum.accumulate (fun j => (chains j).deadline < (chains i).deadline)
    (fun j => interference chains i j timeGap) dbf
  WordSum.accumulate (fun k => i ≠ k) (fun k => min (chains k).runtime timeGap) dbf

/-- The test that ends the loop. -/
def exits (cores : UInt64) (chains : Fin n → TaskChain) (i : Fin n) (timeGap : UInt64) :
    Bool :=
  dbf cores chains i timeGap < cores * timeGap

/-- What the exit window reports: a 32-bit `uint`, stored in a vector of `uint64_t`. -/
def wcrt (chains : Fin n → TaskChain) (i : Fin n) (timeGap : UInt64) : UInt64 :=
  (timeGap + (chains i).lastCallback - 1).toUInt32.toUInt64

/-- The vector `WCRT`. -/
def main (fuel : Nat) (cores : UInt64) (chains : Fin n → TaskChain) :
    Option (List UInt64) :=
  ResponseSearch.main (exits cores chains) (wcrt chains) chains fuel

/-- The program reports `value` for chain `i`. -/
def Reports (cores : UInt64) (chains : Fin n → TaskChain) (i : Fin n) (value : UInt64) :
    Prop :=
  ResponseSearch.Reports (exits cores chains) (wcrt chains) chains i value

/-! ## The demand in natural numbers -/

/-- `window - length * period` in 64 unsigned bits. -/
def remainder (window length period : Nat) : Nat :=
  (2 ^ 64 - length * period % 2 ^ 64 + window) % 2 ^ 64

theorem remainder_of_le {window length period : Nat} (inRange : window < 2 ^ 64)
    (le : length * period ≤ window) :
    remainder window length period = window - length * period := by
  unfold remainder
  omega

theorem remainder_of_lt {window length period : Nat} (inRange : length * period < 2 ^ 64)
    (wraps : window < length * period) :
    remainder window length period = 2 ^ 64 + window - length * period := by
  unfold remainder
  omega

/-- The time before the deadline of chain `i` in which jobs of chain `j` count. -/
def length (chains : Fin n → TaskChain) (i j : Fin n) (window : Nat) : Nat :=
  min window ((chains i).deadline.toNat - (chains j).deadline.toNat)

/-- The interference of one chain. -/
def term (chains : Fin n → TaskChain) (i j : Fin n) (window : Nat) : Nat :=
  length chains i j window / (chains j).period.toNat * (chains j).runtime.toNat +
    min (chains j).runtime.toNat
      (remainder window (length chains i j window) (chains j).period.toNat)

/-- What the window adds to the demand. -/
def load (chains : Fin n → TaskChain) (i : Fin n) (window : Nat) : Nat :=
  WordSum.selectedSum (fun j => (chains j).deadline < (chains i).deadline)
      (fun j => term chains i j window) +
    WordSum.selectedSum (fun k => i ≠ k) (fun k => min (chains k).runtime.toNat window)

variable {cores : UInt64} {chains : Fin n → TaskChain} {i j : Fin n} {timeGap : UInt64}

/-- No addition and no product of runtimes in the demand leaves the 64 bits. -/
structure Fits (cores : UInt64) (chains : Fin n → TaskChain) (i : Fin n) (window : Nat) :
    Prop where
  runtimes : ∀ j, (chains j).SumFits
  demand : cores.toNat * (chains i).startGap.toNat + load chains i window < 2 ^ 64

theorem length_toNat (shorter : (chains j).deadline < (chains i).deadline) :
    (min timeGap ((chains i).deadline - (chains j).deadline)).toNat =
      length chains i j timeGap.toNat := by
  rw [UInt64.lt_iff_toNat_lt] at shorter
  rw [UInt64.toNat_min, WordSum.toNat_sub_of_toNat_le shorter.le, length]

theorem interference_toNat (shorter : (chains j).deadline < (chains i).deadline)
    (fits : term chains i j timeGap.toNat < 2 ^ 64) :
    (interference chains i j timeGap).toNat = term chains i j timeGap.toNat := by
  have lengthEq : (min timeGap ((chains i).deadline - (chains j).deadline)).toNat =
      length chains i j timeGap.toNat := length_toNat shorter
  have rest : (timeGap - min timeGap ((chains i).deadline - (chains j).deadline) *
      (chains j).period).toNat =
        remainder timeGap.toNat (length chains i j timeGap.toNat)
          (chains j).period.toNat := by
    rw [UInt64.toNat_sub, UInt64.toNat_mul, lengthEq, remainder]
  unfold term at fits ⊢
  have product : (min timeGap ((chains i).deadline - (chains j).deadline) /
      (chains j).period * (chains j).runtime).toNat =
        length chains i j timeGap.toNat / (chains j).period.toNat *
          (chains j).runtime.toNat := by
    rw [WordSum.toNat_mul_of_fits, UInt64.toNat_div, lengthEq]
    rw [UInt64.toNat_div, lengthEq]
    omega
  have part : (min (chains j).runtime (timeGap - min timeGap ((chains i).deadline -
      (chains j).deadline) * (chains j).period)).toNat = _ :=
    (UInt64.toNat_min _ _).trans (congrArg _ rest)
  rw [interference, WordSum.toNat_add_of_fits (by omega), product, part]

theorem dbf_toNat (fits : Fits cores chains i timeGap.toNat) :
    (dbf cores chains i timeGap).toNat =
      cores.toNat * (chains i).startGap.toNat + load chains i timeGap.toNat := by
  have total := fits.demand
  unfold load at total ⊢
  have reserved : (cores * (chains i).startGap).toNat =
      cores.toNat * (chains i).startGap.toNat :=
    WordSum.toNat_mul_of_fits (by omega)
  have interferes : WordSum.selectedSum (fun j => (chains j).deadline < (chains i).deadline)
      (fun j => (interference chains i j timeGap).toNat) =
        WordSum.selectedSum (fun j => (chains j).deadline < (chains i).deadline)
          (fun j => term chains i j timeGap.toNat) := by
    refine WordSum.selectedSum_congr fun j shorter => interference_toNat shorter ?_
    have single : term chains i j timeGap.toNat ≤ _ :=
      WordSum.le_selectedSum (fun j => (chains j).deadline < (chains i).deadline)
        (fun j => term chains i j timeGap.toNat) shorter
    omega
  have others : WordSum.selectedSum (fun k => i ≠ k)
      (fun k => (min (chains k).runtime timeGap).toNat) =
        WordSum.selectedSum (fun k => i ≠ k)
          (fun k => min (chains k).runtime.toNat timeGap.toNat) :=
    WordSum.selectedSum_congr fun k _ => UInt64.toNat_min _ _
  have sums := WordSum.toNat_accumulate_accumulate interferes others
    (by omega : (cores * (chains i).startGap).toNat + _ + _ < 2 ^ 64)
  rw [dbf]
  omega

theorem exits_iff (fits : Fits cores chains i timeGap.toNat)
    (supply : cores.toNat * timeGap.toNat < 2 ^ 64) :
    exits cores chains i timeGap = true ↔
      DemandWindow.Passes cores.toNat (chains i).startGap.toNat
        (load chains i timeGap.toNat) timeGap.toNat := by
  rw [exits, decide_eq_true_iff, UInt64.lt_iff_toNat_lt, dbf_toNat fits,
    WordSum.toNat_mul_of_fits supply]
  rfl

theorem wcrt_toNat (gapPos : 0 < timeGap.toNat)
    (fits : timeGap.toNat + (chains i).lastCallback.toNat - 1 < 2 ^ 32) :
    (wcrt chains i timeGap).toNat =
      timeGap.toNat + (chains i).lastCallback.toNat - 1 := by
  have one : UInt64.toNat 1 = 1 := rfl
  have sum := WordSum.toNat_add_of_fits
    (by omega : timeGap.toNat + (chains i).lastCallback.toNat < 2 ^ 64)
  rw [wcrt, UInt32.toNat_toUInt64, UInt64.toNat_toUInt32,
    WordSum.toNat_sub_of_toNat_le (by omega), sum, one, Nat.mod_eq_of_lt fits]

/-! ## The end of the search -/

/-- The caps of the interference terms, which do not depend on the window. -/
def cap (chains : Fin n → TaskChain) (i : Fin n) : Nat :=
  WordSum.selectedSum (fun j => (chains j).deadline < (chains i).deadline) (fun j =>
      (((chains i).deadline.toNat - (chains j).deadline.toNat) / (chains j).period.toNat + 1) *
        (chains j).runtime.toNat) +
    WordSum.selectedSum (fun k => i ≠ k) (fun k => (chains k).runtime.toNat)

/-- A wrapped remainder counts at most one whole job. -/
theorem term_le (chains : Fin n → TaskChain) (i j : Fin n) (window : Nat) :
    term chains i j window ≤
      (((chains i).deadline.toNat - (chains j).deadline.toNat) / (chains j).period.toNat + 1) *
        (chains j).runtime.toNat := by
  have periods : length chains i j window / (chains j).period.toNat ≤
      ((chains i).deadline.toNat - (chains j).deadline.toNat) / (chains j).period.toNat :=
    Nat.div_le_div_right (Nat.min_le_right _ _)
  rw [term, Nat.add_mul, Nat.one_mul]
  exact Nat.add_le_add (Nat.mul_le_mul_right _ periods) (Nat.min_le_left _ _)

theorem load_le_cap (chains : Fin n → TaskChain) (i : Fin n) (window : Nat) :
    load chains i window ≤ cap chains i :=
  Nat.add_le_add (WordSum.selectedSum_mono fun j _ => term_le chains i j window)
    (WordSum.selectedSum_mono fun _ _ => Nat.min_le_left _ _)

/-- The runtimes, the cap and the report are small enough for their types. -/
structure Small (cores : UInt64) (chains : Fin n → TaskChain) (i : Fin n) : Prop where
  runtimes : ∀ j, (chains j).SumFits
  total : cores.toNat * (chains i).startGap.toNat + cap chains i + cores.toNat < 2 ^ 64
  report : (chains i).runtime.toNat + cap chains i / cores.toNat < 2 ^ 32

/-- The last window that the search may visit. -/
def lastWindow (cores : UInt64) (chains : Fin n → TaskChain) (i : Fin n) : Nat :=
  (chains i).startGap.toNat + cap chains i / cores.toNat + 1

theorem Small.fits (small : Small cores chains i) (window : Nat) :
    Fits cores chains i window := by
  have total := small.total
  have bounded := load_le_cap chains i window
  exact ⟨small.runtimes, by omega⟩

theorem Small.supply (small : Small cores chains i) {window : Nat}
    (visited : window ≤ lastWindow cores chains i) : cores.toNat * window < 2 ^ 64 := by
  have total := small.total
  have supplied : cores.toNat * lastWindow cores chains i ≤ _ :=
    DemandWindow.supply_le_of_cap (cap chains i)
  have inRange := Nat.mul_le_mul_left cores.toNat visited
  omega

theorem Small.exits_iff (small : Small cores chains i)
    (visited : timeGap.toNat ≤ lastWindow cores chains i) :
    exits cores chains i timeGap = true ↔
      DemandWindow.Passes cores.toNat (chains i).startGap.toNat
        (load chains i timeGap.toNat) timeGap.toNat :=
  TheoremOne.exits_iff (small.fits _) (small.supply visited)

theorem Small.report_lt (small : Small cores chains i) {window : Nat}
    (visited : window ≤ lastWindow cores chains i) :
    window + (chains i).lastCallback.toNat - 1 < 2 ^ 32 := by
  have report := small.report
  have split := TaskChain.startGap_add_lastCallback (small.runtimes i)
  unfold lastWindow at visited
  omega

theorem Small.lastWindow_lt (small : Small cores chains i) :
    lastWindow cores chains i < 2 ^ 64 := by
  have report := small.report_lt le_rfl
  omega

/-- The search of a chain ends at the least window that passes, and the reported value
covers the runtime of the chain. -/
theorem search_endsWithin (coresPos : 1 ≤ cores) (small : Small cores chains i) :
    ∃ timeGap,
      LinearSearch.EndsWithin (exits cores chains i) (chains i).startGap
        (lastWindow cores chains i) timeGap ∧
      (chains i).runtime ≤ wcrt chains i timeGap := by
  obtain ⟨found, ends, late⟩ := DemandWindow.exists_endsWithin
    (UInt64.le_iff_toNat_le.mp coresPos) (load_le_cap chains i) small.lastWindow_lt
    fun _ visited => small.exits_iff visited
  refine ⟨found, ends, ?_⟩
  have split := TaskChain.startGap_add_lastCallback (small.runtimes i)
  rw [UInt64.le_iff_toNat_le, wcrt_toNat (by omega) (small.report_lt ends.bounded)]
  omega

/-! ## Where the demand is exact -/

/-- No addition and no multiplication in the demand leaves the 64 bits. -/
structure InRange (cores : UInt64) (chains : Fin n → TaskChain) (i : Fin n)
    (window : Nat) : Prop extends Fits cores chains i window where
  products : ∀ j, (chains j).deadline < (chains i).deadline →
    length chains i j window * (chains j).period.toNat < 2 ^ 64

/-- No subtraction of the demand wraps. -/
structure NoWrap (chains : Fin n → TaskChain) (i : Fin n) (timeGap : UInt64) : Prop where
  earlierCallbacks : (chains i).lastCallback ≤ (chains i).runtime
  deadlines : ∀ j, (chains j).deadline < (chains i).deadline →
    (chains j).deadline ≤ (chains i).deadline
  remainders : ∀ j, (chains j).deadline < (chains i).deadline →
    (min timeGap ((chains i).deadline - (chains j).deadline)).toNat *
      (chains j).period.toNat ≤ timeGap.toNat

/-- The interference of one chain over the integers. -/
def integerTerm (chains : Fin n → TaskChain) (i j : Fin n) (window : Int) : Int :=
  min window ((chains i).deadline.toNat - (chains j).deadline.toNat) /
        (chains j).period.toNat * (chains j).runtime.toNat +
    min ((chains j).runtime.toNat : Int)
      (window - min window ((chains i).deadline.toNat - (chains j).deadline.toNat) *
        (chains j).period.toNat)

/-- The expression of the source, with the operations of the integers. -/
def integerDbf (cores : UInt64) (chains : Fin n → TaskChain) (i : Fin n) (window : Int) :
    Int :=
  cores.toNat * ((chains i).runtime.toNat - (chains i).lastCallback.toNat) +
    (∑ j, if (chains j).deadline < (chains i).deadline then integerTerm chains i j window
      else 0) +
    ∑ k, if i ≠ k then min ((chains k).runtime.toNat : Int) window else 0

/-- The demand is the value of its expression over the integers, and does not shrink
with the next window. -/
structure ExactAndGrowing (cores : UInt64) (chains : Fin n → TaskChain) (i : Fin n)
    (timeGap : UInt64) : Prop where
  noWrap : NoWrap chains i timeGap
  exact : (dbf cores chains i timeGap).toNat = integerDbf cores chains i timeGap.toNat
  growing : dbf cores chains i timeGap ≤ dbf cores chains i (timeGap + 1)

/-- The window holds the jobs that are counted with their whole periods. -/
def Covers (chains : Fin n → TaskChain) (i : Fin n) (window : Nat) : Prop :=
  ∀ j, (chains j).deadline < (chains i).deadline →
    (chains j).period = 1 ∨
      ((chains i).deadline.toNat - (chains j).deadline.toNat) * (chains j).period.toNat ≤
        window

/-- In a positive window the remainder does not wrap just where the window covers the
periods of every job. -/
theorem length_mul_period_le_iff {window : Nat} (windowPos : 0 < window) :
    length chains i j window * (chains j).period.toNat ≤ window ↔
      (chains j).period = 1 ∨
        ((chains i).deadline.toNat - (chains j).deadline.toNat) *
          (chains j).period.toNat ≤ window := by
  have periodPos := (chains j).period_pos
  have one : UInt64.toNat 1 = 1 := rfl
  rw [← UInt64.toNat_inj, one, length]
  generalize (chains j).period.toNat = period at periodPos
  generalize deadlineGap : (chains i).deadline.toNat - (chains j).deadline.toNat = gap
  rcases Nat.le_total window gap with short | long
  · rw [Nat.min_eq_left short]
    constructor
    · intro le
      by_contra none
      have two : 2 ≤ period := by omega
      have doubled := Nat.mul_le_mul_left window two
      omega
    · rintro (rfl | covered)
      · omega
      · exact (Nat.mul_le_mul_right period short).trans covered
  · rw [Nat.min_eq_right long]
    constructor
    · exact .inr
    · rintro (rfl | covered)
      · omega
      · exact covered

theorem term_of_le {window : Nat} (inRange : window < 2 ^ 64)
    (le : length chains i j window * (chains j).period.toNat ≤ window) :
    term chains i j window =
      length chains i j window / (chains j).period.toNat * (chains j).runtime.toNat +
        min (chains j).runtime.toNat
          (window - length chains i j window * (chains j).period.toNat) := by
  rw [term, remainder_of_le inRange le]

/-- An exact remainder makes the interference exact. -/
theorem term_eq_integerTerm (shorter : (chains j).deadline < (chains i).deadline)
    {window : Nat} (inRange : window < 2 ^ 64)
    (le : length chains i j window * (chains j).period.toNat ≤ window) :
    (term chains i j window : Int) = integerTerm chains i j window := by
  rw [UInt64.lt_iff_toNat_lt] at shorter
  have lengthEq : ((length chains i j window : Nat) : Int) =
      min (window : Int) ((chains i).deadline.toNat - (chains j).deadline.toNat) := by
    unfold length
    omega
  have part : ((min (chains j).runtime.toNat
      (window - length chains i j window * (chains j).period.toNat) : Nat) : Int) =
        min ((chains j).runtime.toNat : Int)
          (window - length chains i j window * (chains j).period.toNat) := by
    omega
  rw [term_of_le inRange le, integerTerm, ← lengthEq, ← part]
  rfl

/-- Once the periods are covered, the next window counts no less. -/
theorem term_le_succ {window : Nat} (windowPos : 0 < window)
    (inRange : window + 1 < 2 ^ 64)
    (covered : (chains j).period = 1 ∨
      ((chains i).deadline.toNat - (chains j).deadline.toNat) * (chains j).period.toNat ≤
        window) :
    term chains i j window ≤ term chains i j (window + 1) := by
  have le := (length_mul_period_le_iff windowPos).mpr covered
  have le' := (length_mul_period_le_iff (Nat.succ_pos window)).mpr
    (covered.imp_right fun below => below.trans (Nat.le_succ _))
  rw [term_of_le (by omega) le, term_of_le inRange le']
  have longer : length chains i j window ≤ length chains i j (window + 1) := by
    unfold length
    omega
  -- either both lengths are the whole deadline gap, or all remainders count single units
  have remainders : window - length chains i j window * (chains j).period.toNat ≤
      window + 1 - length chains i j (window + 1) * (chains j).period.toNat := by
    rcases covered with unit | below
    · have one : UInt64.toNat 1 = 1 := rfl
      rw [unit, one, Nat.mul_one, Nat.mul_one]
      unfold length
      omega
    · have gapLe := (Nat.le_mul_of_pos_right ((chains i).deadline.toNat -
        (chains j).deadline.toNat) (chains j).period_pos).trans below
      have same : length chains i j (window + 1) = length chains i j window := by
        unfold length
        omega
      rw [same]
      omega
  exact Nat.add_le_add
    (Nat.mul_le_mul_right _ (Nat.div_le_div_right longer)) (by omega)

theorem load_le_succ {window : Nat} (windowPos : 0 < window)
    (inRange : window + 1 < 2 ^ 64) (covers : Covers chains i window) :
    load chains i window ≤ load chains i (window + 1) := by
  refine Nat.add_le_add ?_ ?_
  · exact WordSum.selectedSum_mono fun j shorter =>
      term_le_succ windowPos inRange (covers j shorter)
  · exact WordSum.selectedSum_mono fun k _ => by omega

theorem noWrap_iff (runtimes : ∀ j, (chains j).SumFits) (gapPos : 0 < timeGap.toNat) :
    NoWrap chains i timeGap ↔ Covers chains i timeGap.toNat := by
  constructor
  · intro noWrap j shorter
    rw [← length_mul_period_le_iff gapPos, ← length_toNat shorter]
    exact noWrap.remainders j shorter
  · intro covers
    refine ⟨?_, fun j shorter => UInt64.le_of_lt shorter, ?_⟩
    · rw [UInt64.le_iff_toNat_le, ← TaskChain.startGap_add_lastCallback (runtimes i)]
      exact Nat.le_add_left _ _
    · intro j shorter
      rw [length_toNat shorter, length_mul_period_le_iff gapPos]
      exact covers j shorter

/-- Where no remainder wraps, the demand is the value of its expression. -/
theorem dbf_eq_integerDbf (fits : Fits cores chains i timeGap.toNat)
    (gapPos : 0 < timeGap.toNat) (covers : Covers chains i timeGap.toNat) :
    ((dbf cores chains i timeGap).toNat : Int) =
      integerDbf cores chains i timeGap.toNat := by
  have split := TaskChain.startGap_add_lastCallback (fits.runtimes i)
  have start : ((chains i).startGap.toNat : Int) =
      (chains i).runtime.toNat - (chains i).lastCallback.toNat := by
    omega
  have interferes : ∀ j, ((if (chains j).deadline < (chains i).deadline then
      term chains i j timeGap.toNat else 0 : Nat) : Int) =
        if (chains j).deadline < (chains i).deadline then
          integerTerm chains i j timeGap.toNat else 0 := by
    intro j
    split
    next shorter =>
      exact term_eq_integerTerm shorter timeGap.toNat_lt
        ((length_mul_period_le_iff gapPos).mpr (covers j shorter))
    next => rfl
  have others : ∀ k, ((if i ≠ k then min (chains k).runtime.toNat timeGap.toNat
      else 0 : Nat) : Int) =
        if i ≠ k then min ((chains k).runtime.toNat : Int) timeGap.toNat else 0 := by
    intro k
    split <;> omega
  rw [dbf_toNat fits, load, integerDbf, WordSum.selectedSum, WordSum.selectedSum, ← start]
  simp only [Nat.cast_add, Nat.cast_mul, Nat.cast_sum, interferes, others]
  exact (Int.add_assoc _ _ _).symm

/-- The demand of a positive window is exact, and grows with the window, if and only if
the window covers the periods of every job that it counts. -/
theorem exactAndGrowing_iff (gapPos : 1 ≤ timeGap) (next : timeGap.toNat + 1 < 2 ^ 64)
    (inRange : InRange cores chains i timeGap.toNat)
    (inRangeNext : InRange cores chains i (timeGap + 1).toNat) :
    ExactAndGrowing cores chains i timeGap ↔
      ∀ j, (chains j).deadline < (chains i).deadline →
        (chains j).period = 1 ∨
          ((chains i).deadline.toNat - (chains j).deadline.toNat) *
            (chains j).period.toNat ≤ timeGap.toNat := by
  have pos : 0 < timeGap.toNat := UInt64.le_iff_toNat_le.mp gapPos
  constructor
  · intro good
    exact (noWrap_iff inRange.runtimes pos).mp good.noWrap
  · intro covers
    refine ⟨(noWrap_iff inRange.runtimes pos).mpr covers,
      dbf_eq_integerDbf inRange.toFits pos covers, ?_⟩
    have succ : (timeGap + 1).toNat = timeGap.toNat + 1 := WordSum.toNat_add_of_fits next
    rw [UInt64.le_iff_toNat_le, dbf_toNat inRange.toFits, dbf_toNat inRangeNext.toFits, succ]
    exact Nat.add_le_add_left (load_le_succ pos next covers) _

/-- Two chains, the first with a deadline of one unit before that of the second. -/
def slowSet : Fin 2 → TaskChain :=
  ![{ callbacks := [2], period := 3, deadline := 1,
      nonempty := by decide, periodPos := by decide, deadlinePos := by decide },
    { callbacks := [1], period := 2, deadline := 2,
      nonempty := by decide, periodPos := by decide, deadlinePos := by decide }]

theorem slowSet_inRange_three : InRange 2 slowSet 1 3 := ⟨⟨by decide, by decide⟩, by decide⟩

theorem slowSet_inRange_four : InRange 2 slowSet 1 4 := ⟨⟨by decide, by decide⟩, by decide⟩

theorem slowSet_exactAndGrowing : ExactAndGrowing 2 slowSet 1 3 :=
  (exactAndGrowing_iff (by decide) (by decide) slowSet_inRange_three
    slowSet_inRange_four).mpr (by decide)

/-- The task set of `theorem_1.cpp`. -/
def builtIn : Fin 6 → TaskChain :=
  ![{ callbacks := [2, 16], period := 80, deadline := 80,
      nonempty := by decide, periodPos := by decide, deadlinePos := by decide },
    { callbacks := [2, 2, 9, 9], period := 80, deadline := 80,
      nonempty := by decide, periodPos := by decide, deadlinePos := by decide },
    { callbacks := [21, 8, 7, 2], period := 120, deadline := 120,
      nonempty := by decide, periodPos := by decide, deadlinePos := by decide },
    { callbacks := [23, 8, 14], period := 140, deadline := 140,
      nonempty := by decide, periodPos := by decide, deadlinePos := by decide },
    { callbacks := [18, 11, 8, 8], period := 160, deadline := 160,
      nonempty := by decide, periodPos := by decide, deadlinePos := by decide },
    { callbacks := [11, 22, 5, 18], period := 180, deadline := 180,
      nonempty := by decide, periodPos := by decide, deadlinePos := by decide }]

/-- The first window of the search for the third chain of the built-in task set: the
remainder of both chains with a shorter deadline wraps, and the demand is not the value of
its expression. -/
theorem builtIn_wraps :
    InRange 3 builtIn 2 36 ∧ InRange 3 builtIn 2 37 ∧ (builtIn 2).startGap = 36 ∧
      ((dbf 3 builtIn 2 36).toNat : Int) ≠ integerDbf 3 builtIn 2 36 ∧
      ¬ ExactAndGrowing 3 builtIn 2 36 := by
  refine ⟨⟨⟨by decide, by decide⟩, by decide⟩, ⟨⟨by decide, by decide⟩, by decide⟩,
    by decide, by decide, ?_⟩
  intro good
  exact absurd (good.noWrap.remainders 0 (by decide)) (by decide)

/-! ## Two inputs -/

/-- A heavier input counts less for chain `j`: its shorter period ends the wrap of the
remainder, and with it the whole job that the wrapped remainder counts. -/
def Drops (chains chains' : Fin n → TaskChain) (i j : Fin n) (window : Nat) : Prop :=
  window < length chains i j window * (chains j).period.toNat ∧
    length chains i j window * (chains' j).period.toNat ≤ window ∧
    length chains i j window / (chains' j).period.toNat * (chains' j).runtime.toNat +
        min (chains' j).runtime.toNat
          (window - length chains i j window * (chains' j).period.toNat) <
      length chains i j window / (chains j).period.toNat * (chains j).runtime.toNat +
        min (chains j).runtime.toNat
          (2 ^ 64 + window - length chains i j window * (chains j).period.toNat)

/-- No addition and no product of the turn for a window leaves its type. -/
structure TurnFits (cores : UInt64) (chains : Fin n → TaskChain) (i : Fin n)
    (window : Nat) : Prop extends InRange cores chains i window where
  supply : cores.toNat * window < 2 ^ 64
  report : window + (chains i).lastCallback.toNat - 1 < 2 ^ 32

/-- The search for chain `i` comes to the window. -/
def Visits (cores : UInt64) (chains : Fin n → TaskChain) (i : Fin n) (window : Nat) :
    Prop :=
  LinearSearch.Reaches (exits cores chains i) (chains i).startGap window

/-- The search ends as its counter may not wrap. -/
theorem exists_least_of_visits (coresPos : 1 ≤ cores)
    (fits : ∀ window, Visits cores chains i window → TurnFits cores chains i window) :
    ∃ found, LinearSearch.Least (exits cores chains i) (chains i).startGap found := by
  apply LinearSearch.exists_least_of_reaches
  intro wraps
  have supply := (fits (2 ^ 64) wraps).supply
  have corePos : 1 ≤ cores.toNat := UInt64.le_iff_toNat_le.mp coresPos
  omega

theorem Small.le_lastWindow (small : Small cores chains i) (coresPos : 1 ≤ cores)
    {window : Nat} (visits : Visits cores chains i window) :
    window ≤ lastWindow cores chains i :=
  DemandWindow.reaches_le (UInt64.le_iff_toNat_le.mp coresPos) (load_le_cap chains i)
    small.lastWindow_lt (fun _ inRange => small.exits_iff inRange) visits

/-- The search of a small input stays in range. -/
theorem Small.turnFits (small : Small cores chains i) (coresPos : 1 ≤ cores)
    (products : ∀ j, (chains j).deadline < (chains i).deadline →
      ((chains i).deadline.toNat - (chains j).deadline.toNat) * (chains j).period.toNat <
        2 ^ 64)
    (window : Nat) (visits : Visits cores chains i window) :
    TurnFits cores chains i window := by
  have visited : window ≤ lastWindow cores chains i := small.le_lastWindow coresPos visits
  refine ⟨⟨small.fits window, fun j shorter => ?_⟩, small.supply visited,
    small.report_lt visited⟩
  exact (Nat.mul_le_mul_right _ (Nat.min_le_right _ _)).trans_lt (products j shorter)

variable {cores' : UInt64} {chains' : Fin n → TaskChain}

theorem length_eq (heavier : HeavierSet cores chains cores' chains' id) (i j : Fin n)
    (window : Nat) : length chains' i j window = length chains i j window := by
  have own := (heavier.chain i).deadline
  have other := (heavier.chain j).deadline
  rw [id] at own other
  rw [length, length, own, other]

/-- The interference of a chain is smaller in the heavier input exactly when it drops. -/
theorem term_lt_iff_drops (heavier : HeavierSet cores chains cores' chains' id)
    (runtimes : ∀ j, (chains' j).SumFits) {window : Nat} (inRange : window < 2 ^ 64)
    (product : length chains i j window * (chains j).period.toNat < 2 ^ 64) :
    term chains' i j window < term chains i j window ↔ Drops chains chains' i j window := by
  have shorter : (chains' j).period.toNat ≤ (chains j).period.toNat :=
    (heavier.chain j).period_le
  have larger : (chains j).runtime.toNat ≤ (chains' j).runtime.toNat :=
    (heavier.chain j).runtime_le (runtimes j)
  have subtracted := Nat.mul_le_mul_left (length chains i j window) shorter
  have jobs := Nat.mul_le_mul
    (Nat.div_le_div_left shorter (chains' j).period_pos :
      length chains i j window / (chains j).period.toNat ≤ _) larger
  unfold Drops term
  rw [length_eq heavier]
  by_cases exactFirst :
      length chains i j window * (chains j).period.toNat ≤ window
  · rw [remainder_of_le inRange exactFirst,
      remainder_of_le inRange (subtracted.trans exactFirst)]
    constructor
    · exact fun smaller => absurd smaller (by omega)
    · exact fun ⟨wraps, _⟩ => absurd wraps (by omega)
  · rw [remainder_of_lt product (by omega)]
    by_cases exactSecond :
        length chains i j window * (chains' j).period.toNat ≤ window
    · rw [remainder_of_le inRange exactSecond]
      exact ⟨fun smaller => ⟨by omega, exactSecond, smaller⟩, fun drops => drops.2.2⟩
    · rw [remainder_of_lt (by omega) (by omega)]
      constructor
      · exact fun smaller => absurd smaller (by omega)
      · exact fun ⟨_, exact', _⟩ => absurd exact' exactSecond

/-- Without a shorter period nothing drops. -/
theorem not_drops_of_period_eq (same : (chains' j).period = (chains j).period)
    (window : Nat) : ¬ Drops chains chains' i j window := by
  rintro ⟨wraps, exact', _⟩
  rw [same] at exact'
  omega

theorem load_le_of_not_drops (heavier : HeavierSet cores chains cores' chains' id)
    (runtimes : ∀ j, (chains' j).SumFits) {window : Nat} (inRange : window < 2 ^ 64)
    (products : ∀ j, (chains j).deadline < (chains i).deadline →
      length chains i j window * (chains j).period.toNat < 2 ^ 64)
    (noDrop : ∀ j, (chains j).deadline < (chains i).deadline →
      ¬ Drops chains chains' i j window) :
    load chains i window ≤ load chains' i window := by
  have deadlines : ∀ j, (chains' j).deadline = (chains j).deadline :=
    fun j => (heavier.chain j).deadline
  refine Nat.add_le_add ?_ ?_
  · refine WordSum.selectedSum_le_of_place Function.injective_id ?_ ?_
    · intro j shorter
      rwa [id, deadlines, deadlines]
    · intro j shorter
      have kept := noDrop j shorter
      rw [← term_lt_iff_drops heavier runtimes inRange (products j shorter)] at kept
      exact Nat.le_of_not_lt kept
  · refine WordSum.selectedSum_mono fun k _ => ?_
    have larger : (chains k).runtime.toNat ≤ (chains' k).runtime.toNat :=
      (heavier.chain k).runtime_le (runtimes k)
    omega

/-- Enlarging runtimes, shortening periods and removing cores does not shrink the
reported response time of a chain, if no interference drops in a window to which both
searches come. -/
theorem wcrt_sustainable_of_not_drops (coresPos : 1 ≤ cores')
    (heavier : HeavierSet cores chains cores' chains' id) (i : Fin n)
    (fits : ∀ window, Visits cores chains i window → TurnFits cores chains i window)
    (heavyFits : ∀ window, Visits cores' chains' i window →
      TurnFits cores' chains' i window)
    (noDrop : ∀ window, Visits cores chains i window → Visits cores' chains' i window →
      ∀ j, (chains j).deadline < (chains i).deadline → ¬ Drops chains chains' i j window) :
    ∃ light heavy, Reports cores chains i light ∧ Reports cores' chains' i heavy ∧
      light ≤ heavy := by
  obtain ⟨heavyGap, heavyLeast⟩ := exists_least_of_visits coresPos heavyFits
  have heavyRange := heavyFits _ heavyLeast.reaches
  have heavyPasses := (exits_iff heavyRange.toFits heavyRange.supply).mp heavyLeast.passes
  have heavyLate := heavyPasses.start_lt
  have earlier := (heavier.chain i).startGap_le (heavyRange.runtimes i)
  refine ResponseSearch.exists_reports_le heavyLeast ?_ ?_ ?_
  · rw [UInt64.le_iff_toNat_le]
    exact earlier.trans heavyLate.le
  · -- the window that ends the second search passes in the first input, too
    intro visits
    have range := fits _ visits
    rw [exits_iff range.toFits range.supply]
    exact heavyPasses.of_lighter (UInt64.le_iff_toNat_le.mp heavier.cores) earlier
      (load_le_of_not_drops heavier heavyRange.runtimes heavyGap.toNat_lt range.products
        (noDrop _ visits heavyLeast.reaches))
  · intro gap gapLe least
    have range := fits _ least.reaches
    have late := ((exits_iff range.toFits range.supply).mp least.passes).start_lt
    have lastLe : (chains i).lastCallback.toNat ≤ (chains' i).lastCallback.toNat :=
      (heavier.chain i).lastCallback_le
    rw [UInt64.le_iff_toNat_le] at gapLe ⊢
    rw [wcrt_toNat (by omega) range.report, wcrt_toNat (by omega) heavyRange.report]
    omega

/-- A larger callback in both chains, one core less. -/
def largerSet : Fin 2 → TaskChain :=
  ![{ callbacks := [4], period := 3, deadline := 1,
      nonempty := by decide, periodPos := by decide, deadlinePos := by decide },
    { callbacks := [2], period := 1, deadline := 2,
      nonempty := by decide, periodPos := by decide, deadlinePos := by decide }]

theorem slowSet_largerSet : HeavierSet 2 slowSet 1 largerSet id where
  cores := by decide
  injective := Function.injective_id
  chain := Fin.forall_fin_two.mpr
    ⟨⟨.cons (by decide) .nil, by decide, rfl⟩, ⟨.cons (by decide) .nil, by decide, rfl⟩⟩

theorem slowSet_largerSet_sustainable :
    ∃ light heavy, Reports 2 slowSet 1 light ∧ Reports 1 largerSet 1 heavy ∧
      light ≤ heavy := by
  have periods : ∀ j, (slowSet j).deadline < (slowSet 1).deadline →
      (largerSet j).period = (slowSet j).period := by decide
  exact wcrt_sustainable_of_not_drops (by decide) slowSet_largerSet 1
    (Small.turnFits ⟨by decide, by decide, by decide⟩ (by decide) (by decide))
    (Small.turnFits ⟨by decide, by decide, by decide⟩ (by decide) (by decide))
    fun window _ _ j shorter => not_drops_of_period_eq (periods j shorter) window

/-- `slowSet` with a shorter period of its first chain. -/
def fastSet : Fin 2 → TaskChain :=
  ![{ callbacks := [2], period := 2, deadline := 1,
      nonempty := by decide, periodPos := by decide, deadlinePos := by decide },
    { callbacks := [1], period := 2, deadline := 2,
      nonempty := by decide, periodPos := by decide, deadlinePos := by decide }]

/-- An interfering chain at a higher rate yields a smaller bound. -/
theorem faster_chain_shrinks_bound :
    HeavierSet 2 slowSet 2 fastSet id ∧
      ∃ light heavy, Reports 2 slowSet 1 light ∧ Reports 2 fastSet 1 heavy ∧
        heavy < light := by
  refine ⟨⟨by decide, Function.injective_id, ?_⟩, 3, 2, ⟨4, rfl⟩, ⟨3, rfl⟩, by decide⟩
  exact Fin.forall_fin_two.mpr
    ⟨⟨.cons (by decide) .nil, by decide, rfl⟩, ⟨.cons (by decide) .nil, by decide, rfl⟩⟩

end TheoremOne

end PriorityExecutor
