import PriorityExecutor.Analysis.TheoremOne
import PriorityExecutor.Analysis.TheoremTwo

/-!
# The response-time programs on their vectors

`theorem_1.cpp` and `theorem_2.cpp` hold their task set in parallel vectors.  A first loop
runs through `node_runtimes` with one index for all chains, and the loops of the search
read every quantity of a chain at its index again.  `none` stands for a read outside of a
vector, or for a search that has used up its fuel.

On complete vectors the programs compute what they compute on the task set that is cut
out of them.
-/

namespace PriorityExecutor

/-- The vectors at the head of `main`.  Only the length of `chain_lengths` is used, and of
the member ids only how many there are. -/
structure TaskVectors where
  chainLengths : List UInt64
  chainMemberIds : List (List UInt64)
  nodeRuntimes : List UInt64
  chainPeriods : List UInt64
  chainDeadlines : List UInt64

/-- The variables of the first loop. -/
structure ReadState where
  index : UInt32 := 0
  chainRuntimes : List UInt64 := []
  lastChainCallbacks : List UInt64 := []

namespace TaskVectors

/-- `while(len--) sum += node_runtimes[index++];` -/
def sumRuntimes (nodeRuntimes : List UInt64) : Nat → UInt32 → UInt64 → Option (UInt32 × UInt64)
  | 0, index, sum => some (index, sum)
  | len + 1, index, sum => do
      let runtime ← nodeRuntimes[index.toNat]?
      sumRuntimes nodeRuntimes len (index + 1) (sum + runtime)

variable (vectors : TaskVectors)

/-- The body of the first loop. -/
def readChain (state : ReadState) (i : Nat) : Option ReadState := do
  let chainMember ← vectors.chainMemberIds[i]?
  let len := UInt32.ofNat chainMember.length
  let (index, sum) ← sumRuntimes vectors.nodeRuntimes len.toNat state.index 0
  let last ← vectors.nodeRuntimes[(index - 1).toNat]?
  some
    { index
      chainRuntimes := state.chainRuntimes ++ [sum]
      lastChainCallbacks := state.lastChainCallbacks ++ [last] }

def readChains : Option ReadState :=
  (List.range vectors.chainLengths.length).foldlM vectors.readChain {}

/-- `while(true) { if (test(time_gap)) break; time_gap++; }` -/
def searchLoop (test : UInt64 → Option Bool) : Nat → UInt64 → Option UInt64
  | 0, _ => none
  | fuel + 1, timeGap => do
      if ← test timeGap then some timeGap else searchLoop test fuel (timeGap + 1)

/-- The loop that fills `WCRT`. -/
def fillWcrt (dbf : ReadState → Nat → UInt64 → Option UInt64) (cores : UInt64)
    (report : UInt64 → UInt64 → UInt64) (read : ReadState) (fuel : Nat) :
    Option (List UInt64) :=
  (List.range vectors.chainLengths.length).mapM fun i => do
    let runtime ← read.chainRuntimes[i]?
    let last ← read.lastChainCallbacks[i]?
    let timeGap ← searchLoop
      (fun timeGap => do some (decide ((← dbf read i timeGap) < cores * timeGap)))
      fuel (runtime - last)
    some (report timeGap last)

end TaskVectors

namespace TheoremTwo

/-- The value of `dbf` at the test, from the vectors. -/
def vectorDbf (vectors : TaskVectors) (cores : UInt64) (read : ReadState) (i : Nat)
    (timeGap : UInt64) : Option UInt64 := do
  let chains := List.range vectors.chainLengths.length
  let dbf := cores * ((← read.chainRuntimes[i]?) - (← read.lastChainCallbacks[i]?))
  let dbf ← chains.foldlM (fun dbf j => do
    let other ← vectors.chainDeadlines[j]?
    let deadline ← vectors.chainDeadlines[i]?
    if other < deadline then
      let period ← vectors.chainPeriods[j]?
      let runtime ← read.chainRuntimes[j]?
      some (dbf + ((min timeGap (deadline - other) - 1) / period + 1) * runtime)
    else
      some dbf) dbf
  let dbf ← chains.foldlM (fun dbf k => do
    let deadline ← vectors.chainDeadlines[k]?
    let period ← vectors.chainPeriods[k]?
    let runtime ← read.chainRuntimes[k]?
    some (dbf + ((deadline - 1) / period + 1) * min runtime timeGap)) dbf
  some (dbf - min (← read.chainRuntimes[i]?) timeGap)

/-- `main` of `theorem_2.cpp`. -/
def program (fuel : Nat) (cores : UInt64) (vectors : TaskVectors) : Option (List UInt64) := do
  let read ← vectors.readChains
  vectors.fillWcrt (vectorDbf vectors cores) cores (fun timeGap last => timeGap + last - 1)
    read fuel

end TheoremTwo

namespace TheoremOne

/-- The value of `dbf` at the test, from the vectors. -/
def vectorDbf (vectors : TaskVectors) (cores : UInt64) (read : ReadState) (i : Nat)
    (timeGap : UInt64) : Option UInt64 := do
  let chains := List.range vectors.chainLengths.length
  let dbf := cores * ((← read.chainRuntimes[i]?) - (← read.lastChainCallbacks[i]?))
  let dbf ← chains.foldlM (fun dbf j => do
    let other ← vectors.chainDeadlines[j]?
    let deadline ← vectors.chainDeadlines[i]?
    if other < deadline then
      let period ← vectors.chainPeriods[j]?
      let runtime ← read.chainRuntimes[j]?
      some (dbf + (min timeGap (deadline - other) / period * runtime +
        min runtime (timeGap - min timeGap (deadline - other) * period)))
    else
      some dbf) dbf
  chains.foldlM (fun dbf k => do
    if i ≠ k then
      let runtime ← read.chainRuntimes[k]?
      some (dbf + min runtime timeGap)
    else
      some dbf) dbf

/-- `max_chains_time`, which the search does not use. -/
def maxChainsTime (chainRuntimes : List UInt64) : Option UInt64 := do
  let first ← chainRuntimes[0]?
  some (chainRuntimes.tail.foldl max first)

/-- `main` of `theorem_1.cpp`. -/
def program (fuel : Nat) (cores : UInt64) (vectors : TaskVectors) : Option (List UInt64) := do
  let read ← vectors.readChains
  let _ ← maxChainsTime read.chainRuntimes
  vectors.fillWcrt (vectorDbf vectors cores) cores
    (fun timeGap last => (timeGap + last - 1).toUInt32.toUInt64) read fuel

end TheoremOne

/-! ## The task set -/

namespace TaskVectors

variable (vectors : TaskVectors)

/-- The number of callbacks of a chain. -/
def lengthOf (i : Nat) : Nat := (vectors.chainMemberIds.getD i []).length

/-- The index at which the runtimes of a chain begin. -/
def offset (i : Nat) : Nat := ((List.range i).map vectors.lengthOf).sum

/-- The runtimes of a chain. -/
def callbacks (i : Nat) : List UInt64 :=
  (vectors.nodeRuntimes.drop (vectors.offset i)).take (vectors.lengthOf i)

/-- Every chain has its entries, and a runtime for each of its callbacks. -/
structure Complete : Prop where
  members : vectors.chainLengths.length ≤ vectors.chainMemberIds.length
  notEmpty : ∀ i < vectors.chainLengths.length, vectors.lengthOf i ≠ 0
  runtimes : vectors.offset vectors.chainLengths.length ≤ vectors.nodeRuntimes.length
  indexRange : vectors.offset vectors.chainLengths.length < 2 ^ 32
  periods : vectors.chainLengths.length ≤ vectors.chainPeriods.length
  deadlines : vectors.chainLengths.length ≤ vectors.chainDeadlines.length
  periodPos : ∀ i < vectors.chainLengths.length, 1 ≤ vectors.chainPeriods.getD i 0
  deadlinePos : ∀ i < vectors.chainLengths.length, 1 ≤ vectors.chainDeadlines.getD i 0

variable {vectors}

theorem offset_succ (i : Nat) : vectors.offset (i + 1) = vectors.offset i + vectors.lengthOf i := by
  rw [offset, offset, List.range_succ, List.map_append, List.sum_append]
  simp

theorem offset_mono {i j : Nat} (le : i ≤ j) : vectors.offset i ≤ vectors.offset j := by
  induction j, le using Nat.le_induction with
  | base => exact Nat.le_refl _
  | succ j _ ih =>
      rw [offset_succ]
      exact ih.trans (Nat.le_add_right _ _)

/-- The chains share out the first runtimes among them, in order. -/
theorem flatten_callbacks (vectors : TaskVectors) (count : Nat) :
    ((List.range count).map vectors.callbacks).flatten =
      vectors.nodeRuntimes.take (vectors.offset count) := by
  induction count with
  | zero => rfl
  | succ count ih =>
      rw [List.range_succ, List.map_append, List.flatten_append, ih, offset_succ, List.take_add]
      simp [callbacks]

namespace Complete

theorem offset_succ_le (complete : vectors.Complete) {i : Nat}
    (inRange : i < vectors.chainLengths.length) :
    vectors.offset i + vectors.lengthOf i ≤ vectors.nodeRuntimes.length := by
  rw [← offset_succ]
  exact (offset_mono inRange).trans complete.runtimes

theorem offset_succ_lt (complete : vectors.Complete) {i : Nat}
    (inRange : i < vectors.chainLengths.length) :
    vectors.offset i + vectors.lengthOf i < 2 ^ 32 := by
  rw [← offset_succ]
  exact (offset_mono inRange).trans_lt complete.indexRange

theorem length_callbacks (complete : vectors.Complete) {i : Nat}
    (inRange : i < vectors.chainLengths.length) :
    (vectors.callbacks i).length = vectors.lengthOf i := by
  have fits := complete.offset_succ_le inRange
  rw [callbacks, List.length_take, List.length_drop]
  omega

theorem callbacks_ne_nil (complete : vectors.Complete) {i : Nat}
    (inRange : i < vectors.chainLengths.length) : vectors.callbacks i ≠ [] := by
  intro empty
  apply complete.notEmpty i inRange
  rw [← complete.length_callbacks inRange, empty, List.length_nil]

/-- The chain at an index. -/
def chain (complete : vectors.Complete) (i : Fin vectors.chainLengths.length) : TaskChain where
  callbacks := vectors.callbacks i
  period := vectors.chainPeriods.getD i 0
  deadline := vectors.chainDeadlines.getD i 0
  nonempty := complete.callbacks_ne_nil i.isLt
  periodPos := complete.periodPos i i.isLt
  deadlinePos := complete.deadlinePos i i.isLt

end Complete

end TaskVectors

/-! ## The first loop -/

theorem toNat_index {value : Nat} (small : value < 2 ^ 32) :
    (UInt32.ofNat value).toNat = value := UInt32.toNat_ofNat_of_lt' small

namespace TaskVectors

variable {vectors : TaskVectors}

/-- Inside of the vector, the inner loop adds the runtimes from its index on. -/
theorem sumRuntimes_eq {nodeRuntimes : List UInt64} (len : Nat) {index : Nat} (sum : UInt64)
    (fits : index + len ≤ nodeRuntimes.length) (small : index + len < 2 ^ 32) :
    sumRuntimes nodeRuntimes len (UInt32.ofNat index) sum =
      some (UInt32.ofNat (index + len),
        ((nodeRuntimes.drop index).take len).foldl (fun sum runtime => sum + runtime) sum) := by
  induction len generalizing index sum with
  | zero => simp [sumRuntimes]
  | succ len ih =>
      have inside : index < nodeRuntimes.length := by omega
      rw [sumRuntimes, toNat_index (by omega), List.getElem?_eq_getElem inside]
      have next : UInt32.ofNat index + 1 = UInt32.ofNat (index + 1) :=
        (UInt32.ofNat_add index 1).symm
      change sumRuntimes nodeRuntimes len (UInt32.ofNat index + 1) _ = _
      rw [next, ih _ (by omega) (by omega), List.drop_eq_getElem_cons inside,
        List.take_succ_cons, List.foldl_cons]
      congr 3
      omega

def runtimeAt (vectors : TaskVectors) (i : Nat) : UInt64 :=
  (vectors.callbacks i).foldl (fun sum runtime => sum + runtime) 0

def lastAt (vectors : TaskVectors) (i : Nat) : UInt64 :=
  vectors.nodeRuntimes.getD (vectors.offset i + vectors.lengthOf i - 1) 0

/-- The state of the first loop when it comes to a chain. -/
def readState (vectors : TaskVectors) (i : Nat) : ReadState where
  index := UInt32.ofNat (vectors.offset i)
  chainRuntimes := (List.range i).map vectors.runtimeAt
  lastChainCallbacks := (List.range i).map vectors.lastAt

theorem getElem?_of_lt {α : Type*} {vector : List α} {index : Nat} (fallback : α)
    (inside : index < vector.length) : vector[index]? = some (vector.getD index fallback) := by
  rw [List.getD_eq_getElem?_getD, List.getElem?_eq_getElem inside, Option.getD_some]

namespace Complete

theorem readChain_eq (complete : vectors.Complete) {i : Nat}
    (inRange : i < vectors.chainLengths.length) :
    vectors.readChain (vectors.readState i) i = some (vectors.readState (i + 1)) := by
  have fits := complete.offset_succ_le inRange
  have small := complete.offset_succ_lt inRange
  have members := getElem?_of_lt [] (inRange.trans_le complete.members)
  have length : (UInt32.ofNat (vectors.chainMemberIds.getD i []).length).toNat =
      vectors.lengthOf i := toNat_index ((Nat.le_add_left _ _).trans_lt small)
  have positive := Nat.pos_of_ne_zero (complete.notEmpty i inRange)
  have last : (UInt32.ofNat (vectors.offset i + vectors.lengthOf i) - 1).toNat =
      vectors.offset i + vectors.lengthOf i - 1 := by
    have split : vectors.offset i + vectors.lengthOf i =
        vectors.offset i + vectors.lengthOf i - 1 + 1 := by omega
    rw [split, UInt32.ofNat_add, Nat.add_sub_cancel]
    change (UInt32.ofNat _ + 1 - 1).toNat = _
    rw [UInt32.add_sub_cancel]
    exact toNat_index (by omega)
  have inside : vectors.offset i + vectors.lengthOf i - 1 < vectors.nodeRuntimes.length := by
    omega
  simp only [readChain, members, length, Option.bind_eq_bind, Option.bind_some, readState,
    sumRuntimes_eq _ 0 fits small, last, getElem?_of_lt 0 inside]
  rw [offset_succ, List.range_succ, List.map_append, List.map_append]
  rfl

theorem readChains_eq (complete : vectors.Complete) :
    vectors.readChains = some (vectors.readState vectors.chainLengths.length) := by
  have upTo : ∀ count ≤ vectors.chainLengths.length,
      (List.range count).foldlM vectors.readChain {} = some (vectors.readState count) := by
    intro count
    induction count with
    | zero => exact fun _ => rfl
    | succ count ih =>
        intro inRange
        rw [List.range_succ, List.foldlM_append, ih (Nat.le_of_succ_le inRange)]
        simp [complete.readChain_eq inRange]
  exact upTo _ (Nat.le_refl _)

/-- What the search finds in the vectors, at the index of a chain. -/
structure Finds (complete : vectors.Complete) (read : ReadState) : Prop where
  runtime : ∀ i : Fin vectors.chainLengths.length,
    read.chainRuntimes[i.val]? = some (complete.chain i).runtime
  last : ∀ i : Fin vectors.chainLengths.length,
    read.lastChainCallbacks[i.val]? = some (complete.chain i).lastCallback
  period : ∀ i : Fin vectors.chainLengths.length,
    vectors.chainPeriods[i.val]? = some (complete.chain i).period
  deadline : ∀ i : Fin vectors.chainLengths.length,
    vectors.chainDeadlines[i.val]? = some (complete.chain i).deadline

theorem lastCallback_chain (complete : vectors.Complete) (i : Fin vectors.chainLengths.length) :
    (complete.chain i).lastCallback = vectors.lastAt i := by
  have fits := complete.offset_succ_le i.isLt
  have positive := Nat.pos_of_ne_zero (complete.notEmpty i i.isLt)
  have inside : vectors.offset i + vectors.lengthOf i - 1 < vectors.nodeRuntimes.length := by
    omega
  have position : vectors.offset i + (vectors.lengthOf i - 1) =
      vectors.offset i + vectors.lengthOf i - 1 := (Nat.add_sub_assoc positive _).symm
  apply Option.some.inj
  calc some (complete.chain i).lastCallback
      = (vectors.callbacks i).getLast? :=
        (List.getLast?_eq_some_getLast (complete.callbacks_ne_nil i.isLt)).symm
    _ = ((vectors.nodeRuntimes.drop (vectors.offset i)).take
          (vectors.lengthOf i))[vectors.lengthOf i - 1]? := by
        rw [List.getLast?_eq_getElem?, complete.length_callbacks i.isLt, callbacks]
    _ = vectors.nodeRuntimes[vectors.offset i + vectors.lengthOf i - 1]? := by
        rw [List.getElem?_take_of_lt (Nat.sub_one_lt_of_lt positive), List.getElem?_drop,
          position]
    _ = some (vectors.lastAt i) := getElem?_of_lt 0 inside

theorem finds (complete : vectors.Complete) :
    complete.Finds (vectors.readState vectors.chainLengths.length) where
  runtime i := by
    simp [readState, runtimeAt, chain, TaskChain.runtime]
  last i := by
    rw [lastCallback_chain]
    simp [readState]
  period i := getElem?_of_lt 0 (i.isLt.trans_le complete.periods)
  deadline i := getElem?_of_lt 0 (i.isLt.trans_le complete.deadlines)

end Complete

end TaskVectors

/-! ## The search -/

/-- A loop over an index whose body never fails on the indices of `n` chains. -/
theorem foldlM_range_eq {β : Type*} {n : Nat} {body : β → Nat → Option β}
    {step : β → Fin n → β} (agree : ∀ total i, body total i.val = some (step total i))
    (total : β) :
    (List.range n).foldlM body total = some ((List.finRange n).foldl step total) := by
  rw [← List.map_coe_finRange_eq_range, List.foldlM_map]
  induction List.finRange n generalizing total with
  | nil => rfl
  | cons head tail ih =>
      rw [List.foldlM_cons, agree, List.foldl_cons]
      exact ih _

theorem mapM_range_eq {β : Type*} {n : Nat} {body : Nat → Option β} {step : Fin n → Option β}
    (agree : ∀ i : Fin n, body i = step i) :
    (List.range n).mapM body = (List.finRange n).mapM step := by
  rw [← List.map_coe_finRange_eq_range, List.mapM_map]
  exact congrArg (fun run => (List.finRange n).mapM run) (funext agree)

namespace TaskVectors

variable {vectors : TaskVectors} {complete : vectors.Complete} {read : ReadState}

theorem searchLoop_eq {test : UInt64 → Option Bool} {exits : UInt64 → Bool}
    (agree : ∀ timeGap, test timeGap = some (exits timeGap)) (fuel : Nat) (start : UInt64) :
    searchLoop test fuel start = LinearSearch.loop exits (· + 1) fuel start := by
  induction fuel generalizing start with
  | zero => rfl
  | succ fuel ih =>
      rw [searchLoop, LinearSearch.loop, agree, ih]
      rfl

/-- The loop that fills `WCRT` is the one over the task set. -/
theorem Complete.Finds.fillWcrt_eq (finds : complete.Finds read)
    {dbf : ReadState → Nat → UInt64 → Option UInt64} {cores : UInt64}
    {demand : Fin vectors.chainLengths.length → UInt64 → UInt64}
    (agree : ∀ i timeGap, dbf read i.val timeGap = some (demand i timeGap))
    (report : UInt64 → UInt64 → UInt64) (fuel : Nat) :
    vectors.fillWcrt dbf cores report read fuel =
      ResponseSearch.main (fun i timeGap => demand i timeGap < cores * timeGap)
        (fun i timeGap => report timeGap (complete.chain i).lastCallback) complete.chain
        fuel := by
  apply mapM_range_eq
  intro i
  have tests : ∀ timeGap, (do some (decide ((← dbf read i timeGap) < cores * timeGap))) =
      some (decide (demand i timeGap < cores * timeGap)) := by
    intro timeGap
    rw [agree]
    rfl
  simp only [finds.runtime i, finds.last i, Option.bind_eq_bind, Option.bind_some]
  simp only [Option.bind_eq_bind] at tests
  rw [searchLoop_eq tests, ResponseSearch.responseTime, TaskChain.startGap, Option.map_eq_bind]
  rfl

/-- The loop over the chains with a shorter deadline, whatever each of them adds. -/
theorem Complete.Finds.foldlM_shorter (finds : complete.Finds read)
    (i : Fin vectors.chainLengths.length)
    (amount : UInt64 → UInt64 → UInt64 → UInt64 → UInt64) (dbf : UInt64) :
    (List.range vectors.chainLengths.length).foldlM (fun dbf j => do
        let other ← vectors.chainDeadlines[j]?
        let deadline ← vectors.chainDeadlines[i.val]?
        if other < deadline then
          let period ← vectors.chainPeriods[j]?
          let runtime ← read.chainRuntimes[j]?
          some (dbf + amount other deadline period runtime)
        else
          some dbf) dbf =
      some ((List.finRange vectors.chainLengths.length).foldl (fun dbf j =>
        if (complete.chain j).deadline < (complete.chain i).deadline then
          dbf + amount (complete.chain j).deadline (complete.chain i).deadline
            (complete.chain j).period (complete.chain j).runtime
        else dbf) dbf) := by
  apply foldlM_range_eq
  intro dbf j
  rw [finds.deadline j, finds.deadline i, finds.period j, finds.runtime j]
  simp only [Option.bind_eq_bind, Option.bind_some]
  split <;> rfl

end TaskVectors

theorem TheoremTwo.vectorDbf_eq {vectors : TaskVectors} {complete : vectors.Complete}
    {read : ReadState} (finds : complete.Finds read) (cores : UInt64)
    (i : Fin vectors.chainLengths.length) (timeGap : UInt64) :
    vectorDbf vectors cores read i timeGap = some (dbf cores complete.chain i timeGap) := by
  have all : ∀ total (k : Fin vectors.chainLengths.length),
      (do
        let deadline ← vectors.chainDeadlines[k.val]?
        let period ← vectors.chainPeriods[k.val]?
        let runtime ← read.chainRuntimes[k.val]?
        some (total + ((deadline - 1) / period + 1) * min runtime timeGap)) =
        some (if True then total + active complete.chain k timeGap else total) := by
    intro total k
    rw [finds.deadline k, finds.period k, finds.runtime k]
    rfl
  have shorter := finds.foldlM_shorter i fun other deadline period runtime =>
    ((min timeGap (deadline - other) - 1) / period + 1) * runtime
  rw [vectorDbf, finds.runtime i, finds.last i]
  simp only [Option.bind_eq_bind, Option.bind_some] at shorter all ⊢
  rw [shorter, Option.bind_some, foldlM_range_eq all]
  rfl

theorem TheoremOne.vectorDbf_eq {vectors : TaskVectors} {complete : vectors.Complete}
    {read : ReadState} (finds : complete.Finds read) (cores : UInt64)
    (i : Fin vectors.chainLengths.length) (timeGap : UInt64) :
    vectorDbf vectors cores read i timeGap = some (dbf cores complete.chain i timeGap) := by
  have others : ∀ total (k : Fin vectors.chainLengths.length),
      (if i.val ≠ k.val then do
        let runtime ← read.chainRuntimes[k.val]?
        some (total + min runtime timeGap)
      else
        some total) =
        some (if i ≠ k then total + min (complete.chain k).runtime timeGap else total) := by
    intro total k
    rw [finds.runtime k]
    simp only [Option.bind_eq_bind, Option.bind_some, ne_eq, Fin.val_inj]
    split <;> rfl
  have shorter := finds.foldlM_shorter i fun other deadline period runtime =>
    min timeGap (deadline - other) / period * runtime +
      min runtime (timeGap - min timeGap (deadline - other) * period)
  rw [vectorDbf, finds.runtime i, finds.last i]
  simp only [Option.bind_eq_bind, Option.bind_some] at shorter others ⊢
  rw [shorter, Option.bind_some, foldlM_range_eq others]
  rfl

/-- On complete vectors both programs report what they report on the task set that the
vectors hold; `theorem_1.cpp` reads the runtime of a first chain also where there is none.
The chains of the task set share out the runtimes among them. -/
theorem programs_eq_main {vectors : TaskVectors} (complete : vectors.Complete) (fuel : Nat)
    (cores : UInt64) :
    (1 ≤ vectors.chainLengths.length → TheoremOne.program fuel cores vectors =
      TheoremOne.main fuel cores complete.chain) ∧
    TheoremTwo.program fuel cores vectors = TheoremTwo.main fuel cores complete.chain ∧
    (List.ofFn fun i => (complete.chain i).callbacks).flatten =
      vectors.nodeRuntimes.take (vectors.offset vectors.chainLengths.length) := by
  have finds := complete.finds
  refine ⟨?_, ?_, ?_⟩
  · intro notEmpty
    have first : ∃ longest, TheoremOne.maxChainsTime
        (vectors.readState vectors.chainLengths.length).chainRuntimes = some longest := by
      rw [TheoremOne.maxChainsTime, finds.runtime ⟨0, notEmpty⟩]
      exact ⟨_, rfl⟩
    rcases first with ⟨longest, first⟩
    rw [TheoremOne.program, complete.readChains_eq]
    simp only [Option.bind_eq_bind, Option.bind_some, first]
    exact finds.fillWcrt_eq (TheoremOne.vectorDbf_eq finds cores) _ fuel
  · rw [TheoremTwo.program, complete.readChains_eq]
    exact finds.fillWcrt_eq (TheoremTwo.vectorDbf_eq finds cores) _ fuel
  · rw [← vectors.flatten_callbacks, List.ofFn_eq_map, ← List.map_coe_finRange_eq_range,
      List.map_map]
    rfl

/-- The vectors of `theorem_1.cpp`.  Two chains name the same first member, and there is a
runtime for each of them. -/
def givenVectors : TaskVectors where
  chainLengths := [2, 4, 4, 3, 4, 4]
  chainMemberIds := [[1, 2], [1, 3, 4, 5], [6, 7, 8, 9], [10, 11, 12], [13, 14, 15, 16],
    [17, 18, 19, 20]]
  nodeRuntimes := [2, 16, 2, 2, 9, 9, 21, 8, 7, 2, 23, 8, 14, 18, 11, 8, 8, 11, 22, 5, 18]
  chainPeriods := [80, 80, 120, 140, 160, 180]
  chainDeadlines := [80, 80, 120, 140, 160, 180]

theorem givenVectors_complete : givenVectors.Complete where
  members := by decide
  notEmpty := by decide
  runtimes := by decide
  indexRange := by decide
  periods := by decide
  deadlines := by decide
  periodPos := by decide
  deadlinePos := by decide

theorem programs_eq_main_given :
    TheoremOne.program 200 3 givenVectors =
        TheoremOne.main 200 3 givenVectors_complete.chain ∧
      TheoremTwo.program 200 3 givenVectors =
        TheoremTwo.main 200 3 givenVectors_complete.chain ∧
      (List.ofFn fun i => (givenVectors_complete.chain i).callbacks).flatten =
        givenVectors.nodeRuntimes := by
  rcases programs_eq_main givenVectors_complete 200 3 with ⟨one, two, shared⟩
  exact ⟨one (by decide), two, shared⟩

end PriorityExecutor
