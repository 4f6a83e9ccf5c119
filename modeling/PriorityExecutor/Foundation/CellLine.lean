import Mathlib.Data.List.Count
import Mathlib.Data.List.Range
import Mathlib.Logic.Function.Basic

/-!
# A line of one-place cells

Items numbered `0, 1, …` enter the first cell of a line, move on from cell to cell
and leave at the last one.  A cell holds one item, and an item that moves into an
occupied cell replaces the item there, which is lost.  Nothing overtakes.

Counting the arrivals at each cell then accounts for every item: it is further on,
still there, or lost there (`Valid.flow`).  An item knows its number from the
arrivals so far and the losses ahead of it (`Valid.rank`).
-/

namespace CellLine

structure Line where
  cell : Nat → Option Nat := fun _ => none
  /-- How many items have arrived at each cell. -/
  entered : Nat → Nat := fun _ => 0
  /-- The items lost so far, with the cell in which each was replaced. -/
  lost : List (Nat × Nat) := []

namespace Line

/-- The next item arrives at the first cell. -/
def enter (line : Line) : Line :=
  { line with
    cell := Function.update line.cell 0 (some (line.entered 0))
    entered := Function.update line.entered 0 (line.entered 0 + 1) }

/-- An item moves on by one cell. -/
def advance (line : Line) (place item : Nat) : Line where
  cell := Function.update (Function.update line.cell place none) (place + 1) (some item)
  entered := Function.update line.entered (place + 1) (line.entered (place + 1) + 1)
  lost :=
    match line.cell (place + 1) with
    | none => line.lost
    | some replaced => (place + 1, replaced) :: line.lost

/-- The item of a cell leaves the line. -/
def leave (line : Line) (place : Nat) : Line :=
  { line with cell := Function.update line.cell place none }

@[simp] theorem cell_enter (line : Line) (place : Nat) :
    line.enter.cell place = if place = 0 then some (line.entered 0) else line.cell place := by
  simp [enter, Function.update_apply]

@[simp] theorem entered_enter (line : Line) (place : Nat) :
    line.enter.entered place =
      if place = 0 then line.entered 0 + 1 else line.entered place := by
  simp [enter, Function.update_apply]

@[simp] theorem cell_advance (line : Line) (from' item place : Nat) :
    (line.advance from' item).cell place =
      if place = from' + 1 then some item
      else if place = from' then none
      else line.cell place := by
  simp [advance, Function.update_apply]

@[simp] theorem entered_advance (line : Line) (from' item place : Nat) :
    (line.advance from' item).entered place =
      if place = from' + 1 then line.entered (from' + 1) + 1 else line.entered place := by
  simp [advance, Function.update_apply]

@[simp] theorem cell_leave (line : Line) (from' place : Nat) :
    (line.leave from').cell place = if place = from' then none else line.cell place := by
  simp [leave, Function.update_apply]

def occupied (line : Line) (place : Nat) : Nat := (line.cell place).isSome.toNat

/-- How many items were lost in a cell. -/
def lostAt (line : Line) (place : Nat) : Nat :=
  line.lost.countP fun entry => entry.1 = place

/-- How many items older than `item` were lost before `place`. -/
def lostBefore (line : Line) (place item : Nat) : Nat :=
  line.lost.countP fun entry => entry.1 < place ∧ entry.2 < item

@[simp] theorem occupied_advance (line : Line) (from' item place : Nat) :
    (line.advance from' item).occupied place =
      if place = from' + 1 then 1 else if place = from' then 0 else line.occupied place := by
  simp only [occupied, cell_advance]
  split_ifs <;> rfl

/-- An occupied next cell loses its item. -/
theorem lostAt_advance (line : Line) (from' item place : Nat) :
    (line.advance from' item).lostAt place =
      line.lostAt place + if place = from' + 1 then line.occupied (from' + 1) else 0 := by
  unfold lostAt occupied advance
  cases line.cell (from' + 1) with
  | none => simp
  | some replaced =>
      simp only [List.countP_cons, decide_eq_true_eq, Option.isSome_some, Bool.toNat_true]
      split_ifs <;> omega

/-- A loss counts for the items that are further back only. -/
theorem lostBefore_advance (line : Line) {from' item place found : Nat}
    (notAhead : ∀ replaced, line.cell (from' + 1) = some replaced → from' + 1 < place →
      found ≤ replaced) :
    (line.advance from' item).lostBefore place found = line.lostBefore place found := by
  unfold lostBefore advance
  cases next : line.cell (from' + 1) with
  | none => rfl
  | some replaced =>
      have outside : ¬ (from' + 1 < place ∧ replaced < found) := by
        rintro ⟨ahead, older⟩
        have := notAhead replaced next ahead
        omega
      simp [outside]

/-- The number of items in the cells up to `final`. -/
def inFlight (line : Line) (final : Nat) : Nat :=
  (List.range (final + 1)).countP fun place => (line.cell place).isSome

end Line

/-- What the operations keep on a line whose last cell is `final`. -/
structure Valid (final : Nat) (line : Line) : Prop where
  fresh : ∀ {place item}, line.cell place = some item →
    place ≤ final ∧ item < line.entered 0
  order : ∀ {back front newer older}, back < front → line.cell back = some newer →
    line.cell front = some older → older < newer
  lostFresh : ∀ {place item}, (place, item) ∈ line.lost →
    place < final ∧ item < line.entered 0
  lostOrder : ∀ {place item back newer}, (place, item) ∈ line.lost → back ≤ place →
    line.cell back = some newer → item < newer
  flow : ∀ place < final, line.entered place =
    line.entered (place + 1) + line.occupied place + line.lostAt place
  rank : ∀ {place item}, line.cell place = some item →
    line.entered place + line.lostBefore place item = item + 1

variable {final : Nat} {line : Line}

private theorem countP_before_succ (entries : List (Nat × Nat)) (place item : Nat)
    (older : ∀ entry ∈ entries, entry.1 = place → entry.2 < item) :
    (entries.countP fun entry => entry.1 < place + 1 ∧ entry.2 < item) =
      (entries.countP fun entry => entry.1 < place ∧ entry.2 < item) +
        entries.countP fun entry => entry.1 = place := by
  induction entries with
  | nil => rfl
  | cons entry entries ih =>
      have rest := ih fun other member => older other (List.mem_cons_of_mem _ member)
      have here := older entry List.mem_cons_self
      simp only [List.countP_cons, decide_eq_true_eq, rest]
      split_ifs <;> omega

/-- What was lost in a cell is older than what is there now. -/
theorem Valid.lostBefore_succ (valid : Valid final line) {place item : Nat}
    (present : line.cell place = some item) :
    line.lostBefore (place + 1) item = line.lostBefore place item + line.lostAt place := by
  apply countP_before_succ
  rintro ⟨lostPlace, lostItem⟩ member rfl
  exact valid.lostOrder member (Nat.le_refl _) present

/-- An item knows its number from the arrivals in the next cell, too. -/
theorem Valid.rank_next (valid : Valid final line) {place item : Nat}
    (inner : place < final) (present : line.cell place = some item) :
    line.entered (place + 1) + line.lostBefore (place + 1) item = item := by
  have rank := valid.rank present
  have flow := valid.flow place inner
  have here : line.occupied place = 1 := by simp [Line.occupied, present]
  rw [valid.lostBefore_succ present]
  omega

/-! ## The operations -/

theorem Valid.enter (valid : Valid final line) (free : line.cell 0 = none) :
    Valid final line.enter := by
  constructor
  case fresh =>
    intro place item present
    simp only [Line.cell_enter, Line.entered_enter, ↓reduceIte] at present ⊢
    split at present
    next isFirst =>
      cases present
      omega
    next =>
      have := valid.fresh present
      omega
  case order =>
    intro back front newer older behind newerAt olderAt
    rw [Line.cell_enter, if_neg (by omega)] at olderAt
    rw [Line.cell_enter] at newerAt
    split at newerAt
    next =>
      cases newerAt
      exact (valid.fresh olderAt).2
    next => exact valid.order behind newerAt olderAt
  case lostFresh =>
    intro place item lost
    have := valid.lostFresh lost
    rw [Line.entered_enter, if_pos rfl]
    omega
  case lostOrder =>
    intro place item back newer lost behind newerAt
    rw [Line.cell_enter] at newerAt
    split at newerAt
    next =>
      cases newerAt
      exact (valid.lostFresh lost).2
    next => exact valid.lostOrder lost behind newerAt
  case flow =>
    intro place inner
    have flow := valid.flow place inner
    by_cases isFirst : place = 0
    · subst isFirst
      simp [Line.occupied, Line.lostAt, Line.enter, free] at flow ⊢
      omega
    · simp [Line.occupied, Line.lostAt, Line.enter, isFirst] at flow ⊢
      omega
  case rank =>
    intro place item present
    rw [Line.cell_enter] at present
    rw [Line.entered_enter]
    split at present
    next isFirst =>
      cases present
      subst isFirst
      simp [Line.lostBefore]
    next isFirst =>
      rw [if_neg isFirst]
      exact valid.rank present

theorem Valid.leave (valid : Valid final line) : Valid final (line.leave final) := by
  have kept : ∀ {place item}, (line.leave final).cell place = some item →
      line.cell place = some item := by
    intro place item present
    rw [Line.cell_leave] at present
    split at present
    · cases present
    · exact present
  refine ⟨fun present => valid.fresh (kept present), fun behind newerAt olderAt =>
    valid.order behind (kept newerAt) (kept olderAt), valid.lostFresh,
    fun lost behind newerAt => valid.lostOrder lost behind (kept newerAt), ?_,
    fun present => valid.rank (kept present)⟩
  intro place inner
  have unchanged : (line.leave final).occupied place = line.occupied place := by
    rw [Line.occupied, Line.cell_leave, if_neg (Nat.ne_of_lt inner), Line.occupied]
  rw [unchanged]
  exact valid.flow place inner

/-- An item of the new line is the one that moved, or one that stayed elsewhere. -/
theorem Line.cell_advance_eq_some {from' item place found : Nat}
    (there : (line.advance from' item).cell place = some found) :
    place = from' + 1 ∧ found = item ∨
      place ≠ from' + 1 ∧ place ≠ from' ∧ line.cell place = some found := by
  rw [Line.cell_advance] at there
  split at there
  next here =>
    cases there
    exact .inl ⟨here, rfl⟩
  next elsewhere =>
    split at there
    next => cases there
    next notFrom => exact .inr ⟨elsewhere, notFrom, there⟩

/-- A lost item was lost before, or was in the next cell. -/
theorem Line.mem_lost_advance {from' item place found : Nat}
    (member : (place, found) ∈ (line.advance from' item).lost) :
    (place = from' + 1 ∧ line.cell (from' + 1) = some found) ∨
      (place, found) ∈ line.lost := by
  unfold Line.advance at member
  cases next : line.cell (from' + 1) with
  | none =>
      simp only [next] at member
      exact .inr member
  | some replaced =>
      simp only [next] at member
      rcases List.mem_cons.mp member with same | earlier
      · cases same
        exact .inl ⟨rfl, rfl⟩
      · exact .inr earlier

theorem Valid.flow_advance (valid : Valid final line) {from' item place : Nat}
    (inner : from' < final) (present : line.cell from' = some item)
    (placeInner : place < final) :
    (line.advance from' item).entered place =
      (line.advance from' item).entered (place + 1) +
        (line.advance from' item).occupied place + (line.advance from' item).lostAt place := by
  have flow := valid.flow place placeInner
  have fromFlow := valid.flow from' inner
  have wasOccupied : line.occupied from' = 1 := by simp [Line.occupied, present]
  rw [Line.occupied_advance, Line.lostAt_advance, Line.entered_advance, Line.entered_advance]
  -- the cells that change are the one left and the next one
  rcases lt_trichotomy place from' with before | rfl | after
  · split_ifs <;> omega
  · split_ifs <;> omega
  · split_ifs <;> grind

theorem Valid.rank_advance (valid : Valid final line) {from' item place found : Nat}
    (inner : from' < final) (present : line.cell from' = some item)
    (there : (line.advance from' item).cell place = some found) :
    (line.advance from' item).entered place +
      (line.advance from' item).lostBefore place found = found + 1 := by
  rcases Line.cell_advance_eq_some there with ⟨rfl, rfl⟩ | ⟨notNext, notFrom, was⟩
  · rw [Line.entered_advance, if_pos rfl, Line.lostBefore_advance _ (by omega)]
    have next := valid.rank_next inner present
    omega
  · rw [Line.entered_advance, if_neg notNext, Line.lostBefore_advance]
    · exact valid.rank was
    · intro replaced there ahead
      exact (valid.order ahead there was).le

/-- Moving an item on keeps the line; in the last cell nothing may be replaced. -/
theorem Valid.advance (valid : Valid final line) {from' item : Nat} (inner : from' < final)
    (present : line.cell from' = some item)
    (free : from' + 1 = final → line.cell final = none) :
    Valid final (line.advance from' item) := by
  have itemFresh := valid.fresh present
  have total : (line.advance from' item).entered 0 = line.entered 0 := by simp
  constructor
  case fresh =>
    intro place found there
    rw [total]
    rcases Line.cell_advance_eq_some there with ⟨rfl, rfl⟩ | ⟨_, _, was⟩
    · omega
    · exact valid.fresh was
  case order =>
    intro back front newer older behind newerAt olderAt
    rcases Line.cell_advance_eq_some newerAt with ⟨rfl, rfl⟩ | ⟨notNext, notFrom, newerWas⟩
    · rcases Line.cell_advance_eq_some olderAt with ⟨rfl, _⟩ | ⟨_, _, olderWas⟩
      · omega
      · exact valid.order (by omega) present olderWas
    · rcases Line.cell_advance_eq_some olderAt with ⟨rfl, rfl⟩ | ⟨_, _, olderWas⟩
      · exact valid.order (by omega) newerWas present
      · exact valid.order behind newerWas olderWas
  case lostFresh =>
    intro place found lost
    rw [total]
    rcases Line.mem_lost_advance lost with ⟨rfl, was⟩ | earlier
    · refine ⟨?_, (valid.fresh was).2⟩
      by_contra atEnd
      have isFinal : from' + 1 = final := by omega
      rw [isFinal, free isFinal] at was
      cases was
    · exact valid.lostFresh earlier
  case lostOrder =>
    intro place found back newer lost behind newerAt
    rcases Line.mem_lost_advance lost with ⟨rfl, was⟩ | earlier
    · rcases Line.cell_advance_eq_some newerAt with ⟨rfl, rfl⟩ | ⟨notNext, notFrom, newerWas⟩
      · -- what the next cell held is older than the item
        exact valid.order (Nat.lt_succ_self from') present was
      · exact valid.order (by omega) newerWas was
    · rcases Line.cell_advance_eq_some newerAt with ⟨rfl, rfl⟩ | ⟨_, _, newerWas⟩
      · exact valid.lostOrder earlier (by omega) present
      · exact valid.lostOrder earlier behind newerWas
  case flow => exact fun place placeInner => valid.flow_advance inner present placeInner
  case rank => exact fun there => valid.rank_advance inner present there

/-! ## Accounting -/

end CellLine
