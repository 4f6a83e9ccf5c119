import Mathlib.Data.List.Induction
import Mathlib.Data.List.Perm.Basic
import Mathlib.Data.Set.Defs
import Mathlib.Order.Lattice

/-!
# The binary heap behind `std::priority_queue`

The standard library keeps a priority queue as a vector in heap order and calls
`__push_heap` and `__adjust_heap` on it.  This module translates those two loops
over lists, for an arbitrary Boolean comparator.

A comparator that is not a strict weak ordering is undefined behaviour for the
documented interface, but the loops themselves only ever use each answer in one
direction.  `Compatible` records what they use: a preorder that every answer
respects.  Under it the heap order survives both loops, the top is maximal, and
draining the queue yields its elements from greatest to least.
-/

namespace StdHeap

variable {α : Type*}

/-- Every answer of the comparator agrees with one preorder: `true` may only be
answered when the left element is at most the right one, `false` only when the
right element is at most the left one.  Ties may be answered either way. -/
structure Compatible (comp : α → α → Bool) (le : α → α → Prop) : Prop where
  trans : ∀ {left middle right}, le left middle → le middle right → le left right
  of_true : ∀ {left right}, comp left right = true → le left right
  of_false : ∀ {left right}, comp left right = false → le right left

theorem Compatible.refl {comp : α → α → Bool} {le : α → α → Prop}
    (compatible : Compatible comp le) (value : α) : le value value := by
  cases answer : comp value value with
  | false => exact compatible.of_false answer
  | true => exact compatible.of_true answer

/-- What the interface documents for the comparator, on the elements that it may be
asked about. -/
structure StrictWeak (comp : α → α → Bool) (members : Set α) : Prop where
  irrefl : ∀ value ∈ members, comp value value = false
  asymm : ∀ left ∈ members, ∀ right ∈ members, comp left right = true →
    comp right left = false
  trans : ∀ left ∈ members, ∀ middle ∈ members, ∀ right ∈ members,
    comp left middle = true → comp middle right = true → comp left right = true
  incomparable : ∀ left ∈ members, ∀ middle ∈ members, ∀ right ∈ members,
    (comp left middle = false ∧ comp middle left = false) →
    (comp middle right = false ∧ comp right middle = false) →
    comp left right = false ∧ comp right left = false

/-- A comparator that compares the points of a linear order is a strict weak ordering. -/
theorem StrictWeak.of_key {β : Type*} [LinearOrder β] {comp : α → α → Bool}
    {members : Set α} (key : α → β)
    (answers : ∀ left ∈ members, ∀ right ∈ members,
      (comp left right = true ↔ key left < key right)) : StrictWeak comp members := by
  have refuses : ∀ left ∈ members, ∀ right ∈ members,
      (comp left right = false ↔ key right ≤ key left) := by
    intro left inLeft right inRight
    rw [← Bool.not_eq_true, answers left inLeft right inRight, not_lt]
  constructor
  case irrefl =>
    intro value member
    exact (refuses value member value member).mpr le_rfl
  case asymm =>
    intro left inLeft right inRight less
    exact (refuses right inRight left inLeft).mpr
      (le_of_lt ((answers left inLeft right inRight).mp less))
  case trans =>
    intro left inLeft middle inMiddle right inRight first second
    rw [answers _ inLeft _ inMiddle] at first
    rw [answers _ inMiddle _ inRight] at second
    exact (answers _ inLeft _ inRight).mpr (lt_trans first second)
  case incomparable =>
    rintro left inLeft middle inMiddle right inRight ⟨up, down⟩ ⟨up', down'⟩
    rw [refuses _ inLeft _ inMiddle] at up
    rw [refuses _ inMiddle _ inLeft] at down
    rw [refuses _ inMiddle _ inRight] at up'
    rw [refuses _ inRight _ inMiddle] at down'
    exact ⟨(refuses _ inLeft _ inRight).mpr (le_trans up' up),
      (refuses _ inRight _ inLeft).mpr (le_trans down down')⟩

/-- Position of the parent in the level order of a binary tree. -/
def parent (index : Nat) : Nat := (index - 1) / 2

theorem parent_lt {index : Nat} (positive : 0 < index) : parent index < index := by
  unfold parent
  omega

/-- A child is the left or the right one of its parent. -/
theorem eq_child_of_parent {index hole : Nat} (positive : 0 < index)
    (parentEq : parent index = hole) :
    index = 2 * hole + 1 ∨ index = 2 * hole + 2 := by
  unfold parent at parentEq
  omega

/-- Exchange two slots.  The C++ loops move elements into a hole and write the
displaced value once at the end; keeping that value in the hole turns every move
into an exchange. -/
def swap (slots : List α) (left right : Nat) : List α :=
  match slots[left]?, slots[right]? with
  | some first, some second => (slots.set left second).set right first
  | _, _ => slots

/-- The comparator applied to the elements of two slots. -/
def less (comp : α → α → Bool) (slots : List α) (left right : Nat) : Bool :=
  match slots[left]?, slots[right]? with
  | some first, some second => comp first second
  | _, _ => false

@[simp] theorem length_swap (slots : List α) (left right : Nat) :
    (swap slots left right).length = slots.length := by
  unfold swap
  split <;> simp

theorem getElem?_swap {slots : List α} {left right : Nat}
    (leftLt : left < slots.length) (rightLt : right < slots.length) (index : Nat) :
    (swap slots left right)[index]? =
      if index = right then slots[left]?
      else if index = left then slots[right]?
      else slots[index]? := by
  simp only [swap, List.getElem?_eq_getElem leftLt, List.getElem?_eq_getElem rightLt]
  by_cases atRight : index = right
  · subst index
    simp [rightLt]
  · rw [List.getElem?_set_ne (Ne.symm atRight)]
    by_cases atLeft : index = left
    · subst index
      simp [leftLt, atRight]
    · simp [List.getElem?_set_ne (Ne.symm atLeft), atRight, atLeft]

theorem swap_perm (slots : List α) (left right : Nat) :
    (swap slots left right).Perm slots := by
  unfold swap
  split
  next first second firstEq secondEq =>
    obtain ⟨leftLt, rfl⟩ := List.getElem?_eq_some_iff.mp firstEq
    obtain ⟨rightLt, rfl⟩ := List.getElem?_eq_some_iff.mp secondEq
    exact List.set_set_perm leftLt rightLt
  next => exact List.Perm.refl slots

/-- `__push_heap`: move the value in `hole` up while its parent compares less. -/
def siftUp (comp : α → α → Bool) : Nat → List α → Nat → List α
  | 0, slots, _ => slots
  | fuel + 1, slots, hole =>
      if 0 < hole ∧ less comp slots (parent hole) hole = true then
        siftUp comp fuel (swap slots hole (parent hole)) (parent hole)
      else
        slots

/-- The descent of `__adjust_heap`: exchange the value in `hole` with its larger
child down to a slot without children, and return that slot.  The value itself
is not compared on the way. -/
def siftDown (comp : α → α → Bool) : Nat → List α → Nat → List α × Nat
  | 0, slots, hole => (slots, hole)
  | fuel + 1, slots, hole =>
      if 2 * hole + 2 < slots.length then
        let child :=
          if less comp slots (2 * hole + 2) (2 * hole + 1) = true then 2 * hole + 1
          else 2 * hole + 2
        siftDown comp fuel (swap slots hole child) child
      else if 2 * hole + 1 < slots.length then
        (swap slots hole (2 * hole + 1), 2 * hole + 1)
      else
        (slots, hole)

/-- `std::priority_queue::push`. -/
def push (comp : α → α → Bool) (slots : List α) (value : α) : List α :=
  siftUp comp slots.length (slots ++ [value]) slots.length

/-- `std::priority_queue::pop`: the last element replaces the first, descends to
a leaf and rises again to its place. -/
def pop (comp : α → α → Bool) (slots : List α) : List α :=
  let shrunk := (swap slots 0 (slots.length - 1)).dropLast
  let descended := siftDown comp shrunk.length shrunk 0
  siftUp comp descended.2 descended.1 descended.2

/-- The elements in the order in which repeated `top` and `pop` yield them. -/
def drain (comp : α → α → Bool) : Nat → List α → List α
  | 0, _ => []
  | fuel + 1, slots =>
      match slots.head? with
      | none => []
      | some top => top :: drain comp fuel (pop comp slots)

/-- Heap order: no element is above its parent. -/
def Ordered (le : α → α → Prop) (slots : List α) : Prop :=
  ∀ index child above, 0 < index → slots[index]? = some child →
    slots[parent index]? = some above → le child above

/-- Heap order up to the edge that enters `hole`; the children of the hole are
below the hole's parent, so raising the hole's value keeps them in order. -/
structure UpReady (le : α → α → Prop) (slots : List α) (hole : Nat) : Prop where
  hole_lt : hole < slots.length
  except : ∀ index child above, 0 < index → index ≠ hole →
    slots[index]? = some child → slots[parent index]? = some above → le child above
  grand : ∀ index child above, 0 < index → parent index = hole → 0 < hole →
    slots[index]? = some child → slots[parent hole]? = some above → le child above

/-- Heap order up to the edges that touch `hole`; the children of the hole are
below the hole's parent, so lifting one of them keeps the heap in order. -/
structure DownReady (le : α → α → Prop) (slots : List α) (hole : Nat) : Prop where
  hole_lt : hole < slots.length
  except : ∀ index child above, 0 < index → index ≠ hole → parent index ≠ hole →
    slots[index]? = some child → slots[parent index]? = some above → le child above
  grand : ∀ index child above, 0 < index → parent index = hole → 0 < hole →
    slots[index]? = some child → slots[parent hole]? = some above → le child above

section Order

variable {comp : α → α → Bool} {le : α → α → Prop}

theorem le_of_less_eq_true (compatible : Compatible comp le) {slots : List α}
    {left right : Nat} {first second : α}
    (answer : less comp slots left right = true)
    (firstEq : slots[left]? = some first) (secondEq : slots[right]? = some second) :
    le first second := by
  simp only [less, firstEq, secondEq] at answer
  exact compatible.of_true answer

theorem le_of_less_eq_false (compatible : Compatible comp le) {slots : List α}
    {left right : Nat} {first second : α}
    (answer : less comp slots left right ≠ true)
    (firstEq : slots[left]? = some first) (secondEq : slots[right]? = some second) :
    le second first := by
  simp only [less, firstEq, secondEq, Bool.not_eq_true] at answer
  exact compatible.of_false answer

/-- Raising the hole's value over a smaller parent moves the one open edge up. -/
theorem UpReady.raise (compatible : Compatible comp le) {slots : List α} {hole : Nat}
    (ready : UpReady le slots hole) (positive : 0 < hole)
    (answer : less comp slots (parent hole) hole = true) :
    UpReady le (swap slots hole (parent hole)) (parent hole) := by
  have holeLt := ready.hole_lt
  have above := parent_lt positive
  have parentLt : parent hole < slots.length := by omega
  have lookup := getElem?_swap holeLt parentLt
  obtain ⟨value, valueEq⟩ : ∃ value, slots[hole]? = some value :=
    ⟨_, List.getElem?_eq_getElem holeLt⟩
  obtain ⟨old, oldEq⟩ : ∃ old, slots[parent hole]? = some old :=
    ⟨_, List.getElem?_eq_getElem parentLt⟩
  have oldLe : le old value := le_of_less_eq_true compatible answer oldEq valueEq
  constructor
  · simpa using parentLt
  · intro index child upper indexPos indexNe childEq upperEq
    rw [lookup, if_neg indexNe] at childEq
    rw [lookup] at upperEq
    by_cases atHole : index = hole
    · subst index
      simp only [↓reduceIte] at childEq upperEq
      rw [oldEq] at childEq
      rw [valueEq] at upperEq
      cases childEq
      cases upperEq
      exact oldLe
    · rw [if_neg atHole] at childEq
      by_cases underParent : parent index = parent hole
      · rw [if_pos underParent, valueEq] at upperEq
        cases upperEq
        have childLe : le child old :=
          ready.except index child old indexPos atHole childEq (underParent ▸ oldEq)
        exact compatible.trans childLe oldLe
      · rw [if_neg underParent] at upperEq
        by_cases underHole : parent index = hole
        · rw [if_pos underHole] at upperEq
          exact ready.grand index child upper indexPos underHole positive childEq upperEq
        · rw [if_neg underHole] at upperEq
          exact ready.except index child upper indexPos atHole childEq upperEq
  · intro index child upper indexPos parentEq parentPos childEq upperEq
    have grandLt := parent_lt parentPos
    have belowParent := parent_lt indexPos
    rw [lookup, if_neg (by omega)] at childEq
    rw [lookup, if_neg (by omega), if_neg (by omega)] at upperEq
    have oldLeUpper : le old upper :=
      ready.except (parent hole) old upper parentPos (by omega) oldEq upperEq
    by_cases atHole : index = hole
    · rw [if_pos atHole, oldEq] at childEq
      cases childEq
      exact oldLeUpper
    · rw [if_neg atHole] at childEq
      have childLe : le child old :=
        ready.except index child old indexPos atHole childEq (parentEq ▸ oldEq)
      exact compatible.trans childLe oldLeUpper

theorem siftUp_ordered (compatible : Compatible comp le) (fuel : Nat) (slots : List α)
    (hole : Nat) (enough : hole ≤ fuel) (ready : UpReady le slots hole) :
    Ordered le (siftUp comp fuel slots hole) := by
  induction fuel generalizing slots hole with
  | zero =>
      have atRoot : hole = 0 := by omega
      subst hole
      intro index child above indexPos
      exact ready.except index child above indexPos (by omega)
  | succ fuel ih =>
      simp only [siftUp]
      split
      next moves =>
        have above := parent_lt moves.1
        exact ih _ _ (by omega) (ready.raise compatible moves.1 moves.2)
      next stops =>
        intro index child above indexPos childEq aboveEq
        by_cases atHole : index = hole
        · subst index
          have answer : less comp slots (parent hole) hole ≠ true :=
            fun answer => stops ⟨indexPos, answer⟩
          exact le_of_less_eq_false compatible answer aboveEq childEq
        · exact ready.except index child above indexPos atHole childEq aboveEq

/-- Lifting the larger child into the hole moves the open edges down. -/
theorem DownReady.lift {slots : List α} {hole child : Nat}
    (ready : DownReady le slots hole) (childPos : 0 < child)
    (childLt : child < slots.length) (parentEq : parent child = hole)
    (largest : ∀ sibling lower upper, 0 < sibling → parent sibling = hole →
      slots[sibling]? = some lower → slots[child]? = some upper → le lower upper) :
    DownReady le (swap slots hole child) child := by
  have below : hole < child := parentEq ▸ parent_lt childPos
  have lookup := getElem?_swap ready.hole_lt childLt
  obtain ⟨lifted, liftedEq⟩ : ∃ lifted, slots[child]? = some lifted :=
    ⟨_, List.getElem?_eq_getElem childLt⟩
  constructor
  · simpa using childLt
  · intro index lower upper indexPos indexNe parentNe lowerEq upperEq
    rw [lookup, if_neg indexNe] at lowerEq
    rw [lookup, if_neg parentNe] at upperEq
    by_cases atHole : index = hole
    · subst index
      have aboveHole := parent_lt indexPos
      rw [if_pos rfl, liftedEq] at lowerEq
      rw [if_neg (by omega)] at upperEq
      cases lowerEq
      exact ready.grand child lifted upper childPos parentEq indexPos liftedEq upperEq
    · rw [if_neg atHole] at lowerEq
      by_cases underHole : parent index = hole
      · rw [if_pos underHole] at upperEq
        exact largest index lower upper indexPos underHole lowerEq upperEq
      · rw [if_neg underHole] at upperEq
        exact ready.except index lower upper indexPos atHole underHole lowerEq upperEq
  · intro index lower upper indexPos underChild _ lowerEq upperEq
    have belowChild := parent_lt indexPos
    rw [lookup, if_neg (by omega), if_neg (by omega)] at lowerEq
    rw [lookup, parentEq, if_neg (by omega), if_pos rfl, liftedEq] at upperEq
    cases upperEq
    exact ready.except index lower lifted indexPos (by omega) (by omega) lowerEq
      (underChild ▸ liftedEq)

/-- A hole without children leaves only the edge above it open. -/
theorem DownReady.upReady {slots : List α} {hole : Nat}
    (ready : DownReady le slots hole) (leaf : slots.length ≤ 2 * hole + 1) :
    UpReady le slots hole := by
  have noChild : ∀ index child, 0 < index → slots[index]? = some child →
      parent index ≠ hole := by
    intro index child indexPos childEq parentEq
    obtain ⟨indexLt, _⟩ := List.getElem?_eq_some_iff.mp childEq
    rcases eq_child_of_parent indexPos parentEq with rfl | rfl <;> omega
  constructor
  · exact ready.hole_lt
  · intro index child above indexPos indexNe childEq aboveEq
    exact ready.except index child above indexPos indexNe
      (noChild index child indexPos childEq) childEq aboveEq
  · intro index child above indexPos parentEq _ childEq
    exact absurd parentEq (noChild index child indexPos childEq)

theorem siftDown_upReady (compatible : Compatible comp le) (fuel : Nat) (slots : List α)
    (hole : Nat) (enough : slots.length ≤ fuel + hole) (ready : DownReady le slots hole) :
    UpReady le (siftDown comp fuel slots hole).1 (siftDown comp fuel slots hole).2 := by
  induction fuel generalizing slots hole with
  | zero =>
      have := ready.hole_lt
      omega
  | succ fuel ih =>
      simp only [siftDown]
      split
      next bothChildren =>
        split
        next leftLarger =>
          apply ih
          · simp only [length_swap]
            omega
          apply ready.lift (by omega) (by omega) (by unfold parent; omega)
          intro sibling lower upper siblingPos parentEq lowerEq upperEq
          rcases eq_child_of_parent siblingPos parentEq with rfl | rfl
          · rw [lowerEq] at upperEq
            cases upperEq
            exact compatible.refl lower
          · exact le_of_less_eq_true compatible leftLarger lowerEq upperEq
        next rightLarger =>
          apply ih
          · simp only [length_swap]
            omega
          apply ready.lift (by omega) (by omega) (by unfold parent; omega)
          intro sibling lower upper siblingPos parentEq lowerEq upperEq
          rcases eq_child_of_parent siblingPos parentEq with rfl | rfl
          · exact le_of_less_eq_false compatible rightLarger upperEq lowerEq
          · rw [lowerEq] at upperEq
            cases upperEq
            exact compatible.refl lower
      next notBoth =>
        split
        next onlyLeft =>
          apply DownReady.upReady
          · apply ready.lift (by omega) onlyLeft (by unfold parent; omega)
            intro sibling lower upper siblingPos parentEq lowerEq upperEq
            obtain ⟨siblingLt, _⟩ := List.getElem?_eq_some_iff.mp lowerEq
            rcases eq_child_of_parent siblingPos parentEq with rfl | rfl
            · rw [lowerEq] at upperEq
              cases upperEq
              exact compatible.refl lower
            · omega
          · simp only [length_swap]
            omega
        next noChild => exact ready.upReady (by omega)

theorem push_ordered (compatible : Compatible comp le) {slots : List α}
    (ordered : Ordered le slots) (value : α) : Ordered le (push comp slots value) := by
  apply siftUp_ordered compatible _ _ _ (Nat.le_refl _)
  have early : ∀ index, index < slots.length →
      (slots ++ [value])[index]? = slots[index]? :=
    fun index indexLt => List.getElem?_append_left indexLt
  have bound : ∀ {index : Nat} {found : α}, (slots ++ [value])[index]? = some found →
      index < slots.length + 1 := by
    intro index found foundEq
    obtain ⟨indexLt, _⟩ := List.getElem?_eq_some_iff.mp foundEq
    simpa using indexLt
  constructor
  · simp
  · intro index child above indexPos indexNe childEq aboveEq
    have indexLt := bound childEq
    have aboveIndex := parent_lt indexPos
    rw [early index (by omega)] at childEq
    rw [early (parent index) (by omega)] at aboveEq
    exact ordered index child above indexPos childEq aboveEq
  · intro index child above indexPos parentEq _ childEq
    have indexLt := bound childEq
    have aboveIndex := parent_lt indexPos
    omega

theorem nil_ordered : Ordered le ([] : List α) := by
  intro index child above _ childEq
  simp at childEq

/-- Moving the last element to the root leaves only the root's edges open. -/
theorem shrink_downReady {slots : List α} (ordered : Ordered le slots)
    (long : 1 < slots.length) :
    DownReady le (swap slots 0 (slots.length - 1)).dropLast 0 := by
  have lookup : ∀ index, (swap slots 0 (slots.length - 1))[index]? =
      if index = slots.length - 1 then slots[0]?
      else if index = 0 then slots[slots.length - 1]?
      else slots[index]? :=
    getElem?_swap (by omega) (by omega)
  have inner : ∀ index, 0 < index → index < slots.length - 1 →
      (swap slots 0 (slots.length - 1)).dropLast[index]? = slots[index]? := by
    intro index indexPos indexLt
    rw [List.getElem?_dropLast, if_pos (by simpa using indexLt), lookup,
      if_neg (by omega), if_neg (by omega)]
  constructor
  · simp only [List.length_dropLast, length_swap]
    omega
  · intro index child above indexPos _ parentNe childEq aboveEq
    obtain ⟨indexLt, _⟩ := List.getElem?_eq_some_iff.mp childEq
    simp only [List.length_dropLast, length_swap] at indexLt
    have aboveIndex := parent_lt indexPos
    rw [inner index indexPos indexLt] at childEq
    rw [inner (parent index) (by omega) (by omega)] at aboveEq
    exact ordered index child above indexPos childEq aboveEq
  · intro index child above _ _ holePos
    omega

theorem pop_ordered (compatible : Compatible comp le) {slots : List α}
    (ordered : Ordered le slots) : Ordered le (pop comp slots) := by
  by_cases long : 1 < slots.length
  · apply siftUp_ordered compatible _ _ _ (Nat.le_refl _)
    exact siftDown_upReady compatible _ _ _ (by omega) (shrink_downReady ordered long)
  · have short : (swap slots 0 (slots.length - 1)).dropLast = [] := by
      apply List.eq_nil_of_length_eq_zero
      simp only [List.length_dropLast, length_swap]
      omega
    simp only [pop, short]
    exact nil_ordered

/-- The root of an ordered heap is above every element. -/
theorem Ordered.le_top (compatible : Compatible comp le) {slots : List α}
    (ordered : Ordered le slots) {top value : α} (topEq : slots.head? = some top)
    (member : value ∈ slots) : le value top := by
  obtain ⟨index, valueEq⟩ := List.mem_iff_getElem?.mp member
  rw [List.head?_eq_getElem?] at topEq
  clear member
  induction index using Nat.strongRecOn generalizing value with
  | ind index ih =>
      by_cases atRoot : index = 0
      · subst index
        rw [topEq] at valueEq
        cases valueEq
        exact compatible.refl top
      · have indexPos : 0 < index := by omega
        have aboveIndex := parent_lt indexPos
        obtain ⟨indexLt, _⟩ := List.getElem?_eq_some_iff.mp valueEq
        have parentLt : parent index < slots.length := by omega
        have aboveEq : slots[parent index]? = some slots[parent index] :=
          List.getElem?_eq_getElem parentLt
        exact compatible.trans (ordered index value _ indexPos valueEq aboveEq)
          (ih (parent index) aboveIndex aboveEq)

end Order

section Contents

variable (comp : α → α → Bool)

theorem siftUp_perm (fuel : Nat) (slots : List α) (hole : Nat) :
    (siftUp comp fuel slots hole).Perm slots := by
  induction fuel generalizing slots hole with
  | zero => exact List.Perm.refl slots
  | succ fuel ih =>
      simp only [siftUp]
      split
      · exact (ih _ _).trans (swap_perm _ _ _)
      · exact List.Perm.refl slots

theorem siftDown_perm (fuel : Nat) (slots : List α) (hole : Nat) :
    (siftDown comp fuel slots hole).1.Perm slots := by
  induction fuel generalizing slots hole with
  | zero => exact List.Perm.refl slots
  | succ fuel ih =>
      simp only [siftDown]
      split
      · exact (ih _ _).trans (swap_perm _ _ _)
      · split
        · exact swap_perm _ _ _
        · exact List.Perm.refl slots

theorem push_perm (slots : List α) (value : α) :
    (push comp slots value).Perm (value :: slots) := by
  exact (siftUp_perm comp _ _ _).trans (List.perm_append_singleton value slots)

/-- Exchanging the ends of a list and dropping the last slot removes its head. -/
theorem shrink_perm (top : α) (rest : List α) :
    (swap (top :: rest) 0 rest.length).dropLast.Perm rest := by
  cases rest using List.reverseRecOn with
  | nil => simp [swap]
  | append_singleton front last =>
      have shrunk : swap (top :: (front ++ [last])) 0 (front ++ [last]).length =
          last :: (front ++ [top]) := by
        simp [swap]
      rw [shrunk, ← List.cons_append, List.dropLast_concat]
      exact (List.perm_append_singleton last front).symm

theorem pop_perm (top : α) (rest : List α) : (pop comp (top :: rest)).Perm rest := by
  have shrunk := shrink_perm top rest
  simp only [pop, List.length_cons, Nat.add_sub_cancel]
  exact (siftUp_perm comp _ _ _).trans ((siftDown_perm comp _ _ _).trans shrunk)

theorem drain_perm (fuel : Nat) (slots : List α) (enough : slots.length ≤ fuel) :
    (drain comp fuel slots).Perm slots := by
  induction fuel generalizing slots with
  | zero =>
      have empty : slots = [] := List.eq_nil_of_length_eq_zero (by omega)
      subst slots
      exact List.Perm.refl []
  | succ fuel ih =>
      cases slots with
      | nil => exact List.Perm.refl []
      | cons top rest =>
          have popped := pop_perm comp top rest
          have shorter : (pop comp (top :: rest)).length ≤ fuel := by
            rw [popped.length_eq]
            simpa using enough
          simp only [drain, List.head?_cons]
          exact ((ih _ shorter).trans popped).cons top

@[simp] theorem mem_push {slots : List α} {value found : α} :
    found ∈ push comp slots value ↔ found = value ∨ found ∈ slots := by
  rw [(push_perm comp slots value).mem_iff, List.mem_cons]

end Contents

/-- Repeated `top` and `pop` yield the elements from greatest to least. -/
theorem drain_pairwise {comp : α → α → Bool} {le : α → α → Prop}
    (compatible : Compatible comp le) (fuel : Nat) (slots : List α)
    (ordered : Ordered le slots) (enough : slots.length ≤ fuel) :
    (drain comp fuel slots).Pairwise fun earlier later => le later earlier := by
  induction fuel generalizing slots with
  | zero => exact List.Pairwise.nil
  | succ fuel ih =>
      cases slots with
      | nil => exact List.Pairwise.nil
      | cons top rest =>
          have popped := pop_perm comp top rest
          have shorter : (pop comp (top :: rest)).length ≤ fuel := by
            rw [popped.length_eq]
            simpa using enough
          simp only [drain, List.head?_cons]
          apply List.Pairwise.cons
          · intro later laterMem
            rw [(drain_perm comp fuel _ shorter).mem_iff, popped.mem_iff] at laterMem
            exact ordered.le_top compatible rfl (List.mem_cons_of_mem top laterMem)
          · exact ih _ (pop_ordered compatible ordered) shorter

end StdHeap
