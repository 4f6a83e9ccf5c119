import Mathlib.Data.List.FinRange
import PriorityExecutor.Analysis.TheoremOne
import PriorityExecutor.Analysis.TheoremTwo

/-!
# The order of the chains

Both programs number the chains and compare the numbers, to leave a chain out of its own
demand.  The numbers have no other meaning: with the chains listed in another order, the
same times are reported in that order, and a search that does not end still does not.

Words are added modulo `2 ^ 64`, so that this needs no bound on the sums.
-/

namespace WordSum

variable {n : Nat}

/-- The loop adds the same terms in any order. -/
theorem accumulate_comp_perm (order : Equiv.Perm (Fin n)) (selected : Fin n → Prop)
    [DecidablePred selected] (term : Fin n → UInt64) (total : UInt64) :
    accumulate (fun j => selected (order j)) (fun j => term (order j)) total =
      accumulate selected term total := by
  have commutes : RightCommutative fun (total : UInt64) (j : Fin n) =>
      if selected j then total + term j else total := by
    constructor
    intro total j k
    by_cases first : selected j
    · by_cases second : selected k
      · simp only [if_pos first, if_pos second]
        rw [UInt64.add_assoc, UInt64.add_comm (term j), UInt64.add_assoc]
      · simp only [if_pos first, if_neg second]
    · simp only [if_neg first]
  have listed := (Equiv.Perm.map_finRange_perm order).foldl_eq total (f := fun total j =>
    if selected j then total + term j else total)
  rwa [List.foldl_map] at listed

end WordSum

namespace PriorityExecutor

variable {n : Nat}

/-- The values of the chains in another order. -/
def reorder (order : Fin n → Fin n) (values : List UInt64) : List UInt64 :=
  (List.finRange n).map fun i => values.getD (order i) 0

theorem mapM_eq_none {α β : Type*} {run : α → Option β} {items : List α} {item : α}
    (member : item ∈ items) (fails : run item = none) : items.mapM run = none := by
  induction items with
  | nil => cases member
  | cons head tail ih =>
      rw [List.mapM_cons]
      rcases List.mem_cons.mp member with rfl | inTail
      · rw [fails]
        rfl
      · rw [ih inTail]
        cases run head <;> rfl

namespace ResponseSearch

/-- If the turn for a chain is the turn for its other number, the vector is reordered. -/
theorem main_reorder {test test' : Fin n → UInt64 → Bool}
    {report report' : Fin n → UInt64 → UInt64} {chains chains' : Fin n → TaskChain}
    {fuel : Nat} (order : Equiv.Perm (Fin n))
    (same : ∀ i, responseTime test' report' chains' fuel i =
      responseTime test report chains fuel (order i)) :
    main test' report' chains' fuel = (main test report chains fuel).map (reorder order) := by
  unfold main
  rw [funext same]
  by_cases ends : ∀ i, ∃ value, responseTime test report chains fuel i = some value
  · choose value valueEq using ends
    have turns : responseTime test report chains fuel = fun i => pure (value i) :=
      funext valueEq
    rw [turns, List.mapM_pure, List.mapM_pure]
    apply congrArg some
    apply List.map_congr_left
    intro i _
    simp
  · rw [not_forall] at ends
    rcases ends with ⟨i, endless⟩
    have fails : responseTime test report chains fuel i = none :=
      Option.eq_none_iff_forall_ne_some.mpr fun value found => endless ⟨value, found⟩
    have failsThere : responseTime test report chains fuel (order (order.symm i)) = none := by
      rwa [order.apply_symm_apply]
    rw [mapM_eq_none (List.mem_finRange i) fails,
      mapM_eq_none (List.mem_finRange (order.symm i)) failsThere]
    rfl

end ResponseSearch

variable (order : Equiv.Perm (Fin n)) (cores : UInt64) (chains : Fin n → TaskChain)

theorem TheoremOne.dbf_reorder (i : Fin n) (timeGap : UInt64) :
    dbf cores (chains ∘ order) i timeGap = dbf cores chains (order i) timeGap := by
  have shorter := WordSum.accumulate_comp_perm order
    (fun j => (chains j).deadline < (chains (order i)).deadline)
    (fun j => interference chains (order i) j timeGap) (cores * (chains (order i)).startGap)
  have others := WordSum.accumulate_comp_perm order (fun k => order i ≠ k)
    (fun k => min (chains k).runtime timeGap)
  simp only [ne_eq, order.injective.eq_iff] at others
  unfold dbf
  dsimp only
  rw [← shorter, ← others]
  rfl

theorem TheoremTwo.dbf_reorder (i : Fin n) (timeGap : UInt64) :
    dbf cores (chains ∘ order) i timeGap = dbf cores chains (order i) timeGap := by
  have shorter := WordSum.accumulate_comp_perm order
    (fun j => (chains j).deadline < (chains (order i)).deadline)
    (fun j => interference chains (order i) j timeGap) (cores * (chains (order i)).startGap)
  have all := WordSum.accumulate_comp_perm order (fun _ => True)
    (fun k => active chains k timeGap)
  unfold dbf
  dsimp only
  rw [← shorter, ← all]
  rfl

/-- Listed in another order, the chains get the same reports, from both programs and for
every input. -/
theorem reports_reorder (fuel : Nat) :
    TheoremOne.main fuel cores (chains ∘ order) =
        (TheoremOne.main fuel cores chains).map (reorder order) ∧
      TheoremTwo.main fuel cores (chains ∘ order) =
        (TheoremTwo.main fuel cores chains).map (reorder order) := by
  constructor
  · apply ResponseSearch.main_reorder
    intro i
    have tests : TheoremOne.exits cores (chains ∘ order) i =
        TheoremOne.exits cores chains (order i) := by
      funext timeGap
      rw [TheoremOne.exits, TheoremOne.exits, TheoremOne.dbf_reorder]
    rw [ResponseSearch.responseTime, ResponseSearch.responseTime, tests]
    rfl
  · apply ResponseSearch.main_reorder
    intro i
    have tests : TheoremTwo.exits cores (chains ∘ order) i =
        TheoremTwo.exits cores chains (order i) := by
      funext timeGap
      rw [TheoremTwo.exits, TheoremTwo.exits, TheoremTwo.dbf_reorder]
    rw [ResponseSearch.responseTime, ResponseSearch.responseTime, tests]
    rfl

end PriorityExecutor
