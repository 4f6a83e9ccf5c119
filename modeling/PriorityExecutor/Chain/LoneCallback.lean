import PriorityExecutor.Chain.Experiment

/-!
# A chain of one callback

The set-up marks the timer of a chain as the first executable and its last subscription
as the last one, so the timer of a chain without subscriptions is the first one only.
Its dispatches push deadlines and none removes one: the deques grow for ever, and what
the comparator reads at their fronts stays among the first `M` deadlines of the chain.
-/

namespace PriorityExecutor

namespace Chain

/-- Other executables have been dispatched, and rounds have set flags. -/
structure Undisturbed (chain : Chain) (before after : Strategy) : Prop where
  isF1tenth : after.isF1tenth = before.isF1tenth
  vector : after.deques chain.vector = before.deques chain.vector
  entry : ∃ flag, after.priorityMap (chain.executables 0) =
    (before.priorityMap (chain.executables 0)).map
      fun executable => { executable with canBeRun := flag }

theorem Undisturbed.refl (chain : Chain) (strategy : Strategy) :
    chain.Undisturbed strategy strategy := by
  refine ⟨rfl, rfl, ?_⟩
  cases entry : strategy.priorityMap (chain.executables 0) with
  | none => exact ⟨true, rfl⟩
  | some executable => exact ⟨executable.canBeRun, rfl⟩

/-- The next dispatch of the first executable, with the release right after it. -/
def FirstDispatch (chain : Chain) (before : Strategy) (release : Int) (after : Strategy) :
    Prop :=
  ∃ current input, chain.Undisturbed before current ∧
    current.bookkeeping input (chain.executables 0) = .ok after ∧
    after.releaseTimeOf (chain.executables 0) = some release

/-- The releases of the chain so far, whose deadlines are all still in the deques. -/
structure Unpopped (chain : Chain) (releases : List Int) (strategy : Strategy) : Prop where
  notShared : strategy.isF1tenth = false
  started : releases ≠ []
  vector : strategy.deques chain.vector =
    SlotRing.ring (fun number => toUint (releases.getD number 0 + chain.deadline))
      chain.size 0 releases.length
  member : ∃ executable,
    strategy.priorityMap (chain.executables 0) = some executable ∧
    chain.Member 0 executable ∧
    executable.curIndex = (releases.length - 1) % chain.size

variable {chain : Chain} {releases : List Int} {before after : Strategy} {release : Int}

theorem Unpopped.undisturbed (unpopped : chain.Unpopped releases before)
    (same : chain.Undisturbed before after) : chain.Unpopped releases after := by
  rcases unpopped.member with ⟨executable, entry, member, curIndex⟩
  rcases same.entry with ⟨flag, entryAfter⟩
  rw [entry, Option.map_some] at entryAfter
  exact ⟨same.isF1tenth.trans unpopped.notShared, unpopped.started,
    same.vector.trans unpopped.vector, _, entryAfter, member.withFlag flag, curIndex⟩

/-- One more release appends its deadline to the deque of its number. -/
theorem ring_concat_release (chain : Chain) (releases : List Int) (release : Int) :
    SlotRing.ring
        (fun number => toUint ((releases ++ [release]).getD number 0 + chain.deadline))
        chain.size 0 (releases ++ [release]).length =
      (SlotRing.ring (fun number => toUint (releases.getD number 0 + chain.deadline))
        chain.size 0 releases.length).modify (releases.length % chain.size)
          fun queue => queue ++ [toUint (release + chain.deadline)] := by
  rw [List.length_append, List.length_singleton, SlotRing.ring_push (Nat.zero_le _)]
  congr 1
  · apply SlotRing.ring_congr
    intro number _ old
    rw [List.getD_eq_getElem?_getD, List.getElem?_append_left old,
      ← List.getD_eq_getElem?_getD]
  · simp [List.getD_eq_getElem?_getD]

/-- A dispatch of an executable that is not the last one pops nothing. -/
theorem Unpopped.step (notLast : chain.last ≠ 0)
    (unpopped : chain.Unpopped releases before)
    (dispatch : chain.FirstDispatch before release after) :
    chain.Unpopped (releases ++ [release]) after := by
  rcases dispatch with ⟨current, input, same, result, recorded⟩
  have held := unpopped.undisturbed same
  rcases held.member with ⟨executable, entry, member, curIndex⟩
  rcases member.dispatch_first held.notShared entry result with
    ⟨_, next, _, _, dequesEq, entryAfter⟩
  have nextIs : next = release := by
    simpa [Strategy.releaseTimeOf, entryAfter, PriorityExecutable.afterDispatch] using recorded
  subst nextIs
  have positive : 1 ≤ releases.length := List.length_pos_iff.mpr held.started
  have nextIndex : (executable.curIndex + 1) % chain.size =
      releases.length % chain.size := by
    rw [curIndex, Nat.mod_add_mod, Nat.sub_add_cancel positive]
  refine ⟨?_, by simp, ?_, _, entryAfter, member.afterDispatch _ _, ?_⟩
  · exact (Strategy.bookkeeping_frame result).1.trans held.notShared
  · rw [dequesEq, Function.update_self, finish, if_neg (Ne.symm notLast), held.vector,
      nextIndex, ring_concat_release]
  · simp only [PriorityExecutable.afterDispatch]
    rw [nextIndex, List.length_append, List.length_singleton, Nat.add_sub_cancel]

theorem Unpopped.of_run {start stop : Strategy} {later : List Int} (notLast : chain.last ≠ 0)
    (unpopped : chain.Unpopped releases start)
    (run : Steps chain.FirstDispatch start later stop) :
    chain.Unpopped (releases ++ later) stop := by
  induction run with
  | nil =>
      rw [List.append_nil]
      exact unpopped
  | snoc _ last ih =>
      rw [← List.append_assoc]
      exact ih.step notLast last

/-- The comparator reads one of the first `M` deadlines, and all are still there. -/
theorem Unpopped.front (unpopped : chain.Unpopped releases after) :
    ∃ executable, after.priorityMap (chain.executables 0) = some executable ∧
      (executable.currentQueue after.deques).head? =
        some (toUint (releases.getD ((releases.length - 1) % chain.size) 0 +
          chain.deadline)) ∧
      after.deques chain.vector =
        SlotRing.ring (fun number => toUint (releases.getD number 0 + chain.deadline))
          chain.size 0 releases.length ∧
      ((after.deques chain.vector).map List.length).sum = releases.length := by
  rcases unpopped.member with ⟨executable, entry, member, curIndex⟩
  have positive : 1 ≤ releases.length := List.length_pos_iff.mpr unpopped.started
  refine ⟨executable, entry, ?_, unpopped.vector, ?_⟩
  · simp only [PriorityExecutable.currentQueue, member.deadlines]
    rw [unpopped.vector, curIndex,
      SlotRing.getD_ring (Nat.mod_lt _ chain.size_pos), List.head?_map,
      SlotRing.head?_contents (Nat.zero_le _) (Nat.sub_one_lt_of_lt positive),
      Option.map_some, Nat.sub_zero, Nat.zero_add]
  · rw [unpopped.vector,
      SlotRing.sum_length_ring chain.size_pos (Nat.zero_le _), Nat.sub_zero]

end Chain

namespace Experiment

variable {experiment : Experiment}

/-- A chain with one node.  No node is marked as the last one, so its last stage is one
that does not exist. -/
def Complete.loneChain (complete : experiment.Complete)
    (index : Fin experiment.chainLengths.length) : Chain :=
  { complete.chain index with last := 1 }

theorem Released.unpopped (complete : experiment.Complete)
    (notShared : experiment.isF1tenth = false)
    (index : Fin experiment.chainLengths.length) (lone : experiment.lengthOf index = 1)
    {state : SetUpState} (held : experiment.Released experiment.chainLengths.length state) :
    (complete.loneChain index).Unpopped [complete.release index] state.strat := by
  have registered : experiment.Registered index 0 := by simp [Registered, notShared]
  have exists' : 0 < experiment.lengthOf index := lone.symm.le
  have isLast : (experiment.released experiment.chainLengths.length index 0).isLastInChain =
      decide (0 ≠ 0 ∧ 0 = experiment.lengthOf index - 1) := rfl
  refine ⟨held.holds.isF1tenth.trans notShared, List.cons_ne_nil _ _, ?_, _,
    held.holds.entry ⟨index.isLt, exists'⟩ registered, ⟨rfl, rfl, rfl, rfl, rfl, ?_⟩, rfl⟩
  · have queues := held.deques index index.isLt
    rw [if_pos index.isLt, firstDeadline, ← toUint_toInt32_add] at queues
    rw [List.length_singleton, SlotRing.ring_zero_one (complete.loneChain index).size_pos]
    exact queues
  · rw [isLast]
    simp [Complete.loneChain]

end Experiment

end PriorityExecutor
