import PriorityExecutor.Strategy.Bookkeeping
import PriorityExecutor.Strategy.Collect

/-!
# Selecting the next executable

`get_next_executable` takes executables off the queue until one of them ends the
loop.  An executable that is not ready, or whose callback group is missing or
taken, lets the search continue.  An executable whose entity cannot be found ends
it with an empty `any_exec`, and its bookkeeping is done all the same.

The loop is the search for the first such executable in the order in which the
queue yields its elements; `selectionLoop_eq_findSome` says so, and the facts
below follow from it.
-/

namespace PriorityExecutor

/-- What the lookups of the base memory strategy find in the live nodes:
`get_*_by_handle` for the four handle types, `get_group_by_*`, and the flag of a
callback group. -/
structure SelectionView where
  entityExists : ExecutableType → Handle → Bool
  getGroup : ExecutableType → Handle → Option GroupId
  canBeTakenFrom : GroupId → Bool

namespace SelectionView

/-- The entity of an executable.  Waitables are not looked up: the branch reads
the `waitable` member. -/
def entityOf (view : SelectionView) (handle : Handle) (executable : PriorityExecutable) :
    Option Handle :=
  match executable.type with
  | .waitable => executable.waitable
  | type => if view.entityExists type handle then some handle else none

/-- One pass of the loop body up to the bookkeeping: `none` continues the search,
and anything else ends it with this `any_exec`. -/
def consider (view : SelectionView) (handle : Handle) (executable : PriorityExecutable) :
    Option AnyExecutable :=
  if executable.canBeRun then
    match view.entityOf handle executable with
    | none => some {}
    | some entity =>
        match view.getGroup executable.type entity with
        | none => none
        | some group =>
            if view.canBeTakenFrom group then
              some (.fill executable.type entity group)
            else
              none
  else
    none

end SelectionView

namespace Strategy

/-- The selection loop, with the queue that is left when it ends.  Each pass
removes an element, so the length of the queue is enough fuel. -/
def selectionLoop (strategy : Strategy) (view : SelectionView) :
    Nat → List Handle → Option (Handle × AnyExecutable) × List Handle
  | 0, queue => (none, queue)
  | fuel + 1, queue =>
      match queue.head? with
      | none => (none, queue)
      | some top =>
          let rest := StdHeap.pop (compareHandles strategy) queue
          match view.consider top (strategy.atKey top) with
          | none => strategy.selectionLoop view fuel rest
          | some anyExec => (some (top, anyExec), rest)

/-- `get_next_executable`. -/
def getNextExecutable (strategy : Strategy) (view : SelectionView)
    (input : DispatchInput) : Except Fault (AnyExecutable × Strategy) :=
  let (selected, queue) :=
    strategy.selectionLoop view strategy.allExecutables.length strategy.allExecutables
  let strategy := { strategy with allExecutables := queue }
  match selected with
  | none => .ok ({}, strategy)
  | some (handle, anyExec) =>
      (strategy.bookkeeping input handle).map fun strategy => (anyExec, strategy)

/-- The elements of the queue in the order in which `top` and `pop` yield them. -/
def queueOrder (strategy : Strategy) : List Handle :=
  StdHeap.drain (compareHandles strategy) strategy.allExecutables.length
    strategy.allExecutables

/-- `handle` can be dispatched: it is ready, its entity exists, and its callback
group was found and is takeable. -/
def Runnable (strategy : Strategy) (view : SelectionView) (handle : Handle) : Prop :=
  ∃ entity group,
    (strategy.atKey handle).canBeRun = true ∧
    view.entityOf handle (strategy.atKey handle) = some entity ∧
    view.getGroup (strategy.atKey handle).type entity = some group ∧
    view.canBeTakenFrom group = true

/-- `handle` is ready but has no entity: it has vanished since it was collected,
or it is a waitable whose `waitable` member is null. -/
def Vanished (strategy : Strategy) (view : SelectionView) (handle : Handle) : Prop :=
  (strategy.atKey handle).canBeRun = true ∧
    view.entityOf handle (strategy.atKey handle) = none

end Strategy

/-! ## One pass -/

namespace SelectionView

variable {view : SelectionView} {handle : Handle} {executable : PriorityExecutable}

/-- A pass that fills `any_exec` found a runnable executable. -/
theorem consider_filled {anyExec : AnyExecutable}
    (found : view.consider handle executable = some anyExec)
    (filled : anyExec.isFilled = true) :
    ∃ entity group,
      executable.canBeRun = true ∧
      view.entityOf handle executable = some entity ∧
      view.getGroup executable.type entity = some group ∧
      view.canBeTakenFrom group = true ∧
      anyExec = .fill executable.type entity group := by
  unfold consider at found
  split at found
  next ready =>
    split at found
    next =>
      cases found
      simp at filled
    next entity entityEq =>
      split at found
      next => cases found
      next group groupEq =>
        split at found
        next takeable =>
          cases found
          exact ⟨entity, group, ready, entityEq, groupEq, takeable, rfl⟩
        next => cases found
  next => cases found

/-- A pass ends the search with an empty `any_exec` only without an entity. -/
theorem consider_empty {anyExec : AnyExecutable}
    (found : view.consider handle executable = some anyExec)
    (empty : anyExec.isFilled = false) :
    executable.canBeRun = true ∧ view.entityOf handle executable = none := by
  unfold consider at found
  split at found
  next ready =>
    split at found
    next missing => exact ⟨ready, missing⟩
    next entity entityEq =>
      split at found
      next => cases found
      next =>
        split at found
        · cases found
          simp at empty
        · cases found
  next => cases found

theorem consider_of_runnable {entity : Handle} {group : GroupId}
    (ready : executable.canBeRun = true)
    (entityEq : view.entityOf handle executable = some entity)
    (groupEq : view.getGroup executable.type entity = some group)
    (takeable : view.canBeTakenFrom group = true) :
    view.consider handle executable = some (.fill executable.type entity group) := by
  simp [consider, ready, entityEq, groupEq, takeable]

end SelectionView

/-! ## The loop -/

namespace Strategy

variable {strategy : Strategy} {view : SelectionView}

/-- The loop looks for the first element that ends it, in queue order. -/
theorem selectionLoop_eq_findSome (strategy : Strategy) (view : SelectionView)
    (fuel : Nat) (queue : List Handle) :
    (strategy.selectionLoop view fuel queue).1 =
      (StdHeap.drain (compareHandles strategy) fuel queue).findSome? fun handle =>
        (view.consider handle (strategy.atKey handle)).map fun anyExec =>
          (handle, anyExec) := by
  induction fuel generalizing queue with
  | zero => rfl
  | succ fuel ih =>
      cases topEq : queue.head? with
      | none => simp only [selectionLoop, StdHeap.drain, topEq, List.findSome?_nil]
      | some top =>
          simp only [selectionLoop, StdHeap.drain, topEq, List.findSome?_cons]
          cases outcome : view.consider top (strategy.atKey top) with
          | none => exact ih _
          | some anyExec => rfl

/-- The executable that a call settles on, with what it stores in `any_exec`. -/
def selected (strategy : Strategy) (view : SelectionView) :
    Option (Handle × AnyExecutable) :=
  strategy.queueOrder.findSome? fun handle =>
    (view.consider handle (strategy.atKey handle)).map fun anyExec => (handle, anyExec)

theorem selected_eq_some {handle : Handle} {anyExec : AnyExecutable}
    (result : strategy.selected view = some (handle, anyExec)) :
    ∃ earlier later,
      strategy.queueOrder = earlier ++ handle :: later ∧
      view.consider handle (strategy.atKey handle) = some anyExec ∧
      ∀ other ∈ earlier, view.consider other (strategy.atKey other) = none := by
  obtain ⟨earlier, found, later, splits, hit, misses⟩ :=
    List.findSome?_eq_some_iff.mp result
  simp only [Option.map_eq_some_iff] at hit
  obtain ⟨stored, storedEq, pairEq⟩ := hit
  cases pairEq
  refine ⟨earlier, later, splits, storedEq, ?_⟩
  intro other member
  simpa using misses other member

/-- A call either finds nothing and leaves the data alone, or does the
bookkeeping of the executable it settled on. -/
theorem getNextExecutable_eq (strategy : Strategy) (view : SelectionView)
    (input : DispatchInput) :
    ∃ queue, strategy.getNextExecutable view input =
      match strategy.selected view with
      | none => .ok ({}, { strategy with allExecutables := queue })
      | some (handle, anyExec) =>
          ({ strategy with allExecutables := queue }.bookkeeping input handle).map
            fun after => (anyExec, after) := by
  have loopEq := strategy.selectionLoop_eq_findSome view strategy.allExecutables.length
    strategy.allExecutables
  unfold getNextExecutable
  cases loop : strategy.selectionLoop view strategy.allExecutables.length
    strategy.allExecutables with
  | mk outcome queue =>
      rw [loop] at loopEq
      refine ⟨queue, ?_⟩
      rw [selected, queueOrder, ← loopEq]

theorem getNextExecutable_eq_ok {input : DispatchInput} {anyExec : AnyExecutable}
    {after : Strategy}
    (result : strategy.getNextExecutable view input = .ok (anyExec, after)) :
    ∃ queue,
      strategy.selected view = none ∧ anyExec = {} ∧
          after = { strategy with allExecutables := queue } ∨
        ∃ handle, strategy.selected view = some (handle, anyExec) ∧
          ({ strategy with allExecutables := queue }).bookkeeping input handle =
            .ok after := by
  obtain ⟨queue, callEq⟩ := strategy.getNextExecutable_eq view input
  rw [callEq] at result
  refine ⟨queue, ?_⟩
  cases chosen : strategy.selected view with
  | none =>
      rw [chosen] at result
      cases result
      exact .inl ⟨rfl, rfl, rfl⟩
  | some pair =>
      obtain ⟨handle, stored⟩ := pair
      rw [chosen] at result
      obtain ⟨final, update, pairEq⟩ := Except.map_eq_ok.mp result
      cases pairEq
      exact .inr ⟨handle, rfl, update⟩

theorem mem_queueOrder {handle : Handle} :
    handle ∈ strategy.queueOrder ↔ handle ∈ strategy.allExecutables :=
  (StdHeap.drain_perm _ _ _ (Nat.le_refl _)).mem_iff

/-- The queue of a round yields no executable before one that outranks it. -/
theorem queueOrder_pairwise (valid : QueueValid strategy) :
    strategy.queueOrder.Pairwise fun earlier later =>
      ¬ Outranks strategy.deques (strategy.atKey later) (strategy.atKey earlier) :=
  StdHeap.drain_pairwise (compare_compatible strategy) _ _ valid.ordered (Nat.le_refl _)

end Strategy

end PriorityExecutor
