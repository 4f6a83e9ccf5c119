import Mathlib.Algebra.BigOperators.Fin
import Mathlib.Data.List.Nodup
import PriorityExecutor.Foundation.Run
import PriorityExecutor.Strategy.Collect

/-!
# The executor's side of `wait_for_work`

Before it waits, the executor drops the nodes that have expired from `weak_nodes_` and
`guard_conditions_` with two iterators that move together, and resizes the wait set to
what the strategy and its waitables announce.  `Strategy.waitForWork` leaves both out.
Here they are in, with the ways in which they can fail: an iterator that leaves its list,
`Couldn't fill wait set`, and the errors of `rcl`.

The functions of `rcl`, the waitables and `Executor::add_node` are not part of this
repository.  They are parameters, and what is relied on is named as a hypothesis:
`Rcl.Documented`, `WaitInput.Regular` and `NodeLists.AddsNode`.

Under these a wait fails only with an error that `rcl` reports by itself.  Every other
wait computes what `Strategy.waitForWork` says.
-/

namespace PriorityExecutor

/-! ## The wait set -/

/-- The kinds of slots that `rcl_wait_set_resize` is given numbers for. -/
inductive SlotKind where
  | subscription
  | guardCondition
  | timer
  | client
  | service
  | event
  deriving DecidableEq, Repr

/-- `rcl_ret_t`, as far as `wait_for_work` tells its values apart. -/
inductive RclRet where
  | ok
  | timeout
  | waitSetEmpty
  | other (code : Nat)
  deriving DecidableEq, Repr

/-- The exceptions of `wait_for_work`, and the use of an iterator at its end. -/
inductive WaitFault where
  | endIterator
  | runtimeError (what : String)
  | rclError (ret : RclRet) (what : String)
  deriving DecidableEq, Repr

/-- `rcl` on the states `ω` of a wait set: the sizes and the slots in use of
`rcl_wait_set_t`, and `rcl_wait_set_clear`, `rcl_wait_set_resize` and
`rcl_wait_set_add_*`. -/
structure Rcl (ω : Type) where
  size : ω → SlotKind → Nat
  filled : ω → SlotKind → List (Option Nat)
  clear : ω → RclRet × ω
  resize : (SlotKind → Nat) → ω → RclRet × ω
  add : SlotKind → Nat → ω → RclRet × ω

variable {ω : Type}

namespace Rcl

/-- What is documented of `rcl`: a resized wait set has the given sizes and no entity, and
an entity is stored in the next slot of its kind as long as there is one. -/
structure Documented (rcl : Rcl ω) : Prop where
  resize : ∀ {numbers before after}, rcl.resize numbers before = (.ok, after) →
    rcl.size after = numbers ∧ rcl.filled after = fun _ => []
  add : ∀ {kind waitSet} (address : Nat),
    (rcl.filled waitSet kind).length < rcl.size waitSet kind →
    ∃ after, rcl.add kind address waitSet = (.ok, after) ∧
      rcl.size after = rcl.size waitSet ∧
      rcl.filled after = Function.update (rcl.filled waitSet) kind
        (rcl.filled waitSet kind ++ [some address])

/-- The slots that `remove_null_handles` reads. -/
def slots (rcl : Rcl ω) (waitSet : ω) : WaitSet where
  subscriptions := rcl.filled waitSet .subscription
  services := rcl.filled waitSet .service
  clients := rcl.filled waitSet .client
  timers := rcl.filled waitSet .timer

/-- One turn of a loop of `add_handles_to_wait_set`. -/
def addHandle (rcl : Rcl ω) (kind : SlotKind) (waitSet : ω) (address : Nat) : Option ω :=
  match rcl.add kind address waitSet with
  | (.ok, waitSet) => some waitSet
  | _ => none

end Rcl

/-- What a waitable announces with `get_number_of_ready_*`, and its `add_to_wait_set`. -/
structure Waitable (ω : Type) where
  numberOfReady : SlotKind → Nat
  addToWaitSet : ω → Bool × ω

namespace Waitable

/-- With room for what it announces, a waitable adds no more than that. -/
def KeepsWord (waitable : Waitable ω) (rcl : Rcl ω) : Prop :=
  ∀ waitSet : ω,
    (∀ kind, (rcl.filled waitSet kind).length + waitable.numberOfReady kind ≤
      rcl.size waitSet kind) →
    ∃ after, waitable.addToWaitSet waitSet = (true, after) ∧
      rcl.size after = rcl.size waitSet ∧
      ∀ kind, (rcl.filled after kind).length ≤
        (rcl.filled waitSet kind).length + waitable.numberOfReady kind

/-- The turn of a waitable in `add_handles_to_wait_set`. -/
def addHandle (waitable : Waitable ω) (waitSet : ω) : Option ω :=
  match waitable.addToWaitSet waitSet with
  | (true, waitSet) => some waitSet
  | (false, _) => none

theorem addHandle_eq_some {waitable : Waitable ω} {before after : ω} :
    waitable.addHandle before = some after ↔ waitable.addToWaitSet before = (true, after) := by
  rw [addHandle]
  rcases waitable.addToWaitSet before with ⟨added, waitSet⟩
  cases added <;> simp

end Waitable

/-- What a wait reads from outside: the flags of the groups, the nodes that can be locked
when it collects, those that are expired when it cleans up, the waitables, and what
`rcl_wait` does with a wait set at that time. -/
structure WaitInput (ω : Type) where
  canBeTakenFrom : GroupId → Bool
  lock : Nat → Option Node
  expired : Nat → Bool
  waitables : Handle → Waitable ω
  rclWait : ω → RclRet × ω
  outcome : WaitOutcome

/-- An error of `rcl` that `wait_for_work` throws, with the text it throws it under.  An
empty wait set is only logged. -/
inductive WaitInput.Throws (input : WaitInput ω) (rcl : Rcl ω) : RclRet → String → Prop where
  | clear {ret : RclRet} {waitSet : ω} :
      (rcl.clear waitSet).1 = ret → ret ≠ .ok →
      Throws input rcl ret "Couldn't clear wait set"
  | resize {ret : RclRet} {numbers : SlotKind → Nat} {waitSet : ω} :
      (rcl.resize numbers waitSet).1 = ret → ret ≠ .ok →
      Throws input rcl ret "Couldn't resize the wait set"
  | wait {code : Nat} {waitSet : ω} :
      (input.rclWait waitSet).1 = .other code →
      Throws input rcl (.other code) "rcl_wait() failed"

/-- Waitables keep their word, and the outcome says of the slots what the waitables and
`rcl_wait` do to them. -/
structure WaitInput.Regular (input : WaitInput ω) (rcl : Rcl ω) : Prop where
  keepWord : ∀ handle, (input.waitables handle).KeepsWord rcl
  added : ∀ {handle before after},
    (input.waitables handle).addToWaitSet before = (true, after) →
    input.outcome.addToWaitSet handle (rcl.slots before) = rcl.slots after
  waited : ∀ waitSet, input.outcome.wait (rcl.slots waitSet) =
    rcl.slots (input.rclWait waitSet).2

namespace Strategy

section Numbers

variable (strategy : Strategy) (waitables : Handle → Waitable ω)

/-- The number of slots of a kind: the handles of the strategy, and what its waitables
announce. -/
def numberOf (own : Nat) (kind : SlotKind) : Nat :=
  strategy.waitableHandles.foldl
    (fun number handle => number + (waitables handle).numberOfReady kind) own

def numberOfReadySubscriptions : Nat :=
  strategy.numberOf waitables strategy.subscriptionHandles.length .subscription

def numberOfReadyServices : Nat :=
  strategy.numberOf waitables strategy.serviceHandles.length .service

def numberOfReadyEvents : Nat := strategy.numberOf waitables 0 .event

def numberOfReadyClients : Nat :=
  strategy.numberOf waitables strategy.clientHandles.length .client

def numberOfGuardConditions (guardConditions : List Nat) : Nat :=
  strategy.numberOf waitables guardConditions.length .guardCondition

def numberOfReadyTimers : Nat :=
  strategy.numberOf waitables strategy.timerHandles.length .timer

/-- The arguments of `rcl_wait_set_resize`. -/
def waitSetSize (guardConditions : List Nat) : SlotKind → Nat
  | .subscription => strategy.numberOfReadySubscriptions waitables
  | .guardCondition => strategy.numberOfGuardConditions waitables guardConditions
  | .timer => strategy.numberOfReadyTimers waitables
  | .client => strategy.numberOfReadyClients waitables
  | .service => strategy.numberOfReadyServices waitables
  | .event => strategy.numberOfReadyEvents waitables

end Numbers

/-- `add_handles_to_wait_set`, which gives up at the first entity that is not added. -/
def addHandlesToRclWaitSet (strategy : Strategy) (rcl : Rcl ω)
    (waitables : Handle → Waitable ω) (guardConditions : List Nat) (waitSet : ω) :
    Option ω := do
  let waitSet ← strategy.subscriptionHandles.foldlM (rcl.addHandle .subscription) waitSet
  let waitSet ← strategy.clientHandles.foldlM (rcl.addHandle .client) waitSet
  let waitSet ← strategy.serviceHandles.foldlM (rcl.addHandle .service) waitSet
  let waitSet ← strategy.timerHandles.foldlM (rcl.addHandle .timer) waitSet
  let waitSet ← guardConditions.foldlM (rcl.addHandle .guardCondition) waitSet
  strategy.waitableHandles.foldlM (fun waitSet handle => (waitables handle).addHandle waitSet)
    waitSet

/-- `rcl_wait`, and the handles without a slot are removed. -/
def rclWait (strategy : Strategy) (rcl : Rcl ω) (input : WaitInput ω) (waitSet : ω) :
    Except WaitFault Strategy :=
  match input.rclWait waitSet with
  | (.other code, _) => .error (.rclError (.other code) "rcl_wait() failed")
  | (_, waitSet) => .ok (strategy.removeNullHandles input.outcome (rcl.slots waitSet))

/-- The wait set is cleared, resized and filled, and waited on. -/
def waitOn (strategy : Strategy) (rcl : Rcl ω) (guardConditions : List Nat) (waitSet : ω)
    (input : WaitInput ω) : Except WaitFault Strategy :=
  match rcl.clear waitSet with
  | (.ok, waitSet) =>
      match rcl.resize (strategy.waitSetSize input.waitables guardConditions) waitSet with
      | (.ok, waitSet) =>
          match strategy.addHandlesToRclWaitSet rcl input.waitables guardConditions
              waitSet with
          | some waitSet => strategy.rclWait rcl input waitSet
          | none => .error (.runtimeError "Couldn't fill wait set")
      | (ret, _) => .error (.rclError ret "Couldn't resize the wait set")
  | (ret, _) => .error (.rclError ret "Couldn't clear wait set")

end Strategy

/-! ### It never overflows -/

namespace Rcl

variable {rcl : Rcl ω} {waitSet : ω} {size : SlotKind → Nat}
  {filled : SlotKind → List (Option Nat)}

/-- The sizes and the slots in use of a wait set. -/
structure Reads (rcl : Rcl ω) (waitSet : ω) (size : SlotKind → Nat)
    (filled : SlotKind → List (Option Nat)) : Prop where
  size : rcl.size waitSet = size
  filled : rcl.filled waitSet = filled

/-- Addresses for which there is room are added in order. -/
theorem Reads.foldlM_addHandle (reads : rcl.Reads waitSet size filled)
    (documented : rcl.Documented) (kind : SlotKind) (addresses : List Nat)
    (room : (filled kind).length + addresses.length ≤ size kind) :
    ∃ after, addresses.foldlM (rcl.addHandle kind) waitSet = some after ∧
      rcl.Reads after size
        (Function.update filled kind (filled kind ++ addresses.map some)) := by
  induction addresses generalizing waitSet filled with
  | nil => exact ⟨waitSet, rfl, reads.size, by simp [reads.filled]⟩
  | cons address addresses ih =>
      rw [List.length_cons] at room
      have free : (rcl.filled waitSet kind).length < rcl.size waitSet kind := by
        rw [reads.filled, reads.size]
        omega
      rcases documented.add address free with ⟨middle, added, sameSize, oneMore⟩
      have middleReads : rcl.Reads middle size
          (Function.update filled kind (filled kind ++ [some address])) :=
        ⟨sameSize.trans reads.size, by rw [oneMore, reads.filled]⟩
      rcases ih middleReads (by
        rw [Function.update_self, List.length_append, List.length_singleton]
        omega) with ⟨after, addedAll, afterReads⟩
      refine ⟨after, ?_, by simpa using afterReads⟩
      rw [List.foldlM_cons, addHandle, added]
      exact addedAll

theorem Reads.foldlM_addHandle_first (reads : rcl.Reads waitSet size filled)
    (documented : rcl.Documented) (kind : SlotKind) (addresses : List Nat)
    (empty : filled kind = []) (fits : addresses.length ≤ size kind) :
    ∃ after, addresses.foldlM (rcl.addHandle kind) waitSet = some after ∧
      rcl.Reads after size (Function.update filled kind (addresses.map some)) := by
  have added := reads.foldlM_addHandle documented kind addresses (by simpa [empty] using fits)
  rwa [empty, List.nil_append] at added

end Rcl

namespace Strategy

theorem numberOf_eq (strategy : Strategy) (waitables : Handle → Waitable ω) (own : Nat)
    (kind : SlotKind) :
    strategy.numberOf waitables own kind = own +
      (strategy.waitableHandles.map fun handle => (waitables handle).numberOfReady kind).sum := by
  rw [numberOf]
  induction strategy.waitableHandles generalizing own with
  | nil => rfl
  | cons handle handles ih =>
      rw [List.foldl_cons, ih, List.map_cons, List.sum_cons, Nat.add_assoc]

end Strategy

/-- Waitables that keep their word fit into the slots they announced, and change them as
the outcome says. -/
theorem WaitInput.Regular.foldlM_addHandle {rcl : Rcl ω} {input : WaitInput ω}
    (regular : input.Regular rcl) (handles : List Handle) {waitSet : ω}
    (room : ∀ kind, (rcl.filled waitSet kind).length +
      (handles.map fun handle => (input.waitables handle).numberOfReady kind).sum ≤
        rcl.size waitSet kind) :
    ∃ after, handles.foldlM (fun waitSet handle => (input.waitables handle).addHandle waitSet)
        waitSet = some after ∧
      handles.foldl (fun waitSet handle => input.outcome.addToWaitSet handle waitSet)
        (rcl.slots waitSet) = rcl.slots after := by
  induction handles generalizing waitSet with
  | nil => exact ⟨waitSet, rfl, rfl⟩
  | cons handle handles ih =>
      simp only [List.map_cons, List.sum_cons] at room
      have fits : ∀ kind, (rcl.filled waitSet kind).length +
          (input.waitables handle).numberOfReady kind ≤ rcl.size waitSet kind := by
        intro kind
        have := room kind
        omega
      rcases regular.keepWord handle waitSet fits with ⟨middle, added, sameSize, atMost⟩
      have rest : ∀ kind, (rcl.filled middle kind).length +
          (handles.map fun handle => (input.waitables handle).numberOfReady kind).sum ≤
            rcl.size middle kind := by
        intro kind
        have := room kind
        have := atMost kind
        rw [sameSize]
        omega
      rcases ih rest with ⟨after, filled, slots⟩
      refine ⟨after, ?_, ?_⟩
      · rw [List.foldlM_cons, Waitable.addHandle_eq_some.mpr added]
        exact filled
      · rw [List.foldl_cons, regular.added added]
        exact slots

namespace Strategy

variable {strategy : Strategy} {rcl : Rcl ω} {input : WaitInput ω}
  {guardConditions : List Nat}

/-- The addresses that the strategy adds by itself. -/
def ownAddresses (strategy : Strategy) (guardConditions : List Nat) : SlotKind → List Nat
  | .subscription => strategy.subscriptionHandles
  | .guardCondition => guardConditions
  | .timer => strategy.timerHandles
  | .client => strategy.clientHandles
  | .service => strategy.serviceHandles
  | .event => []

theorem waitSetSize_eq (waitables : Handle → Waitable ω) (kind : SlotKind) :
    strategy.waitSetSize waitables guardConditions kind =
      (strategy.ownAddresses guardConditions kind).length +
        (strategy.waitableHandles.map fun handle =>
          (waitables handle).numberOfReady kind).sum := by
  cases kind <;> exact strategy.numberOf_eq waitables _ _

/-- The handles and guard conditions of the strategy fit, and then come the waitables. -/
theorem exists_ownAdded (documented : rcl.Documented) {waitSet : ω} {size : SlotKind → Nat}
    (reads : rcl.Reads waitSet size fun _ => [])
    (fits : ∀ kind, (strategy.ownAddresses guardConditions kind).length ≤ size kind)
    (waitables : Handle → Waitable ω) :
    ∃ own, rcl.Reads own size
        (fun kind => (strategy.ownAddresses guardConditions kind).map some) ∧
      strategy.addHandlesToRclWaitSet rcl waitables guardConditions waitSet =
        strategy.waitableHandles.foldlM
          (fun waitSet handle => (waitables handle).addHandle waitSet) own := by
  -- Each of the five loops fills a kind that the loops before it have left empty.
  rcases reads.foldlM_addHandle_first documented .subscription _ rfl (fits .subscription) with
    ⟨_, subscriptions, reads⟩
  rcases reads.foldlM_addHandle_first documented .client _ rfl (fits .client) with
    ⟨_, clients, reads⟩
  rcases reads.foldlM_addHandle_first documented .service _ rfl (fits .service) with
    ⟨_, services, reads⟩
  rcases reads.foldlM_addHandle_first documented .timer _ rfl (fits .timer) with
    ⟨_, timers, reads⟩
  rcases reads.foldlM_addHandle_first documented .guardCondition _ rfl
    (fits .guardCondition) with ⟨own, guards, reads⟩
  refine ⟨own, ⟨reads.size, reads.filled.trans ?_⟩, ?_⟩
  · funext kind
    cases kind <;> rfl
  · simp only [ownAddresses] at subscriptions clients services timers guards
    simp only [addHandlesToRclWaitSet, Option.bind_eq_bind, subscriptions, clients, services,
      timers, guards, Option.bind_some]

/-- A wait set of the announced size is filled without a failure, as
`addHandlesToWaitSet` fills it. -/
theorem exists_filled (documented : rcl.Documented) (regular : input.Regular rcl)
    {waitSet : ω}
    (reads : rcl.Reads waitSet (strategy.waitSetSize input.waitables guardConditions)
      fun _ => []) :
    ∃ after, strategy.addHandlesToRclWaitSet rcl input.waitables guardConditions waitSet =
        some after ∧
      rcl.slots after = strategy.addHandlesToWaitSet input.outcome := by
  have fits : ∀ kind, (strategy.ownAddresses guardConditions kind).length ≤
      strategy.waitSetSize input.waitables guardConditions kind := by
    intro kind
    rw [waitSetSize_eq]
    exact Nat.le_add_right _ _
  rcases exists_ownAdded documented reads fits input.waitables with ⟨own, ownReads, ownAdded⟩
  have room : ∀ kind, (rcl.filled own kind).length +
      (strategy.waitableHandles.map fun handle =>
        (input.waitables handle).numberOfReady kind).sum ≤ rcl.size own kind := by
    intro kind
    rw [ownReads.filled, ownReads.size, List.length_map]
    exact (waitSetSize_eq input.waitables kind).symm.le
  rcases regular.foldlM_addHandle strategy.waitableHandles room with ⟨after, filled, slots⟩
  refine ⟨after, ownAdded.trans filled, ?_⟩
  rw [← slots, Rcl.slots, ownReads.filled]
  rfl

/-- `rcl_wait` throws, or leaves of the handles what the outcome says. -/
theorem rclWait_cases (regular : input.Regular rcl) (strategy : Strategy) (waitSet : ω) :
    strategy.rclWait rcl input waitSet =
        .ok (strategy.removeNullHandles input.outcome
          (input.outcome.wait (rcl.slots waitSet))) ∨
      ∃ ret what, strategy.rclWait rcl input waitSet = .error (.rclError ret what) ∧
        input.Throws rcl ret what := by
  rw [rclWait, regular.waited]
  rcases waits : input.rclWait waitSet with ⟨status, after⟩
  have answers : (input.rclWait waitSet).1 = status := congrArg Prod.fst waits
  cases status with
  | other code => exact .inr ⟨_, _, rfl, .wait answers⟩
  | ok => exact .inl rfl
  | timeout => exact .inl rfl
  | waitSetEmpty => exact .inl rfl

/-- A wait fails only with an error of `rcl`. -/
theorem waitOn_cases (documented : rcl.Documented) (regular : input.Regular rcl)
    (strategy : Strategy) (guardConditions : List Nat) (waitSet : ω) :
    strategy.waitOn rcl guardConditions waitSet input =
        .ok (strategy.removeNullHandles input.outcome
          (input.outcome.wait (strategy.addHandlesToWaitSet input.outcome))) ∨
      ∃ ret what, strategy.waitOn rcl guardConditions waitSet input =
          .error (.rclError ret what) ∧ input.Throws rcl ret what := by
  rw [waitOn]
  rcases clears : rcl.clear waitSet with ⟨ret, cleared⟩
  have answers : (rcl.clear waitSet).1 = ret := congrArg Prod.fst clears
  by_cases clearOk : ret = .ok
  case neg => exact .inr ⟨ret, _, by cases ret <;> trivial, .clear answers clearOk⟩
  subst clearOk
  dsimp only
  rcases resizes : rcl.resize (strategy.waitSetSize input.waitables guardConditions) cleared
    with ⟨ret, resized⟩
  have answers : (rcl.resize (strategy.waitSetSize input.waitables guardConditions)
    cleared).1 = ret := congrArg Prod.fst resizes
  by_cases resizeOk : ret = .ok
  case neg => exact .inr ⟨ret, _, by cases ret <;> trivial, .resize answers resizeOk⟩
  subst resizeOk
  dsimp only
  rcases documented.resize resizes with ⟨size, empty⟩
  rcases exists_filled documented regular ⟨size, empty⟩ with ⟨filled, fills, slots⟩
  rw [fills, ← slots]
  exact rclWait_cases regular strategy filled

end Strategy

/-! ## The nodes -/

/-- Identity of a node. -/
abbrev NodeId := Nat

/-- `weak_nodes_` and `guard_conditions_` of the executor, and the `guard_conditions_` of
the memory strategy. -/
structure NodeLists where
  weakNodes : List NodeId := []
  guardConditions : List Nat := []
  strategyGuards : List Nat := []
  deriving DecidableEq, Repr

namespace NodeLists

/-- `PriorityMemoryStrategy::add_guard_condition`. -/
def addGuardCondition (guards : List Nat) (guardCondition : Nat) : List Nat :=
  if guardCondition ∈ guards then guards else guards ++ [guardCondition]

/-- `PriorityMemoryStrategy::remove_guard_condition`, which stops at the first match. -/
def removeGuardCondition (guards : List Nat) (guardCondition : Nat) : List Nat :=
  guards.erase guardCondition

/-- The loop over the invalid nodes, from the positions of its two iterators.  The result
is what is left of the two lists, and the guard conditions of the strategy. -/
def cleanUp (expired : NodeId → Bool) :
    List NodeId → List Nat → List Nat → Except WaitFault NodeLists
  | [], guardConditions, strategyGuards =>
      .ok { guardConditions, strategyGuards }
  | _ :: _, [], _ => .error .endIterator
  | node :: weakNodes, guardCondition :: guardConditions, strategyGuards =>
      if expired node then
        cleanUp expired weakNodes guardConditions
          (removeGuardCondition strategyGuards guardCondition)
      else
        (cleanUp expired weakNodes guardConditions strategyGuards).map fun lists =>
          { lists with
            weakNodes := node :: lists.weakNodes
            guardConditions := guardCondition :: lists.guardConditions }

/-- The loop is entered only if `collect_entities` met an invalid node. -/
def cleanUpInvalid (lists : NodeLists) (input : WaitInput ω) (hasInvalidWeakNodes : Bool) :
    Except WaitFault NodeLists :=
  if hasInvalidWeakNodes then
    cleanUp input.expired lists.weakNodes lists.guardConditions lists.strategyGuards
  else
    .ok lists

/-- `wait_for_work`, with the node lists that it leaves, also when it throws. -/
def waitForWork (lists : NodeLists) (rcl : Rcl ω) (strategy : Strategy) (waitSet : ω)
    (input : WaitInput ω) : Except WaitFault Strategy × NodeLists :=
  let collected := strategy.clearHandles.collectEntities input.canBeTakenFrom
    (lists.weakNodes.map input.lock)
  match lists.cleanUpInvalid input collected.2 with
  | .error fault => (.error fault, lists)
  | .ok lists => (collected.1.waitOn rcl lists.strategyGuards waitSet input, lists)

/-- Each node has its guard condition at the same position. -/
def Aligned (lists : NodeLists) : Prop :=
  lists.weakNodes.length = lists.guardConditions.length

/-- The nodes with their guard conditions. -/
def pairs (lists : NodeLists) : List (NodeId × Nat) :=
  lists.weakNodes.zip lists.guardConditions

/-- The nodes that a wait keeps. -/
def survivors (lists : NodeLists) (input : WaitInput ω) : List (NodeId × Nat) :=
  if (lists.weakNodes.map input.lock).any fun node => node.isNone then
    lists.pairs.filter fun pair => !input.expired pair.1
  else
    lists.pairs

/-- The guard conditions that a wait takes from the strategy. -/
def removed (lists : NodeLists) (input : WaitInput ω) : List Nat :=
  if (lists.weakNodes.map input.lock).any fun node => node.isNone then
    (lists.pairs.filter fun pair => input.expired pair.1).map Prod.snd
  else
    []

/-- A wait has cleaned the lists up. -/
structure Cleaned (before : NodeLists) (input : WaitInput ω) (after : NodeLists) : Prop where
  aligned : after.Aligned
  pairs : after.pairs = before.survivors input
  strategyGuards : after.strategyGuards = before.strategyGuards.diff (before.removed input)

/-- The two iterators reach the ends of their lists together. -/
theorem cleanUp_eq_ok (expired : NodeId → Bool) {weakNodes : List NodeId}
    {guardConditions : List Nat} (aligned : weakNodes.length = guardConditions.length)
    (strategyGuards : List Nat) :
    ∃ after, cleanUp expired weakNodes guardConditions strategyGuards = .ok after ∧
      after.Aligned ∧
      after.pairs = (weakNodes.zip guardConditions).filter (fun pair => !expired pair.1) ∧
      after.strategyGuards = strategyGuards.diff
        (((weakNodes.zip guardConditions).filter fun pair => expired pair.1).map Prod.snd) := by
  induction weakNodes generalizing guardConditions strategyGuards with
  | nil =>
      rw [List.length_nil] at aligned
      rw [List.length_eq_zero_iff.mp aligned.symm]
      exact ⟨_, rfl, rfl, rfl, rfl⟩
  | cons node weakNodes ih =>
      cases guardConditions with
      | nil => cases aligned
      | cons guardCondition guardConditions =>
          have rest := Nat.succ.inj aligned
          cases isExpired : expired node with
          | true =>
              rcases ih rest (removeGuardCondition strategyGuards guardCondition) with
                ⟨after, cleaned, stillAligned, pairsEq, guardsEq⟩
              refine ⟨after, ?_, stillAligned, ?_, ?_⟩
              · rw [cleanUp, if_pos isExpired, cleaned]
              · simpa [isExpired] using pairsEq
              · simpa [isExpired, removeGuardCondition] using guardsEq
          | false =>
              rcases ih rest strategyGuards with
                ⟨after, cleaned, stillAligned, pairsEq, guardsEq⟩
              refine ⟨{ after with
                weakNodes := node :: after.weakNodes
                guardConditions := guardCondition :: after.guardConditions }, ?_, ?_, ?_, ?_⟩
              · rw [cleanUp, if_neg (by simp [isExpired]), cleaned]
                rfl
              · exact congrArg Nat.succ stillAligned
              · simp only [NodeLists.pairs, List.zip_cons_cons] at pairsEq ⊢
                rw [List.filter_cons_of_pos (by simp [isExpired]), pairsEq]
              · rw [List.zip_cons_cons, List.filter_cons_of_neg (by simp [isExpired])]
                exact guardsEq

/-- The lists after the clean-up of a wait. -/
theorem exists_cleaned {before : NodeLists} (aligned : before.Aligned) (input : WaitInput ω) :
    ∃ after, before.cleanUpInvalid input
        ((before.weakNodes.map input.lock).any fun node => node.isNone) = .ok after ∧
      before.Cleaned input after := by
  rw [cleanUpInvalid]
  by_cases hasInvalid : (before.weakNodes.map input.lock).any (fun node => node.isNone) = true
  · rcases cleanUp_eq_ok input.expired aligned before.strategyGuards with
      ⟨after, cleaned, stillAligned, pairsEq, guardsEq⟩
    refine ⟨after, by rw [if_pos hasInvalid, cleaned], stillAligned, ?_, ?_⟩
    · rw [survivors, if_pos hasInvalid, pairsEq]
      rfl
    · rw [removed, if_pos hasInvalid, guardsEq]
      rfl
  · refine ⟨before, if_neg hasInvalid, aligned, ?_, ?_⟩
    · rw [survivors, if_neg hasInvalid]
    · rw [removed, if_neg hasInvalid, List.diff_nil]

/-- A wait on aligned lists cleans them up, whatever `rcl` answers. -/
theorem waitForWork_cleaned {before : NodeLists} (aligned : before.Aligned) (rcl : Rcl ω)
    (strategy : Strategy) (waitSet : ω) (input : WaitInput ω) :
    before.Cleaned input (before.waitForWork rcl strategy waitSet input).2 := by
  rcases exists_cleaned aligned input with ⟨after, cleanedUp, cleaned⟩
  have leaves : (before.waitForWork rcl strategy waitSet input).2 = after := by
    rw [waitForWork, Strategy.collectEntities]
    dsimp only
    rw [cleanedUp]
  rwa [leaves]

/-- It fails only with an error of `rcl`, and the rounds see of it otherwise what
`Strategy.waitForWork` says. -/
theorem waitForWork_cases {before : NodeLists} (aligned : before.Aligned) {rcl : Rcl ω}
    (documented : rcl.Documented) {input : WaitInput ω} (regular : input.Regular rcl)
    (strategy : Strategy) (waitSet : ω) :
    (before.waitForWork rcl strategy waitSet input).1 =
        .ok (strategy.waitForWork input.canBeTakenFrom (before.weakNodes.map input.lock)
          input.outcome) ∨
      ∃ ret what, (before.waitForWork rcl strategy waitSet input).1 =
          .error (.rclError ret what) ∧ input.Throws rcl ret what := by
  rcases exists_cleaned aligned input with ⟨after, cleanedUp, _⟩
  let collected := strategy.clearHandles.collectEntities input.canBeTakenFrom
    (before.weakNodes.map input.lock)
  have answers : (before.waitForWork rcl strategy waitSet input).1 =
      collected.1.waitOn rcl after.strategyGuards waitSet input := by
    rw [waitForWork, Strategy.collectEntities]
    dsimp only
    rw [cleanedUp]
    rfl
  rw [answers]
  exact collected.1.waitOn_cases documented regular after.strategyGuards waitSet

/-! ## Over a run -/

/-- What happens to the lists: `rclcpp` adds a node, or the executor waits. -/
inductive Event (ω : Type) where
  | addNode (node : NodeId) (guardCondition : Nat)
  | wait (strategy : Strategy) (waitSet : ω) (input : WaitInput ω)

/-- What is documented of `Executor::add_node`: it appends to both lists and hands the
guard condition of the node to the strategy. -/
structure AddsNode (addNode : NodeLists → NodeId → Nat → NodeLists) : Prop where
  weakNodes : ∀ lists node guardCondition,
    (addNode lists node guardCondition).weakNodes = lists.weakNodes ++ [node]
  guardConditions : ∀ lists node guardCondition,
    (addNode lists node guardCondition).guardConditions =
      lists.guardConditions ++ [guardCondition]
  strategyGuards : ∀ lists node guardCondition,
    (addNode lists node guardCondition).strategyGuards =
      addGuardCondition lists.strategyGuards guardCondition

inductive Step (rcl : Rcl ω) (addNode : NodeLists → NodeId → Nat → NodeLists)
    (before : NodeLists) : Event ω → NodeLists → Prop where
  | addNode {node : NodeId} {guardCondition : Nat} :
      Step rcl addNode before (.addNode node guardCondition)
        (addNode before node guardCondition)
  | wait {strategy : Strategy} {waitSet : ω} {input : WaitInput ω} :
      Step rcl addNode before (.wait strategy waitSet input)
        (before.waitForWork rcl strategy waitSet input).2

theorem Aligned.step {rcl : Rcl ω} {addNode : NodeLists → NodeId → Nat → NodeLists}
    (addsNode : AddsNode addNode) {before after : NodeLists} {event : Event ω}
    (aligned : before.Aligned) (step : before.Step rcl addNode event after) :
    after.Aligned := by
  cases step with
  | addNode =>
      rw [Aligned, addsNode.weakNodes, addsNode.guardConditions, List.length_append,
        List.length_append]
      exact congrArg Nat.succ aligned
  | wait => exact (waitForWork_cleaned aligned rcl _ _ _).aligned

/-- In every state that waits and added nodes can reach, whichever nodes have expired and
whatever `rcl` has answered, no iterator of a further wait leaves its list and the wait set
has a slot for whatever is added: the wait leaves the strategy as `Strategy.waitForWork`
does, or it throws an error that `rcl_wait_set_clear`, `rcl_wait_set_resize` or `rcl_wait`
reports.  The nodes that it keeps stay in order with their guard conditions. -/
theorem waits_succeed {rcl : Rcl ω} (documented : rcl.Documented)
    {addNode : NodeLists → NodeId → Nat → NodeLists} (addsNode : AddsNode addNode)
    {start state : NodeLists} {events : List (Event ω)} (aligned : start.Aligned)
    (run : Steps (Step rcl addNode) start events state) (strategy : Strategy) (waitSet : ω)
    {input : WaitInput ω} (regular : input.Regular rcl) :
    ∃ result after, state.waitForWork rcl strategy waitSet input = (result, after) ∧
      (result = .ok (strategy.waitForWork input.canBeTakenFrom
          (state.weakNodes.map input.lock) input.outcome) ∨
        ∃ ret what, result = .error (.rclError ret what) ∧ input.Throws rcl ret what) ∧
      after.Aligned ∧ after.pairs = state.survivors input := by
  have reached := run.invariant Aligned aligned (Aligned.step addsNode)
  have cleaned := waitForWork_cleaned reached rcl strategy waitSet input
  exact ⟨_, _, rfl, waitForWork_cases reached documented regular strategy waitSet,
    cleaned.aligned, cleaned.pairs⟩

/-- The sizes and slots in use of a wait set. -/
structure Slots where
  size : SlotKind → Nat
  filled : SlotKind → List (Option Nat)

def slotsRcl : Rcl Slots where
  size := Slots.size
  filled := Slots.filled
  clear slots := (.ok, { slots with filled := fun _ => [] })
  resize size _ := (.ok, { size, filled := fun _ => [] })
  add kind address slots :=
    if (slots.filled kind).length < slots.size kind then
      (.ok, { slots with
        filled := Function.update slots.filled kind (slots.filled kind ++ [some address]) })
    else
      (.other 902, slots)

theorem slotsRcl_documented : slotsRcl.Documented where
  resize := by
    intro numbers before after resized
    cases resized
    exact ⟨rfl, rfl⟩
  add := by
    intro kind waitSet address free
    exact ⟨_, if_pos free, rfl, rfl⟩

/-- A waitable with one timer, which has the address of the waitable. -/
def oneTimer (handle : Handle) : Waitable Slots where
  numberOfReady kind := if kind = .timer then 1 else 0
  addToWaitSet slots :=
    match slotsRcl.add .timer handle slots with
    | (.ok, slots) => (true, slots)
    | (_, slots) => (false, slots)

theorem oneTimer_added {handle : Handle} {before : Slots}
    (free : (before.filled .timer).length < before.size .timer) :
    (oneTimer handle).addToWaitSet before = (true, { before with
      filled := Function.update before.filled .timer
        (before.filled .timer ++ [some handle]) }) := by
  simp only [oneTimer, slotsRcl, if_pos free]

theorem oneTimer_keepsWord (handle : Handle) : (oneTimer handle).KeepsWord slotsRcl := by
  intro waitSet room
  have free : (waitSet.filled .timer).length < waitSet.size .timer := room .timer
  refine ⟨_, oneTimer_added free, rfl, ?_⟩
  intro kind
  cases kind <;> simp [slotsRcl, oneTimer]

/-- Three nodes, the second of which is gone, and a wait that finds the timer 5 ready. -/
def secondExpired : WaitInput Slots where
  canBeTakenFrom := fun _ => true
  lock
    | 1 => some { callbackGroups := [some { id := 0, timers := [5, 6], waitables := [8] }] }
    | 3 => some { callbackGroups := [some { id := 1, timers := [4] }] }
    | _ => none
  expired := fun node => node == 2
  waitables := oneTimer
  rclWait slots :=
    (.ok, { slots with
      filled := fun kind => (slots.filled kind).map fun slot => slot.filter (· == 5) })
  outcome :=
    { addToWaitSet := fun handle waitSet =>
        { waitSet with timers := waitSet.timers ++ [some handle] }
      wait := fun waitSet =>
        { subscriptions := waitSet.subscriptions.map fun slot => slot.filter (· == 5)
          services := waitSet.services.map fun slot => slot.filter (· == 5)
          clients := waitSet.clients.map fun slot => slot.filter (· == 5)
          timers := waitSet.timers.map fun slot => slot.filter (· == 5) }
      isReady := fun handle waitSet => decide (some handle ∈ waitSet.timers) }

theorem secondExpired_regular : secondExpired.Regular slotsRcl where
  keepWord := oneTimer_keepsWord
  added := by
    intro handle before after added
    by_cases free : (before.filled .timer).length < before.size .timer
    · change (oneTimer handle).addToWaitSet before = _ at added
      rw [oneTimer_added free] at added
      cases added
      rfl
    · simp [secondExpired, oneTimer, slotsRcl, free] at added
  waited := fun _ => rfl

theorem secondExpired_not_throws {ret : RclRet} {what : String} :
    ¬secondExpired.Throws slotsRcl ret what := by
  intro throws
  cases throws with
  | clear answers notOk => exact notOk answers.symm
  | resize answers notOk => exact notOk answers.symm
  | wait answers => cases answers

/-- `Executor::add_node` on the lists. -/
def appendNode (lists : NodeLists) (node : NodeId) (guardCondition : Nat) : NodeLists where
  weakNodes := lists.weakNodes ++ [node]
  guardConditions := lists.guardConditions ++ [guardCondition]
  strategyGuards := addGuardCondition lists.strategyGuards guardCondition

theorem appendNode_addsNode : AddsNode appendNode :=
  ⟨fun _ _ _ => rfl, fun _ _ _ => rfl, fun _ _ _ => rfl⟩

/-- The node that is gone is dropped, and of four timers, one of them that of a waitable,
the wait leaves the handle of the one that is ready. -/
theorem waits_succeed_secondExpired :
    ∃ result after,
      (((({} : NodeLists).appendNode 1 10).appendNode 2 20).appendNode 3 30).waitForWork
          slotsRcl {} ⟨fun _ => 0, fun _ => []⟩ secondExpired = (.ok result, after) ∧
        result.timerHandles = [5] ∧ result.waitableHandles = [] ∧
        after.Aligned ∧ after.pairs = [(1, 10), (3, 30)] := by
  have aligned : ({} : NodeLists).Aligned := rfl
  have run : Steps (Step slotsRcl appendNode) {}
      [.addNode 1 10, .addNode 2 20, .addNode 3 30]
      (((({} : NodeLists).appendNode 1 10).appendNode 2 20).appendNode 3 30) :=
    .snoc (.snoc (.snoc .nil .addNode) .addNode) .addNode
  rcases waits_succeed slotsRcl_documented appendNode_addsNode aligned run {}
    ⟨fun _ => 0, fun _ => []⟩ secondExpired_regular with
    ⟨result, after, waits, computed | ⟨ret, what, _, throws⟩, stillAligned, pairs⟩
  · subst computed
    exact ⟨_, after, waits, by decide, by decide, stillAligned, pairs⟩
  · exact (secondExpired_not_throws throws).elim

/-! ### What the strategy waits on -/

theorem Aligned.map_pairs {lists : NodeLists} (aligned : lists.Aligned) :
    lists.pairs.map Prod.snd = lists.guardConditions :=
  List.map_snd_zip aligned.symm.le

/-- With an address for each, the guard conditions of a clean-up are either removed or
kept. -/
theorem mem_removed_iff {lists : NodeLists} (aligned : lists.Aligned)
    (distinct : lists.guardConditions.Nodup) (input : WaitInput ω) (guardCondition : Nat) :
    guardCondition ∈ lists.removed input ↔
      guardCondition ∈ lists.guardConditions ∧
        guardCondition ∉ (lists.survivors input).map Prod.snd := by
  rw [← aligned.map_pairs] at distinct ⊢
  rw [removed, survivors]
  split
  case isFalse => simp
  constructor
  · intro member
    rcases List.mem_map.mp member with ⟨pair, filtered, rfl⟩
    rcases List.mem_filter.mp filtered with ⟨listed, isExpired⟩
    refine ⟨List.mem_map_of_mem listed, ?_⟩
    intro kept
    rcases List.mem_map.mp kept with ⟨other, otherFiltered, same⟩
    rcases List.mem_filter.mp otherFiltered with ⟨otherListed, notExpired⟩
    have equal := List.inj_on_of_nodup_map distinct otherListed listed same
    rw [equal, isExpired] at notExpired
    cases notExpired
  · rintro ⟨member, notKept⟩
    rcases List.mem_map.mp member with ⟨pair, listed, rfl⟩
    apply List.mem_map_of_mem
    refine List.mem_filter.mpr ⟨listed, ?_⟩
    by_contra notExpired
    exact notKept (List.mem_map_of_mem (List.mem_filter.mpr ⟨listed, by simpa using notExpired⟩))

/-- The strategy waits on the guard conditions `base` and on those of the nodes, each of
which has its own. -/
structure WaitsOn (base : List Nat) (lists : NodeLists) : Prop where
  aligned : lists.Aligned
  distinct : lists.guardConditions.Nodup
  apart : ∀ guardCondition ∈ lists.guardConditions, guardCondition ∉ base
  once : lists.strategyGuards.Nodup
  exactly : ∀ guardCondition, guardCondition ∈ lists.strategyGuards ↔
    guardCondition ∈ base ∨ guardCondition ∈ lists.guardConditions

/-- A step in which an added node has a guard condition of its own: it is neither among
`base` nor that of a listed node. -/
def FreshStep (rcl : Rcl ω) (addNode : NodeLists → NodeId → Nat → NodeLists)
    (base : List Nat) (before : NodeLists) (event : Event ω) (after : NodeLists) : Prop :=
  before.Step rcl addNode event after ∧
    match event with
    | .addNode _ guardCondition =>
        guardCondition ∉ base ∧ guardCondition ∉ before.guardConditions
    | .wait _ _ _ => True

/-- What adding a node leaves behind. -/
theorem WaitsOn.added {base : List Nat} {before after : NodeLists} {guardCondition : Nat}
    (held : before.WaitsOn base) (aligned : after.Aligned)
    (guardConditions : after.guardConditions = before.guardConditions ++ [guardCondition])
    (strategyGuards : after.strategyGuards =
      addGuardCondition before.strategyGuards guardCondition)
    (notBase : guardCondition ∉ base) (fresh : guardCondition ∉ before.guardConditions) :
    after.WaitsOn base := by
  have absent : guardCondition ∉ before.strategyGuards := by
    rw [held.exactly]
    exact not_or.mpr ⟨notBase, fresh⟩
  have appended : after.strategyGuards = before.strategyGuards ++ [guardCondition] :=
    strategyGuards.trans (if_neg absent)
  refine ⟨aligned, ?_, ?_, ?_, ?_⟩
  · rw [guardConditions, ← List.concat_eq_append]
    exact List.Nodup.concat fresh held.distinct
  · intro other member
    rw [guardConditions] at member
    rcases List.mem_append.mp member with old | isNew
    · exact held.apart other old
    · rw [List.mem_singleton.mp isNew]
      exact notBase
  · rw [appended, ← List.concat_eq_append]
    exact List.Nodup.concat absent held.once
  · intro other
    rw [appended, guardConditions, List.mem_append, held.exactly, or_assoc]
    exact or_congr_right List.mem_append.symm

theorem WaitsOn.cleaned {base : List Nat} {before after : NodeLists} {input : WaitInput ω}
    (held : before.WaitsOn base) (cleaned : before.Cleaned input after) :
    after.WaitsOn base := by
  have kept : after.guardConditions = (before.survivors input).map Prod.snd := by
    rw [← cleaned.aligned.map_pairs, cleaned.pairs]
  have fewer : after.guardConditions.Sublist before.guardConditions := by
    rw [kept, ← held.aligned.map_pairs, survivors]
    split
    next => exact List.filter_sublist.map Prod.snd
    next => exact List.Sublist.refl _
  refine ⟨cleaned.aligned, held.distinct.sublist fewer, ?_, ?_, ?_⟩
  · exact fun guardCondition member => held.apart guardCondition (fewer.subset member)
  · rw [cleaned.strategyGuards]
    exact List.Nodup.diff held.once
  · intro guardCondition
    rw [cleaned.strategyGuards, List.Nodup.mem_sdiff_iff held.once, held.exactly,
      mem_removed_iff held.aligned held.distinct, ← kept]
    constructor
    · rintro ⟨inBase | listed, notRemoved⟩
      · exact .inl inBase
      · exact .inr (not_not.mp fun dropped => notRemoved ⟨listed, dropped⟩)
    · rintro (inBase | stays)
      · exact ⟨.inl inBase, fun dropped => held.apart _ dropped.1 inBase⟩
      · exact ⟨.inr (fewer.subset stays), fun dropped => dropped.2 stays⟩

theorem WaitsOn.step {rcl : Rcl ω} {addNode : NodeLists → NodeId → Nat → NodeLists}
    (addsNode : AddsNode addNode) {base : List Nat} {before after : NodeLists}
    {event : Event ω} (held : before.WaitsOn base)
    (step : before.FreshStep rcl addNode base event after) : after.WaitsOn base := by
  rcases step with ⟨step, fresh⟩
  have aligned := held.aligned.step addsNode step
  cases step with
  | addNode =>
      exact held.added aligned (addsNode.guardConditions ..) (addsNode.strategyGuards ..)
        fresh.1 fresh.2
  | wait => exact held.cleaned (waitForWork_cleaned held.aligned rcl _ _ _)

/-- As long as an added node never has the guard condition of a listed one, nor one of
those the strategy began with, the strategy waits, in every state that is reached, on the
guard conditions it began with and on those of the listed nodes, on each once, and on no
others. -/
theorem waits_on_listed_nodes {rcl : Rcl ω}
    {addNode : NodeLists → NodeId → Nat → NodeLists} (addsNode : AddsNode addNode)
    {base : List Nat} {start state : NodeLists} {events : List (Event ω)}
    (held : start.WaitsOn base) (run : Steps (FreshStep rcl addNode base) start events state) :
    state.strategyGuards.Nodup ∧
      ∀ guardCondition, guardCondition ∈ state.strategyGuards ↔
        guardCondition ∈ base ∨
          ∃ node, (node, guardCondition) ∈ state.pairs := by
  have reached := run.invariant (WaitsOn base) held (WaitsOn.step addsNode)
  refine ⟨reached.once, ?_⟩
  intro guardCondition
  rw [reached.exactly, ← reached.aligned.map_pairs]
  simp

/-- The executor's own guard condition, three nodes, a wait that drops the second, and a
node that comes in at the address that has become free. -/
theorem waits_on_listed_nodes_secondExpired :
    ∃ state : NodeLists, state.pairs = [(1, 10), (3, 30), (9, 20)] ∧
      state.strategyGuards.Nodup ∧
      ∀ guardCondition, guardCondition ∈ state.strategyGuards ↔
        guardCondition ∈ [7] ∨ ∃ node, (node, guardCondition) ∈ state.pairs := by
  have held : WaitsOn [7] { strategyGuards := [7] } :=
    ⟨rfl, .nil, by simp, by simp, by simp⟩
  let waitSet : Slots := ⟨fun _ => 0, fun _ => []⟩
  have run : Steps (FreshStep slotsRcl appendNode [7]) { strategyGuards := [7] }
      [.addNode 1 10, .addNode 2 20, .addNode 3 30, .wait {} waitSet secondExpired,
        .addNode 9 20] _ :=
    .snoc (.snoc (.snoc (.snoc (.snoc .nil ⟨.addNode, by decide⟩) ⟨.addNode, by decide⟩)
      ⟨.addNode, by decide⟩) ⟨.wait, trivial⟩) ⟨.addNode, by decide⟩
  exact ⟨_, by decide, waits_on_listed_nodes appendNode_addsNode held run⟩

end NodeLists

end PriorityExecutor
