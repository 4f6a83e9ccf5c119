import Mathlib.Data.List.Forall2
import Mathlib.Data.List.Nodup
import PriorityExecutor.Strategy.Collect

/-!
# Eligibility and readiness

Four functions of a round must agree on positions: `collect_entities` fills five handle
lists, `add_handles_to_wait_set` copies them to the slots of the wait set, the wait nulls
slots, and `remove_null_handles` reads the slots back by position.  What they agree on
is stated over the entities that the round visits, as one list in the order of the
nested loops.

Subscriptions and services count as collected only when they are registered; the other
kinds always do.
-/

namespace PriorityExecutor

/-- An entity as the nested loops visit it: its kind and its handle. -/
abbrev Entity := ExecutableType × Handle

/-- The entities of a group in the order of the five `find_*_ptrs_if` calls. -/
def CallbackGroup.entities (group : CallbackGroup) : List Entity :=
  group.subscriptions.map (Prod.mk .subscription) ++
    (group.services.map (Prod.mk .service) ++
      (group.clients.map (Prod.mk .client) ++
        (group.timers.map (Prod.mk .timer) ++ group.waitables.map (Prod.mk .waitable))))

/-- The entities of a live group that can be taken from. -/
def groupEntities (canBeTakenFrom : GroupId → Bool) : Option CallbackGroup → List Entity
  | none => []
  | some group => if canBeTakenFrom group.id then group.entities else []

/-- The entities that a round visits. -/
def visitedEntities (canBeTakenFrom : GroupId → Bool) (weakNodes : WeakNodeList) :
    List Entity :=
  weakNodes.flatMap fun node =>
    match node with
    | none => []
    | some node => node.callbackGroups.flatMap (groupEntities canBeTakenFrom)

/-- The handles of one kind, in order. -/
def ofKind (type : ExecutableType) (entities : List Entity) : List Handle :=
  (entities.filter fun entity => entity.1 = type).map Prod.snd

/-- The slots of one kind.  Waitables have none of their own. -/
def WaitSet.slots (waitSet : WaitSet) : ExecutableType → List (Option Handle)
  | .subscription => waitSet.subscriptions
  | .service => waitSet.services
  | .client => waitSet.clients
  | .timer => waitSet.timers
  | .waitable => []

namespace Strategy

/-- The handle list of one kind. -/
def handles (strategy : Strategy) : ExecutableType → List Handle
  | .subscription => strategy.subscriptionHandles
  | .service => strategy.serviceHandles
  | .client => strategy.clientHandles
  | .timer => strategy.timerHandles
  | .waitable => strategy.waitableHandles

/-- An unregistered subscription or service is skipped. -/
def collects (strategy : Strategy) (entity : Entity) : Bool :=
  match entity.1 with
  | .subscription | .service => (strategy.priorityMap entity.2).isSome
  | .client | .timer | .waitable => true

/-- The entities that a round collects. -/
def collected (strategy : Strategy) (canBeTakenFrom : GroupId → Bool)
    (weakNodes : WeakNodeList) : List Entity :=
  (visitedEntities canBeTakenFrom weakNodes).filter strategy.collects

/-- The lambda of `collect_entities` for the kind of an entity. -/
def collectEntity (strategy : Strategy) (entity : Entity) : Strategy :=
  match entity.1 with
  | .subscription => strategy.collectSubscription entity.2
  | .service => strategy.collectService entity.2
  | .client => strategy.collectClient entity.2
  | .timer => strategy.collectTimer entity.2
  | .waitable => strategy.collectWaitable entity.2

end Strategy

/-! ## The nested loops visit one list -/

namespace Strategy

theorem collectGroup_eq_foldl (canBeTakenFrom : GroupId → Bool) (strategy : Strategy)
    (group : Option CallbackGroup) :
    collectGroup canBeTakenFrom strategy group =
      (groupEntities canBeTakenFrom group).foldl collectEntity strategy := by
  cases group with
  | none => rfl
  | some group =>
      simp only [collectGroup, groupEntities]
      split
      · simp only [CallbackGroup.entities, List.foldl_append, List.foldl_map]
        rfl
      · rfl

theorem collectEntities_eq_foldl (strategy : Strategy) (canBeTakenFrom : GroupId → Bool)
    (weakNodes : WeakNodeList) :
    (strategy.collectEntities canBeTakenFrom weakNodes).1 =
      (visitedEntities canBeTakenFrom weakNodes).foldl collectEntity strategy := by
  simp only [collectEntities, visitedEntities, List.foldl_flatMap]
  congr 1
  funext strategy node
  cases node with
  | none => rfl
  | some node =>
      rw [List.foldl_flatMap]
      simp only [collectNode]
      congr 1
      funext strategy group
      exact collectGroup_eq_foldl canBeTakenFrom strategy group

/-! ## What collecting leaves behind -/

/-- `after` has collected `entities`, one after the other, since it was `start`. -/
structure Collected (start : Strategy) (entities : List Entity) (after : Strategy) :
    Prop where
  handles : ∀ type, after.handles type = ofKind type entities
  queue : after.allExecutables.Perm (entities.map Prod.snd)
  frame : ∀ handle, handle ∉ entities.map Prod.snd →
    after.priorityMap handle = start.priorityMap handle

@[simp] theorem pushExecutable_handles (strategy : Strategy) (handle : Handle)
    (pushed type : ExecutableType) :
    (strategy.pushExecutable handle pushed).handles type = strategy.handles type := by
  unfold pushExecutable getAndResetPriority
  split <;> cases type <;> rfl

theorem pushExecutable_queue (strategy : Strategy) (handle : Handle)
    (pushed : ExecutableType) :
    (strategy.pushExecutable handle pushed).allExecutables.Perm
      (handle :: strategy.allExecutables) := by
  have same : (strategy.getAndResetPriority handle pushed).allExecutables =
      strategy.allExecutables := by
    unfold getAndResetPriority
    split <;> rfl
  have grown := StdHeap.push_perm
    (compareHandles (strategy.getAndResetPriority handle pushed))
    (strategy.getAndResetPriority handle pushed).allExecutables handle
  rw [same] at grown
  exact same ▸ grown

theorem pushExecutable_frame (strategy : Strategy) {handle other : Handle}
    (pushed : ExecutableType) (different : other ≠ handle) :
    (strategy.pushExecutable handle pushed).priorityMap other =
      strategy.priorityMap other := by
  unfold pushExecutable getAndResetPriority
  split
  · exact strategy.assign_of_ne _ different
  · rfl

/-- Collecting an entity appends it to the list of its kind and to the queue, and
touches no other entry. -/
theorem collectEntity_step {strategy : Strategy} {entity : Entity}
    (collects : strategy.collects entity = true) :
    (∀ type, (strategy.collectEntity entity).handles type =
        strategy.handles type ++ ofKind type [entity]) ∧
      (strategy.collectEntity entity).allExecutables.Perm
        (entity.2 :: strategy.allExecutables) ∧
      ∀ other, other ≠ entity.2 →
        (strategy.collectEntity entity).priorityMap other = strategy.priorityMap other := by
  obtain ⟨kind, handle⟩ := entity
  have queue := fun pushed => strategy.pushExecutable_queue handle pushed
  cases kind with
  | subscription =>
      obtain ⟨settings, found⟩ := Option.isSome_iff_exists.mp collects
      have unfolded : strategy.collectEntity (.subscription, handle) =
          { strategy with
            subscriptionHandles := strategy.subscriptionHandles ++ [handle] }.pushExecutable
              handle .subscription := by
        simp only [collectEntity, collectSubscription, getPrioritySettings, found]
      rw [unfolded]
      refine ⟨fun type => ?_, pushExecutable_queue _ _ _, fun _ => pushExecutable_frame _ _⟩
      rw [pushExecutable_handles]
      cases type <;> simp [handles, ofKind]
  | service =>
      obtain ⟨settings, found⟩ := Option.isSome_iff_exists.mp collects
      have unfolded : strategy.collectEntity (.service, handle) =
          { strategy.pushExecutable handle .service with
            serviceHandles :=
              (strategy.pushExecutable handle .service).serviceHandles ++ [handle] } := by
        simp only [collectEntity, collectService, getPrioritySettings, found]
      rw [unfolded]
      refine ⟨fun type => ?_, queue _, fun other => strategy.pushExecutable_frame _⟩
      have pushed := strategy.pushExecutable_handles handle .service type
      cases type <;> simpa [handles, ofKind] using pushed
  | client =>
      refine ⟨fun type => ?_, queue _, fun other => strategy.pushExecutable_frame _⟩
      have pushed := strategy.pushExecutable_handles handle .client type
      cases type <;> simpa [collectEntity, collectClient, handles, ofKind] using pushed
  | timer =>
      refine ⟨fun type => ?_, queue _, fun other => strategy.pushExecutable_frame _⟩
      have pushed := strategy.pushExecutable_handles handle .timer type
      cases type <;> simpa [collectEntity, collectTimer, handles, ofKind] using pushed
  | waitable =>
      refine ⟨fun type => ?_, queue _, fun other => strategy.pushExecutable_frame _⟩
      have pushed := strategy.pushExecutable_handles handle .waitable type
      cases type <;> simpa [collectEntity, collectWaitable, handles, ofKind] using pushed

theorem collectEntity_of_skipped {strategy : Strategy} {entity : Entity}
    (skipped : strategy.collects entity = false) :
    strategy.collectEntity entity = strategy := by
  obtain ⟨kind, handle⟩ := entity
  cases kind with
  | subscription =>
      have absent : strategy.priorityMap handle = none := by
        simpa [collects] using skipped
      simp only [collectEntity, collectSubscription, getPrioritySettings, absent]
  | service =>
      have absent : strategy.priorityMap handle = none := by
        simpa [collects] using skipped
      simp only [collectEntity, collectService, getPrioritySettings, absent]
  | client => cases skipped
  | timer => cases skipped
  | waitable => cases skipped

theorem ofKind_append (type : ExecutableType) (left right : List Entity) :
    ofKind type (left ++ right) = ofKind type left ++ ofKind type right := by
  simp [ofKind]

/-- Collecting distinct entities, none of which was collected before, collects those
that are registered or need no registration. -/
theorem Collected.foldl {start current : Strategy} {done entities : List Entity}
    (collected : Collected start done current)
    (distinct : ((done ++ entities).map Prod.snd).Nodup) :
    Collected start (done ++ entities.filter start.collects)
      (entities.foldl collectEntity current) := by
  induction entities generalizing done current with
  | nil => simpa using collected
  | cons entity entities ih =>
      have fresh : entity.2 ∉ done.map Prod.snd := by
        intro seen
        rw [List.map_append, List.nodup_append] at distinct
        exact distinct.2.2 _ seen _ (by simp) rfl
      -- no earlier entity has registered this handle
      have sameEntry : current.collects entity = start.collects entity := by
        unfold collects
        rw [collected.frame _ fresh]
      rw [List.foldl_cons]
      cases collects : start.collects entity with
      | false =>
          rw [collectEntity_of_skipped (sameEntry.trans collects),
            List.filter_cons_of_neg (by simp [collects])]
          refine ih collected (distinct.sublist ?_)
          exact ((List.sublist_cons_self entity entities).append_left done).map _
      | true =>
          obtain ⟨handles, queue, frame⟩ := collectEntity_step (sameEntry.trans collects)
          rw [List.filter_cons_of_pos collects, ← List.singleton_append, ← List.append_assoc]
          refine ih ⟨?_, ?_, ?_⟩ (by rwa [List.append_assoc, List.singleton_append])
          · intro type
            rw [handles, collected.handles, ofKind_append]
          · refine queue.trans ((collected.queue.cons _).trans ?_)
            rw [List.map_append, List.map_singleton]
            exact (List.perm_append_singleton _ _).symm
          · intro other outside
            rw [List.map_append, List.mem_append, not_or] at outside
            rw [frame other (by simpa using outside.2), collected.frame other outside.1]

theorem clearHandles_collected (strategy : Strategy) :
    Collected strategy [] strategy.clearHandles where
  handles type := by cases type <;> rfl
  queue := .refl []
  frame _ _ := rfl

/-- What `collect_entities` leaves behind in a round. -/
theorem collectEntities_collected (strategy : Strategy) (canBeTakenFrom : GroupId → Bool)
    (weakNodes : WeakNodeList)
    (distinct : ((visitedEntities canBeTakenFrom weakNodes).map Prod.snd).Nodup) :
    Collected strategy (strategy.collected canBeTakenFrom weakNodes)
      (strategy.clearHandles.collectEntities canBeTakenFrom weakNodes).1 := by
  rw [collectEntities_eq_foldl]
  exact strategy.clearHandles_collected.foldl distinct

theorem mem_ofKind {type : ExecutableType} {entities : List Entity} {handle : Handle} :
    handle ∈ ofKind type entities ↔ (type, handle) ∈ entities := by
  simp [ofKind]

theorem ofKind_nodup (type : ExecutableType) {entities : List Entity}
    (distinct : (entities.map Prod.snd).Nodup) : (ofKind type entities).Nodup :=
  distinct.sublist (List.filter_sublist.map _)

/-- A handle has one kind. -/
theorem kind_unique {entities : List Entity} (distinct : (entities.map Prod.snd).Nodup)
    {left right : ExecutableType} {handle : Handle}
    (inLeft : handle ∈ ofKind left entities) (inRight : handle ∈ ofKind right entities) :
    left = right := by
  rw [mem_ofKind] at inLeft inRight
  exact congrArg Prod.fst (List.inj_on_of_nodup_map distinct inLeft inRight rfl)

end Strategy

/-! ## Reading the slots back -/

/-- Whether a loop of `remove_null_handles` finds an entity ready, by its position among
the entities of its kind. -/
def WaitOutcome.ready (outcome : WaitOutcome) (waitSet : WaitSet) :
    ExecutableType → Nat → Handle → Bool
  | .waitable => fun _ handle => outcome.isReady handle waitSet
  | type => Strategy.slotReady (waitSet.slots type)

namespace Strategy

theorem markReady_cons (ready : Nat → Handle → Bool) (strategy : Strategy)
    (head : Handle) (tail : List Handle) :
    markReady ready strategy (head :: tail) =
      markReady (fun index => ready (index + 1))
        (strategy.assign head
          (if ready 0 head then (strategy.atKey head).allowRun
            else (strategy.atKey head).dontRun)) tail := by
  unfold markReady
  rw [List.zipIdx_cons, List.foldl_cons, List.zipIdx_succ, List.foldl_map]

theorem markReady_frame (ready : Nat → Handle → Bool) {handles : List Handle}
    {handle : Handle} (outside : handle ∉ handles) (strategy : Strategy) :
    (markReady ready strategy handles).priorityMap handle = strategy.priorityMap handle := by
  induction handles generalizing ready strategy with
  | nil => rfl
  | cons head tail ih =>
      rw [List.mem_cons, not_or] at outside
      rw [markReady_cons, ih _ outside.2, strategy.assign_of_ne _ outside.1]

/-- The flag of a handle is the answer for its position. -/
theorem canBeRun_markReady {ready : Nat → Handle → Bool} {handles : List Handle}
    (distinct : handles.Nodup) {index : Nat} {handle : Handle}
    (position : handles[index]? = some handle) (strategy : Strategy) :
    ((markReady ready strategy handles).atKey handle).canBeRun = ready index handle := by
  induction handles generalizing ready index strategy with
  | nil => cases position
  | cons head tail ih =>
      rw [List.nodup_cons] at distinct
      rw [markReady_cons]
      cases index with
      | zero =>
          rw [List.getElem?_cons_zero, Option.some.injEq] at position
          subst position
          rw [atKey, markReady_frame _ distinct.1, ← atKey, atKey_assign_self]
          split
          next isReady => exact isReady.symm
          next notReady => exact (Bool.eq_false_of_not_eq_true notReady).symm
      | succ index =>
          rw [List.getElem?_cons_succ] at position
          exact ih distinct.2 position _

/-- The loops of `remove_null_handles` for a list of kinds. -/
def markKinds (outcome : WaitOutcome) (waitSet : WaitSet) (start : Strategy)
    (types : List ExecutableType) (strategy : Strategy) : Strategy :=
  types.foldl (fun strategy type =>
    markReady (outcome.ready waitSet type) strategy (start.handles type)) strategy

theorem removeNullHandles_priorityMap (strategy : Strategy) (outcome : WaitOutcome)
    (waitSet : WaitSet) :
    (strategy.removeNullHandles outcome waitSet).priorityMap =
      (markKinds outcome waitSet strategy
        [.subscription, .service, .client, .timer, .waitable] strategy).priorityMap := rfl

theorem markReady_queue (ready : Nat → Handle → Bool) (handles : List Handle)
    (strategy : Strategy) :
    (markReady ready strategy handles).allExecutables = strategy.allExecutables := by
  induction handles generalizing ready strategy with
  | nil => rfl
  | cons head tail ih =>
      rw [markReady_cons, ih]
      rfl

theorem removeNullHandles_queue (strategy : Strategy) (outcome : WaitOutcome)
    (waitSet : WaitSet) :
    (strategy.removeNullHandles outcome waitSet).allExecutables =
      strategy.allExecutables := by
  simp only [removeNullHandles, markReady_queue]

theorem removeNullHandles_handles (strategy : Strategy) (outcome : WaitOutcome)
    (waitSet : WaitSet) (type : ExecutableType) :
    (strategy.removeNullHandles outcome waitSet).handles type =
      keepReady (outcome.ready waitSet type) (strategy.handles type) := by
  cases type <;> rfl

theorem markKinds_frame (outcome : WaitOutcome) (waitSet : WaitSet) (start : Strategy)
    {types : List ExecutableType} {handle : Handle}
    (outside : ∀ type ∈ types, handle ∉ start.handles type) (strategy : Strategy) :
    (markKinds outcome waitSet start types strategy).priorityMap handle =
      strategy.priorityMap handle := by
  induction types generalizing strategy with
  | nil => rfl
  | cons type types ih =>
      rw [List.forall_mem_cons] at outside
      exact (ih outside.2 _).trans (markReady_frame _ outside.1 strategy)

/-- The loop of its kind answers for a handle, and the later loops keep the flag. -/
theorem canBeRun_markKinds (outcome : WaitOutcome) (waitSet : WaitSet) {start : Strategy}
    {type : ExecutableType} {index : Nat} {handle : Handle}
    (distinct : (start.handles type).Nodup)
    (position : (start.handles type)[index]? = some handle)
    (only : ∀ other, handle ∈ start.handles other → other = type)
    {types : List ExecutableType} (once : types.Nodup) (member : type ∈ types)
    (strategy : Strategy) :
    ((markKinds outcome waitSet start types strategy).atKey handle).canBeRun =
      outcome.ready waitSet type index handle := by
  induction types generalizing strategy with
  | nil => cases member
  | cons head tail ih =>
      rw [List.nodup_cons] at once
      rcases List.mem_cons.mp member with rfl | later
      · have untouched : ∀ other ∈ tail, handle ∉ start.handles other := by
          intro other inTail inOther
          exact once.1 (only other inOther ▸ inTail)
        have kept := markKinds_frame outcome waitSet start untouched
          (markReady (outcome.ready waitSet type) strategy (start.handles type))
        have marked : ((markReady (outcome.ready waitSet type) strategy
            (start.handles type)).atKey handle).canBeRun = outcome.ready waitSet type index
              handle := canBeRun_markReady distinct position strategy
        rw [atKey, ← kept] at marked
        exact marked
      · exact ih once.2 later _

end Strategy

/-! ## Eligibility equals readiness -/

/-- What a round relies on outside this repository: a waitable only appends slots, and
the wait only nulls them. -/
structure WaitOutcome.Regular (outcome : WaitOutcome) : Prop where
  appends : ∀ handle waitSet type,
    waitSet.slots type <+: (outcome.addToWaitSet handle waitSet).slots type
  nulls : ∀ waitSet type,
    List.Forall₂ (fun before after => after = before ∨ after = none) (waitSet.slots type)
      ((outcome.wait waitSet).slots type)

/-- The wait set answers for the entity at a position among the entities of its kind:
the slot still holds its handle, or the waitable says that it is ready. -/
def WaitOutcome.Answers (outcome : WaitOutcome) (waitSet : WaitSet)
    (type : ExecutableType) (index : Nat) (handle : Handle) : Prop :=
  match type with
  | .waitable => outcome.isReady handle waitSet = true
  | type => (waitSet.slots type)[index]? = some (some handle)

instance (outcome : WaitOutcome) (waitSet : WaitSet) (type : ExecutableType) (index : Nat)
    (handle : Handle) : Decidable (outcome.Answers waitSet type index handle) := by
  unfold WaitOutcome.Answers
  cases type <;> infer_instance

namespace Strategy

/-- The wait set of a round when the wait is over. -/
def waitedSet (strategy : Strategy) (canBeTakenFrom : GroupId → Bool)
    (weakNodes : WeakNodeList) (outcome : WaitOutcome) : WaitSet :=
  outcome.wait
    ((strategy.clearHandles.collectEntities canBeTakenFrom weakNodes).1.addHandlesToWaitSet
      outcome)

/-- The handles of a kind that the wait set answers for, in collection order. -/
def answered (outcome : WaitOutcome) (waitSet : WaitSet) (type : ExecutableType)
    (handles : List Handle) : List Handle :=
  (handles.zipIdx.filter fun entry => outcome.Answers waitSet type entry.2 entry.1).map
    Prod.fst

/-- `after` is what a round that collected `entities` must leave behind. -/
structure Settled (outcome : WaitOutcome) (waitSet : WaitSet) (start : Strategy)
    (entities : List Entity) (after : Strategy) : Prop where
  once : after.allExecutables.Nodup
  queued : ∀ handle, handle ∈ after.allExecutables ↔ handle ∈ entities.map Prod.snd
  eligible : ∀ handle,
    (handle ∈ after.allExecutables ∧ (after.atKey handle).canBeRun = true) ↔
      ∃ type index, (ofKind type entities)[index]? = some handle ∧
        outcome.Answers waitSet type index handle
  handles : ∀ type,
    after.handles type = answered outcome waitSet type (ofKind type entities)
  unchanged : ∀ handle, handle ∉ entities.map Prod.snd →
    after.priorityMap handle = start.priorityMap handle

/-- The slots of the collected handles come first in the wait set. -/
theorem addHandlesToWaitSet_slots {outcome : WaitOutcome} (regular : outcome.Regular)
    (strategy : Strategy) {type : ExecutableType} (hasSlots : type ≠ .waitable) :
    (strategy.handles type).map some <+:
      (strategy.addHandlesToWaitSet outcome).slots type := by
  have appended : ∀ (waitables : List Handle) (waitSet : WaitSet),
      waitSet.slots type <+:
        (waitables.foldl (fun waitSet handle => outcome.addToWaitSet handle waitSet)
          waitSet).slots type := by
    intro waitables
    induction waitables with
    | nil => exact fun waitSet => List.prefix_refl _
    | cons handle waitables ih =>
        exact fun waitSet => (regular.appends handle waitSet type).trans (ih _)
  have filled := appended strategy.waitableHandles
    { subscriptions := strategy.subscriptionHandles.map some
      services := strategy.serviceHandles.map some
      clients := strategy.clientHandles.map some
      timers := strategy.timerHandles.map some }
  cases type with
  | waitable => exact absurd rfl hasSlots
  | subscription => exact filled
  | service => exact filled
  | client => exact filled
  | timer => exact filled

end Strategy

namespace WaitOutcome

/-- A slot that held a handle before the wait is ready when it still holds it. -/
theorem slotReady_iff {outcome : WaitOutcome} (regular : outcome.Regular)
    {waitSet : WaitSet} {type : ExecutableType} {index : Nat} {handle : Handle}
    (slot : (waitSet.slots type)[index]? = some (some handle)) :
    Strategy.slotReady ((outcome.wait waitSet).slots type) index handle = true ↔
      ((outcome.wait waitSet).slots type)[index]? = some (some handle) := by
  have sameLength := (regular.nulls waitSet type).length_eq
  have inside : index < (waitSet.slots type).length := by
    by_contra outside
    rw [List.getElem?_eq_none (by omega)] at slot
    cases slot
  have kept := (regular.nulls waitSet type).get inside (sameLength ▸ inside)
  rw [List.get_eq_getElem, List.get_eq_getElem] at kept
  rw [List.getElem?_eq_getElem inside, Option.some.injEq] at slot
  rw [Strategy.slotReady, List.getElem?_eq_getElem (sameLength ▸ inside)]
  rcases kept with same | null
  · simp [same, slot]
  · simp [null]

/-- The loop of a kind and the wait set agree on every collected handle. -/
theorem ready_iff_answers {outcome : WaitOutcome} (regular : outcome.Regular)
    (strategy : Strategy) {type : ExecutableType} {index : Nat} {handle : Handle}
    (position : (strategy.handles type)[index]? = some handle) :
    outcome.ready (outcome.wait (strategy.addHandlesToWaitSet outcome)) type index handle =
        true ↔
      outcome.Answers (outcome.wait (strategy.addHandlesToWaitSet outcome)) type index
        handle := by
  have slot : type ≠ .waitable →
      ((strategy.addHandlesToWaitSet outcome).slots type)[index]? = some (some handle) := by
    intro hasSlots
    have mapped : ((strategy.handles type).map some)[index]? = some (some handle) := by
      rw [List.getElem?_map, position]
      rfl
    obtain ⟨rest, slots⟩ := strategy.addHandlesToWaitSet_slots regular hasSlots
    obtain ⟨inside, -⟩ := List.getElem?_eq_some_iff.mp mapped
    rw [← slots, List.getElem?_append_left inside, mapped]
  cases type with
  | waitable => rfl
  | subscription => exact slotReady_iff regular (slot (by decide))
  | service => exact slotReady_iff regular (slot (by decide))
  | client => exact slotReady_iff regular (slot (by decide))
  | timer => exact slotReady_iff regular (slot (by decide))

end WaitOutcome

namespace Strategy

/-- The erase-remove idiom keeps what the wait set answers for. -/
theorem keepReady_eq_answered {outcome : WaitOutcome} {waitSet : WaitSet}
    {type : ExecutableType} {handles : List Handle}
    (agree : ∀ index handle, handles[index]? = some handle →
      (outcome.ready waitSet type index handle = true ↔
        outcome.Answers waitSet type index handle)) :
    keepReady (outcome.ready waitSet type) handles =
      answered outcome waitSet type handles := by
  unfold keepReady answered
  congr 1
  apply List.filter_congr
  intro entry member
  have answer := agree entry.2 entry.1 (List.mem_zipIdx_iff_getElem?.mp member)
  rw [Bool.eq_iff_iff, answer, decide_eq_true_iff]

section Collected

variable {outcome : WaitOutcome} {start middle : Strategy} {entities : List Entity}

/-- The loops that read the slots back agree with the wait set on what was collected. -/
theorem Collected.ready_iff (collected : Collected start entities middle)
    (regular : outcome.Regular) {type : ExecutableType} {index : Nat} {handle : Handle}
    (position : (ofKind type entities)[index]? = some handle) :
    outcome.ready (outcome.wait (middle.addHandlesToWaitSet outcome)) type index handle =
        true ↔
      outcome.Answers (outcome.wait (middle.addHandlesToWaitSet outcome)) type index
        handle := by
  rw [← collected.handles] at position
  exact WaitOutcome.ready_iff_answers regular middle position

/-- The flag of a collected handle is the answer for its position. -/
theorem Collected.canBeRun_iff (collected : Collected start entities middle)
    (regular : outcome.Regular) (distinct : (entities.map Prod.snd).Nodup)
    {type : ExecutableType} {index : Nat} {handle : Handle}
    (position : (ofKind type entities)[index]? = some handle) :
    ((middle.removeNullHandles outcome
        (outcome.wait (middle.addHandlesToWaitSet outcome))).atKey handle).canBeRun = true ↔
      outcome.Answers (outcome.wait (middle.addHandlesToWaitSet outcome)) type index
        handle := by
  have inHandles : (middle.handles type)[index]? = some handle := by
    rw [collected.handles, position]
  have only : ∀ other, handle ∈ middle.handles other → other = type := by
    intro other inOther
    rw [collected.handles] at inOther
    exact kind_unique distinct inOther (List.mem_of_getElem? position)
  have kindDistinct : (middle.handles type).Nodup := by
    rw [collected.handles]
    exact ofKind_nodup type distinct
  rw [atKey, removeNullHandles_priorityMap, ← atKey,
    canBeRun_markKinds outcome _ kindDistinct inHandles only (by decide)
      (by cases type <;> decide)]
  exact collected.ready_iff regular position

/-- What the wait and `remove_null_handles` make of a round's collection. -/
theorem Collected.settled (collected : Collected start entities middle)
    (regular : outcome.Regular) (distinct : (entities.map Prod.snd).Nodup) :
    Settled outcome (outcome.wait (middle.addHandlesToWaitSet outcome)) start entities
      (middle.removeNullHandles outcome
        (outcome.wait (middle.addHandlesToWaitSet outcome))) := by
  have queued : ∀ handle,
      handle ∈ (middle.removeNullHandles outcome
          (outcome.wait (middle.addHandlesToWaitSet outcome))).allExecutables ↔
        handle ∈ entities.map Prod.snd := by
    intro handle
    rw [removeNullHandles_queue]
    exact collected.queue.mem_iff
  constructor
  case once =>
    rw [removeNullHandles_queue]
    exact collected.queue.nodup_iff.mpr distinct
  case queued => exact queued
  case eligible =>
    intro handle
    constructor
    · rintro ⟨inQueue, mayRun⟩
      obtain ⟨⟨type, _⟩, member, rfl⟩ := List.mem_map.mp ((queued handle).mp inQueue)
      obtain ⟨index, position⟩ := List.getElem?_of_mem (mem_ofKind.mpr member)
      exact ⟨type, index, position,
        (collected.canBeRun_iff regular distinct position).mp mayRun⟩
    · rintro ⟨type, index, position, answers⟩
      have member := mem_ofKind.mp (List.mem_of_getElem? position)
      exact ⟨(queued handle).mpr (List.mem_map_of_mem member),
        (collected.canBeRun_iff regular distinct position).mpr answers⟩
  case handles =>
    intro type
    rw [removeNullHandles_handles, collected.handles]
    exact keepReady_eq_answered fun _ _ position => collected.ready_iff regular position
  case unchanged =>
    intro handle outside
    rw [removeNullHandles_priorityMap, markKinds_frame]
    · exact collected.frame handle outside
    · intro type _ inHandles
      rw [collected.handles] at inHandles
      exact outside (List.mem_map_of_mem (mem_ofKind.mp inHandles))

end Collected

/-- Eligibility equals readiness: from whatever state earlier rounds left, the queued
executables that may run are the collected entities that the wait set answers for. -/
theorem waitForWork_settled (strategy : Strategy) (canBeTakenFrom : GroupId → Bool)
    (weakNodes : WeakNodeList) {outcome : WaitOutcome} (regular : outcome.Regular)
    (distinct : ((visitedEntities canBeTakenFrom weakNodes).map Prod.snd).Nodup) :
    Settled outcome (strategy.waitedSet canBeTakenFrom weakNodes outcome) strategy
      (strategy.collected canBeTakenFrom weakNodes)
      (strategy.waitForWork canBeTakenFrom weakNodes outcome) := by
  have collected := strategy.collectEntities_collected canBeTakenFrom weakNodes distinct
  have entitiesDistinct :
      ((strategy.collected canBeTakenFrom weakNodes).map Prod.snd).Nodup :=
    distinct.sublist (List.filter_sublist.map _)
  exact collected.settled regular entitiesDistinct

/-- An expired node, and a node with an expired group, a group that can be taken from and
a group that cannot. -/
def mixedNodes : WeakNodeList :=
  [none,
    some { callbackGroups :=
      [none,
        some { id := 0, subscriptions := [1, 2], clients := [3], timers := [4, 5],
               waitables := [6] },
        some { id := 1, timers := [7] }] }]

/-- The waitable adds a subscription of its own, and timer 4 is not ready. -/
def mixedOutcome : WaitOutcome where
  addToWaitSet handle waitSet :=
    { waitSet with subscriptions := waitSet.subscriptions ++ [some handle] }
  wait waitSet :=
    { waitSet with
      timers := waitSet.timers.map fun slot => if slot = some 4 then none else slot }
  isReady handle waitSet := waitSet.subscriptions.contains (some handle)

theorem mixedOutcome_regular : mixedOutcome.Regular where
  appends handle waitSet type := by
    cases type with
    | subscription => exact List.prefix_append _ _
    | service => exact List.prefix_refl _
    | client => exact List.prefix_refl _
    | timer => exact List.prefix_refl _
    | waitable => exact List.prefix_refl _
  nulls waitSet type := by
    have same : ∀ slots : List (Option Handle),
        List.Forall₂ (fun before after => after = before ∨ after = none) slots slots :=
      fun slots => List.forall₂_same.mpr fun _ _ => .inl rfl
    cases type with
    | subscription => exact same _
    | service => exact same _
    | client => exact same _
    | waitable => exact same _
    | timer =>
        refine List.forall₂_map_right_iff.mpr (List.forall₂_same.mpr fun slot _ => ?_)
        by_cases nulled : slot = some 4
        · exact .inr (if_pos nulled)
        · exact .inl (if_neg nulled)

/-- Subscription 2 is registered and subscription 1 is not. -/
theorem mixedRound_settled :
    Settled mixedOutcome
      ((({} : Strategy).setExecutablePriority 2 5 .subscription .chainAwarePriority
        0).waitedSet (fun group => group = 0) mixedNodes mixedOutcome)
      (({} : Strategy).setExecutablePriority 2 5 .subscription .chainAwarePriority 0)
      [(.subscription, 2), (.client, 3), (.timer, 4), (.timer, 5), (.waitable, 6)]
      ((({} : Strategy).setExecutablePriority 2 5 .subscription .chainAwarePriority
        0).waitForWork (fun group => group = 0) mixedNodes mixedOutcome) :=
  waitForWork_settled
    (({} : Strategy).setExecutablePriority 2 5 .subscription .chainAwarePriority 0)
    (fun group => group = 0) mixedNodes mixedOutcome_regular (by decide)

end Strategy

end PriorityExecutor
