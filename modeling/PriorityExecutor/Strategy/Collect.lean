import PriorityExecutor.Strategy.Comparator

/-!
# Collecting a round

A round of `wait_for_work` empties the handle lists and the priority queue,
collects the entities of every takeable callback group, waits, and drops the
handles whose wait-set slot the wait has nulled.  The executables stay in the
queue; dropping a handle only clears their `can_be_run` flag.

`QueueValid` is what a round establishes for the selection that follows: every
queued key has an entry, and the queue is a heap for the rank of the entries as
they are now.
-/

namespace PriorityExecutor

/-- A live callback group with its live entities, in the order in which the
`find_*_ptrs_if` functions visit them. -/
structure CallbackGroup where
  id : GroupId
  subscriptions : List Handle := []
  services : List Handle := []
  clients : List Handle := []
  timers : List Handle := []
  waitables : List Handle := []
  deriving DecidableEq, Repr

/-- The callback groups of a live node; `none` is an expired weak pointer. -/
structure Node where
  callbackGroups : List (Option CallbackGroup)
  deriving DecidableEq, Repr

abbrev WeakNodeList := List (Option Node)

/-- The slots of `rcl_wait_set_t` that `remove_null_handles` reads. -/
structure WaitSet where
  subscriptions : List (Option Handle) := []
  services : List (Option Handle) := []
  clients : List (Option Handle) := []
  timers : List (Option Handle) := []
  deriving DecidableEq, Repr

/-- The rcl side of a wait: what a waitable adds to the wait set, what
`rcl_wait` leaves in it, and what a waitable then answers to `is_ready`. -/
structure WaitOutcome where
  addToWaitSet : Handle → WaitSet → WaitSet
  wait : WaitSet → WaitSet
  isReady : Handle → WaitSet → Bool

namespace Strategy

def clearHandles (strategy : Strategy) : Strategy :=
  { strategy with
    subscriptionHandles := []
    serviceHandles := []
    clientHandles := []
    timerHandles := []
    waitableHandles := []
    allExecutables := [] }

/-- `all_executables_.push(get_and_reset_priority(handle, type))`. -/
def pushExecutable (strategy : Strategy) (handle : Handle) (type : ExecutableType) :
    Strategy :=
  let strategy := strategy.getAndResetPriority handle type
  { strategy with
    allExecutables :=
      StdHeap.push (compareHandles strategy) strategy.allExecutables handle }

/-! The lambdas of `collect_entities`.  Subscriptions and services are skipped
without a registration; the other kinds are registered on the fly. -/

def collectSubscription (strategy : Strategy) (handle : Handle) : Strategy :=
  match strategy.getPrioritySettings handle with
  | none => strategy
  | some _ =>
      { strategy with
        subscriptionHandles := strategy.subscriptionHandles ++ [handle] }.pushExecutable
          handle .subscription

def collectService (strategy : Strategy) (handle : Handle) : Strategy :=
  match strategy.getPrioritySettings handle with
  | none => strategy
  | some _ =>
      let strategy := strategy.pushExecutable handle .service
      { strategy with serviceHandles := strategy.serviceHandles ++ [handle] }

def collectClient (strategy : Strategy) (handle : Handle) : Strategy :=
  let strategy := strategy.pushExecutable handle .client
  { strategy with clientHandles := strategy.clientHandles ++ [handle] }

def collectTimer (strategy : Strategy) (handle : Handle) : Strategy :=
  let strategy := strategy.pushExecutable handle .timer
  { strategy with timerHandles := strategy.timerHandles ++ [handle] }

def collectWaitable (strategy : Strategy) (handle : Handle) : Strategy :=
  let strategy := strategy.pushExecutable handle .waitable
  { strategy with waitableHandles := strategy.waitableHandles ++ [handle] }

/-- The body of the loop over the callback groups of a node. -/
def collectGroup (canBeTakenFrom : GroupId → Bool) (strategy : Strategy) :
    Option CallbackGroup → Strategy
  | none => strategy
  | some group =>
      if canBeTakenFrom group.id then
        let strategy := group.subscriptions.foldl collectSubscription strategy
        let strategy := group.services.foldl collectService strategy
        let strategy := group.clients.foldl collectClient strategy
        let strategy := group.timers.foldl collectTimer strategy
        group.waitables.foldl collectWaitable strategy
      else
        strategy

/-- The body of the loop over the nodes. -/
def collectNode (canBeTakenFrom : GroupId → Bool) (strategy : Strategy) :
    Option Node → Strategy
  | none => strategy
  | some node => node.callbackGroups.foldl (collectGroup canBeTakenFrom) strategy

/-- `collect_entities`, with its result `has_invalid_weak_nodes`. -/
def collectEntities (strategy : Strategy) (canBeTakenFrom : GroupId → Bool)
    (weakNodes : WeakNodeList) : Strategy × Bool :=
  (weakNodes.foldl (collectNode canBeTakenFrom) strategy,
    weakNodes.any fun node => node.isNone)

/-- `add_handles_to_wait_set` on a cleared wait set: each add function fills the
next slot of its kind, and waitables come last. -/
def addHandlesToWaitSet (strategy : Strategy) (outcome : WaitOutcome) : WaitSet :=
  strategy.waitableHandles.foldl (fun waitSet handle => outcome.addToWaitSet handle waitSet)
    { subscriptions := strategy.subscriptionHandles.map some
      services := strategy.serviceHandles.map some
      clients := strategy.clientHandles.map some
      timers := strategy.timerHandles.map some }

/-- One loop of `remove_null_handles`: allow or forbid each handle's executable. -/
def markReady (ready : Nat → Handle → Bool) (strategy : Strategy)
    (handles : List Handle) : Strategy :=
  handles.zipIdx.foldl (fun strategy entry =>
    strategy.assign entry.1
      (if ready entry.2 entry.1 then (strategy.atKey entry.1).allowRun
        else (strategy.atKey entry.1).dontRun)) strategy

/-- The handles that the erase-remove idiom keeps. -/
def keepReady (ready : Nat → Handle → Bool) (handles : List Handle) : List Handle :=
  (handles.zipIdx.filter fun entry => ready entry.2 entry.1).map Prod.fst

/-- A slot counts as null past the end of its array. -/
def slotReady (slots : List (Option Handle)) (index : Nat) (_handle : Handle) : Bool :=
  (slots[index]?.join).isSome

def removeNullHandles (strategy : Strategy) (outcome : WaitOutcome) (waitSet : WaitSet) :
    Strategy :=
  let waitableReady := fun _ handle => outcome.isReady handle waitSet
  let marked := markReady (slotReady waitSet.subscriptions) strategy
    strategy.subscriptionHandles
  let marked := markReady (slotReady waitSet.services) marked strategy.serviceHandles
  let marked := markReady (slotReady waitSet.clients) marked strategy.clientHandles
  let marked := markReady (slotReady waitSet.timers) marked strategy.timerHandles
  let marked := markReady waitableReady marked strategy.waitableHandles
  { marked with
    subscriptionHandles :=
      keepReady (slotReady waitSet.subscriptions) strategy.subscriptionHandles
    serviceHandles := keepReady (slotReady waitSet.services) strategy.serviceHandles
    clientHandles := keepReady (slotReady waitSet.clients) strategy.clientHandles
    timerHandles := keepReady (slotReady waitSet.timers) strategy.timerHandles
    waitableHandles := keepReady waitableReady strategy.waitableHandles }

/-- The strategy side of `wait_for_work`. -/
def waitForWork (strategy : Strategy) (canBeTakenFrom : GroupId → Bool)
    (weakNodes : WeakNodeList) (outcome : WaitOutcome) : Strategy :=
  let collected := (strategy.clearHandles.collectEntities canBeTakenFrom weakNodes).1
  collected.removeNullHandles outcome (outcome.wait (collected.addHandlesToWaitSet outcome))

end Strategy

/-! ## The queue of a round is a heap -/

/-- The preorder on queue elements. -/
def HandleLe (strategy : Strategy) (left right : Handle) : Prop :=
  RankLe strategy.deques (strategy.atKey left) (strategy.atKey right)

/-- Every queued key has an entry, and the queue is in heap order for the current
ranks. -/
structure QueueValid (strategy : Strategy) : Prop where
  registered : ∀ handle ∈ strategy.allExecutables, (strategy.priorityMap handle).isSome
  ordered : StdHeap.Ordered (HandleLe strategy) strategy.allExecutables

/-- The rank of a queued executable depends on the map and the deques only
through its key. -/
theorem QueueValid.congr {before after : Strategy} (valid : QueueValid before)
    (queueEq : after.allExecutables = before.allExecutables)
    (registered : ∀ handle ∈ before.allExecutables, (after.priorityMap handle).isSome)
    (sameKey : ∀ handle ∈ before.allExecutables,
      rankKey after.deques (after.atKey handle) =
        rankKey before.deques (before.atKey handle)) : QueueValid after := by
  constructor
  · rw [queueEq]
    exact registered
  · rw [queueEq]
    intro index child above indexPos childEq aboveEq
    have lower := valid.ordered index child above indexPos childEq aboveEq
    unfold HandleLe at lower ⊢
    rw [rankLe_iff] at lower ⊢
    rwa [sameKey child (List.mem_of_getElem? childEq),
      sameKey above (List.mem_of_getElem? aboveEq)]

namespace Strategy

theorem clearHandles_valid (strategy : Strategy) : QueueValid strategy.clearHandles where
  registered := by simp [clearHandles]
  ordered := StdHeap.nil_ordered

theorem getAndResetPriority_registered (strategy : Strategy) (handle : Handle)
    (type : ExecutableType) :
    ((strategy.getAndResetPriority handle type).priorityMap handle).isSome := by
  unfold getAndResetPriority
  split
  next => simp
  next executable found =>
    rw [getPrioritySettings] at found
    simp [found]

/-- Registering a new handle changes no queued entry. -/
theorem getAndResetPriority_valid {strategy : Strategy} (valid : QueueValid strategy)
    (handle : Handle) (type : ExecutableType) :
    QueueValid (strategy.getAndResetPriority handle type) := by
  unfold getAndResetPriority
  split
  next absent =>
    have other : ∀ queued ∈ strategy.allExecutables, queued ≠ handle := by
      intro queued member equal
      have := valid.registered queued member
      rw [getPrioritySettings] at absent
      simp [equal, absent] at this
    refine valid.congr ?_ ?_ ?_
    · rfl
    · intro queued member
      rw [strategy.assign_of_ne _ (other queued member)]
      exact valid.registered queued member
    · intro queued member
      rw [atKey_assign_of_ne _ _ (other queued member), assign_deques]
  next => exact valid

theorem pushExecutable_valid {strategy : Strategy} (valid : QueueValid strategy)
    (handle : Handle) (type : ExecutableType) :
    QueueValid (strategy.pushExecutable handle type) := by
  have reset := getAndResetPriority_valid valid handle type
  constructor
  · intro queued member
    rcases (StdHeap.mem_push _).mp member with rfl | earlier
    · exact strategy.getAndResetPriority_registered queued type
    · exact reset.registered queued earlier
  · exact StdHeap.push_ordered (compare_compatible _) reset.ordered handle

theorem collectSubscription_valid {strategy : Strategy} (valid : QueueValid strategy)
    (handle : Handle) : QueueValid (strategy.collectSubscription handle) := by
  unfold collectSubscription
  split
  · exact valid
  · apply pushExecutable_valid
    exact ⟨valid.registered, valid.ordered⟩

theorem collectService_valid {strategy : Strategy} (valid : QueueValid strategy)
    (handle : Handle) : QueueValid (strategy.collectService handle) := by
  unfold collectService
  split
  · exact valid
  · have pushed := pushExecutable_valid valid handle .service
    exact ⟨pushed.registered, pushed.ordered⟩

theorem collectClient_valid {strategy : Strategy} (valid : QueueValid strategy)
    (handle : Handle) : QueueValid (strategy.collectClient handle) := by
  have pushed := pushExecutable_valid valid handle .client
  exact ⟨pushed.registered, pushed.ordered⟩

theorem collectTimer_valid {strategy : Strategy} (valid : QueueValid strategy)
    (handle : Handle) : QueueValid (strategy.collectTimer handle) := by
  have pushed := pushExecutable_valid valid handle .timer
  exact ⟨pushed.registered, pushed.ordered⟩

theorem collectWaitable_valid {strategy : Strategy} (valid : QueueValid strategy)
    (handle : Handle) : QueueValid (strategy.collectWaitable handle) := by
  have pushed := pushExecutable_valid valid handle .waitable
  exact ⟨pushed.registered, pushed.ordered⟩

/-- A fold keeps what each of its steps keeps. -/
theorem foldl_valid {α : Type} {step : Strategy → α → Strategy}
    (keeps : ∀ {strategy}, QueueValid strategy → ∀ item, QueueValid (step strategy item))
    (items : List α) {strategy : Strategy} (valid : QueueValid strategy) :
    QueueValid (items.foldl step strategy) := by
  induction items generalizing strategy with
  | nil => exact valid
  | cons item items ih => exact ih (keeps valid item)

theorem collectGroup_valid (canBeTakenFrom : GroupId → Bool) {strategy : Strategy}
    (valid : QueueValid strategy) (group : Option CallbackGroup) :
    QueueValid (collectGroup canBeTakenFrom strategy group) := by
  cases group with
  | none => exact valid
  | some group =>
      simp only [collectGroup]
      split
      · apply foldl_valid collectWaitable_valid
        apply foldl_valid collectTimer_valid
        apply foldl_valid collectClient_valid
        apply foldl_valid collectService_valid
        exact foldl_valid collectSubscription_valid _ valid
      · exact valid

theorem collectEntities_valid {strategy : Strategy} (valid : QueueValid strategy)
    (canBeTakenFrom : GroupId → Bool) (weakNodes : WeakNodeList) :
    QueueValid (strategy.collectEntities canBeTakenFrom weakNodes).1 := by
  apply foldl_valid _ _ valid
  intro strategy valid node
  cases node with
  | none => exact valid
  | some node => exact foldl_valid (collectGroup_valid canBeTakenFrom) _ valid

/-- Allowing or forbidding executables keeps every rank. -/
theorem markReady_valid (ready : Nat → Handle → Bool) (handles : List Handle)
    {strategy : Strategy} (valid : QueueValid strategy) :
    QueueValid (markReady ready strategy handles) := by
  apply foldl_valid _ _ valid
  intro strategy valid entry
  refine valid.congr ?_ ?_ ?_
  · rfl
  · intro queued member
    by_cases same : queued = entry.1
    · simp [same]
    · rw [strategy.assign_of_ne _ same]
      exact valid.registered queued member
  · intro queued member
    by_cases same : queued = entry.1
    · subst queued
      rw [atKey_assign_self]
      split <;> rfl
    · rw [atKey_assign_of_ne _ _ same, assign_deques]

theorem removeNullHandles_valid {strategy : Strategy} (valid : QueueValid strategy)
    (outcome : WaitOutcome) (waitSet : WaitSet) :
    QueueValid (strategy.removeNullHandles outcome waitSet) := by
  have marked := markReady_valid (fun _ handle => outcome.isReady handle waitSet)
    strategy.waitableHandles
    (markReady_valid (slotReady waitSet.timers) strategy.timerHandles
      (markReady_valid (slotReady waitSet.clients) strategy.clientHandles
        (markReady_valid (slotReady waitSet.services) strategy.serviceHandles
          (markReady_valid (slotReady waitSet.subscriptions) strategy.subscriptionHandles
            valid))))
  exact ⟨marked.registered, marked.ordered⟩

/-- Whatever state a round starts from, its queue is valid when the wait is over. -/
theorem waitForWork_valid (strategy : Strategy) (canBeTakenFrom : GroupId → Bool)
    (weakNodes : WeakNodeList) (outcome : WaitOutcome) :
    QueueValid (strategy.waitForWork canBeTakenFrom weakNodes outcome) :=
  removeNullHandles_valid
    (collectEntities_valid strategy.clearHandles_valid canBeTakenFrom weakNodes) _ _

end Strategy

/-! ## A round changes flags only -/

namespace Strategy

/-- The handle lists and the queue are not part of what is compared. -/
theorem flagsOnly_of_eq {before after : Strategy}
    (isF1tenth : after.isF1tenth = before.isF1tenth) (deques : after.deques = before.deques)
    (priorityMap : after.priorityMap = before.priorityMap) : FlagsOnly before after :=
  ⟨isF1tenth, deques, fun {_ executable} entry =>
    ⟨executable.canBeRun, by rw [priorityMap, entry]⟩, fun {handle} absent => by
      rw [Strategy.atKey, priorityMap, absent]
      rfl⟩

theorem getAndResetPriority_flagsOnly (strategy : Strategy) (handle : Handle)
    (type : ExecutableType) :
    FlagsOnly strategy (strategy.getAndResetPriority handle type) := by
  unfold getAndResetPriority
  split
  next absent =>
    refine ⟨rfl, rfl, ?_, ?_⟩
    · intro other executable entry
      have different : other ≠ handle := by
        rintro rfl
        rw [getPrioritySettings, entry] at absent
        cases absent
      exact ⟨executable.canBeRun, by rw [strategy.assign_of_ne _ different, entry]⟩
    · intro other unknown
      by_cases same : other = handle
      · rw [same, atKey_assign_self]
        rfl
      · rw [atKey_assign_of_ne _ _ same, atKey_of_none unknown]
        rfl
  next => exact .refl strategy

theorem pushExecutable_flagsOnly (strategy : Strategy) (handle : Handle)
    (type : ExecutableType) : FlagsOnly strategy (strategy.pushExecutable handle type) :=
  (strategy.getAndResetPriority_flagsOnly handle type).trans (flagsOnly_of_eq rfl rfl rfl)

/-- A fold changes flags only when each of its steps does. -/
theorem foldl_flagsOnly {α : Type} {step : Strategy → α → Strategy}
    (each : ∀ strategy item, FlagsOnly strategy (step strategy item)) (items : List α)
    (strategy : Strategy) : FlagsOnly strategy (items.foldl step strategy) := by
  induction items generalizing strategy with
  | nil => exact .refl strategy
  | cons item items ih => exact (each strategy item).trans (ih _)

theorem collectSubscription_flagsOnly (strategy : Strategy) (handle : Handle) :
    FlagsOnly strategy (strategy.collectSubscription handle) := by
  unfold collectSubscription
  split
  · exact .refl strategy
  · have pushed := pushExecutable_flagsOnly
      { strategy with subscriptionHandles := strategy.subscriptionHandles ++ [handle] }
      handle .subscription
    exact ⟨pushed.isF1tenth, pushed.deques, pushed.entry, pushed.fresh⟩

theorem collectService_flagsOnly (strategy : Strategy) (handle : Handle) :
    FlagsOnly strategy (strategy.collectService handle) := by
  unfold collectService
  split
  · exact .refl strategy
  · exact (pushExecutable_flagsOnly _ _ _).trans (flagsOnly_of_eq rfl rfl rfl)

theorem collectClient_flagsOnly (strategy : Strategy) (handle : Handle) :
    FlagsOnly strategy (strategy.collectClient handle) :=
  (strategy.pushExecutable_flagsOnly _ _).trans (flagsOnly_of_eq rfl rfl rfl)

theorem collectTimer_flagsOnly (strategy : Strategy) (handle : Handle) :
    FlagsOnly strategy (strategy.collectTimer handle) :=
  (strategy.pushExecutable_flagsOnly _ _).trans (flagsOnly_of_eq rfl rfl rfl)

theorem collectWaitable_flagsOnly (strategy : Strategy) (handle : Handle) :
    FlagsOnly strategy (strategy.collectWaitable handle) :=
  (strategy.pushExecutable_flagsOnly _ _).trans (flagsOnly_of_eq rfl rfl rfl)

theorem collectGroup_flagsOnly (canBeTakenFrom : GroupId → Bool) (strategy : Strategy)
    (group : Option CallbackGroup) :
    FlagsOnly strategy (collectGroup canBeTakenFrom strategy group) := by
  cases group with
  | none => exact .refl strategy
  | some group =>
      simp only [collectGroup]
      split
      · apply FlagsOnly.trans _ (foldl_flagsOnly collectWaitable_flagsOnly _ _)
        apply FlagsOnly.trans _ (foldl_flagsOnly collectTimer_flagsOnly _ _)
        apply FlagsOnly.trans _ (foldl_flagsOnly collectClient_flagsOnly _ _)
        apply FlagsOnly.trans _ (foldl_flagsOnly collectService_flagsOnly _ _)
        exact foldl_flagsOnly collectSubscription_flagsOnly _ _
      · exact .refl strategy

theorem collectEntities_flagsOnly (strategy : Strategy) (canBeTakenFrom : GroupId → Bool)
    (weakNodes : WeakNodeList) :
    FlagsOnly strategy (strategy.collectEntities canBeTakenFrom weakNodes).1 := by
  apply foldl_flagsOnly
  intro strategy node
  cases node with
  | none => exact .refl strategy
  | some node => exact foldl_flagsOnly (collectGroup_flagsOnly canBeTakenFrom) _ _

/-- `remove_null_handles` marks collected handles, which have entries; a key without
one would get a blank entry. -/
theorem markReady_flagsOnly (ready : Nat → Handle → Bool) (strategy : Strategy)
    (handles : List Handle) : FlagsOnly strategy (markReady ready strategy handles) := by
  apply foldl_flagsOnly
  intro strategy entry
  refine ⟨rfl, rfl, ?_, ?_⟩
  · intro other executable found
    by_cases same : other = entry.1
    · subst same
      rw [atKey_of_some found, assign_self]
      split
      · exact ⟨true, rfl⟩
      · exact ⟨false, rfl⟩
    · exact ⟨executable.canBeRun, by rw [strategy.assign_of_ne _ same, found]⟩
  · intro other absent
    by_cases same : other = entry.1
    · subst same
      rw [atKey_assign_self, atKey_of_none absent]
      split <;> rfl
    · rw [atKey_assign_of_ne _ _ same, atKey_of_none absent]
      rfl

theorem removeNullHandles_flagsOnly (strategy : Strategy) (outcome : WaitOutcome)
    (waitSet : WaitSet) :
    FlagsOnly strategy (strategy.removeNullHandles outcome waitSet) := by
  have marked := ((((markReady_flagsOnly (slotReady waitSet.subscriptions) strategy
    strategy.subscriptionHandles).trans
      (markReady_flagsOnly (slotReady waitSet.services) _ strategy.serviceHandles)).trans
        (markReady_flagsOnly (slotReady waitSet.clients) _ strategy.clientHandles)).trans
          (markReady_flagsOnly (slotReady waitSet.timers) _ strategy.timerHandles)).trans
            (markReady_flagsOnly (fun _ handle => outcome.isReady handle waitSet) _
              strategy.waitableHandles)
  exact ⟨marked.isF1tenth, marked.deques, marked.entry, marked.fresh⟩

/-- Collecting and waiting change flags only. -/
theorem waitForWork_flagsOnly (strategy : Strategy) (canBeTakenFrom : GroupId → Bool)
    (weakNodes : WeakNodeList) (outcome : WaitOutcome) :
    FlagsOnly strategy (strategy.waitForWork canBeTakenFrom weakNodes outcome) := by
  have cleared : FlagsOnly strategy strategy.clearHandles := flagsOnly_of_eq rfl rfl rfl
  have collected := cleared.trans
    (strategy.clearHandles.collectEntities_flagsOnly canBeTakenFrom weakNodes)
  exact collected.trans (removeNullHandles_flagsOnly _ _ _)

end Strategy

end PriorityExecutor
