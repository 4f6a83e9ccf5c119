import PriorityExecutor.Strategy.Eligibility
import PriorityExecutor.Strategy.Rounds

/-!
# The path without priorities

With `use_priorities` off, `get_next_ready_executable` does not look at the queue.  It
asks for a timer, a subscription, a service, a client and a waitable, in this order, and
each request walks the handle list of its kind.  The walk erases a handle whose entity
or group is gone, passes over a handle whose group is taken, and ends at the first
handle that can be served.

The five walks differ in the list and in the lookup only: a waitable is its own handle.
-/

namespace PriorityExecutor

/-- What a walk finds out about a handle. -/
inductive Service where
  /-- The entity or its group is gone. -/
  | invalid
  /-- The group is mutually exclusive and being used. -/
  | taken
  | serviceable (entity : Handle) (group : GroupId)
  deriving DecidableEq, Repr

namespace Service

def isTaken : Service → Bool
  | taken => true
  | invalid | serviceable _ _ => false

/-- The entity of the handle can be executed. -/
def IsServiceable (service : Service) : Prop :=
  ∃ entity group, service = serviceable entity group

@[simp] theorem isServiceable_serviceable {entity : Handle} {group : GroupId} :
    (serviceable entity group).IsServiceable :=
  ⟨entity, group, rfl⟩

@[simp] theorem not_isServiceable_invalid : ¬ invalid.IsServiceable := by
  rintro ⟨_, _, impossible⟩
  cases impossible

@[simp] theorem not_isServiceable_taken : ¬ taken.IsServiceable := by
  rintro ⟨_, _, impossible⟩
  cases impossible

end Service

/-- The walk along a handle list: what it stores in `any_exec`, and the handles left. -/
def walk (service : Handle → Service) : List Handle → Option (Handle × GroupId) × List Handle
  | [] => (none, [])
  | handle :: rest =>
      match service handle with
      | .invalid => walk service rest
      | .taken => ((walk service rest).1, handle :: (walk service rest).2)
      | .serviceable entity group => (some (entity, group), rest)

namespace SelectionView

/-- `get_*_by_handle` for one kind. -/
def byHandle (view : SelectionView) (type : ExecutableType) (handle : Handle) :
    Option Handle :=
  if view.entityExists type handle then some handle else none

def service (view : SelectionView) (type : ExecutableType)
    (lookup : Handle → Option Handle) (handle : Handle) : Service :=
  match lookup handle with
  | none => .invalid
  | some entity =>
      match view.getGroup type entity with
      | none => .invalid
      | some group => if view.canBeTakenFrom group then .serviceable entity group else .taken

end SelectionView

/-- Store an entity and its group in an `any_exec`. -/
def AnyExecutable.store (anyExec : AnyExecutable) (type : ExecutableType) (entity : Handle)
    (group : GroupId) : AnyExecutable :=
  match type with
  | .subscription =>
      { anyExec with subscription := some entity, callbackGroup := some group }
  | .service => { anyExec with service := some entity, callbackGroup := some group }
  | .client => { anyExec with client := some entity, callbackGroup := some group }
  | .timer => { anyExec with timer := some entity, callbackGroup := some group }
  | .waitable => { anyExec with waitable := some entity, callbackGroup := some group }

namespace Strategy

/-- Replace the handle list of one kind. -/
def withHandles (strategy : Strategy) (type : ExecutableType) (handles : List Handle) :
    Strategy :=
  match type with
  | .subscription => { strategy with subscriptionHandles := handles }
  | .service => { strategy with serviceHandles := handles }
  | .client => { strategy with clientHandles := handles }
  | .timer => { strategy with timerHandles := handles }
  | .waitable => { strategy with waitableHandles := handles }

/-- The functions `get_next_*`, with the lookup of their kind. -/
def getNext (strategy : Strategy) (view : SelectionView) (type : ExecutableType)
    (lookup : Handle → Option Handle) (anyExec : AnyExecutable) :
    AnyExecutable × Strategy :=
  let (found, left) := walk (view.service type lookup) (strategy.handles type)
  (match found with
    | none => anyExec
    | some (entity, group) => anyExec.store type entity group,
    strategy.withHandles type left)

def getNextTimer (strategy : Strategy) (view : SelectionView) (anyExec : AnyExecutable) :
    AnyExecutable × Strategy :=
  strategy.getNext view .timer (view.byHandle .timer) anyExec

def getNextSubscription (strategy : Strategy) (view : SelectionView)
    (anyExec : AnyExecutable) : AnyExecutable × Strategy :=
  strategy.getNext view .subscription (view.byHandle .subscription) anyExec

def getNextService (strategy : Strategy) (view : SelectionView) (anyExec : AnyExecutable) :
    AnyExecutable × Strategy :=
  strategy.getNext view .service (view.byHandle .service) anyExec

def getNextClient (strategy : Strategy) (view : SelectionView) (anyExec : AnyExecutable) :
    AnyExecutable × Strategy :=
  strategy.getNext view .client (view.byHandle .client) anyExec

/-- The handles of waitables are the waitables themselves, so nothing is looked up. -/
def getNextWaitable (strategy : Strategy) (view : SelectionView) (anyExec : AnyExecutable) :
    AnyExecutable × Strategy :=
  strategy.getNext view .waitable some anyExec

/-- `if (!success)`: the walks go on as long as nothing was found. -/
def orElse (found : AnyExecutable × Strategy) (member : AnyExecutable → Option Handle)
    (next : AnyExecutable → Strategy → AnyExecutable × Strategy) : AnyExecutable × Strategy :=
  if (member found.1).isSome then found else next found.1 found.2

/-- The branch of `get_next_ready_executable` for `use_priorities` off. -/
def getNextByKind (strategy : Strategy) (view : SelectionView) : AnyExecutable × Strategy :=
  orElse (strategy.getNextTimer view {}) AnyExecutable.timer fun anyExec strategy =>
  orElse (strategy.getNextSubscription view anyExec) AnyExecutable.subscription
    fun anyExec strategy =>
  orElse (strategy.getNextService view anyExec) AnyExecutable.service fun anyExec strategy =>
  orElse (strategy.getNextClient view anyExec) AnyExecutable.client fun anyExec strategy =>
  strategy.getNextWaitable view anyExec

/-- One round without priorities: `wait_for_work`, then the walks. -/
def plainRound (strategy : Strategy) (input : RoundInput) : AnyExecutable × Strategy :=
  (strategy.ready input).getNextByKind input.view

end Strategy

/-! ## One walk -/

section Walk

variable {service : Handle → Service} {handles : List Handle}

/-- A walk that finds nothing keeps the handles whose groups are taken. -/
theorem walk_of_none (nothing : ∀ handle ∈ handles, ¬ (service handle).IsServiceable) :
    walk service handles = (none, handles.filter fun handle => (service handle).isTaken) := by
  induction handles with
  | nil => rfl
  | cons handle rest ih =>
      rw [List.forall_mem_cons] at nothing
      have later := ih nothing.2
      cases verdict : service handle with
      | invalid => simp [walk, verdict, later, Service.isTaken]
      | taken => simp [walk, verdict, later, Service.isTaken]
      | serviceable entity group => exact absurd ⟨entity, group, verdict⟩ nothing.1

/-- A walk ends at the first handle that can be served, and keeps the handles behind it
and those before it whose groups are taken. -/
theorem walk_of_first {earlier : List Handle} (later : List Handle) {handle entity : Handle}
    {group : GroupId} (nothing : ∀ other ∈ earlier, ¬ (service other).IsServiceable)
    (found : service handle = .serviceable entity group) :
    walk service (earlier ++ handle :: later) =
      (some (entity, group), earlier.filter (fun other => (service other).isTaken) ++ later) := by
  induction earlier with
  | nil => simp [walk, found]
  | cons other rest ih =>
      rw [List.forall_mem_cons] at nothing
      have next := ih nothing.2
      cases verdict : service other with
      | invalid => simp [walk, verdict, next, Service.isTaken]
      | taken => simp [walk, verdict, next, Service.isTaken]
      | serviceable entity' group' => exact absurd ⟨entity', group', verdict⟩ nothing.1

/-- A list with a handle that can be served has a first one. -/
theorem exists_first_serviceable
    (some_serviceable : ∃ handle ∈ handles, (service handle).IsServiceable) :
    ∃ earlier handle later entity group, handles = earlier ++ handle :: later ∧
      (∀ other ∈ earlier, ¬ (service other).IsServiceable) ∧
      service handle = .serviceable entity group := by
  induction handles with
  | nil =>
      obtain ⟨_, member, _⟩ := some_serviceable
      cases member
  | cons head rest ih =>
      by_cases first : (service head).IsServiceable
      · obtain ⟨entity, group, verdict⟩ := first
        exact ⟨[], head, rest, entity, group, rfl, nofun, verdict⟩
      · obtain ⟨handle, member, serviceable⟩ := some_serviceable
        rcases List.mem_cons.mp member with rfl | inRest
        · exact absurd serviceable first
        · obtain ⟨earlier, found, later, entity, group, rfl, nothing, verdict⟩ :=
            ih ⟨handle, inRest, serviceable⟩
          exact ⟨head :: earlier, found, later, entity, group, rfl,
            List.forall_mem_cons.mpr ⟨first, nothing⟩, verdict⟩

end Walk

/-! ## The walks of a round -/

/-- The place of a kind in the order of the walks. -/
def ExecutableType.turn : ExecutableType → Nat
  | .timer => 0
  | .subscription => 1
  | .service => 2
  | .client => 3
  | .waitable => 4

/-- The lookup in the walk of a kind. -/
def SelectionView.lookup (view : SelectionView) (type : ExecutableType) :
    Handle → Option Handle :=
  match type with
  | .waitable => some
  | type => view.byHandle type

/-- What the walk of its kind finds out about a handle. -/
def SelectionView.serviceOf (view : SelectionView) (type : ExecutableType) :
    Handle → Service :=
  view.service type (view.lookup type)

namespace Strategy

variable {strategy : Strategy} {view : SelectionView}

/-- The first handle that can be served, kind after kind, fills `anyExec`. -/
def ServesFirst (strategy : Strategy) (view : SelectionView) (type : ExecutableType)
    (anyExec : AnyExecutable) : Prop :=
  ∃ earlier handle later entity group,
    strategy.handles type = earlier ++ handle :: later ∧
    view.serviceOf type handle = .serviceable entity group ∧
    (∀ other ∈ earlier, ¬ (view.serviceOf type other).IsServiceable) ∧
    (∀ kind, kind.turn < type.turn → ∀ other ∈ strategy.handles kind,
      ¬ (view.serviceOf kind other).IsServiceable) ∧
    anyExec = .fill type entity group

/-- The walks one after the other, each with an empty `any_exec`. -/
def tryKinds (view : SelectionView) :
    List ExecutableType → Strategy → AnyExecutable × Strategy
  | [], strategy => ({}, strategy)
  | type :: types, strategy =>
      let (anyExec, after) := strategy.getNext view type (view.lookup type) {}
      if anyExec.isFilled then (anyExec, after) else tryKinds view types after

theorem store_empty (type : ExecutableType) (entity : Handle) (group : GroupId) :
    ({} : AnyExecutable).store type entity group = .fill type entity group := by
  cases type <;> rfl

/-- A walk stores nothing, or an entity of its kind. -/
theorem getNext_cases (strategy : Strategy) (view : SelectionView) (type : ExecutableType) :
    (strategy.getNext view type (view.lookup type) {}).1 = {} ∨
      ∃ entity group,
        (strategy.getNext view type (view.lookup type) {}).1 = .fill type entity group := by
  unfold getNext
  cases walk (view.service type (view.lookup type)) (strategy.handles type) with
  | mk found left =>
      cases found with
      | none => exact .inl rfl
      | some found => exact .inr ⟨found.1, found.2, store_empty _ _ _⟩

/-- A branch tests the member of its own kind, which its walk has filled if any. -/
theorem orElse_eq_tryKinds {type : ExecutableType} {types : List ExecutableType}
    {member : AnyExecutable → Option Handle}
    {next : AnyExecutable → Strategy → AnyExecutable × Strategy}
    (empty : member {} = none)
    (own : ∀ entity group, member (.fill type entity group) = some entity)
    (nextEq : ∀ strategy, next {} strategy = tryKinds view types strategy)
    (strategy : Strategy) :
    orElse (strategy.getNext view type (view.lookup type) {}) member next =
      tryKinds view (type :: types) strategy := by
  unfold orElse tryKinds
  rcases strategy.getNext_cases view type with nothing | ⟨entity, group, filled⟩
  · simp [nothing, empty, nextEq]
  · simp only [filled, own, Option.isSome_some, AnyExecutable.isFilled_fill, if_true]
    exact Prod.ext filled rfl

theorem getNextByKind_eq_tryKinds (strategy : Strategy) (view : SelectionView) :
    strategy.getNextByKind view =
      tryKinds view [.timer, .subscription, .service, .client, .waitable] strategy := by
  have waitable : ∀ strategy : Strategy,
      strategy.getNextWaitable view {} = tryKinds view [.waitable] strategy := by
    intro strategy
    rcases strategy.getNext_cases view .waitable with nothing | ⟨entity, group, filled⟩
    · simp only [tryKinds, nothing, AnyExecutable.isFilled_empty]
      exact Prod.ext nothing rfl
    · simp only [tryKinds, filled, AnyExecutable.isFilled_fill]
      exact Prod.ext filled rfl
  refine orElse_eq_tryKinds rfl (fun _ _ => rfl) (fun strategy => ?_) strategy
  refine orElse_eq_tryKinds rfl (fun _ _ => rfl) (fun strategy => ?_) strategy
  refine orElse_eq_tryKinds rfl (fun _ _ => rfl) (fun strategy => ?_) strategy
  refine orElse_eq_tryKinds rfl (fun _ _ => rfl) (fun strategy => ?_) strategy
  exact waitable strategy

/-- Nothing in the list of a kind can be served. -/
def NothingServiceable (strategy : Strategy) (view : SelectionView) (type : ExecutableType) :
    Prop :=
  ∀ handle ∈ strategy.handles type, ¬ (view.serviceOf type handle).IsServiceable

theorem withHandles_of_ne (strategy : Strategy) {type kind : ExecutableType}
    (handles : List Handle) (different : kind ≠ type) :
    (strategy.withHandles type handles).handles kind = strategy.handles kind := by
  cases type <;> cases kind <;> first | rfl | exact absurd rfl different

theorem withHandles_flagsOnly (strategy : Strategy) (type : ExecutableType)
    (handles : List Handle) : FlagsOnly strategy (strategy.withHandles type handles) := by
  cases type <;> exact flagsOnly_of_eq rfl rfl rfl

theorem getNext_of_nothing {type : ExecutableType}
    (nothing : strategy.NothingServiceable view type) :
    (strategy.getNext view type (view.lookup type) {}).1 = {} := by
  have walked := walk_of_none nothing
  unfold SelectionView.serviceOf at walked
  rw [getNext, walked]

theorem getNext_of_first {type : ExecutableType} {earlier later : List Handle}
    {handle entity : Handle} {group : GroupId}
    (splits : strategy.handles type = earlier ++ handle :: later)
    (found : view.serviceOf type handle = .serviceable entity group)
    (nothing : ∀ other ∈ earlier, ¬ (view.serviceOf type other).IsServiceable) :
    (strategy.getNext view type (view.lookup type) {}).1 = .fill type entity group := by
  have walked := walk_of_first later nothing found
  unfold SelectionView.serviceOf at walked
  rw [getNext, splits, walked]
  exact store_empty _ _ _

theorem getNext_handles_of_ne {type kind : ExecutableType} (different : kind ≠ type) :
    (strategy.getNext view type (view.lookup type) {}).2.handles kind =
      strategy.handles kind :=
  strategy.withHandles_of_ne _ different

/-- The walks end with the first kind in whose list a handle can be served. -/
theorem tryKinds_cases {types : List ExecutableType} (once : types.Nodup)
    (strategy : Strategy) :
    ((tryKinds view types strategy).1 = {} ∧
        ∀ type ∈ types, strategy.NothingServiceable view type) ∨
      ∃ passed type rest earlier handle later entity group,
        types = passed ++ type :: rest ∧
        (∀ kind ∈ passed, strategy.NothingServiceable view kind) ∧
        strategy.handles type = earlier ++ handle :: later ∧
        view.serviceOf type handle = .serviceable entity group ∧
        (∀ other ∈ earlier, ¬ (view.serviceOf type other).IsServiceable) ∧
        (tryKinds view types strategy).1 = .fill type entity group := by
  induction types generalizing strategy with
  | nil => exact .inl ⟨rfl, nofun⟩
  | cons type types ih =>
      rw [List.nodup_cons] at once
      by_cases served : ∃ handle ∈ strategy.handles type,
          (view.serviceOf type handle).IsServiceable
      · obtain ⟨earlier, handle, later, entity, group, splits, nothing, found⟩ :=
          exists_first_serviceable served
        have filled := getNext_of_first splits found nothing
        refine .inr ⟨[], type, types, earlier, handle, later, entity, group, rfl, nofun,
          splits, found, nothing, ?_⟩
        simp only [tryKinds, filled, AnyExecutable.isFilled_fill, if_true]
      · have nothing : strategy.NothingServiceable view type :=
          fun handle member serviceable => served ⟨handle, member, serviceable⟩
        have goesOn : tryKinds view (type :: types) strategy =
            tryKinds view types (strategy.getNext view type (view.lookup type) {}).2 := by
          simp only [tryKinds, getNext_of_nothing nothing, AnyExecutable.isFilled_empty]
          rfl
        -- the walk of this kind leaves the lists of the others
        have same : ∀ kind ∈ types,
            (strategy.getNext view type (view.lookup type) {}).2.handles kind =
              strategy.handles kind := by
          intro kind member
          refine getNext_handles_of_ne ?_
          rintro rfl
          exact once.1 member
        have transfer : ∀ kind ∈ types,
            (strategy.getNext view type (view.lookup type) {}).2.NothingServiceable view kind →
              strategy.NothingServiceable view kind := by
          intro kind member none
          rwa [NothingServiceable, same kind member] at none
        rw [goesOn]
        rcases ih once.2 (strategy.getNext view type (view.lookup type) {}).2 with
          ⟨empty, none⟩ | ⟨passed, found, rest, earlier, handle, later, entity, group, rfl,
            none, splits, served, before, filled⟩
        · refine .inl ⟨empty, List.forall_mem_cons.mpr ⟨nothing, ?_⟩⟩
          exact fun kind member => transfer kind member (none kind member)
        · rw [same found (by simp)] at splits
          refine .inr ⟨type :: passed, found, rest, earlier, handle, later, entity, group, rfl,
            List.forall_mem_cons.mpr ⟨nothing, ?_⟩, splits, served, before, filled⟩
          exact fun kind member =>
            transfer kind (List.mem_append_left _ member) (none kind member)

variable (view) in
theorem tryKinds_flagsOnly (types : List ExecutableType) (strategy : Strategy) :
    FlagsOnly strategy (tryKinds view types strategy).2 := by
  induction types generalizing strategy with
  | nil => exact .refl strategy
  | cons type types ih =>
      have walked : FlagsOnly strategy (strategy.getNext view type (view.lookup type) {}).2 :=
        strategy.withHandles_flagsOnly type _
      unfold tryKinds
      simp only
      split
      · exact walked
      · exact walked.trans (ih _)

/-- The kinds before a kind in the order of the walks have an earlier turn, and no other
kind has one. -/
theorem mem_passed {passed rest : List ExecutableType} {type kind : ExecutableType}
    (splits : [.timer, .subscription, .service, .client, .waitable] = passed ++ type :: rest)
    (earlier : kind.turn < type.turn) : kind ∈ passed := by
  have inOrder : [ExecutableType.timer, .subscription, .service, .client,
      .waitable].Pairwise fun left right => left.turn < right.turn := by decide
  have member : kind ∈ [ExecutableType.timer, .subscription, .service, .client, .waitable] := by
    cases kind <;> decide
  rw [splits] at inOrder member
  rcases List.mem_append.mp member with inPassed | inRest
  · exact inPassed
  · rcases List.mem_cons.mp inRest with rfl | later
    · omega
    · have := (List.pairwise_cons.mp (List.pairwise_append.mp inOrder).2.1).1 kind later
      omega

/-- A round without priorities finds nothing, or serves the first handle it can. -/
theorem getNextByKind_cases (strategy : Strategy) (view : SelectionView) :
    ((strategy.getNextByKind view).1 = {} ∧
        ∀ type, strategy.NothingServiceable view type) ∨
      ∃ type, strategy.ServesFirst view type (strategy.getNextByKind view).1 := by
  have once : [ExecutableType.timer, .subscription, .service, .client, .waitable].Nodup := by
    decide
  rw [getNextByKind_eq_tryKinds]
  rcases tryKinds_cases once strategy with
    ⟨empty, none⟩ | ⟨passed, type, rest, earlier, handle, later, entity, group, order, none,
      splits, found, before, filled⟩
  · refine .inl ⟨empty, fun type => none type ?_⟩
    cases type <;> decide
  · exact .inr ⟨type, earlier, handle, later, entity, group, splits, found, before,
      fun kind turn => none kind (mem_passed order turn), filled⟩

end Strategy

/-! ## Runs without priorities -/

/-- One round without priorities, from any state of the strategy. -/
def PlainStep (before : Strategy) (round : Round) (after : Strategy) : Prop :=
  ∃ input, round.ready = before.ready input ∧ round.view = input.view ∧
    before.plainRound input = (round.anyExec, after)

namespace PlainStep

variable {before after : Strategy} {round : Round}

theorem getNextByKind (step : PlainStep before round after) :
    round.ready.getNextByKind round.view = (round.anyExec, after) := by
  obtain ⟨input, readyEq, viewEq, result⟩ := step
  rw [readyEq, viewEq]
  exact result

theorem flagsOnly (step : PlainStep before round after) : FlagsOnly before after := by
  have walked := Strategy.tryKinds_flagsOnly round.view
    [.timer, .subscription, .service, .client, .waitable] round.ready
  rw [← Strategy.getNextByKind_eq_tryKinds, step.getNextByKind] at walked
  obtain ⟨input, readyEq, _, _⟩ := step
  rw [readyEq] at walked
  exact (before.waitForWork_flagsOnly _ _ _).trans walked

/-- A round fills `any_exec` with the first handle that can be served, if there is one. -/
theorem serves (step : PlainStep before round after) :
    (round.anyExec.isFilled = true →
        ∃ type, round.ready.ServesFirst round.view type round.anyExec) ∧
      (round.anyExec.isFilled = true ↔
        ∃ type, ∃ handle ∈ round.ready.handles type,
          (round.view.serviceOf type handle).IsServiceable) := by
  have outcome := round.ready.getNextByKind_cases round.view
  rw [step.getNextByKind] at outcome
  rcases outcome with ⟨empty, nothing⟩ | ⟨type, serves⟩
  · simp only at empty
    rw [empty]
    refine ⟨nofun, nofun, ?_⟩
    rintro ⟨type, handle, member, serviceable⟩
    exact absurd serviceable (nothing type handle member)
  · refine ⟨fun _ => ⟨type, serves⟩, ?_⟩
    obtain ⟨earlier, handle, later, entity, group, splits, found, _, _, filled⟩ := serves
    simp only at filled
    refine iff_of_true (by rw [filled, AnyExecutable.isFilled_fill]) ⟨type, handle, ?_, ?_⟩
    · simp [splits]
    · rw [found]
      exact Service.isServiceable_serviceable

end PlainStep

/-- In every run of rounds without priorities, each round with a handle that can be
served serves the first such handle, kind after kind, and no round counts a dispatch or
touches a deadline. -/
theorem plain_serves_first {start stop : Strategy} {rounds : List Round}
    (run : Steps PlainStep start rounds stop) :
    FlagsOnly start stop ∧ ∀ round ∈ rounds,
      (round.anyExec.isFilled = true →
        ∃ type, round.ready.ServesFirst round.view type round.anyExec) ∧
      (round.anyExec.isFilled = true ↔
        ∃ type, ∃ handle ∈ round.ready.handles type,
          (round.view.serviceOf type handle).IsServiceable) := by
  constructor
  · exact run.invariant (FlagsOnly start) (.refl start) fun same step =>
      same.trans step.flagsOnly
  · exact run.forall_labels (fun _ => True) trivial (fun _ _ => trivial)
      fun _ step => step.serves

/-- A group with entities of every kind. -/
def everyKind : CallbackGroup :=
  { id := 0, subscriptions := [1, 3], services := [6], clients := [7], timers := [4, 5],
    waitables := [2] }

/-- Everything is ready, and the first timer has gone. -/
def firstTimerGone : RoundInput := groupReady everyKind fun _ handle => handle ≠ 4

/-- Everything but the timers is ready. -/
def timersDone : RoundInput := groupReady { everyKind with timers := [] }

/-- The second timer is served before the subscriptions, and the first subscription once
there are no timers. -/
theorem plain_serves_first_everyKind :
    ∃ middle after : Strategy, Steps PlainStep registeredThree
        [⟨registeredThree.ready firstTimerGone, firstTimerGone.view, .fill .timer 5 0⟩,
          ⟨middle.ready timersDone, timersDone.view, .fill .subscription 1 0⟩] after ∧
      FlagsOnly registeredThree after ∧
      (∃ type, (registeredThree.ready firstTimerGone).ServesFirst firstTimerGone.view type
        (.fill .timer 5 0)) ∧
      ∃ type, (middle.ready timersDone).ServesFirst timersDone.view type
        (.fill .subscription 1 0) := by
  have first : ∃ middle, PlainStep registeredThree
      ⟨registeredThree.ready firstTimerGone, firstTimerGone.view, .fill .timer 5 0⟩ middle ∧
      ∃ after, PlainStep middle
        ⟨middle.ready timersDone, timersDone.view, .fill .subscription 1 0⟩ after :=
    ⟨_, ⟨firstTimerGone, rfl, rfl, rfl⟩, _, timersDone, rfl, rfl, rfl⟩
  obtain ⟨middle, first, after, second⟩ := first
  have run := Steps.snoc (.singleton first) second
  obtain ⟨same, served⟩ := plain_serves_first run
  exact ⟨middle, after, run, same, (served _ List.mem_cons_self).1 rfl,
    (served _ (List.mem_cons_of_mem _ List.mem_cons_self)).1 rfl⟩

/-! ## Agreement with the priority path -/

namespace Strategy

theorem collectEntity_entry {strategy : Strategy} {entity : Entity}
    (collects : strategy.collects entity = true) :
    (strategy.collectEntity entity).priorityMap entity.2 =
      some ((strategy.priorityMap entity.2).getD (.ofPriority 0 entity.1)) := by
  obtain ⟨kind, handle⟩ := entity
  have pushed : ∀ (current : Strategy) (type : ExecutableType),
      (current.pushExecutable handle type).priorityMap handle =
        some ((current.priorityMap handle).getD (.ofPriority 0 type)) := by
    intro current type
    unfold pushExecutable getAndResetPriority getPrioritySettings
    cases found : current.priorityMap handle with
    | none => exact current.assign_self handle _
    | some settings => exact found
  cases kind with
  | subscription =>
      obtain ⟨settings, found⟩ := Option.isSome_iff_exists.mp collects
      simp only [collectEntity, collectSubscription, getPrioritySettings, found]
      exact (pushed _ _).trans (by rw [found])
  | service =>
      obtain ⟨settings, found⟩ := Option.isSome_iff_exists.mp collects
      simp only [collectEntity, collectService, getPrioritySettings, found]
      exact (pushed _ _).trans (by rw [found])
  | client => exact pushed strategy .client
  | timer => exact pushed strategy .timer
  | waitable => exact pushed strategy .waitable

theorem foldl_collectEntity_frame {entities : List Entity} {handle : Handle}
    (outside : handle ∉ entities.map Prod.snd) (strategy : Strategy) :
    (entities.foldl collectEntity strategy).priorityMap handle =
      strategy.priorityMap handle := by
  induction entities generalizing strategy with
  | nil => rfl
  | cons entity entities ih =>
      rw [List.map_cons, List.mem_cons, not_or] at outside
      rw [List.foldl_cons, ih outside.2]
      cases collects : strategy.collects entity with
      | false => rw [collectEntity_of_skipped collects]
      | true => exact (collectEntity_step collects).2.2 handle outside.1

/-- A collected entity has the entry it was registered with, or a fresh one of its
kind; a round changes its flag only. -/
theorem ready_entry (strategy : Strategy) (input : RoundInput)
    (distinct : ((visitedEntities input.canBeTakenFrom input.weakNodes).map Prod.snd).Nodup)
    {entity : Entity}
    (member : entity ∈ strategy.collected input.canBeTakenFrom input.weakNodes) :
    ∃ flag, (strategy.ready input).priorityMap entity.2 =
      some { (strategy.priorityMap entity.2).getD (.ofPriority 0 entity.1) with
        canBeRun := flag } := by
  obtain ⟨visited, isCollected⟩ := List.mem_filter.mp member
  have entry : (strategy.clearHandles.collectEntities input.canBeTakenFrom
      input.weakNodes).1.priorityMap entity.2 =
      some ((strategy.priorityMap entity.2).getD (.ofPriority 0 entity.1)) := by
    obtain ⟨earlier, later, splits⟩ := List.append_of_mem visited
    rw [splits, List.map_append, List.map_cons, List.nodup_append] at distinct
    have notEarlier : entity.2 ∉ earlier.map Prod.snd := fun inEarlier =>
      distinct.2.2 _ inEarlier _ (List.mem_cons_self ..) rfl
    have notLater := (List.nodup_cons.mp distinct.2.1).1
    have sameEntry := foldl_collectEntity_frame notEarlier strategy.clearHandles
    rw [collectEntities_eq_foldl, splits, List.foldl_append, List.foldl_cons,
      foldl_collectEntity_frame notLater, collectEntity_entry, sameEntry]
    · rfl
    · unfold collects at isCollected ⊢
      rw [sameEntry]
      exact isCollected
  exact (removeNullHandles_flagsOnly _ _ _).entry entry

theorem mem_answered {outcome : WaitOutcome} {waitSet : WaitSet} {type : ExecutableType}
    {handles : List Handle} {handle : Handle} :
    handle ∈ answered outcome waitSet type handles ↔
      ∃ index, handles[index]? = some handle ∧ outcome.Answers waitSet type index handle := by
  simp only [answered, List.mem_map, List.mem_filter, decide_eq_true_eq, Prod.exists,
    List.mem_zipIdx_iff_getElem?]
  constructor
  · rintro ⟨_, index, ⟨position, answers⟩, rfl⟩
    exact ⟨index, position, answers⟩
  · rintro ⟨index, position, answers⟩
    exact ⟨handle, index, ⟨position, answers⟩, rfl⟩

/-- The handle lists of a settled round hold the collected entities that may run. -/
theorem Settled.mem_handles {outcome : WaitOutcome} {waitSet : WaitSet}
    {start after : Strategy} {entities : List Entity}
    (settled : Settled outcome waitSet start entities after)
    (distinct : (entities.map Prod.snd).Nodup) {type : ExecutableType} {handle : Handle} :
    handle ∈ after.handles type ↔
      (type, handle) ∈ entities ∧ (after.atKey handle).canBeRun = true := by
  rw [settled.handles, mem_answered]
  constructor
  · rintro ⟨index, position, answers⟩
    exact ⟨mem_ofKind.mp (List.mem_of_getElem? position),
      ((settled.eligible handle).mpr ⟨type, index, position, answers⟩).2⟩
  · rintro ⟨member, mayRun⟩
    have queued := (settled.queued handle).mpr (List.mem_map_of_mem member)
    obtain ⟨kind, index, position, answers⟩ := (settled.eligible handle).mp ⟨queued, mayRun⟩
    have sameKind := kind_unique distinct (List.mem_of_getElem? position)
      (mem_ofKind.mpr member)
    subst sameKind
    exact ⟨index, position, answers⟩

/-- The entities are registered, if at all, under their own kind, and no record has a
waitable: no function of the strategy sets one. -/
def RegisteredByKind (strategy : Strategy) (entities : List Entity) : Prop :=
  ∀ entity ∈ entities, ∀ settings, strategy.priorityMap entity.2 = some settings →
    settings.type = entity.1 ∧ settings.waitable = none

end Strategy

theorem SelectionView.isServiceable_service {view : SelectionView} {type : ExecutableType}
    {lookup : Handle → Option Handle} {handle : Handle} :
    (view.service type lookup handle).IsServiceable ↔
      ∃ entity group, lookup handle = some entity ∧
        view.getGroup type entity = some group ∧ view.canBeTakenFrom group = true := by
  constructor
  · rintro ⟨entity, group, verdict⟩
    unfold service at verdict
    split at verdict
    next => cases verdict
    next found lookupEq =>
      split at verdict
      next => cases verdict
      next own groupEq =>
        split at verdict
        next takeable =>
          cases verdict
          exact ⟨entity, group, lookupEq, groupEq, takeable⟩
        next => cases verdict
  · rintro ⟨entity, group, lookupEq, groupEq, takeable⟩
    exact ⟨entity, group, by simp [service, lookupEq, groupEq, takeable]⟩

namespace Strategy

section Agreement

variable {strategy : Strategy} {view : SelectionView} {handle : Handle}
  {type : ExecutableType}

/-- For an entity of its own kind that is no waitable both paths look at the same. -/
theorem runnable_iff_serviceable (kind : (strategy.atKey handle).type = type)
    (notWaitable : type ≠ .waitable) :
    strategy.Runnable view handle ↔
      (strategy.atKey handle).canBeRun = true ∧ (view.serviceOf type handle).IsServiceable := by
  have lookup : view.entityOf handle (strategy.atKey handle) = view.lookup type handle := by
    unfold SelectionView.entityOf SelectionView.lookup
    rw [kind]
    cases type <;> first | rfl | exact absurd rfl notWaitable
  unfold SelectionView.serviceOf Runnable
  rw [SelectionView.isServiceable_service, kind, lookup]
  constructor
  · rintro ⟨entity, group, mayRun, rest⟩
    exact ⟨mayRun, entity, group, rest⟩
  · rintro ⟨mayRun, entity, group, rest⟩
    exact ⟨entity, group, mayRun, rest⟩

/-- The priority path reads the `waitable` member of a waitable, which is null. -/
theorem entityOf_waitable (kind : (strategy.atKey handle).type = .waitable)
    (unset : (strategy.atKey handle).waitable = none) :
    view.entityOf handle (strategy.atKey handle) = none := by
  unfold SelectionView.entityOf
  rw [kind]
  exact unset

/-- What a round knows about the entities that it collected. -/
theorem ready_kind {input : RoundInput}
    (distinct : ((visitedEntities input.canBeTakenFrom input.weakNodes).map Prod.snd).Nodup)
    (byKind : strategy.RegisteredByKind
      (strategy.collected input.canBeTakenFrom input.weakNodes))
    (member : (type, handle) ∈ strategy.collected input.canBeTakenFrom input.weakNodes) :
    ((strategy.ready input).atKey handle).type = type ∧
      ((strategy.ready input).atKey handle).waitable = none := by
  obtain ⟨flag, entry⟩ := strategy.ready_entry input distinct member
  rw [atKey_of_some entry]
  cases registered : strategy.priorityMap handle with
  | none => simp [PriorityExecutable.ofPriority]
  | some settings =>
      obtain ⟨kind, unset⟩ := byKind _ member settings registered
      simp [kind, unset]

/-- Every queued executable of a round is a collected entity, and the handle lists hold
those that may run. -/
theorem ready_lists (strategy : Strategy) {input : RoundInput} (regular : input.outcome.Regular)
    (distinct : ((visitedEntities input.canBeTakenFrom input.weakNodes).map Prod.snd).Nodup) :
    (∀ handle, handle ∈ (strategy.ready input).allExecutables ↔
        ∃ type, (type, handle) ∈ strategy.collected input.canBeTakenFrom input.weakNodes) ∧
      ∀ type handle, handle ∈ (strategy.ready input).handles type ↔
        (type, handle) ∈ strategy.collected input.canBeTakenFrom input.weakNodes ∧
          ((strategy.ready input).atKey handle).canBeRun = true := by
  have collected := strategy.collectEntities_collected input.canBeTakenFrom input.weakNodes
    distinct
  have collectedDistinct : ((strategy.collected input.canBeTakenFrom
      input.weakNodes).map Prod.snd).Nodup :=
    distinct.sublist (List.filter_sublist.map _)
  have settled := collected.settled regular collectedDistinct
  refine ⟨fun handle => ?_, fun type handle => settled.mem_handles collectedDistinct⟩
  refine (settled.queued handle).trans ?_
  simp

/-- The path without priorities has work exactly when the queue holds a runnable
executable or a waitable can be served. -/
theorem plain_filled_iff {input : RoundInput} (regular : input.outcome.Regular)
    (distinct : ((visitedEntities input.canBeTakenFrom input.weakNodes).map Prod.snd).Nodup)
    (byKind : strategy.RegisteredByKind
      (strategy.collected input.canBeTakenFrom input.weakNodes)) :
    (strategy.plainRound input).1.isFilled = true ↔
      (∃ handle ∈ (strategy.ready input).allExecutables,
        (strategy.ready input).Runnable input.view handle) ∨
      ∃ waitable ∈ (strategy.ready input).waitableHandles,
        (input.view.serviceOf .waitable waitable).IsServiceable := by
  obtain ⟨queued, listed⟩ := strategy.ready_lists regular distinct
  have step : PlainStep strategy
      ⟨strategy.ready input, input.view, (strategy.plainRound input).1⟩
      (strategy.plainRound input).2 := ⟨input, rfl, rfl, rfl⟩
  rw [step.serves.2]
  constructor
  · rintro ⟨type, handle, inList, serviceable⟩
    by_cases isWaitable : type = .waitable
    · subst isWaitable
      exact .inr ⟨handle, inList, serviceable⟩
    · obtain ⟨member, mayRun⟩ := (listed type handle).mp inList
      have kind := (ready_kind distinct byKind member).1
      exact .inl ⟨handle, (queued handle).mpr ⟨type, member⟩,
        (runnable_iff_serviceable kind isWaitable).mpr ⟨mayRun, serviceable⟩⟩
  · rintro (⟨handle, inQueue, runnable⟩ | ⟨waitable, inList, serviceable⟩)
    · obtain ⟨type, member⟩ := (queued handle).mp inQueue
      obtain ⟨kind, unset⟩ := ready_kind distinct byKind member
      have notWaitable : type ≠ .waitable := by
        rintro rfl
        obtain ⟨entity, group, _, entityEq, _⟩ := runnable
        rw [entityOf_waitable kind unset] at entityEq
        cases entityEq
      obtain ⟨mayRun, serviceable⟩ := (runnable_iff_serviceable kind notWaitable).mp runnable
      exact ⟨type, handle, (listed type handle).mpr ⟨member, mayRun⟩, serviceable⟩
    · exact ⟨.waitable, waitable, inList, serviceable⟩

/-- From the same state and with the same inputs, a round without priorities dispatches
something whenever a round with priorities does.  The converse holds when no ready
executable of the queue has vanished. -/
theorem plain_agrees_with_priorities {input : RoundInput} {anyExec : AnyExecutable}
    {after : Strategy} (regular : input.outcome.Regular)
    (distinct : ((visitedEntities input.canBeTakenFrom input.weakNodes).map Prod.snd).Nodup)
    (byKind : strategy.RegisteredByKind
      (strategy.collected input.canBeTakenFrom input.weakNodes))
    (result : strategy.round input = .ok (anyExec, after)) :
    (anyExec.isFilled = true → (strategy.plainRound input).1.isFilled = true) ∧
      ((∀ handle ∈ (strategy.ready input).allExecutables,
          ¬ (strategy.ready input).Vanished input.view handle) →
        (anyExec.isFilled = true ↔ (strategy.plainRound input).1.isFilled = true)) := by
  have work := plain_filled_iff regular distinct byKind
  obtain ⟨queued, listed⟩ := strategy.ready_lists regular distinct
  have forward : anyExec.isFilled = true → (strategy.plainRound input).1.isFilled = true := by
    intro filled
    obtain ⟨handle, executable, entity, group, inQueue, entry, mayRun, entityEq, groupEq,
      takeable, _⟩ := (RoundStep.of_round result).dispatchesHighest filled
    refine work.mpr (.inl ⟨handle, inQueue, entity, group, ?_⟩)
    rw [atKey_of_some entry]
    exact ⟨mayRun, entityEq, groupEq, takeable⟩
  refine ⟨forward, fun present => ⟨forward, fun served => ?_⟩⟩
  obtain ⟨handle, inQueue, runnable⟩ : ∃ handle ∈ (strategy.ready input).allExecutables,
      (strategy.ready input).Runnable input.view handle := by
    rcases work.mp served with runnable | ⟨waitable, inList, _⟩
    · exact runnable
    · -- a ready waitable counts as vanished
      obtain ⟨member, mayRun⟩ := (listed .waitable waitable).mp inList
      obtain ⟨kind, unset⟩ := ready_kind distinct byKind member
      exact absurd ⟨mayRun, entityOf_waitable kind unset⟩
        (present waitable ((queued waitable).mpr ⟨.waitable, member⟩))
  obtain ⟨_, ⟨nothing, _⟩ | ⟨chosen, selected, _⟩⟩ := getNextExecutable_eq_ok result
  · rw [Strategy.selected, List.findSome?_eq_none_iff] at nothing
    have misses := nothing handle ((strategy.ready input).mem_queueOrder.mpr inQueue)
    rw [Option.map_eq_none_iff] at misses
    exact absurd runnable ((strategy.ready input).not_runnable_of_consider misses)
  · obtain ⟨_, _, splits, found, _⟩ := (strategy.ready input).selected_eq_some selected
    have chosenQueued : chosen ∈ (strategy.ready input).allExecutables := by
      rw [← (strategy.ready input).mem_queueOrder, splits]
      simp
    by_contra notFilled
    rw [Bool.not_eq_true] at notFilled
    exact present chosen chosenQueued (SelectionView.consider_empty found notFilled)

theorem groupReady_regular (group : CallbackGroup)
    (entityExists : ExecutableType → Handle → Bool) :
    (groupReady group entityExists).outcome.Regular where
  appends _ _ _ := List.prefix_refl _
  nulls _ _ := List.forall₂_same.mpr fun _ _ => .inl rfl

theorem registeredThree_byKind : registeredThree.RegisteredByKind
    [(.subscription, 1), (.subscription, 3), (.timer, 4)] := by
  intro entity member settings entry
  simp only [List.mem_cons, List.not_mem_nil, or_false] at member
  rcases member with rfl | rfl | rfl
  · cases entry
    exact ⟨rfl, rfl⟩
  · cases entry
    exact ⟨rfl, rfl⟩
  · cases entry
    exact ⟨rfl, rfl⟩

/-- Where the subscriptions have vanished behind the timer both paths dispatch, and where
all three are present one dispatches exactly if the other does. -/
theorem plain_agrees_with_priorities_three :
    (registeredThree.ready (groupReady threeMembers fun type _ => type = .timer)).Vanished
      (groupReady threeMembers fun type _ => type = .timer).view 1 ∧
    (registeredThree.plainRound
      (groupReady threeMembers fun type _ => type = .timer)).1.isFilled = true ∧
    ∃ anyExec after, registeredThree.round (groupReady threeMembers) = .ok (anyExec, after) ∧
      (anyExec.isFilled = true ↔
        (registeredThree.plainRound (groupReady threeMembers)).1.isFilled = true) := by
  have behind : ∃ after, registeredThree.round
      (groupReady threeMembers fun type _ => type = .timer) =
        .ok (.fill .timer 4 0, after) := ⟨_, rfl⟩
  have present : ∃ after, registeredThree.round (groupReady threeMembers) =
      .ok (.fill .timer 4 0, after) := ⟨_, rfl⟩
  obtain ⟨_, behind⟩ := behind
  obtain ⟨after, present⟩ := present
  have nothingGone : ∀ handle ∈
      (registeredThree.ready (groupReady threeMembers)).allExecutables,
      ¬ (registeredThree.ready (groupReady threeMembers)).Vanished
        (groupReady threeMembers).view handle := by
    intro handle queued gone
    have member : handle ∈ [4, 1, 3] := queued
    simp only [List.mem_cons, List.not_mem_nil, or_false] at member
    rcases member with rfl | rfl | rfl
    · cases gone.2
    · cases gone.2
    · cases gone.2
  refine ⟨⟨rfl, rfl⟩, ?_, _, after, present, ?_⟩
  · exact (plain_agrees_with_priorities (groupReady_regular _ _) (by decide)
      registeredThree_byKind behind).1 rfl
  · exact (plain_agrees_with_priorities (groupReady_regular _ _) (by decide)
      registeredThree_byKind present).2 nothingGone

end Agreement

end Strategy

end PriorityExecutor
