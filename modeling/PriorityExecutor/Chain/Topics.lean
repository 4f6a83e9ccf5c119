import Mathlib.Order.Nat
import PriorityExecutor.Foundation.LossyLink
import PriorityExecutor.Foundation.Run

/-!
# The nodes of a chain and their topics

A `PublisherNode` publishes a numbered message from its timer callback.  A `DummyWorker`
publishes what it has received, after its work.  Which node hears which is decided by the
names of topics, which the constructors put together from two numbers.

Every queue has depth one: `1` is passed for it wherever a publisher or a subscription is
created.  The callbacks of one node do not overlap, since they are in one mutually
exclusive group; those of different nodes, and the middleware, interleave at will.
-/

namespace PriorityExecutor

/-! ## Names -/

/-- The topic of a `PublisherNode`, and of the first worker behind it. -/
def chainTopic (chain : Int) : String := "topic_" ++ toString chain

/-- The topic in front of a later worker. -/
def workerTopic (chain number : Int) : String :=
  "chain_" ++ toString chain ++ "_topic_" ++ toString number

theorem not_mem_underscore_toString (number : Int) : '_' ∉ (toString number).toList := by
  have digits (value : Nat) : '_' ∉ (Nat.repr value).toList := by
    rw [Nat.repr, String.toList_ofList]
    exact Nat.underscore_not_in_toDigits
  cases number with
  | ofNat value => exact digits value
  | negSucc value =>
      change '_' ∉ ("-" ++ Nat.repr (value + 1)).toList
      rw [String.toList_append, List.mem_append, not_or]
      exact ⟨by decide, digits _⟩

theorem natRepr_injective : Function.Injective Nat.repr := by
  intro number other same
  have digits := congrArg String.toList same
  rw [Nat.toList_repr, Nat.toList_repr] at digits
  calc
    _ = Nat.ofDigitChars 10 (Nat.toDigits 10 number) 0 := Nat.ofDigitChars_ten_toDigits.symm
    _ = other := by rw [digits, Nat.ofDigitChars_ten_toDigits]

/-- A numeral without a sign is not one with a sign. -/
theorem natRepr_ne_minus (number other : Nat) : Nat.repr number ≠ "-" ++ Nat.repr other := by
  intro same
  have digits := congrArg String.toList same
  rw [Nat.toList_repr, String.toList_append] at digits
  have isMember : '-' ∈ Nat.toDigits 10 number := by
    rw [digits]
    exact List.mem_append_left _ (by decide)
  exact absurd (Nat.isDigit_of_mem_toDigits (by decide) (by decide) isMember) (by decide)

theorem toString_injective : Function.Injective (toString : Int → String) := by
  rintro (number | number) (other | other) same
  · exact congrArg Int.ofNat (natRepr_injective same)
  · exact absurd same (natRepr_ne_minus number (other + 1))
  · exact absurd same.symm (natRepr_ne_minus other (number + 1))
  · have digits := natRepr_injective ((String.append_right_inj "-").mp same)
    exact congrArg Int.negSucc (Nat.succ.inj digits)

/-- A list is cut in one way at the first place of an element. -/
theorem append_cons_inj {α : Type*} {separator : α} {front front' back back' : List α}
    (first : separator ∉ front) (first' : separator ∉ front')
    (same : front ++ separator :: back = front' ++ separator :: back') :
    front = front' ∧ back = back' := by
  induction front generalizing front' with
  | nil =>
      cases front' with
      | nil => exact ⟨rfl, (List.cons.inj same).2⟩
      | cons head tail => exact absurd ((List.cons.inj same).1 ▸ List.mem_cons_self) first'
  | cons head tail ih =>
      cases front' with
      | nil => exact absurd ((List.cons.inj same).1 ▸ List.mem_cons_self) first
      | cons head' tail' =>
          rcases List.cons.inj same with ⟨rfl, rest⟩
          rcases ih (fun member => first (List.mem_cons_of_mem _ member))
            (fun member => first' (List.mem_cons_of_mem _ member)) rest with ⟨rfl, backs⟩
          exact ⟨rfl, backs⟩

theorem chainTopic_injective : Function.Injective chainTopic := by
  intro chain other same
  exact toString_injective ((String.append_right_inj "topic_").mp same)

theorem workerTopic_injective {chain chain' number number' : Int}
    (same : workerTopic chain number = workerTopic chain' number') :
    chain = chain' ∧ number = number' := by
  have lists := congrArg String.toList same
  simp only [workerTopic, String.toList_append, List.append_assoc] at lists
  have cut := append_cons_inj (not_mem_underscore_toString chain)
    (not_mem_underscore_toString chain') (List.append_cancel_left lists)
  refine ⟨toString_injective (String.toList_inj.mp cut.1), ?_⟩
  exact toString_injective (String.toList_inj.mp (List.append_cancel_left cut.2))

theorem chainTopic_ne_workerTopic (chain other number : Int) :
    chainTopic chain ≠ workerTopic other number := by
  intro same
  have lists := congrArg String.toList same
  simp only [chainTopic, workerTopic, String.toList_append, List.append_assoc] at lists
  exact absurd (List.cons.inj lists).1 (by decide)

/-! ## Nodes -/

/-- The topics of a node, which has a timer if it has no subscription. -/
structure TestNode where
  subscription : Option String := none
  publisher : String
  deriving DecidableEq, Repr

def publisherNode (publishTopic : String) : TestNode where
  publisher := publishTopic

def dummyWorker (chain number : Int) (isMultichain : Bool) : TestNode where
  subscription := some
    (if isMultichain then chainTopic (chain - 1)
    else if number = 1 then chainTopic chain
    else workerTopic chain number)
  publisher := workerTopic chain (number + 1)

/-- The callback of a node, with the message that it was given. -/
inductive Callback where
  | idle
  | dispatched
  | running (received : Option String)
  deriving DecidableEq, Repr

/-- A node, with the link to its subscription and the history of its callback. -/
structure NodeState where
  callback : Callback := .idle
  count : UInt32 := 0
  link : LossyLink String := {}
  dispatches : Nat := 0
  handled : List String := []
  published : List String := []

namespace NodeState

/-- What the callback publishes: a message of its own, or the one it was given. -/
def data (state : NodeState) (received : Option String) : String :=
  received.getD ("MESSAGE" ++ toString state.count.toNat)

/-- The end of a callback that publishes. -/
def finish (state : NodeState) (received : Option String) : NodeState :=
  { state with
    callback := .idle
    count := if received.isNone then state.count + 1 else state.count
    published := state.published ++ [state.data received] }

end NodeState

abbrev Network (κ : Type*) := κ → NodeState

inductive NetworkEvent (κ : Type*) where
  | dispatch (node : κ)
  | start (node : κ)
  | discard (node : κ)
  | finish (node : κ)
  | late (node : κ)
  | move (node : κ)

def NetworkEvent.node {κ : Type*} : NetworkEvent κ → κ
  | .dispatch node | .start node | .discard node | .finish node | .late node
  | .move node => node

/-- The nodes that a program has made. -/
structure Wiring (κ : Type*) where
  made : κ → Prop
  node : κ → TestNode

namespace Wiring

variable {κ : Type*} [DecidableEq κ] (wiring : Wiring κ)

/-- A message goes to every node that is subscribed to the topic. -/
def publish (publisher : κ) (message : String) (network : Network κ) : Network κ :=
  fun reader =>
    if (wiring.node reader).subscription = some (wiring.node publisher).publisher then
      { network reader with link := (network reader).link.send message }
    else
      network reader

/-- The moves of the nodes.  A subscription is ready while a message waits for it.  A timer
may be dispatched at any time, and its execution may be discarded; it is discarded when
the callback has not ended yet.  Once the end time has passed, a callback returns without
publishing. -/
inductive Acts (before : Network κ) : NetworkEvent κ → Network κ → Prop where
  | dispatch {node : κ} : (before node).callback = .idle →
      ((wiring.node node).subscription.isSome → (before node).link.slot.isSome) →
      Acts before (.dispatch node) (Function.update before node { before node with
        callback := .dispatched
        dispatches := (before node).dispatches + 1 })
  | redispatch {node : κ} : (before node).callback ≠ .idle →
      (wiring.node node).subscription = none →
      Acts before (.dispatch node) (Function.update before node { before node with
        dispatches := (before node).dispatches + 1 })
  | startTimer {node : κ} : (before node).callback = .dispatched →
      (wiring.node node).subscription = none →
      Acts before (.start node)
        (Function.update before node { before node with callback := .running none })
  | startWorker {node : κ} {message : String} : (before node).callback = .dispatched →
      (wiring.node node).subscription.isSome → (before node).link.slot = some message →
      Acts before (.start node) (Function.update before node { before node with
        callback := .running (some message)
        link := (before node).link.take
        handled := (before node).handled ++ [message] })
  | discard {node : κ} : (before node).callback = .dispatched →
      (wiring.node node).subscription = none →
      Acts before (.discard node)
        (Function.update before node { before node with callback := .idle })
  | finish {node : κ} {received : Option String} :
      (before node).callback = .running received →
      Acts before (.finish node) (wiring.publish node ((before node).data received)
        (Function.update before node ((before node).finish received)))
  | late {node : κ} {received : Option String} :
      (before node).callback = .running received →
      Acts before (.late node)
        (Function.update before node { before node with callback := .idle })
  | move {node : κ} {link : LossyLink String} : (before node).link.Moves link →
      Acts before (.move node) (Function.update before node { before node with link })

/-- One event at a node that was made. -/
def Step (before : Network κ) (event : NetworkEvent κ) (after : Network κ) : Prop :=
  wiring.made event.node ∧ wiring.Acts before event after

/-- No node has run, and no message is on its way. -/
def silent : Network κ := fun _ => {}

end Wiring

/-! ## One node -/

/-- The message that a running callback was given. -/
def Callback.received : Callback → List String
  | .running (some message) => [message]
  | .idle | .dispatched | .running none => []

/-- The text of the message that a timer publishes after `number` others. -/
def messageText (number : Nat) : String :=
  "MESSAGE" ++ toString (UInt32.ofNat number).toNat

/-- A timer has published its first messages, and was dispatched for each of them. -/
structure NodeState.TimerSound (state : NodeState) : Prop where
  notGiven : ∀ message, state.callback ≠ .running (some message)
  published : state.published = (List.range state.published.length).map messageText
  count : state.count = UInt32.ofNat state.published.length
  dispatches : state.published.length + (if state.callback = .idle then 0 else 1) ≤
    state.dispatches

/-- A worker is dispatched once for each message that it handles, and publishes some of
them in the order in which it handled them. -/
structure NodeState.WorkerSound (state : NodeState) : Prop where
  given : state.callback ≠ .running none
  ready : state.callback = .dispatched → state.link.slot.isSome
  dispatches : state.dispatches =
    state.handled.length + (if state.callback = .dispatched then 1 else 0)
  relayed : (state.published ++ state.callback.received).Sublist state.handled

/-- A node keeps the invariant of its kind. -/
structure TestNode.Sound (node : TestNode) (state : NodeState) : Prop where
  timer : node.subscription = none → state.TimerSound
  worker : node.subscription.isSome → state.WorkerSound

namespace NodeState

variable {state : NodeState} {message : String}

theorem TimerSound.finish (sound : state.TimerSound) (running : state.callback = .running none) :
    (state.finish none).TimerSound where
  notGiven _ := nofun
  published := by
    change state.published ++ [state.data none] =
      (List.range (state.published ++ [state.data none]).length).map messageText
    rw [List.length_append, List.length_singleton, List.range_succ, List.map_append,
      ← sound.published, data, sound.count]
    rfl
  count := by
    change state.count + 1 = UInt32.ofNat (state.published ++ [state.data none]).length
    rw [List.length_append, List.length_singleton, UInt32.ofNat_add, ← sound.count]
    rfl
  dispatches := by
    have atMost := sound.dispatches
    rw [running, if_neg nofun] at atMost
    change (state.published ++ [state.data none]).length + 0 ≤ state.dispatches
    rw [List.length_append, List.length_singleton]
    exact atMost

theorem WorkerSound.finish (sound : state.WorkerSound)
    (running : state.callback = .running (some message)) :
    (state.finish (some message)).WorkerSound where
  given := nofun
  ready := nofun
  dispatches := by
    have exactly := sound.dispatches
    rw [running] at exactly
    exact exactly
  relayed := by
    have relayed := sound.relayed
    rw [running] at relayed
    change ((state.published ++ [message]) ++ []).Sublist state.handled
    rw [List.append_nil]
    exact relayed

theorem WorkerSound.start (sound : state.WorkerSound) (dispatched : state.callback = .dispatched) :
    WorkerSound { state with
      callback := .running (some message)
      link := state.link.take
      handled := state.handled ++ [message] } where
  given := nofun
  ready := nofun
  dispatches := by
    have exactly := sound.dispatches
    rw [dispatched, if_pos rfl] at exactly
    change state.dispatches = (state.handled ++ [message]).length + 0
    rw [List.length_append, List.length_singleton]
    exact exactly
  relayed := by
    have relayed := sound.relayed
    rw [dispatched] at relayed
    change (state.published ++ [message]).Sublist (state.handled ++ [message])
    apply List.Sublist.append_right
    simpa only [Callback.received, List.append_nil] using relayed

/-- What happens on the link alone does not matter to the callback. -/
theorem WorkerSound.withLink (sound : state.WorkerSound) {link : LossyLink String}
    (waits : state.link.slot.isSome → link.slot.isSome) :
    WorkerSound { state with link } where
  given := sound.given
  ready dispatched := waits (sound.ready dispatched)
  dispatches := sound.dispatches
  relayed := sound.relayed

end NodeState

namespace TestNode.Sound

variable {node : TestNode} {state : NodeState}

theorem initial (node : TestNode) : node.Sound {} where
  timer _ := ⟨fun _ => nofun, rfl, rfl, Nat.le_refl 0⟩
  worker _ := ⟨nofun, nofun, rfl, List.Sublist.slnil⟩

theorem withLink (sound : node.Sound state) {link : LossyLink String}
    (waits : state.link.slot.isSome → link.slot.isSome) :
    node.Sound { state with link } where
  timer isTimer := ⟨(sound.timer isTimer).notGiven, (sound.timer isTimer).published,
    (sound.timer isTimer).count, (sound.timer isTimer).dispatches⟩
  worker isWorker := (sound.worker isWorker).withLink waits

theorem dispatch (sound : node.Sound state) (idle : state.callback = .idle)
    (waits : node.subscription.isSome → state.link.slot.isSome) :
    node.Sound { state with callback := .dispatched, dispatches := state.dispatches + 1 } where
  timer isTimer := by
    have timer := sound.timer isTimer
    refine ⟨fun _ => nofun, timer.published, timer.count, ?_⟩
    have atMost := timer.dispatches
    rw [if_pos idle] at atMost
    exact Nat.succ_le_succ atMost
  worker isWorker := by
    have worker := sound.worker isWorker
    refine ⟨nofun, fun _ => waits isWorker, ?_, ?_⟩
    · have exactly := worker.dispatches
      rw [if_neg (by simp [idle])] at exactly
      exact congrArg Nat.succ exactly
    · have relayed := worker.relayed
      rw [idle] at relayed
      exact relayed

/-- A timer that has not ended its callback is dispatched again. -/
theorem redispatch (sound : node.Sound state) (isTimer : node.subscription = none) :
    node.Sound { state with dispatches := state.dispatches + 1 } where
  timer _ := by
    have timer := sound.timer isTimer
    exact ⟨timer.notGiven, timer.published, timer.count, timer.dispatches.trans (Nat.le_succ _)⟩
  worker isWorker := by
    rw [isTimer] at isWorker
    cases isWorker

/-- A timer starts, or a callback ends without publishing. -/
theorem withCallback (sound : node.Sound state) {callback : Callback}
    (timer : node.subscription = none →
      state.callback ≠ .idle ∧ (callback = .idle ∨ callback = .running none))
    (worker : node.subscription.isSome →
      callback = .idle ∧ ∃ message, state.callback = .running (some message)) :
    node.Sound { state with callback } where
  timer isTimer := by
    have held := sound.timer isTimer
    rcases timer isTimer with ⟨busy, next⟩
    have atMost := held.dispatches
    rw [if_neg busy] at atMost
    refine ⟨?_, held.published, held.count, ?_⟩
    · rcases next with rfl | rfl <;> exact fun _ => nofun
    · rcases next with rfl | rfl
      · exact (Nat.le_succ _).trans atMost
      · exact atMost
  worker isWorker := by
    have held := sound.worker isWorker
    rcases worker isWorker with ⟨rfl, message, running⟩
    have exactly := held.dispatches
    have relayed := held.relayed
    rw [running] at exactly relayed
    refine ⟨nofun, nofun, exactly, ?_⟩
    change (state.published ++ []).Sublist state.handled
    exact (List.Sublist.append_left (List.nil_sublist _) _).trans relayed

/-- What a running callback was given tells the kind of its node. -/
theorem running_iff (sound : node.Sound state) {received : Option String}
    (running : state.callback = .running received) :
    received.isSome ↔ node.subscription.isSome := by
  cases subscription : node.subscription with
  | none =>
      cases received with
      | none => rfl
      | some message => exact absurd running ((sound.timer subscription).notGiven message)
  | some topic =>
      cases received with
      | none => exact absurd running (sound.worker (by rw [subscription]; rfl)).given
      | some message => rfl

theorem finish (sound : node.Sound state) {received : Option String}
    (running : state.callback = .running received) : node.Sound (state.finish received) where
  timer isTimer := by
    cases received with
    | none => exact (sound.timer isTimer).finish running
    | some message => exact absurd running ((sound.timer isTimer).notGiven message)
  worker isWorker := by
    cases received with
    | none => exact absurd running (sound.worker isWorker).given
    | some message => exact (sound.worker isWorker).finish running

end TestNode.Sound

/-! ## All nodes -/

namespace Wiring

variable {κ : Type*} [DecidableEq κ] {wiring : Wiring κ} {before after : Network κ}
  {event : NetworkEvent κ}

/-- Every node keeps the invariant of its kind. -/
def Sound (wiring : Wiring κ) (network : Network κ) : Prop :=
  ∀ node, (wiring.node node).Sound (network node)

omit [DecidableEq κ] in
theorem silent_sound : wiring.Sound silent := fun node => .initial (wiring.node node)

omit [DecidableEq κ] in
theorem publish_sound {network : Network κ} (sound : wiring.Sound network) (publisher : κ)
    (message : String) : wiring.Sound (wiring.publish publisher message network) := by
  intro reader
  rw [publish]
  split
  next => exact (sound reader).withLink id
  next => exact sound reader

theorem update_sound {network : Network κ} (sound : wiring.Sound network) {node : κ}
    {state : NodeState} (own : (wiring.node node).Sound state) :
    wiring.Sound (Function.update network node state) := by
  intro other
  by_cases isOwn : other = node
  · subst isOwn
    rwa [Function.update_self]
  · rw [Function.update_of_ne isOwn]
    exact sound other

theorem Sound.step (sound : wiring.Sound before) (step : wiring.Step before event after) :
    wiring.Sound after := by
  rcases step with ⟨_, acts⟩
  cases acts with
  | dispatch idle ready => exact update_sound sound ((sound _).dispatch idle ready)
  | redispatch _ isTimer => exact update_sound sound ((sound _).redispatch isTimer)
  | startTimer dispatched isTimer =>
      apply update_sound sound
      apply (sound _).withCallback
      · intro _
        exact ⟨by rw [dispatched]; exact nofun, .inr rfl⟩
      · intro isWorker
        rw [isTimer] at isWorker
        cases isWorker
  | startWorker dispatched isWorker _ =>
      apply update_sound sound
      refine ⟨?_, fun _ => ((sound _).worker isWorker).start dispatched⟩
      intro isTimer
      rw [isTimer] at isWorker
      cases isWorker
  | discard dispatched isTimer =>
      apply update_sound sound
      apply (sound _).withCallback
      · intro _
        exact ⟨by rw [dispatched]; exact nofun, .inl rfl⟩
      · intro isWorker
        rw [isTimer] at isWorker
        cases isWorker
  | finish running => exact publish_sound (update_sound sound ((sound _).finish running)) _ _
  | @late node received running =>
      apply update_sound sound
      apply (sound _).withCallback
      · intro _
        exact ⟨by rw [running]; exact nofun, .inl rfl⟩
      · intro isWorker
        rcases Option.isSome_iff_exists.mp (((sound node).running_iff running).mpr isWorker)
          with ⟨message, rfl⟩
        exact ⟨rfl, message, running⟩
  | move moves => exact update_sound sound ((sound _).withLink moves.slot_isSome)

/-! ## All links -/

/-- `source` is the one node that publishes on the topic of `reader`. -/
def Sole (wiring : Wiring κ) (source reader : κ) : Prop :=
  ∀ publisher, wiring.made publisher →
    ((wiring.node reader).subscription = some (wiring.node publisher).publisher ↔
      publisher = source)

/-- A relation between what a source has published, what a reader has handled, and the
link between them. -/
def Links (wiring : Wiring κ) (related : List String → List String → LossyLink String → Prop)
    (network : Network κ) : Prop :=
  ∀ source reader, wiring.Sole source reader →
    related (network source).published (network reader).handled (network reader).link

/-- What an update at one node leaves alone is left alone everywhere. -/
theorem apply_update_of_eq {β : Type*} (read : NodeState → β) {node : κ} {state : NodeState}
    (same : read state = read (before node)) (other : κ) :
    read (Function.update before node state other) = read (before other) := by
  by_cases isOwn : other = node
  · subst isOwn
    rw [Function.update_self, same]
  · rw [Function.update_of_ne isOwn]

theorem Acts.moves {node : κ} (acts : wiring.Acts before (.move node) after) :
    (before node).link.Moves (after node).link := by
  cases acts with
  | move moves =>
      rw [Function.update_self]
      exact moves

section Related

variable {related : List String → List String → LossyLink String → Prop}

/-- A node that changes the state of its callback alone. -/
theorem Links.quiet (held : wiring.Links related before) {node : κ} {state : NodeState}
    (published : state.published = (before node).published)
    (handled : state.handled = (before node).handled)
    (link : state.link = (before node).link) :
    wiring.Links related (Function.update before node state) := by
  intro source reader sole
  rw [apply_update_of_eq NodeState.published published,
    apply_update_of_eq NodeState.handled handled, apply_update_of_eq NodeState.link link]
  exact held source reader sole

/-- A change at the end of a reader. -/
theorem Links.atReader (held : wiring.Links related before) {node : κ} {state : NodeState}
    (published : state.published = (before node).published)
    (own : ∀ {sent}, related sent (before node).handled (before node).link →
      related sent state.handled state.link) :
    wiring.Links related (Function.update before node state) := by
  intro source reader sole
  rw [apply_update_of_eq NodeState.published published]
  by_cases isOwn : reader = node
  · subst isOwn
    rw [Function.update_self]
    exact own (held source reader sole)
  · rw [Function.update_of_ne isOwn]
    exact held source reader sole

/-- What is published is on its way to the readers of its topic, and to no others. -/
theorem Links.finish (held : wiring.Links related before)
    (sends : ∀ {sent read link} (message : String), related sent read link →
      related (sent ++ [message]) read (link.send message))
    {node : κ} {received : Option String} (made : wiring.made node) :
    wiring.Links related (wiring.publish node ((before node).data received)
      (Function.update before node ((before node).finish received))) := by
  intro source reader sole
  have handled := apply_update_of_eq NodeState.handled
    (show ((before node).finish received).handled = (before node).handled from rfl)
  have link := apply_update_of_eq NodeState.link
    (show ((before node).finish received).link = (before node).link from rfl)
  have published : (wiring.publish node ((before node).data received)
      (Function.update before node ((before node).finish received)) source).published =
        (Function.update before node ((before node).finish received) source).published := by
    rw [publish]
    split <;> rfl
  rw [published, publish]
  by_cases isSource : node = source
  · subst isSource
    rw [if_pos ((sole node made).mpr rfl), Function.update_self]
    change related _ (Function.update before node _ reader).handled
      ((Function.update before node _ reader).link.send _)
    rw [handled reader, link reader]
    exact sends _ (held node reader sole)
  · rw [if_neg fun subscribed => isSource ((sole node made).mp subscribed),
      handled reader, link reader, Function.update_of_ne (Ne.symm isSource)]
    exact held source reader sole

theorem Links.step (held : wiring.Links related before)
    (sends : ∀ {sent read link} (message : String), related sent read link →
      related (sent ++ [message]) read (link.send message))
    (takes : ∀ {sent read link message}, related sent read link →
      link.slot = some message → related sent (read ++ [message]) link.take)
    (moves : ∀ {node sent read}, event = .move node →
      related sent read (before node).link → related sent read (after node).link)
    (step : wiring.Step before event after) : wiring.Links related after := by
  rcases step with ⟨made, acts⟩
  cases acts with
  | dispatch _ _ => exact held.quiet rfl rfl rfl
  | redispatch _ _ => exact held.quiet rfl rfl rfl
  | startTimer _ _ => exact held.quiet rfl rfl rfl
  | startWorker _ _ slot => exact held.atReader rfl fun conforms => takes conforms slot
  | discard _ _ => exact held.quiet rfl rfl rfl
  | finish _ => exact held.finish sends made
  | late _ => exact held.quiet rfl rfl rfl
  | @move node link _ =>
      refine held.atReader rfl ?_
      intro sent conforms
      have moved := moves rfl conforms
      rwa [Function.update_self] at moved

end Related

theorem Links.conforms_step (held : wiring.Links LossyLink.Conforms before)
    (step : wiring.Step before event after) : wiring.Links LossyLink.Conforms after := by
  apply held.step (fun message conforms => conforms.send message)
    (fun conforms slot => conforms.take slot) ?_ step
  rintro node sent read rfl conforms
  exact conforms.moves step.2.moves

omit [DecidableEq κ] in
theorem silent_conforms : wiring.Links LossyLink.Conforms silent :=
  fun _ _ _ => List.Sublist.slnil

/-! ## Every interleaving -/

omit [DecidableEq κ] in
/-- A node publishes no more often than it is dispatched. -/
theorem Sound.length_published_le {network : Network κ} (sound : wiring.Sound network)
    (node : κ) : (network node).published.length ≤ (network node).dispatches := by
  cases subscription : (wiring.node node).subscription with
  | none =>
      have timer := (sound node).timer subscription
      exact (Nat.le_add_right _ _).trans timer.dispatches
  | some topic =>
      have worker := (sound node).worker (by rw [subscription]; rfl)
      have relayed := worker.relayed.length_le
      rw [List.length_append] at relayed
      rw [worker.dispatches]
      exact (Nat.le_add_right _ _).trans (relayed.trans (Nat.le_add_right _ _))

omit [DecidableEq κ] in
/-- A node is dispatched no more often than the node it listens to has published. -/
theorem Sound.dispatches_le {network : Network κ} (sound : wiring.Sound network)
    (conforms : wiring.Links LossyLink.Conforms network) {source reader : κ}
    (made : wiring.made source) (sole : wiring.Sole source reader) :
    (network reader).dispatches ≤ (network source).published.length := by
  have subscription := (sole source made).mpr rfl
  have worker := (sound reader).worker (by rw [subscription]; rfl)
  have link := conforms source reader sole
  rw [worker.dispatches]
  by_cases dispatched : (network reader).callback = .dispatched
  · rw [if_pos dispatched]
    exact link.length_lt (worker.ready dispatched)
  · rw [if_neg dispatched]
    exact link.read_sublist.length_le

variable {network : Network κ} {events : List (NetworkEvent κ)}

theorem sound_of_run (run : Steps wiring.Step silent events network) :
    wiring.Sound network :=
  run.invariant wiring.Sound silent_sound Sound.step

theorem conforms_of_run (run : Steps wiring.Step silent events network) :
    wiring.Links LossyLink.Conforms network :=
  run.invariant (wiring.Links LossyLink.Conforms) silent_conforms Links.conforms_step

theorem Acts.dispatches_eq (acts : wiring.Acts before event after)
    (other : ∀ node, event ≠ .dispatch node) (node : κ) :
    (after node).dispatches = (before node).dispatches := by
  have unpublished (network : Network κ) (publisher : κ) (message : String) :
      (wiring.publish publisher message network node).dispatches =
        (network node).dispatches := by
    rw [publish]
    split <;> rfl
  have updated {own : κ} {state : NodeState} (same : state.dispatches = (before own).dispatches) :
      (Function.update before own state node).dispatches = (before node).dispatches :=
    apply_update_of_eq NodeState.dispatches same node
  cases acts with
  | dispatch _ _ => exact absurd rfl (other _)
  | redispatch _ _ => exact absurd rfl (other _)
  | startTimer _ _ => exact updated rfl
  | startWorker _ _ _ => exact updated rfl
  | discard _ _ => exact updated rfl
  | finish _ =>
      rw [unpublished]
      exact updated rfl
  | late _ => exact updated rfl
  | move _ => exact updated rfl

theorem Acts.dispatches_dispatch {node : κ}
    (acts : wiring.Acts before (.dispatch node) after) (other : κ) :
    (after other).dispatches =
      (before other).dispatches + (if other = node then 1 else 0) := by
  cases acts with
  | dispatch _ _ | redispatch _ _ =>
      by_cases isOwn : other = node
      · subst isOwn
        rw [Function.update_self, if_pos rfl]
      · rw [Function.update_of_ne isOwn, if_neg isOwn]
        rfl

/-! ## Interleavings without a loss -/

/-- A step that neither drops a message nor ends a callback without publishing. -/
def LosslessStep (wiring : Wiring κ) (before : Network κ) (event : NetworkEvent κ)
    (after : Network κ) : Prop :=
  wiring.Step before event after ∧
    match event with
    | .move node => (before node).link.Keeps (after node).link
    | .late _ => False
    | .dispatch _ | .start _ | .discard _ | .finish _ => True

/-- Workers have published what they have handled, but for the message in work. -/
def Relays (wiring : Wiring κ) (network : Network κ) : Prop :=
  ∀ node, (wiring.node node).subscription.isSome →
    (network node).published ++ (network node).callback.received = (network node).handled

theorem Links.delivers_step (held : wiring.Links LossyLink.Delivers before)
    (step : wiring.LosslessStep before event after) :
    wiring.Links LossyLink.Delivers after := by
  apply held.step (fun message delivers => delivers.send message)
    (fun delivers slot => delivers.take slot) ?_ step.1
  rintro node sent read rfl delivers
  exact delivers.keeps step.2

/-- An update at one node that keeps the order of its callback. -/
theorem Relays.update {network : Network κ} (relays : wiring.Relays network) {node : κ}
    {state : NodeState} (own : (wiring.node node).subscription.isSome →
      state.published ++ state.callback.received = state.handled) :
    wiring.Relays (Function.update network node state) := by
  intro other isWorker
  by_cases isOwn : other = node
  · subst isOwn
    rw [Function.update_self]
    exact own isWorker
  · rw [Function.update_of_ne isOwn]
    exact relays other isWorker

omit [DecidableEq κ] in
theorem Relays.publish {network : Network κ} (relays : wiring.Relays network)
    (publisher : κ) (message : String) :
    wiring.Relays (wiring.publish publisher message network) := by
  intro reader isWorker
  rw [Wiring.publish]
  split
  next => exact relays reader isWorker
  next => exact relays reader isWorker

theorem Relays.step (relays : wiring.Relays before) (sound : wiring.Sound before)
    (step : wiring.LosslessStep before event after) : wiring.Relays after := by
  rcases step with ⟨⟨_, acts⟩, lossless⟩
  cases acts with
  | @dispatch node idle _ =>
      refine relays.update fun isWorker => ?_
      have held := relays node isWorker
      rw [idle] at held
      exact held
  | redispatch _ isTimer | startTimer _ isTimer =>
      refine relays.update fun isWorker => ?_
      rw [isTimer] at isWorker
      cases isWorker
  | @startWorker node message dispatched _ _ =>
      refine relays.update fun isWorker => ?_
      have held := relays node isWorker
      rw [dispatched, Callback.received, List.append_nil] at held
      exact congrArg (· ++ [message]) held
  | discard _ isTimer =>
      refine relays.update fun isWorker => ?_
      rw [isTimer] at isWorker
      cases isWorker
  | @finish node received running =>
      refine Relays.publish (relays.update fun isWorker => ?_) _ _
      rcases Option.isSome_iff_exists.mp (((sound node).running_iff running).mpr isWorker)
        with ⟨message, rfl⟩
      have held := relays node isWorker
      rw [running] at held
      change ((before node).published ++ [message]) ++ [] = (before node).handled
      rw [List.append_nil]
      exact held
  | late _ => exact lossless.elim
  | @move node _ _ => exact relays.update (relays node)

/-- What holds over a run without a loss. -/
structure Exact (wiring : Wiring κ) (network : Network κ) : Prop where
  sound : wiring.Sound network
  delivers : wiring.Links LossyLink.Delivers network
  relays : wiring.Relays network

theorem exact_of_run (run : Steps wiring.LosslessStep silent events network) :
    wiring.Exact network := by
  apply run.invariant wiring.Exact
  · exact ⟨silent_sound, fun _ _ _ => rfl, fun _ _ => rfl⟩
  · intro before event after exact' step
    exact ⟨exact'.sound.step step.1, exact'.delivers.delivers_step step,
      exact'.relays.step exact'.sound step⟩

/-- Execute an event of a run without a loss, if it is enabled. -/
def execute (wiring : Wiring κ) [DecidablePred wiring.made] (before : Network κ)
    (event : NetworkEvent κ) : Option (Network κ) :=
  let own := before event.node
  let subscription := (wiring.node event.node).subscription
  if wiring.made event.node then
    match event, own.callback, own.link with
    | .dispatch node, .idle, link =>
        if subscription.isSome → link.slot.isSome then
          some (Function.update before node { own with
            callback := .dispatched
            dispatches := own.dispatches + 1 })
        else none
    | .dispatch node, _, _ =>
        if subscription = none then
          some (Function.update before node { own with dispatches := own.dispatches + 1 })
        else none
    | .start node, .dispatched, ⟨_, slot⟩ =>
        match subscription, slot with
        | none, _ => some (Function.update before node { own with callback := .running none })
        | some _, some message =>
            some (Function.update before node { own with
              callback := .running (some message)
              link := own.link.take
              handled := own.handled ++ [message] })
        | some _, none => none
    | .discard node, .dispatched, _ =>
        if subscription = none then
          some (Function.update before node { own with callback := .idle })
        else none
    | .finish node, .running received, _ =>
        some (wiring.publish node (own.data received)
          (Function.update before node (own.finish received)))
    | .move node, _, ⟨message :: inFlight, none⟩ =>
        some (Function.update before node { own with link := ⟨inFlight, some message⟩ })
    | _, _, _ => none
  else
    none

theorem execute_sound [DecidablePred wiring.made]
    (executed : wiring.execute before event = some after) :
    wiring.LosslessStep before event after := by
  unfold execute at executed
  dsimp only at executed
  split at executed
  case isFalse => cases executed
  next made =>
    split at executed
    next node idle =>
      split at executed
      next ready =>
        cases executed
        exact ⟨⟨made, .dispatch idle ready⟩, trivial⟩
      next => cases executed
    next node _ busy =>
      split at executed
      next isTimer =>
        cases executed
        exact ⟨⟨made, .redispatch busy isTimer⟩, trivial⟩
      next => cases executed
    next node inFlight slot dispatched link =>
      split at executed
      next isTimer =>
        cases executed
        exact ⟨⟨made, .startTimer dispatched isTimer⟩, trivial⟩
      next topic message isWorker =>
        cases executed
        refine ⟨⟨made, .startWorker dispatched ?_ ?_⟩, trivial⟩
        · exact Option.isSome_iff_exists.mpr ⟨topic, isWorker⟩
        · exact congrArg LossyLink.slot link
      next => cases executed
    next node dispatched =>
      split at executed
      next isTimer =>
        cases executed
        exact ⟨⟨made, .discard dispatched isTimer⟩, trivial⟩
      next => cases executed
    next node received running =>
      cases executed
      exact ⟨⟨made, .finish running⟩, trivial⟩
    next node message inFlight link =>
      cases executed
      change (before node).link = _ at link
      have keeps : (before node).link.Keeps ⟨inFlight, some message⟩ := by
        rw [link]
        exact ⟨.arrive, rfl⟩
      refine ⟨⟨made, .move keeps.1⟩, ?_⟩
      change (before node).link.Keeps (Function.update before node _ node).link
      rw [Function.update_self]
      exact keeps
    next => cases executed

/-- Execute an event of any run.  A move loses the oldest message in flight, or lets it
arrive and replace the one that waits. -/
def executeLossy (wiring : Wiring κ) [DecidablePred wiring.made] (before : Network κ) :
    NetworkEvent κ × Bool → Option (Network κ)
  | (.move node, isLost) =>
      match (before node).link with
      | ⟨message :: inFlight, slot⟩ =>
          if wiring.made node then
            some (Function.update before node { before node with
              link := ⟨inFlight, if isLost then slot else some message⟩ })
          else none
      | ⟨[], _⟩ => none
  | (event, _) => wiring.execute before event

theorem executeLossy_sound [DecidablePred wiring.made] {input : NetworkEvent κ × Bool}
    (executed : wiring.executeLossy before input = some after) :
    wiring.Step before input.1 after := by
  unfold executeLossy at executed
  split at executed
  next node isLost =>
    split at executed
    next message inFlight slot link =>
      split at executed
      next made =>
        cases executed
        refine ⟨made, .move ?_⟩
        rw [link]
        cases isLost with
        | false => exact .arrive
        | true => exact @LossyLink.Moves.lose _ message [] inFlight slot
      next => cases executed
    next => cases executed
  next => exact (execute_sound executed).1

end Wiring

end PriorityExecutor
