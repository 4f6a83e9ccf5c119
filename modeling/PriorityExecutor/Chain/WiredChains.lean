import PriorityExecutor.Chain.Experiment
import PriorityExecutor.Chain.Topics

/-!
# Chains that are wired by their topics

The results about chains suppose that no executable is dispatched more often than its
predecessor.  Nothing in the executor sees to that.  It follows from the nodes: a
subscription is ready only while a message waits for it, and the message comes from the
node before, whichever way callbacks, losses and arrivals interleave.

With `is_f1tenth`, the first worker of chain 1 listens to the timer of chain 0.
-/

namespace PriorityExecutor

/-! ## Rounds over a network -/

namespace ChainSystem

variable {ι κ : Type*} [DecidableEq ι] [DecidableEq κ]

/-- The executables of the chains are nodes, each of which listens to the one before it
alone. -/
structure WiredBy (system : ChainSystem ι) (wiring : Wiring κ) (place : ι → Nat → κ) :
    Prop where
  distinct : ∀ {index other stage otherStage}, place index stage = place other otherStage →
    index = other ∧ stage = otherStage
  made : ∀ index, ∀ stage ≤ (system.chain index).last, wiring.made (place index stage)
  sole : ∀ index, ∀ stage < (system.chain index).last,
    wiring.Sole (place index stage) (place index (stage + 1))

/-- The chains with their strategy, and the nodes. -/
abbrev WiredState (ι κ : Type*) := ChainState ι × Network κ

variable (system : ChainSystem ι) (wiring : Wiring κ) (place : ι → Nat → κ)

/-- What a round settled on.  A stage is only found ready if its node can be dispatched. -/
inductive WiredSettles (before : WiredState ι κ) (turn : Turn ι) (after : WiredState ι κ) :
    Prop where
  | nothing : turn.round.ready.selected turn.round.view = none →
      after.1.2 = before.1.2 → after.2 = before.2 → WiredSettles before turn after
  | foreign {handle : Handle} {executable : PriorityExecutable} :
      turn.round.ready.selected turn.round.view = some (handle, turn.round.anyExec) →
      turn.round.ready.priorityMap handle = some executable →
      executable.schedType ≠ .deadline → after.1.2 = before.1.2 → after.2 = before.2 →
      WiredSettles before turn after
  | stage {index : ι} {stage : Nat} :
      turn.round.ready.selected turn.round.view =
        some ((system.chain index).executables stage, turn.round.anyExec) →
      system.Dispatch before.1 (index, stage) after.1 →
      wiring.Step before.2 (.dispatch (place index stage)) after.2 →
      WiredSettles before turn after

/-- A round, or anything else that happens at a node. -/
inductive WiredStep (before : WiredState ι κ) :
    Turn ι ⊕ NetworkEvent κ → WiredState ι κ → Prop where
  | turn {turn : Turn ι} {after : WiredState ι κ} :
      RoundStep before.1.1 turn.round after.1.1 → turn.history = before.1.2 →
      WiredSettles system wiring place before turn after →
      WiredStep before (.inl turn) after
  | event {event : NetworkEvent κ} {network : Network κ} :
      (∀ node, event ≠ .dispatch node) → wiring.Step before.2 event network →
      WiredStep before (.inr event) (before.1, network)

/-- The histories of the chains count the dispatches of the nodes. -/
structure WiredHeld (state : WiredState ι κ) : Prop where
  sound : wiring.Sound state.2
  conforms : wiring.Links LossyLink.Conforms state.2
  counts : ∀ index, ∀ stage ≤ (system.chain index).last,
    (state.1.2 index).count stage = (state.2 (place index stage)).dispatches

variable {system wiring place} {before after : WiredState ι κ}

omit [DecidableEq ι] [DecidableEq κ] in
/-- No executable gets ahead of its predecessor. -/
theorem WiredHeld.inOrder (wired : system.WiredBy wiring place)
    (held : WiredHeld system wiring place before) (index : ι) :
    (before.1.2 index).InOrder (system.chain index).last := by
  intro stage inRange
  rw [held.counts index stage inRange.le, held.counts index (stage + 1) inRange]
  exact (held.sound.dispatches_le held.conforms (wired.made index stage inRange.le)
    (wired.sole index stage inRange)).trans (held.sound.length_published_le _)

theorem WiredHeld.dispatch (wired : system.WiredBy wiring place)
    (held : WiredHeld system wiring place before) {index : ι} {stage : Nat}
    (dispatch : system.Dispatch before.1 (index, stage) after.1)
    (step : wiring.Step before.2 (.dispatch (place index stage)) after.2) :
    WiredHeld system wiring place after where
  sound := held.sound.step step
  conforms := held.conforms.conforms_step step
  counts other otherStage isStage := by
    rw [step.2.dispatches_dispatch, dispatch.2.2, ← held.counts other otherStage isStage]
    dsimp only
    by_cases isOwn : other = index
    · subst isOwn
      rw [Function.update_self]
      by_cases isSame : otherStage = stage
      · subst isSame
        rw [History.count_record_self, if_pos rfl]
      · rw [History.count_record_of_ne isSame,
          if_neg fun same => isSame (wired.distinct same).2]
        rfl
    · rw [Function.update_of_ne isOwn, if_neg fun same => isOwn (wired.distinct same).1]
      rfl

/-- A step of the wired system is a turn of the chains, or it is not seen by them. -/
theorem WiredHeld.step (wired : system.WiredBy wiring place)
    (held : WiredHeld system wiring place before) {label : Turn ι ⊕ NetworkEvent κ}
    (step : WiredStep system wiring place before label after) :
    WiredHeld system wiring place after ∧
      match label with
      | .inl turn => system.TurnStep before.1 turn after.1
      | .inr _ => after.1 = before.1 := by
  cases step with
  | turn round history settles =>
      cases settles with
      | nothing none histories network =>
          refine ⟨⟨?_, ?_, ?_⟩, round, history, .nothing none histories⟩
          · rw [network]
            exact held.sound
          · rw [network]
            exact held.conforms
          · rw [network, histories]
            exact held.counts
      | foreign selected entry notDeadline histories network =>
          refine ⟨⟨?_, ?_, ?_⟩, round, history, .foreign selected entry notDeadline histories⟩
          · rw [network]
            exact held.sound
          · rw [network]
            exact held.conforms
          · rw [network, histories]
            exact held.counts
      | stage selected dispatch node =>
          have heldAfter := held.dispatch wired dispatch node
          exact ⟨heldAfter, round, history,
            .stage selected ⟨dispatch, heldAfter.inOrder wired _⟩⟩
  | event notDispatch node =>
      refine ⟨⟨held.sound.step node, held.conforms.conforms_step node, ?_⟩, rfl⟩
      intro index stage isStage
      rw [node.2.dispatches_eq notDispatch]
      exact held.counts index stage isStage

/-- The rounds of a run of the wired system are a run of turns. -/
theorem turns_of_run (wired : system.WiredBy wiring place) {start stop : WiredState ι κ}
    {labels : List (Turn ι ⊕ NetworkEvent κ)} (held : WiredHeld system wiring place start)
    (run : Steps (WiredStep system wiring place) start labels stop) :
    WiredHeld system wiring place stop ∧
      Steps system.TurnStep start.1 (labels.filterMap Sum.getLeft?) stop.1 := by
  induction run with
  | nil => exact ⟨held, .nil⟩
  | @snoc middle stop labels label _ last ih =>
      rcases ih with ⟨heldMiddle, turns⟩
      rcases heldMiddle.step wired last with ⟨heldStop, seen⟩
      refine ⟨heldStop, ?_⟩
      rw [List.filterMap_append]
      cases label with
      | inl turn => exact .snoc turns seen
      | inr event =>
          have unseen : ([.inr event] : List (Turn ι ⊕ NetworkEvent κ)).filterMap
              Sum.getLeft? = [] := rfl
          rw [seen, unseen, List.append_nil]
          exact turns

omit [DecidableEq ι] [DecidableEq κ] in
/-- Nothing was dispatched and no node has run. -/
theorem Initial.wiredHeld {release : ι → Int} {counter : ι → Nat → Int}
    {state : ChainState ι} (initial : system.Initial release counter state) :
    WiredHeld system wiring place (state, Wiring.silent) := by
  refine ⟨Wiring.silent_sound, Wiring.silent_conforms, ?_⟩
  intro index stage _
  rw [initial.history]
  rfl

end ChainSystem

namespace Experiment

open Strategy

variable (experiment : Experiment)

/-- The node that the first loop makes for a position. -/
def testNode (chainIndex cbIndex : Nat) : TestNode :=
  if cbIndex = 0 then publisherNode ("topic_" ++ toString chainIndex)
  else dummyWorker (toInt32 chainIndex) (toInt32 cbIndex)
    (decide (chainIndex = 1 ∧ cbIndex = 1 ∧ experiment.isF1tenth = true))

def wiring : Wiring (Nat × Nat) where
  made place := place.1 < experiment.chainLengths.length ∧
    place.2 < experiment.lengthOf place.1 ∧ experiment.Registered place.1 place.2
  node place := experiment.testNode place.1 place.2

/-- The node behind a position, which may stand for the first node of chain 0. -/
def sourceOf (chainIndex cbIndex : Nat) : Nat × Nat :=
  if experiment.Registered chainIndex cbIndex then (chainIndex, cbIndex) else (0, 0)

/-- The numbers of the nodes of a chain are in the range of `int`. -/
def ShortChains : Prop :=
  ∀ index < experiment.chainLengths.length, experiment.lengthOf index < 2 ^ 31

variable {experiment}

/-! ## Who listens to whom -/

/-- The topic on which the node at a position publishes. -/
def topicOf (place : Nat × Nat) : String :=
  if place.2 = 0 then chainTopic place.1 else workerTopic place.1 (place.2 + 1)

theorem topicOf_injective : Function.Injective topicOf := by
  rintro ⟨index, stage⟩ ⟨index', stage'⟩ same
  simp only [topicOf] at same
  split at same <;> split at same
  · next isFirst isFirst' =>
      have chains := Int.ofNat.inj (chainTopic_injective same)
      rw [chains, isFirst, isFirst']
  · exact absurd same (chainTopic_ne_workerTopic _ _ _)
  · exact absurd same.symm (chainTopic_ne_workerTopic _ _ _)
  · rcases workerTopic_injective same with ⟨chains, numbers⟩
    have stages := Int.ofNat.inj ((Int.add_left_inj 1).mp numbers)
    rw [Int.ofNat.inj chains, stages]

theorem publisher_testNode (complete : experiment.Complete) (short : experiment.ShortChains)
    {index stage : Nat} (inChains : index < experiment.chainLengths.length)
    (inRange : stage < experiment.lengthOf index) :
    (experiment.testNode index stage).publisher = topicOf (index, stage) := by
  rw [testNode, topicOf]
  by_cases isFirst : stage = 0
  · rw [if_pos isFirst, if_pos isFirst]
    rfl
  · rw [if_neg isFirst, if_neg isFirst, dummyWorker,
      toInt32_natCast (inChains.trans complete.fewChains),
      toInt32_natCast (inRange.trans (short index inChains))]

theorem subscription_testNode (complete : experiment.Complete)
    (short : experiment.ShortChains) {index stage : Nat}
    (inChains : index < experiment.chainLengths.length)
    (inRange : stage + 1 < experiment.lengthOf index) :
    (experiment.testNode index (stage + 1)).subscription =
      some (topicOf (experiment.sourceOf index stage)) := by
  rw [testNode, if_neg (Nat.succ_ne_zero stage), dummyWorker,
    toInt32_natCast (inChains.trans complete.fewChains),
    toInt32_natCast (inRange.trans (short index inChains))]
  rw [sourceOf, topicOf]
  by_cases isFirst : stage = 0
  · subst isFirst
    by_cases shared : experiment.isF1tenth = true ∧ index = 1
    · rcases shared with ⟨isF1tenth, rfl⟩
      simp [Registered, isF1tenth]
    · have registered : experiment.Registered index 0 :=
        fun unregistered => shared ⟨unregistered.1, unregistered.2.1⟩
      have notMultichain : ¬ (index = 1 ∧ 0 + 1 = 1 ∧ experiment.isF1tenth = true) :=
        fun multichain => shared ⟨multichain.2.2, multichain.1⟩
      rw [if_pos registered, if_neg (by simpa using notMultichain), if_pos rfl]
      rfl
  · have registered : experiment.Registered index stage :=
      fun unregistered => isFirst unregistered.2.2
    have later : ¬ ((stage + 1 : Nat) : Int) = 1 := by omega
    rw [if_pos registered, if_neg (by simp [isFirst]), if_neg later, if_neg isFirst]
    rfl

theorem isSome_subscription (complete : experiment.Complete)
    (short : experiment.ShortChains) {index stage : Nat}
    (inChains : index < experiment.chainLengths.length)
    (inRange : stage + 1 < experiment.lengthOf index) :
    (experiment.wiring.node (index, stage + 1)).subscription.isSome := by
  change (experiment.testNode index (stage + 1)).subscription.isSome
  rw [subscription_testNode complete short inChains inRange]
  rfl

/-- Every worker listens to the node before it, and to no other. -/
theorem sole_source (complete : experiment.Complete) (short : experiment.ShortChains)
    {index stage : Nat} (inChains : index < experiment.chainLengths.length)
    (inRange : stage + 1 < experiment.lengthOf index) :
    experiment.wiring.Sole (experiment.sourceOf index stage) (index, stage + 1) := by
  rintro ⟨other, otherStage⟩ ⟨otherInChains, otherInRange, _⟩
  change (experiment.testNode index (stage + 1)).subscription =
    some (experiment.testNode other otherStage).publisher ↔ _
  rw [subscription_testNode complete short inChains inRange,
    publisher_testNode complete short otherInChains otherInRange, Option.some_inj]
  exact ⟨fun same => topicOf_injective same.symm, fun same => congrArg topicOf same.symm⟩

theorem made_sourceOf (complete : experiment.Complete) {index stage : Nat}
    (inChains : index < experiment.chainLengths.length)
    (inRange : stage < experiment.lengthOf index) :
    experiment.wiring.made (experiment.sourceOf index stage) := by
  rw [sourceOf]
  by_cases registered : experiment.Registered index stage
  · rw [if_pos registered]
    exact ⟨inChains, inRange, registered⟩
  · rw [if_neg registered]
    have first : 0 < experiment.chainLengths.length := Nat.zero_lt_of_lt inChains
    exact ⟨first, complete.notEmpty 0 first, fun unregistered => by cases unregistered.2.1⟩

theorem sourceOf_succ (index stage : Nat) :
    experiment.sourceOf index (stage + 1) = (index, stage + 1) :=
  if_pos fun unregistered => Nat.succ_ne_zero stage unregistered.2.2

/-- The first node of every chain is a timer. -/
theorem timer_sourceOf (experiment : Experiment) (index : Nat) :
    (experiment.wiring.node (experiment.sourceOf index 0)).subscription = none := by
  rw [sourceOf]
  split <;> rfl

/-! ## What the workers handle -/

theorem messageText_injOn {number number' : Nat} (small : number < 2 ^ 32)
    (small' : number' < 2 ^ 32) (same : messageText number = messageText number') :
    number = number' := by
  have numbers := natRepr_injective ((String.append_right_inj "MESSAGE").mp same)
  rwa [UInt32.toNat_ofNat_of_lt' small, UInt32.toNat_ofNat_of_lt' small'] at numbers

theorem nodup_messages {count : Nat} (small : count ≤ 2 ^ 32) :
    ((List.range count).map messageText).Nodup := by
  apply List.nodup_range.map_on
  intro number member number' member' same
  exact messageText_injOn ((List.mem_range.mp member).trans_le small)
    ((List.mem_range.mp member').trans_le small) same

open Wiring

variable {network : Network (Nat × Nat)} {events : List (NetworkEvent (Nat × Nat))}

/-- What the node behind a worker has published, and with it what the worker has handled,
is among the messages of the timer. -/
theorem published_sublist (complete : experiment.Complete) (short : experiment.ShortChains)
    (sound : experiment.wiring.Sound network)
    (conforms : experiment.wiring.Links LossyLink.Conforms network) {index : Nat}
    (inChains : index < experiment.chainLengths.length) (stage : Nat)
    (inRange : stage < experiment.lengthOf index) :
    (network (experiment.sourceOf index stage)).published.Sublist
      ((List.range (network (experiment.sourceOf index 0)).published.length).map
        messageText) := by
  induction stage with
  | zero =>
      have timer := (sound _).timer (timer_sourceOf experiment index)
      rw [← timer.published]
  | succ stage ih =>
      have sole := sole_source complete short inChains inRange
      have relayed := ((sound _).worker
        (isSome_subscription complete short inChains inRange)).relayed
      have heard := (conforms _ _ sole).read_sublist
      rw [sourceOf_succ]
      apply ((List.sublist_append_left _ _).trans relayed).trans
      exact heard.trans (ih (Nat.lt_of_succ_lt inRange))

/-- In every interleaving of callbacks, arrivals and losses, every worker handles messages
of the timer of its chain only, in the order in which they were published; none twice, as
long as the counter has not come round; and no worker is dispatched more often than the
node it listens to. -/
theorem messages_in_order (complete : experiment.Complete) (short : experiment.ShortChains)
    (run : Steps experiment.wiring.Step silent events network) {index stage : Nat}
    (inChains : index < experiment.chainLengths.length)
    (inRange : stage + 1 < experiment.lengthOf index) :
    (network (index, stage + 1)).handled.Sublist
      ((List.range (network (experiment.sourceOf index 0)).published.length).map
        messageText) ∧
    ((network (experiment.sourceOf index 0)).published.length ≤ 2 ^ 32 →
      (network (index, stage + 1)).handled.Nodup) ∧
    (network (index, stage + 1)).dispatches ≤
      (network (experiment.sourceOf index stage)).dispatches := by
  have sound := sound_of_run run
  have conforms := conforms_of_run run
  have sole := sole_source complete short inChains inRange
  have made := made_sourceOf complete inChains (Nat.lt_of_succ_lt inRange)
  have handled := (conforms _ _ sole).read_sublist.trans
    (published_sublist complete short sound conforms inChains stage (Nat.lt_of_succ_lt inRange))
  refine ⟨handled, fun small => (nodup_messages small).sublist handled, ?_⟩
  exact (sound.dispatches_le conforms made sole).trans (sound.length_published_le _)

/-- After a run that loses nothing, once every callback has ended and every link is empty,
every worker has handled exactly the messages of its timer. -/
theorem messages_all_handled (complete : experiment.Complete)
    (short : experiment.ShortChains)
    (run : Steps experiment.wiring.LosslessStep silent events network)
    (atRest : ∀ place, experiment.wiring.made place →
      (network place).callback = .idle ∧ (network place).link.contents = [])
    {index stage : Nat} (inChains : index < experiment.chainLengths.length)
    (inRange : stage + 1 < experiment.lengthOf index) :
    (network (index, stage + 1)).handled =
      (List.range (network (experiment.sourceOf index 0)).published.length).map
        messageText := by
  have exact' := exact_of_run run
  have made : ∀ {stage}, stage + 1 < experiment.lengthOf index →
      experiment.wiring.made (index, stage + 1) :=
    fun inRange => ⟨inChains, inRange, fun unregistered => nomatch unregistered.2.2⟩
  have heard : ∀ {stage}, stage + 1 < experiment.lengthOf index →
      (network (index, stage + 1)).handled =
        (network (experiment.sourceOf index stage)).published := by
    intro stage inRange
    have delivers := exact'.delivers _ _ (sole_source complete short inChains inRange)
    rwa [LossyLink.Delivers, (atRest _ (made inRange)).2, List.append_nil] at delivers
  induction stage with
  | zero =>
      rw [heard inRange]
      exact ((exact'.sound _).timer (timer_sourceOf experiment index)).published
  | succ stage ih =>
      have earlier := Nat.lt_of_succ_lt inRange
      have relays := exact'.relays _ (isSome_subscription complete short inChains earlier)
      rw [(atRest _ (made earlier)).1, Callback.received, List.append_nil] at relays
      rw [heard inRange, sourceOf_succ, relays]
      exact ih earlier

instance : DecidablePred experiment.wiring.made := fun place =>
  inferInstanceAs (Decidable (place.1 < experiment.chainLengths.length ∧
    place.2 < experiment.lengthOf place.1 ∧ experiment.Registered place.1 place.2))

/-! Messages in the second chain of `multi_arb.cpp`, which has four nodes. -/

theorem multiArb_short : multiArb.ShortChains := by
  unfold ShortChains
  decide

/-- A whole callback of a node. -/
def callback (place : Nat × Nat) : List (NetworkEvent (Nat × Nat)) :=
  [.dispatch place, .start place, .finish place]

/-- The events before message 2 is lost: message 0 is replaced before it is read, and
message 1 reaches the second worker. -/
def eventsBefore : List (NetworkEvent (Nat × Nat)) :=
  callback (1, 0) ++ [.move (1, 1)] ++ callback (1, 0) ++ [.move (1, 1)] ++
    callback (1, 1) ++ [.move (1, 2)] ++ callback (1, 2) ++ callback (1, 0) ++
    [.move (1, 1)] ++ callback (1, 1)

/-- The events after it: message 3 gets through. -/
def eventsAfter : List (NetworkEvent (Nat × Nat)) :=
  callback (1, 0) ++ [.move (1, 1)] ++ callback (1, 1) ++ [.move (1, 2)] ++ callback (1, 2)

def lossyEvents : List (NetworkEvent (Nat × Nat) × Bool) :=
  eventsBefore.map (·, false) ++ [(.move (1, 2), true)] ++ eventsAfter.map (·, false)

theorem messages_in_order_lossy :
    ∃ network, Steps multiArb.wiring.Step silent (lossyEvents.map Prod.fst) network ∧
      (network (1, 2)).handled = ["MESSAGE1", "MESSAGE3"] ∧
      (network (1, 2)).handled.Sublist ((List.range 4).map messageText) ∧
      (network (1, 2)).handled.Nodup ∧
      (network (1, 2)).dispatches ≤ (network (1, 1)).dispatches := by
  have run : ∃ network, Steps multiArb.wiring.Step silent (lossyEvents.map Prod.fst) network ∧
      (network (1, 2)).handled = ["MESSAGE1", "MESSAGE3"] ∧
      (network (1, 0)).published.length = 4 :=
    ⟨_, Steps.of_replay Prod.fst executeLossy_sound lossyEvents rfl, rfl, rfl⟩
  rcases run with ⟨network, run, handled, published⟩
  rcases messages_in_order multiArb_complete multiArb_short run
    (show 1 < multiArb.chainLengths.length by decide)
    (show 1 + 1 < multiArb.lengthOf 1 by decide) with ⟨sublist, nodup, dispatches⟩
  have timer : (network (multiArb.sourceOf 1 0)).published.length = 4 := published
  rw [timer] at sublist nodup
  exact ⟨network, run, handled, sublist, nodup (by decide), dispatches⟩

/-- Two messages get through the whole chain; the timer is dispatched once more while its
first callback runs. -/
def losslessEvents : List (NetworkEvent (Nat × Nat)) :=
  [.dispatch (1, 0), .start (1, 0), .dispatch (1, 0), .finish (1, 0), .move (1, 1)] ++
    callback (1, 1) ++ [.move (1, 2)] ++ callback (1, 0) ++ [.move (1, 1)] ++
    callback (1, 2) ++ [.move (1, 3)] ++ callback (1, 1) ++ [.move (1, 2)] ++
    callback (1, 3) ++ callback (1, 2) ++ [.move (1, 3)] ++ callback (1, 3)

theorem messages_all_handled_twoMessages :
    ∃ network, Steps multiArb.wiring.LosslessStep silent losslessEvents network ∧
      (network (1, 0)).dispatches = 3 ∧
      (network (1, 3)).handled = (List.range 2).map messageText := by
  have run : ∃ network, Steps multiArb.wiring.LosslessStep silent
        (losslessEvents.map id) network ∧
      (∀ index < multiArb.chainLengths.length, ∀ stage < multiArb.lengthOf index,
        (network (index, stage)).callback = .idle ∧
          (network (index, stage)).link.contents = []) ∧
      (network (1, 0)).dispatches = 3 ∧ (network (1, 0)).published.length = 2 :=
    ⟨_, Steps.of_replay id execute_sound losslessEvents rfl, by decide, rfl, rfl⟩
  rw [List.map_id] at run
  rcases run with ⟨network, run, rests, dispatches, published⟩
  have atRest : ∀ place, multiArb.wiring.made place →
      (network place).callback = .idle ∧ (network place).link.contents = [] :=
    fun place made => rests place.1 made.1 place.2 made.2.1
  have handled := messages_all_handled multiArb_complete multiArb_short run atRest
    (show 1 < multiArb.chainLengths.length by decide)
    (show 2 + 1 < multiArb.lengthOf 1 by decide)
  have timer : (network (multiArb.sourceOf 1 0)).published.length = 2 := published
  rw [timer] at handled
  exact ⟨network, run, dispatches, handled⟩

/-! ## Rounds over the nodes of an experiment -/

theorem wiredBy (complete : experiment.Complete) (short : experiment.ShortChains)
    (notShared : experiment.isF1tenth = false) :
    complete.system.WiredBy experiment.wiring fun index stage => (index.val, stage) where
  distinct same := ⟨Fin.ext (Prod.mk.inj same).1, (Prod.mk.inj same).2⟩
  made index stage isStage := by
    have inRange : stage < experiment.lengthOf index :=
      (Nat.le_sub_one_iff_lt (complete.notEmpty index index.isLt)).mp isStage
    exact ⟨index.isLt, inRange, by simp [Registered, notShared]⟩
  sole index stage inRange := by
    have registered : experiment.Registered index stage := by simp [Registered, notShared]
    have sole := sole_source complete short index.isLt (Nat.add_lt_of_lt_sub inRange)
    rwa [sourceOf, if_pos registered] at sole

/-- Once a program has set up chains with a timer each and two or more nodes, its executor
needs no promise about the order of dispatches.  However rounds, callbacks, arrivals and
losses interleave, the deques of each chain are the ring of its unfinished instances, and
each round that fills `any_exec` while the chains are on time serves the earliest
deadline. -/
theorem nodes_earliest_first (complete : experiment.Complete)
    (short : experiment.ShortChains) (notShared : experiment.isF1tenth = false)
    (long : ∀ index < experiment.chainLengths.length, 2 ≤ experiment.lengthOf index) :
    ∃ state, experiment.setUp = .ok state ∧
      ∀ labels stop,
        Steps (ChainSystem.WiredStep complete.system experiment.wiring
          fun index stage => (index.val, stage))
            ((state.strat, complete.histories), silent) labels stop →
        complete.system.Invariant complete.release (fun _ _ => 0) stop.1 ∧
        ∀ turn, .inl turn ∈ labels → complete.system.OnTime turn →
          turn.round.anyExec.isFilled = true → complete.system.EarliestFirst turn := by
  rcases complete.setUp with ⟨state, succeeds, held⟩
  have initial := held.initial complete notShared long
  refine ⟨state, succeeds, ?_⟩
  intro labels stop run
  rcases ChainSystem.turns_of_run (wiredBy complete short notShared) initial.wiredHeld run with
    ⟨_, turns⟩
  have kept := turns.invariant _ initial.kept ChainSystem.Kept.step
  refine ⟨kept.invariant, ?_⟩
  intro turn member
  have isTurn : turn ∈ labels.filterMap Sum.getLeft? :=
    List.mem_filterMap.mpr ⟨.inl turn, member, rfl⟩
  exact turns.forall_labels _ initial.kept ChainSystem.Kept.step
    (fun kept step onTime filled => kept.earliestFirst step onTime filled) turn isTurn

/-- The round of `bothTurn`, and then the callback that it dispatched. -/
theorem nodes_earliest_first_multiArb :
    ∃ state stop, multiArb.setUp = .ok state ∧
      Steps (ChainSystem.WiredStep multiArb_complete.system multiArb.wiring
        fun index stage => (index.val, stage))
          ((state.strat, multiArb_complete.histories), silent)
          [.inl (bothTurn state.strat), .inr (.start (0, 0)), .inr (.finish (0, 0))] stop ∧
      (stop.2 (0, 0)).published = ["MESSAGE0"] ∧
      multiArb_complete.system.Invariant multiArb_complete.release (fun _ _ => 0) stop.1 ∧
      multiArb_complete.system.EarliestFirst (bothTurn state.strat) := by
  rcases bothTurn_round with ⟨state, strategy, succeeds, round, selected, _, _⟩
  rcases nodes_earliest_first multiArb_complete multiArb_short rfl (by decide) with
    ⟨found, foundEq, runs⟩
  rw [succeeds] at foundEq
  cases foundEq
  let first : Fin multiArb.chainLengths.length := ⟨0, by decide⟩
  rcases round.bookkeeping selected with ⟨current, input, flags, _, booked⟩
  have nodes : ∃ one two three, multiArb.wiring.Step silent (.dispatch (0, 0)) one ∧
      multiArb.wiring.Step one (.start (0, 0)) two ∧
      multiArb.wiring.Step two (.finish (0, 0)) three ∧
      (three (0, 0)).published = ["MESSAGE0"] :=
    ⟨_, _, _, ⟨by decide, .dispatch rfl nofun⟩, ⟨by decide, .startTimer rfl rfl⟩,
      ⟨by decide, .finish rfl⟩, rfl⟩
  rcases nodes with ⟨one, two, three, dispatched, started, finished, published⟩
  let chains := multiArb_complete.system.dispatched
    (state.strat, multiArb_complete.histories) strategy first 0
  have dispatch : multiArb_complete.system.Dispatch
      (state.strat, multiArb_complete.histories) (first, 0) chains :=
    ⟨Nat.zero_le _, ⟨current, input, flags, booked⟩, rfl⟩
  have settles : ChainSystem.WiredSettles multiArb_complete.system multiArb.wiring
      (fun index stage => (index.val, stage))
      ((state.strat, multiArb_complete.histories), silent) (bothTurn state.strat)
      (chains, one) := by
    apply @ChainSystem.WiredSettles.stage _ _ _ _ _ _ _ _ _ _ first 0
    · exact selected
    · exact dispatch
    · exact dispatched
  have turn : ChainSystem.WiredStep multiArb_complete.system multiArb.wiring
      (fun index stage => (index.val, stage))
      ((state.strat, multiArb_complete.histories), silent) (.inl (bothTurn state.strat))
      (chains, one) := .turn round rfl settles
  have run := ((Steps.singleton turn).snoc (.event (by rintro _ ⟨⟩) started)).snoc
    (.event (by rintro _ ⟨⟩) finished)
  rcases runs _ _ run with ⟨invariant, earliest⟩
  exact ⟨state, _, succeeds, run, published, invariant,
    earliest _ List.mem_cons_self (bothTurn_onTime state.strat) rfl⟩

end Experiment

end PriorityExecutor
