import PriorityExecutor.Chain.Experiment
import PriorityExecutor.Strategy.FixedPriorities

/-!
# Chains with static priorities

`arb_static.cpp`, `multi_static1.cpp` and `st_2.cpp` run the same chains under a table of
priorities.  Their loop registers every node as chain-aware with its entry of the table,
allocates no deques and assigns no release.  The first two share the timer of chain 0 with
chain 1 and set `is_f1tenth`; `st_2.cpp` does neither.
-/

namespace PriorityExecutor

/-- The vectors of these programs: those of `Experiment`, of which `chain_deadlines` is
read by nothing here, and the table. -/
structure StaticExperiment extends Experiment where
  chainPriorities : List (List Nat)

namespace StaticExperiment

open Strategy Experiment

variable (experiment : StaticExperiment)

/-- `chain_priorities[chain_index][cb_index]` as the `int` parameter `priority`. -/
def priorityAt (chainIndex cbIndex : Nat) : Except Fault Int := do
  let row ← elementAt experiment.chainPriorities chainIndex
  let priority ← elementAt row cbIndex
  .ok (toInt32 priority)

/-- The body of the loop over the callbacks of a chain. -/
def makeNode (chainIndex : Nat) (state : SetUpState) (cbIndex : Nat) :
    Except Fault SetUpState :=
  if cbIndex = 0 then
    if experiment.isF1tenth ∧ chainIndex = 1 then do
      let row ← elementAt state.nodes 0
      let publisherNode ← elementAt row 0
      .ok (pushNode state state.strat chainIndex publisherNode)
    else do
      let _ ← elementAt experiment.chainPeriods chainIndex
      let _ ← elementAt experiment.nodeRuntimes state.currentNodeId
      let timer := experiment.handleOf chainIndex cbIndex
      let priority ← experiment.priorityAt chainIndex cbIndex
      let strat := state.strat.setExecutablePriority timer priority .timer
        .chainAwarePriority (toInt32 chainIndex)
      let strat ← strat.setFirstInChain timer
      .ok (pushNode state strat chainIndex timer)
  else do
    let _ ← elementAt experiment.nodeRuntimes state.currentNodeId
    let subscription := experiment.handleOf chainIndex cbIndex
    let priority ← experiment.priorityAt chainIndex cbIndex
    let strat := state.strat.setExecutablePriority subscription priority .subscription
      .chainAwarePriority (toInt32 chainIndex)
    .ok (pushNode state strat chainIndex subscription)

/-- The body of the loop that makes the chains. -/
def makeChain (state : SetUpState) (chainIndex : Nat) : Except Fault SetUpState := do
  let length ← elementAt experiment.chainLengths chainIndex
  countTo length (experiment.makeNode chainIndex) { state with nodes := state.nodes ++ [[]] }

/-- The loop of `main`, on a new memory strategy. -/
def setUp : Except Fault SetUpState :=
  countTo experiment.chainLengths.length experiment.makeChain
    { strat := { isF1tenth := experiment.isF1tenth } }

/-! ## The table -/

def priorityOf (chainIndex cbIndex : Nat) : Nat :=
  (experiment.chainPriorities.getD chainIndex []).getD cbIndex 0

/-- Every chain has a node and a period, every node a runtime and a priority in the range
of `int`, and what the program allocates has addresses of its own. -/
structure Complete : Prop where
  runtimes : experiment.chainLengths.sum ≤ experiment.nodeRuntimes.length
  periods : experiment.chainLengths.length ≤ experiment.chainPeriods.length
  notEmpty : ∀ index < experiment.chainLengths.length, 1 ≤ experiment.lengthOf index
  rows : experiment.chainLengths.length ≤ experiment.chainPriorities.length
  columns : ∀ index < experiment.chainLengths.length,
    experiment.lengthOf index ≤ (experiment.chainPriorities.getD index []).length
  priorityRange : ∀ index < experiment.chainLengths.length,
    ∀ stage < experiment.lengthOf index, experiment.priorityOf index stage < 2 ^ 31
  handles : ∀ {left right i j}, experiment.handleOf left i = experiment.handleOf right j →
    left = right ∧ i = j

/-- The node of this position is made and registered. -/
def Position (index stage : Nat) : Prop :=
  index < experiment.chainLengths.length ∧ stage < experiment.lengthOf index ∧
    experiment.Registered index stage

/-- The positions in the order of the loops. -/
def positions : List (Nat × Nat) :=
  (List.range experiment.chainLengths.length).flatMap fun index =>
    ((List.range (experiment.lengthOf index)).filter fun stage =>
      experiment.Registered index stage).map (Prod.mk index)

/-- The priority that the program gives to a handle. -/
def table (handle : Handle) : Option Int :=
  (experiment.positions.find? fun position =>
    experiment.handleOf position.1 position.2 = handle).map fun position =>
      experiment.priorityOf position.1 position.2

/-- The record of a node. -/
def entry (index stage : Nat) : PriorityExecutable :=
  { PriorityExecutable.ofPriority (experiment.priorityOf index stage)
      (if stage = 0 then .timer else .subscription) .chainAwarePriority with
    chainId := toInt32 index
    isFirstInChain := decide (stage = 0) }

variable {experiment}

theorem mem_positions {index stage : Nat} :
    (index, stage) ∈ experiment.positions ↔ experiment.Position index stage := by
  simp [positions, Position]

theorem table_handleOf (complete : experiment.Complete) {index stage : Nat}
    (position : experiment.Position index stage) :
    experiment.table (experiment.handleOf index stage) =
      some (experiment.priorityOf index stage : Int) := by
  rw [table]
  cases found : experiment.positions.find? fun position =>
      experiment.handleOf position.1 position.2 = experiment.handleOf index stage with
  | none =>
      rw [List.find?_eq_none] at found
      exact absurd (by simp) (found (index, stage) (mem_positions.mpr position))
  | some other =>
      have same := List.find?_some found
      rw [decide_eq_true_eq] at same
      rw [Option.map_some, (complete.handles same).1, (complete.handles same).2]

theorem table_eq_none {handle : Handle} (place : experiment.table handle = none)
    {index stage : Nat} (position : experiment.Position index stage) :
    handle ≠ experiment.handleOf index stage := by
  rintro rfl
  rw [table, Option.map_eq_none_iff, List.find?_eq_none] at place
  exact absurd (by simp) (place (index, stage) (mem_positions.mpr position))

theorem table_eq_some {handle : Handle} {priority : Int}
    (place : experiment.table handle = some priority) :
    ∃ index stage, experiment.Position index stage ∧
      handle = experiment.handleOf index stage ∧
      priority = experiment.priorityOf index stage := by
  rw [table, Option.map_eq_some_iff] at place
  rcases place with ⟨⟨index, stage⟩, found, rfl⟩
  have same := List.find?_some found
  rw [decide_eq_true_eq] at same
  exact ⟨index, stage, mem_positions.mp (List.mem_of_find?_eq_some found), same.symm, rfl⟩

/-! ## What the loop leaves behind -/

theorem Complete.priorityAt (complete : experiment.Complete) {chainIndex cbIndex : Nat}
    (inRange : chainIndex < experiment.chainLengths.length)
    (exists' : cbIndex < experiment.lengthOf chainIndex) :
    experiment.priorityAt chainIndex cbIndex =
      .ok (experiment.priorityOf chainIndex cbIndex : Int) := by
  have row := elementAt_of_lt (inRange.trans_le complete.rows) []
  have priority := elementAt_of_lt (exists'.trans_le (complete.columns chainIndex inRange)) 0
  simp only [StaticExperiment.priorityAt, row, priority, bind, Except.bind]
  exact congrArg Except.ok
    (toInt32_natCast (complete.priorityRange chainIndex inRange cbIndex exists'))

/-- The calls that register a node leave its whole record. -/
theorem makeNode_eq (complete : experiment.Complete) {chainIndex cbIndex : Nat}
    {state : SetUpState} (inRange : chainIndex < experiment.chainLengths.length)
    (exists' : cbIndex < experiment.lengthOf chainIndex)
    (runtime : state.currentNodeId < experiment.nodeRuntimes.length)
    (firstNode : experiment.isF1tenth = true → chainIndex = 1 →
      ∃ row, state.nodes[0]? = some row ∧ row[0]? = some (experiment.handleOf 0 0)) :
    experiment.makeNode chainIndex state cbIndex =
      .ok (pushNode state
        (if experiment.Registered chainIndex cbIndex then
          state.strat.assign (experiment.handleOf chainIndex cbIndex)
            (experiment.entry chainIndex cbIndex)
        else state.strat) chainIndex (experiment.node chainIndex cbIndex)) := by
  have priority := complete.priorityAt inRange exists'
  have runtime := elementAt_of_lt runtime 0
  rw [makeNode]
  by_cases isFirst : cbIndex = 0
  · rw [if_pos isFirst]
    by_cases shares : experiment.isF1tenth = true ∧ chainIndex = 1
    · rcases firstNode shares.1 shares.2 with ⟨row, rowEq, nodeEq⟩
      have unregistered : ¬ experiment.Registered chainIndex cbIndex := by
        simp [Registered, shares.1, shares.2, isFirst]
      rw [if_pos shares, elementAt_eq_ok rowEq, node, if_neg unregistered, if_neg unregistered]
      simp only [bind, Except.bind, elementAt_eq_ok nodeEq]
    · have registered : experiment.Registered chainIndex cbIndex :=
        fun first => shares ⟨first.1, first.2.1⟩
      have period := elementAt_of_lt (inRange.trans_le complete.periods) 0
      rw [if_neg shares, node, if_pos registered, if_pos registered]
      simp only [period, runtime, priority, bind, Except.bind]
      simp [setExecutablePriority, setFirstInChain, modifySettings_assign, entry, isFirst,
        PriorityExecutable.ofPriority]
  · have registered : experiment.Registered chainIndex cbIndex :=
      fun first => isFirst first.2.2
    rw [if_neg isFirst, node, if_pos registered, if_pos registered]
    simp only [runtime, priority, bind, Except.bind]
    simp [setExecutablePriority, entry, isFirst, PriorityExecutable.ofPriority]

/-- The first nodes of a chain are made, and all of the chains before it. -/
structure Making (experiment : StaticExperiment) (chainIndex cbIndex : Nat)
    (state : SetUpState) : Prop where
  holds : experiment.Holds (experiment.MadeUpTo chainIndex cbIndex) experiment.entry
    state.strat
  currentNodeId : state.currentNodeId =
    (experiment.chainLengths.take chainIndex).sum + cbIndex
  nodes : state.nodes = (List.range chainIndex).map experiment.row ++
    [(List.range cbIndex).map (experiment.node chainIndex)]

/-- The first chains are made. -/
structure Made (experiment : StaticExperiment) (chainIndex : Nat) (state : SetUpState) :
    Prop where
  holds : experiment.Holds
    (fun index stage => index < chainIndex ∧ stage < experiment.lengthOf index)
    experiment.entry state.strat
  currentNodeId : state.currentNodeId = (experiment.chainLengths.take chainIndex).sum
  nodes : state.nodes = (List.range chainIndex).map experiment.row

/-- One node more. -/
theorem Making.step (complete : experiment.Complete) {chainIndex cbIndex : Nat}
    {state : SetUpState} (inRange : chainIndex < experiment.chainLengths.length)
    (exists' : cbIndex < experiment.lengthOf chainIndex)
    (making : experiment.Making chainIndex cbIndex state) :
    ∃ after, experiment.makeNode chainIndex state cbIndex = .ok after ∧
      experiment.Making chainIndex (cbIndex + 1) after := by
  rcases sum_take_succ complete.runtimes inRange with ⟨through, bounded⟩
  have runtime : state.currentNodeId < experiment.nodeRuntimes.length := by
    rw [making.currentNodeId]
    omega
  refine ⟨_, makeNode_eq complete inRange exists' runtime ?_, ?_⟩
  · rintro shared rfl
    exact firstNode_eq making.nodes Nat.one_pos
      (complete.notEmpty 0 (Nat.lt_of_succ_lt inRange))
  · refine ⟨?_, ?_, nodes_pushNode making.nodes _⟩
    · dsimp only [pushNode]
      split
      next registered =>
        exact making.holds.assign complete.handles registered madeUpTo_succ fun _ _ _ => rfl
      next unregistered => exact making.holds.skip unregistered madeUpTo_succ
    · dsimp only [pushNode]
      rw [making.currentNodeId, add_assoc]

/-- One chain more. -/
theorem Made.step (complete : experiment.Complete) {chainIndex : Nat} {state : SetUpState}
    (inRange : chainIndex < experiment.chainLengths.length)
    (made : experiment.Made chainIndex state) :
    ∃ after, experiment.makeChain state chainIndex = .ok after ∧
      experiment.Made (chainIndex + 1) after := by
  have length : elementAt experiment.chainLengths chainIndex =
      .ok (experiment.lengthOf chainIndex) := elementAt_of_lt inRange 0
  have making : experiment.Making chainIndex 0 { state with nodes := state.nodes ++ [[]] } := by
    refine ⟨made.holds.congr madeUpTo_zero, made.currentNodeId, ?_⟩
    rw [made.nodes, List.range_zero, List.map_nil]
  rcases exists_countTo (experiment.Making chainIndex) making
      (Making.step complete inRange) with ⟨stop, looped, madeAll⟩
  refine ⟨stop, ?_, ?_⟩
  · simp only [makeChain, length, bind, Except.bind]
    exact looped
  · refine ⟨madeAll.holds.congr madeUpTo_length, ?_, ?_⟩
    · rw [(sum_take_succ complete.runtimes inRange).1]
      exact madeAll.currentNodeId
    · rw [List.range_succ, List.map_append, List.map_singleton]
      exact madeAll.nodes

/-- The loop succeeds. -/
theorem Complete.setUp (complete : experiment.Complete) :
    ∃ state, experiment.setUp = .ok state ∧
      experiment.Made experiment.chainLengths.length state := by
  have start : experiment.Made 0 { strat := { isF1tenth := experiment.isF1tenth } } := by
    refine ⟨⟨rfl, ?_, ?_⟩, rfl, rfl⟩
    · exact fun made => absurd made.1 (Nat.not_lt_zero _)
    · exact fun found => by cases found
  exact exists_countTo experiment.Made start (Made.step complete)

/-- The table of the program is in force, and nothing else is registered. -/
theorem Made.followsTable {state : SetUpState}
    (made : experiment.Made experiment.chainLengths.length state) :
    state.strat.FollowsTable experiment.table := by
  refine ⟨?_, ?_⟩
  · intro handle priority place
    rcases table_eq_some place with
      ⟨index, stage, ⟨inRange, exists', registered⟩, rfl, rfl⟩
    exact ⟨_, made.holds.entry ⟨inRange, exists'⟩ registered, rfl, rfl⟩
  · intro handle executable found place
    rcases made.holds.only found with ⟨index, stage, isMade, registered, handleEq⟩
    exact absurd handleEq (table_eq_none place ⟨isMade.1, isMade.2, registered⟩)

theorem Made.countersAtMost {state : SetUpState}
    (made : experiment.Made experiment.chainLengths.length state) :
    state.strat.CountersAtMost 0 :=
  made.holds.countersAtMost fun _ _ => rfl

/-- The nodes that a round could have dispatched do not have a higher priority than the
node that it served. -/
theorem priorityOf_le_served (complete : experiment.Complete) {round : Round}
    {index stage : Nat} (served : experiment.Position index stage)
    (first : round.ServesFirst experiment.table (experiment.handleOf index stage))
    {other otherStage : Nat} (position : experiment.Position other otherStage)
    (queued : experiment.handleOf other otherStage ∈ round.ready.allExecutables)
    (runnable : round.ready.Runnable round.view (experiment.handleOf other otherStage)) :
    experiment.priorityOf other otherStage ≤ experiment.priorityOf index stage := by
  have precedes := first.first _ queued runnable
  rw [Precedes, table_handleOf complete served, table_handleOf complete position] at precedes
  exact Int.ofNat_le.mp precedes

/-- A program with static priorities sets its chains up without a fault, and in every run
of rounds that follows the priorities stay those of its table, no round faults whatever it
reads from outside, no counter overflows before the round 2^31, and every round that fills
`any_exec` serves first what goes first in the table: a node of the highest priority among
those that could run, unless something that was registered on the fly could. -/
theorem setUp_highest_priority_first (complete : experiment.Complete) :
    ∃ state, experiment.setUp = .ok state ∧
      ∀ rounds stop, Steps RoundStep state.strat rounds stop →
        stop.FollowsTable experiment.table ∧
        (∀ input, ∃ anyExec after, stop.round input = .ok (anyExec, after)) ∧
        (rounds.length < 2 ^ 31 → stop.CountersAtMost rounds.length) ∧
        ∀ round ∈ rounds, round.anyExec.isFilled = true →
          ∃ served, round.ServesFirst experiment.table served ∧
            ∀ index stage, experiment.Position index stage →
              served = experiment.handleOf index stage →
              ∀ other otherStage, experiment.Position other otherStage →
                experiment.handleOf other otherStage ∈ round.ready.allExecutables →
                round.ready.Runnable round.view (experiment.handleOf other otherStage) →
                experiment.priorityOf other otherStage ≤
                  experiment.priorityOf index stage := by
  rcases complete.setUp with ⟨state, succeeds, made⟩
  refine ⟨state, succeeds, ?_⟩
  intro rounds stop run
  rcases made.followsTable.of_run run with ⟨follows, serves⟩
  refine ⟨follows, ?_, ?_, ?_⟩
  · intro input
    rcases follows.round input with ⟨anyExec, after, result, _⟩
    exact ⟨anyExec, after, result⟩
  · intro few
    have counted := made.countersAtMost.of_run run
    rw [zero_add] at counted
    exact counted few
  · intro round member filled
    rcases serves round member filled with ⟨served, first⟩
    refine ⟨served, first, ?_⟩
    rintro index stage position rfl other otherStage otherPosition queued runnable
    exact priorityOf_le_served complete position first otherPosition queued runnable

/-- The vectors of `arb_static.cpp`. -/
def arbStatic : StaticExperiment where
  chainLengths := [2, 4, 4, 3, 4, 4]
  nodeRuntimes := [2, 16, 2, 2, 9, 9, 21, 8, 7, 2, 23, 8, 14, 18, 11, 8, 8, 11, 22, 5, 18]
  chainPeriods := [80, 80, 60, 140, 160, 90]
  chainDeadlines := [80, 80, 120, 140, 160, 180]
  chainPriorities := [[0, 1], [0, 2, 3, 4], [5, 6, 7, 8], [9, 10, 11], [12, 13, 14, 15],
    [16, 17, 18, 19]]
  handleOf := Nat.pair
  vectorOf := id
  firstRelease _ := 0
  isF1tenth := true

theorem arbStatic_complete : arbStatic.Complete where
  runtimes := by decide
  periods := by decide
  notEmpty := by decide
  rows := by decide
  columns := by decide
  priorityRange := by decide
  handles same := Nat.pair_eq_pair.mp same

/-- The first timer, the timer of chain 2 and a subscription of chain 0 are ready. -/
def threeReady : RoundInput :=
  groupReady { id := 0, timers := [arbStatic.handleOf 0 0, arbStatic.handleOf 2 0]
               subscriptions := [arbStatic.handleOf 0 1] }

/-- The first timer and the subscription that the timer of chain 2 drives are ready. -/
def twoReady : RoundInput :=
  groupReady { id := 0, timers := [arbStatic.handleOf 0 0]
               subscriptions := [arbStatic.handleOf 2 1] }

/-- The set-up, and then two rounds. -/
theorem arbStatic_run :
    ∃ state middle stop, arbStatic.setUp = .ok state ∧
      RoundStep state.strat ⟨state.strat.ready threeReady, threeReady.view,
        .fill .timer (arbStatic.handleOf 2 0) 0⟩ middle ∧
      RoundStep middle ⟨middle.ready twoReady, twoReady.view,
        .fill .subscription (arbStatic.handleOf 2 1) 0⟩ stop :=
  ⟨_, _, _, rfl, .of_round rfl, .of_round rfl⟩

/-- Two rounds of `arb_static.cpp`, each with a node of chain 2 before those of chain 0. -/
theorem setUp_highest_priority_first_arbStatic :
    ∃ state first second stop, arbStatic.setUp = .ok state ∧
      Steps RoundStep state.strat [first, second] stop ∧
      first.anyExec = .fill .timer (arbStatic.handleOf 2 0) 0 ∧
      second.anyExec = .fill .subscription (arbStatic.handleOf 2 1) 0 ∧
      stop.FollowsTable arbStatic.table ∧ stop.CountersAtMost 2 ∧
      (∃ served, first.ServesFirst arbStatic.table served) ∧
      ∃ served, second.ServesFirst arbStatic.table served := by
  rcases arbStatic_run with ⟨state, middle, stop, succeeds, firstStep, secondStep⟩
  rcases setUp_highest_priority_first arbStatic_complete with ⟨found, foundEq, runs⟩
  rw [succeeds] at foundEq
  cases foundEq
  have run := Steps.snoc (.singleton firstStep) secondStep
  rcases runs _ _ run with ⟨follows, _, counters, serves⟩
  rcases serves _ List.mem_cons_self rfl with ⟨first, servesFirst, _⟩
  rcases serves _ (List.mem_cons_of_mem _ List.mem_cons_self) rfl with
    ⟨second, servesSecond, _⟩
  have few : 2 < 2 ^ 31 := by decide
  exact ⟨state, _, _, stop, succeeds, run, rfl, rfl, follows, counters few,
    ⟨first, servesFirst⟩, second, servesSecond⟩

end StaticExperiment

end PriorityExecutor
