import Mathlib.Data.Nat.Pairing
import PriorityExecutor.Chain.EarliestFirst
import PriorityExecutor.Chain.SharedTimer
import PriorityExecutor.Strategy.Entries

/-!
# Setting the chains up

The experiment programs build their chains in two loops.  The first one makes the nodes
of a chain, registers the handle of each with the period and deadline of the chain, and
gives all of them one vector of `ceil(D / T)` deques.  The second one assigns the first
release to the timer of each chain and pushes the deadline that belongs to it.

`multi_arb.cpp` and `multi_test.cpp` differ in the shared timer only: with `is_f1tenth`,
chain 1 has no timer of its own, and its release is assigned to the timer of chain 0.
-/

namespace PriorityExecutor

/-- `vector[index]`. -/
def elementAt {α : Type} (vector : List α) (index : Nat) : Except Fault α :=
  match vector[index]? with
  | none => .error .indexOutOfRange
  | some element => .ok element

theorem elementAt_eq_ok {α : Type} {vector : List α} {index : Nat} {element : α}
    (found : vector[index]? = some element) : elementAt vector index = .ok element := by
  rw [elementAt, found]

theorem elementAt_of_lt {α : Type} {vector : List α} {index : Nat}
    (inRange : index < vector.length) (fallback : α) :
    elementAt vector index = .ok (vector.getD index fallback) := by
  apply elementAt_eq_ok
  rw [List.getD_eq_getElem?_getD, List.getElem?_eq_getElem inRange, Option.getD_some]

/-- The vectors at the head of `main`, the addresses that its allocations return, and
`millis + time_until_trigger` as its second loop reads them.

A node stands for its `timer_` or its `subscription_`, whose handle is registered. -/
structure Experiment where
  chainLengths : List Nat
  nodeRuntimes : List Nat
  chainPeriods : List Nat
  chainDeadlines : List Nat
  handleOf : Nat → Nat → Handle
  vectorOf : Nat → DequesPtr
  firstRelease : Nat → Int
  isF1tenth : Bool

/-- The variables of `main` that the loops write. -/
structure SetUpState where
  strat : Strategy
  currentNodeId : Nat := 0
  nodes : List (List Handle) := []
  chainDeadlinesDeque : List DequesPtr := []

namespace Experiment

open Strategy

variable (experiment : Experiment)

/-- `nodes[chain_index].push_back(node); current_node_id++`. -/
def pushNode (state : SetUpState) (strat : Strategy) (chainIndex : Nat) (node : Handle) :
    SetUpState :=
  { state with
    strat
    nodes := state.nodes.modify chainIndex fun row => row ++ [node]
    currentNodeId := state.currentNodeId + 1 }

/-- The body of the loop over the callbacks of a chain. -/
def makeNode (chainIndex length period deadline : Nat) (thisChainDeadlinesDeque : DequesPtr)
    (state : SetUpState) (cbIndex : Nat) : Except Fault SetUpState := do
  let _ ← elementAt experiment.nodeRuntimes state.currentNodeId
  if cbIndex = 0 then
    if chainIndex = 1 ∧ state.strat.isF1tenth then
      let row ← elementAt state.nodes 0
      let publisherNode ← elementAt row 0
      .ok (pushNode state state.strat chainIndex publisherNode)
    else
      let timer := experiment.handleOf chainIndex cbIndex
      let strat := state.strat.setExecutableDeadline timer (toInt32 period)
        (toInt32 deadline) .timer (toInt32 chainIndex)
      let strat ← strat.setFirstInChain timer
      let strat ← strat.assignDeadlinesQueue timer thisChainDeadlinesDeque
      .ok (pushNode state strat chainIndex timer)
  else
    let subscription := experiment.handleOf chainIndex cbIndex
    let strat := state.strat.setExecutableDeadline subscription (toInt32 period)
      (toInt32 deadline) .subscription (toInt32 chainIndex)
    let strat ← strat.assignDeadlinesQueue subscription thisChainDeadlinesDeque
    let strat ← if cbIndex = length - 1 then strat.setLastInChain subscription else .ok strat
    .ok (pushNode state strat chainIndex subscription)

/-- The body of the loop that makes the chains. -/
def makeChain (state : SetUpState) (chainIndex : Nat) : Except Fault SetUpState := do
  let deadline ← elementAt experiment.chainDeadlines chainIndex
  let period ← elementAt experiment.chainPeriods chainIndex
  let maxChainNum ← ceilToInt deadline period
  let thisChainDeadlinesDeque := experiment.vectorOf chainIndex
  let strat := { state.strat with
    deques := Function.update state.strat.deques thisChainDeadlinesDeque
      (List.replicate maxChainNum.toNat []) }
  let length ← elementAt experiment.chainLengths chainIndex
  let state ← countTo length
    (experiment.makeNode chainIndex length period deadline thisChainDeadlinesDeque)
    { state with strat, nodes := state.nodes ++ [[]] }
  .ok { state with
    chainDeadlinesDeque := state.chainDeadlinesDeque ++ [thisChainDeadlinesDeque] }

/-- The chain whose first node has the timer of a chain in the second loop.  In
`multi_test.cpp`, which sets `is_f1tenth`, the test is of the index only. -/
def timerRow (chainIndex : Nat) : Nat :=
  if experiment.isF1tenth ∧ chainIndex = 1 then 0 else chainIndex

/-- The body of the loop that releases the chains. -/
def releaseChain (state : SetUpState) (chainIndex : Nat) : Except Fault SetUpState := do
  let row ← elementAt state.nodes (experiment.timerRow chainIndex)
  let timer ← elementAt row 0
  let release := experiment.firstRelease chainIndex
  let strat ← state.strat.assignReleaseTime timer release
  let vector ← elementAt state.chainDeadlinesDeque chainIndex
  let deadline ← elementAt experiment.chainDeadlines chainIndex
  let deques ← pushBack strat.deques (some vector) 0 (toUint (release + deadline))
  .ok { state with strat := { strat with deques } }

/-- Both loops of `main`, on a new memory strategy. -/
def setUp : Except Fault SetUpState := do
  let state ← countTo experiment.chainLengths.length experiment.makeChain
    { strat := { isF1tenth := experiment.isF1tenth } }
  countTo experiment.chainLengths.length experiment.releaseChain state

/-! ## What the loops leave behind -/

def lengthOf (chainIndex : Nat) : Nat := experiment.chainLengths.getD chainIndex 0

def periodOf (chainIndex : Nat) : Nat := experiment.chainPeriods.getD chainIndex 0

def deadlineOf (chainIndex : Nat) : Nat := experiment.chainDeadlines.getD chainIndex 0

/-- Every chain has a node, a period and a deadline in the range of `int`, and what the
program allocates has addresses of its own. -/
structure Complete : Prop where
  fewChains : experiment.chainLengths.length < 2 ^ 31
  runtimes : experiment.chainLengths.sum ≤ experiment.nodeRuntimes.length
  periods : experiment.chainLengths.length ≤ experiment.chainPeriods.length
  deadlines : experiment.chainLengths.length ≤ experiment.chainDeadlines.length
  notEmpty : ∀ index < experiment.chainLengths.length, 1 ≤ experiment.lengthOf index
  periodRange : ∀ index < experiment.chainLengths.length,
    1 ≤ experiment.periodOf index ∧ experiment.periodOf index < 2 ^ 31
  deadlineRange : ∀ index < experiment.chainLengths.length,
    1 ≤ experiment.deadlineOf index ∧ experiment.deadlineOf index < 2 ^ 31
  handles : ∀ {left right i j}, experiment.handleOf left i = experiment.handleOf right j →
    left = right ∧ i = j
  vectors : Function.Injective experiment.vectorOf

/-- The node is made and registered; otherwise it is the first one of chain 0 again. -/
def Registered (chainIndex cbIndex : Nat) : Prop :=
  ¬ (experiment.isF1tenth = true ∧ chainIndex = 1 ∧ cbIndex = 0)

instance (chainIndex cbIndex : Nat) : Decidable (experiment.Registered chainIndex cbIndex) :=
  inferInstanceAs (Decidable (¬ _))

/-- `nodes[chain_index][cb_index]`. -/
def node (chainIndex cbIndex : Nat) : Handle :=
  if experiment.Registered chainIndex cbIndex then experiment.handleOf chainIndex cbIndex
  else experiment.handleOf 0 0

def row (chainIndex : Nat) : List Handle :=
  (List.range (experiment.lengthOf chainIndex)).map (experiment.node chainIndex)

/-- The number of deques of a chain. -/
def sizeOf (chainIndex : Nat) : Nat :=
  (IntDiv.ceilDiv (experiment.deadlineOf chainIndex) (experiment.periodOf chainIndex)).toNat

/-- The record of a node when the first loop is over. -/
def entry (chainIndex cbIndex : Nat) : PriorityExecutable :=
  { PriorityExecutable.ofDeadline (experiment.periodOf chainIndex)
      (experiment.deadlineOf chainIndex) (if cbIndex = 0 then .timer else .subscription)
      .deadline with
    chainId := toInt32 chainIndex
    isFirstInChain := decide (cbIndex = 0)
    isLastInChain := decide (cbIndex ≠ 0 ∧ cbIndex = experiment.lengthOf chainIndex - 1)
    deadlines := some (experiment.vectorOf chainIndex) }

/-- The strategy holds exactly the nodes made so far. -/
structure Holds (made : Nat → Nat → Prop) (record : Nat → Nat → PriorityExecutable)
    (strategy : Strategy) : Prop where
  isF1tenth : strategy.isF1tenth = experiment.isF1tenth
  entry : ∀ {index stage}, made index stage → experiment.Registered index stage →
    strategy.priorityMap (experiment.handleOf index stage) = some (record index stage)
  only : ∀ {handle executable}, strategy.priorityMap handle = some executable →
    ∃ index stage, made index stage ∧ experiment.Registered index stage ∧
      handle = experiment.handleOf index stage

variable {experiment} {made made' : Nat → Nat → Prop}
  {record record' : Nat → Nat → PriorityExecutable} {strategy : Strategy}

theorem Holds.withDeques (holds : experiment.Holds made record strategy) (deques : Deques) :
    experiment.Holds made record { strategy with deques } :=
  ⟨holds.isF1tenth, holds.entry, holds.only⟩

/-- One more node, or a new record for one of them. -/
theorem Holds.assign
    (handles : ∀ {left right i j}, experiment.handleOf left i = experiment.handleOf right j →
      left = right ∧ i = j)
    (holds : experiment.Holds made record strategy) {index stage : Nat}
    (registered : experiment.Registered index stage)
    (adds : ∀ other otherStage, made' other otherStage ↔
      made other otherStage ∨ other = index ∧ otherStage = stage)
    (keeps : ∀ other otherStage, ¬ (other = index ∧ otherStage = stage) →
      record' other otherStage = record other otherStage) :
    experiment.Holds made' record'
      (strategy.assign (experiment.handleOf index stage) (record' index stage)) := by
  refine ⟨holds.isF1tenth, ?_, ?_⟩
  · intro other otherStage isMade isRegistered
    by_cases same : other = index ∧ otherStage = stage
    · rw [same.1, same.2]
      exact strategy.assign_self _ _
    · rw [strategy.assign_of_ne _ fun equal => same (handles equal),
        keeps other otherStage same]
      exact holds.entry (((adds other otherStage).mp isMade).resolve_right same) isRegistered
  · intro handle executable found
    by_cases same : handle = experiment.handleOf index stage
    · exact ⟨index, stage, (adds index stage).mpr (.inr ⟨rfl, rfl⟩), registered, same⟩
    · rw [strategy.assign_of_ne _ same] at found
      rcases holds.only found with ⟨other, otherStage, isMade, isRegistered, handleEq⟩
      exact ⟨other, otherStage, (adds other otherStage).mpr (.inl isMade), isRegistered,
        handleEq⟩

/-- A position at which nothing is registered. -/
theorem Holds.skip (holds : experiment.Holds made record strategy) {index stage : Nat}
    (unregistered : ¬ experiment.Registered index stage)
    (adds : ∀ other otherStage, made' other otherStage ↔
      made other otherStage ∨ other = index ∧ otherStage = stage) :
    experiment.Holds made' record strategy := by
  refine ⟨holds.isF1tenth, ?_, ?_⟩
  · intro other otherStage isMade isRegistered
    rcases (adds other otherStage).mp isMade with before | ⟨rfl, rfl⟩
    · exact holds.entry before isRegistered
    · exact absurd isRegistered unregistered
  · intro handle executable found
    rcases holds.only found with ⟨other, otherStage, isMade, rest⟩
    exact ⟨other, otherStage, (adds other otherStage).mpr (.inl isMade), rest⟩

theorem Holds.congr (holds : experiment.Holds made record strategy)
    (same : ∀ index stage, made' index stage ↔ made index stage) :
    experiment.Holds made' record strategy := by
  have equal : made' = made := by
    funext index stage
    exact propext (same index stage)
  rw [equal]
  exact holds

/-- Nothing has been dispatched yet. -/
theorem Holds.countersAtMost (holds : experiment.Holds made record strategy)
    (fresh : ∀ index stage, (record index stage).counter = 0) :
    strategy.CountersAtMost 0 := by
  intro handle executable entry
  rcases holds.only entry with ⟨index, stage, isMade, registered, rfl⟩
  rw [holds.entry isMade registered] at entry
  cases entry
  rw [fresh index stage]
  exact ⟨le_rfl, le_rfl⟩

/-! ## The first loop -/

theorem modifySettings_assign (strategy : Strategy) (handle : Handle)
    (executable : PriorityExecutable) (update : PriorityExecutable → PriorityExecutable) :
    (strategy.assign handle executable).modifySettings handle update =
      .ok (strategy.assign handle (update executable)) := by
  simp [modifySettings, getPrioritySettings, assign]

theorem Complete.maxChainNum (complete : experiment.Complete) {chainIndex : Nat}
    (inRange : chainIndex < experiment.chainLengths.length) :
    ceilToInt (experiment.deadlineOf chainIndex) (experiment.periodOf chainIndex) =
      .ok (experiment.sizeOf chainIndex) := by
  rcases complete.periodRange chainIndex inRange with ⟨periodPos, _⟩
  rcases complete.deadlineRange chainIndex inRange with ⟨deadlinePos, deadlineUpper⟩
  have positive : 0 < (experiment.periodOf chainIndex : Int) := Int.natCast_pos.mpr periodPos
  have dividendPos : 0 < (experiment.deadlineOf chainIndex : Int) :=
    Int.natCast_pos.mpr deadlinePos
  rw [sizeOf, Int.toNat_of_nonneg (IntDiv.pos positive dividendPos).le]
  apply ceilToInt_eq <;> omega

/-- The calls that register a node leave its whole record. -/
theorem makeNode_eq {experiment : Experiment} (complete : experiment.Complete)
    {chainIndex cbIndex : Nat} {state : SetUpState}
    (inRange : chainIndex < experiment.chainLengths.length)
    (runtime : state.currentNodeId < experiment.nodeRuntimes.length)
    (isF1tenth : state.strat.isF1tenth = experiment.isF1tenth)
    (firstNode : experiment.isF1tenth = true → chainIndex = 1 →
      ∃ row, state.nodes[0]? = some row ∧ row[0]? = some (experiment.handleOf 0 0)) :
    experiment.makeNode chainIndex (experiment.lengthOf chainIndex)
        (experiment.periodOf chainIndex) (experiment.deadlineOf chainIndex)
        (experiment.vectorOf chainIndex) state cbIndex =
      .ok (pushNode state
        (if experiment.Registered chainIndex cbIndex then
          state.strat.assign (experiment.handleOf chainIndex cbIndex)
            (experiment.entry chainIndex cbIndex)
        else state.strat) chainIndex (experiment.node chainIndex cbIndex)) := by
  have period := toInt32_natCast (complete.periodRange chainIndex inRange).2
  have deadline := toInt32_natCast (complete.deadlineRange chainIndex inRange).2
  simp only [makeNode, elementAt_of_lt runtime 0, isF1tenth, period, deadline, bind,
    Except.bind]
  by_cases isFirst : cbIndex = 0
  · rw [if_pos isFirst]
    by_cases shares : chainIndex = 1 ∧ experiment.isF1tenth = true
    · rcases firstNode shares.2 shares.1 with ⟨row, rowEq, nodeEq⟩
      have unregistered : ¬ experiment.Registered chainIndex cbIndex := by
        simp [Registered, shares.1, shares.2, isFirst]
      rw [if_pos shares, elementAt_eq_ok rowEq, node, if_neg unregistered, if_neg unregistered]
      simp only [elementAt_eq_ok nodeEq]
    · have registered : experiment.Registered chainIndex cbIndex :=
        fun first => shares ⟨first.2.1, first.1⟩
      rw [if_neg shares, node, if_pos registered, if_pos registered]
      simp [setExecutableDeadline, setFirstInChain, assignDeadlinesQueue,
        modifySettings_assign, entry, isFirst, PriorityExecutable.ofDeadline]
  · have registered : experiment.Registered chainIndex cbIndex :=
      fun first => isFirst first.2.2
    rw [if_neg isFirst, node, if_pos registered, if_pos registered]
    by_cases isLast : cbIndex = experiment.lengthOf chainIndex - 1
    · simp [setExecutableDeadline, setLastInChain, assignDeadlinesQueue,
        modifySettings_assign, entry, isFirst, ← isLast, PriorityExecutable.ofDeadline]
    · simp [setExecutableDeadline, assignDeadlinesQueue,
        modifySettings_assign, entry, isFirst, isLast, PriorityExecutable.ofDeadline]

/-- The first chains are made. -/
structure Made (experiment : Experiment) (chainIndex : Nat) (state : SetUpState) : Prop where
  holds : experiment.Holds
    (fun index stage => index < chainIndex ∧ stage < experiment.lengthOf index)
    experiment.entry state.strat
  currentNodeId : state.currentNodeId = (experiment.chainLengths.take chainIndex).sum
  nodes : state.nodes = (List.range chainIndex).map experiment.row
  vectors : state.chainDeadlinesDeque = (List.range chainIndex).map experiment.vectorOf
  deques : ∀ index < chainIndex, state.strat.deques (experiment.vectorOf index) =
    List.replicate (experiment.sizeOf index) []

/-- The nodes of the complete chains, and the first ones of the next. -/
def MadeUpTo (experiment : Experiment) (chainIndex cbIndex index stage : Nat) : Prop :=
  index < chainIndex ∧ stage < experiment.lengthOf index ∨
    index = chainIndex ∧ stage < cbIndex

/-- The nodes of the next chain are being made. -/
structure Making (experiment : Experiment) (chainIndex cbIndex : Nat) (state : SetUpState) :
    Prop where
  holds : experiment.Holds (experiment.MadeUpTo chainIndex cbIndex) experiment.entry
    state.strat
  currentNodeId : state.currentNodeId =
    (experiment.chainLengths.take chainIndex).sum + cbIndex
  nodes : state.nodes = (List.range chainIndex).map experiment.row ++
    [(List.range cbIndex).map (experiment.node chainIndex)]
  vectors : state.chainDeadlinesDeque = (List.range chainIndex).map experiment.vectorOf
  deques : ∀ index ≤ chainIndex, state.strat.deques (experiment.vectorOf index) =
    List.replicate (experiment.sizeOf index) []

theorem modify_append_last {α : Type*} (front : List α) (last : α) (update : α → α) :
    (front ++ [last]).modify front.length update = front ++ [update last] := by
  induction front with
  | nil => rfl
  | cons head front ih => simpa using ih

theorem sum_take_succ
    (runtimes : experiment.chainLengths.sum ≤ experiment.nodeRuntimes.length)
    {chainIndex : Nat} (inRange : chainIndex < experiment.chainLengths.length) :
    (experiment.chainLengths.take (chainIndex + 1)).sum =
        (experiment.chainLengths.take chainIndex).sum + experiment.lengthOf chainIndex ∧
      (experiment.chainLengths.take (chainIndex + 1)).sum ≤
        experiment.nodeRuntimes.length := by
  constructor
  · rw [List.sum_take_succ _ _ inRange, lengthOf, List.getD_eq_getElem?_getD,
      List.getElem?_eq_getElem inRange, Option.getD_some]
  · have whole := List.sum_take_add_sum_drop experiment.chainLengths (chainIndex + 1)
    exact ((Nat.le_add_right _ _).trans whole.le).trans runtimes

/-- The row under construction grows by the node. -/
theorem nodes_pushNode {chainIndex cbIndex : Nat} {state : SetUpState}
    (nodes : state.nodes = (List.range chainIndex).map experiment.row ++
      [(List.range cbIndex).map (experiment.node chainIndex)]) (strat : Strategy) :
    (pushNode state strat chainIndex (experiment.node chainIndex cbIndex)).nodes =
      (List.range chainIndex).map experiment.row ++
        [(List.range (cbIndex + 1)).map (experiment.node chainIndex)] := by
  have modified := modify_append_last ((List.range chainIndex).map experiment.row)
    ((List.range cbIndex).map (experiment.node chainIndex))
    fun row => row ++ [experiment.node chainIndex cbIndex]
  rw [List.length_map, List.length_range] at modified
  dsimp only [pushNode]
  rw [nodes, modified, List.range_succ, List.map_append, List.map_singleton]

/-- `nodes[0][0]`, once a row is complete. -/
theorem firstNode_eq {chainIndex : Nat} {nodes rest : List (List Handle)}
    (nodesEq : nodes = (List.range chainIndex).map experiment.row ++ rest)
    (complete : 0 < chainIndex) (notEmpty : 0 < experiment.lengthOf 0) :
    ∃ row, nodes[0]? = some row ∧ row[0]? = some (experiment.handleOf 0 0) := by
  refine ⟨experiment.row 0, ?_, ?_⟩
  · rw [nodesEq, List.getElem?_append_left (by simpa using complete), List.getElem?_map,
      List.getElem?_range complete, Option.map_some]
  · rw [row, List.getElem?_map, List.getElem?_range notEmpty, Option.map_some, node,
      if_pos (by simp [Registered])]

theorem madeUpTo_succ {chainIndex cbIndex : Nat} (index stage : Nat) :
    experiment.MadeUpTo chainIndex (cbIndex + 1) index stage ↔
      experiment.MadeUpTo chainIndex cbIndex index stage ∨
        index = chainIndex ∧ stage = cbIndex := by
  unfold MadeUpTo
  omega

theorem madeUpTo_zero {chainIndex : Nat} (index stage : Nat) :
    experiment.MadeUpTo chainIndex 0 index stage ↔
      index < chainIndex ∧ stage < experiment.lengthOf index := by
  simp [MadeUpTo]

theorem madeUpTo_length {chainIndex : Nat} (index stage : Nat) :
    index < chainIndex + 1 ∧ stage < experiment.lengthOf index ↔
      experiment.MadeUpTo chainIndex (experiment.lengthOf chainIndex) index stage := by
  rw [MadeUpTo, Nat.lt_succ_iff_lt_or_eq, or_and_right]
  exact or_congr_right (and_congr_right fun same => by rw [same])

/-- One node more. -/
theorem Making.step (complete : experiment.Complete) {chainIndex cbIndex : Nat}
    {state : SetUpState} (inRange : chainIndex < experiment.chainLengths.length)
    (exists' : cbIndex < experiment.lengthOf chainIndex)
    (making : experiment.Making chainIndex cbIndex state) :
    ∃ after, experiment.makeNode chainIndex (experiment.lengthOf chainIndex)
        (experiment.periodOf chainIndex) (experiment.deadlineOf chainIndex)
        (experiment.vectorOf chainIndex) state cbIndex = .ok after ∧
      experiment.Making chainIndex (cbIndex + 1) after := by
  rcases sum_take_succ complete.runtimes inRange with ⟨through, bounded⟩
  have runtime : state.currentNodeId < experiment.nodeRuntimes.length := by
    rw [making.currentNodeId]
    omega
  refine ⟨_, makeNode_eq complete inRange runtime making.holds.isF1tenth ?_, ?_⟩
  · rintro shared rfl
    exact firstNode_eq making.nodes Nat.one_pos
      (complete.notEmpty 0 (Nat.lt_of_succ_lt inRange))
  · refine ⟨?_, ?_, nodes_pushNode making.nodes _, making.vectors, ?_⟩
    · dsimp only [pushNode]
      split
      next registered =>
        exact making.holds.assign complete.handles registered madeUpTo_succ fun _ _ _ => rfl
      next unregistered => exact making.holds.skip unregistered madeUpTo_succ
    · dsimp only [pushNode]
      rw [making.currentNodeId, add_assoc]
    · intro index inside
      dsimp only [pushNode]
      split
      next => exact making.deques index inside
      next => exact making.deques index inside

/-- One chain more. -/
theorem Made.step (complete : experiment.Complete) {chainIndex : Nat} {state : SetUpState}
    (inRange : chainIndex < experiment.chainLengths.length)
    (made : experiment.Made chainIndex state) :
    ∃ after, experiment.makeChain state chainIndex = .ok after ∧
      experiment.Made (chainIndex + 1) after := by
  have deadline : elementAt experiment.chainDeadlines chainIndex =
      .ok (experiment.deadlineOf chainIndex) :=
    elementAt_of_lt (inRange.trans_le complete.deadlines) 0
  have period : elementAt experiment.chainPeriods chainIndex =
      .ok (experiment.periodOf chainIndex) :=
    elementAt_of_lt (inRange.trans_le complete.periods) 0
  have length : elementAt experiment.chainLengths chainIndex =
      .ok (experiment.lengthOf chainIndex) := elementAt_of_lt inRange 0
  let strat := { state.strat with
    deques := Function.update state.strat.deques (experiment.vectorOf chainIndex)
      (List.replicate (experiment.sizeOf chainIndex) []) }
  let start : SetUpState := { state with strat, nodes := state.nodes ++ [[]] }
  have making : experiment.Making chainIndex 0 start := by
    refine ⟨?_, made.currentNodeId, ?_, made.vectors, ?_⟩
    · exact (made.holds.withDeques _).congr madeUpTo_zero
    · simp only [start, made.nodes, List.range_zero, List.map_nil]
    · intro index inside
      by_cases isNew : index = chainIndex
      · simp [start, strat, isNew]
      · have old : index < chainIndex := Nat.lt_of_le_of_ne inside isNew
        simp [start, strat, complete.vectors.ne isNew, made.deques index old]
  rcases exists_countTo (experiment.Making chainIndex) making
      (Making.step complete inRange) with ⟨stop, looped, madeAll⟩
  refine ⟨{ stop with
      chainDeadlinesDeque := stop.chainDeadlinesDeque ++ [experiment.vectorOf chainIndex] },
    ?_, ?_⟩
  · simp only [makeChain, deadline, period, complete.maxChainNum inRange, length, bind,
      Except.bind, Int.toNat_natCast]
    rw [looped]
  · refine ⟨?_, ?_, ?_, ?_, ?_⟩
    · exact madeAll.holds.congr madeUpTo_length
    · rw [(sum_take_succ complete.runtimes inRange).1]
      exact madeAll.currentNodeId
    · rw [List.range_succ, List.map_append, List.map_singleton]
      exact madeAll.nodes
    · rw [List.range_succ, List.map_append, List.map_singleton]
      exact congrArg (fun vectors => vectors ++ [experiment.vectorOf chainIndex])
        madeAll.vectors
    · exact fun index inside => madeAll.deques index (Nat.le_of_lt_succ inside)

/-! ## The second loop -/

/-- The release time that the second loop has given to the timer of a chain. -/
def assigned (experiment : Experiment) : Nat → Nat → Option Int
  | 0, _ => none
  | chainIndex + 1, index =>
      if index = experiment.timerRow chainIndex then
        some (toInt32 (experiment.firstRelease chainIndex))
      else
        experiment.assigned chainIndex index

/-- A node while the second loop runs. -/
def released (experiment : Experiment) (chainIndex index stage : Nat) : PriorityExecutable :=
  { experiment.entry index stage with
    releaseTime := if stage = 0 then experiment.assigned chainIndex index else none }

/-- The deadline that the second loop pushes for a chain. -/
def firstDeadline (experiment : Experiment) (index : Nat) : Nat :=
  toUint (experiment.firstRelease index + experiment.deadlineOf index)

/-- The first chains are released. -/
structure Released (experiment : Experiment) (chainIndex : Nat) (state : SetUpState) :
    Prop where
  holds : experiment.Holds
    (fun index stage =>
      index < experiment.chainLengths.length ∧ stage < experiment.lengthOf index)
    (experiment.released chainIndex) state.strat
  nodes : state.nodes = (List.range experiment.chainLengths.length).map experiment.row
  vectors : state.chainDeadlinesDeque =
    (List.range experiment.chainLengths.length).map experiment.vectorOf
  deques : ∀ index < experiment.chainLengths.length,
    state.strat.deques (experiment.vectorOf index) =
      if index < chainIndex then
        [experiment.firstDeadline index] :: List.replicate (experiment.sizeOf index - 1) []
      else
        List.replicate (experiment.sizeOf index) []

theorem Made.released {state : SetUpState}
    (made : experiment.Made experiment.chainLengths.length state) :
    experiment.Released 0 state := by
  have unreleased : experiment.released 0 = experiment.entry := by
    funext index stage
    simp [Experiment.released, assigned, entry, PriorityExecutable.ofDeadline]
  refine ⟨?_, made.nodes, made.vectors, ?_⟩
  · rw [unreleased]
    exact made.holds
  · intro index inRange
    rw [if_neg (Nat.not_lt_zero index)]
    exact made.deques index inRange

theorem Complete.sizeOf_pos (complete : experiment.Complete) {chainIndex : Nat}
    (inRange : chainIndex < experiment.chainLengths.length) :
    0 < experiment.sizeOf chainIndex := by
  have positive : 0 < IntDiv.ceilDiv (experiment.deadlineOf chainIndex)
      (experiment.periodOf chainIndex) := by
    apply IntDiv.pos
    · exact Int.natCast_pos.mpr (complete.periodRange chainIndex inRange).1
    · exact Int.natCast_pos.mpr (complete.deadlineRange chainIndex inRange).1
  rw [sizeOf]
  exact Int.pos_iff_toNat_pos.mp positive

theorem registered_timerRow (experiment : Experiment) (chainIndex : Nat) :
    experiment.Registered (experiment.timerRow chainIndex) 0 := by
  rintro ⟨shared, isOne, _⟩
  rw [timerRow] at isOne
  split at isOne
  next => cases isOne
  next notShared => exact notShared ⟨shared, isOne⟩

theorem timerRow_le (experiment : Experiment) (chainIndex : Nat) :
    experiment.timerRow chainIndex ≤ chainIndex := by
  rw [timerRow]
  split
  next => exact Nat.zero_le _
  next => exact Nat.le_refl _

/-- The chain that has the timer of a chain, and its first node. -/
theorem Complete.timerInRange (complete : experiment.Complete) {chainIndex : Nat}
    (inRange : chainIndex < experiment.chainLengths.length) :
    experiment.timerRow chainIndex < experiment.chainLengths.length ∧
      0 < experiment.lengthOf (experiment.timerRow chainIndex) := by
  have timerInRange := (experiment.timerRow_le chainIndex).trans_lt inRange
  exact ⟨timerInRange, complete.notEmpty _ timerInRange⟩

/-- `nodes[chain_index][0]` in the second loop. -/
theorem Released.timer_eq (complete : experiment.Complete) {chainIndex : Nat}
    {state : SetUpState} (inRange : chainIndex < experiment.chainLengths.length)
    (held : experiment.Released chainIndex state) :
    elementAt state.nodes (experiment.timerRow chainIndex) =
        .ok (experiment.row (experiment.timerRow chainIndex)) ∧
      elementAt (experiment.row (experiment.timerRow chainIndex)) 0 =
        .ok (experiment.handleOf (experiment.timerRow chainIndex) 0) := by
  rcases complete.timerInRange inRange with ⟨timerInRange, nonempty⟩
  constructor
  · apply elementAt_eq_ok
    rw [held.nodes, List.getElem?_map, List.getElem?_range timerInRange, Option.map_some]
  · apply elementAt_eq_ok
    rw [Experiment.row, List.getElem?_map, List.getElem?_range nonempty, Option.map_some,
      node, if_pos (experiment.registered_timerRow chainIndex)]

/-- The timer gets its release. -/
theorem Released.assignReleaseTime_eq (complete : experiment.Complete) {chainIndex : Nat}
    {state : SetUpState} (inRange : chainIndex < experiment.chainLengths.length)
    (held : experiment.Released chainIndex state) :
    state.strat.assignReleaseTime (experiment.handleOf (experiment.timerRow chainIndex) 0)
        (experiment.firstRelease chainIndex) =
      .ok (state.strat.assign (experiment.handleOf (experiment.timerRow chainIndex) 0)
        (experiment.released (chainIndex + 1) (experiment.timerRow chainIndex) 0)) := by
  have updated : { experiment.released chainIndex (experiment.timerRow chainIndex) 0 with
        releaseTime := some (toInt32 (experiment.firstRelease chainIndex)) } =
      experiment.released (chainIndex + 1) (experiment.timerRow chainIndex) 0 := by
    simp [Experiment.released, assigned]
  rw [assignReleaseTime, modifySettings, getPrioritySettings,
    held.holds.entry (complete.timerInRange inRange)
      (experiment.registered_timerRow chainIndex)]
  exact congrArg (fun record => Except.ok (state.strat.assign _ record)) updated

theorem Released.holds_assign (complete : experiment.Complete) {chainIndex : Nat}
    {state : SetUpState} (inRange : chainIndex < experiment.chainLengths.length)
    (held : experiment.Released chainIndex state) :
    experiment.Holds
      (fun index stage =>
        index < experiment.chainLengths.length ∧ stage < experiment.lengthOf index)
      (experiment.released (chainIndex + 1))
      (state.strat.assign (experiment.handleOf (experiment.timerRow chainIndex) 0)
        (experiment.released (chainIndex + 1) (experiment.timerRow chainIndex) 0)) := by
  apply held.holds.assign complete.handles (experiment.registered_timerRow chainIndex)
  · intro other otherStage
    constructor
    · exact .inl
    · rintro (made | ⟨rfl, rfl⟩)
      · exact made
      · exact complete.timerInRange inRange
  · intro other otherStage different
    by_cases isFirst : otherStage = 0
    · have notTimer : other ≠ experiment.timerRow chainIndex :=
        fun same => different ⟨same, isFirst⟩
      simp [Experiment.released, assigned, isFirst, notTimer]
    · simp [Experiment.released, isFirst]

/-- The deque of the chain gets the deadline. -/
theorem Released.pushBack_eq (complete : experiment.Complete) {chainIndex : Nat}
    {state : SetUpState} (inRange : chainIndex < experiment.chainLengths.length)
    (held : experiment.Released chainIndex state) :
    pushBack state.strat.deques (some (experiment.vectorOf chainIndex)) 0
        (toUint (experiment.firstRelease chainIndex + experiment.deadlineOf chainIndex)) =
      .ok (Function.update state.strat.deques (experiment.vectorOf chainIndex)
        ([experiment.firstDeadline chainIndex] ::
          List.replicate (experiment.sizeOf chainIndex - 1) [])) := by
  have empty := held.deques chainIndex inRange
  rw [if_neg (Nat.lt_irrefl chainIndex)] at empty
  have length : 0 < (state.strat.deques (experiment.vectorOf chainIndex)).length := by
    rw [empty, List.length_replicate]
    exact complete.sizeOf_pos inRange
  rw [pushBack, if_pos length, ← firstDeadline, empty]
  rcases Nat.exists_eq_add_one.mpr (complete.sizeOf_pos inRange) with ⟨rest, sizeEq⟩
  rw [sizeEq, List.replicate_succ]
  rfl

/-- One release more. -/
theorem Released.step (complete : experiment.Complete) {chainIndex : Nat}
    {state : SetUpState} (inRange : chainIndex < experiment.chainLengths.length)
    (held : experiment.Released chainIndex state) :
    ∃ after, experiment.releaseChain state chainIndex = .ok after ∧
      experiment.Released (chainIndex + 1) after := by
  rcases held.timer_eq complete inRange with ⟨row, timer⟩
  have releases := held.assignReleaseTime_eq complete inRange
  have pushes := held.pushBack_eq complete inRange
  have vector : elementAt state.chainDeadlinesDeque chainIndex =
      .ok (experiment.vectorOf chainIndex) := by
    apply elementAt_eq_ok
    rw [held.vectors, List.getElem?_map, List.getElem?_range inRange, Option.map_some]
  have deadline : elementAt experiment.chainDeadlines chainIndex =
      .ok (experiment.deadlineOf chainIndex) :=
    elementAt_of_lt (inRange.trans_le complete.deadlines) 0
  refine ⟨{ state with
      strat := { state.strat.assign (experiment.handleOf (experiment.timerRow chainIndex) 0)
          (experiment.released (chainIndex + 1) (experiment.timerRow chainIndex) 0) with
        deques := Function.update state.strat.deques (experiment.vectorOf chainIndex)
          ([experiment.firstDeadline chainIndex] ::
            List.replicate (experiment.sizeOf chainIndex - 1) []) } }, ?_, ?_⟩
  · simp only [releaseChain, row, timer, releases, vector, deadline, bind, Except.bind,
      assign_deques, pushes]
  · refine ⟨(held.holds_assign complete inRange).withDeques _, held.nodes, held.vectors, ?_⟩
    intro index indexInRange
    by_cases isNew : index = chainIndex
    · simp [isNew]
    · dsimp only
      rw [Function.update_of_ne (complete.vectors.ne isNew), held.deques index indexInRange]
      by_cases before : index < chainIndex
      · rw [if_pos before, if_pos (Nat.lt_succ_of_lt before)]
      · rw [if_neg before, if_neg fun within => isNew
          ((Nat.lt_succ_iff_lt_or_eq.mp within).resolve_left before)]

/-- Both loops succeed, and leave every chain released. -/
theorem Complete.setUp (complete : experiment.Complete) :
    ∃ state, experiment.setUp = .ok state ∧
      experiment.Released experiment.chainLengths.length state := by
  have start : experiment.Made 0 { strat := { isF1tenth := experiment.isF1tenth } } := by
    refine ⟨⟨rfl, ?_, ?_⟩, rfl, rfl, rfl, ?_⟩
    · exact fun made => absurd made.1 (Nat.not_lt_zero _)
    · exact fun found => by cases found
    · exact fun index impossible => absurd impossible (Nat.not_lt_zero index)
  rcases exists_countTo experiment.Made start (Made.step complete) with
    ⟨middle, chains, made⟩
  rcases exists_countTo experiment.Released made.released (Released.step complete) with
    ⟨state, releases, released⟩
  exact ⟨state, Except.bind_eq_ok.mpr ⟨middle, chains, releases⟩, released⟩

/-! ## Chains with a timer each -/

theorem timerRow_of_notShared (notShared : experiment.isF1tenth = false)
    (chainIndex : Nat) : experiment.timerRow chainIndex = chainIndex := by
  rw [timerRow, notShared, if_neg (by simp)]

theorem assigned_of_notShared (notShared : experiment.isF1tenth = false)
    (chainIndex index : Nat) :
    experiment.assigned chainIndex index =
      if index < chainIndex then some (toInt32 (experiment.firstRelease index)) else none := by
  induction chainIndex with
  | zero => rfl
  | succ chainIndex ih =>
      rw [assigned, timerRow_of_notShared notShared, ih]
      by_cases isNew : index = chainIndex
      · rw [if_pos isNew, isNew, if_pos (Nat.lt_succ_self chainIndex)]
      · rw [if_neg isNew]
        exact if_congr (Nat.lt_succ_iff_lt_or_eq.trans (or_iff_left isNew)).symm rfl rfl

/-- The first of two or more nodes is not the last. -/
theorem isLastInChain_released {index : Nat} (long : 2 ≤ experiment.lengthOf index)
    (chainIndex stage : Nat) :
    (experiment.released chainIndex index stage).isLastInChain =
      decide (stage = experiment.lengthOf index - 1) := by
  have asMade : (experiment.released chainIndex index stage).isLastInChain =
      decide (stage ≠ 0 ∧ stage = experiment.lengthOf index - 1) := rfl
  rw [asMade]
  apply decide_eq_decide.mpr
  omega

/-- The conversion to `int` does not change a `uint` deadline. -/
theorem toUint_toInt32_add (release deadline : Int) :
    toUint (toInt32 release + deadline) = toUint (release + deadline) := by
  rw [toUint_eq_iff, toInt32]
  omega

namespace Complete

/-- A chain of the program. -/
def chain (complete : experiment.Complete) (index : Fin experiment.chainLengths.length) :
    Chain where
  executables := experiment.handleOf index
  last := experiment.lengthOf index - 1
  vector := experiment.vectorOf index
  period := experiment.periodOf index
  deadline := experiment.deadlineOf index
  period_pos := Int.natCast_pos.mpr (complete.periodRange index index.isLt).1
  deadline_pos := Int.natCast_pos.mpr (complete.deadlineRange index index.isLt).1
  period_fits := Int.ofNat_lt.mpr (complete.periodRange index index.isLt).2
  deadline_fits := Int.ofNat_lt.mpr (complete.deadlineRange index index.isLt).2

def system (complete : experiment.Complete) :
    ChainSystem (Fin experiment.chainLengths.length) where
  chain := complete.chain
  distinct _ _ same := (complete.handles same).imp_left Fin.ext
  ownVector same := Fin.ext (complete.vectors same)

/-- The first release of a chain as its timer stores it. -/
def release (_ : experiment.Complete) (index : Fin experiment.chainLengths.length) : Int :=
  toInt32 (experiment.firstRelease index)

/-- Nothing is dispatched, and the deadline of instance 0 is known. -/
def histories (complete : experiment.Complete)
    (index : Fin experiment.chainLengths.length) : History :=
  { instant := fun _ => complete.release index + experiment.deadlineOf index }

end Complete

/-- With two or more nodes a chain, and no shared timer, the loops leave the state from
which the chains are meant to run. -/
theorem Released.initial (complete : experiment.Complete)
    (notShared : experiment.isF1tenth = false)
    (long : ∀ index < experiment.chainLengths.length, 2 ≤ experiment.lengthOf index)
    {state : SetUpState} (held : experiment.Released experiment.chainLengths.length state) :
    complete.system.Initial complete.release (fun _ _ => 0)
      (state.strat, complete.histories) where
  notShared := held.holds.isF1tenth.trans notShared
  vector index := by
    have queues := held.deques index index.isLt
    rw [if_pos index.isLt, firstDeadline, ← toUint_toInt32_add] at queues
    exact queues
  member index stage isStage := by
    have exists' : stage < experiment.lengthOf index :=
      (Nat.le_sub_one_iff_lt (complete.notEmpty index index.isLt)).mp isStage
    have registered : experiment.Registered index stage := by
      simp [Registered, notShared]
    refine ⟨_, held.holds.entry ⟨index.isLt, exists'⟩ registered,
      ⟨rfl, rfl, rfl, rfl, rfl, isLastInChain_released (long index index.isLt) _ stage⟩,
      rfl, rfl, ?_⟩
    intro isFirst
    simp only [Experiment.released]
    rw [if_pos isFirst, assigned_of_notShared notShared, if_pos index.isLt]
    rfl
  history := rfl

/-- A program whose chains have a timer each and two or more nodes sets its chains up
without a fault.  In every state that dispatches in order then reach, the deques of each
chain are the ring of its unfinished instances; and in every run of rounds each round
that fills `any_exec` while the chains are on time serves the earliest deadline. -/
theorem setUp_earliest_first (complete : experiment.Complete)
    (notShared : experiment.isF1tenth = false)
    (long : ∀ index < experiment.chainLengths.length, 2 ≤ experiment.lengthOf index) :
    ∃ state, experiment.setUp = .ok state ∧
      (∀ labels stop,
        Steps complete.system.LosslessDispatch (state.strat, complete.histories) labels stop →
        complete.system.Invariant complete.release (fun _ _ => 0) stop) ∧
      ∀ turns stop,
        Steps complete.system.TurnStep (state.strat, complete.histories) turns stop →
        ∀ turn ∈ turns, complete.system.OnTime turn → turn.round.anyExec.isFilled = true →
          complete.system.EarliestFirst turn := by
  rcases complete.setUp with ⟨state, succeeds, held⟩
  have initial := held.initial complete notShared long
  refine ⟨state, succeeds, fun _ _ run => initial.invariant_of_run run, fun _ _ run => ?_⟩
  exact run.forall_labels _ initial.kept ChainSystem.Kept.step
    fun kept step onTime filled => kept.earliestFirst step onTime filled

/-- The vectors of `multi_arb.cpp`. -/
def multiArb : Experiment where
  chainLengths := [2, 4]
  nodeRuntimes := [50, 60, 15, 25, 35, 45]
  chainPeriods := [100, 110]
  chainDeadlines := [250, 300]
  handleOf := Nat.pair
  vectorOf := id
  firstRelease _ := 1000
  isF1tenth := false

theorem multiArb_complete : multiArb.Complete where
  fewChains := by decide
  runtimes := by decide
  periods := by decide
  deadlines := by decide
  notEmpty := by decide
  periodRange := by decide
  deadlineRange := by decide
  handles same := Nat.pair_eq_pair.mp same
  vectors := Function.injective_id

/-- Both timers are ready when their first releases have come. -/
def bothTimers : RoundInput :=
  { groupReady { id := 0, timers := [multiArb.handleOf 0 0, multiArb.handleOf 1 0] } with
    dispatch := { millis := 1000 } }

/-- The timer of chain 0 is served, whose instance is due at 1250 and not at 1300. -/
def bothTurn (strategy : Strategy) : Turn (Fin multiArb.chainLengths.length) where
  now := 1000
  round := ⟨strategy.ready bothTimers, bothTimers.view,
    .fill .timer (multiArb.handleOf 0 0) 0⟩
  history := multiArb_complete.histories

theorem bothTurn_onTime (strategy : Strategy) :
    multiArb_complete.system.OnTime (bothTurn strategy) := by
  have instants : ∀ index number, ((bothTurn strategy).history index).instant number =
      1000 + multiArb.deadlineOf index := fun _ _ => rfl
  refine ⟨?_, ?_, ?_⟩
  · intro index stage _ _
    rw [instants]
    exact (Int.add_sub_cancel 1000 _).le
  · intro index number _ due
    have positive := (multiArb_complete.deadlineRange index index.isLt).1
    rw [instants] at due
    change (1000 : Int) + multiArb.deadlineOf index ≤ 1000 at due
    omega
  · intro index number _ _
    have range := multiArb_complete.deadlineRange index index.isLt
    rw [instants]
    omega

/-- The set-up, and a round that serves the timer of chain 0. -/
theorem bothTurn_round :
    ∃ state strategy, multiArb.setUp = .ok state ∧
      RoundStep state.strat (bothTurn state.strat).round strategy ∧
      (bothTurn state.strat).round.ready.selected (bothTurn state.strat).round.view =
        some (multiArb.handleOf 0 0, (bothTurn state.strat).round.anyExec) ∧
      (bothTurn state.strat).CanRun (multiArb.handleOf 0 0) ∧
      (bothTurn state.strat).CanRun (multiArb.handleOf 1 0) :=
  ⟨_, _, rfl, .of_round rfl, rfl, ⟨by decide, 0, 0, rfl, rfl, rfl, rfl⟩,
    ⟨by decide, 2, 0, rfl, rfl, rfl, rfl⟩⟩

theorem setUp_earliest_first_multiArb :
    ∃ state stop, multiArb.setUp = .ok state ∧
      Steps multiArb_complete.system.TurnStep (state.strat, multiArb_complete.histories)
        [bothTurn state.strat] stop ∧
      (bothTurn state.strat).CanRun (multiArb.handleOf 0 0) ∧
      (bothTurn state.strat).CanRun (multiArb.handleOf 1 0) ∧
      multiArb_complete.system.EarliestFirst (bothTurn state.strat) := by
  rcases bothTurn_round with ⟨state, strategy, succeeds, round, selected, canRun, canRunNext⟩
  rcases setUp_earliest_first multiArb_complete rfl (by decide) with ⟨found, foundEq, _, runs⟩
  rw [succeeds] at foundEq
  cases foundEq
  let first : Fin multiArb.chainLengths.length := ⟨0, by decide⟩
  have isStage : 0 ≤ (multiArb_complete.system.chain first).last := Nat.zero_le _
  have step : multiArb_complete.system.TurnStep (state.strat, multiArb_complete.histories)
      (bothTurn state.strat) _ :=
    ChainSystem.turnStep_of_round round rfl isStage selected (fun _ _ => Nat.le_refl 0) nofun
  have run := Steps.singleton step
  exact ⟨state, _, succeeds, run, canRun, canRunNext, runs _ _ run _
    (List.mem_singleton_self _) (bothTurn_onTime state.strat) rfl⟩

/-! ## Two chains on one timer -/

/-- The first two chains of a program with a shared timer. -/
def Complete.sharedTimer (complete : experiment.Complete)
    (two : 1 < experiment.chainLengths.length)
    (samePeriod : experiment.periodOf 1 = experiment.periodOf 0) : SharedTimer where
  owner := complete.chain ⟨0, Nat.zero_lt_of_lt two⟩
  driven := complete.chain ⟨1, two⟩
  samePeriod := congrArg Nat.cast samePeriod
  ownVector := complete.vectors.ne Nat.zero_ne_one

theorem assigned_of_shared (shared : experiment.isF1tenth = true) {chainIndex : Nat}
    (two : 1 < chainIndex) :
    experiment.assigned chainIndex 0 = some (toInt32 (experiment.firstRelease 1)) := by
  induction chainIndex, two using Nat.le_induction with
  | base => simp [assigned, timerRow, shared]
  | succ chainIndex two ih =>
      have other : 0 ≠ experiment.timerRow chainIndex := by
        simp only [timerRow, shared]
        split <;> omega
      rw [assigned, if_neg other, ih]

theorem Released.length_deques (complete : experiment.Complete) {state : SetUpState}
    (held : experiment.Released experiment.chainLengths.length state) {index : Nat}
    (inRange : index < experiment.chainLengths.length) :
    (state.strat.deques (experiment.vectorOf index)).length = experiment.sizeOf index := by
  have positive := complete.sizeOf_pos inRange
  rw [held.deques index inRange, if_pos inRange, List.length_cons, List.length_replicate,
    Nat.sub_add_cancel positive]

/-- The first two chains are then set up as `is_f1tenth` wants them. -/
theorem Released.sharedTimer (complete : experiment.Complete)
    (shared : experiment.isF1tenth = true) (two : 1 < experiment.chainLengths.length)
    (samePeriod : experiment.periodOf 1 = experiment.periodOf 0)
    (ownerLong : 2 ≤ experiment.lengthOf 0) (drivenLong : 2 ≤ experiment.lengthOf 1)
    {state : SetUpState} (held : experiment.Released experiment.chainLengths.length state) :
    (complete.sharedTimer two samePeriod).SetUp state.strat where
  isF1tenth := held.holds.isF1tenth.trans shared
  timerEntry := by
    have inRange := Nat.zero_lt_of_lt two
    exact ⟨_, held.holds.entry ⟨inRange, Nat.zero_lt_of_lt ownerLong⟩
      (by simp [Registered]),
      ⟨rfl, rfl, rfl, rfl, rfl, isLastInChain_released ownerLong _ 0⟩,
      toInt32_natCast (Nat.two_pow_pos 31)⟩
  driven := ⟨_, _, held.holds.entry ⟨two, drivenLong⟩ (by simp [Registered]), rfl⟩
  drivenVector := by
    intro handle executable entry isDriven
    rcases held.holds.only entry with ⟨index, stage, made, registered, rfl⟩
    rw [held.holds.entry made registered] at entry
    cases entry
    -- the number of a chain survives its conversion to `int`
    have isOne : toInt32 (index : Int) = 1 := isDriven
    rw [toInt32_natCast (made.1.trans complete.fewChains)] at isOne
    rw [Nat.cast_eq_one.mp isOne]
    rfl
  ownerSize := held.length_deques complete (Nat.zero_lt_of_lt two)
  drivenSize := held.length_deques complete two

/-- A program with a shared timer sets its chains up without a fault.  The timer starts
with the release that was read for chain 1, whatever was read for chain 0, and in every
run of its dispatches each one pushes the same deadline to the same deque of both
chains, the one that both want if and only if their deadlines are equal and this one fits
a `uint`. -/
theorem setUp_shares_timer (complete : experiment.Complete)
    (shared : experiment.isF1tenth = true) (two : 1 < experiment.chainLengths.length)
    (samePeriod : experiment.periodOf 1 = experiment.periodOf 0)
    (ownerLong : 2 ≤ experiment.lengthOf 0) (drivenLong : 2 ≤ experiment.lengthOf 1) :
    ∃ state, experiment.setUp = .ok state ∧
      (complete.sharedTimer two samePeriod).SetUp state.strat ∧
      state.strat.releaseTimeOf (complete.sharedTimer two samePeriod).timer =
        some (toInt32 (experiment.firstRelease 1)) ∧
      state.strat.deques (experiment.vectorOf 0) =
        [toUint (experiment.firstRelease 0 + experiment.deadlineOf 0)] ::
          List.replicate (experiment.sizeOf 0 - 1) [] ∧
      ∀ labels stop,
        Steps (complete.sharedTimer two samePeriod).TimerDispatch state.strat labels stop →
        ∀ (number : Nat) (label : SharedTimer.Release), labels[number]? = some label →
          label.Copied (complete.sharedTimer two samePeriod) (number + 1) ∧
          (label.Correct (complete.sharedTimer two samePeriod) (number + 1) ↔
            experiment.deadlineOf 0 = experiment.deadlineOf 1 ∧
              label.Fits (complete.sharedTimer two samePeriod)) := by
  rcases complete.setUp with ⟨state, succeeds, held⟩
  have first := Nat.zero_lt_of_lt two
  have timer := held.holds.entry ⟨first, Nat.zero_lt_of_lt ownerLong⟩
    (show experiment.Registered 0 0 by simp [Registered])
  refine ⟨state, succeeds,
    held.sharedTimer complete shared two samePeriod ownerLong drivenLong, ?_, ?_, ?_⟩
  · change (state.strat.priorityMap (experiment.handleOf 0 0)).bind _ = _
    rw [timer, Option.bind_some, Experiment.released, if_pos rfl]
    exact assigned_of_shared shared two
  · rw [held.deques 0 first, if_pos first]
    rfl
  · intro labels stop run number label found
    have fresh : (complete.sharedTimer two samePeriod).Counted state.strat 0 :=
      ⟨_, timer, rfl⟩
    have copied := (SharedTimer.copied_of_run fresh run).2 number label found
    exact ⟨copied, copied.correct_iff.trans (and_congr_left' Nat.cast_inj)⟩

/-- The vectors of `multi_test.cpp`. -/
def multiTest : Experiment where
  chainLengths := [2, 4, 4, 3, 4, 4]
  nodeRuntimes := [2, 16, 2, 2, 9, 9, 21, 8, 7, 2, 23, 8, 14, 18, 11, 8, 8, 11, 22, 5, 18]
  chainPeriods := [80, 80, 120, 140, 160, 180]
  chainDeadlines := [80, 80, 120, 140, 160, 180]
  handleOf := Nat.pair
  vectorOf := id
  firstRelease chainIndex := 1000 + chainIndex
  isF1tenth := true

theorem multiTest_complete : multiTest.Complete where
  fewChains := by decide
  runtimes := by decide
  periods := by decide
  deadlines := by decide
  notEmpty := by decide
  periodRange := by decide
  deadlineRange := by decide
  handles same := Nat.pair_eq_pair.mp same
  vectors := Function.injective_id

/-- The shared timer is dispatched in time. -/
def onTimeDispatch : DispatchInput where
  millis := 1001
  mapOrder := (List.range 6).flatMap fun index => (List.range 4).map (multiTest.handleOf index)

/-- The release at 1081 is due at 1161 in both chains, each of which has one deque. -/
def onTimeRelease : SharedTimer.Release := ⟨1081, ⟨0, 1161⟩, ⟨0, 1161⟩⟩

theorem onTimeDispatch_returns :
    ∃ state after executable released pushed, multiTest.setUp = .ok state ∧
      state.strat.priorityMap (multiTest.handleOf 0 0) = some executable ∧
      state.strat.bookkeeping onTimeDispatch (multiTest.handleOf 0 0) = .ok after ∧
      state.strat.releaseStage onTimeDispatch { executable with sum := executable.sum + 1 } =
        .ok (released, pushed) ∧
      after.releaseTimeOf (multiTest.handleOf 0 0) = some 1081 ∧
      onTimeRelease.owner.Appends (state.strat.deques 0) (pushed 0) ∧
      onTimeRelease.driven.Appends (state.strat.deques 1) (pushed 1) :=
  ⟨_, _, _, _, _, rfl, rfl, rfl, rfl, rfl, ⟨by decide, rfl⟩, ⟨by decide, rfl⟩⟩

theorem onTimeDispatch_visits {state : SetUpState} (succeeds : multiTest.setUp = .ok state) :
    SharedTimer.Visits onTimeDispatch state.strat := by
  rcases multiTest_complete.setUp with ⟨found, foundEq, released⟩
  cases succeeds.symm.trans foundEq
  intro handle registered
  rcases Option.isSome_iff_exists.mp registered with ⟨executable, entry⟩
  rcases released.holds.only entry with ⟨index, stage, ⟨inChains, inRange⟩, _, rfl⟩
  have short : ∀ index < 6, multiTest.lengthOf index ≤ 4 := by decide
  apply List.mem_flatMap.mpr
  refine ⟨index, List.mem_range.mpr inChains, List.mem_map_of_mem (List.mem_range.mpr ?_)⟩
  exact inRange.trans_le (short index inChains)

theorem setUp_shares_timer_multiTest :
    ∃ state stop, multiTest.setUp = .ok state ∧
      state.strat.releaseTimeOf (multiTest.handleOf 0 0) = some 1001 ∧
      state.strat.deques 0 = [[1080]] ∧
      Steps (multiTest_complete.sharedTimer (by decide) rfl).TimerDispatch state.strat
        [onTimeRelease] stop ∧
      onTimeRelease.Correct (multiTest_complete.sharedTimer (by decide) rfl) 1 := by
  rcases onTimeDispatch_returns with ⟨state, after, executable, released, pushed, succeeds,
    entry, result, stage, written, owner, driven⟩
  rcases setUp_shares_timer multiTest_complete rfl (by decide) rfl (by decide) (by decide)
    with ⟨found, foundEq, setUp, release, deques, runs⟩
  cases succeeds.symm.trans foundEq
  have run : Steps (multiTest_complete.sharedTimer (by decide) rfl).TimerDispatch state.strat
      [onTimeRelease] after :=
    .singleton ⟨state.strat, onTimeDispatch, executable, released, pushed, setUp,
      onTimeDispatch_visits succeeds, ⟨executable.canBeRun, by
        change state.strat.priorityMap (multiTest.handleOf 0 0) =
          (state.strat.priorityMap (multiTest.handleOf 0 0)).map _
        rw [entry, Option.map_some]⟩,
      entry, result, stage, written, owner, driven⟩
  have correct := (runs _ _ run 0 onTimeRelease rfl).2.mpr ⟨rfl, by decide, by decide⟩
  exact ⟨state, after, succeeds, release, deques, run, correct⟩

end Experiment

end PriorityExecutor
