import PriorityExecutor.Strategy.Executable

/-!
# State of the memory strategy

`PriorityMemoryStrategy` owns the map from handles to executables, the handle
lists of the current round and the priority queue of the current round.  The
deadline vectors live on the heap and are reached through pointers.

The registration functions below are the ones a set-up program calls before
spinning.
-/

namespace PriorityExecutor

/-- Heap contents behind the deadline pointers: each vector of deques, by value. -/
abbrev Deques := DequesPtr → List (List Nat)

/-- The members of `PriorityMemoryStrategy` that scheduling reads or writes.
`allExecutables` is the vector inside the priority queue; it points into the
map, so it holds keys. -/
structure Strategy where
  isF1tenth : Bool := false
  priorityMap : Handle → Option PriorityExecutable := fun _ => none
  deques : Deques := fun _ => []
  subscriptionHandles : List Handle := []
  serviceHandles : List Handle := []
  clientHandles : List Handle := []
  timerHandles : List Handle := []
  waitableHandles : List Handle := []
  allExecutables : List Handle := []

namespace Strategy

/-- `priority_map[handle] = executable`. -/
def assign (strategy : Strategy) (handle : Handle) (executable : PriorityExecutable) :
    Strategy :=
  { strategy with
    priorityMap := Function.update strategy.priorityMap handle (some executable) }

@[simp] theorem assign_self (strategy : Strategy) (handle : Handle)
    (executable : PriorityExecutable) :
    (strategy.assign handle executable).priorityMap handle = some executable := by
  simp [assign]

theorem assign_of_ne (strategy : Strategy) {handle other : Handle}
    (executable : PriorityExecutable) (different : other ≠ handle) :
    (strategy.assign handle executable).priorityMap other =
      strategy.priorityMap other := by
  simp [assign, different]

@[simp] theorem assign_deques (strategy : Strategy) (handle : Handle)
    (executable : PriorityExecutable) :
    (strategy.assign handle executable).deques = strategy.deques := rfl

/-- `priority_map[handle]`, which creates an absent entry. -/
def atKey (strategy : Strategy) (handle : Handle) : PriorityExecutable :=
  (strategy.priorityMap handle).getD .blank

theorem atKey_of_some {strategy : Strategy} {handle : Handle}
    {executable : PriorityExecutable}
    (entry : strategy.priorityMap handle = some executable) :
    strategy.atKey handle = executable := by
  simp [atKey, entry]

theorem atKey_of_none {strategy : Strategy} {handle : Handle}
    (absent : strategy.priorityMap handle = none) : strategy.atKey handle = .blank := by
  simp [atKey, absent]

@[simp] theorem atKey_assign_self (strategy : Strategy) (handle : Handle)
    (executable : PriorityExecutable) :
    (strategy.assign handle executable).atKey handle = executable :=
  atKey_of_some (strategy.assign_self handle executable)

theorem atKey_assign_of_ne (strategy : Strategy) {handle other : Handle}
    (executable : PriorityExecutable) (different : other ≠ handle) :
    (strategy.assign handle executable).atKey other = strategy.atKey other := by
  simp [atKey, strategy.assign_of_ne executable different]

/-- The value behind the `release_time` pointer of a registered executable. -/
def releaseTimeOf (strategy : Strategy) (handle : Handle) : Option Int :=
  (strategy.priorityMap handle).bind PriorityExecutable.releaseTime

def getPrioritySettings (strategy : Strategy) (handle : Handle) :
    Option PriorityExecutable :=
  strategy.priorityMap handle

/-- The key and the entry of an executable after `get_and_reset_priority`, which
registers an unknown handle with priority zero. -/
def getAndResetPriority (strategy : Strategy) (handle : Handle)
    (type : ExecutableType) : Strategy :=
  match strategy.getPrioritySettings handle with
  | none => strategy.assign handle (.ofPriority 0 type)
  | some _ => strategy

/-! ## Registration -/

def setExecutablePriority (strategy : Strategy) (handle : Handle) (priority : Int)
    (type : ExecutableType) (schedType : ExecutableScheduleType) (chainIndex : Int) :
    Strategy :=
  strategy.assign handle { PriorityExecutable.ofPriority priority type schedType with
    chainId := chainIndex }

def setExecutableDeadline (strategy : Strategy) (handle : Handle)
    (period deadline : Int) (type : ExecutableType) (chainId : Int := 0) : Strategy :=
  strategy.assign handle { PriorityExecutable.ofDeadline period deadline type .deadline with
    chainId }

/-- Write through the pointer that `get_priority_settings` returns. -/
def modifySettings (strategy : Strategy) (handle : Handle)
    (update : PriorityExecutable → PriorityExecutable) : Except Fault Strategy :=
  match strategy.getPrioritySettings handle with
  | none => .error .nullPointer
  | some settings => .ok (strategy.assign handle (update settings))

def setFirstInChain (strategy : Strategy) (handle : Handle) : Except Fault Strategy :=
  strategy.modifySettings handle fun settings => { settings with isFirstInChain := true }

def setLastInChain (strategy : Strategy) (handle : Handle) : Except Fault Strategy :=
  strategy.modifySettings handle fun settings => { settings with isLastInChain := true }

def assignDeadlinesQueue (strategy : Strategy) (handle : Handle)
    (deadlines : DequesPtr) : Except Fault Strategy :=
  strategy.modifySettings handle fun settings =>
    { settings with deadlines := some deadlines }

def assignReleaseTime (strategy : Strategy) (handle : Handle) (releaseTime : Int) :
    Except Fault Strategy :=
  strategy.modifySettings handle fun settings =>
    { settings with releaseTime := some (toInt32 releaseTime) }

end Strategy

/-! ## Changes that no dispatch notices -/

/-- Nothing that the bookkeeping of a dispatch reads differs: entries keep everything
but their `can_be_run` flag, and new entries count as never dispatched. -/
structure FlagsOnly (before after : Strategy) : Prop where
  isF1tenth : after.isF1tenth = before.isF1tenth
  deques : after.deques = before.deques
  entry : ∀ {handle executable}, before.priorityMap handle = some executable →
    ∃ flag, after.priorityMap handle = some { executable with canBeRun := flag }
  fresh : ∀ {handle}, before.priorityMap handle = none →
    (after.atKey handle).sum = 0

theorem FlagsOnly.refl (strategy : Strategy) : FlagsOnly strategy strategy :=
  ⟨rfl, rfl, fun {_ executable} entry => ⟨executable.canBeRun, entry⟩, fun {_} absent => by
    rw [Strategy.atKey_of_none absent]
    rfl⟩

theorem FlagsOnly.trans {first middle last : Strategy} (left : FlagsOnly first middle)
    (right : FlagsOnly middle last) : FlagsOnly first last := by
  refine ⟨right.isF1tenth.trans left.isF1tenth, right.deques.trans left.deques, ?_, ?_⟩
  · intro handle executable entry
    obtain ⟨_, middleEntry⟩ := left.entry entry
    obtain ⟨flag, lastEntry⟩ := right.entry middleEntry
    exact ⟨flag, lastEntry⟩
  · intro handle absent
    have neverDispatched := left.fresh absent
    cases middleEntry : middle.priorityMap handle with
    | none => exact right.fresh middleEntry
    | some executable =>
        rw [Strategy.atKey_of_some middleEntry] at neverDispatched
        obtain ⟨_, lastEntry⟩ := right.entry middleEntry
        rw [Strategy.atKey_of_some lastEntry]
        exact neverDispatched

/-- The number of dispatches is not a flag. -/
theorem FlagsOnly.sum {before after : Strategy} (same : FlagsOnly before after)
    (handle : Handle) : (after.atKey handle).sum = (before.atKey handle).sum := by
  cases entry : before.priorityMap handle with
  | none =>
      rw [same.fresh entry, Strategy.atKey_of_none entry]
      rfl
  | some executable =>
      obtain ⟨_, afterEntry⟩ := same.entry entry
      rw [Strategy.atKey_of_some afterEntry, Strategy.atKey_of_some entry]

end PriorityExecutor
