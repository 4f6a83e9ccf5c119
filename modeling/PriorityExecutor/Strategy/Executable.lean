import Mathlib.Algebra.Group.Int.Defs
import Mathlib.Algebra.Group.Nat.Defs
import Mathlib.Logic.Function.Basic

/-!
# Executables and the data they share

An executable is the scheduling record that the memory strategy keeps for one
handle: its kind, its schedule class and parameters, and the counters that every
dispatch updates.

Handles, callback groups and deadline vectors are addresses.  A record is stored
under its own handle, so the `handle` member is the key and is not repeated.
`cur_index`, `sum` and `release_time` are allocated for one executable and never
shared, so they are values here; only `deadlines` points to data that several
executables of a chain share.
-/

namespace PriorityExecutor

/-- Address of an rcl handle or of a waitable. -/
abbrev Handle := Nat

/-- Address of a callback group. -/
abbrev GroupId := Nat

/-- Address of a `std::vector<std::deque<uint> *>`. -/
abbrev DequesPtr := Nat

inductive ExecutableType where
  | subscription
  | service
  | client
  | timer
  | waitable
  deriving DecidableEq, Repr

inductive ExecutableScheduleType where
  | chainIndependentPriority
  | chainAwarePriority
  | deadline
  | default
  deriving DecidableEq, Repr

/-- `PriorityExecutable`.  The defaults are the member initializers of the class;
`timer_handle` is left out because only a diagnostic print reads it. -/
structure PriorityExecutable where
  type : ExecutableType
  canBeRun : Bool := true
  /-- The member `waitable`, a pointer that no constructor sets. -/
  waitable : Option Handle := none
  schedType : ExecutableScheduleType
  priority : Int := 0
  /-- Milliseconds. -/
  period : Int := 1000
  deadline : Int := 1000
  releaseTime : Option Int := none
  isFirstInChain : Bool := false
  isLastInChain : Bool := false
  curIndex : Nat := 0
  deadlines : Option DequesPtr := none
  chainId : Int := 0
  counter : Int := 0
  sum : Int := 0
  deriving DecidableEq, Repr

/-- An integer in 32 signed bits: the conversion of a wider one to an `int`, and what an
`int` holds after an overflow on a two's complement machine. -/
def toInt32 (value : Int) : Int := (value + 2 ^ 31) % 2 ^ 32 - 2 ^ 31

theorem toInt32_eq_self {value : Int} (lower : -2 ^ 31 ≤ value) (upper : value < 2 ^ 31) :
    toInt32 value = value := by
  unfold toInt32
  omega

theorem toInt32_natCast {value : Nat} (upper : value < 2 ^ 31) : toInt32 value = value := by
  rw [toInt32]
  omega

/-- Counting on after an overflow is counting modulo 2^32. -/
theorem toInt32_toInt32_add (value amount : Int) :
    toInt32 (toInt32 value + amount) = toInt32 (value + amount) := by
  unfold toInt32
  omega

namespace PriorityExecutable

/-- The constructor with one number: a priority, or a period for `DEADLINE`.
A member that the source leaves uninitialised keeps its value above; no
comparison of that schedule class reads it. -/
def ofPriority (number : Int) (type : ExecutableType)
    (schedType : ExecutableScheduleType := .chainIndependentPriority) :
    PriorityExecutable :=
  match schedType with
  | .chainIndependentPriority | .chainAwarePriority =>
      { type, schedType, priority := number }
  | .deadline => { type, schedType, period := number }
  | .default => { type, schedType }

/-- The constructor with a period and a deadline. -/
def ofDeadline (number deadline : Int) (type : ExecutableType)
    (schedType : ExecutableScheduleType := .chainIndependentPriority) :
    PriorityExecutable :=
  match schedType with
  | .chainIndependentPriority | .chainAwarePriority =>
      { type, schedType, priority := number }
  | .deadline => { type, schedType, period := number, deadline }
  | .default => { type, schedType }

/-- The default constructor, reached through `operator[]` on an absent key.  It
leaves `sched_type` uninitialised; the first enumerator stands for it. -/
def blank : PriorityExecutable :=
  { type := .subscription, schedType := .chainIndependentPriority }

def dontRun (executable : PriorityExecutable) : PriorityExecutable :=
  { executable with canBeRun := false }

def allowRun (executable : PriorityExecutable) : PriorityExecutable :=
  { executable with canBeRun := true }

/-- `this->counter += 1`.  The counter is an `int`, and the dispatch after 2^31 - 1 others
turns it round. -/
def incrementCounter (executable : PriorityExecutable) : PriorityExecutable :=
  { executable with counter := toInt32 (executable.counter + 1) }

end PriorityExecutable

/-- Conversion of an integer to the 32-bit `uint` of a deadline deque. -/
def toUint (value : Int) : Nat := (value % 2 ^ 32).toNat

/-- Values in the range of the type are stored unchanged. -/
theorem toUint_of_range {value : Int} (nonneg : 0 ≤ value) (upper : value < 2 ^ 32) :
    (toUint value : Int) = value := by
  unfold toUint
  omega

theorem toUint_eq_iff {left right : Int} :
    toUint left = toUint right ↔ left % 2 ^ 32 = right % 2 ^ 32 := by
  unfold toUint
  omega

/-- What ends a call without a result: the memory accesses, integer operations
and conversions that C++ leaves undefined. -/
inductive Fault where
  | nullPointer
  | indexOutOfRange
  | moduloByZero
  | intConversion
  deriving DecidableEq, Repr

/-- `rclcpp::AnyExecutable`: at most one entity, and the group it belongs to.
The node pointer is written and never read by the executor. -/
structure AnyExecutable where
  subscription : Option Handle := none
  service : Option Handle := none
  client : Option Handle := none
  timer : Option Handle := none
  waitable : Option Handle := none
  callbackGroup : Option GroupId := none
  deriving DecidableEq, Repr

namespace AnyExecutable

/-- Store an entity in the member of its kind, together with its group. -/
def fill (type : ExecutableType) (entity : Handle) (group : GroupId) : AnyExecutable :=
  match type with
  | .subscription => { subscription := some entity, callbackGroup := some group }
  | .service => { service := some entity, callbackGroup := some group }
  | .client => { client := some entity, callbackGroup := some group }
  | .timer => { timer := some entity, callbackGroup := some group }
  | .waitable => { waitable := some entity, callbackGroup := some group }

/-- The test of `get_next_ready_executable` for a valid executable. -/
def isFilled (anyExec : AnyExecutable) : Bool :=
  anyExec.timer.isSome || anyExec.subscription.isSome || anyExec.service.isSome ||
    anyExec.client.isSome || anyExec.waitable.isSome

@[simp] theorem isFilled_fill (type : ExecutableType) (entity : Handle)
    (group : GroupId) : (fill type entity group).isFilled = true := by
  cases type <;> rfl

@[simp] theorem isFilled_empty : ({} : AnyExecutable).isFilled = false := rfl

@[simp] theorem callbackGroup_fill (type : ExecutableType) (entity : Handle)
    (group : GroupId) : (fill type entity group).callbackGroup = some group := by
  cases type <;> rfl

end AnyExecutable

end PriorityExecutor
