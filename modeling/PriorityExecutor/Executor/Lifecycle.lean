import Mathlib.Data.Fintype.Prod
import PriorityExecutor.Executor.SingleThread

/-!
# From `spin` to its return

`spin` refuses to run twice, creates all worker threads but one while it holds
`wait_mutex_`, runs the last loop itself and joins the others.  The loops end when the
context is shut down; each tests it at the top and once more when it has the lock.

The system here is the whole of it: any number of callers, the threads of each call, the
lock, and a shutdown that may come at any time.  Calls of `cancel` are left out.
-/

namespace PriorityExecutor

/-- `number_of_threads_` as the constructor of `MultiThreadTimedExecutor` sets it. -/
def numberOfThreads (requested hardwareConcurrency : Nat) : Nat :=
  let numberOfThreads := if requested ≠ 0 then requested else hardwareConcurrency
  if numberOfThreads = 0 then 1 else numberOfThreads

/-- Where a thread is in `run`. -/
inductive Position where
  /-- The thread was not created, or it has returned. -/
  | left
  /-- It is about to test the condition of the loop. -/
  | top
  /-- It waits for `wait_mutex_`. -/
  | entering
  /-- It has `wait_mutex_` and has passed the second test. -/
  | locked
  /-- It has left the critical section with an executable. -/
  | inBody
  deriving DecidableEq, Repr

/-- Where a caller is in `spin`, with its `thread_id`. -/
inductive SpinStage where
  | outside
  | locking
  | creating (threadId : Nat)
  | running
  | joining (threadId : Nat)
  deriving DecidableEq, Repr

/-- The threads of a call that may exist, with `created` threads besides the caller. -/
def SpinStage.Alive (created : Nat) : SpinStage → Fin (created + 1) → Prop
  | .outside, _ | .locking, _ => False
  | .creating threadId, id => id.val < threadId
  | .running, _ => True
  | .joining threadId, id => threadId ≤ id.val ∧ id.val < created

/-- The executor with its callers `κ`; every call of `spin` creates `created` threads, so
`number_of_threads_` is one more. -/
structure SpinState (κ : Type*) (created : Nat) where
  ok : Bool := true
  spinning : Bool := false
  stage : κ → SpinStage := fun _ => .outside
  position : κ × Fin (created + 1) → Position := fun _ => .left
  executor : ExecutorState (κ × Fin (created + 1))

/-- What can be seen of a step. -/
inductive SpinEvent (κ : Type*) (created : Nat) where
  | shutdown
  | spin (caller : κ)
  | select (thread : κ × Fin (created + 1))
  | return (caller : κ)
  | internal
  deriving DecidableEq

/-- The thread that makes a round. -/
def SpinEvent.selects {κ : Type*} {created : Nat} :
    SpinEvent κ created → Option (κ × Fin (created + 1))
  | .select thread => some thread
  | .shutdown | .spin _ | .return _ | .internal => none

namespace SpinState

variable {κ : Type*} [DecidableEq κ] {created : Nat}

def setStage (state : SpinState κ created) (caller : κ) (stage : SpinStage) :
    SpinState κ created :=
  { state with stage := Function.update state.stage caller stage }

def setPosition (state : SpinState κ created) (thread : κ × Fin (created + 1))
    (position : Position) : SpinState κ created :=
  { state with position := Function.update state.position thread position }

/-- The condition of the loop in `run`. -/
def goesOn (state : SpinState κ created) : Bool := state.ok && state.spinning

/-- Nobody has `wait_mutex_`. -/
def LockFree (state : SpinState κ created) : Prop :=
  (∀ caller threadId, state.stage caller ≠ .creating threadId) ∧
    ∀ thread, state.position thread ≠ .locked

/-- The thread takes `wait_mutex_` for its next step, to erase its timer. -/
def NeedsLock (phase : Phase) : Prop :=
  ∃ anyExec timer, phase = .executed anyExec ∧ anyExec.timer = some timer

/-- A thread is at the top of its loop again when it has nothing more to do. -/
def afterBody : Phase → Position
  | .idle => .top
  | .executing _ | .executed _ | .discarded _ => .inBody

/-- The steps of the callers and of their threads. -/
inductive Step (mutuallyExclusive : GroupId → Bool) (state : SpinState κ created) :
    SpinEvent κ created → SpinState κ created → Prop where
  | shutdown : Step mutuallyExclusive state .shutdown { state with ok := false }
  /-- `spinning.exchange(true)` finds true.  The scope exit is not yet in place, so
  `spinning` stays true. -/
  | throws {caller : κ} : state.stage caller = .outside → state.spinning = true →
      Step mutuallyExclusive state (.spin caller) state
  | spin {caller : κ} : state.stage caller = .outside → state.spinning = false →
      Step mutuallyExclusive state (.spin caller)
        ({ state with spinning := true }.setStage caller .locking)
  | lock {caller : κ} : state.stage caller = .locking → state.LockFree →
      Step mutuallyExclusive state .internal (state.setStage caller (.creating 0))
  | create {caller : κ} {id : Fin created} : state.stage caller = .creating id →
      Step mutuallyExclusive state .internal
        ((state.setStage caller (.creating (id + 1))).setPosition (caller, id.castSucc) .top)
  | runLast {caller : κ} : state.stage caller = .creating created →
      Step mutuallyExclusive state .internal
        ((state.setStage caller .running).setPosition (caller, Fin.last created) .top)
  | test {thread : κ × Fin (created + 1)} : state.position thread = .top →
      Step mutuallyExclusive state .internal
        (state.setPosition thread (if state.goesOn then .entering else .left))
  | enter {thread : κ × Fin (created + 1)} : state.position thread = .entering →
      state.LockFree →
      Step mutuallyExclusive state .internal
        (state.setPosition thread (if state.goesOn then .locked else .left))
  | select {thread : κ × Fin (created + 1)} {input : RoundInput}
      {executor : ExecutorState (κ × Fin (created + 1))} : state.position thread = .locked →
      state.executor.Step mutuallyExclusive (thread, .select input) executor →
      Step mutuallyExclusive state (.select thread)
        ({ state with executor }.setPosition thread (afterBody (executor.phase thread)))
  | work {thread : κ × Fin (created + 1)} {event : WorkerEvent}
      {executor : ExecutorState (κ × Fin (created + 1))} : state.position thread = .inBody →
      event.input = none → (NeedsLock (state.executor.phase thread) → state.LockFree) →
      state.executor.Step mutuallyExclusive (thread, event) executor →
      Step mutuallyExclusive state .internal
        ({ state with executor }.setPosition thread (afterBody (executor.phase thread)))
  | startJoining {caller : κ} : state.stage caller = .running →
      state.position (caller, Fin.last created) = .left →
      Step mutuallyExclusive state .internal (state.setStage caller (.joining 0))
  | join {caller : κ} {id : Fin created} : state.stage caller = .joining id →
      state.position (caller, id.castSucc) = .left →
      Step mutuallyExclusive state .internal (state.setStage caller (.joining (id + 1)))
  | return {caller : κ} : state.stage caller = .joining created →
      Step mutuallyExclusive state (.return caller)
        ({ state with spinning := false }.setStage caller .outside)

/-- Nobody spins, and the executor is at rest. -/
structure Initial (state : SpinState κ created) : Prop where
  spinning : state.spinning = false
  stage : state.stage = fun _ => .outside
  position : state.position = fun _ => .left
  executor : state.executor.Quiescent

/-- The executor as `MultiThreadTimedExecutor` constructs it: `spin` creates one thread
less than `number_of_threads_`. -/
def constructed (requested hardwareConcurrency : Nat) (strategy : Strategy) :
    SpinState κ (numberOfThreads requested hardwareConcurrency - 1) where
  executor := { strategy }

omit [DecidableEq κ] in
theorem constructed_initial (requested hardwareConcurrency : Nat) (strategy : Strategy) :
    (constructed (κ := κ) requested hardwareConcurrency strategy).Initial where
  spinning := rfl
  stage := rfl
  position := rfl
  executor := ⟨rfl, rfl, rfl⟩

/-- A call of `spin` on it has `number_of_threads_` threads, and its caller is one of
them. -/
theorem card_threads (requested hardwareConcurrency : Nat) :
    Fintype.card (Fin (numberOfThreads requested hardwareConcurrency - 1 + 1)) =
      numberOfThreads requested hardwareConcurrency := by
  have positive : 0 < numberOfThreads requested hardwareConcurrency := by
    simp only [numberOfThreads]
    split_ifs <;> omega
  rw [Fintype.card_fin, Nat.sub_add_cancel positive]

/-- One caller and two threads, on which the results are tried. -/
def twoThreads : SpinState Unit 1 := constructed 2 0 registeredSubscription

theorem twoThreads_initial : twoThreads.Initial :=
  constructed_initial 2 0 registeredSubscription

/-! ## One call at a time -/

/-- At most one caller is past the guard of `spin`, and `spinning` says whether one is. -/
structure OneCall (state : SpinState κ created) : Prop where
  unique : ∀ left right, state.stage left ≠ .outside → state.stage right ≠ .outside →
    left = right
  spinning : state.spinning = true ↔ ∃ caller, state.stage caller ≠ .outside

variable {mutuallyExclusive : GroupId → Bool} {before after : SpinState κ created}
  {event : SpinEvent κ created}

/-- A caller that goes on from one stage inside `spin` to another. -/
theorem OneCall.setStage (one : before.OneCall) {caller : κ} {found stage : SpinStage}
    (isAt : before.stage caller = found) (inside : found ≠ .outside)
    (stays : stage ≠ .outside) : (before.setStage caller stage).OneCall := by
  have same : ∀ other,
      (before.setStage caller stage).stage other ≠ .outside ↔ before.stage other ≠ .outside := by
    intro other
    simp only [SpinState.setStage, Function.update_apply]
    split
    next equal =>
      subst equal
      rw [isAt]
      exact iff_of_true stays inside
    next => rfl
  refine ⟨?_, ?_⟩
  · intro left right leftInside rightInside
    exact one.unique left right ((same left).mp leftInside) ((same right).mp rightInside)
  · simp only [same]
    exact one.spinning

omit [DecidableEq κ] in
/-- The threads and the context do not matter for the guard. -/
theorem OneCall.congr (one : before.OneCall) (stage : after.stage = before.stage)
    (spinning : after.spinning = before.spinning) : after.OneCall := by
  refine ⟨?_, ?_⟩
  · rw [stage]
    exact one.unique
  · rw [stage, spinning]
    exact one.spinning

theorem OneCall.step (one : before.OneCall)
    (step : before.Step mutuallyExclusive event after) : after.OneCall := by
  cases step with
  | shutdown => exact one.congr rfl rfl
  | throws _ _ => exact one
  | @spin caller outside notSpinning =>
      -- nobody else is inside, since `spinning` was false
      have nobody : ∀ other, before.stage other = .outside := by
        intro other
        by_contra inside
        have := one.spinning.mpr ⟨other, inside⟩
        rw [notSpinning] at this
        cases this
      have inside : ∀ other, (({ before with spinning := true }.setStage caller
          .locking).stage other) ≠ .outside ↔ other = caller := by
        intro other
        simp only [SpinState.setStage, Function.update_apply]
        split
        next same => simp [same]
        next different => simp [different, nobody other]
      refine ⟨?_, ?_⟩
      · intro left right leftInside rightInside
        rw [inside] at leftInside rightInside
        rw [leftInside, rightInside]
      · refine iff_of_true rfl ⟨caller, (inside caller).mpr rfl⟩
  | lock locking _ => exact one.setStage locking (by simp) (by simp)
  | create creating => exact (one.setStage creating (by simp) (by simp)).congr rfl rfl
  | runLast creating => exact (one.setStage creating (by simp) (by simp)).congr rfl rfl
  | test _ => exact one.congr rfl rfl
  | enter _ _ => exact one.congr rfl rfl
  | select _ _ => exact one.congr rfl rfl
  | work _ _ _ _ => exact one.congr rfl rfl
  | startJoining running _ => exact one.setStage running (by simp) (by simp)
  | join joining _ => exact one.setStage joining (by simp) (by simp)
  | @«return» caller joining =>
      have nobody : ∀ other,
          ({ before with spinning := false }.setStage caller .outside).stage other =
            .outside := by
        intro other
        simp only [SpinState.setStage, Function.update_apply]
        split
        next => rfl
        next different =>
          by_contra inside
          exact different (one.unique other caller inside (by simp [joining]))
      refine ⟨fun left _ inside => absurd (nobody left) inside, ?_⟩
      refine iff_of_false nofun ?_
      rintro ⟨other, inside⟩
      exact inside (nobody other)

/-! ## The threads of a call -/

/-- Only the threads that a call has created and not yet joined may be running. -/
structure Accounted (state : SpinState κ created) : Prop where
  alive : ∀ caller id, state.position (caller, id) ≠ .left →
    (state.stage caller).Alive created id
  inRange : ∀ caller threadId, state.stage caller = .creating threadId ∨
    state.stage caller = .joining threadId → threadId ≤ created

/-- A thread of a call that may exist changes its position. -/
theorem Accounted.setPosition (accounted : before.Accounted)
    {thread : κ × Fin (created + 1)} (exists' : (before.stage thread.1).Alive created thread.2)
    (position : Position) : (before.setPosition thread position).Accounted := by
  refine ⟨?_, accounted.inRange⟩
  intro caller id running
  simp only [SpinState.setPosition, Function.update_apply] at running ⊢
  split at running
  next same =>
    subst same
    exact exists'
  next => exact accounted.alive caller id running

/-- A caller goes on while its running threads may still exist. -/
theorem Accounted.setStage (accounted : before.Accounted) {caller : κ} {stage : SpinStage}
    (keeps : ∀ id, before.position (caller, id) ≠ .left → stage.Alive created id)
    (range : ∀ threadId, stage = .creating threadId ∨ stage = .joining threadId →
      threadId ≤ created) : (before.setStage caller stage).Accounted := by
  refine ⟨?_, ?_⟩
  · intro other id running
    simp only [SpinState.setStage, Function.update_apply] at running ⊢
    split
    next same =>
      subst same
      exact keeps id running
    next => exact accounted.alive other id running
  · intro other threadId found
    simp only [SpinState.setStage, Function.update_apply] at found
    split at found
    next => exact range threadId found
    next => exact accounted.inRange other threadId found

theorem Accounted.step (accounted : before.Accounted)
    (step : before.Step mutuallyExclusive event after) : after.Accounted := by
  have aliveAt : ∀ {caller stage}, before.stage caller = stage → ∀ id,
      before.position (caller, id) ≠ .left → stage.Alive created id := by
    intro caller stage isAt id running
    rw [← isAt]
    exact accounted.alive caller id running
  cases step with
  | shutdown => exact ⟨accounted.alive, accounted.inRange⟩
  | throws _ _ => exact accounted
  | spin outside _ =>
      have spinning : ({ before with spinning := true } : SpinState κ created).Accounted :=
        ⟨accounted.alive, accounted.inRange⟩
      exact spinning.setStage (fun id running => (aliveAt outside id running).elim) (by simp)
  | lock locking _ =>
      refine accounted.setStage (fun id running => ?_) (by simp)
      exact (aliveAt locking id running).elim
  | @create caller id creating =>
      have staged : (before.setStage caller (.creating (id + 1))).Accounted := by
        refine accounted.setStage
          (fun other running => Nat.lt_succ_of_lt (aliveAt creating other running)) ?_
        rintro threadId (same | same)
        · cases same
          exact id.isLt
        · cases same
      refine staged.setPosition ?_ _
      simp [SpinState.setStage, SpinStage.Alive]
  | @runLast caller creating =>
      have staged : (before.setStage caller .running).Accounted :=
        accounted.setStage (fun _ _ => trivial) (by simp)
      refine staged.setPosition ?_ _
      simp [SpinState.setStage, SpinStage.Alive]
  | @test thread top =>
      exact accounted.setPosition (accounted.alive thread.1 thread.2 (by simp [top])) _
  | @enter thread entering _ =>
      exact accounted.setPosition (accounted.alive thread.1 thread.2 (by simp [entering])) _
  | @select thread _ executor locked _ =>
      have worked : ({ before with executor } : SpinState κ created).Accounted :=
        ⟨accounted.alive, accounted.inRange⟩
      exact worked.setPosition (accounted.alive thread.1 thread.2 (by simp [locked])) _
  | @work thread _ executor inBody _ _ _ =>
      have worked : ({ before with executor } : SpinState κ created).Accounted :=
        ⟨accounted.alive, accounted.inRange⟩
      exact worked.setPosition (accounted.alive thread.1 thread.2 (by simp [inBody])) _
  | @startJoining caller running lastLeft =>
      refine accounted.setStage (fun id stillRunning => ?_) (by simp)
      have notLast : id ≠ Fin.last created := by
        rintro rfl
        exact stillRunning lastLeft
      exact ⟨Nat.zero_le _, Fin.val_lt_last notLast⟩
  | @join caller id joining joined =>
      refine accounted.setStage (fun other stillRunning => ?_) ?range
      case range =>
        rintro threadId (same | same)
        · cases same
        · cases same
          exact id.isLt
      obtain ⟨behind, below⟩ := aliveAt joining other stillRunning
      refine ⟨?_, below⟩
      have different : other ≠ id.castSucc := by
        rintro rfl
        exact stillRunning joined
      have : other.val ≠ id.val := fun same => different (Fin.ext same)
      omega
  | @«return» caller joining =>
      have stopped : ({ before with spinning := false } : SpinState κ created).Accounted :=
        ⟨accounted.alive, accounted.inRange⟩
      refine stopped.setStage (fun id stillRunning => ?_) (by simp)
      have := aliveAt joining id stillRunning
      simp only [SpinStage.Alive] at this
      omega

/-! ## The lock -/

/-- `wait_mutex_` has at most one holder: a thread, or a caller that creates threads. -/
structure OneHolder (state : SpinState κ created) : Prop where
  oneThread : ∀ left right, state.position left = .locked → state.position right = .locked →
    left = right
  noCaller : ∀ thread caller threadId, state.position thread = .locked →
    state.stage caller ≠ .creating threadId

theorem OneHolder.setPosition (one : before.OneHolder) {thread : κ × Fin (created + 1)}
    {position : Position} (holds : position = .locked → before.LockFree) :
    (before.setPosition thread position).OneHolder := by
  have holder : ∀ other, (before.setPosition thread position).position other = .locked →
      other = thread ∧ before.LockFree ∨ before.position other = .locked := by
    intro other locked
    simp only [SpinState.setPosition, Function.update_apply] at locked
    split at locked
    next same => exact .inl ⟨same, holds locked⟩
    next => exact .inr locked
  refine ⟨?_, ?_⟩
  · intro left right leftLocked rightLocked
    rcases holder left leftLocked with ⟨rfl, free⟩ | leftWas
    · rcases holder right rightLocked with ⟨rfl, _⟩ | rightWas
      · rfl
      · exact absurd rightWas (free.2 right)
    · rcases holder right rightLocked with ⟨rfl, free⟩ | rightWas
      · exact absurd leftWas (free.2 left)
      · exact one.oneThread left right leftWas rightWas
  · intro other caller threadId locked
    rcases holder other locked with ⟨_, free⟩ | was
    · exact free.1 caller threadId
    · exact one.noCaller other caller threadId was

theorem OneHolder.setStage (one : before.OneHolder) {caller : κ} {stage : SpinStage}
    (holds : ∀ threadId, stage = .creating threadId →
      (∃ earlier, before.stage caller = .creating earlier) ∨ before.LockFree) :
    (before.setStage caller stage).OneHolder := by
  refine ⟨one.oneThread, ?_⟩
  intro thread other threadId locked
  simp only [SpinState.setStage, Function.update_apply]
  split
  next same =>
    intro creates
    rcases holds threadId creates with ⟨earlier, was⟩ | free
    · exact one.noCaller thread caller earlier locked was
    · exact free.2 thread locked
  next => exact one.noCaller thread other threadId locked

omit [DecidableEq κ] in
theorem OneHolder.congr (one : before.OneHolder) (stage : after.stage = before.stage)
    (position : after.position = before.position) : after.OneHolder := by
  refine ⟨?_, ?_⟩
  · rw [position]
    exact one.oneThread
  · rw [position, stage]
    exact one.noCaller

/-- A thread that has left its critical section does not hold the lock. -/
theorem afterBody_ne_locked (phase : Phase) : afterBody phase ≠ .locked := by
  cases phase <;> simp [afterBody]

theorem OneHolder.step (one : before.OneHolder)
    (step : before.Step mutuallyExclusive event after) : after.OneHolder := by
  cases step with
  | shutdown => exact one.congr rfl rfl
  | throws _ _ => exact one
  | spin _ _ =>
      have spinning : ({ before with spinning := true } : SpinState κ created).OneHolder :=
        one.congr rfl rfl
      exact spinning.setStage (by simp)
  | lock _ free => exact one.setStage fun _ _ => .inr free
  | create creating =>
      exact (one.setStage fun _ _ => .inl ⟨_, creating⟩).setPosition (by simp)
  | runLast _ => exact (one.setStage (by simp)).setPosition (by simp)
  | test _ => exact one.setPosition (by split <;> simp)
  | enter _ free => exact one.setPosition fun _ => free
  | select _ _ =>
      have worked : ∀ executor, ({ before with executor } : SpinState κ created).OneHolder :=
        fun _ => one.congr rfl rfl
      exact (worked _).setPosition fun locked => absurd locked (afterBody_ne_locked _)
  | work _ _ _ _ =>
      have worked : ∀ executor, ({ before with executor } : SpinState κ created).OneHolder :=
        fun _ => one.congr rfl rfl
      exact (worked _).setPosition fun locked => absurd locked (afterBody_ne_locked _)
  | startJoining _ _ => exact one.setStage (by simp)
  | join _ _ => exact one.setStage (by simp)
  | @«return» caller _ =>
      have stopped : ({ before with spinning := false } : SpinState κ created).OneHolder :=
        one.congr rfl rfl
      exact stopped.setStage (by simp)

/-! ## The phases of the threads -/

/-- A thread has an executable exactly while it is in the body of its loop. -/
def InStep (state : SpinState κ created) : Prop :=
  ∀ thread, state.executor.phase thread ≠ .idle ↔ state.position thread = .inBody

/-- A step of a thread leaves the phases of the others. -/
theorem phase_of_ne {ι : Type*} [DecidableEq ι] {before after : ExecutorState ι}
    {label : ι × WorkerEvent} (step : before.Step mutuallyExclusive label after) {other : ι}
    (different : other ≠ label.1) : after.phase other = before.phase other := by
  cases step.effect with
  | nothing phaseEq _ => rw [phaseEq]
  | start _ _ _ _ _ phaseEq _ => rw [phaseEq, Function.update_of_ne different]
  | discard _ _ _ phaseEq _ => rw [phaseEq, Function.update_of_ne different]
  | finish _ phaseEq _ => rw [phaseEq, Function.update_of_ne different]
  | erase _ phaseEq _ => rw [phaseEq, Function.update_of_ne different]
  | destroy _ phaseEq _ => rw [phaseEq, Function.update_of_ne different]

theorem afterBody_eq_inBody {phase : Phase} : phase ≠ .idle ↔ afterBody phase = .inBody := by
  cases phase <;> simp [afterBody]

/-- A thread moves its executor and takes the position that goes with its phase. -/
theorem InStep.move (inStep : before.InStep) {thread : κ × Fin (created + 1)}
    {event : WorkerEvent} {executor : ExecutorState (κ × Fin (created + 1))}
    (step : before.executor.Step mutuallyExclusive (thread, event) executor) :
    ({ before with executor }.setPosition thread
      (afterBody (executor.phase thread)) : SpinState κ created).InStep := by
  intro other
  simp only [SpinState.setPosition, Function.update_apply]
  split
  next same =>
    subst same
    exact afterBody_eq_inBody
  next different =>
    rw [phase_of_ne step different]
    exact inStep other

/-- A thread that is not in its body goes to another place outside of it. -/
theorem InStep.setPosition (inStep : before.InStep) {thread : κ × Fin (created + 1)}
    {position : Position} (was : before.position thread ≠ .inBody)
    (becomes : position ≠ .inBody) : (before.setPosition thread position).InStep := by
  intro other
  simp only [SpinState.setPosition, Function.update_apply]
  split
  next same =>
    subst same
    exact (inStep other).trans (iff_of_false was becomes)
  next => exact inStep other

theorem InStep.step (inStep : before.InStep) (accounted : before.Accounted)
    (step : before.Step mutuallyExclusive event after) : after.InStep := by
  have notAlive : ∀ {caller id stage}, before.stage caller = stage →
      ¬ stage.Alive created id → before.position (caller, id) = .left := by
    intro caller id stage isAt gone
    by_contra running
    exact gone (isAt ▸ accounted.alive caller id running)
  cases step with
  | shutdown => exact inStep
  | throws _ _ => exact inStep
  | spin _ _ => exact inStep
  | lock _ _ => exact inStep
  | @create caller id creating =>
      have staged : (before.setStage caller (.creating (id + 1))).InStep := inStep
      refine staged.setPosition ?_ (by simp)
      rw [SpinState.setStage, notAlive creating (by simp [SpinStage.Alive])]
      simp
  | @runLast caller creating =>
      have staged : (before.setStage caller .running).InStep := inStep
      refine staged.setPosition ?_ (by simp)
      rw [SpinState.setStage, notAlive creating (by simp [SpinStage.Alive])]
      simp
  | test top => exact inStep.setPosition (by simp [top]) (by split <;> simp)
  | enter entering _ => exact inStep.setPosition (by simp [entering]) (by split <;> simp)
  | select _ step => exact inStep.move step
  | work _ _ _ step => exact inStep.move step
  | startJoining _ _ => exact inStep
  | join _ _ => exact inStep
  | «return» _ => exact inStep

/-! ## Whole runs -/

/-- What holds whenever callers and threads are between two steps. -/
structure Reached (mutuallyExclusive : GroupId → Bool) (state : SpinState κ created) :
    Prop where
  oneCall : state.OneCall
  accounted : state.Accounted
  oneHolder : state.OneHolder
  inStep : state.InStep
  taken : state.executor.TakenHeld mutuallyExclusive
  exact : state.executor.leases.Exact

/-- The executor moves by its own steps only. -/
theorem Step.executor (step : before.Step mutuallyExclusive event after) :
    after.executor = before.executor ∨
      ∃ label, before.executor.Step mutuallyExclusive label after.executor := by
  cases step with
  | select _ step => exact .inr ⟨_, step⟩
  | work _ _ _ step => exact .inr ⟨_, step⟩
  | shutdown => exact .inl rfl
  | throws => exact .inl rfl
  | spin => exact .inl rfl
  | lock => exact .inl rfl
  | create => exact .inl rfl
  | runLast => exact .inl rfl
  | test => exact .inl rfl
  | enter => exact .inl rfl
  | startJoining => exact .inl rfl
  | join => exact .inl rfl
  | «return» => exact .inl rfl

theorem Reached.step (reached : before.Reached mutuallyExclusive)
    (step : before.Step mutuallyExclusive event after) :
    after.Reached mutuallyExclusive := by
  have data : after.executor.TakenHeld mutuallyExclusive ∧ after.executor.leases.Exact := by
    rcases step.executor with same | ⟨label, moved⟩
    · rw [same]
      exact ⟨reached.taken, reached.exact⟩
    · exact ⟨reached.taken.step moved, reached.exact.move moved.move.1⟩
  exact ⟨reached.oneCall.step step, reached.accounted.step step,
    reached.oneHolder.step step, reached.inStep.step reached.accounted step, data.1, data.2⟩

omit [DecidableEq κ] in
theorem Initial.reached {state : SpinState κ created} (initial : state.Initial) :
    state.Reached mutuallyExclusive where
  oneCall := ⟨by simp [initial.stage], by simp [initial.stage, initial.spinning]⟩
  accounted := ⟨by simp [initial.position], by simp [initial.stage]⟩
  oneHolder := ⟨by simp [initial.position], by simp [initial.position]⟩
  inStep := by simp [InStep, initial.position, initial.executor.idle]
  taken := by simp [ExecutorState.TakenHeld, initial.executor.takeable]
  exact := ExecutorState.NothingScheduled.exact
    ⟨initial.executor.idle, initial.executor.unscheduled⟩

theorem reached_of_run {start stop : SpinState κ created} {events : List (SpinEvent κ created)}
    (initial : start.Initial) (run : Steps (Step mutuallyExclusive) start events stop) :
    stop.Reached mutuallyExclusive :=
  run.invariant (Reached mutuallyExclusive) initial.reached fun reached step =>
    reached.step step

omit [DecidableEq κ] in
/-- When no caller is inside `spin`, no thread runs and the executor is at rest. -/
theorem Reached.at_rest {state : SpinState κ created}
    (reached : state.Reached mutuallyExclusive)
    (outside : ∀ caller, state.stage caller = .outside) :
    (∀ thread, state.position thread = .left) ∧ state.executor.Quiescent := by
  have gone : ∀ thread, state.position thread = .left := by
    intro thread
    by_contra running
    have := reached.accounted.alive thread.1 thread.2 running
    rw [outside] at this
    exact this
  refine ⟨gone, reached.taken.quiescent reached.exact ?_⟩
  funext thread
  by_contra busy
  have := (reached.inStep thread).mp busy
  rw [gone thread] at this
  cases this

/-- In every run at most one call of `spin` is past its guard, and when it returns, all
its threads have returned, every group is takeable, and no timer is scheduled. -/
theorem spin_returns_at_rest {start before after : SpinState κ created}
    {events : List (SpinEvent κ created)} {caller : κ} (initial : start.Initial)
    (run : Steps (Step mutuallyExclusive) start events before) :
    (∀ left right, before.stage left ≠ .outside → before.stage right ≠ .outside →
        left = right) ∧
      (before.Step mutuallyExclusive (.return caller) after →
        (∀ other, after.stage other = .outside) ∧
          (∀ thread, after.position thread = .left) ∧ after.executor.Quiescent) := by
  have reached := reached_of_run initial run
  refine ⟨reached.oneCall.unique, fun returns => ?_⟩
  have reachedAfter := reached.step returns
  have outside : ∀ other, after.stage other = .outside := by
    have notSpinning : after.spinning = false := by
      cases returns
      rfl
    intro other
    by_contra inside
    have := reachedAfter.oneCall.spinning.mpr ⟨other, inside⟩
    rw [notSpinning] at this
    cases this
  exact ⟨outside, reachedAfter.at_rest outside⟩

/-- A call that is shut down when its threads have just been created. -/
theorem spin_returns_at_rest_twoThreads :
    ∃ before after : SpinState Unit 1,
      Steps (Step fun _ => true) twoThreads
          ([.spin ()] ++ [.internal] ++ [.internal] ++ [.internal] ++ [.shutdown] ++
            [.internal] ++ [.internal] ++ [.internal] ++ [.internal]) before ∧
        before.Step (fun _ => true) (.return ()) after ∧
        (∀ other, after.stage other = .outside) ∧
        (∀ thread, after.position thread = .left) ∧ after.executor.Quiescent := by
  have called := Steps.singleton (@Step.spin Unit _ 1 (fun _ => true) twoThreads () rfl rfl)
  have locked := called.snoc (@Step.lock Unit _ 1 _ _ () rfl ⟨nofun, nofun⟩)
  have created := locked.snoc (@Step.create Unit _ 1 _ _ () 0 rfl)
  have running := created.snoc (@Step.runLast Unit _ 1 _ _ () rfl)
  have shutDown := running.snoc .shutdown
  have left := shutDown.snoc (@Step.test Unit _ 1 _ _ ((), 0) rfl)
  have lastLeft := left.snoc (@Step.test Unit _ 1 _ _ ((), 1) rfl)
  have joining := lastLeft.snoc (@Step.startJoining Unit _ 1 _ _ () rfl rfl)
  obtain ⟨before, joined, joinedAll⟩ : ∃ before : SpinState Unit 1,
      Steps (Step fun _ => true) twoThreads _ before ∧ before.stage () = .joining 1 :=
    ⟨_, joining.snoc (@Step.join Unit _ 1 _ _ () 0 rfl rfl), rfl⟩
  have returns := @Step.return Unit _ 1 (fun _ => true) before () joinedAll
  exact ⟨_, _, joined, returns, (spin_returns_at_rest twoThreads_initial joined).2 returns⟩

/-! ## After the shutdown -/

/-- A thread that changes its position without getting the lock. -/
theorem locked_of_setPosition {state : SpinState κ created}
    {thread other : κ × Fin (created + 1)} {position : Position} (unlocked : position ≠ .locked)
    (locked : (state.setPosition thread position).position other = .locked) :
    other ≠ thread ∧ state.position other = .locked := by
  simp only [SpinState.setPosition, Function.update_apply] at locked
  split at locked
  next => exact absurd locked unlocked
  next different => exact ⟨different, locked⟩

/-- After a shutdown no step takes the lock for a round, and a round gives it up. -/
theorem Step.afterShutdown (step : before.Step mutuallyExclusive event after)
    (oneHolder : before.OneHolder) (shutDown : before.ok = false) :
    after.ok = false ∧
      ((∃ thread, event = .select thread ∧ before.position thread = .locked ∧
          ∀ other, after.position other ≠ .locked) ∨
        event.selects = none ∧ ∀ thread, after.position thread = .locked →
          before.position thread = .locked) := by
  cases step with
  | @select thread _ executor isLocked _ =>
      refine ⟨shutDown, .inl ⟨thread, rfl, isLocked, ?_⟩⟩
      intro other locked
      obtain ⟨different, was⟩ := locked_of_setPosition (afterBody_ne_locked _) locked
      exact different (oneHolder.oneThread other thread was isLocked)
  | work _ _ _ _ =>
      exact ⟨shutDown, .inr ⟨rfl, fun _ locked =>
        (locked_of_setPosition (afterBody_ne_locked _) locked).2⟩⟩
  | test _ =>
      exact ⟨shutDown, .inr ⟨rfl, fun _ locked =>
        (locked_of_setPosition (by split <;> simp) locked).2⟩⟩
  | enter _ _ =>
      have leaves : before.goesOn = false := by simp [goesOn, shutDown]
      refine ⟨shutDown, .inr ⟨rfl, fun _ locked => ?_⟩⟩
      exact (locked_of_setPosition (by simp [leaves]) locked).2
  | create _ =>
      exact ⟨shutDown, .inr ⟨rfl, fun _ locked =>
        (locked_of_setPosition (by simp) locked).2⟩⟩
  | runLast _ =>
      exact ⟨shutDown, .inr ⟨rfl, fun _ locked =>
        (locked_of_setPosition (by simp) locked).2⟩⟩
  | shutdown => exact ⟨rfl, .inr ⟨rfl, fun _ => id⟩⟩
  | throws => exact ⟨shutDown, .inr ⟨rfl, fun _ => id⟩⟩
  | spin => exact ⟨shutDown, .inr ⟨rfl, fun _ => id⟩⟩
  | lock => exact ⟨shutDown, .inr ⟨rfl, fun _ => id⟩⟩
  | startJoining => exact ⟨shutDown, .inr ⟨rfl, fun _ => id⟩⟩
  | join => exact ⟨shutDown, .inr ⟨rfl, fun _ => id⟩⟩
  | «return» => exact ⟨shutDown, .inr ⟨rfl, fun _ => id⟩⟩

/-- After a shutdown at most one round is still made, and by the thread that has passed
its second test, whatever the others were doing and whoever calls `spin` again. -/
theorem selects_after_shutdown {start middle stop : SpinState κ created}
    {earlier later : List (SpinEvent κ created)} (initial : start.Initial)
    (run : Steps (Step mutuallyExclusive) start earlier middle)
    (shutDown : middle.ok = false)
    (rest : Steps (Step mutuallyExclusive) middle later stop) :
    later.filterMap SpinEvent.selects = [] ∨
      ∃ thread, middle.position thread = .locked ∧
        later.filterMap SpinEvent.selects = [thread] := by
  -- until the round nobody gets the lock, and after it nobody has it
  have counted : stop.OneHolder ∧ stop.ok = false ∧
      (later.filterMap SpinEvent.selects = [] ∧
          (∀ thread, stop.position thread = .locked → middle.position thread = .locked) ∨
        (∃ thread, middle.position thread = .locked ∧
          later.filterMap SpinEvent.selects = [thread]) ∧
          ∀ thread, stop.position thread ≠ .locked) := by
    induction rest with
    | nil =>
        exact ⟨(reached_of_run initial run).oneHolder, shutDown, .inl ⟨rfl, fun _ => id⟩⟩
    | @snoc before after events event _ step ih =>
        obtain ⟨oneHolder, down, counted⟩ := ih
        obtain ⟨downAfter, ⟨thread, rfl, locked, free⟩ | ⟨noRound, fewer⟩⟩ :=
          step.afterShutdown oneHolder down
        · refine ⟨oneHolder.step step, downAfter, .inr ⟨?_, free⟩⟩
          rcases counted with ⟨none, held⟩ | ⟨_, nobody⟩
          · refine ⟨thread, held thread locked, ?_⟩
            rw [List.filterMap_append, none]
            rfl
          · exact absurd locked (nobody thread)
        · have same : (events ++ [event]).filterMap SpinEvent.selects =
              events.filterMap SpinEvent.selects := by
            simp [List.filterMap_append, noRound]
          refine ⟨oneHolder.step step, downAfter, ?_⟩
          rw [same]
          rcases counted with ⟨none, held⟩ | ⟨one, nobody⟩
          · exact .inl ⟨none, fun thread locked => held thread (fewer thread locked)⟩
          · exact .inr ⟨one, fun thread locked => nobody thread (fewer thread locked)⟩
  rcases counted.2.2 with ⟨none, _⟩ | ⟨one, _⟩
  · exact .inl none
  · exact .inr one

/-- A round in which no node is left. -/
def noNodes : RoundInput where
  canBeTakenFrom _ := true
  weakNodes := []
  outcome :=
    { addToWaitSet := fun _ waitSet => waitSet, wait := id, isReady := fun _ _ => false }
  view :=
    { entityExists := fun _ _ => false
      getGroup := fun _ _ => none
      canBeTakenFrom := fun _ => true }
  dispatch := { millis := 0 }

/-- A thread that has the lock can make a round; whether it finds something or not, it
gives the lock up. -/
theorem exists_round {ι : Type*} [DecidableEq ι] (mutuallyExclusive : GroupId → Bool)
    {state : ExecutorState ι} {thread : ι} (idle : state.phase thread = .idle) :
    ∃ input after, state.Step mutuallyExclusive (thread, .select input) after := by
  have result : ∃ strategy,
      state.strategy.round (noNodes.withFlags state.canBeTakenFrom) = .ok ({}, strategy) :=
    ⟨_, rfl⟩
  obtain ⟨strategy, result⟩ := result
  refine ⟨noNodes, state.afterRound mutuallyExclusive thread {} strategy, ?_⟩
  unfold ExecutorState.Step ExecutorState.next
  simp only [idle, result]

/-- The created thread has the lock and has passed its second test when the context is
shut down. -/
theorem shutdown_while_locked :
    ∃ middle : SpinState Unit 1,
      Steps (Step fun _ => true) twoThreads
          ([.spin ()] ++ [.internal] ++ [.internal] ++ [.internal] ++ [.internal] ++
            [.internal] ++ [.shutdown]) middle ∧
        middle.ok = false ∧ middle.position ((), 0) = .locked ∧
        middle.position ((), 1) = .top ∧ middle.executor = twoThreads.executor := by
  have called := Steps.singleton (@Step.spin Unit _ 1 (fun _ => true) twoThreads () rfl rfl)
  have locked := called.snoc (@Step.lock Unit _ 1 _ _ () rfl ⟨nofun, nofun⟩)
  have created := locked.snoc (@Step.create Unit _ 1 _ _ () 0 rfl)
  have running := created.snoc (@Step.runLast Unit _ 1 _ _ () rfl)
  have tested := running.snoc (@Step.test Unit _ 1 _ _ ((), 0) rfl)
  have entered := tested.snoc (@Step.enter Unit _ 1 _ _ ((), 0) rfl ⟨nofun, by decide⟩)
  exact ⟨_, entered.snoc .shutdown, rfl, rfl, rfl, rfl⟩

/-- The thread with the lock still makes its round, and then the other one returns. -/
theorem selects_after_shutdown_twoThreads :
    ∃ middle stop : SpinState Unit 1, middle.ok = false ∧
      Steps (Step fun _ => true) middle [.select ((), 0), .internal] stop ∧
      middle.position ((), 0) = .locked := by
  obtain ⟨middle, run, shutDown, locked, waits, executor⟩ := shutdown_while_locked
  have idle : middle.executor.phase ((), 0) = .idle := by
    rw [executor]
    rfl
  obtain ⟨input, worked, step⟩ := exists_round (fun _ => true) idle
  have round := Steps.singleton (Step.select locked step)
  have stillWaits : (({ middle with executor := worked } : SpinState Unit 1).setPosition
      ((), 0) (afterBody (worked.phase ((), 0)))).position ((), 1) = .top := by
    simpa [setPosition] using waits
  have rest := round.snoc (.test stillWaits)
  refine ⟨middle, _, shutDown, rest, ?_⟩
  rcases selects_after_shutdown twoThreads_initial run shutDown rest with none | one
  · cases none
  · obtain ⟨thread, held, same⟩ := one
    cases same
    exact held

/-- The steps that are left of a thread, counting a round as the longest it can be. -/
def threadWork : Position → Phase → Nat
  | .left, _ => 0
  | .top, _ | .entering, _ => 1
  | .locked, _ => 4
  | .inBody, phase => phase.remaining + 1

/-- The steps that are left of a call, without those of its threads; a created thread
adds one. -/
def stageWork (created : Nat) : SpinStage → Nat
  | .outside => 0
  | .joining threadId => created - threadId + 1
  | .running => created + 2
  | .creating threadId => 2 * (created - threadId) + created + 4
  | .locking => 2 * created + created + 5

/-- The steps that are left of all calls and threads after a shutdown. -/
def work [Fintype κ] (state : SpinState κ created) : Nat :=
  (∑ caller, stageWork created (state.stage caller)) +
    ∑ thread, threadWork (state.position thread) (state.executor.phase thread)

/-- A step towards the end: no new call and no further shutdown. -/
def ClosingStep (mutuallyExclusive : GroupId → Bool) (before : SpinState κ created)
    (event : SpinEvent κ created) (after : SpinState κ created) : Prop :=
  event ≠ .shutdown ∧ (∀ caller, event ≠ .spin caller) ∧
    before.Step mutuallyExclusive event after

theorem sum_stageWork [Fintype κ] {caller : κ} {stage : SpinStage}
    (stageEq : after.stage = Function.update before.stage caller stage) :
    (∑ other, stageWork created (after.stage other)) +
        stageWork created (before.stage caller) =
      (∑ other, stageWork created (before.stage other)) + stageWork created stage := by
  have others : ∀ other, other ≠ caller →
      stageWork created (after.stage other) = stageWork created (before.stage other) := by
    intro other different
    rw [stageEq, Function.update_of_ne different]
  have own : after.stage caller = stage := by rw [stageEq, Function.update_self]
  have differ := sum_add_of_differ_at caller others
  rwa [own] at differ

theorem sum_threadWork [Fintype κ] {thread : κ × Fin (created + 1)} {position : Position}
    (positionEq : after.position = Function.update before.position thread position)
    (phaseEq : ∀ other, other ≠ thread →
      after.executor.phase other = before.executor.phase other) :
    (∑ other, threadWork (after.position other) (after.executor.phase other)) +
        threadWork (before.position thread) (before.executor.phase thread) =
      (∑ other, threadWork (before.position other) (before.executor.phase other)) +
        threadWork position (after.executor.phase thread) := by
  have others : ∀ other, other ≠ thread →
      threadWork (after.position other) (after.executor.phase other) =
        threadWork (before.position other) (before.executor.phase other) := by
    intro other different
    rw [positionEq, Function.update_of_ne different, phaseEq other different]
  have own : after.position thread = position := by rw [positionEq, Function.update_self]
  have differ := sum_add_of_differ_at thread others
  rwa [own] at differ

/-- A caller that takes a step, while the threads stay where they are. -/
theorem work_lt_of_stage [Fintype κ] {caller : κ} {stage : SpinStage}
    (stageEq : after.stage = Function.update before.stage caller stage)
    (positionEq : after.position = before.position)
    (executorEq : after.executor = before.executor)
    (less : stageWork created stage < stageWork created (before.stage caller)) :
    after.work < before.work := by
  have callers := sum_stageWork stageEq
  unfold work
  rw [positionEq, executorEq]
  omega

/-- A caller that starts a thread. -/
theorem work_lt_of_start [Fintype κ] {thread : κ × Fin (created + 1)} {stage : SpinStage}
    (stageEq : after.stage = Function.update before.stage thread.1 stage)
    (positionEq : after.position = Function.update before.position thread .top)
    (executorEq : after.executor = before.executor)
    (less : stageWork created stage + 1 < stageWork created (before.stage thread.1)) :
    after.work < before.work := by
  have callers := sum_stageWork stageEq
  have threads := sum_threadWork positionEq fun other _ => by rw [executorEq]
  have one : threadWork .top (after.executor.phase thread) = 1 := rfl
  unfold work
  omega

/-- A thread that takes a step, while the callers stay where they are. -/
theorem work_lt_of_thread [Fintype κ] {thread : κ × Fin (created + 1)} {position : Position}
    (positionEq : after.position = Function.update before.position thread position)
    (phaseEq : ∀ other, other ≠ thread →
      after.executor.phase other = before.executor.phase other)
    (stageEq : after.stage = before.stage)
    (less : threadWork position (after.executor.phase thread) <
      threadWork (before.position thread) (before.executor.phase thread)) :
    after.work < before.work := by
  have threads := sum_threadWork positionEq phaseEq
  unfold work
  rw [stageEq]
  omega

theorem threadWork_afterBody (phase : Phase) :
    threadWork (afterBody phase) phase = phase.remaining + 1 := by
  cases phase <;> rfl

/-- After a shutdown every step that is not a new call shortens what is left. -/
theorem ClosingStep.work_lt [Fintype κ] (shutDown : before.ok = false)
    (step : before.ClosingStep mutuallyExclusive event after) : after.work < before.work := by
  obtain ⟨notShutdown, notSpin, step⟩ := step
  have leaves : before.goesOn = false := by simp [goesOn, shutDown]
  cases step with
  | shutdown => exact absurd rfl notShutdown
  | throws => exact absurd rfl (notSpin _)
  | spin => exact absurd rfl (notSpin _)
  | lock locking _ =>
      refine work_lt_of_stage rfl rfl rfl ?_
      rw [locking]
      simp only [stageWork]
      omega
  | @create caller id creating =>
      have started : before.stage (caller, id.castSucc).1 = .creating id := creating
      refine work_lt_of_start rfl rfl rfl ?_
      rw [started]
      simp only [stageWork]
      omega
  | runLast creating =>
      refine work_lt_of_start rfl rfl rfl ?_
      rw [creating]
      simp only [stageWork]
      omega
  | test top =>
      refine work_lt_of_thread rfl (fun _ _ => rfl) rfl ?_
      simp [leaves, top, threadWork]
  | enter entering _ =>
      refine work_lt_of_thread rfl (fun _ _ => rfl) rfl ?_
      simp [leaves, entering, threadWork]
  | @select thread _ executor locked step =>
      refine work_lt_of_thread rfl (fun _ different => phase_of_ne step different) rfl ?_
      have bound := (executor.phase thread).remaining_le
      rw [locked]
      simp only [SpinState.setPosition, threadWork_afterBody]
      simp only [threadWork]
      omega
  | @work thread event executor inBody outside _ step =>
      refine work_lt_of_thread rfl (fun _ different => phase_of_ne step different) rfl ?_
      have own : before.executor.OwnStep mutuallyExclusive (thread, event) executor := by
        refine ⟨?_, step⟩
        cases event <;> simp_all [WorkerEvent.input, WorkerEvent.IsSelect]
      obtain ⟨phase, phaseEq, closer, _⟩ := own.phase
      simp only at phaseEq closer
      have ownPhase : executor.phase thread = phase := by rw [phaseEq, Function.update_self]
      rw [inBody]
      simp only [SpinState.setPosition, threadWork_afterBody]
      simp only [threadWork, ownPhase]
      omega
  | startJoining running _ =>
      refine work_lt_of_stage rfl rfl rfl ?_
      rw [running]
      simp only [stageWork]
      omega
  | join joining _ =>
      refine work_lt_of_stage rfl rfl rfl ?_
      rw [joining]
      simp only [stageWork]
      omega
  | «return» joining =>
      refine work_lt_of_stage rfl rfl rfl ?_
      rw [joining]
      simp [stageWork]

/-- While nobody has the lock every running thread can go on. -/
theorem InStep.exists_thread_step {state : SpinState κ created} (inStep : state.InStep)
    (free : state.LockFree) {thread : κ × Fin (created + 1)}
    (running : state.position thread ≠ .left) :
    ∃ event after, state.ClosingStep mutuallyExclusive event after := by
  cases found : state.position thread with
  | left => exact absurd found running
  | top => exact ⟨.internal, _, nofun, nofun, .test found⟩
  | entering => exact ⟨.internal, _, nofun, nofun, .enter found free⟩
  | locked => exact absurd found (free.2 thread)
  | inBody =>
      obtain ⟨event, executor, own, step⟩ :=
        ExecutorState.exists_ownStep ((inStep thread).mpr found)
      have outside : event.input = none := by
        cases event with
        | select input => exact absurd trivial own
        | finish => rfl
        | erase => rfl
        | destroy => rfl
      exact ⟨.internal, _, nofun, nofun, .work found outside (fun _ => free) step⟩

/-- As long as a caller is inside `spin`, somebody can go on. -/
theorem Reached.exists_closing {state : SpinState κ created}
    (reached : state.Reached mutuallyExclusive) {caller : κ}
    (inside : state.stage caller ≠ .outside) :
    ∃ event after, state.ClosingStep mutuallyExclusive event after := by
  by_cases free : state.LockFree
  · cases found : state.stage caller with
    | outside => exact absurd found inside
    | locking => exact ⟨.internal, _, nofun, nofun, .lock found free⟩
    | creating threadId => exact absurd found (free.1 caller threadId)
    | running =>
        by_cases returned : state.position (caller, Fin.last created) = .left
        · exact ⟨.internal, _, nofun, nofun, .startJoining found returned⟩
        · exact reached.inStep.exists_thread_step free returned
    | joining threadId =>
        have range := reached.accounted.inRange caller threadId (.inr found)
        rcases Nat.lt_or_eq_of_le range with below | rfl
        · let id : Fin created := ⟨threadId, below⟩
          by_cases returned : state.position (caller, id.castSucc) = .left
          · have isAt : state.stage caller = .joining id := found
            exact ⟨.internal, _, nofun, nofun, .join isAt returned⟩
          · exact reached.inStep.exists_thread_step free returned
        · exact ⟨.return caller, _, nofun, nofun, .return found⟩
  · by_cases holder : ∃ thread, state.position thread = .locked
    · obtain ⟨thread, locked⟩ := holder
      have idle : state.executor.phase thread = .idle := by
        by_contra busy
        have := (reached.inStep thread).mp busy
        rw [locked] at this
        cases this
      obtain ⟨input, executor, step⟩ := exists_round mutuallyExclusive idle
      exact ⟨.select _, _, nofun, nofun, .select locked step⟩
    · obtain ⟨other, threadId, creating⟩ :
          ∃ other threadId, state.stage other = .creating threadId := by
        by_contra nobody
        simp only [not_exists] at nobody holder
        exact free ⟨nobody, holder⟩
      have range := reached.accounted.inRange other threadId (.inl creating)
      rcases Nat.lt_or_eq_of_le range with below | rfl
      · let id : Fin created := ⟨threadId, below⟩
        have isAt : state.stage other = .creating id := creating
        exact ⟨.internal, _, nofun, nofun, .create isAt⟩
      · exact ⟨.internal, _, nofun, nofun, .runLast creating⟩

/-- After a shutdown every call of `spin` ends: without new calls no run goes on for
longer than the work that is left, and every run can be continued until all callers
are back and the executor is at rest. -/
theorem spin_ends [Fintype κ] {start middle stop : SpinState κ created}
    {earlier later : List (SpinEvent κ created)} (initial : start.Initial)
    (run : Steps (Step mutuallyExclusive) start earlier middle)
    (shutDown : middle.ok = false)
    (closing : Steps (ClosingStep mutuallyExclusive) middle later stop) :
    later.length + stop.work ≤ middle.work ∧
      ∃ last final, Steps (ClosingStep mutuallyExclusive) stop last final ∧
        (∀ caller, final.stage caller = .outside) ∧ final.executor.Quiescent := by
  have keeps : ∀ {before after : SpinState κ created} {event},
      before.Reached mutuallyExclusive ∧ before.ok = false →
      before.ClosingStep mutuallyExclusive event after →
      after.Reached mutuallyExclusive ∧ after.ok = false := fun held step =>
    ⟨held.1.step step.2.2, (step.2.2.afterShutdown held.1.oneHolder held.2).1⟩
  have lowers : ∀ {before after : SpinState κ created} {event},
      before.Reached mutuallyExclusive ∧ before.ok = false →
      before.ClosingStep mutuallyExclusive event after → after.work < before.work :=
    fun held step => step.work_lt held.2
  have enabled : ∀ {state : SpinState κ created},
      state.Reached mutuallyExclusive ∧ state.ok = false →
      ¬ (∀ caller, state.stage caller = .outside) →
      ∃ event after, state.ClosingStep mutuallyExclusive event after := by
    intro state held busy
    rw [not_forall] at busy
    obtain ⟨caller, inside⟩ := busy
    exact held.1.exists_closing inside
  have atShutdown := And.intro (reached_of_run initial run) shutDown
  have reached := closing.invariant _ atShutdown fun held step => keeps held step
  obtain ⟨last, final, rest, outside⟩ := exists_steps_final (ClosingStep mutuallyExclusive)
    SpinState.work (fun state => state.Reached mutuallyExclusive ∧ state.ok = false)
    (fun state => ∀ caller, state.stage caller = .outside) keeps lowers enabled reached
  have finalReached := (rest.invariant _ reached fun held step => keeps held step).1
  refine ⟨?_, last, final, rest, outside, (finalReached.at_rest outside).2⟩
  exact closing.length_add_rank_le SpinState.work
    (fun state => state.Reached mutuallyExclusive ∧ state.ok = false) atShutdown keeps lowers

/-- The shutdown comes while a thread is in the critical section. -/
theorem spin_ends_twoThreads :
    ∃ middle : SpinState Unit 1, middle.ok = false ∧ 0 + middle.work ≤ middle.work ∧
      ∃ last final, Steps (ClosingStep fun _ => true) middle last final ∧
        (∀ caller, final.stage caller = .outside) ∧ final.executor.Quiescent := by
  obtain ⟨middle, run, shutDown, _⟩ := shutdown_while_locked
  exact ⟨middle, shutDown, spin_ends twoThreads_initial run shutDown .nil⟩

end SpinState

end PriorityExecutor
