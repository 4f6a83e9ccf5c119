import PriorityExecutor.Chain.Ring
import PriorityExecutor.Foundation.CellLine

/-!
# A chain whose messages are overwritten

The subscriptions of a chain keep the newest message only.  Its callbacks publish at
the end of their execution, and a message that arrives before the previous one was
taken replaces it.  Every dispatch is followed by one execution of its callback, which
takes the message that made it ready; a callback is executed once at a time.

The instances on their way through a chain are a `CellLine`: cell `2 i` holds the
instance that stage `i` executes, cell `2 i - 1` the message that waits for it.  The
dispatches are still in order, so the deadline ring is the one of `Chain.Ring`; but it
is keyed by dispatch counts, which fall behind the instances with every loss.
-/

namespace PriorityExecutor

open CellLine (Line)

/-- What happens to one stage: it is dispatched, or its callback ends and publishes. -/
inductive StageEvent where
  | dispatch (stage : Nat)
  | publish (stage : Nat)
  deriving DecidableEq, Repr

/-- The line after a dispatch of a stage that is not being executed. -/
def startStage (line : Line) (stage : Nat) : Option Line :=
  match line.cell (2 * stage) with
  | some _ => none
  | none =>
      match stage with
      | 0 => some line.enter
      | stage + 1 => (line.cell (2 * stage + 1)).map (line.advance (2 * stage + 1))

/-- The line after a callback has ended. -/
def endStage (last : Nat) (line : Line) (stage : Nat) : Option Line :=
  (line.cell (2 * stage)).map fun item =>
    if stage = last then line.leave (2 * stage) else line.advance (2 * stage) item

section Line

variable {line after : Line} {stage last : Nat}

theorem startStage_valid (valid : CellLine.Valid (2 * last) line) (inRange : stage ≤ last)
    (started : startStage line stage = some after) :
    CellLine.Valid (2 * last) after ∧
      ∀ other, after.entered (2 * other) =
        if other = stage then line.entered (2 * stage) + 1 else line.entered (2 * other) := by
  unfold startStage at started
  split at started
  next => cases started
  next free =>
    cases stage with
    | zero =>
        cases started
        refine ⟨valid.enter free, fun other => ?_⟩
        rw [Line.entered_enter]
        split_ifs <;> first | rfl | omega
    | succ stage =>
        obtain ⟨item, present, rfl⟩ := Option.map_eq_some_iff.mp started
        refine ⟨valid.advance (by omega) present fun atEnd => ?_, fun other => ?_⟩
        · rw [← atEnd]
          exact free
        · rw [Line.entered_advance]
          split_ifs <;> first | rfl | omega

theorem endStage_valid (valid : CellLine.Valid (2 * last) line) (inRange : stage ≤ last)
    (ended : endStage last line stage = some after) :
    CellLine.Valid (2 * last) after ∧
      ∀ other, after.entered (2 * other) = line.entered (2 * other) := by
  obtain ⟨item, present, rfl⟩ := Option.map_eq_some_iff.mp ended
  split
  next isLast =>
    subst isLast
    exact ⟨valid.leave, fun _ => rfl⟩
  next notLast =>
    refine ⟨valid.advance (by omega) present (by omega), fun other => ?_⟩
    rw [Line.entered_advance, if_neg (by omega)]

/-- No stage is dispatched more often than its predecessor. -/
theorem entered_le_of_valid (valid : CellLine.Valid (2 * last) line) (inner : stage < last) :
    line.entered (2 * (stage + 1)) ≤ line.entered (2 * stage) := by
  have executed := valid.flow (2 * stage) (by omega)
  have waiting := valid.flow (2 * stage + 1) (by omega)
  rw [show 2 * (stage + 1) = 2 * stage + 1 + 1 by ring]
  omega

end Line

/-! ## Runs with losses -/

/-- A run state with the instances on their way through each chain. -/
abbrev LossyState (ι : Type*) := ChainState ι × (ι → Line)

namespace ChainSystem

variable {ι : Type*} {system : ChainSystem ι} {release : ι → Int}
  {counter : ι → Nat → Int}

/-- The deadline rings hold, and each dispatch count is the number of arrivals. -/
structure LossyInvariant (system : ChainSystem ι) (release : ι → Int)
    (counter : ι → Nat → Int) (state : LossyState ι) : Prop where
  ring : system.Invariant release counter state.1
  line : ∀ index, CellLine.Valid (2 * (system.chain index).last) (state.2 index)
  count : ∀ index stage,
    (state.1.2 index).count stage = (state.2 index).entered (2 * stage)

variable [DecidableEq ι]

/-- An event of one chain.  Only a dispatch touches the strategy. -/
def LossyStep (system : ChainSystem ι) (before : LossyState ι) (label : ι × StageEvent)
    (after : LossyState ι) : Prop :=
  match label.2 with
  | .dispatch stage =>
      system.Dispatch before.1 (label.1, stage) after.1 ∧
        ∃ line, startStage (before.2 label.1) stage = some line ∧
          after.2 = Function.update before.2 label.1 line
  | .publish stage =>
      stage ≤ (system.chain label.1).last ∧ after.1 = before.1 ∧
        ∃ line, endStage (system.chain label.1).last (before.2 label.1) stage = some line ∧
          after.2 = Function.update before.2 label.1 line

/-- The lines of the other chains are as before. -/
theorem LossyInvariant.line_of_update {before after : LossyState ι} {index : ι}
    {line : Line} (held : system.LossyInvariant release counter before)
    (valid : CellLine.Valid (2 * (system.chain index).last) line)
    (lineEq : after.2 = Function.update before.2 index line) (other : ι) :
    CellLine.Valid (2 * (system.chain other).last) (after.2 other) := by
  rw [lineEq]
  by_cases isOwn : other = index
  · subst isOwn
    rwa [Function.update_self]
  · rw [Function.update_of_ne isOwn]
    exact held.line other

theorem LossyInvariant.step {before after : LossyState ι} {label : ι × StageEvent}
    (held : system.LossyInvariant release counter before)
    (step : system.LossyStep before label after) :
    system.LossyInvariant release counter after := by
  obtain ⟨index, event⟩ := label
  cases event with
  | dispatch stage =>
      obtain ⟨dispatch, line, started, lineEq⟩ := step
      obtain ⟨valid, entered⟩ := startStage_valid (held.line index) dispatch.1 started
      have lines := held.line_of_update valid lineEq
      have counts : ∀ other stage,
          (after.1.2 other).count stage = (after.2 other).entered (2 * stage) := by
        intro other otherStage
        rw [lineEq, dispatch.2.2]
        by_cases isOwn : other = index
        · subst isOwn
          rw [Function.update_self, Function.update_self, entered]
          split
          next same =>
            subst same
            rw [History.count_record_self, held.count]
          next different => rw [History.count_record_of_ne different, held.count]
        · rw [Function.update_of_ne isOwn, Function.update_of_ne isOwn, held.count]
      refine ⟨held.ring.step ⟨dispatch, fun stage inner => ?_⟩, lines, counts⟩
      rw [counts, counts]
      exact entered_le_of_valid (lines index) inner
  | publish stage =>
      obtain ⟨inRange, same, line, ended, lineEq⟩ := step
      obtain ⟨valid, entered⟩ := endStage_valid (held.line index) inRange ended
      refine ⟨by rw [same]; exact held.ring, held.line_of_update valid lineEq, ?_⟩
      intro other otherStage
      rw [lineEq, same, held.count]
      by_cases isOwn : other = index
      · subst isOwn
        rw [Function.update_self, entered]
      · rw [Function.update_of_ne isOwn]

/-- Execute one event; the clock matters to a dispatch only. -/
def executeLossy (system : ChainSystem ι) (state : LossyState ι)
    (entry : (ι × StageEvent) × Int) : Option (LossyState ι) :=
  match entry.1.2 with
  | .dispatch stage =>
      (system.execute state.1 ((entry.1.1, stage), entry.2)).bind fun chains =>
        (startStage (state.2 entry.1.1) stage).map fun line =>
          (chains, Function.update state.2 entry.1.1 line)
  | .publish stage =>
      if stage ≤ (system.chain entry.1.1).last then
        (endStage (system.chain entry.1.1).last (state.2 entry.1.1) stage).map fun line =>
          (state.1, Function.update state.2 entry.1.1 line)
      else
        none

theorem executeLossy_sound {before after : LossyState ι}
    {entry : (ι × StageEvent) × Int}
    (result : system.executeLossy before entry = some after) :
    system.LossyStep before entry.1 after := by
  obtain ⟨⟨index, event⟩, millis⟩ := entry
  cases event with
  | dispatch stage =>
      obtain ⟨chains, executed, result⟩ := Option.bind_eq_some_iff.mp result
      obtain ⟨line, started, rfl⟩ := Option.map_eq_some_iff.mp result
      exact ⟨(execute_sound executed).1, line, started, rfl⟩
  | publish stage =>
      simp only [executeLossy] at result
      split at result
      next inRange =>
        obtain ⟨line, ended, rfl⟩ := Option.map_eq_some_iff.mp result
        exact ⟨inRange, rfl, line, ended, rfl⟩
      next => cases result

end ChainSystem

end PriorityExecutor
