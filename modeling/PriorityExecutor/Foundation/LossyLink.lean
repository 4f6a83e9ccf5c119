import Mathlib.Data.List.Basic

/-!
# Links to a queue of depth one

A reader that keeps one message sees the newest one that has arrived.  A message may be
lost on its way, and the one that arrives replaces the one that waits.

What is read is then among what was sent, in order and not more often.  A link that never
drops anything still holds whatever was sent and not read.
-/

universe u

/-- The messages on their way, oldest first, and the one that waits to be read. -/
structure LossyLink (μ : Type u) where
  inFlight : List μ := []
  slot : Option μ := none
  deriving DecidableEq

namespace LossyLink

variable {μ : Type u}

def send (link : LossyLink μ) (message : μ) : LossyLink μ :=
  { link with inFlight := link.inFlight ++ [message] }

/-- The reader empties the slot. -/
def take (link : LossyLink μ) : LossyLink μ :=
  { link with slot := none }

/-- What can still be read, oldest first. -/
def contents (link : LossyLink μ) : List μ := link.slot.toList ++ link.inFlight

/-- What happens to a link between its two ends. -/
inductive Moves : LossyLink μ → LossyLink μ → Prop where
  | arrive {message : μ} {inFlight : List μ} {slot : Option μ} :
      Moves ⟨message :: inFlight, slot⟩ ⟨inFlight, some message⟩
  | lose {message : μ} {early late : List μ} {slot : Option μ} :
      Moves ⟨early ++ message :: late, slot⟩ ⟨early ++ late, slot⟩

/-- A move that drops nothing: a message arrives where none waits. -/
def Keeps (link after : LossyLink μ) : Prop :=
  link.Moves after ∧ after.contents.length = link.contents.length

variable {link after : LossyLink μ} {message : μ} {sent read : List μ}

theorem contents_send : (link.send message).contents = link.contents ++ [message] :=
  (List.append_assoc _ _ _).symm

theorem contents_of_slot (waits : link.slot = some message) :
    link.contents = message :: link.take.contents := by
  rw [contents, waits]
  rfl

theorem Moves.contents_sublist (moves : link.Moves after) :
    after.contents.Sublist link.contents := by
  cases moves with
  | arrive => exact List.sublist_append_right _ _
  | lose =>
      apply List.Sublist.append_left
      apply List.Sublist.append_left
      exact List.sublist_cons_self _ _

/-- A message that waits is replaced, and never removed. -/
theorem Moves.slot_isSome (moves : link.Moves after) (waits : link.slot.isSome) :
    after.slot.isSome := by
  cases moves with
  | arrive => rfl
  | lose => exact waits

theorem Keeps.contents_eq (keeps : link.Keeps after) : after.contents = link.contents :=
  keeps.1.contents_sublist.eq_of_length keeps.2

/-! ## What is read -/

/-- What was read, and then what can still be read, is among what was sent. -/
def Conforms (sent read : List μ) (link : LossyLink μ) : Prop :=
  (read ++ link.contents).Sublist sent

/-- Nothing that was sent is missing. -/
def Delivers (sent read : List μ) (link : LossyLink μ) : Prop :=
  read ++ link.contents = sent

theorem Conforms.read_sublist (conforms : link.Conforms sent read) : read.Sublist sent :=
  (List.sublist_append_left _ _).trans conforms

theorem Conforms.send (conforms : link.Conforms sent read) (message : μ) :
    (link.send message).Conforms (sent ++ [message]) read := by
  rw [Conforms, contents_send, ← List.append_assoc]
  exact List.Sublist.append_right conforms [message]

theorem Conforms.moves (conforms : link.Conforms sent read) (moves : link.Moves after) :
    after.Conforms sent read :=
  (List.Sublist.append_left moves.contents_sublist read).trans conforms

theorem Conforms.take (conforms : link.Conforms sent read)
    (waits : link.slot = some message) : link.take.Conforms sent (read ++ [message]) := by
  rw [Conforms, contents_of_slot waits] at conforms
  rw [Conforms, List.append_assoc]
  exact conforms

/-- While a message waits, fewer were read than sent. -/
theorem Conforms.length_lt (conforms : link.Conforms sent read) (waits : link.slot.isSome) :
    read.length < sent.length := by
  rcases Option.isSome_iff_exists.mp waits with ⟨message, slot⟩
  have atMost := conforms.length_le
  rw [contents_of_slot slot, List.length_append, List.length_cons] at atMost
  exact Nat.lt_of_lt_of_le (Nat.lt_add_of_pos_right (Nat.succ_pos _)) atMost

theorem Delivers.send (delivers : link.Delivers sent read) (message : μ) :
    (link.send message).Delivers (sent ++ [message]) read := by
  rw [Delivers, contents_send, ← List.append_assoc]
  exact congrArg (· ++ [message]) delivers

theorem Delivers.keeps (delivers : link.Delivers sent read) (keeps : link.Keeps after) :
    after.Delivers sent read := by
  rw [Delivers, keeps.contents_eq]
  exact delivers

theorem Delivers.take (delivers : link.Delivers sent read)
    (waits : link.slot = some message) : link.take.Delivers sent (read ++ [message]) := by
  rw [Delivers, contents_of_slot waits] at delivers
  rw [Delivers, List.append_assoc]
  exact delivers

end LossyLink
