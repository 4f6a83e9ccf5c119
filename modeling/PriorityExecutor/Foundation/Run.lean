import Mathlib.Data.List.Basic

/-!
# Runs of a labelled transition system

A run is a finite sequence of labelled steps.  An invariant is proved for one
step and then holds at the end of every run, and so does any property of the
labels that each step grants from the invariant.

A partial step function that implements the relation turns a script into a run, so
concrete runs are found by evaluation.

Step functions that may fail are read as the relation of their successful
results; `Except.bind_eq_ok` and `Except.bind_eq_error` take such a computation apart.
-/

universe u

theorem Except.bind_eq_ok {ε α β : Type u} {computation : Except ε α}
    {next : α → Except ε β} {result : β} :
    computation >>= next = .ok result ↔
      ∃ value, computation = .ok value ∧ next value = .ok result := by
  cases computation with
  | error fault =>
      constructor
      · intro impossible
        cases impossible
      · rintro ⟨value, impossible, _⟩
        cases impossible
  | ok value =>
      constructor
      · exact fun continued => ⟨value, rfl, continued⟩
      · rintro ⟨other, equal, continued⟩
        cases equal
        exact continued

theorem Except.bind_eq_error {ε α β : Type u} {computation : Except ε α}
    {next : α → Except ε β} {fault : ε} :
    computation >>= next = .error fault ↔
      computation = .error fault ∨
        ∃ value, computation = .ok value ∧ next value = .error fault := by
  cases computation with
  | error found =>
      constructor
      · intro same
        cases same
        exact .inl rfl
      · rintro (same | ⟨_, impossible, _⟩)
        · cases same
          rfl
        · cases impossible
  | ok value =>
      constructor
      · exact fun continued => .inr ⟨value, rfl, continued⟩
      · rintro (impossible | ⟨other, equal, continued⟩)
        · cases impossible
        · cases equal
          exact continued

theorem Except.map_eq_ok {ε α β : Type u} {computation : Except ε α} {change : α → β}
    {result : β} :
    computation.map change = .ok result ↔
      ∃ value, computation = .ok value ∧ change value = result := by
  cases computation with
  | error fault =>
      constructor
      · intro impossible
        cases impossible
      · rintro ⟨value, impossible, _⟩
        cases impossible
  | ok value =>
      constructor
      · intro same
        cases same
        exact ⟨value, rfl, rfl⟩
      · rintro ⟨other, equal, rfl⟩
        cases equal
        rfl

/-- `for (index = 0; index < length; ++index)` with a body that may fail. -/
def countTo {σ ε : Type u} (length : Nat) (body : σ → Nat → Except ε σ) (start : σ) :
    Except ε σ :=
  (List.range length).foldlM body start

theorem countTo_succ {σ ε : Type u} (length : Nat) (body : σ → Nat → Except ε σ)
    (start : σ) :
    countTo (length + 1) body start =
      countTo length body start >>= fun middle => body middle length := by
  rw [countTo, List.range_succ, List.foldlM_append]
  simp [countTo]

/-- A loop whose body succeeds and moves an invariant on by one index succeeds. -/
theorem exists_countTo {σ ε : Type u} {length : Nat} {body : σ → Nat → Except ε σ}
    {start : σ} (invariant : Nat → σ → Prop) (initial : invariant 0 start)
    (moves : ∀ {index state}, index < length → invariant index state →
      ∃ after, body state index = .ok after ∧ invariant (index + 1) after) :
    ∃ stop, countTo length body start = .ok stop ∧ invariant length stop := by
  induction length with
  | zero => exact ⟨start, rfl, initial⟩
  | succ length ih =>
      rcases ih fun inRange held => moves (Nat.lt_succ_of_lt inRange) held with
        ⟨middle, looped, held⟩
      rcases moves (Nat.lt_succ_self length) held with ⟨after, stepped, heldAfter⟩
      refine ⟨after, ?_, heldAfter⟩
      rw [countTo_succ, looped]
      exact stepped

/-- `Steps step start labels stop`: the labels lead from `start` to `stop`. -/
inductive Steps {σ α : Type*} (step : σ → α → σ → Prop) (start : σ) :
    List α → σ → Prop where
  | nil : Steps step start [] start
  | snoc {middle stop : σ} {labels : List α} {label : α} :
      Steps step start labels middle → step middle label stop →
      Steps step start (labels ++ [label]) stop

namespace Steps

variable {σ α : Type*} {step : σ → α → σ → Prop} {start stop : σ} {labels : List α}

/-- What holds at the start and is kept by every step holds at the end. -/
theorem invariant (run : Steps step start labels stop) (property : σ → Prop)
    (initial : property start)
    (keeps : ∀ {before label after}, property before → step before label after →
      property after) : property stop := by
  induction run with
  | nil => exact initial
  | snoc _ last ih => exact keeps ih last

/-- Every label of a run has the property that a step grants from an invariant. -/
theorem forall_labels (run : Steps step start labels stop) (property : σ → Prop)
    {granted : α → Prop} (initial : property start)
    (keeps : ∀ {before label after}, property before → step before label after →
      property after)
    (grants : ∀ {before label after}, property before → step before label after →
      granted label) : ∀ label ∈ labels, granted label := by
  induction run with
  | nil => simp
  | snoc earlier last ih =>
      intro label member
      rcases List.mem_append.mp member with inEarlier | isLast
      · exact ih label inEarlier
      · rw [List.mem_singleton] at isLast
        subst label
        exact grants (earlier.invariant property initial keeps) last

theorem singleton {label : α} (only : step start label stop) :
    Steps step start [label] stop :=
  .snoc .nil only

/-- A run is one of every weaker relation. -/
theorem imp {step' : σ → α → σ → Prop} (run : Steps step start labels stop)
    (weaker : ∀ {before label after}, step before label after → step' before label after) :
    Steps step' start labels stop := by
  induction run with
  | nil => exact .nil
  | snoc _ last ih => exact .snoc ih (weaker last)

theorem append {labels' : List α} {middle : σ} (first : Steps step start labels middle)
    (second : Steps step middle labels' stop) : Steps step start (labels ++ labels') stop := by
  induction second with
  | nil => rwa [List.append_nil]
  | snoc _ last ih =>
      rw [← List.append_assoc]
      exact .snoc ih last

end Steps

/-! ## Systems that come to rest

A rank that every step lowers bounds the length of every run, and a step out of every
state that is not final leads to a final one. -/

namespace Steps

variable {σ α : Type*} {step : σ → α → σ → Prop} {start stop : σ} {labels : List α}

theorem length_add_rank_le (run : Steps step start labels stop) (rank : σ → Nat)
    (property : σ → Prop) (initial : property start)
    (keeps : ∀ {before label after}, property before → step before label after →
      property after)
    (lowers : ∀ {before label after}, property before → step before label after →
      rank after < rank before) : labels.length + rank stop ≤ rank start := by
  induction run with
  | nil => simp
  | snoc earlier last ih =>
      have lower := lowers (earlier.invariant property initial keeps) last
      rw [List.length_append, List.length_singleton]
      omega

/-- Steps that lower the rank by one at most. -/
theorem rank_le_length_add (run : Steps step start labels stop) (rank : σ → Nat)
    (byOne : ∀ {before label after}, step before label after →
      rank before ≤ rank after + 1) : rank start ≤ labels.length + rank stop := by
  induction run with
  | nil => simp
  | snoc _ last ih =>
      have step := byOne last
      rw [List.length_append, List.length_singleton]
      omega

end Steps

/-- Where every step lowers the rank and every state that is not final has a step, a
final state is reached from every state. -/
theorem exists_steps_final {σ α : Type*} (step : σ → α → σ → Prop) (rank : σ → Nat)
    (property final : σ → Prop)
    (keeps : ∀ {before label after}, property before → step before label after →
      property after)
    (lowers : ∀ {before label after}, property before → step before label after →
      rank after < rank before)
    (enabled : ∀ {state}, property state → ¬ final state →
      ∃ label after, step state label after)
    {start : σ} (initial : property start) :
    ∃ labels stop, Steps step start labels stop ∧ final stop := by
  induction measure : rank start using Nat.strongRecOn generalizing start with
  | ind bound ih =>
      by_cases done : final start
      · exact ⟨[], start, .nil, done⟩
      · obtain ⟨label, after, first⟩ := enabled initial done
        have lower := lowers initial first
        obtain ⟨labels, stop, rest, finished⟩ :=
          ih (rank after) (by omega) (keeps initial first) rfl
        exact ⟨[label] ++ labels, stop, (Steps.singleton first).append rest, finished⟩

/-- Execute a script with a partial step function. -/
def replay {σ β : Type*} (next : σ → β → Option σ) : σ → List β → Option σ
  | state, [] => some state
  | state, input :: rest => (next state input).bind fun after => replay next after rest

/-- What a step function executes is a run of the relation it implements. -/
theorem Steps.of_replay {σ α β : Type*} {step : σ → α → σ → Prop}
    {next : σ → β → Option σ} (label : β → α)
    (sound : ∀ {before input after}, next before input = some after →
      step before (label input) after)
    (script : List β) {start stop : σ} (executed : replay next start script = some stop) :
    Steps step start (script.map label) stop := by
  induction script generalizing start with
  | nil =>
      cases executed
      exact .nil
  | cons input rest ih =>
      obtain ⟨after, nextEq, restEq⟩ := Option.bind_eq_some_iff.mp executed
      exact (singleton (sound nextEq)).append (ih restEq)
