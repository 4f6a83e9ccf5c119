import Mathlib.Data.List.Basic
import Mathlib.Logic.Function.Basic

/-!
# Leases

Parties lease resources from a registry, each party at most one at a time.  A party may
acquire a resource that the registry does not list, and it gives back what it holds.
Then the registry lists exactly the resources on lease, each of them once, and no
resource is on lease to two parties.
-/

/-- The registry and what each party holds. -/
structure Leases (ι ρ : Type*) where
  registered : List ρ
  holding : ι → Option ρ

namespace Leases

variable {ι ρ : Type*} [DecidableEq ι] [DecidableEq ρ] {before after : Leases ι ρ}
  {party : ι}

/-- One move of a party. -/
inductive Move (party : ι) (before : Leases ι ρ) : Leases ι ρ → Prop where
  | stay : Move party before before
  | acquire {resource : ρ} :
      before.holding party = none → resource ∉ before.registered →
      Move party before
        ⟨resource :: before.registered,
          Function.update before.holding party (some resource)⟩
  | release {resource : ρ} :
      before.holding party = some resource →
      Move party before
        ⟨before.registered.erase resource, Function.update before.holding party none⟩

/-- The registry is exact and no lease is shared. -/
structure Exact (leases : Leases ι ρ) : Prop where
  nodup : leases.registered.Nodup
  registered_iff : ∀ resource,
    resource ∈ leases.registered ↔ ∃ party, leases.holding party = some resource
  unique : ∀ {left right resource}, leases.holding left = some resource →
    leases.holding right = some resource → left = right

omit [DecidableEq ι] [DecidableEq ρ] in
theorem empty_exact : Exact (⟨[], fun _ => none⟩ : Leases ι ρ) where
  nodup := List.nodup_nil
  registered_iff := by simp
  unique := nofun

omit [DecidableEq ρ] in
theorem Exact.acquire (exact : before.Exact) {resource : ρ}
    (idle : before.holding party = none) (free : resource ∉ before.registered) :
    Exact ⟨resource :: before.registered,
      Function.update before.holding party (some resource)⟩ := by
  have unheld : ∀ other, before.holding other ≠ some resource :=
    fun other held => free ((exact.registered_iff resource).mpr ⟨other, held⟩)
  constructor
  case nodup => exact List.nodup_cons.mpr ⟨free, exact.nodup⟩
  case registered_iff =>
    intro found
    rw [List.mem_cons, exact.registered_iff]
    constructor
    · rintro (rfl | ⟨other, held⟩)
      · exact ⟨party, Function.update_self _ _ _⟩
      · refine ⟨other, (Function.update_of_ne ?_ _ _).trans held⟩
        rintro rfl
        rw [idle] at held
        cases held
    · rintro ⟨other, held⟩
      simp only [Function.update_apply] at held
      split at held
      next => exact .inl (Option.some.inj held).symm
      next => exact .inr ⟨other, held⟩
  case unique =>
    intro left right found leftHolds rightHolds
    simp only [Function.update_apply] at leftHolds rightHolds
    split at leftHolds
    next isLeft =>
      split at rightHolds
      next isRight => exact isLeft.trans isRight.symm
      next => exact absurd (rightHolds.trans leftHolds.symm) (unheld right)
    next =>
      split at rightHolds
      next => exact absurd (leftHolds.trans rightHolds.symm) (unheld left)
      next => exact exact.unique leftHolds rightHolds

theorem Exact.release (exact : before.Exact) {resource : ρ}
    (held : before.holding party = some resource) :
    Exact ⟨before.registered.erase resource,
      Function.update before.holding party none⟩ := by
  have holds : ∀ other found, Function.update before.holding party none other = some found ↔
      other ≠ party ∧ before.holding other = some found := by
    intro other found
    rw [Function.update_apply]
    split
    next same => simp [same]
    next different => simp [different]
  constructor
  case nodup => exact exact.nodup.erase resource
  case registered_iff =>
    intro found
    rw [exact.nodup.mem_erase_iff, exact.registered_iff]
    simp only [holds]
    constructor
    · rintro ⟨different, other, otherHolds⟩
      refine ⟨other, ?_, otherHolds⟩
      rintro rfl
      rw [held, Option.some.injEq] at otherHolds
      exact different otherHolds.symm
    · rintro ⟨other, different, otherHolds⟩
      refine ⟨?_, other, otherHolds⟩
      -- the resource had no holder besides the party
      rintro rfl
      exact different (exact.unique otherHolds held)
  case unique =>
    intro left right found leftHolds rightHolds
    exact exact.unique ((holds left found).mp leftHolds).2 ((holds right found).mp rightHolds).2

theorem Exact.move (exact : before.Exact) (move : Move party before after) :
    after.Exact := by
  cases move with
  | stay => exact exact
  | acquire idle free => exact exact.acquire idle free
  | release held => exact exact.release held

end Leases
