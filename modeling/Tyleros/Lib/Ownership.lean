import Mathlib.Logic.Equiv.Basic

/-!
# Exclusive ownership

Resources `ρ` that are taken or free, and owners `η` each of which owns at most one
resource. `Owned` says that the taken resources are exactly the owned ones and that
no resource has two owners. Taking a free resource, giving one up and passing
resources on among the owners keep it.
-/

namespace Tyleros.Lib

variable {ρ η : Type*}

/-- A resource is taken when it has an owner, and it never has two. -/
structure Owned (taken : ρ → Bool) (owner : η → Option ρ) : Prop where
  taken_iff : ∀ r, taken r = true ↔ ∃ h, owner h = some r
  unique : ∀ h h' r, owner h = some r → owner h' = some r → h = h'

namespace Owned

variable {taken taken' : ρ → Bool} {owner owner' : η → Option ρ}

theorem none_taken : Owned (fun _ : ρ => false) (fun _ : η => none) where
  taken_iff _ := ⟨nofun, fun ⟨_, eq⟩ => nomatch eq⟩
  unique _ _ _ eq := nomatch eq

theorem existsUnique_iff (h : Owned taken owner) (r : ρ) :
    taken r = true ↔ ∃! x, owner x = some r := by
  rw [h.taken_iff]
  constructor
  · rintro ⟨x, hx⟩
    exact ⟨x, hx, fun y hy => h.unique y x r hy hx⟩
  · rintro ⟨x, hx, _⟩
    exact ⟨x, hx⟩

/-- The owners pass their resources on among each other. -/
theorem permute (h : Owned taken owner) (σ : η ≃ η) (eq : ∀ x, owner' x = owner (σ x)) :
    Owned taken owner' where
  taken_iff r := by
    rw [h.taken_iff]
    constructor
    · rintro ⟨x, hx⟩
      exact ⟨σ.symm x, by rw [eq, σ.apply_symm_apply, hx]⟩
    · rintro ⟨x, hx⟩
      exact ⟨σ x, by rw [← eq, hx]⟩
  unique x y r hx hy := by
    rw [eq] at hx hy
    exact σ.injective (h.unique (σ x) (σ y) r hx hy)

theorem congr (h : Owned taken owner) (eq : ∀ x, owner' x = owner x) : Owned taken owner' :=
  h.permute (Equiv.refl η) eq

/-- An owner without a resource takes one that is free. -/
theorem take (h : Owned taken owner) {x : η} {r : ρ} (free : taken r = false)
    (empty : owner x = none) (here : owner' x = some r) (others : ∀ y, y ≠ x → owner' y = owner y)
    (taken_eq : ∀ q, taken' q = true ↔ taken q = true ∨ q = r) : Owned taken' owner' where
  taken_iff q := by
    rw [taken_eq, h.taken_iff]
    constructor
    · rintro (⟨y, hy⟩ | rfl)
      · refine ⟨y, ?_⟩
        rw [others y fun eq => by rw [eq, empty] at hy; cases hy]
        exact hy
      · exact ⟨x, here⟩
    · rintro ⟨y, hy⟩
      by_cases eq : y = x
      · rw [eq, here] at hy
        exact Or.inr (Option.some.inj hy).symm
      · exact Or.inl ⟨y, by rw [← others y eq, hy]⟩
  unique y z q hy hz := by
    -- nobody owned `r` before
    have fresh : ∀ y, owner y ≠ some r := fun y hy => by
      rw [(h.taken_iff r).mpr ⟨y, hy⟩] at free
      cases free
    by_cases hyx : y = x <;> by_cases hzx : z = x
    · rw [hyx, hzx]
    · rw [hyx, here] at hy
      rw [others z hzx, ← hy] at hz
      exact absurd hz (fresh z)
    · rw [hzx, here] at hz
      rw [others y hyx, ← hz] at hy
      exact absurd hy (fresh y)
    · rw [others y hyx] at hy
      rw [others z hzx] at hz
      exact h.unique y z q hy hz

/-- The owner of a resource gives it up. -/
theorem give (h : Owned taken owner) {x : η} {r : ρ} (owns : owner x = some r)
    (here : owner' x = none) (others : ∀ y, y ≠ x → owner' y = owner y)
    (taken_eq : ∀ q, taken' q = true ↔ taken q = true ∧ q ≠ r) : Owned taken' owner' where
  taken_iff q := by
    rw [taken_eq, h.taken_iff]
    constructor
    · rintro ⟨⟨y, hy⟩, ne⟩
      refine ⟨y, ?_⟩
      rw [others y fun eq => ne (Option.some.inj (by rw [← hy, eq, owns]))]
      exact hy
    · rintro ⟨y, hy⟩
      have ne : y ≠ x := fun eq => by
        rw [eq, here] at hy
        cases hy
      rw [others y ne] at hy
      refine ⟨⟨y, hy⟩, fun eq => ne ?_⟩
      exact h.unique y x r (eq ▸ hy) owns
  unique y z q hy hz := by
    have back : ∀ y, owner' y = some q → owner y = some q := fun y hy => by
      rw [← others y fun eq => by rw [eq, here] at hy; cases hy]
      exact hy
    exact h.unique y z q (back y hy) (back z hz)

end Owned

end Tyleros.Lib
