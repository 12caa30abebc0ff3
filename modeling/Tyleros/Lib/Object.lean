import Mathlib.Tactic.TypeStar

/-!
# Objects that answer

An `Object` executes one operation at a time; every operation is answered. `trace`
collects the answers to a sequence of operations and `run` gives the state behind it.

* `Object.simulates`: one lemma about a single operation, that related states give
  the same answer and stay related, gives equal traces and related states for every
  sequence of operations.
-/

namespace Tyleros.Lib

/-- A deterministic object over states `σ`, operations `ο` and answers `ρ`. -/
structure Object (σ ο ρ : Type*) where
  step : σ → ο → ρ × σ

namespace Object

variable {σ τ ο ρ : Type*}

/-- The state after a sequence of operations. -/
def run (A : Object σ ο ρ) : σ → List ο → σ
  | s, [] => s
  | s, o :: os => run A (A.step s o).2 os

/-- The answers to a sequence of operations. -/
def trace (A : Object σ ο ρ) : σ → List ο → List ρ
  | _, [] => []
  | s, o :: os => (A.step s o).1 :: trace A (A.step s o).2 os

/-- `R` relates states that no operation tells apart. -/
def Simulation (A : Object σ ο ρ) (B : Object τ ο ρ) (R : σ → τ → Prop) : Prop :=
  ∀ s t o, R s t → (A.step s o).1 = (B.step t o).1 ∧ R (A.step s o).2 (B.step t o).2

theorem simulates {A : Object σ ο ρ} {B : Object τ ο ρ} {R : σ → τ → Prop}
    (sim : Simulation A B R) {s : σ} {t : τ} (related : R s t) (ops : List ο) :
    A.trace s ops = B.trace t ops ∧ R (A.run s ops) (B.run t ops) := by
  induction ops generalizing s t with
  | nil => exact ⟨rfl, related⟩
  | cons o os ih =>
      obtain ⟨answer, next⟩ := sim s t o related
      obtain ⟨rest, last⟩ := ih next
      refine ⟨?_, last⟩
      unfold trace
      rw [answer, rest]

end Object

end Tyleros.Lib
