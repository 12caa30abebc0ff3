import Mathlib.Data.List.Infix

/-!
# Machines whose operations may stop them

A `Machine` executes one operation at a time; an operation either yields the
next state or stops the machine with a reason (a failed assertion, a panic).
`run` executes a list of operations, `Always` states a property of every state
a run passes through, and `EachStep` a property of every operation together
with the state it is executed in.

* `Machine.always_of_inv`, `Machine.eachStep_of_inv`: the invariant rules. One
  step lemma under a guard gives the whole run under the guard at every step.
* `Machine.guarded_run_eq`: two machines that agree on guarded steps.
* `Machine.always_iff_eachStep`, `Machine.eachStep_congr`, `Machine.eachStep_iff`: the
  rules for exact guards. When the guard of one step says exactly whether the step keeps the
  property, the guards of a run say exactly whether the run does.
-/

namespace Tyleros.Lib

/-- A deterministic machine over states `σ` and operations `ο`; an operation
may stop it with a reason in `ε`. -/
structure Machine (σ ο ε : Type*) where
  step : σ → ο → Except ε σ

namespace Machine

variable {σ ο ε : Type*} (M : Machine σ ο ε)

/-- Execute the operations in order, up to the first one that stops. -/
def run : σ → List ο → Except ε σ
  | s, [] => .ok s
  | s, o :: os => match M.step s o with
    | .ok s' => run s' os
    | .error e => .error e

/-- `P` holds in every state a run of `ops` from `s` passes through, the first
and the last one included. -/
def Always (P : σ → Prop) : σ → List ο → Prop
  | s, [] => P s
  | s, o :: os => P s ∧ ∀ s', M.step s o = .ok s' → Always P s' os

/-- `Q` holds of every operation of a run of `ops` from `s` and the state it is
executed in, the operation that stops the run included. -/
def EachStep (Q : σ → ο → Prop) : σ → List ο → Prop
  | _, [] => True
  | s, o :: os => Q s o ∧ ∀ s', M.step s o = .ok s' → EachStep Q s' os

variable {M} {P Inv : σ → Prop} {Q G L : σ → ο → Prop} {s s' t : σ} {o : ο} {os ops : List ο}

theorem run_cons_eq_ok (h : M.run s (o :: os) = .ok t) :
    ∃ s', M.step s o = .ok s' ∧ M.run s' os = .ok t := by
  unfold run at h
  split at h
  · next s' hstep => exact ⟨s', hstep, h⟩
  · cases h

/-- A run may be cut where its first part ends. -/
theorem run_append (hrun : M.run s os = .ok t) : M.run s (os ++ ops) = M.run t ops := by
  induction os generalizing s with
  | nil =>
      cases hrun
      rfl
  | cons first rest ih =>
      obtain ⟨mid, hstep, hrest⟩ := run_cons_eq_ok hrun
      rw [List.cons_append, run, hstep]
      exact ih hrest

theorem eachStep_and (left : M.EachStep Q s ops) (right : M.EachStep G s ops) :
    M.EachStep (fun s o => Q s o ∧ G s o) s ops := by
  induction ops generalizing s with
  | nil => trivial
  | cons o os ih =>
      exact ⟨⟨left.1, right.1⟩, fun mid hstep => ih (left.2 mid hstep) (right.2 mid hstep)⟩

theorem EachStep.mono (weaker : ∀ s o, Q s o → G s o) (h : M.EachStep Q s ops) :
    M.EachStep G s ops := by
  induction ops generalizing s with
  | nil => trivial
  | cons o os ih => exact ⟨weaker s o h.1, fun mid hstep => ih (h.2 mid hstep)⟩

/-- The step property at any point of a run. -/
theorem EachStep.of_run (front back : List ο) (h : M.EachStep Q s (front ++ o :: back))
    (hrun : M.run s front = .ok t) : Q t o := by
  induction front generalizing s with
  | nil =>
      cases hrun
      exact h.1
  | cons first rest ih =>
      obtain ⟨mid, hstep, hrest⟩ := run_cons_eq_ok hrun
      exact ih (h.2 mid hstep) hrest

/-- A step property that can be evaluated can be evaluated along a run. -/
instance EachStep.decidable [∀ s o, Decidable (Q s o)] :
    (s : σ) → (ops : List ο) → Decidable (M.EachStep Q s ops)
  | _, [] => isTrue trivial
  | s, o :: os => match hstep : M.step s o with
    | .ok mid => match EachStep.decidable mid os with
      | isTrue rest => decidable_of_iff (Q s o) ⟨fun here =>
          ⟨here, fun _ eq => Except.ok.inj (hstep.symm.trans eq) ▸ rest⟩, And.left⟩
      | isFalse stuck => isFalse fun h => stuck (h.2 mid hstep)
    | .error _ => decidable_of_iff (Q s o) ⟨fun here =>
        ⟨here, fun _ eq => nomatch hstep.symm.trans eq⟩, And.left⟩

/-- What the invariant says about one guarded step holds of every step of every
guarded run. -/
theorem eachStep_of_inv
    (preserves : ∀ s o s', Inv s → G s o → M.step s o = .ok s' → Inv s')
    (local_ : ∀ s o, Inv s → G s o → Q s o)
    (inv : Inv s) (guard : M.EachStep G s ops) : M.EachStep Q s ops := by
  induction ops generalizing s with
  | nil => trivial
  | cons o os ih =>
      refine ⟨local_ s o inv guard.1, fun mid hstep => ?_⟩
      exact ih (preserves s o mid inv guard.1 hstep) (guard.2 mid hstep)

/-- The invariant rule for every state a guarded run passes through. -/
theorem always_of_inv
    (preserves : ∀ s o s', Inv s → G s o → M.step s o = .ok s' → Inv s')
    (entails : ∀ s, Inv s → P s)
    (inv : Inv s) (guard : M.EachStep G s ops) : M.Always P s ops := by
  induction ops generalizing s with
  | nil => exact entails s inv
  | cons o os ih =>
      refine ⟨entails s inv, fun mid hstep => ?_⟩
      exact ih (preserves s o mid inv guard.1 hstep) (guard.2 mid hstep)

/-- A machine that agrees on the guarded steps has the same guarded runs. -/
theorem guarded_run_eq {N : Machine σ ο ε}
    (preserves : ∀ s o s', Inv s → G s o → M.step s o = .ok s' → Inv s')
    (agree : ∀ s o, Inv s → G s o → N.step s o = M.step s o)
    (inv : Inv s) (guard : M.EachStep G s ops) : N.run s ops = M.run s ops ∧ N.EachStep G s ops := by
  induction ops generalizing s with
  | nil => exact ⟨rfl, trivial⟩
  | cons o os ih =>
      have same := agree s o inv guard.1
      constructor
      · rw [run, run, same]
        cases hstep : M.step s o with
        | error e => rfl
        | ok mid => exact (ih (preserves s o mid inv guard.1 hstep) (guard.2 mid hstep)).1
      · refine ⟨guard.1, fun mid hstep => ?_⟩
        rw [same] at hstep
        exact (ih (preserves s o mid inv guard.1 hstep) (guard.2 mid hstep)).2

theorem Always.head (h : M.Always P s ops) : P s := by
  cases ops with
  | nil => exact h
  | cons o os => exact h.1

/-- The property in the state a run ends in. -/
theorem Always.last (h : M.Always P s ops) (hrun : M.run s ops = .ok t) : P t := by
  induction ops generalizing s with
  | nil =>
      cases hrun
      exact h
  | cons o os ih =>
      obtain ⟨mid, hstep, hrest⟩ := run_cons_eq_ok hrun
      exact ih (h.2 mid hstep) hrest

theorem eachStep_true : M.EachStep (fun _ _ => True) s ops := by
  induction ops generalizing s with
  | nil => trivial
  | cons o os ih => exact ⟨trivial, fun _ _ => ih⟩

/-- A property of operations alone. -/
theorem eachStep_of_forall {R : ο → Prop} (all : ∀ o ∈ ops, R o) :
    M.EachStep (fun _ => R) s ops := by
  induction ops generalizing s with
  | nil => trivial
  | cons o os ih =>
      obtain ⟨here, rest⟩ := List.forall_mem_cons.mp all
      exact ⟨here, fun _ _ => ih rest⟩

/-- When the guard of a step says exactly whether it leads back into `P`, a run
that starts in `P` stays there exactly if each of its steps meets the guard. -/
theorem always_iff_eachStep
    (preserves : ∀ s o s', Inv s → L s o → M.step s o = .ok s' → Inv s')
    (exactly : ∀ s o, Inv s → P s → L s o → (G s o ↔ ∀ s', M.step s o = .ok s' → P s'))
    (inv : Inv s) (start : P s) (legal : M.EachStep L s ops) :
    M.Always P s ops ↔ M.EachStep G s ops := by
  induction ops generalizing s with
  | nil => exact ⟨fun _ => trivial, fun _ => start⟩
  | cons o os ih =>
      have here := exactly s o inv start legal.1
      constructor
      · intro h
        have into : ∀ mid, M.step s o = .ok mid → P mid := fun mid hstep => (h.2 mid hstep).head
        refine ⟨here.mpr into, fun mid hstep => ?_⟩
        have rest := ih (preserves s o mid inv legal.1 hstep) (into mid hstep) (legal.2 mid hstep)
        exact rest.mp (h.2 mid hstep)
      · intro h
        have into := here.mp h.1
        refine ⟨start, fun mid hstep => ?_⟩
        have rest := ih (preserves s o mid inv legal.1 hstep) (into mid hstep) (legal.2 mid hstep)
        exact rest.mpr (h.2 mid hstep)

/-- Step properties that agree under an invariant agree along every run. -/
theorem eachStep_congr
    (preserves : ∀ s o s', Inv s → L s o → M.step s o = .ok s' → Inv s')
    (agree : ∀ s o, Inv s → L s o → (Q s o ↔ G s o))
    (inv : Inv s) (legal : M.EachStep L s ops) : M.EachStep Q s ops ↔ M.EachStep G s ops := by
  induction ops generalizing s with
  | nil => exact Iff.rfl
  | cons o os ih =>
      refine and_congr (agree s o inv legal.1) (forall_congr' fun mid => ?_)
      exact imp_congr_right fun hstep =>
        ih (preserves s o mid inv legal.1 hstep) (legal.2 mid hstep)

/-- Step properties that agree under an invariant which the guarded steps keep agree along
every run: the first step that misses one misses the other. -/
theorem eachStep_iff
    (preserves : ∀ s o s', Inv s → L s o → G s o → M.step s o = .ok s' → Inv s')
    (agree : ∀ s o, Inv s → L s o → (Q s o ↔ G s o))
    (inv : Inv s) (legal : M.EachStep L s ops) : M.EachStep Q s ops ↔ M.EachStep G s ops := by
  induction ops generalizing s with
  | nil => exact Iff.rfl
  | cons o os ih =>
      have here := agree s o inv legal.1
      constructor
      · intro h
        have guard := here.mp h.1
        refine ⟨guard, fun mid hstep => ?_⟩
        exact (ih (preserves s o mid inv legal.1 guard hstep) (legal.2 mid hstep)).mp (h.2 mid hstep)
      · intro h
        refine ⟨here.mpr h.1, fun mid hstep => ?_⟩
        exact (ih (preserves s o mid inv legal.1 h.1 hstep) (legal.2 mid hstep)).mpr (h.2 mid hstep)

end Machine

end Tyleros.Lib
