import Mathlib.Logic.Function.Basic

/-!
# Programs in an address space

A `MemProgram` loads and stores at addresses, one after the other, and a `Bus` says what that
does to a memory: in flat memory (`flatBus`), or in physical memory through a translation that
is itself kept there (`translatedBus`).

* `MemProgram.run_simulates`: a bus that simulates another one at the addresses a program uses
  runs it to the same result.
* `run_translated`: so a program runs through a translation as it does in flat memory, as long
  as the translation is one-to-one at the addresses the program uses, and these are not translated
  to where it is kept.
-/

namespace Tyleros.Lib

/-- A program that may load from addresses `A`, store values `B` there, and stop with an
error. -/
inductive MemProgram (A B ε α : Type) where
  | ret (a : α)
  | stop (e : ε)
  | load (address : A) (next : B → MemProgram A B ε α)
  | store (address : A) (value : B) (next : MemProgram A B ε α)

/-- What a load and a store do. -/
structure Bus (M A B ε : Type) where
  load : M → A → Except ε B
  store : M → A → B → Except ε M

namespace MemProgram

variable {A B ε α β M : Type}

def bind : MemProgram A B ε α → (α → MemProgram A B ε β) → MemProgram A B ε β
  | ret a, f => f a
  | stop e, _ => stop e
  | load address next, f => load address fun v => (next v).bind f
  | store address value next, f => store address value (next.bind f)

instance : Monad (MemProgram A B ε) where
  pure := ret
  bind := bind

/-- Run on a bus: the result, and the memory that is left. -/
def run (bus : Bus M A B ε) : MemProgram A B ε α → M → Except ε (α × M)
  | ret a, m => .ok (a, m)
  | stop e, _ => .error e
  | load address next, m => bus.load m address >>= fun v => (next v).run bus m
  | store address value next, m => bus.store m address value >>= fun m' => next.run bus m'

/-- The program loads and stores at addresses in `D` only. -/
def Within (bus : Bus M A B ε) (D : A → Prop) : MemProgram A B ε α → M → Prop
  | ret _, _ => True
  | stop _, _ => True
  | load address next, m => D address ∧ ∀ v, bus.load m address = .ok v → (next v).Within bus D m
  | store address value next, m =>
    D address ∧ ∀ m', bus.store m address value = .ok m' → next.Within bus D m'

section Run

variable (bus : Bus M A B ε) {D : A → Prop} {m : M} {p : MemProgram A B ε α}
  {f : α → MemProgram A B ε β}

@[simp] theorem run_pure (a : α) (m : M) : (pure a : MemProgram A B ε α).run bus m = .ok (a, m) :=
  rfl

theorem run_load (address : A) (next : B → MemProgram A B ε α) (m : M) :
    (load address next).run bus m = bus.load m address >>= fun v => (next v).run bus m := rfl

theorem run_store (address : A) (value : B) (next : MemProgram A B ε α) (m : M) :
    (store address value next).run bus m =
      bus.store m address value >>= fun m' => next.run bus m' := rfl

theorem run_bind (p : MemProgram A B ε α) (f : α → MemProgram A B ε β) (m : M) :
    (p >>= f).run bus m = p.run bus m >>= fun r => (f r.1).run bus r.2 := by
  induction p generalizing m with
  | ret a => rfl
  | stop e => rfl
  | load address next ih =>
      change (load address fun v => next v >>= f).run bus m = _
      rw [run_load, run_load]
      cases bus.load m address with
      | error e => rfl
      | ok v => exact ih v m
  | store address value next ih =>
      change (store address value (next >>= f)).run bus m = _
      rw [run_store, run_store]
      cases bus.store m address value with
      | error e => rfl
      | ok m' => exact ih m'

/-- A part that completes, and what follows it. -/
theorem run_bind_of_ok {a : α} {m' : M} (done : p.run bus m = .ok (a, m')) :
    (p >>= f).run bus m = (f a).run bus m' := by
  rw [run_bind, done]
  rfl

variable {bus}

theorem within_pure (a : α) (m : M) : (pure a : MemProgram A B ε α).Within bus D m := trivial

theorem within_bind (first : p.Within bus D m)
    (rest : ∀ a m', p.run bus m = .ok (a, m') → (f a).Within bus D m') :
    (p >>= f).Within bus D m := by
  induction p generalizing m with
  | ret a => exact rest a m rfl
  | stop e => trivial
  | load address next ih =>
      refine ⟨first.1, fun v loaded => ih v (first.2 v loaded) fun a m' done => rest a m' ?_⟩
      rw [run_load, loaded]
      exact done
  | store address value next ih =>
      refine ⟨first.1, fun m₁ stored => ih (first.2 m₁ stored) fun a m' done => rest a m' ?_⟩
      rw [run_store, stored]
      exact done

/-- When the first part completes, only its result and its memory matter. -/
theorem within_bind_of_ok {a : α} {m' : M} (first : p.Within bus D m)
    (done : p.run bus m = .ok (a, m')) (rest : (f a).Within bus D m') :
    (p >>= f).Within bus D m := by
  apply within_bind first
  intro a₁ m₁ done₁
  obtain ⟨rfl, rfl⟩ := Prod.mk.inj (Except.ok.inj (done.symm.trans done₁))
  exact rest

end Run

end MemProgram

/-! ## Simulation -/

section Simulation

variable {A B ε α M M' : Type}

/-- Related memories answer alike at the addresses of `D`, and stay related. -/
structure Bus.Simulates (bus : Bus M A B ε) (bus' : Bus M' A B ε) (D : A → Prop)
    (R : M → M' → Prop) : Prop where
  load : ∀ m m' a v, R m m' → D a → bus.load m a = .ok v → bus'.load m' a = .ok v
  store : ∀ m m' a v m₁, R m m' → D a → bus.store m a v = .ok m₁ →
    ∃ m₁', bus'.store m' a v = .ok m₁' ∧ R m₁ m₁'

/-- A program that completes on the first bus completes on the second one, alike. -/
theorem MemProgram.run_simulates {bus : Bus M A B ε} {bus' : Bus M' A B ε} {D : A → Prop}
    {R : M → M' → Prop} (sim : bus.Simulates bus' D R) {p : MemProgram A B ε α} {m m₁ : M}
    {m' : M'} {a : α} (within : p.Within bus D m) (related : R m m')
    (done : p.run bus m = .ok (a, m₁)) :
    ∃ m₁', p.run bus' m' = .ok (a, m₁') ∧ R m₁ m₁' := by
  induction p generalizing m m' with
  | ret b =>
      obtain ⟨rfl, rfl⟩ := Prod.mk.inj (Except.ok.inj done)
      exact ⟨m', rfl, related⟩
  | stop e => cases done
  | load address next ih =>
      rw [MemProgram.run_load] at done ⊢
      cases loaded : bus.load m address with
      | error e =>
          rw [loaded] at done
          cases done
      | ok v =>
          rw [loaded] at done
          rw [sim.load m m' address v related within.1 loaded]
          exact ih v (within.2 v loaded) related done
  | store address value next ih =>
      rw [MemProgram.run_store] at done ⊢
      cases stored : bus.store m address value with
      | error e =>
          rw [stored] at done
          cases done
      | ok m₂ =>
          rw [stored] at done
          obtain ⟨m₂', stored', related'⟩ := sim.store m m' address value m₂ related within.1 stored
          rw [stored']
          exact ih (within.2 m₂ stored) related' done

end Simulation

/-! ## Flat memory, and memory behind a translation -/

section Translation

variable {A P B ε α : Type} [DecidableEq A] [DecidableEq P]

/-- Every address is a place of its own. -/
def flatBus : Bus (A → B) A B ε where
  load m a := .ok (m a)
  store m a v := .ok (Function.update m a v)

/-- Places are found by a translation that depends on what is in memory. -/
def translatedBus (translate : (P → B) → A → Option P) (fault : A → ε) : Bus (P → B) A B ε where
  load m a := match translate m a with
    | some p => .ok (m p)
    | none => .error (fault a)
  store m a v := match translate m a with
    | some p => .ok (Function.update m p v)
    | none => .error (fault a)

/-- The addresses of `D` have their own places as long as memory agrees with `m₀` at the places
where the translation is kept, and none of these is one of theirs. -/
structure Placed (translate : (P → B) → A → Option P) (D : A → Prop) (place : A → P)
    (kept : P → Prop) (m₀ : P → B) : Prop where
  found : ∀ m, (∀ p, kept p → m p = m₀ p) → ∀ a, D a → translate m a = some (place a)
  inj : ∀ a b, D a → D b → place a = place b → a = b
  apart : ∀ a, D a → ¬ kept (place a)

/-- Physical memory holds the flat one at the places of `D`, and is `m₀` at all others. -/
structure Shows (D : A → Prop) (place : A → P) (m₀ : P → B) (flat : A → B) (m : P → B) : Prop where
  same : ∀ a, D a → m (place a) = flat a
  frame : ∀ p, (∀ a, D a → place a ≠ p) → m p = m₀ p

variable {translate : (P → B) → A → Option P} {D : A → Prop} {place : A → P} {kept : P → Prop}
  {m₀ : P → B} {fault : A → ε}

omit [DecidableEq A] [DecidableEq P] in
/-- Only the places where the translation is kept matter to it. -/
theorem Placed.congr {m₁ : P → B} (placed : Placed translate D place kept m₀)
    (same : ∀ p, kept p → m₁ p = m₀ p) : Placed translate D place kept m₁ :=
  ⟨fun m agrees => placed.found m fun p keeps => (agrees p keeps).trans (same p keeps),
    placed.inj, placed.apart⟩

/-- Memory behind such a translation simulates flat memory. -/
theorem Placed.simulates (placed : Placed translate D place kept m₀) :
    (flatBus (A := A) (B := B) (ε := ε)).Simulates (translatedBus translate fault) D
      (Shows D place m₀) := by
  have found : ∀ flat m a, Shows D place m₀ flat m → D a → translate m a = some (place a) := by
    intro flat m a shows_ inside
    apply placed.found m _ a inside
    intro p keeps
    apply shows_.frame
    rintro b inside' rfl
    exact placed.apart b inside' keeps
  refine ⟨fun flat m a v shows_ inside loaded => ?_, fun flat m a v flat' shows_ inside stored => ?_⟩
  · obtain rfl := Except.ok.inj loaded
    show (match translate m a with | some p => _ | none => _) = _
    rw [found flat m a shows_ inside]
    exact congrArg Except.ok (shows_.same a inside)
  · obtain rfl := Except.ok.inj stored
    refine ⟨Function.update m (place a) v, ?_, fun b inside' => ?_, fun p other => ?_⟩
    · show (match translate m a with | some p => _ | none => _) = _
      rw [found flat m a shows_ inside]
    · rw [Function.update_apply, Function.update_apply]
      by_cases here : b = a
      · rw [if_pos here, if_pos (congrArg place here)]
      · rw [if_neg here, if_neg fun same => here (placed.inj b a inside' inside same)]
        exact shows_.same b inside'
    · rw [Function.update_apply, if_neg fun same => other a inside same.symm]
      exact shows_.frame p other

/-- A program that completes in flat memory completes behind the translation, with the same
result, and the memory it leaves shows the flat one it would have left. -/
theorem run_translated (fault : A → ε) (placed : Placed translate D place kept m₀) {p : MemProgram A B ε α}
    {flat flat' : A → B} {a : α} (within : p.Within flatBus D flat)
    (start : ∀ a, D a → m₀ (place a) = flat a) (done : p.run flatBus flat = .ok (a, flat')) :
    ∃ m, p.run (translatedBus translate fault) m₀ = .ok (a, m) ∧ Shows D place m₀ flat' m :=
  MemProgram.run_simulates placed.simulates within ⟨start, fun _ _ => rfl⟩ done

end Translation

end Tyleros.Lib
