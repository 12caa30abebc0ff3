import Mathlib.Logic.Function.Basic

/-!
# Programs that make requests

A `Program` makes requests of its surroundings, a device for example, and goes on with the answer
to each one. Surroundings are a function of their own state.

* `Program.Obeys`: the program keeps to the rules of a `Monitor`, which watches requests and
  answers, whatever the answers are. `obeys_bind` and `obeys_spin` are the rules for sequences and
  for loops, and `follows_trace` says that then every run in any surroundings keeps to them.
* `Program.run_spin`: a loop that polls comes to its end in surroundings that come closer to it
  with every round.
* `Program.runIn_simulates`: surroundings that answer every request as others do give the same
  result. `Program.run_checks` is about surroundings that may fail, and programs that stop then.
-/

namespace Tyleros.Lib

/-- A program that makes requests `Ω` and may stop with an error. -/
inductive Program (Ω : Type) (Ans : Ω → Type) (ε α : Type) where
  | ret (a : α)
  | stop (e : ε)
  | request (o : Ω) (next : Ans o → Program Ω Ans ε α)

/-- What watches a program: the requests that are allowed, and what is to be remembered of one
and its answer. -/
structure Monitor (Ω : Type) (Ans : Ω → Type) (Q : Type) where
  allows : Q → Ω → Prop
  next : Q → (o : Ω) → Ans o → Q

namespace Program

variable {Ω : Type} {Ans : Ω → Type} {ε α β σ Q : Type}

def bind : Program Ω Ans ε α → (α → Program Ω Ans ε β) → Program Ω Ans ε β
  | ret a, f => f a
  | stop e, _ => stop e
  | request o next, f => request o fun v => (next v).bind f

instance : Monad (Program Ω Ans ε) where
  pure := ret
  bind := bind

/-- Make a request, for its answer. -/
def ask (o : Ω) : Program Ω Ans ε (Ans o) := request o ret

/-- Stop with this error, or go on. -/
def lift : Except ε α → Program Ω Ans ε α
  | .ok a => ret a
  | .error e => stop e

/-- Repeat the test until it succeeds, for at most so many rounds. -/
def spin (test : Program Ω Ans ε Bool) (e : ε) : Nat → Program Ω Ans ε Unit
  | 0 => stop e
  | fuel + 1 => do
    if ← test then pure () else spin test e fuel

/-- Run in surroundings: the result, and the state they are left in. -/
def run (env : (o : Ω) → σ → Ans o × σ) : Program Ω Ans ε α → σ → Except ε (α × σ)
  | ret a, s => .ok (a, s)
  | stop e, _ => .error e
  | request o next, s => (next (env o s).1).run env (env o s).2

/-- Run in surroundings that may stop the program. -/
def runIn (handler : (o : Ω) → σ → Except ε (Ans o × σ)) : Program Ω Ans ε α → σ → Except ε (α × σ)
  | ret a, s => .ok (a, s)
  | stop e, _ => .error e
  | request o next, s => do
    let (v, s) ← handler o s
    (next v).runIn handler s

/-- The requests of a run, with their answers. -/
def trace (env : (o : Ω) → σ → Ans o × σ) : Program Ω Ans ε α → σ → List (Sigma Ans)
  | ret _, _ => []
  | stop _, _ => []
  | request o next, s => ⟨o, (env o s).1⟩ :: (next (env o s).1).trace env (env o s).2

/-- After a bad answer the program stops with this error. -/
def Checks (bad : (o : Ω) → Ans o → Prop) (e : ε) : Program Ω Ans ε α → Prop
  | ret _ => True
  | stop _ => True
  | request o next => ∀ v, (bad o v → next v = stop e) ∧ (¬ bad o v → (next v).Checks bad e)

/-- Every request is allowed, and `post` holds in the end. -/
def Obeys (monitor : Monitor Ω Ans Q) (post : α → Q → Prop) : Program Ω Ans ε α → Q → Prop
  | ret a, q => post a q
  | stop _, _ => True
  | request o next, q => monitor.allows q o ∧ ∀ v, (next v).Obeys monitor post (monitor.next q o v)

end Program

namespace Monitor

variable {Ω : Type} {Ans : Ω → Type} {Q : Type}

/-- A list of requests and answers in which every request is allowed. -/
def Follows (monitor : Monitor Ω Ans Q) : Q → List (Sigma Ans) → Prop
  | _, [] => True
  | q, ⟨o, v⟩ :: rest => monitor.allows q o ∧ monitor.Follows (monitor.next q o v) rest

/-- What is remembered in the end. -/
def after (monitor : Monitor Ω Ans Q) : Q → List (Sigma Ans) → Q
  | q, [] => q
  | q, ⟨o, v⟩ :: rest => monitor.after (monitor.next q o v) rest

end Monitor

namespace Program

variable {Ω : Type} {Ans : Ω → Type} {ε α β σ Q : Type}

/-! ## Runs -/

section Run

variable (env : (o : Ω) → σ → Ans o × σ) {p : Program Ω Ans ε α} {f : α → Program Ω Ans ε β}
  {s s' : σ} {a : α}

@[simp] theorem run_pure (a : α) (s : σ) : (pure a : Program Ω Ans ε α).run env s = .ok (a, s) := rfl

@[simp] theorem run_stop (e : ε) (s : σ) : (stop e : Program Ω Ans ε α).run env s = .error e := rfl

@[simp] theorem run_ask (o : Ω) (s : σ) : (ask o : Program Ω Ans ε _).run env s = .ok (env o s) := rfl

@[simp] theorem lift_ok_bind (a : α) (f : α → Program Ω Ans ε β) : lift (.ok a) >>= f = f a := rfl

theorem run_bind (p : Program Ω Ans ε α) (f : α → Program Ω Ans ε β) (s : σ) :
    (p >>= f).run env s = p.run env s >>= fun r => (f r.1).run env r.2 := by
  induction p generalizing s with
  | ret a => rfl
  | stop e => rfl
  | request o next ih => exact ih _ _

/-- A part that completes, and what follows it. -/
theorem run_bind_of_ok (done : p.run env s = .ok (a, s')) :
    (p >>= f).run env s = (f a).run env s' := by
  rw [run_bind, done]
  rfl

@[simp] theorem run_ask_bind (o : Ω) (f : Ans o → Program Ω Ans ε β) (s : σ) :
    (ask o >>= f).run env s = (f (env o s).1).run env (env o s).2 := rfl

/-- The requests of a part that completes, and those of what follows it. -/
theorem trace_bind_of_ok (done : p.run env s = .ok (a, s')) :
    (p >>= f).trace env s = p.trace env s ++ (f a).trace env s' := by
  induction p generalizing s with
  | ret b =>
      cases done
      rfl
  | stop e => cases done
  | request o next ih =>
      have rest := ih (env o s).1 done
      exact congrArg (List.cons _) rest

/-- What is made of the result requests nothing. -/
theorem trace_map (p : Program Ω Ans ε α) (g : α → β) (s : σ) :
    (p >>= fun a => (pure (g a) : Program Ω Ans ε β)).trace env s = p.trace env s := by
  induction p generalizing s with
  | ret a => rfl
  | stop e => rfl
  | request o next ih => exact congrArg (List.cons _) (ih _ _)

@[simp] theorem run_lift_ok (a : α) (s : σ) :
    (lift (.ok a) : Program Ω Ans ε α).run env s = .ok (a, s) := rfl

variable {env}

/-- The rule for loops that poll. While the test fails the surroundings come closer to its
success, by the variant `v`. -/
theorem run_spin {test : Program Ω Ans ε Bool} {e : ε} {I P : σ → Prop} {v : σ → Nat}
    (round : ∀ s, I s → ∃ b s', test.run env s = .ok (b, s') ∧
      (b = true → P s') ∧ (b = false → I s' ∧ v s' < v s))
    {fuel : Nat} (start : I s) (enough : v s < fuel) :
    ∃ s', (spin test e fuel).run env s = .ok ((), s') ∧ P s' := by
  induction fuel generalizing s with
  | zero => exact absurd enough (Nat.not_lt_zero _)
  | succ fuel ih =>
      obtain ⟨b, s', tested, success, failure⟩ := round s start
      unfold spin
      rw [run_bind_of_ok env tested]
      cases b with
      | true => exact ⟨s', rfl, success rfl⟩
      | false =>
          obtain ⟨inv, closer⟩ := failure rfl
          exact ih inv (by omega)

end Run

/-! ## Rules -/

section Obeys

variable {monitor : Monitor Ω Ans Q} {p : Program Ω Ans ε α} {f : α → Program Ω Ans ε β} {q : Q}
  {post post' : α → Q → Prop} {final : β → Q → Prop}

theorem obeys_mono (obeys : p.Obeys monitor post q) (weaker : ∀ a q', post a q' → post' a q') :
    p.Obeys monitor post' q := by
  induction p generalizing q with
  | ret a => exact weaker a q obeys
  | stop e => trivial
  | request o next ih => exact ⟨obeys.1, fun v => ih v (obeys.2 v)⟩

theorem obeys_bind (first : p.Obeys monitor post q)
    (rest : ∀ a q', post a q' → (f a).Obeys monitor final q') :
    (p >>= f).Obeys monitor final q := by
  induction p generalizing q with
  | ret a => exact rest a q first
  | stop e => trivial
  | request o next ih => exact ⟨first.1, fun v => ih v (first.2 v)⟩

theorem obeys_ask {o : Ω} {f : Ans o → Program Ω Ans ε β} (allowed : monitor.allows q o)
    (rest : ∀ v, (f v).Obeys monitor final (monitor.next q o v)) :
    (ask o >>= f).Obeys monitor final q := ⟨allowed, rest⟩

theorem obeys_lift {x : Except ε α} (done : ∀ a, x = .ok a → post a q) :
    (lift x : Program Ω Ans ε α).Obeys monitor post q := by
  cases x with
  | ok a => exact done a rfl
  | error e => trivial

/-- The rule for loops. -/
theorem obeys_spin {test : Program Ω Ans ε Bool} {e : ε} {I P : Q → Prop}
    (round : ∀ q, I q → test.Obeys monitor (fun b q' => if b then P q' else I q') q)
    (fuel : Nat) (start : I q) : (spin test e fuel).Obeys monitor (fun _ => P) q := by
  induction fuel generalizing q with
  | zero => trivial
  | succ fuel ih =>
      refine obeys_bind (round q start) fun b q' tested => ?_
      cases b with
      | true => exact tested
      | false => exact ih tested

/-- A program that keeps to the rules does so in every run, in any surroundings. -/
theorem follows_trace (env : (o : Ω) → σ → Ans o × σ) (obeys : p.Obeys monitor post q) (s : σ) :
    monitor.Follows q (p.trace env s) := by
  induction p generalizing q s with
  | ret a => trivial
  | stop e => trivial
  | request o next ih => exact ⟨obeys.1, ih _ (obeys.2 _) _⟩

/-- A run that completes does so with what `post` says. -/
theorem post_of_run {env : (o : Ω) → σ → Ans o × σ} (obeys : p.Obeys monitor post q) {s s' : σ}
    {a : α} (done : p.run env s = .ok (a, s')) : post a (monitor.after q (p.trace env s)) := by
  induction p generalizing q s with
  | ret b =>
      cases done
      exact obeys
  | stop e => cases done
  | request o next ih => exact ih _ (obeys.2 _) done

end Obeys

/-! ## Other surroundings -/

section Surroundings

variable {τ : Type} {p : Program Ω Ans ε α} {f : α → Program Ω Ans ε β}

/-- Surroundings that answer the requests of a run as others do, in related states. -/
theorem runIn_simulates {env : (o : Ω) → τ → Ans o × τ}
    {handler : (o : Ω) → σ → Except ε (Ans o × σ)} {R : τ → σ → Prop} {P : Ω → Prop}
    (answers : ∀ o t s, R t s → P o →
      ∃ s', handler o s = .ok ((env o t).1, s') ∧ R (env o t).2 s')
    {t : τ} {s : σ} (start : R t s) (asked : ∀ r ∈ p.trace env t, P r.1) :
    match p.run env t with
    | .ok (a, t') => ∃ s', p.runIn handler s = .ok (a, s') ∧ R t' s'
    | .error e => p.runIn handler s = .error e := by
  induction p generalizing t s with
  | ret a => exact ⟨s, rfl, start⟩
  | stop e => rfl
  | request o next ih =>
      obtain ⟨here, rest⟩ := List.forall_mem_cons.mp asked
      obtain ⟨s', answered, related⟩ := answers o t s start here
      have after := ih (env o t).1 related rest
      unfold runIn
      rw [answered]
      exact after

variable {bad : (o : Ω) → Ans o → Prop} {e : ε}

theorem checks_bind (first : p.Checks bad e) (rest : ∀ a, (f a).Checks bad e) :
    (p >>= f).Checks bad e := by
  induction p with
  | ret a => exact rest a
  | stop e => trivial
  | request o next ih =>
      refine fun v => ⟨fun isBad => ?_, fun good => ih v ((first v).2 good)⟩
      show (next v).bind f = _
      rw [(first v).1 isBad]
      rfl

theorem checks_lift (x : Except ε α) : (lift x : Program Ω Ans ε α).Checks bad e := by
  cases x <;> trivial

/-- A program that checks runs as in surroundings that never fail, or stops at the first bad
answer. -/
theorem run_checks {env ideal : (o : Ω) → σ → Ans o × σ} (checks : p.Checks bad e)
    (agree : ∀ o s, ¬ bad o (env o s).1 → env o s = ideal o s) (s : σ) :
    ((∀ r ∈ p.trace env s, ¬ bad r.1 r.2) → p.run env s = p.run ideal s) ∧
      (¬ (∀ r ∈ p.trace env s, ¬ bad r.1 r.2) → p.run env s = .error e) := by
  induction p generalizing s with
  | ret a => exact ⟨fun _ => rfl, fun failed => absurd (fun r mem => by cases mem) failed⟩
  | stop e => exact ⟨fun _ => rfl, fun failed => absurd (fun r mem => by cases mem) failed⟩
  | request o next ih =>
      have trace : (request o next).trace env s =
          ⟨o, (env o s).1⟩ :: (next (env o s).1).trace env (env o s).2 := rfl
      rw [trace, List.forall_mem_cons]
      by_cases isBad : bad o (env o s).1
      · refine ⟨fun all => absurd isBad all.1, fun _ => ?_⟩
        show (next (env o s).1).run env (env o s).2 = _
        rw [(checks (env o s).1).1 isBad]
        rfl
      · obtain ⟨good, failed⟩ := ih (env o s).1 ((checks (env o s).1).2 isBad) (env o s).2
        refine ⟨fun all => ?_, fun some => failed fun all => some ⟨isBad, all⟩⟩
        show (next (env o s).1).run env (env o s).2 = (next (ideal o s).1).run ideal (ideal o s).2
        rw [← agree o s isBad]
        exact good all.2

end Surroundings

end Program

end Tyleros.Lib
