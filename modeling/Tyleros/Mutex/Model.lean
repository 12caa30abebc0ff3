import Tyleros.Basic
import Tyleros.Lib.Machine
import Tyleros.Lib.Ownership
import Mathlib.Logic.Function.Basic

/-!
# Mutexes and their guards

`kernel/mutex.h`: `mutex` is a flag that `try_acquire` sets with a compare-and-swap
and `release` clears, `mutex::guard` an object that unlocks the mutex it points to.
Moves swap the pointers of two guards, and a guard that points nowhere does nothing.

A step of the machine is what one task does between two points where another task
can see the difference: a task may be preempted inside `acquire`, between
`try_acquire` and the guard that is made of it, inside the `std::swap` of a move, and
between the store that unlocks a mutex and `mtx = nullptr`. The mutexes, guards and
tasks are arbitrary types. A task that uses a guard while another task is inside one
of its member functions is a data race, and a guard that is used before its
constructor or after its destructor is no guard; both stop the machine.

`Exclusive` says of a state that a mutex is locked exactly when it has one owner, and
that the owners are the live guards that point to it where no task is in the middle
of a move or a release; `UnlocksOwn` says of a step that it unlocks what it owns.
-/

namespace Tyleros.Mutex

open Tyleros.Lib

/-- Where a task is in the member functions of `mutex::guard`. -/
inductive Doing (M G : Type) where
  | idle
  /-- In `guard(mtx)`: `mtx(&mtx)` is set, `acquire` has not succeeded yet. -/
  | acquiring (g : G) (m : M)
  /-- `try_acquire` has returned true, `guard(mtx, already_locked)` comes next. -/
  | tried (g : G) (m : M)
  /-- In the `std::swap` of `a = std::move(b)`, with the old `a.mtx` saved. -/
  | swapping (a b : G) (saved : Option M)
  /-- As before, with `b.mtx` copied to `a.mtx`. -/
  | swapped (a b : G) (saved : Option M)
  /-- In `release`: the mutex is unlocked, `mtx = nullptr` comes next. -/
  | unlocked (g : G)
  deriving DecidableEq, Repr

/-- What a task can begin to do with guards. -/
inductive Op (M G : Type) where
  /-- `guard()`. -/
  | construct (g : G)
  /-- `guard(m)`, which is also what `m.lock()` returns. -/
  | lock (g : G) (m : M)
  /-- `try_acquire`, followed by `guard(m, already_locked)` if it succeeds. -/
  | tryLock (g : G) (m : M)
  /-- `guard a(std::move(b))`. -/
  | moveConstruct (a b : G)
  /-- `a = std::move(b)`. -/
  | moveAssign (a b : G)
  /-- `g.release()`. -/
  | release (g : G)
  /-- `g.~guard()`. -/
  | destroy (g : G)
  deriving DecidableEq, Repr

/-- The guards a task is at work on. -/
def Doing.guards {M G : Type} : Doing M G → List G
  | .idle => []
  | .acquiring g _ => [g]
  | .tried g _ => [g]
  | .swapping a b _ => [a, b]
  | .swapped a b _ => [a, b]
  | .unlocked g => [g]

@[simp]
theorem Doing.guards_idle {M G : Type} : (.idle : Doing M G).guards = [] := rfl

structure State (M G T : Type) where
  locked : M → Bool
  /-- The constructor has ended and the destructor has not begun. -/
  alive : G → Bool
  mtx : G → Option M
  doing : T → Doing M G
  /-- The task that is inside a member function of the guard. -/
  user : G → Option T

namespace State

variable {M G T : Type} [DecidableEq M] [DecidableEq G] [DecidableEq T]

/-- There is no guard yet, and nobody is about to construct it. -/
def fresh (s : State M G T) (g : G) : Bool := !s.alive g && (s.user g).isNone

/-- There is a guard, and nobody is inside one of its member functions. -/
def usable (s : State M G T) (g : G) : Bool := s.alive g && (s.user g).isNone

/-- Task `t` goes into the middle of an operation. -/
def enter (s : State M G T) (t : T) (d : Doing M G) : State M G T :=
  { s with
    doing := Function.update s.doing t d
    user := fun g => if g ∈ d.guards then some t else s.user g }

/-- Task `t` ends its operation. -/
def leave (s : State M G T) (t : T) : State M G T :=
  { s with
    doing := Function.update s.doing t .idle
    user := fun g => if g ∈ (s.doing t).guards then none else s.user g }

/-- `if (mtx) mtx->release();` of `guard::release`. -/
def unlock (s : State M G T) (t : T) (g : G) : State M G T :=
  match s.mtx g with
  | none => s
  | some m => { s with locked := Function.update s.locked m false }.enter t (.unlocked g)

/-- The first step of an operation. -/
def begin (s : State M G T) (t : T) : Op M G → Except Stop (State M G T)
  | .construct g =>
    if s.fresh g then
      .ok { s with alive := Function.update s.alive g true, mtx := Function.update s.mtx g none }
    else .error (.fault "no guard can be constructed here")
  | .lock g m =>
    if s.fresh g then
      .ok ({ s with mtx := Function.update s.mtx g (some m) }.enter t (.acquiring g m))
    else .error (.fault "no guard can be constructed here")
  | .tryLock g m =>
    if s.fresh g then
      if s.locked m then .ok s
      else .ok ({ s with locked := Function.update s.locked m true }.enter t (.tried g m))
    else .error (.fault "no guard can be constructed here")
  | .moveConstruct a b =>
    if s.fresh a && s.usable b then
      .ok ({ s with mtx := Function.update s.mtx a none }.enter t (.swapping a b none))
    else .error (.fault "not a guard, or a guard in use")
  | .moveAssign a b =>
    if s.usable a && s.usable b then .ok (s.enter t (.swapping a b (s.mtx a)))
    else .error (.fault "not a guard, or a guard in use")
  | .release g =>
    if s.usable g then .ok (s.unlock t g)
    else .error (.fault "not a guard, or a guard in use")
  | .destroy g =>
    if s.usable g then .ok ({ s with alive := Function.update s.alive g false }.unlock t g)
    else .error (.fault "not a guard, or a guard in use")

/-- The next step of the operation that task `t` is in. -/
def resume (s : State M G T) (t : T) : State M G T :=
  match s.doing t with
  | .idle => s
  | .acquiring g m =>
    if s.locked m then s
    else
      { s with
        locked := Function.update s.locked m true
        alive := Function.update s.alive g true }.leave t
  | .tried g m =>
    { s with
      alive := Function.update s.alive g true
      mtx := Function.update s.mtx g (some m) }.leave t
  | .swapping a b saved =>
    { s with mtx := Function.update s.mtx a (s.mtx b) }.enter t (.swapped a b saved)
  | .swapped a b saved =>
    -- a move constructor ends here; a guard that is assigned to is alive already
    { s with
      alive := Function.update s.alive a true
      mtx := Function.update s.mtx b saved }.leave t
  | .unlocked g => { s with mtx := Function.update s.mtx g none }.leave t

end State

variable {M G T : Type} [DecidableEq M] [DecidableEq G] [DecidableEq T]

/-- One step of one task: it goes on with its operation, or begins the given one. -/
def machine : Machine (State M G T) (T × Op M G) Stop where
  step s o :=
    match s.doing o.1 with
    | .idle => s.begin o.1 o.2
    | _ => .ok (s.resume o.1)

/-- No mutex is locked and there is no guard. -/
def initial : State M G T where
  locked _ := false
  alive _ := false
  mtx _ := none
  doing _ := .idle
  user _ := none

/-! ## Owners -/

/-- What a guard in use owns, if it points to `mtx`: nothing before its mutex is
acquired, after it is unlocked, and after a swap has copied its pointer. -/
def Doing.owned (d : Doing M G) (g : G) (mtx : Option M) : Option M :=
  match d with
  | .swapping _ _ _ => mtx
  | .swapped _ b _ => if g = b then none else mtx
  | _ => none

/-- What the operation itself owns: the mutex that `try_acquire` has locked, and the
pointer a swap has saved. -/
def Doing.carried : Doing M G → Option M
  | .tried _ m => some m
  | .swapped _ _ saved => saved
  | _ => none

/-- The mutex that a guard, or the operation a task is in, has to unlock or pass on. -/
def State.owner (s : State M G T) : G ⊕ T → Option M
  | .inl g => match s.user g with
    | none => s.mtx g
    | some t => (s.doing t).owned g (s.mtx g)
  | .inr t => (s.doing t).carried

/-- The task is not in the middle of an operation, or it waits for a mutex. -/
def Doing.Settled : Doing M G → Prop
  | .idle => True
  | .acquiring _ _ => True
  | _ => False

/-- The step unlocks mutexes that its guard owns alone, and no others. -/
def UnlocksOwn (s : State M G T) (o : T × Op M G) : Prop :=
  ∀ s' m, machine.step s o = .ok s' → s.locked m = true → s'.locked m = false →
    ∃ g, (o.2 = .release g ∨ o.2 = .destroy g) ∧ s.alive g = true ∧ s.mtx g = some m ∧
      ∀ h, s.owner h = some m ↔ h = .inl g

/-- Mutual exclusion. -/
structure Exclusive (s : State M G T) : Prop where
  /-- A mutex is locked exactly when it has an owner, and it never has two. -/
  owner : ∀ m, s.locked m = true ↔ ∃! h, s.owner h = some m
  /-- Between the operations, the owners are the live guards. -/
  guard : (∀ t, (s.doing t).Settled) →
    ∀ m, s.locked m = true ↔ ∃! g, s.alive g = true ∧ s.mtx g = some m

end Tyleros.Mutex
