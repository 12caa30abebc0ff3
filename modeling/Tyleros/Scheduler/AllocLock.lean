import Tyleros.Scheduler.Model

/-!
# The allocator's lock and disabled interrupts

`alloc::alloc` and `alloc::free` hold `malloc_lock`. Tasks call them with interrupts
enabled, and may be preempted while they hold the lock; `schedule_task` and `kill`
call them with interrupts disabled, where `yield` is a bare `pause`. A task that
waits for the lock there waits for ever if another task holds it (`Deadlocked`), and
nothing else ever runs (`Deadlocked.step_eq`).

A step of the machine is one step of the current task, or a timer interrupt or
`yield`, which does something only while interrupts are enabled. The lock remembers
which task took it: the slot, and how many tasks had been started in the slot.
`not_deadlocked_iff` says which runs keep clear of the deadlock.
-/

namespace Tyleros.Scheduler.AllocLock

open Tyleros.Lib

/-- What a task can call. -/
inductive Call where
  /-- `alloc::alloc(n, ..)`. -/
  | alloc (n : Nat)
  /-- `alloc::free(p)`. -/
  | free (p : Nat)
  /-- `schedule_kernel_task` and `schedule_user_task`. -/
  | schedule (isKernel : Bool) (newTask context : UInt64)
  /-- `kill(id)`. -/
  | kill (id : Nat)
  deriving DecidableEq, Repr

/-- Where a task is in its call. -/
inductive Doing where
  | idle
  /-- In `malloc_lock.acquire()`. -/
  | acquiring (call : Call)
  /-- Behind it, up to the end of the call. -/
  | holding (call : Call)
  deriving DecidableEq, Repr

structure State where
  scheduler : Scheduler.State
  interruptsEnabled : Bool
  /-- `malloc_lock.locked`, with the task that set it. -/
  holder : Option (Nat × Nat)
  doing : Nat → Doing
  /-- How many tasks have been started in a slot. -/
  started : Nat → Nat

namespace State

/-- The task in a slot. -/
def task (s : State) (slot : Nat) : Nat × Nat := (slot, s.started slot)

def current (s : State) : Nat := s.scheduler.currentTaskId

/-- The current task does `d`. -/
def setDoing (s : State) (d : Doing) : State :=
  { s with doing := Function.update s.doing s.current d }

/-- `kill` passes a stack to `alloc::free` that is not null. -/
def frees (s : State) (id : Nat) : Bool :=
  match s.scheduler.stackOf id with
  | none => false
  | some stack => sub64 stack.address TASK_STACK_SIZE != 0

/-- The current task makes a call, up to `acquire` or the end of the call. -/
def begin (s : State) : Call → Except Stop State
  | .alloc n => .ok (if n = 0 then s else s.setDoing (.acquiring (.alloc n)))
  | .free p => .ok (if p = 0 then s else s.setDoing (.acquiring (.free p)))
  | .schedule isKernel newTask context => do
    kassert (nextTaskId s.scheduler < MAX_TASKS) "ran out of tasks!"
    return { s.setDoing (.acquiring (.schedule isKernel newTask context)) with
      interruptsEnabled := false }
  | .kill id => do
    let scheduler ← Scheduler.kill id s.scheduler
    if s.frees id then
      return { s.setDoing (.acquiring (.kill id)) with
        scheduler := scheduler
        interruptsEnabled := false }
    else return { s with scheduler := scheduler, interruptsEnabled := true }

/-- The current task goes on with its call; `stackTop` is what `alloc::alloc` returned
to `schedule_task`. -/
def resume (s : State) (stackTop : Nat) (exit : UInt64) : Except Stop State :=
  match s.doing s.current with
  | .idle => .ok s
  | .acquiring call =>
    match s.holder with
    | some _ => .ok s
    | none => .ok { s.setDoing (.holding call) with holder := some (s.task s.current) }
  | .holding (.schedule isKernel newTask context) => do
    let (id, scheduler) ← scheduleTask isKernel newTask context exit stackTop s.scheduler
    return { s with
      scheduler := scheduler
      interruptsEnabled := true
      holder := none
      doing := Function.update (Function.update s.doing s.current .idle) id .idle
      started := Function.update s.started id (s.started id + 1) }
  | .holding (.kill _) => .ok { s.setDoing .idle with interruptsEnabled := true, holder := none }
  | .holding _ => .ok { s.setDoing .idle with holder := none }

/-- A timer interrupt, or the interrupt of `yield`. -/
def tick (s : State) (tcb : TaskFrame) (fxsave : FxsaveData) : Except Stop State :=
  if s.interruptsEnabled then do
    let scheduler ← taskSwitch tcb fxsave s.scheduler
    return { s with scheduler := scheduler }
  else .ok s

end State

inductive Op where
  /-- The current task goes on with its call, or makes the given one. -/
  | run (call : Call) (stackTop : Nat) (exit : UInt64)
  | tick (tcb : TaskFrame) (fxsave : FxsaveData)

def machine : Machine State Op Stop where
  step s
    | .run call stackTop exit =>
      match s.doing s.current with
      | .idle => s.begin call
      | _ => s.resume stackTop exit
    | .tick tcb fxsave => s.tick tcb fxsave

/-- After `scheduler::init`, with interrupts and task switches enabled. -/
def initial : State where
  scheduler := init
  interruptsEnabled := true
  holder := none
  doing _ := .idle
  started _ := 0

/-- The current task waits for the lock with interrupts disabled, and a different task
holds it. -/
def Deadlocked (s : State) : Prop :=
  (∃ call, s.doing s.current = .acquiring call) ∧ s.interruptsEnabled = false ∧
    ∃ h, s.holder = some h ∧ h ≠ s.task s.current

/-- The call takes the lock with interrupts disabled: it starts a task, and there is a
slot for it, or it kills one that has a stack. -/
def State.LocksMasked (s : State) : Call → Prop
  | .alloc _ => False
  | .free _ => False
  | .schedule _ _ _ => nextTaskId s.scheduler < MAX_TASKS
  | .kill id => id < MAX_TASKS ∧ s.frees id = true

/-- A task makes such a call only while nobody holds the lock. -/
def CallsWhenFree (s : State) : Op → Prop
  | .run call _ _ => s.doing s.current = .idle → s.LocksMasked call → s.holder = none
  | .tick _ _ => True

/-! ## The end of all tasks -/

/-- Nothing changes any more. -/
theorem Deadlocked.step_eq {s : State} (dead : Deadlocked s) (o : Op) :
    machine.step s o = .ok s := by
  obtain ⟨⟨call, doing⟩, masked, h, held, _⟩ := dead
  cases o with
  | run call' stackTop exit => simp [machine, State.resume, doing, held]
  | tick tcb fxsave => simp [machine, State.tick, masked]

theorem Deadlocked.run_eq {s : State} (dead : Deadlocked s) (ops : List Op) :
    machine.run s ops = .ok s := by
  induction ops with
  | nil => rfl
  | cons o os ih =>
      unfold Machine.run
      rw [dead.step_eq]
      exact ih

/-! ## The invariant -/

/-- The calls that disable interrupts. -/
def Call.Masked : Call → Prop
  | .alloc _ => False
  | .free _ => False
  | .schedule _ _ _ => True
  | .kill _ => True

structure Inv (s : State) : Prop where
  /-- Interrupts are disabled only inside such a call. -/
  masked : s.interruptsEnabled = false → ∃ call : Call, call.Masked ∧
    (s.doing s.current = .acquiring call ∨ s.doing s.current = .holding call)
  /-- The task that holds the lock is past `acquire`, if it is still in its slot. -/
  holder : ∀ slot, s.holder = some (s.task slot) → ∃ call, s.doing slot = .holding call

theorem inv_initial : Inv initial where
  masked := nofun
  holder _ := nofun

variable {s s' : State}

theorem Inv.holder_ne (inv : Inv s) {h : Nat × Nat} (held : s.holder = some h)
    (idle : s.doing s.current = .idle) : h ≠ s.task s.current := by
  rintro rfl
  obtain ⟨call, eq⟩ := inv.holder s.current held
  cases idle.symm.trans eq

theorem Inv.enabled_of_idle (inv : Inv s) (idle : s.doing s.current = .idle) :
    s.interruptsEnabled = true := by
  refine Bool.of_not_eq_false fun masked => ?_
  obtain ⟨call, _, acquiring | holding⟩ := inv.masked masked
  · cases idle.symm.trans acquiring
  · cases idle.symm.trans holding

/-- A task that begins to wait. -/
theorem Inv.setDoing (inv : Inv s) (idle : s.doing s.current = .idle) (call : Call)
    {scheduler : Scheduler.State} (same : scheduler.currentTaskId = s.current) {enabled : Bool}
    (masked : enabled = false → call.Masked) :
    Inv { s.setDoing (.acquiring call) with
      scheduler := scheduler, interruptsEnabled := enabled } where
  masked off := ⟨call, masked off, .inl (by simp [State.setDoing, State.current, same])⟩
  holder slot held := by
    obtain ⟨call', eq⟩ := inv.holder slot held
    refine ⟨call', ?_⟩
    have ne : slot ≠ s.current := fun here => by
      rw [here, idle] at eq
      cases eq
    simpa [State.setDoing, ne] using eq

theorem Inv.begin (inv : Inv s) (idle : s.doing s.current = .idle) {call : Call}
    (h : s.begin call = .ok s') : Inv s' := by
  have enabled := inv.enabled_of_idle idle
  cases call with
  | alloc n =>
      cases h
      split
      · exact inv
      · exact inv.setDoing idle (.alloc n) rfl fun off => nomatch enabled.symm.trans off
  | free p =>
      cases h
      split
      · exact inv
      · exact inv.setDoing idle (.free p) rfl fun off => nomatch enabled.symm.trans off
  | schedule isKernel newTask context =>
      obtain ⟨_, _, h⟩ := bind_eq_ok h
      cases h
      exact inv.setDoing idle (.schedule isKernel newTask context) rfl fun _ => trivial
  | kill id =>
      obtain ⟨scheduler, killed, h⟩ := bind_eq_ok h
      have same := (kill_cases killed).2.1
      split at h
      · cases h
        exact inv.setDoing idle (.kill id) same fun _ => trivial
      · cases h
        exact ⟨nofun, inv.holder⟩

theorem Inv.resume (inv : Inv s) {stackTop : Nat} {exit : UInt64}
    (h : s.resume stackTop exit = .ok s') : Inv s' := by
  unfold State.resume at h
  split at h
  · cases h
    exact inv
  · next call doing =>
      split at h
      · cases h
        exact inv
      · cases h
        refine ⟨fun off => ?_, fun slot held => ?_⟩
        · obtain ⟨call', masked, acquiring | holding⟩ := inv.masked off
          · cases doing.symm.trans acquiring
            exact ⟨call, masked, .inr (by simp [State.setDoing, State.current])⟩
          · cases doing.symm.trans holding
        · have here : s.current = slot := congrArg Prod.fst (Option.some.inj held)
          subst here
          exact ⟨call, by simp [State.setDoing]⟩
  · obtain ⟨⟨id, scheduler⟩, _, h⟩ := bind_eq_ok h
    cases h
    exact ⟨nofun, nofun⟩
  · cases h
    exact ⟨nofun, nofun⟩
  · next call notSchedule notKill doing =>
      cases h
      refine ⟨fun off => ?_, nofun⟩
      -- `alloc` and `free` alone leave interrupts enabled
      obtain ⟨call', masked, acquiring | holding⟩ := inv.masked off
      · cases doing.symm.trans acquiring
      · cases doing.symm.trans holding
        cases call with
        | alloc n => exact masked.elim
        | free p => exact masked.elim
        | schedule isKernel newTask context => exact absurd rfl (notSchedule isKernel newTask context)
        | kill id => exact absurd rfl (notKill id)

theorem Inv.tick (inv : Inv s) {tcb : TaskFrame} {fxsave : FxsaveData}
    (h : s.tick tcb fxsave = .ok s') : Inv s' := by
  unfold State.tick at h
  split at h
  · next enabled =>
      obtain ⟨scheduler, _, h⟩ := bind_eq_ok h
      cases h
      exact ⟨fun off => (nomatch enabled.symm.trans off), inv.holder⟩
  · cases h
    exact inv

theorem Inv.step (inv : Inv s) {o : Op} (h : machine.step s o = .ok s') : Inv s' := by
  cases o with
  | run call stackTop exit =>
      simp only [machine] at h
      split at h
      · next idle => exact inv.begin idle h
      · exact inv.resume h
  | tick tcb fxsave => exact inv.tick h

/-! ## One step -/

/-- The call that begins to wait leads into the deadlock exactly if somebody has the
lock. -/
theorem Inv.deadlocked_setDoing_iff (inv : Inv s) (idle : s.doing s.current = .idle) (call : Call)
    {scheduler : Scheduler.State} (same : scheduler.currentTaskId = s.current) :
    ¬ Deadlocked { s.setDoing (.acquiring call) with
      scheduler := scheduler, interruptsEnabled := false } ↔ s.holder = none := by
  have current : ∀ enabled, State.current { s.setDoing (.acquiring call) with
      scheduler := scheduler, interruptsEnabled := enabled } = s.current := fun _ => same
  constructor
  · intro alive
    cases held : s.holder with
    | none => rfl
    | some h =>
        refine absurd ⟨⟨call, ?_⟩, rfl, h, held, ?_⟩ alive
        · rw [current]
          simp [State.setDoing]
        · rw [current]
          exact inv.holder_ne held idle
  · rintro free ⟨_, _, h, held, _⟩
    cases free.symm.trans held

theorem not_deadlocked_of_enabled (enabled : s.interruptsEnabled = true) : ¬ Deadlocked s :=
  fun dead => nomatch enabled.symm.trans dead.2.1

/-- A call does not lead into the deadlock exactly if it is made while nobody has the
lock, where that matters. -/
theorem Inv.begin_iff (inv : Inv s) (idle : s.doing s.current = .idle) (call : Call) :
    (s.LocksMasked call → s.holder = none) ↔ ∀ s', s.begin call = .ok s' → ¬ Deadlocked s' := by
  have enabled := inv.enabled_of_idle idle
  cases call with
  | alloc n =>
      refine ⟨fun _ s' h => ?_, fun _ => False.elim⟩
      cases h
      split <;> exact not_deadlocked_of_enabled enabled
  | free p =>
      refine ⟨fun _ s' h => ?_, fun _ => False.elim⟩
      cases h
      split <;> exact not_deadlocked_of_enabled enabled
  | schedule isKernel newTask context =>
      have exact_ := inv.deadlocked_setDoing_iff idle (.schedule isKernel newTask context)
        (rfl : s.scheduler.currentTaskId = s.current)
      constructor
      · intro guard s' h
        obtain ⟨_, slot, h⟩ := bind_eq_ok h
        have slot : nextTaskId s.scheduler < MAX_TASKS := of_decide_eq_true (kassert_eq_ok slot)
        cases h
        exact exact_.mpr (guard slot)
      · intro alive slot
        have slot : nextTaskId s.scheduler < MAX_TASKS := slot
        refine exact_.mp (alive _ ?_)
        unfold State.begin
        rw [decide_eq_true slot]
        rfl
  | kill id =>
      constructor
      · intro guard s' h
        obtain ⟨scheduler, killed, h⟩ := bind_eq_ok h
        obtain ⟨bound, same, _⟩ := kill_cases killed
        split at h
        · next frees =>
            cases h
            exact (inv.deadlocked_setDoing_iff idle (.kill id) same).mpr (guard ⟨bound, frees⟩)
        · cases h
          exact not_deadlocked_of_enabled rfl
      · rintro alive ⟨bound, frees⟩
        have completes : ∃ scheduler, Scheduler.kill id s.scheduler = .ok scheduler := by
          unfold Scheduler.kill
          rw [if_pos bound]
          split <;> exact ⟨_, rfl⟩
        obtain ⟨scheduler, killed⟩ := completes
        refine (inv.deadlocked_setDoing_iff idle (.kill id) (kill_cases killed).2.1).mp (alive _ ?_)
        simp only [State.begin, killed, ok_bind, frees]
        rfl

/-- Going on with a call does not lead into the deadlock. -/
theorem not_deadlocked_resume (alive : ¬ Deadlocked s) {stackTop : Nat} {exit : UInt64}
    (h : s.resume stackTop exit = .ok s') : ¬ Deadlocked s' := by
  unfold State.resume at h
  split at h
  · cases h
    exact alive
  · split at h
    · cases h
      exact alive
    · cases h
      rintro ⟨⟨call, acquiring⟩, _⟩
      simp [State.setDoing, State.current] at acquiring
  · obtain ⟨⟨id, scheduler⟩, _, h⟩ := bind_eq_ok h
    cases h
    exact not_deadlocked_of_enabled rfl
  · cases h
    exact not_deadlocked_of_enabled rfl
  · cases h
    rintro ⟨_, _, h, held, _⟩
    cases held

theorem not_deadlocked_tick (alive : ¬ Deadlocked s) {tcb : TaskFrame} {fxsave : FxsaveData}
    (h : s.tick tcb fxsave = .ok s') : ¬ Deadlocked s' := by
  unfold State.tick at h
  split at h
  · next enabled =>
      obtain ⟨scheduler, _, h⟩ := bind_eq_ok h
      cases h
      exact not_deadlocked_of_enabled enabled
  · cases h
    exact alive

theorem Inv.step_iff (inv : Inv s) (alive : ¬ Deadlocked s) (o : Op) :
    CallsWhenFree s o ↔ ∀ s', machine.step s o = .ok s' → ¬ Deadlocked s' := by
  cases o with
  | run call stackTop exit =>
      simp only [CallsWhenFree, machine]
      cases doing : s.doing s.current with
      | idle =>
          rw [← inv.begin_iff doing call]
          exact ⟨fun guard => guard rfl, fun guard _ => guard⟩
      | acquiring call' => exact ⟨fun _ _ h => not_deadlocked_resume alive h, fun _ => nofun⟩
      | holding call' => exact ⟨fun _ _ h => not_deadlocked_resume alive h, fun _ => nofun⟩
  | tick tcb fxsave => exact ⟨fun _ _ h => not_deadlocked_tick alive h, fun _ => trivial⟩

/-! ## Every run -/

/-- A run keeps clear of the deadlock exactly if nobody starts a task, or kills one
that has a stack, while the lock is held. -/
theorem not_deadlocked_iff (ops : List Op) :
    machine.Always (fun s => ¬ Deadlocked s) initial ops ↔
      machine.EachStep CallsWhenFree initial ops :=
  Machine.always_iff_eachStep (fun _ _ _ inv _ h => inv.step h)
    (fun _ o inv alive _ => inv.step_iff alive o) inv_initial
    (not_deadlocked_of_enabled rfl) Machine.eachStep_true

/-- Task 0 starts task 1 and is preempted inside `alloc::alloc`; task 1 starts another
task. -/
def preemptedInAlloc : List Op :=
  [.run (.schedule true 0 0) 0x10000 0, .run (.alloc 1) 0 0, .run (.alloc 1) 0x10000 0,
    .run (.alloc 8) 0 0, .run (.alloc 8) 0 0, .tick {} (Vector.replicate 512 0),
    .run (.schedule true 0 0) 0 0]

theorem schedule_deadlocks :
    ∃ s, machine.run initial preemptedInAlloc = .ok s ∧ Deadlocked s := by
  refine ⟨_, rfl, ⟨.schedule true 0 0, ?_⟩, ?_, (0, 0), ?_, ?_⟩
  · decide
  · decide
  · decide
  · decide

end Tyleros.Scheduler.AllocLock
