import Tyleros.Gdt
import Tyleros.Scheduler.Contexts

/-!
# User tasks

What becomes of a task of `schedule_user_task`: `scheduler_interrupt` of `kernel/task.asm` up to its
`iretq`, the general protection fault there, and its handler in `kernel/interrupts.cpp`, which kills
the task and yields.

`user_tasks_stop`: the code that runs is code of the kernel in every state of every run. An
interrupt returns as long as the current task is running and `task_switch` picks no user task; else
the kernel stops with the assertion of `task_switch`, which the handler gets to after it has killed
the user task, since that is still the current one. `exit` of a task with a stack does not get
through `kill`: `free` unmaps the stack that the code runs on. Both spin in `kill`, where interrupts
are disabled, if another task holds `malloc_lock`, and the handler, which prints, also if another
task holds the mutex of the screen. `free` may stop them with an assertion of its own.
-/

namespace Tyleros.Scheduler

open Lib
open Gdt (gdt iretq iretq_kernel iretq_user)

/-! ## The handler -/

namespace SelectorErrorCode

def getTable (v : UInt64) : UInt64 := (v >>> 1) &&& 0b11

def getIndex (v : UInt64) : UInt64 := (v >>> 3) &&& 0x1FFF

def getSelector (v : UInt64) : UInt64 := if getTable v = 0 then getIndex v * 8 else 0

end SelectorErrorCode

/-- `get_current_task_is_user()`. -/
def currentTaskIsUser (s : State) : Bool := (s.tasks s.currentTaskId).frame.cs == USER_CODE_SELECTOR

/-- The registers of the code that an interrupt finds, and those of the FPU. -/
structure Registers where
  frame : TaskFrame
  fxsave : FxsaveData

/-- What the processor pushes: the selectors are those of the code that runs. -/
def Registers.pushed (r : Registers) (cs ss : UInt64) : TaskFrame := { r.frame with cs, ss }

/-- Whether `malloc_lock` and the mutex of the screen are held. -/
structure Locks where
  malloc : Bool
  screen : Bool

/-- `kill`, where `free` waits for `malloc_lock` with interrupts disabled; `heap` is how `free` ends
after that. -/
def killWhile (mallocLocked : Bool) (heap : Except Stop Unit) (id : Nat) (s : State) :
    Except Stop State :=
  if (s.stackOf id).isSome then
    if mallocLocked then .error .hang
    else do
      heap
      kill id s
  else kill id s

/-- The yield of a handler, where `scheduler_interrupt` saves these registers. -/
def handlerYield (taskSwitchingEnabled : Bool) (r : Registers) (ss : UInt64) (s : State) :
    Except Stop State :=
  if taskSwitchingEnabled then taskSwitch (r.pushed KERNEL_CODE_SELECTOR ss) r.fxsave s else .ok s

/-- `general_protection_fault_handler_impl` up to the end of `yield`. What it prints first waits for
the screen with interrupts disabled. -/
def generalProtectionFaultHandler (taskSwitchingEnabled : Bool) (locks : Locks)
    (heap : Except Stop Unit) (errorCode : UInt64) (r : Registers) (ss : UInt64) (s : State) :
    Except Stop State :=
  if locks.screen then .error .hang
  else if SelectorErrorCode.getSelector errorCode = USER_CODE_SELECTOR then do
    kassert (currentTaskIsUser s) "current task is not user?"
    let s ← killWhile locks.malloc heap s.currentTaskId s
    handlerYield taskSwitchingEnabled r ss s
  else if SelectorErrorCode.getSelector errorCode = KERNEL_CODE_SELECTOR then .error .hang
  else .error (.panic "unknown task type!")

/-- The `iretq` of `scheduler_interrupt` with the frame in `*tcb`, for at most so many faults. -/
def resume (tss : UInt64) (taskSwitchingEnabled : Bool) (locks : Locks) (heap : Except Stop Unit)
    (r : Registers) (ss : UInt64) : Nat → State → Except Stop State
  | 0, _ => .error .hang
  | fuel + 1, s =>
    match iretq (gdt tss) s.tcb with
    | .ok () => .ok s
    | .error (.generalProtection errorCode) => do
      resume tss taskSwitchingEnabled locks heap r ss fuel
        (← generalProtectionFaultHandler taskSwitchingEnabled locks heap errorCode r ss s)
    | .error _ => .error (.panic "Unhandled unknown interrupt: 0x%x!")

/-! ## The machine -/

/-- The scheduler, the locks, and the selectors of the code that runs. -/
structure Running where
  sched : State
  taskSwitchingEnabled : Bool
  locks : Locks
  cs : UInt64
  ss : UInt64
  /-- The frames that `scheduler_interrupt` has on its stack from the return of `task_switch` to its
  `iretq`, where interrupts are enabled again; the one it returns to first is at the head. -/
  pending : List TaskFrame

/-- What the code of a task does next. -/
inductive CodeOp where
  | schedule (isKernel : Bool) (newTask context : UInt64) (stackTop : Nat)
  | enableTaskSwitch
  /-- The current task takes `malloc_lock` in `alloc` or `free`, or gives it back. -/
  | malloc (locked : Bool)
  /-- The current task takes the screen to print, or gives it back. -/
  | screen (locked : Bool)
  | exit

inductive RunningOp where
  /-- An interrupt of the clock, or the `int $0x28` of `yield`. -/
  | interrupt (r : Registers)
  /-- The next step of the code that runs, the registers where `exit` or a handler yields, and how
  `free` ends in it. -/
  | code (op : CodeOp) (r : Registers) (heap : Except Stop Unit)

namespace Running

/-- `scheduler_interrupt` up to the return of `task_switch`. The frames of a task that is switched
out stay on its stack, and nothing comes back to them; the one that is switched in has none. If
tasks are not switched, the interrupt returns. -/
def interrupt (r : Registers) (k : Running) : Except Stop Running :=
  if k.taskSwitchingEnabled then do
    let s ← taskSwitch (r.pushed k.cs k.ss) r.fxsave k.sched
    return { k with
      sched := s
      cs := KERNEL_CODE_SELECTOR
      pending := if s.currentTaskId = k.sched.currentTaskId then s.tcb :: k.pending else [s.tcb] }
  else .ok k

/-- The end of `scheduler_interrupt`, with this frame. -/
def endInterrupt (tss : UInt64) (fuel : Nat) (r : Registers) (heap : Except Stop Unit) (k : Running)
    (tcb : TaskFrame) (rest : List TaskFrame) : Except Stop Running := do
  let s ← resume tss k.taskSwitchingEnabled k.locks heap r k.ss (fuel + 1) { k.sched with tcb }
  return { k with sched := s, cs := s.tcb.cs, ss := s.tcb.ss, pending := rest }

/-- A step of the code of a task. -/
def codeStep (exitAddress : UInt64) (r : Registers) (heap : Except Stop Unit) (k : Running) :
    CodeOp → Except Stop Running
  | .schedule isKernel newTask context stackTop => do
    let (_, sched) ← scheduleTask isKernel newTask context exitAddress stackTop k.sched
    -- `alloc` waits for the lock with interrupts disabled
    if k.locks.malloc then .error .hang else return { k with sched }
  | .enableTaskSwitch => .ok { k with taskSwitchingEnabled := true }
  | .malloc locked => .ok { k with locks := { k.locks with malloc := locked } }
  | .screen locked => .ok { k with locks := { k.locks with screen := locked } }
  | .exit => do
    let sched ← killWhile k.locks.malloc heap k.sched.currentTaskId k.sched
    -- `free` has unmapped the stack that the code runs on
    if (k.sched.stackOf k.sched.currentTaskId).isSome then .error (.fault "page fault")
    else if k.taskSwitchingEnabled then interrupt r { k with sched }
    else .error .hang

def step (tss exitAddress : UInt64) (fuel : Nat) (k : Running) : RunningOp → Except Stop Running
  | .interrupt r => k.interrupt r
  | .code op r heap =>
    match k.pending with
    | tcb :: rest => k.endInterrupt tss fuel r heap tcb rest
    | [] => k.codeStep exitAddress r heap op

/-- After `scheduler::init`, in the boot task. -/
def start : Running :=
  ⟨Scheduler.init, false, ⟨false, false⟩, KERNEL_CODE_SELECTOR, KERNEL_DATA_SELECTOR, []⟩

/-- Code of the kernel runs. -/
def InKernel (k : Running) : Prop := k.cs = KERNEL_CODE_SELECTOR ∧ k.ss = KERNEL_DATA_SELECTOR

/-- `task_switch` finds the current task running, if it is called. -/
def MaySwitch (k : Running) : Prop :=
  k.taskSwitchingEnabled = true → k.sched.stateOf k.sched.currentTaskId = .running

/-- Where `exit` ends. -/
def exitStop (heap : Except Stop Unit) (k : Running) : Stop :=
  if (k.sched.stackOf k.sched.currentTaskId).isSome then
    if k.locks.malloc then .hang
    else match heap with
      | .error e => e
      | .ok () => .fault "page fault"
  else if k.taskSwitchingEnabled then .assertion "current task is not running?"
  else .hang

/-- Where the handler of a fault at the `iretq` of a user task ends. -/
def userStop (heap : Except Stop Unit) (k : Running) : Stop :=
  if k.locks.screen || k.locks.malloc then .hang
  else match heap with
    | .error e => e
    | .ok () => .assertion "current task is not running?"

/-- An interrupt gets to the end of `scheduler_interrupt` if the current task is running, and from
there back to the code it interrupted or to the task it has picked, if that is no user task. `exit`
does not return. -/
def Stops (tss exitAddress : UInt64) (fuel : Nat) (k : Running) : RunningOp → Prop
  | .interrupt r =>
    (k.MaySwitch → ∃ k', k.step tss exitAddress fuel (.interrupt r) = .ok k') ∧
      (¬ k.MaySwitch → k.step tss exitAddress fuel (.interrupt r) =
        .error (.assertion "current task is not running?"))
  | .code op r heap =>
    match k.pending, op with
    | tcb :: _, _ =>
      (tcb.cs ≠ USER_CODE_SELECTOR →
          ∃ k', k.step tss exitAddress fuel (.code op r heap) = .ok k') ∧
        (tcb.cs = USER_CODE_SELECTOR →
          k.step tss exitAddress fuel (.code op r heap) = .error (k.userStop heap))
    | [], .exit => k.step tss exitAddress fuel (.code op r heap) = .error (k.exitStop heap)
    | [], _ => True

end Running

/-- All runs. -/
def runningMachine (tss exitAddress : UInt64) (fuel : Nat) : Machine Running RunningOp Stop :=
  ⟨Running.step tss exitAddress fuel⟩

/-! ## The two kinds of frames -/

def KernelFrame (frame : TaskFrame) : Prop :=
  frame.cs = KERNEL_CODE_SELECTOR ∧ frame.ss = KERNEL_DATA_SELECTOR

def UserFrame (frame : TaskFrame) : Prop :=
  frame.cs = USER_CODE_SELECTOR ∧ frame.ss = USER_DATA_SELECTOR

theorem initialFrame_kind (isKernel : Bool) (newTask context rsp : UInt64) :
    KernelFrame (initialFrame isKernel newTask context rsp) ∨
      UserFrame (initialFrame isKernel newTask context rsp) := by
  cases isKernel with
  | true => exact Or.inl ⟨rfl, rfl⟩
  | false => exact Or.inr ⟨rfl, rfl⟩

/-- `scheduler_interrupt` returns to a frame of the kernel, or to the one in the table of a user
task, which is the current one then and has a stack. -/
def State.Returns (s : State) (f : TaskFrame) : Prop :=
  KernelFrame f ∨ UserFrame f ∧ s.frameOf s.currentTaskId = f ∧ (s.stackOf s.currentTaskId).isSome

/-- The table, with the frames of the tasks that wait. -/
structure State.Frames (s : State) : Prop where
  current : s.currentTaskId < s.totalTasks
  small : s.totalTasks ≤ MAX_TASKS
  waiting : ∀ i, s.stateOf i = .waiting → KernelFrame (s.frameOf i) ∨ UserFrame (s.frameOf i)
  ownStack : ∀ i, s.stateOf i = .waiting → (s.stackOf i).isSome

structure Running.Inv (k : Running) : Prop where
  frames : k.sched.Frames
  inKernel : k.InKernel
  enabled : k.pending ≠ [] → k.taskSwitchingEnabled = true
  pending : ∀ f ∈ k.pending, k.sched.Returns f

section Steps

variable {tss exitAddress : UInt64} {fuel : Nat} {s s' : State} {k k' : Running}
  {r : Registers} {heap : Except Stop Unit} {locks : Locks} {tcb : TaskFrame}
  {fxsave : FxsaveData} {o : RunningOp}

theorem State.init_not_waiting (i : Nat) : Scheduler.init.stateOf i ≠ .waiting := by
  intro here
  by_cases boot : i = KERNEL_TASK_ID
  · simp [Scheduler.init, State.stateOf, boot] at here
  · simp [Scheduler.init, State.stateOf, boot, TaskContext.zeroed] at here

theorem Running.start_inv : Running.start.Inv where
  frames :=
    { current := by decide
      small := by decide
      waiting := fun i here => absurd here (State.init_not_waiting i)
      ownStack := fun i here => absurd here (State.init_not_waiting i) }
  inKernel := ⟨rfl, rfl⟩
  enabled := fun some_ => absurd rfl some_
  pending := fun f mem => absurd mem List.not_mem_nil

theorem State.Frames.scheduleTask {isKernel : Bool} {newTask context : UInt64} {stackTop id : Nat}
    (frames : s.Frames)
    (done : Scheduler.scheduleTask isKernel newTask context exitAddress stackTop s = .ok (id, s')) :
    s'.Frames := by
  obtain ⟨slot, bound, current, total, states, stacksOf, -, -⟩ := scheduleTask_cases done
  obtain ⟨built, -⟩ := scheduleTask_frames done
  have inside := frames.current
  have small := frames.small
  refine ⟨?_, ?_, fun i here => ?_, fun i here => ?_⟩
  · rw [current, total]
    split <;> omega
  · rw [total]
    split <;> omega
  · rw [built]
    rw [states] at here
    by_cases new : i = id
    · rw [new, Function.update_self]
      exact initialFrame_kind isKernel newTask context _
    · rw [Function.update_of_ne new] at here ⊢
      exact frames.waiting i here
  · rw [stacksOf]
    rw [states] at here
    by_cases new : i = id
    · rw [new, Function.update_self]
      rfl
    · rw [Function.update_of_ne new] at here ⊢
      exact frames.ownStack i here

/-- `task_switch` gives back the frame it was given, or one of a task that waited. -/
theorem State.Frames.taskSwitch (frames : s.Frames) (kernel : KernelFrame tcb)
    (done : Scheduler.taskSwitch tcb fxsave s = .ok s') :
    s'.Frames ∧ s'.Returns s'.tcb ∧
      (s'.currentTaskId = s.currentTaskId → ∀ f, s.Returns f → s'.Returns f) := by
  obtain ⟨running, total, stacksOf, -, -, states⟩ := taskSwitch_cases frames.current done
  have small := frames.small
  obtain ⟨same, framesOf, same_tcb, -⟩ | ⟨other, waited, framesOf, next, -, -⟩ :=
    taskSwitch_frames frames.current done
  · obtain ⟨-, -, states⟩ | ⟨-, ne, -, -⟩ := states
    · refine ⟨⟨?_, ?_, ?_, ?_⟩, ?_, fun _ f returns => ?_⟩
      · rw [same, total]
        exact frames.current
      · rw [total]
        exact small
      · rw [states, framesOf]
        exact frames.waiting
      · rw [states, stacksOf]
        exact frames.ownStack
      · rw [same_tcb]
        exact Or.inl kernel
      · unfold State.Returns
        rw [framesOf, stacksOf, same]
        exact returns
    · exact absurd same ne
  · obtain ⟨-, same, -⟩ | ⟨inside, -, -, states⟩ := states
    · exact absurd same other
    · have old : ∀ i, s'.stateOf i = .waiting → s.stateOf i = .waiting ∧ i ≠ s.currentTaskId := by
        intro i here
        rw [states] at here
        have notNext : i ≠ s'.currentTaskId := by
          rintro rfl
          rw [Function.update_self] at here
          cases here
        rw [Function.update_of_ne notNext] at here
        refine ⟨here, ?_⟩
        rintro rfl
        cases running.symm.trans here
      refine ⟨⟨?_, ?_, fun i here => ?_, fun i here => ?_⟩, ?_, fun same => absurd same other⟩
      · rw [total]
        exact inside
      · rw [total]
        exact small
      · obtain ⟨waiting, notOld⟩ := old i here
        rw [framesOf, Function.update_of_ne notOld]
        exact frames.waiting i waiting
      · rw [stacksOf]
        exact frames.ownStack i (old i here).1
      · obtain kernel | user := frames.waiting _ waited
        · rw [next]
          exact Or.inl kernel
        · unfold State.Returns
          rw [next, framesOf, Function.update_of_ne other, stacksOf]
          exact Or.inr ⟨user, rfl, frames.ownStack _ waited⟩

theorem State.Frames.kill {id : Nat} (frames : s.Frames) (done : Scheduler.kill id s = .ok s') :
    s'.Frames := by
  obtain ⟨-, current, total, states, stacksOf, -, -⟩ := kill_cases done
  obtain ⟨same, -⟩ := kill_frames done
  have old : ∀ i, s'.stateOf i = .waiting → s.stateOf i = .waiting := by
    intro i here
    rw [states] at here
    by_cases this : i = id
    · rw [this, Function.update_self] at here
      cases here
    · rwa [Function.update_of_ne this] at here
  refine ⟨?_, ?_, fun i here => ?_, fun i here => ?_⟩
  · rw [current, total]
    exact frames.current
  · rw [total]
    exact frames.small
  · rw [same]
    exact frames.waiting i (old i here)
  · rw [stacksOf]
    exact frames.ownStack i (old i here)

/-- What `exit` and the handler begin with. -/
theorem State.Frames.killCurrent (frames : s.Frames) :
    ∃ killed, Scheduler.kill s.currentTaskId s = .ok killed ∧ killed.Frames ∧
      killed.stateOf killed.currentTaskId = .killed := by
  have inside : s.currentTaskId < MAX_TASKS := Nat.lt_of_lt_of_le frames.current frames.small
  obtain ⟨killed, done⟩ : ∃ killed, Scheduler.kill s.currentTaskId s = .ok killed := by
    unfold Scheduler.kill
    rw [if_pos inside]
    split
    · exact ⟨_, rfl⟩
    · exact ⟨_, rfl⟩
  obtain ⟨-, current, -, states, -, -, -⟩ := kill_cases done
  refine ⟨killed, done, frames.kill done, ?_⟩
  rw [states, current, Function.update_self]

/-- The code that has killed its task does not switch away from it. -/
theorem State.Frames.taskSwitch_killed (frames : s.Frames)
    (dead : s.stateOf s.currentTaskId = .killed) (tcb : TaskFrame) (fxsave : FxsaveData) :
    Scheduler.taskSwitch tcb fxsave s = .error (.assertion "current task is not running?") := by
  obtain ⟨alive, -⟩ | ⟨-, stops⟩ := taskSwitch_outcome tcb fxsave frames.current
  · cases dead.symm.trans alive
  · exact stops

theorem resume_kernel {enabled : Bool} {ss : UInt64} (kernel : KernelFrame s.tcb) :
    resume tss enabled locks heap r ss (fuel + 1) s = .ok s := by
  unfold resume
  rw [iretq_kernel tss kernel.1 kernel.2]

/-- The handler kills the task, and yields as the task that it has killed. -/
theorem resume_user {ss : UInt64} (frames : s.Frames) (user : UserFrame s.tcb)
    (loaded : s.frameOf s.currentTaskId = s.tcb) (stack : (s.stackOf s.currentTaskId).isSome) :
    resume tss true locks heap r ss (fuel + 1) s =
      .error (if locks.screen || locks.malloc then .hang
        else match heap with
          | .error e => e
          | .ok () => .assertion "current task is not running?") := by
  have isUser : kassert (currentTaskIsUser s) "current task is not user?" = .ok () := by
    have cs : (s.frameOf s.currentTaskId).cs = USER_CODE_SELECTOR := by
      rw [loaded]
      exact user.1
    unfold currentTaskIsUser
    rw [show (s.tasks s.currentTaskId).frame.cs = USER_CODE_SELECTOR from cs]
    rfl
  have selector : SelectorErrorCode.getSelector USER_CODE_SELECTOR = USER_CODE_SELECTOR := by decide
  obtain ⟨killed, kill, frames', dead⟩ := frames.killCurrent
  have yields := frames'.taskSwitch_killed dead (r.pushed KERNEL_CODE_SELECTOR ss) r.fxsave
  obtain ⟨malloc, screen⟩ := locks
  unfold resume
  rw [iretq_user tss user.1]
  dsimp only
  unfold generalProtectionFaultHandler killWhile
  dsimp only
  cases screen with
  | true => rfl
  | false =>
      rw [if_neg Bool.false_ne_true, if_pos selector, isUser, ok_bind, if_pos stack, Bool.false_or]
      cases malloc with
      | true => rfl
      | false =>
          rw [if_neg Bool.false_ne_true, if_neg Bool.false_ne_true]
          cases heap with
          | error e => rfl
          | ok done =>
              rw [ok_bind, kill, ok_bind]
              unfold handlerYield
              rw [if_pos rfl, yields]
              rfl

/-- An interrupt that finds the current task running. -/
theorem Running.Inv.interrupt (inv : k.Inv) (r : Registers) :
    (∃ k', k.interrupt r = .ok k' ∧ k'.Inv ∧ k.MaySwitch) ∨
      (k.interrupt r = .error (.assertion "current task is not running?") ∧ ¬ k.MaySwitch) := by
  have kernel : KernelFrame (r.pushed k.cs k.ss) := inv.inKernel
  unfold Running.interrupt
  by_cases enabled : k.taskSwitchingEnabled = true
  · rw [if_pos enabled]
    obtain ⟨running, s, switched⟩ | ⟨notRunning, stops⟩ :=
      taskSwitch_outcome (r.pushed k.cs k.ss) r.fxsave inv.frames.current
    · obtain ⟨frames, returns, kept⟩ := inv.frames.taskSwitch kernel switched
      rw [switched, ok_bind]
      refine Or.inl ⟨_, rfl, ⟨frames, ⟨rfl, inv.inKernel.2⟩, fun _ => enabled, ?_⟩,
        fun _ => running⟩
      dsimp only
      split
      · next same =>
          exact List.forall_mem_cons.mpr ⟨returns, fun f mem => kept same f (inv.pending f mem)⟩
      · exact List.forall_mem_singleton.mpr returns
    · rw [stops]
      exact Or.inr ⟨rfl, fun may => notRunning (may enabled)⟩
  · rw [if_neg enabled]
    exact Or.inl ⟨k, rfl, inv, fun on => absurd on enabled⟩

/-- The end of an interrupt. -/
theorem Running.Inv.endInterrupt (tss : UInt64) (fuel : Nat) (r : Registers)
    (heap : Except Stop Unit) {rest : List TaskFrame} (inv : k.Inv)
    (pending : k.pending = tcb :: rest) :
    (tcb.cs ≠ USER_CODE_SELECTOR ∧
        ∃ k', k.endInterrupt tss fuel r heap tcb rest = .ok k' ∧ k'.Inv) ∨
      (tcb.cs = USER_CODE_SELECTOR ∧
        k.endInterrupt tss fuel r heap tcb rest = .error (k.userStop heap)) := by
  have all := inv.pending
  rw [pending] at all
  obtain ⟨returns, later⟩ := List.forall_mem_cons.mp all
  have enabled : k.taskSwitchingEnabled = true := inv.enabled (by rw [pending]; exact nofun)
  have frames : State.Frames { k.sched with tcb } :=
    ⟨inv.frames.current, inv.frames.small, inv.frames.waiting, inv.frames.ownStack⟩
  unfold Running.endInterrupt
  obtain kernel | ⟨user, loaded, stack⟩ := returns
  · have notUser : tcb.cs ≠ USER_CODE_SELECTOR := by
      rw [kernel.1]
      decide
    rw [resume_kernel kernel]
    exact Or.inl ⟨notUser, _, rfl, frames, kernel, fun _ => enabled, later⟩
  · rw [enabled, resume_user frames user loaded stack]
    exact Or.inr ⟨user.1, rfl⟩

/-- `exit` stops, with or without a stack of its own. -/
theorem Running.Inv.exits (inv : k.Inv) (r : Registers) (heap : Except Stop Unit) :
    k.codeStep exitAddress r heap .exit = .error (k.exitStop heap) := by
  obtain ⟨killed, kill, frames, dead⟩ := inv.frames.killCurrent
  unfold Running.codeStep Running.exitStop killWhile
  dsimp only
  by_cases stack : (k.sched.stackOf k.sched.currentTaskId).isSome = true
  · rw [if_pos stack, if_pos stack]
    cases locked : k.locks.malloc with
    | true => rfl
    | false =>
        rw [if_neg Bool.false_ne_true, if_neg Bool.false_ne_true]
        cases heap with
        | error e => rfl
        | ok done =>
            rw [ok_bind, kill, ok_bind, if_pos stack]
  · rw [if_neg stack, kill, ok_bind, if_neg stack, if_neg stack]
    by_cases enabled : k.taskSwitchingEnabled = true
    · rw [if_pos enabled, if_pos enabled]
      unfold Running.interrupt
      rw [if_pos enabled]
      dsimp only
      rw [frames.taskSwitch_killed dead]
      rfl
    · rw [if_neg enabled, if_neg enabled]

theorem Running.Inv.step (inv : k.Inv) (stepped : k.step tss exitAddress fuel o = .ok k') :
    k'.Inv := by
  unfold Running.step at stepped
  cases o with
  | interrupt r =>
      obtain ⟨after, done, inv', -⟩ | ⟨stops, -⟩ := inv.interrupt r
      · cases done.symm.trans stepped
        exact inv'
      · cases stops.symm.trans stepped
  | code op r heap =>
      dsimp only at stepped
      split at stepped
      · next tcb rest pending =>
          obtain ⟨-, after, done, inv'⟩ | ⟨-, stops⟩ :=
            inv.endInterrupt tss fuel r heap pending
          · cases done.symm.trans stepped
            exact inv'
          · cases stops.symm.trans stepped
      · next idle =>
          cases op with
          | schedule isKernel newTask context stackTop =>
              obtain ⟨⟨id, sched⟩, scheduled, done⟩ := bind_eq_ok stepped
              dsimp only at done
              split at done
              · cases done
              · cases done
                refine ⟨inv.frames.scheduleTask scheduled, inv.inKernel, inv.enabled, ?_⟩
                dsimp only
                rw [idle]
                exact fun f mem => absurd mem List.not_mem_nil
          | enableTaskSwitch =>
              cases stepped
              exact ⟨inv.frames, inv.inKernel, fun _ => rfl, inv.pending⟩
          | malloc locked | screen locked =>
              cases stepped
              exact ⟨inv.frames, inv.inKernel, inv.enabled, inv.pending⟩
          | exit => cases (inv.exits r heap).symm.trans stepped

theorem Running.Inv.stops (inv : k.Inv) (o : RunningOp) : k.Stops tss exitAddress fuel o := by
  cases o with
  | interrupt r =>
      obtain ⟨after, done, -, may⟩ | ⟨stops, never⟩ := inv.interrupt r
      · exact ⟨fun _ => ⟨after, done⟩, fun never => absurd may never⟩
      · exact ⟨fun may => absurd may never, fun _ => stops⟩
  | code op r heap =>
      unfold Running.Stops Running.step
      dsimp only
      cases pending : k.pending with
      | cons tcb rest =>
          obtain ⟨kernel, after, done, -⟩ | ⟨user, stops⟩ :=
            inv.endInterrupt tss fuel r heap pending
          · exact ⟨fun _ => ⟨after, done⟩, fun user => absurd user kernel⟩
          · exact ⟨fun kernel => absurd user kernel, fun _ => stops⟩
      | nil =>
          cases op with
          | schedule isKernel newTask context stackTop => trivial
          | enableTaskSwitch => trivial
          | malloc locked | screen locked => trivial
          | exit => exact inv.exits r heap

end Steps

/-- No user task ever runs: when it is picked, the kernel stops, unless another interrupt comes
before the `iretq` to it. -/
theorem user_tasks_stop (tss exitAddress : UInt64) (fuel : Nat) (ops : List RunningOp) :
    (runningMachine tss exitAddress fuel).Always Running.InKernel Running.start ops ∧
      (runningMachine tss exitAddress fuel).EachStep
        (fun k o => k.Stops tss exitAddress fuel o) Running.start ops :=
  ⟨Machine.always_of_inv (fun _ _ _ (inv : Running.Inv _) _ step => inv.step step)
      (fun _ inv => inv.inKernel) Running.start_inv Machine.eachStep_true,
    Machine.eachStep_of_inv (fun _ _ _ (inv : Running.Inv _) _ step => inv.step step)
      (fun _ o inv _ => inv.stops o) Running.start_inv Machine.eachStep_true⟩

end Tyleros.Scheduler
