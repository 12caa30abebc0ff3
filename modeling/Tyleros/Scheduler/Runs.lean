import Tyleros.Scheduler.Model

/-!
# Runs of the scheduler

Operations are the calls the kernel makes: `schedule_kernel_task` and
`schedule_user_task`, a scheduler interrupt (timer tick or `yield`), `kill(id)`,
and `exit()`, which is `kill(current_task_id)` followed by the next scheduler
interrupt. A `History` is the scheduler state together with what the calls made
so far say about it: which slots hold a task that was scheduled and not killed
since, and whether an `exit()` awaits its `task_switch`.

`task_switch` marks the task it switches to as running and leaves the one it
switches away from marked running as well, and it asserts that its caller is
marked running although `exit()` has just marked it killed. The two main results
say exactly which runs are spared: those in which no switch ever takes place
(`oneRunning_always_iff`), and those in which no `task_switch` follows an
`exit()` (`exit_hands_over_iff`).
-/

namespace Tyleros.Scheduler

open Tyleros.Lib

/-- A call of the scheduler's interface. -/
inductive Op where
  /-- `schedule_kernel_task` or `schedule_user_task`; `stackTop` is the address
  `alloc::alloc` returns for the stack. -/
  | schedule (isKernel : Bool) (newTask context : UInt64) (stackTop : Nat)
  /-- A scheduler interrupt, with the context it interrupts. -/
  | taskSwitch (tcb : TaskFrame) (fxsave : FxsaveData)
  | kill (id : Nat)
  /-- `exit()` up to the scheduler interrupt its `yield` triggers. -/
  | exit

/-- The scheduler state and what the calls so far say about it. -/
structure History where
  sched : State
  /-- The slots holding a task that was scheduled and not killed since. -/
  alive : Nat → Bool
  /-- The current task has called `exit()` and was not switched away from yet. -/
  exiting : Bool

namespace History

/-- After `scheduler::init`: the boot task is the only one. -/
def init : History := ⟨Scheduler.init, Function.update (fun _ => false) KERNEL_TASK_ID true, false⟩

/-- `kill(id)`. -/
def kill (h : History) (id : Nat) (exiting : Bool) : Except Stop History := do
  let s ← Scheduler.kill id h.sched
  return ⟨s, Function.update h.alive id false, exiting⟩

/-- One call. -/
def step (exitAddress : UInt64) (h : History) : Op → Except Stop History
  | .schedule isKernel newTask context stackTop => do
      let (id, s) ← scheduleTask isKernel newTask context exitAddress stackTop h.sched
      return ⟨s, Function.update h.alive id true, h.exiting⟩
  | .taskSwitch tcb fxsave => do
      let s ← Scheduler.taskSwitch tcb fxsave h.sched
      return ⟨s, h.alive, false⟩
  | .kill id => h.kill id h.exiting
  | .exit => h.kill h.sched.currentTaskId true

end History

/-- The scheduler as a machine. -/
def machine (exitAddress : UInt64) : Machine History Op Stop := ⟨History.step exitAddress⟩

variable {exitAddress : UInt64} {h h' : History} {ops : List Op}

/-! ## One step -/

theorem History.kill_cases {id : Nat} {exiting : Bool} (hk : h.kill id exiting = .ok h') :
    Scheduler.kill id h.sched = .ok h'.sched ∧ h'.alive = Function.update h.alive id false ∧
      h'.exiting = exiting := by
  obtain ⟨s, killed, hk⟩ := bind_eq_ok hk
  cases hk
  exact ⟨killed, rfl, rfl⟩

theorem History.schedule_cases {isKernel : Bool} {newTask context : UInt64} {stackTop : Nat}
    (hs : h.step exitAddress (.schedule isKernel newTask context stackTop) = .ok h') :
    ∃ id, scheduleTask isKernel newTask context exitAddress stackTop h.sched =
        .ok (id, h'.sched) ∧
      h'.alive = Function.update h.alive id true ∧ h'.exiting = h.exiting := by
  obtain ⟨⟨id, s⟩, scheduled, hs⟩ := bind_eq_ok hs
  cases hs
  exact ⟨id, scheduled, rfl, rfl⟩

theorem History.taskSwitch_cases {tcb : TaskFrame} {fxsave : FxsaveData}
    (hs : h.step exitAddress (.taskSwitch tcb fxsave) = .ok h') :
    Scheduler.taskSwitch tcb fxsave h.sched = .ok h'.sched ∧ h'.alive = h.alive ∧
      h'.exiting = false := by
  obtain ⟨s, switched, hs⟩ := bind_eq_ok hs
  cases hs
  exact ⟨switched, rfl, rfl⟩

/-- The current task is in the table, and the part of the table behind
`total_tasks` is untouched. -/
structure History.Wf (h : History) : Prop where
  current : h.sched.currentTaskId < h.sched.totalTasks
  total : h.sched.totalTasks ≤ MAX_TASKS
  killed : ∀ i, h.sched.totalTasks ≤ i → h.sched.stateOf i = .killed
  alive : ∀ i, h.sched.totalTasks ≤ i → h.alive i = false
  stack : ∀ i, h.sched.totalTasks ≤ i → h.sched.stackOf i = none

theorem History.init_wf : History.init.Wf := by
  have pos : ∀ i, 1 ≤ i → i ≠ KERNEL_TASK_ID := fun i le eq => absurd le (by rw [eq]; decide)
  refine ⟨by decide, by decide, fun i le => ?_, fun i le => ?_, fun i le => ?_⟩
  · simp [History.init, Scheduler.init, State.stateOf, pos i le, TaskContext.zeroed]
  · simp [History.init, pos i le]
  · simp [History.init, Scheduler.init, State.stackOf, pos i le, TaskContext.zeroed]

/-- The slot `schedule_task` fills is free, and inside the table afterwards. -/
theorem History.Wf.nextTaskId_free (wf : h.Wf) :
    h.sched.stateOf (nextTaskId h.sched) = .killed ∧
      nextTaskId h.sched ≤ h.sched.totalTasks := by
  rcases nextTaskId_cases h.sched with ⟨bound, killed⟩ | eq
  · exact ⟨killed, Nat.le_of_lt bound⟩
  · rw [eq]
    exact ⟨wf.killed _ (Nat.le_refl _), Nat.le_refl _⟩

theorem History.Wf.kill {id : Nat} {exiting : Bool} (wf : h.Wf)
    (hk : h.kill id exiting = .ok h') : h'.Wf := by
  obtain ⟨killed, alive, -⟩ := History.kill_cases hk
  obtain ⟨-, current, total, states, bases, -, -⟩ := Scheduler.kill_cases killed
  refine ⟨by rw [current, total]; exact wf.current, by rw [total]; exact wf.total,
    fun i le => ?_, fun i le => ?_, fun i le => ?_⟩
  · rw [states, Function.update_apply]
    split
    · rfl
    · exact wf.killed i (total ▸ le)
  · rw [alive, Function.update_apply]
    split
    · rfl
    · exact wf.alive i (total ▸ le)
  · rw [bases]
    exact wf.stack i (total ▸ le)

/-- Every call keeps the table well formed. -/
theorem History.Wf.step {o : Op} (wf : h.Wf) (hs : h.step exitAddress o = .ok h') : h'.Wf := by
  cases o with
  | schedule isKernel newTask context stackTop =>
      obtain ⟨id, scheduled, alive, -⟩ := History.schedule_cases hs
      obtain ⟨rfl, bound, current, total, states, bases, -, -⟩ := scheduleTask_cases scheduled
      obtain ⟨-, le⟩ := wf.nextTaskId_free
      have grows : h.sched.totalTasks ≤ h'.sched.totalTasks ∧
          nextTaskId h.sched < h'.sched.totalTasks ∧ h'.sched.totalTasks ≤ MAX_TASKS := by
        have := wf.total
        rw [total]
        split <;> omega
      have other : ∀ i, h'.sched.totalTasks ≤ i → i ≠ nextTaskId h.sched := by omega
      refine ⟨by have := wf.current; omega, grows.2.2, fun i le => ?_, fun i le => ?_,
        fun i le => ?_⟩
      · rw [states, Function.update_of_ne (other i le)]
        exact wf.killed i (by omega)
      · rw [alive, Function.update_of_ne (other i le)]
        exact wf.alive i (by omega)
      · rw [bases, Function.update_of_ne (other i le)]
        exact wf.stack i (by omega)
  | taskSwitch tcb fxsave =>
      obtain ⟨switched, alive, -⟩ := History.taskSwitch_cases hs
      obtain ⟨-, total, bases, -, -, outcome⟩ := Scheduler.taskSwitch_cases wf.current switched
      rcases outcome with ⟨-, current, states⟩ | ⟨current, -, -, states⟩
      · refine ⟨by rw [current, total]; exact wf.current, by rw [total]; exact wf.total,
          fun i le => ?_, fun i le => ?_, fun i le => ?_⟩
        · rw [states]
          exact wf.killed i (total ▸ le)
        · rw [alive]
          exact wf.alive i (total ▸ le)
        · rw [bases]
          exact wf.stack i (total ▸ le)
      · refine ⟨by rw [total]; exact current, by rw [total]; exact wf.total,
          fun i le => ?_, fun i le => ?_, fun i le => ?_⟩
        · rw [total] at le
          rw [states, Function.update_of_ne (by omega)]
          exact wf.killed i le
        · rw [alive]
          exact wf.alive i (total ▸ le)
        · rw [bases]
          exact wf.stack i (total ▸ le)
  | kill id => exact wf.kill hs
  | exit => exact wf.kill hs

/-! ## One running task -/

/-- Exactly the current slot is running, and every other task that was scheduled
and not killed since is waiting. -/
structure OneRunning (h : History) : Prop where
  running : ∀ i, h.sched.stateOf i = .running ↔ i = h.sched.currentTaskId
  waiting : ∀ i, h.alive i = true → i ≠ h.sched.currentTaskId → h.sched.stateOf i = .waiting

/-- The calls considered here: no `exit()`, and `kill` only of other tasks. -/
def KillsOther (h : History) : Op → Prop
  | .kill id => id ≠ h.sched.currentTaskId
  | .exit => False
  | _ => True

/-- A scheduler interrupt finds no other task waiting, so it switches nowhere. -/
def SwitchesNowhere (h : History) : Op → Prop
  | .taskSwitch _ _ => h.sched.NobodyWaits
  | _ => True

theorem init_oneRunning : OneRunning History.init := by
  constructor
  · intro i
    by_cases eq : i = KERNEL_TASK_ID
    · simp [History.init, Scheduler.init, State.stateOf, eq]
    · simp [History.init, Scheduler.init, State.stateOf, eq, TaskContext.zeroed]
  · intro i alive ne
    by_cases eq : i = KERNEL_TASK_ID
    · exact absurd eq ne
    · simp [History.init, eq] at alive

/-- One slot that is not the current one is written, with a state that fits. -/
theorem OneRunning.update (one : OneRunning h) {id : Nat} {state : TaskState} {living : Bool}
    (other : id ≠ h.sched.currentTaskId) (current : h'.sched.currentTaskId = h.sched.currentTaskId)
    (states : h'.sched.stateOf = Function.update h.sched.stateOf id state)
    (alive : h'.alive = Function.update h.alive id living) (stands : state ≠ .running)
    (waits : living = true → state = .waiting) : OneRunning h' := by
  constructor
  · intro i
    rw [states, current, Function.update_apply]
    split
    · next eq => simpa [eq, stands] using other
    · exact one.running i
  · intro i lives ne
    rw [current] at ne
    rw [alive, Function.update_apply] at lives
    rw [states, Function.update_apply]
    split at lives
    · next eq => rw [if_pos eq, waits lives]
    · next neId =>
        rw [if_neg neId]
        exact one.waiting i lives ne

theorem OneRunning.schedule {isKernel : Bool} {newTask context : UInt64} {stackTop : Nat}
    (wf : h.Wf) (one : OneRunning h)
    (hs : h.step exitAddress (.schedule isKernel newTask context stackTop) = .ok h') :
    OneRunning h' := by
  obtain ⟨id, scheduled, alive, -⟩ := History.schedule_cases hs
  obtain ⟨rfl, -, current, -, states, -, -, -⟩ := scheduleTask_cases scheduled
  obtain ⟨free, -⟩ := wf.nextTaskId_free
  have other : nextTaskId h.sched ≠ h.sched.currentTaskId := by
    intro eq
    have running := (one.running (nextTaskId h.sched)).mpr eq
    rw [free] at running
    cases running
  exact one.update other current states alive (by decide) fun _ => rfl

theorem OneRunning.kill {id : Nat} {exiting : Bool} (one : OneRunning h)
    (other : id ≠ h.sched.currentTaskId) (hk : h.kill id exiting = .ok h') : OneRunning h' := by
  obtain ⟨killed, alive, -⟩ := History.kill_cases hk
  obtain ⟨-, current, -, states, -, -, -⟩ := Scheduler.kill_cases killed
  exact one.update other current states alive (by decide) fun lives => absurd lives (by decide)

/-- An interrupt keeps the invariant exactly if it switches nowhere: a switch
leaves the slot it comes from marked running. -/
theorem OneRunning.taskSwitch_iff (exitAddress : UInt64) (tcb : TaskFrame) (fxsave : FxsaveData) (wf : h.Wf)
    (one : OneRunning h) :
    h.sched.NobodyWaits ↔
      ∀ h', h.step exitAddress (.taskSwitch tcb fxsave) = .ok h' → OneRunning h' := by
  have running : h.sched.stateOf h.sched.currentTaskId = .running := (one.running _).mpr rfl
  constructor
  · intro nobody h' hs
    obtain ⟨switched, alive, -⟩ := History.taskSwitch_cases hs
    obtain ⟨-, -, -, -, -, outcome⟩ := Scheduler.taskSwitch_cases wf.current switched
    rcases outcome with ⟨-, current, states⟩ | ⟨bound, ne, waiting, -⟩
    · refine ⟨fun i => ?_, fun i living ne => ?_⟩
      · rw [states, current]
        exact one.running i
      · rw [alive] at living
        rw [current] at ne
        rw [states]
        exact one.waiting i living ne
    · exact absurd waiting (nobody _ bound ne)
  · intro stays
    rcases taskSwitch_outcome tcb fxsave wf.current with ⟨-, s', switched⟩ | ⟨notRunning, -⟩
    · have hs : h.step exitAddress (.taskSwitch tcb fxsave) = .ok ⟨s', h.alive, false⟩ := by
        simp only [History.step, switched]
        rfl
      have one' := stays _ hs
      obtain ⟨-, -, -, -, -, outcome⟩ := Scheduler.taskSwitch_cases wf.current switched
      rcases outcome with ⟨nobody, -, -⟩ | ⟨-, ne, -, states⟩
      · exact nobody
      · have old : s'.stateOf h.sched.currentTaskId = .running := by
          rw [states, Function.update_of_ne ne.symm]
          exact running
        exact absurd ((one'.running _).mp old) ne.symm
    · exact absurd running notRunning

/-- Along every run of scheduling, switching and killing other tasks, exactly
the current task is marked running and all other live tasks are waiting, in
every state, exactly if no scheduler interrupt ever finds another task to switch
to. -/
theorem oneRunning_always_iff (exitAddress : UInt64) (ops : List Op)
    (legal : (machine exitAddress).EachStep KillsOther History.init ops) :
    (machine exitAddress).Always OneRunning History.init ops ↔
      (machine exitAddress).EachStep SwitchesNowhere History.init ops := by
  refine Machine.always_iff_eachStep (fun h o h' wf _ hs => History.Wf.step wf hs) ?_
    History.init_wf init_oneRunning legal
  intro h o wf one other
  cases o with
  | schedule isKernel newTask context stackTop =>
      exact ⟨fun _ h' hs => one.schedule wf hs, fun _ => trivial⟩
  | taskSwitch tcb fxsave => exact one.taskSwitch_iff exitAddress tcb fxsave wf
  | kill id => exact ⟨fun _ h' hs => one.kill other hs, fun _ => trivial⟩
  | exit => exact other.elim

/-- The FPU contents used in the concrete runs below. -/
def blankFxsave : FxsaveData := Vector.replicate 512 0

/-- A run that meets the condition: the boot task is interrupted while alone,
then schedules a task and kills it. -/
theorem oneRunning_always_iff_alone :
    (machine 0).Always OneRunning History.init
      [.taskSwitch {} blankFxsave, .schedule true 0x1000 0 0x4000, .kill 1] := by
  refine (oneRunning_always_iff 0 _ ?_).mpr ?_
  · refine ⟨trivial, fun h hs => ⟨trivial, fun h' hs' => ⟨?_, fun _ _ => trivial⟩⟩⟩
    cases hs
    cases hs'
    show 1 ≠ 0
    decide
  · refine ⟨?_, fun h hs => ⟨trivial, fun h hs => ⟨trivial, fun _ _ => trivial⟩⟩⟩
    show History.init.sched.NobodyWaits
    decide

/-- One task is scheduled and the next tick switches to it: both slots are
marked running. -/
theorem oneRunning_fails_after_switch :
    (machine 0).EachStep KillsOther History.init
        [.schedule true 0x1000 0 0x4000, .taskSwitch {} blankFxsave] ∧
      ¬ (machine 0).Always OneRunning History.init
        [.schedule true 0x1000 0 0x4000, .taskSwitch {} blankFxsave] := by
  refine ⟨⟨trivial, fun h hs => ⟨trivial, fun _ _ => trivial⟩⟩, fun always => ?_⟩
  have last := (always.2 _ rfl).2 _ rfl
  have old := (Machine.Always.head last).running 0
  exact absurd (old.mp (by decide)) (by decide)

/-! ## Leaving through `exit()` -/

/-- The calls considered here: tasks terminate through `exit()` only. -/
def ExitsOnly (_ : History) : Op → Prop
  | .kill _ => False
  | _ => True

/-- What is expected of a scheduler interrupt: its assertion holds; after an
`exit()`, with another task waiting, it hands the CPU to a waiting task; and it
never selects a slot whose task has terminated and was not scheduled again. -/
def HandsOver (exitAddress : UInt64) (h : History) : Op → Prop
  | .taskSwitch tcb fxsave =>
      h.step exitAddress (.taskSwitch tcb fxsave) ≠
          .error (.assertion "current task is not running?") ∧
        (h.exiting = true → ¬ h.sched.NobodyWaits →
          ∃ h', h.step exitAddress (.taskSwitch tcb fxsave) = .ok h' ∧
            h'.sched.currentTaskId ≠ h.sched.currentTaskId ∧
            h.sched.stateOf h'.sched.currentTaskId = .waiting) ∧
        (∀ h', h.step exitAddress (.taskSwitch tcb fxsave) = .ok h' →
          h'.sched.currentTaskId ≠ h.sched.currentTaskId →
          h.alive h'.sched.currentTaskId = true)
  | _ => True

/-- The interrupt does not come after an `exit()`. -/
def NotExiting (h : History) : Op → Prop
  | .taskSwitch _ _ => h.exiting = false
  | _ => True

/-- The current slot is marked running exactly as long as its task has not called
`exit()`, and only slots with a live task wait. -/
structure ExitInv (h : History) : Prop where
  wf : h.Wf
  running : h.sched.stateOf h.sched.currentTaskId = .running ↔ h.exiting = false
  waiting : ∀ i, h.sched.stateOf i = .waiting → h.alive i = true

theorem init_exitInv : ExitInv History.init := by
  refine ⟨History.init_wf, by decide, fun i waiting => ?_⟩
  by_cases eq : i = KERNEL_TASK_ID
  · simp [History.init, eq]
  · simp [History.init, Scheduler.init, State.stateOf, eq, TaskContext.zeroed] at waiting

theorem ExitInv.step {o : Op} (inv : ExitInv h) (legal : ExitsOnly h o)
    (hs : h.step exitAddress o = .ok h') : ExitInv h' := by
  refine ⟨inv.wf.step hs, ?_, ?_⟩
  · cases o with
    | schedule isKernel newTask context stackTop =>
        obtain ⟨id, scheduled, -, exiting⟩ := History.schedule_cases hs
        obtain ⟨rfl, -, current, -, states, -, -, -⟩ := scheduleTask_cases scheduled
        obtain ⟨free, -⟩ := inv.wf.nextTaskId_free
        rw [current, states, exiting, Function.update_apply, ← inv.running]
        split
        · next eq => rw [eq, free]; decide
        · rfl
    | taskSwitch tcb fxsave =>
        obtain ⟨switched, -, exiting⟩ := History.taskSwitch_cases hs
        obtain ⟨running, -, -, -, -, outcome⟩ :=
          Scheduler.taskSwitch_cases inv.wf.current switched
        rw [exiting]
        rcases outcome with ⟨-, current, states⟩ | ⟨-, -, -, states⟩
        · rw [current, states, running]
          decide
        · rw [states, Function.update_self]
          decide
    | kill id => exact legal.elim
    | exit =>
        obtain ⟨killed, -, exiting⟩ := History.kill_cases hs
        obtain ⟨-, current, -, states, -, -, -⟩ := Scheduler.kill_cases killed
        rw [current, states, exiting, Function.update_self]
        decide
  · cases o with
    | schedule isKernel newTask context stackTop =>
        obtain ⟨id, scheduled, alive, -⟩ := History.schedule_cases hs
        obtain ⟨rfl, -, -, -, states, -, -, -⟩ := scheduleTask_cases scheduled
        intro i waiting
        rw [alive, Function.update_apply]
        rw [states, Function.update_apply] at waiting
        split
        · rfl
        · next ne =>
            rw [if_neg ne] at waiting
            exact inv.waiting i waiting
    | taskSwitch tcb fxsave =>
        obtain ⟨switched, alive, -⟩ := History.taskSwitch_cases hs
        obtain ⟨-, -, -, -, -, outcome⟩ := Scheduler.taskSwitch_cases inv.wf.current switched
        intro i waiting
        rw [alive]
        rcases outcome with ⟨-, -, states⟩ | ⟨-, -, -, states⟩
        · rw [states] at waiting
          exact inv.waiting i waiting
        · rw [states, Function.update_apply] at waiting
          split at waiting
          · cases waiting
          · exact inv.waiting i waiting
    | kill id => exact legal.elim
    | exit =>
        obtain ⟨killed, alive, -⟩ := History.kill_cases hs
        obtain ⟨-, -, -, states, -, -, -⟩ := Scheduler.kill_cases killed
        intro i waiting
        rw [states, Function.update_apply] at waiting
        rw [alive, Function.update_apply]
        split at waiting
        · cases waiting
        · next ne =>
            rw [if_neg ne]
            exact inv.waiting i waiting

/-- An interrupt meets the expectation exactly if it does not come after an
`exit()`; if it does, it trips the assertion whoever waits. -/
theorem ExitInv.handsOver_iff (inv : ExitInv h) (o : Op) :
    HandsOver exitAddress h o ↔ NotExiting h o := by
  cases o with
  | schedule isKernel newTask context stackTop => exact Iff.rfl
  | kill id => exact Iff.rfl
  | exit => exact Iff.rfl
  | taskSwitch tcb fxsave =>
      rcases taskSwitch_outcome tcb fxsave inv.wf.current with
        ⟨running, s', switched⟩ | ⟨notRunning, failed⟩
      · have alive := inv.running.mp running
        refine ⟨fun _ => alive, fun _ => ⟨?_, fun exiting => ?_, fun h' hs ne => ?_⟩⟩
        · simp only [History.step, switched]
          intro impossible
          cases impossible
        · rw [alive] at exiting
          cases exiting
        · obtain ⟨switched, -, -⟩ := History.taskSwitch_cases hs
          obtain ⟨-, -, -, -, -, outcome⟩ :=
            Scheduler.taskSwitch_cases inv.wf.current switched
          rcases outcome with ⟨-, same, -⟩ | ⟨-, -, waiting, -⟩
          · exact absurd same ne
          · exact inv.waiting _ waiting
      · constructor
        · intro expected
          refine absurd ?_ expected.1
          simp only [History.step, failed]
          rfl
        · intro alive
          exact absurd (inv.running.mpr alive) notRunning

/-- Along every run in which tasks are scheduled, switched and leave through
`exit()`, all scheduler interrupts meet the expectation exactly if none of them
comes after an `exit()`. -/
theorem exit_hands_over_iff (exitAddress : UInt64) (ops : List Op)
    (legal : (machine exitAddress).EachStep ExitsOnly History.init ops) :
    (machine exitAddress).EachStep (HandsOver exitAddress) History.init ops ↔
      (machine exitAddress).EachStep NotExiting History.init ops :=
  Machine.eachStep_congr (fun _ _ _ inv legal hs => ExitInv.step inv legal hs)
    (fun _ o inv _ => inv.handsOver_iff o) init_exitInv legal

/-- A run without `exit()` in which the tick switches to the new task. -/
theorem exit_hands_over_iff_tick :
    (machine 0).EachStep (HandsOver 0) History.init
      [.schedule true 0x1000 0 0x4000, .taskSwitch {} blankFxsave] := by
  refine (exit_hands_over_iff 0 _ ?_).mpr ?_
  · exact ⟨trivial, fun h hs => ⟨trivial, fun _ _ => trivial⟩⟩
  · refine ⟨trivial, fun h hs => ⟨?_, fun _ _ => trivial⟩⟩
    cases hs
    rfl

/-- With another task waiting, the boot task calls `exit()`: the `task_switch`
of its `yield` trips the assertion. -/
theorem exit_trips_assertion :
    (machine 0).EachStep ExitsOnly History.init
        [.schedule true 0x1000 0 0x4000, .exit, .taskSwitch {} blankFxsave] ∧
      (machine 0).run History.init
          [.schedule true 0x1000 0 0x4000, .exit, .taskSwitch {} blankFxsave] =
        .error (.assertion "current task is not running?") ∧
      ¬ (machine 0).EachStep (HandsOver 0) History.init
        [.schedule true 0x1000 0 0x4000, .exit, .taskSwitch {} blankFxsave] := by
  refine ⟨⟨trivial, fun h hs => ⟨trivial, fun h hs => ⟨trivial, fun _ _ => trivial⟩⟩⟩, rfl,
    fun expected => ?_⟩
  exact ((expected.2 _ rfl).2 _ rfl).1.1 rfl

end Tyleros.Scheduler
