import Tyleros.Basic
import Tyleros.Lib.Machine
import Mathlib.Logic.Function.Basic

/-!
# The task scheduler

`kernel/scheduler.cpp`: the task table, `schedule_task`, `task_switch` and
`kill`. A state holds the table, the saved FPU blocks, and the two places
through which the assembly stub of `kernel/task.asm` passes the running context
to `task_switch` and back (`*tcb` on the interrupt stack, `temp_fxsave`).

The task stacks come from `alloc::alloc`. A stack pointer carries the number of
the call that produced it, so that a stale pointer is told apart from a later
allocation at the same address; `freed` lists the stacks passed to
`alloc::free`, newest first.

`scheduleTask_cases`, `taskSwitch_cases` and `kill_cases` say once everything a
completed call does; every invariant below is derived from them.
-/

namespace Tyleros.Scheduler

/-- `scheduler::fxsave_data`. -/
abbrev FxsaveData := Vector UInt8 512

/-- `scheduler::task_frame`. -/
structure TaskFrame where
  r15 : UInt64 := 0
  r14 : UInt64 := 0
  r13 : UInt64 := 0
  r12 : UInt64 := 0
  r11 : UInt64 := 0
  r10 : UInt64 := 0
  r9 : UInt64 := 0
  r8 : UInt64 := 0
  rbp : UInt64 := 0
  rdi : UInt64 := 0
  rsi : UInt64 := 0
  rdx : UInt64 := 0
  rcx : UInt64 := 0
  rbx : UInt64 := 0
  rax : UInt64 := 0
  rip : UInt64 := 0
  cs : UInt64 := 0
  rflags : UInt64 := 0
  rsp : UInt64 := 0
  ss : UInt64 := 0
  deriving DecidableEq, Repr

/-- `scheduler::task_state`. -/
inductive TaskState where
  | killed
  | waiting
  | running
  deriving DecidableEq, Repr

/-- A stack obtained from `alloc::alloc`: the number of the call and the address
`stack_base` one past its end. -/
structure StackBase where
  serial : Nat
  address : Nat
  deriving DecidableEq, Repr

/-- `scheduler::task_context`; `none` is the null `stack_base`. -/
structure TaskContext where
  frame : TaskFrame
  state : TaskState
  stackBase : Option StackBase
  deriving DecidableEq, Repr

/-- A slot of the zero-filled task table. -/
def TaskContext.zeroed : TaskContext := ⟨{}, .killed, none⟩

def MAX_TASKS : Nat := 0x100

def TASK_STACK_SIZE : Nat := PAGE_SIZE * 4

def KERNEL_TASK_ID : Nat := 0

def KERNEL_CODE_SELECTOR : UInt64 := 8

def KERNEL_DATA_SELECTOR : UInt64 := 16

def USER_CODE_SELECTOR : UInt64 := 24

def USER_DATA_SELECTOR : UInt64 := 32

/-- The scheduler's variables. -/
structure State where
  currentTaskId : Nat
  totalTasks : Nat
  tasks : Nat → TaskContext
  fxsaveBlocks : Nat → FxsaveData
  /-- The frame `task_switch` was last handed, or the one it left there. -/
  tcb : TaskFrame
  tempFxsave : FxsaveData
  /-- Stack memory, by address: only `schedule_task` writes to it here. -/
  stackWords : Nat → UInt64
  /-- How many stacks `alloc::alloc` has handed out. -/
  stacksAllocated : Nat
  /-- The serial numbers passed to `alloc::free`, newest first. -/
  freed : List Nat

/-- The state of slot `i`. -/
def State.stateOf (s : State) (i : Nat) : TaskState := (s.tasks i).state

/-- The stack of slot `i`. -/
def State.stackOf (s : State) (i : Nat) : Option StackBase := (s.tasks i).stackBase

/-- `scheduler::init`, once `cmos::initialized()`. -/
def init : State where
  currentTaskId := KERNEL_TASK_ID
  totalTasks := 1
  tasks := Function.update (fun _ => TaskContext.zeroed) KERNEL_TASK_ID
    { TaskContext.zeroed with state := .running }
  fxsaveBlocks := fun _ => Vector.replicate 512 0
  tcb := {}
  tempFxsave := Vector.replicate 512 0
  stackWords := fun _ => 0
  stacksAllocated := 0
  freed := []

/-- The slot `schedule_task` uses: the first killed one below `total_tasks`,
else `total_tasks`. -/
def nextTaskId (s : State) : Nat :=
  ((List.range s.totalTasks).find? fun i => s.stateOf i == .killed).getD s.totalTasks

/-- The frame `schedule_task` builds for a task with stack pointer `rsp`. -/
def initialFrame (isKernel : Bool) (newTask context rsp : UInt64) : TaskFrame :=
  { rsp := rsp
    rip := newTask
    cs := if isKernel then KERNEL_CODE_SELECTOR else USER_CODE_SELECTOR
    ss := if isKernel then KERNEL_DATA_SELECTOR else USER_DATA_SELECTOR
    rflags := 0x200
    rdi := context }

/-- `schedule_task(is_kernel, new_task, context)`, with `stackTop` what
`alloc::alloc` returned and `exit` the address of `scheduler::exit`. -/
def scheduleTask (isKernel : Bool) (newTask context exit : UInt64) (stackTop : Nat) (s : State) :
    Except Stop (Nat × State) := do
  let id := nextTaskId s
  kassert (id < MAX_TASKS) "ran out of tasks!"
  let newStackBase := add64 stackTop TASK_STACK_SIZE
  let rsp := sub64 newStackBase 8
  let task : TaskContext :=
    { frame := initialFrame isKernel newTask context (UInt64.ofNat rsp)
      state := .waiting
      stackBase := some ⟨s.stacksAllocated, newStackBase⟩ }
  return (id,
    { s with
      totalTasks := if id = s.totalTasks then s.totalTasks + 1 else s.totalTasks
      tasks := Function.update s.tasks id task
      stackWords := Function.update s.stackWords rsp exit
      stacksAllocated := s.stacksAllocated + 1 })

/-- The search loop of `task_switch`, from the slot after `next`: the next
waiting slot, or `none` once it is back at the current task. It has made a full
round of the table after `total_tasks` iterations, and would repeat it for ever
if the current task were not in the table. -/
def searchNext (s : State) : Nat → Nat → Except Stop (Option Nat)
  | 0, _ => .error .hang
  | fuel + 1, next =>
    let next := if next + 1 ≥ s.totalTasks then 0 else next + 1
    if next = s.currentTaskId then .ok none
    else if s.stateOf next = .waiting then .ok (some next)
    else searchNext s fuel next

/-- `task_switch(tcb)`, entered with the running context in `*tcb` and
`temp_fxsave`. -/
def taskSwitch (tcb : TaskFrame) (fxsave : FxsaveData) (s : State) : Except Stop State := do
  kassert (s.stateOf s.currentTaskId == .running) "current task is not running?"
  match ← searchNext s s.totalTasks s.currentTaskId with
  | none => return { s with tcb := tcb, tempFxsave := fxsave }
  | some next =>
    let old := s.currentTaskId
    -- save the old task first: its slot differs from the one loaded next
    let tasks := Function.update s.tasks old { s.tasks old with frame := tcb }
    let blocks := Function.update s.fxsaveBlocks old fxsave
    return { s with
      tcb := (tasks next).frame
      tempFxsave := blocks next
      tasks := Function.update tasks next { tasks next with state := .running }
      fxsaveBlocks := blocks
      currentTaskId := next }

/-- `kill(id)`. An id outside the task table is an access out of bounds. -/
def kill (id : Nat) (s : State) : Except Stop State :=
  if id < MAX_TASKS then
    let killed := { s with
      tasks := Function.update s.tasks id { s.tasks id with state := .killed } }
    match s.stackOf id with
    | none => .ok killed
    | some stack => .ok { killed with freed := stack.serial :: s.freed }
  else .error (.fault "task id out of bounds")

/-! ## What a completed call does -/

theorem nextTaskId_cases (s : State) :
    (nextTaskId s < s.totalTasks ∧ s.stateOf (nextTaskId s) = .killed) ∨
      nextTaskId s = s.totalTasks := by
  unfold nextTaskId
  cases found : (List.range s.totalTasks).find? fun i => s.stateOf i == .killed with
  | none => exact Or.inr rfl
  | some i =>
      have member := List.mem_of_find?_eq_some found
      have killed := List.find?_some found
      exact Or.inl ⟨List.mem_range.mp member, by simpa using killed⟩

/-- A completed `schedule_task` fills one free slot and nothing else in the
table. -/
theorem scheduleTask_cases {isKernel : Bool} {newTask context exit : UInt64} {stackTop id : Nat}
    {s s' : State} (h : scheduleTask isKernel newTask context exit stackTop s = .ok (id, s')) :
    id = nextTaskId s ∧ id < MAX_TASKS ∧
      s'.currentTaskId = s.currentTaskId ∧
      s'.totalTasks = (if id = s.totalTasks then s.totalTasks + 1 else s.totalTasks) ∧
      s'.stateOf = Function.update s.stateOf id .waiting ∧
      s'.stackOf = Function.update s.stackOf id
        (some ⟨s.stacksAllocated, add64 stackTop TASK_STACK_SIZE⟩) ∧
      s'.stacksAllocated = s.stacksAllocated + 1 ∧ s'.freed = s.freed := by
  unfold scheduleTask at h
  obtain ⟨_, bound, h⟩ := bind_eq_ok h
  have bound := of_decide_eq_true (kassert_eq_ok bound)
  cases h
  refine ⟨rfl, bound, rfl, rfl, ?_, ?_, rfl, rfl⟩
  · funext i
    by_cases eq : i = nextTaskId s <;> simp [State.stateOf, eq]
  · funext i
    by_cases eq : i = nextTaskId s <;> simp [State.stackOf, eq]

/-- The slot `k` places after the current one in the cyclic order of the search. -/
def State.slotAfter (s : State) (k : Nat) : Nat := (s.currentTaskId + k) % s.totalTasks

theorem State.slotAfter_zero {s : State} (current : s.currentTaskId < s.totalTasks) :
    s.slotAfter 0 = s.currentTaskId := Nat.mod_eq_of_lt current

theorem State.slotAfter_succ {s : State} (pos : 0 < s.totalTasks) (k : Nat) :
    (if s.slotAfter k + 1 ≥ s.totalTasks then 0 else s.slotAfter k + 1) = s.slotAfter (k + 1) := by
  unfold State.slotAfter
  have bound := Nat.mod_lt (s.currentTaskId + k) pos
  have split : s.currentTaskId + (k + 1) =
      (s.currentTaskId + k) % s.totalTasks + 1 +
        s.totalTasks * ((s.currentTaskId + k) / s.totalTasks) := by
    have := Nat.mod_add_div (s.currentTaskId + k) s.totalTasks
    omega
  rw [split, Nat.add_mul_mod_self_left]
  split
  · next full =>
      have last : (s.currentTaskId + k) % s.totalTasks + 1 = s.totalTasks := by omega
      rw [last, Nat.mod_self]
  · next room => exact (Nat.mod_eq_of_lt (by omega)).symm

/-- The search is back at the current slot only after a whole round. -/
theorem State.slotAfter_eq_current_iff {s : State} (current : s.currentTaskId < s.totalTasks)
    {k : Nat} (pos : 0 < k) (le : k ≤ s.totalTasks) :
    s.slotAfter k = s.currentTaskId ↔ k = s.totalTasks := by
  unfold State.slotAfter
  constructor
  · intro h
    by_cases wrap : s.currentTaskId + k < s.totalTasks
    · rw [Nat.mod_eq_of_lt wrap] at h
      omega
    · rw [Nat.mod_eq_sub_mod (by omega), Nat.mod_eq_of_lt (by omega)] at h
      omega
  · rintro rfl
    rw [Nat.add_mod_right, Nat.mod_eq_of_lt current]

/-- Every other slot is met within one round. -/
theorem State.exists_slotAfter {s : State} (current : s.currentTaskId < s.totalTasks) {i : Nat}
    (bound : i < s.totalTasks) (ne : i ≠ s.currentTaskId) :
    ∃ k, 0 < k ∧ k < s.totalTasks ∧ s.slotAfter k = i := by
  unfold State.slotAfter
  by_cases after : s.currentTaskId < i
  · refine ⟨i - s.currentTaskId, by omega, by omega, ?_⟩
    rw [show s.currentTaskId + (i - s.currentTaskId) = i by omega, Nat.mod_eq_of_lt bound]
  · refine ⟨s.totalTasks - s.currentTaskId + i, by omega, by omega, ?_⟩
    rw [show s.currentTaskId + (s.totalTasks - s.currentTaskId + i) = i + s.totalTasks by omega,
      Nat.add_mod_right, Nat.mod_eq_of_lt bound]

/-- The search from `k` places after the current slot, with the iterations of
the round that remain: it stops at the first waiting slot, or finds none. -/
theorem searchNext_spec {s : State} (current : s.currentTaskId < s.totalTasks) (fuel k : Nat)
    (round : fuel + k = s.totalTasks) (pos : 0 < fuel) :
    (∃ j, k < j ∧ j < s.totalTasks ∧ s.stateOf (s.slotAfter j) = .waiting ∧
        (∀ i, k < i → i < j → s.stateOf (s.slotAfter i) ≠ .waiting) ∧
        searchNext s fuel (s.slotAfter k) = .ok (some (s.slotAfter j))) ∨
      ((∀ i, k < i → i < s.totalTasks → s.stateOf (s.slotAfter i) ≠ .waiting) ∧
        searchNext s fuel (s.slotAfter k) = .ok none) := by
  induction fuel generalizing k with
  | zero => omega
  | succ fuel ih =>
      have step := State.slotAfter_succ (s := s) (by omega) k
      have back := State.slotAfter_eq_current_iff current (k := k + 1) (by omega) (by omega)
      simp only [searchNext, step]
      by_cases last : k + 1 = s.totalTasks
      · refine Or.inr ⟨fun i after bound => by omega, ?_⟩
        rw [if_pos (back.mpr last)]
      · rw [if_neg (mt back.mp last)]
        by_cases waiting : s.stateOf (s.slotAfter (k + 1)) = .waiting
        · refine Or.inl ⟨k + 1, by omega, by omega, waiting, fun i after before => by omega, ?_⟩
          rw [if_pos waiting]
        · rw [if_neg waiting]
          have skip : ∀ i, k < i → ¬ k + 1 < i → s.stateOf (s.slotAfter i) ≠ .waiting := by
            intro i after notLater
            obtain rfl : i = k + 1 := by omega
            exact waiting
          rcases ih (k + 1) (by omega) (by omega) with
            ⟨j, after, bound, found, least, result⟩ | ⟨nobody, result⟩
          · refine Or.inl ⟨j, by omega, bound, found, fun i hi before => ?_, result⟩
            by_cases later : k + 1 < i
            · exact least i later before
            · exact skip i hi later
          · refine Or.inr ⟨fun i hi bound => ?_, result⟩
            by_cases later : k + 1 < i
            · exact nobody i later bound
            · exact skip i hi later

/-- Nobody but the current task waits. -/
def State.NobodyWaits (s : State) : Prop :=
  ∀ i, i < s.totalTasks → i ≠ s.currentTaskId → s.stateOf i ≠ .waiting

instance (s : State) : Decidable s.NobodyWaits :=
  inferInstanceAs (Decidable (∀ i, i < s.totalTasks → i ≠ s.currentTaskId → _))

/-- The search of `task_switch` ends, and finds somebody exactly if another
task waits. -/
theorem searchNext_round {s : State} (current : s.currentTaskId < s.totalTasks) :
    (∃ next, next < s.totalTasks ∧ next ≠ s.currentTaskId ∧ s.stateOf next = .waiting ∧
        searchNext s s.totalTasks s.currentTaskId = .ok (some next)) ∨
      (s.NobodyWaits ∧ searchNext s s.totalTasks s.currentTaskId = .ok none) := by
  have spec := searchNext_spec current s.totalTasks 0 (by omega) (by omega)
  rw [State.slotAfter_zero current] at spec
  rcases spec with ⟨j, pos, bound, waiting, _, result⟩ | ⟨nobody, result⟩
  · refine Or.inl ⟨s.slotAfter j, Nat.mod_lt _ (by omega), ?_, waiting, result⟩
    rw [ne_eq, State.slotAfter_eq_current_iff current pos (by omega)]
    omega
  · refine Or.inr ⟨fun i bound ne => ?_, result⟩
    obtain ⟨k, pos, le, rfl⟩ := State.exists_slotAfter current bound ne
    exact nobody k pos le

/-- A completed `task_switch` found its caller running. Either nobody waits and
the table is as before, or one waiting task is marked running and becomes the
current one; the state of the task switched out is left as it was. -/
theorem taskSwitch_cases {tcb : TaskFrame} {fxsave : FxsaveData} {s s' : State}
    (current : s.currentTaskId < s.totalTasks) (h : taskSwitch tcb fxsave s = .ok s') :
    s.stateOf s.currentTaskId = .running ∧
      s'.totalTasks = s.totalTasks ∧ s'.stackOf = s.stackOf ∧
      s'.stacksAllocated = s.stacksAllocated ∧ s'.freed = s.freed ∧
      ((s.NobodyWaits ∧ s'.currentTaskId = s.currentTaskId ∧ s'.stateOf = s.stateOf) ∨
        (s'.currentTaskId < s.totalTasks ∧ s'.currentTaskId ≠ s.currentTaskId ∧
          s.stateOf s'.currentTaskId = .waiting ∧
          s'.stateOf = Function.update s.stateOf s'.currentTaskId .running)) := by
  unfold taskSwitch at h
  obtain ⟨_, running, h⟩ := bind_eq_ok h
  have running : s.stateOf s.currentTaskId = .running := by
    simpa using kassert_eq_ok running
  obtain ⟨found, search, h⟩ := bind_eq_ok h
  rcases searchNext_round current with ⟨next, bound, ne, waiting, result⟩ | ⟨nobody, result⟩
  · rw [result] at search
    cases search
    cases h
    refine ⟨running, rfl, ?_, rfl, rfl, Or.inr ⟨bound, ne, waiting, ?_⟩⟩
    · funext i
      by_cases eqNext : i = next <;> by_cases eqOld : i = s.currentTaskId <;>
        simp_all [State.stackOf, Function.update_apply]
    · funext i
      by_cases eqNext : i = next <;> by_cases eqOld : i = s.currentTaskId <;>
        simp_all [State.stateOf, Function.update_apply]
  · rw [result] at search
    cases search
    cases h
    exact ⟨running, rfl, rfl, rfl, rfl, Or.inl ⟨nobody, rfl, rfl⟩⟩

/-- `task_switch` trips its assertion exactly if the current task is not marked
running; otherwise it returns. -/
theorem taskSwitch_outcome (tcb : TaskFrame) (fxsave : FxsaveData) {s : State}
    (current : s.currentTaskId < s.totalTasks) :
    (s.stateOf s.currentTaskId = .running ∧ ∃ s', taskSwitch tcb fxsave s = .ok s') ∨
      (s.stateOf s.currentTaskId ≠ .running ∧
        taskSwitch tcb fxsave s = .error (.assertion "current task is not running?")) := by
  by_cases running : s.stateOf s.currentTaskId = .running
  · refine Or.inl ⟨running, ?_⟩
    have asserted : kassert (s.stateOf s.currentTaskId == .running)
        "current task is not running?" = .ok () := by simp [running, kassert]
    rcases searchNext_round current with ⟨next, _, _, _, result⟩ | ⟨_, result⟩
    · exact ⟨_, by simp only [taskSwitch, asserted, result]; rfl⟩
    · exact ⟨_, by simp only [taskSwitch, asserted, result]; rfl⟩
  · refine Or.inr ⟨running, ?_⟩
    have failed : kassert (s.stateOf s.currentTaskId == .running)
        "current task is not running?" =
        .error (.assertion "current task is not running?") := by simp [running, kassert]
    simp only [taskSwitch, failed]
    rfl

/-- A completed `kill` marks the slot killed and passes its stack, if it has
one, to `alloc::free`; the slot keeps its `stack_base`. -/
theorem kill_cases {id : Nat} {s s' : State} (h : kill id s = .ok s') :
    id < MAX_TASKS ∧ s'.currentTaskId = s.currentTaskId ∧ s'.totalTasks = s.totalTasks ∧
      s'.stateOf = Function.update s.stateOf id .killed ∧ s'.stackOf = s.stackOf ∧
      s'.stacksAllocated = s.stacksAllocated ∧
      s'.freed = (s.stackOf id).toList.map StackBase.serial ++ s.freed := by
  unfold kill at h
  split at h
  · next bound =>
      have states : (fun i => (Function.update s.tasks id
          { s.tasks id with state := .killed } i).state) =
          Function.update s.stateOf id .killed := by
        funext i
        by_cases eq : i = id <;> simp [State.stateOf, eq]
      have bases : (fun i => (Function.update s.tasks id
          { s.tasks id with state := .killed } i).stackBase) = s.stackOf := by
        funext i
        by_cases eq : i = id <;> simp [State.stackOf, eq]
      split at h
      · next none_ =>
          cases h
          exact ⟨bound, rfl, rfl, states, bases, rfl, by simp [none_]⟩
      · next stack some_ =>
          cases h
          exact ⟨bound, rfl, rfl, states, bases, rfl, by simp [some_]⟩
  · cases h

end Tyleros.Scheduler
