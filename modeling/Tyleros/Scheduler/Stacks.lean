import Tyleros.Scheduler.Runs
import Mathlib.Data.List.Count

/-!
# Ownership of the task stacks

`kill` passes the stack of its slot to `alloc::free` and keeps `stack_base` in
the slot, so a second `kill` of the slot frees the stack again; and `kill` of
the current task, which is what `exit()` and the GP-fault handler call, frees
the stack the caller is running on. `StackInv` relates the pointers in the table
to the stacks freed so far; from it `stacksOwned_always_iff` derives that these
two are the only ways to lose ownership.
-/

namespace Tyleros.Scheduler

open Tyleros.Lib

variable {exitAddress : UInt64} {h h' : History}

/-- No stack has been passed to `alloc::free` twice, and the stack of the
current task has not been passed to it. -/
structure StacksOwned (h : History) : Prop where
  once : ∀ serial, h.sched.freed.count serial ≤ 1
  current : ∀ stack, h.sched.stackOf h.sched.currentTaskId = some stack →
    stack.serial ∉ h.sched.freed

/-- The slot an operation kills. -/
def Op.victim (h : History) : Op → Option Nat
  | .kill id => some id
  | .exit => some h.sched.currentTaskId
  | _ => none

/-- Whatever is killed has no stack, or is a task not killed before and not the
current one. -/
def KillsLiveOther (h : History) (o : Op) : Prop :=
  ∀ id, o.victim h = some id → h.sched.stackOf id = none ∨
    (h.sched.stateOf id ≠ .killed ∧ id ≠ h.sched.currentTaskId)

/-- A slot's stack has been freed exactly if the slot is killed; no two slots
share a stack; serial numbers are handed out in order. -/
structure StackInv (h : History) : Prop where
  wf : h.Wf
  freed : ∀ i stack, h.sched.stackOf i = some stack →
    (stack.serial ∈ h.sched.freed ↔ h.sched.stateOf i = .killed)
  fresh : ∀ i stack, h.sched.stackOf i = some stack → stack.serial < h.sched.stacksAllocated
  freshFreed : ∀ serial ∈ h.sched.freed, serial < h.sched.stacksAllocated
  distinct : ∀ i j stack stack', h.sched.stackOf i = some stack → h.sched.stackOf j = some stack' →
    stack.serial = stack'.serial → i = j

theorem init_stackInv : StackInv History.init := by
  have noStack : ∀ i stack, History.init.sched.stackOf i ≠ some stack := by
    intro i stack
    by_cases eq : i = KERNEL_TASK_ID <;>
      simp [History.init, Scheduler.init, State.stackOf, eq, TaskContext.zeroed]
  exact ⟨History.init_wf, fun i stack eq => absurd eq (noStack i stack),
    fun i stack eq => absurd eq (noStack i stack), fun serial mem => absurd mem List.not_mem_nil,
    fun i _ stack _ eq => absurd eq (noStack i stack)⟩

theorem StackInv.schedule {isKernel : Bool} {newTask context : UInt64} {stackTop : Nat}
    (inv : StackInv h)
    (hs : h.step exitAddress (.schedule isKernel newTask context stackTop) = .ok h') :
    StackInv h' := by
  obtain ⟨id, scheduled, -, -⟩ := History.schedule_cases hs
  obtain ⟨rfl, -, -, -, states, bases, allocated, freed⟩ := scheduleTask_cases scheduled
  have stackAt : ∀ i stack, h'.sched.stackOf i = some stack →
      (i = nextTaskId h.sched ∧ stack.serial = h.sched.stacksAllocated) ∨
        (i ≠ nextTaskId h.sched ∧ h.sched.stackOf i = some stack) := by
    intro i stack eq
    rw [bases, Function.update_apply] at eq
    split at eq
    · next same =>
        cases eq
        exact Or.inl ⟨same, rfl⟩
    · next other => exact Or.inr ⟨other, eq⟩
  refine ⟨inv.wf.step hs, fun i stack eq => ?_, fun i stack eq => ?_, fun serial mem => ?_,
    fun i j stack stack' eq eq' same => ?_⟩
  · rw [freed, states]
    rcases stackAt i stack eq with ⟨rfl, new⟩ | ⟨other, old⟩
    · rw [Function.update_self, new]
      refine ⟨fun mem => absurd (inv.freshFreed _ mem) (Nat.lt_irrefl _), fun impossible => ?_⟩
      cases impossible
    · rw [Function.update_of_ne other]
      exact inv.freed i stack old
  · rw [allocated]
    rcases stackAt i stack eq with ⟨-, new⟩ | ⟨-, old⟩
    · omega
    · exact Nat.lt_succ_of_lt (inv.fresh i stack old)
  · rw [freed] at mem
    rw [allocated]
    exact Nat.lt_succ_of_lt (inv.freshFreed serial mem)
  · rcases stackAt i stack eq with ⟨rfl, new⟩ | ⟨-, old⟩ <;>
      rcases stackAt j stack' eq' with ⟨rfl, new'⟩ | ⟨-, old'⟩
    · rfl
    · have := inv.fresh j stack' old'
      omega
    · have := inv.fresh i stack old
      omega
    · exact inv.distinct i j stack stack' old old' same

theorem StackInv.kill {id : Nat} {exiting : Bool} (inv : StackInv h)
    (hk : h.kill id exiting = .ok h') : StackInv h' := by
  have wf := inv.wf.kill hk
  obtain ⟨killed, -, -⟩ := History.kill_cases hk
  obtain ⟨-, -, -, states, bases, allocated, freed⟩ := Scheduler.kill_cases killed
  refine ⟨wf, fun i stack eq => ?_, fun i stack eq => ?_, fun serial mem => ?_,
    fun i j stack stack' eq eq' same => ?_⟩
  · rw [bases] at eq
    rw [freed, states, Function.update_apply, List.mem_append]
    split
    · next same =>
        rw [← same, eq]
        simp
    · next other =>
        -- the stack freed now belongs to `id`, hence not to `i`
        have elsewhere : stack.serial ∉ (h.sched.stackOf id).toList.map StackBase.serial := by
          intro mem
          obtain ⟨stack', mem', serial⟩ := List.mem_map.mp mem
          rw [Option.mem_toList] at mem'
          exact other (inv.distinct i id stack stack' eq mem' serial.symm)
        rw [← inv.freed i stack eq]
        exact or_iff_right elsewhere
  · rw [bases] at eq
    rw [allocated]
    exact inv.fresh i stack eq
  · rw [allocated]
    rw [freed, List.mem_append] at mem
    rcases mem with now | before
    · obtain ⟨stack', mem', rfl⟩ := List.mem_map.mp now
      exact inv.fresh id stack' (Option.mem_toList.mp mem')
    · exact inv.freshFreed serial before
  · rw [bases] at eq eq'
    exact inv.distinct i j stack stack' eq eq' same

theorem StackInv.taskSwitch {tcb : TaskFrame} {fxsave : FxsaveData} (inv : StackInv h)
    (hs : h.step exitAddress (.taskSwitch tcb fxsave) = .ok h') : StackInv h' := by
  obtain ⟨switched, -, -⟩ := History.taskSwitch_cases hs
  obtain ⟨-, -, bases, allocated, freed, outcome⟩ :=
    Scheduler.taskSwitch_cases inv.wf.current switched
  have killed : ∀ i, h'.sched.stateOf i = .killed ↔ h.sched.stateOf i = .killed := by
    intro i
    rcases outcome with ⟨-, -, states⟩ | ⟨-, -, waiting, states⟩
    · rw [states]
    · rw [states, Function.update_apply]
      split
      · next eq =>
          rw [eq, waiting]
          decide
      · rfl
  refine ⟨inv.wf.step hs, fun i stack eq => ?_, ?_, ?_, ?_⟩
  · rw [bases] at eq
    rw [freed, killed]
    exact inv.freed i stack eq
  · rw [bases, allocated]
    exact inv.fresh
  · rw [freed, allocated]
    exact inv.freshFreed
  · rw [bases]
    exact inv.distinct

theorem StackInv.step {o : Op} (inv : StackInv h) (hs : h.step exitAddress o = .ok h') :
    StackInv h' := by
  cases o with
  | schedule isKernel newTask context stackTop => exact inv.schedule hs
  | taskSwitch tcb fxsave => exact inv.taskSwitch hs
  | kill id => exact inv.kill hs
  | exit => exact inv.kill hs

/-- Scheduling hands out a new stack; the current task keeps one that is still
allocated. -/
theorem StacksOwned.schedule {isKernel : Bool} {newTask context : UInt64} {stackTop : Nat}
    (inv : StackInv h) (owned : StacksOwned h)
    (hs : h.step exitAddress (.schedule isKernel newTask context stackTop) = .ok h') :
    StacksOwned h' := by
  obtain ⟨id, scheduled, -, -⟩ := History.schedule_cases hs
  obtain ⟨rfl, -, current, -, -, bases, -, freed⟩ := scheduleTask_cases scheduled
  refine ⟨by rw [freed]; exact owned.once, fun stack eq => ?_⟩
  rw [freed]
  rw [current, bases, Function.update_apply] at eq
  split at eq
  · cases eq
    exact fun mem => absurd (inv.freshFreed _ mem) (Nat.lt_irrefl _)
  · exact owned.current stack eq

/-- A switch goes to a waiting task, whose stack has not been freed. -/
theorem StacksOwned.taskSwitch (exitAddress : UInt64) {tcb : TaskFrame} {fxsave : FxsaveData} (inv : StackInv h)
    (owned : StacksOwned h) (hs : h.step exitAddress (.taskSwitch tcb fxsave) = .ok h') :
    StacksOwned h' := by
  obtain ⟨switched, -, -⟩ := History.taskSwitch_cases hs
  obtain ⟨-, -, bases, -, freed, outcome⟩ := Scheduler.taskSwitch_cases inv.wf.current switched
  refine ⟨by rw [freed]; exact owned.once, fun stack eq => ?_⟩
  rw [bases] at eq
  rw [freed]
  rcases outcome with ⟨-, current, -⟩ | ⟨-, -, waiting, -⟩
  · rw [current] at eq
    exact owned.current stack eq
  · rw [inv.freed _ stack eq, waiting]
    decide

/-- A `kill` keeps ownership exactly if its victim has no stack, or is a live
task other than the current one. -/
theorem StacksOwned.kill_iff (inv : StackInv h) (owned : StacksOwned h) (id : Nat)
    (exiting : Bool) :
    (h.sched.stackOf id = none ∨
        (h.sched.stateOf id ≠ .killed ∧ id ≠ h.sched.currentTaskId)) ↔
      ∀ h', h.kill id exiting = .ok h' → StacksOwned h' := by
  constructor
  · intro victim h' hk
    obtain ⟨killed, -, -⟩ := History.kill_cases hk
    obtain ⟨-, current, -, -, bases, -, freed⟩ := Scheduler.kill_cases killed
    rcases victim with noStack | ⟨alive, other⟩
    · rw [noStack] at freed
      refine ⟨fun serial => ?_, fun stack eq => ?_⟩
      · rw [freed]
        exact owned.once serial
      · rw [current, bases] at eq
        rw [freed]
        exact owned.current stack eq
    · refine ⟨fun serial => ?_, fun stack eq => ?_⟩
      · rw [freed, List.count_append]
        cases here : h.sched.stackOf id with
        | none => simpa using owned.once serial
        | some stack =>
            have notFreed : stack.serial ∉ h.sched.freed := by
              rw [inv.freed id stack here]
              exact alive
            by_cases eq : stack.serial = serial
            · subst eq
              simp [List.count_eq_zero_of_not_mem notFreed]
            · simpa [List.count_cons, eq] using owned.once serial
      · rw [current, bases] at eq
        rw [freed, List.mem_append]
        rintro (now | before)
        · obtain ⟨stack', mem', serial⟩ := List.mem_map.mp now
          rw [Option.mem_toList] at mem'
          exact other (inv.distinct id _ stack' stack mem' eq serial)
        · exact owned.current stack eq before
  · intro stays
    cases here : h.sched.stackOf id with
    | none => exact Or.inl rfl
    | some stack =>
        have bound : id < MAX_TASKS := by
          by_contra outside
          have := inv.wf.stack id (by have := inv.wf.total; omega)
          rw [this] at here
          cases here
        obtain ⟨s', killed⟩ : ∃ s', Scheduler.kill id h.sched = .ok s' := by
          exact ⟨_, by simp only [Scheduler.kill, if_pos bound, here]; rfl⟩
        have hk : h.kill id exiting = .ok ⟨s', Function.update h.alive id false, exiting⟩ := by
          simp only [History.kill, killed]
          rfl
        have owned' := stays _ hk
        obtain ⟨-, current, -, -, bases, -, freed⟩ := Scheduler.kill_cases killed
        have now : stack.serial ∈ s'.freed := by simp [freed, here]
        refine Or.inr ⟨fun dead => ?_, fun same => ?_⟩
        · have before := (inv.freed id stack here).mpr dead
          have twice := owned'.once stack.serial
          have counted : 1 ≤ h.sched.freed.count stack.serial := List.one_le_count_iff.mpr before
          simp only [freed, here, Option.toList_some, List.map_cons, List.map_nil,
            List.count_append, List.count_singleton_self] at twice
          omega
        · refine owned'.current stack ?_ now
          rw [current, bases, ← same]
          exact here

/-- Along every run of scheduling, switching, killing (any id, repeatedly) and
leaving through `exit()`, each stack is passed to `alloc::free` at most once and
the current task's stack stays allocated, in every state, exactly if each `kill`
and each `exit()` hits a slot without a stack or a live task other than the
current one. -/
theorem stacksOwned_always_iff (exitAddress : UInt64) (ops : List Op) :
    (machine exitAddress).Always StacksOwned History.init ops ↔
      (machine exitAddress).EachStep KillsLiveOther History.init ops := by
  have start : StacksOwned History.init := by
    refine ⟨fun serial => Nat.zero_le 1, fun stack eq => ?_⟩
    exact List.not_mem_nil
  refine Machine.always_iff_eachStep (fun _ _ _ inv _ hs => StackInv.step inv hs) ?_
    init_stackInv start Machine.eachStep_true
  intro h o inv owned _
  cases o with
  | schedule isKernel newTask context stackTop =>
      exact ⟨fun _ h' hs => owned.schedule inv hs, fun _ id victim => by cases victim⟩
  | taskSwitch tcb fxsave =>
      refine ⟨fun _ h' hs => ?_, fun _ id victim => by cases victim⟩
      exact StacksOwned.taskSwitch exitAddress inv owned hs
  | kill id =>
      refine Iff.trans ?_ (owned.kill_iff inv id h.exiting)
      exact ⟨fun all => all id rfl, fun one id' eq => by cases eq; exact one⟩
  | exit =>
      refine Iff.trans ?_ (owned.kill_iff inv h.sched.currentTaskId true)
      exact ⟨fun all => all _ rfl, fun one id' eq => by cases eq; exact one⟩

/-- A task is killed twice: its stack is passed to `alloc::free` twice. And a
task that leaves through `exit()` is still the current one when its stack has
been freed. -/
theorem stacksOwned_fails :
    ¬ (machine 0).Always StacksOwned History.init
        [.schedule true 0x1000 0 0x4000, .kill 1, .kill 1] ∧
      ¬ (machine 0).Always StacksOwned History.init
        [.schedule true 0x1000 0 0x4000, .taskSwitch {} blankFxsave, .exit] := by
  constructor
  · intro always
    have last := Machine.Always.head (((always.2 _ rfl).2 _ rfl).2 _ rfl)
    exact absurd (last.once 0) (by decide)
  · intro always
    have last := Machine.Always.head (((always.2 _ rfl).2 _ rfl).2 _ rfl)
    exact last.current ⟨0, 0x8000⟩ rfl (by decide)

end Tyleros.Scheduler
