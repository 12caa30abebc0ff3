import Tyleros.Scheduler.Runs

/-!
# Turns

How long a task waits for its turn, and how many turns it gets. `rank` is how far the slot of a
task is behind the current one when `task_switch` goes round the table. Every `task_switch` brings
a task that waits closer to its turn, also when tasks are scheduled or killed in between, and
tasks with a slot in front of it are scheduled again and again (`rank_taskSwitch`).

* `turns_bounded`: in every state of every run, a task that was scheduled has waited for fewer
  than `MAX_TASKS` calls of `task_switch`, and it was switched to at most once: `task_switch` does
  not set the task that it switches away from to waiting, so it has no second turn.
-/

namespace Tyleros.Scheduler

open Tyleros.Lib

/-! ## What is counted -/

/-- How many slots are behind slot `i` in the order of the search from slot `current` on, in a
full table. -/
def rank (current i : Nat) : Nat := (i + MAX_TASKS - current) % MAX_TASKS

/-- A history, and for every slot what happened since a task was last scheduled there. -/
structure Waits where
  history : History
  /-- The calls of `task_switch` that did not switch to it. -/
  waited : Nat → Nat
  /-- Those that did. -/
  turns : Nat → Nat

namespace Waits

def init : Waits := ⟨History.init, fun _ => 0, fun _ => 0⟩

/-- What a call that led to `h` adds. -/
def record (w : Waits) (h : History) : Op → Waits
  | .schedule _ _ _ _ =>
    { history := h
      waited := Function.update w.waited (nextTaskId w.history.sched) 0
      turns := Function.update w.turns (nextTaskId w.history.sched) 0 }
  | .taskSwitch _ _ =>
    { history := h
      waited := fun i => if h.sched.stateOf i = .waiting then w.waited i + 1 else w.waited i
      turns :=
        if h.sched.currentTaskId = w.history.sched.currentTaskId then w.turns
        else Function.update w.turns h.sched.currentTaskId (w.turns h.sched.currentTaskId + 1) }
  | _ => { w with history := h }

def step (exitAddress : UInt64) (w : Waits) (o : Op) : Except Stop Waits := do
  let h ← w.history.step exitAddress o
  return w.record h o

end Waits

def waitMachine (exitAddress : UInt64) : Machine Waits Op Stop := ⟨Waits.step exitAddress⟩

/-- A task has waited for fewer calls than there are slots, and had one turn at most; while it
waits, it had none. -/
structure Waits.Bounded (w : Waits) : Prop where
  waited : ∀ i, w.waited i < MAX_TASKS
  once : ∀ i, w.turns i ≤ 1
  first : ∀ i, w.history.sched.stateOf i = .waiting → w.turns i = 0

/-! ## Rank -/

section Rank

variable {s s' : State} {current i j : Nat}

theorem rank_lt : rank current i < MAX_TASKS := Nat.mod_lt _ (by decide)

/-- The order of the search is that of the rank. -/
theorem rank_slotAfter (total : s.totalTasks ≤ MAX_TASKS) (bound : s.currentTaskId < s.totalTasks)
    {k : Nat} (last : k < s.totalTasks) :
    rank s.currentTaskId (s.slotAfter k) =
      if s.currentTaskId + k < s.totalTasks then k else k + (MAX_TASKS - s.totalTasks) := by
  unfold rank State.slotAfter
  unfold MAX_TASKS at total ⊢
  split
  · next inside =>
      have slot : (s.currentTaskId + k) % s.totalTasks = s.currentTaskId + k :=
        Nat.mod_eq_of_lt inside
      rw [slot]
      omega
  · next wraps =>
      have slot : (s.currentTaskId + k) % s.totalTasks = s.currentTaskId + k - s.totalTasks := by
        rw [Nat.mod_eq_sub_mod (by omega), Nat.mod_eq_of_lt (by omega)]
      rw [slot]
      omega

/-- From a slot with a lower rank on, the rank is smaller by that. -/
theorem rank_from (hc : current < MAX_TASKS) (hj : j < MAX_TASKS) (hi : i < MAX_TASKS)
    (less : rank current j < rank current i) :
    rank j i = rank current i - rank current j := by
  unfold rank MAX_TASKS at *
  omega

/-- `task_switch` goes to the first slot that waits. -/
theorem taskSwitch_first {tcb : TaskFrame} {fxsave : FxsaveData}
    (bound : s.currentTaskId < s.totalTasks) (switched : taskSwitch tcb fxsave s = .ok s') :
    s.NobodyWaits ∨ ∃ j, 0 < j ∧ j < s.totalTasks ∧ s'.currentTaskId = s.slotAfter j ∧
      ∀ k, 0 < k → k < j → s.stateOf (s.slotAfter k) ≠ .waiting := by
  unfold taskSwitch at switched
  obtain ⟨_, -, switched⟩ := bind_eq_ok switched
  obtain ⟨found, search, switched⟩ := bind_eq_ok switched
  have spec := searchNext_spec bound s.totalTasks 0 (by omega) (by omega)
  rw [State.slotAfter_zero bound] at spec
  obtain ⟨j, pos, less, -, least, result⟩ | ⟨nobody, -⟩ := spec
  · rw [result] at search
    cases search
    cases switched
    exact Or.inr ⟨j, pos, less, rfl, least⟩
  · left
    intro i inside ne
    obtain ⟨k, pos, le, rfl⟩ := State.exists_slotAfter bound inside ne
    exact nobody k pos le

/-- Nobody begins to wait. -/
theorem waiting_of_taskSwitch {tcb : TaskFrame} {fxsave : FxsaveData}
    (bound : s.currentTaskId < s.totalTasks) (switched : taskSwitch tcb fxsave s = .ok s')
    (waiting : s'.stateOf i = .waiting) :
    s.stateOf i = .waiting ∧ (s'.currentTaskId ≠ s.currentTaskId → s'.currentTaskId ≠ i) := by
  obtain ⟨-, -, -, -, -, after⟩ := taskSwitch_cases bound switched
  obtain ⟨-, stays, same⟩ | ⟨-, -, -, same⟩ := after
  · rw [same] at waiting
    exact ⟨waiting, fun moves => absurd stays moves⟩
  · rw [same, Function.update_apply] at waiting
    split at waiting
    · cases waiting
    · next other => exact ⟨waiting, fun _ => Ne.symm other⟩

/-- A `task_switch` that leaves a task waiting brings it closer to its turn. -/
theorem rank_taskSwitch {tcb : TaskFrame} {fxsave : FxsaveData}
    (total : s.totalTasks ≤ MAX_TASKS) (bound : s.currentTaskId < s.totalTasks)
    (switched : taskSwitch tcb fxsave s = .ok s') (here : i < s.totalTasks)
    (waiting : s'.stateOf i = .waiting) : rank s'.currentTaskId i < rank s.currentTaskId i := by
  obtain ⟨running, -, -, -, -, after⟩ := taskSwitch_cases bound switched
  obtain ⟨waited, -⟩ := waiting_of_taskSwitch bound switched waiting
  have other : i ≠ s.currentTaskId := by
    rintro rfl
    cases running.symm.trans waited
  obtain ⟨nobody, -, -⟩ | ⟨-, differs, -, same⟩ := after
  · exact absurd waited (nobody i here other)
  · obtain nobody | ⟨j, pos, less, next, least⟩ := taskSwitch_first bound switched
    · exact absurd waited (nobody i here other)
    obtain ⟨k, pos', last, rfl⟩ := State.exists_slotAfter bound here other
    have later : j < k := by
      by_contra notLater
      obtain before | rfl := Nat.lt_or_eq_of_le (Nat.le_of_not_lt notLater)
      · exact least k pos' before waited
      · rw [same, next, Function.update_self] at waiting
        cases waiting
    have nearer := rank_slotAfter total bound less
    have farther := rank_slotAfter total bound last
    have positive : 0 < rank s.currentTaskId (s.slotAfter j) := by
      rw [nearer]
      split <;> omega
    have order : rank s.currentTaskId (s.slotAfter j) < rank s.currentTaskId (s.slotAfter k) := by
      rw [nearer, farther]
      split <;> split <;> omega
    have inside (m : Nat) : s.slotAfter m < MAX_TASKS :=
      Nat.lt_of_lt_of_le (Nat.mod_lt _ (by omega)) total
    rw [next, rank_from (by omega) (inside j) (inside k) order]
    omega

end Rank

/-! ## Every run -/

section Runs

variable {exitAddress : UInt64} {w w' : Waits} {o : Op} {h : History}

/-- While a task waits, it loses one place with every call. -/
structure Waits.Inv (w : Waits) : Prop where
  wf : w.history.Wf
  bounded : w.Bounded
  closer : ∀ i, w.history.sched.stateOf i = .waiting →
    w.waited i + rank w.history.sched.currentTaskId i < MAX_TASKS

theorem Waits.init_inv : Waits.init.Inv where
  wf := History.init_wf
  bounded := ⟨fun _ => (by decide : 0 < MAX_TASKS), fun _ => Nat.zero_le 1, fun _ _ => rfl⟩
  closer := fun _ _ => (Nat.zero_add _).trans_lt rank_lt

theorem Waits.Inv.kill {id : Nat} {exiting : Bool} (inv : w.Inv)
    (killed : w.history.kill id exiting = .ok h) : { w with history := h }.Inv := by
  obtain ⟨called, -, -⟩ := History.kill_cases killed
  obtain ⟨-, current, -, states, -⟩ := Scheduler.kill_cases called
  have waits : ∀ i, h.sched.stateOf i = .waiting → w.history.sched.stateOf i = .waiting := by
    intro i waiting
    rw [states, Function.update_apply] at waiting
    split at waiting
    · cases waiting
    · exact waiting
  refine ⟨inv.wf.kill killed, ⟨inv.bounded.waited, inv.bounded.once, fun i waiting => ?_⟩,
    fun i waiting => ?_⟩
  · exact inv.bounded.first i (waits i waiting)
  · show w.waited i + rank h.sched.currentTaskId i < MAX_TASKS
    rw [current]
    exact inv.closer i (waits i waiting)

theorem Waits.Inv.schedule {isKernel : Bool} {newTask context : UInt64} {stackTop : Nat}
    (inv : w.Inv)
    (stepped : w.history.step exitAddress (.schedule isKernel newTask context stackTop) = .ok h) :
    (w.record h (.schedule isKernel newTask context stackTop)).Inv := by
  obtain ⟨id, scheduled, -, -⟩ := History.schedule_cases stepped
  obtain ⟨rfl, -, current, -, states, -⟩ := scheduleTask_cases scheduled
  have waits : ∀ i, i ≠ nextTaskId w.history.sched → h.sched.stateOf i = .waiting →
      w.history.sched.stateOf i = .waiting := by
    intro i other waiting
    rwa [states, Function.update_of_ne other] at waiting
  refine ⟨inv.wf.step stepped, ⟨fun i => ?_, fun i => ?_, fun i waiting => ?_⟩, fun i waiting => ?_⟩
  · show Function.update w.waited (nextTaskId w.history.sched) 0 i < MAX_TASKS
    rw [Function.update_apply]
    split
    · decide
    · exact inv.bounded.waited i
  · show Function.update w.turns (nextTaskId w.history.sched) 0 i ≤ 1
    rw [Function.update_apply]
    split
    · decide
    · exact inv.bounded.once i
  · show Function.update w.turns (nextTaskId w.history.sched) 0 i = 0
    rw [Function.update_apply]
    split
    · rfl
    · next other => exact inv.bounded.first i (waits i other waiting)
  · show Function.update w.waited (nextTaskId w.history.sched) 0 i + rank h.sched.currentTaskId i < _
    rw [Function.update_apply]
    split
    · exact (Nat.zero_add _).trans_lt rank_lt
    · next other =>
        rw [current]
        exact inv.closer i (waits i other waiting)

theorem Waits.Inv.taskSwitch {tcb : TaskFrame} {fxsave : FxsaveData} (inv : w.Inv)
    (stepped : w.history.step exitAddress (.taskSwitch tcb fxsave) = .ok h) :
    (w.record h (.taskSwitch tcb fxsave)).Inv := by
  obtain ⟨switched, -, -⟩ := History.taskSwitch_cases stepped
  have bound := inv.wf.current
  have inside : ∀ i, h.sched.stateOf i = .waiting → i < w.history.sched.totalTasks := by
    intro i waiting
    by_contra outside
    have killed := inv.wf.killed i (Nat.le_of_not_lt outside)
    cases killed.symm.trans (waiting_of_taskSwitch bound switched waiting).1
  have closer : ∀ i, h.sched.stateOf i = .waiting →
      w.waited i + 1 + rank h.sched.currentTaskId i < MAX_TASKS := by
    intro i waiting
    have before := inv.closer i (waiting_of_taskSwitch bound switched waiting).1
    have lower := rank_taskSwitch inv.wf.total bound switched (inside i waiting) waiting
    omega
  refine ⟨inv.wf.step stepped, ⟨fun i => ?_, fun i => ?_, fun i waiting => ?_⟩,
    fun i (waiting : h.sched.stateOf i = .waiting) => ?_⟩
  · show (if h.sched.stateOf i = .waiting then w.waited i + 1 else w.waited i) < MAX_TASKS
    split
    · next waiting =>
        have := closer i waiting
        omega
    · exact inv.bounded.waited i
  · show (if h.sched.currentTaskId = w.history.sched.currentTaskId then w.turns
      else Function.update w.turns h.sched.currentTaskId (w.turns h.sched.currentTaskId + 1)) i ≤ 1
    split
    · exact inv.bounded.once i
    · next moves =>
        rw [Function.update_apply]
        split
        · -- the task that was switched to waited before
          obtain ⟨-, -, -, -, -, ⟨-, stays, -⟩ | ⟨-, -, waited, -⟩⟩ :=
            taskSwitch_cases bound switched
          · exact absurd stays moves
          · rw [inv.bounded.first _ waited]
        · exact inv.bounded.once i
  · show (if h.sched.currentTaskId = w.history.sched.currentTaskId then w.turns
      else Function.update w.turns h.sched.currentTaskId (w.turns h.sched.currentTaskId + 1)) i = 0
    obtain ⟨waited, other⟩ := waiting_of_taskSwitch bound switched waiting
    split
    · exact inv.bounded.first i waited
    · next moves =>
        rw [Function.update_of_ne (other moves).symm]
        exact inv.bounded.first i waited
  · show (if h.sched.stateOf i = .waiting then w.waited i + 1 else w.waited i) + _ < MAX_TASKS
    rw [if_pos waiting]
    exact closer i waiting

theorem Waits.Inv.step (inv : w.Inv) (stepped : w.step exitAddress o = .ok w') : w'.Inv := by
  obtain ⟨h, called, recorded⟩ := bind_eq_ok stepped
  cases recorded
  cases o with
  | schedule isKernel newTask context stackTop => exact inv.schedule called
  | taskSwitch tcb fxsave => exact inv.taskSwitch called
  | kill id => exact inv.kill called
  | exit => exact inv.kill called

/-- No task waits for `MAX_TASKS` calls of `task_switch`, and none is switched to twice. -/
theorem turns_bounded (exitAddress : UInt64) (ops : List Op) :
    (waitMachine exitAddress).Always Waits.Bounded Waits.init ops :=
  Machine.always_of_inv (fun _ _ _ inv _ stepped => inv.step stepped) (fun _ inv => inv.bounded)
    Waits.init_inv Machine.eachStep_true

end Runs

end Tyleros.Scheduler
