import Tyleros.Scheduler.Stacks

/-!
# Whose frame a task resumes with

`schedule_task` builds a frame, `task_switch` saves one and loads another, all by slot
number, and slots are used again after `kill`. A `Tracked` history remembers for each slot
which task is in it, as far as its frames go: the one built for it and the one saved when
it was last switched out. `contexts_kept` says that the table never mixes them up.
-/

namespace Tyleros.Scheduler

open Tyleros.Lib

/-- A task: the frame it was created with, and the one with which it was last switched
out. -/
structure Occupant where
  built : TaskFrame
  saved : Option TaskFrame

/-- The frame to go on with. -/
def Occupant.frame (occupant : Occupant) : TaskFrame := occupant.saved.getD occupant.built

/-- A history with the task in each slot, and the slots from which a task was ever switched
out. -/
structure Tracked where
  history : History
  occupant : Nat → Option Occupant
  used : Nat → Bool

namespace Tracked

/-- After `scheduler::init`, the boot task is in its slot. -/
def init : Tracked where
  history := History.init
  occupant := Function.update (fun _ => none) KERNEL_TASK_ID (some ⟨{}, none⟩)
  used := fun _ => false

/-- The frame that `schedule_task` builds. -/
def builtFrame (isKernel : Bool) (newTask context : UInt64) (stackTop : Nat) : TaskFrame :=
  initialFrame isKernel newTask context
    (UInt64.ofNat (sub64 (add64 stackTop TASK_STACK_SIZE) 8))

/-- What a call that led to `h` says about the tasks in the slots. -/
def record (t : Tracked) (h : History) : Op → Tracked
  | .schedule isKernel newTask context stackTop =>
    { t with
      history := h
      occupant := Function.update t.occupant (nextTaskId t.history.sched)
        (some ⟨builtFrame isKernel newTask context stackTop, none⟩) }
  | .taskSwitch tcb _ =>
    let old := t.history.sched.currentTaskId
    if h.sched.currentTaskId = old then { t with history := h }
    else
      { history := h
        occupant := Function.update t.occupant old
          ((t.occupant old).map fun occupant => { occupant with saved := some tcb })
        used := Function.update t.used old true }
  | .kill id => { t with history := h, occupant := Function.update t.occupant id none }
  | .exit =>
    { t with
      history := h
      occupant := Function.update t.occupant t.history.sched.currentTaskId none }

def step (exitAddress : UInt64) (t : Tracked) (o : Op) : Except Stop Tracked := do
  let h ← t.history.step exitAddress o
  return t.record h o

end Tracked

/-- The scheduler with its tasks. -/
def trackedMachine (exitAddress : UInt64) : Machine Tracked Op Stop := ⟨Tracked.step exitAddress⟩

/-- The frame in slot `i`. -/
def State.frameOf (s : State) (i : Nat) : TaskFrame := (s.tasks i).frame

/-! ## What the calls do to frames -/

theorem scheduleTask_frames {isKernel : Bool} {newTask context exit : UInt64} {stackTop id : Nat}
    {s s' : State} (h : scheduleTask isKernel newTask context exit stackTop s = .ok (id, s')) :
    s'.frameOf = Function.update s.frameOf id
        (Tracked.builtFrame isKernel newTask context stackTop) ∧
      s'.fxsaveBlocks = s.fxsaveBlocks := by
  unfold scheduleTask at h
  obtain ⟨_, -, h⟩ := bind_eq_ok h
  cases h
  refine ⟨?_, rfl⟩
  funext i
  by_cases eq : i = nextTaskId s <;> simp [State.frameOf, Tracked.builtFrame, eq]

/-- `task_switch` saves the frame of the old task and leaves the one of the new task in
`*tcb`, unless nobody waits. -/
theorem taskSwitch_frames {tcb : TaskFrame} {fxsave : FxsaveData} {s s' : State}
    (current : s.currentTaskId < s.totalTasks) (h : taskSwitch tcb fxsave s = .ok s') :
    (s'.currentTaskId = s.currentTaskId ∧ s'.frameOf = s.frameOf ∧ s'.tcb = tcb ∧
        s'.fxsaveBlocks = s.fxsaveBlocks) ∨
      (s'.currentTaskId ≠ s.currentTaskId ∧ s.stateOf s'.currentTaskId = .waiting ∧
        s'.frameOf = Function.update s.frameOf s.currentTaskId tcb ∧
        s'.tcb = s.frameOf s'.currentTaskId ∧
        s'.fxsaveBlocks = Function.update s.fxsaveBlocks s.currentTaskId fxsave ∧
        s'.tempFxsave = s.fxsaveBlocks s'.currentTaskId) := by
  unfold taskSwitch at h
  obtain ⟨_, -, h⟩ := bind_eq_ok h
  obtain ⟨found, search, h⟩ := bind_eq_ok h
  rcases searchNext_round current with ⟨next, -, ne, waiting, result⟩ | ⟨-, result⟩
  · rw [result] at search
    cases search
    cases h
    refine Or.inr ⟨ne, waiting, ?_, ?_, rfl, Function.update_of_ne ne _ _⟩
    · funext i
      by_cases eqNext : i = next <;> by_cases eqOld : i = s.currentTaskId <;>
        simp_all [State.frameOf, Function.update_apply]
    · show (Function.update s.tasks s.currentTaskId _ next).frame = _
      rw [Function.update_of_ne ne]
      rfl
  · rw [result] at search
    cases search
    cases h
    exact Or.inl ⟨rfl, rfl, rfl, rfl⟩

theorem kill_frames {id : Nat} {s s' : State} (h : kill id s = .ok s') :
    s'.frameOf = s.frameOf ∧ s'.fxsaveBlocks = s.fxsaveBlocks := by
  have frames : (fun i => (Function.update s.tasks id
      { s.tasks id with state := .killed } i).frame) = s.frameOf := by
    funext i
    by_cases eq : i = id <;> simp [State.frameOf, eq]
  unfold kill at h
  split at h
  · split at h
    · cases h
      exact ⟨frames, rfl⟩
    · cases h
      exact ⟨frames, rfl⟩
  · cases h

/-! ## Runs -/

section Runs

variable {exitAddress : UInt64} {t t' : Tracked}

theorem Tracked.step_cases {o : Op} (hs : t.step exitAddress o = .ok t') :
    ∃ h, t.history.step exitAddress o = .ok h ∧ t' = t.record h o := by
  obtain ⟨h, stepped, hs⟩ := bind_eq_ok hs
  cases hs
  exact ⟨h, stepped, rfl⟩

/-- `schedule_task` returns a slot that is neither running nor waiting. When `task_switch`
installs a slot, the frame in `*tcb` is the one built for its present occupant, or saved
when that one was last switched out; and no other frame than that of the task switched out
changes. -/
def ContextKept (exitAddress : UInt64) (t : Tracked) : Op → Prop
  | .schedule isKernel newTask context stackTop =>
      ∀ id s', scheduleTask isKernel newTask context exitAddress stackTop t.history.sched =
          .ok (id, s') →
        t.history.sched.stateOf id ≠ .running ∧ t.history.sched.stateOf id ≠ .waiting
  | .taskSwitch tcb fxsave =>
      ∀ s', taskSwitch tcb fxsave t.history.sched = .ok s' →
        (s'.currentTaskId ≠ t.history.sched.currentTaskId →
          ∃ occupant, t.occupant s'.currentTaskId = some occupant ∧
            s'.tcb = occupant.saved.getD occupant.built ∧
            s'.frameOf t.history.sched.currentTaskId = tcb) ∧
        (∀ i, i ≠ t.history.sched.currentTaskId → s'.frameOf i = t.history.sched.frameOf i) ∧
        (s'.currentTaskId = t.history.sched.currentTaskId →
          s'.frameOf = t.history.sched.frameOf ∧ s'.tcb = tcb)
  | _ => True

/-- The frame in a slot is that of the task in it, and the slots without a task are those
marked killed. -/
structure Tracked.Inv (t : Tracked) : Prop where
  wf : t.history.Wf
  frames : ∀ i occupant, t.occupant i = some occupant → t.history.sched.frameOf i = occupant.frame
  empty : ∀ i, t.occupant i = none ↔ t.history.sched.stateOf i = .killed

theorem Tracked.init_inv : Tracked.init.Inv := by
  refine ⟨History.init_wf, fun i occupant here => ?_, fun i => ?_⟩
  · by_cases eq : i = KERNEL_TASK_ID
    · subst eq
      obtain rfl : ⟨{}, none⟩ = occupant := Option.some.inj here
      rfl
    · simp [Tracked.init, eq] at here
  · by_cases eq : i = KERNEL_TASK_ID <;>
      simp [Tracked.init, History.init, Scheduler.init, State.stateOf, eq, TaskContext.zeroed]

/-- Killing the task in a slot. -/
theorem Tracked.Inv.kill {id : Nat} {exiting : Bool} {h : History} (inv : t.Inv)
    (killed : t.history.kill id exiting = .ok h) :
    Tracked.Inv { t with history := h, occupant := Function.update t.occupant id none } := by
  obtain ⟨called, -, -⟩ := History.kill_cases killed
  obtain ⟨-, -, -, states, -, -, -⟩ := Scheduler.kill_cases called
  obtain ⟨frames, -⟩ := kill_frames called
  refine ⟨inv.wf.kill killed, fun i occupant here => ?_, fun i => ?_⟩
  · dsimp only at here ⊢
    rw [frames]
    rw [Function.update_apply] at here
    split at here
    · cases here
    · exact inv.frames i occupant here
  · dsimp only
    rw [states, Function.update_apply, Function.update_apply]
    split
    · exact iff_of_true rfl rfl
    · exact inv.empty i

theorem Tracked.Inv.schedule {isKernel : Bool} {newTask context : UInt64} {stackTop : Nat} {h : History}
    (inv : t.Inv)
    (stepped : t.history.step exitAddress (.schedule isKernel newTask context stackTop) = .ok h) :
    (t.record h (.schedule isKernel newTask context stackTop)).Inv := by
  obtain ⟨id, scheduled, -, -⟩ := History.schedule_cases stepped
  obtain ⟨frames, -⟩ := scheduleTask_frames scheduled
  obtain ⟨rfl, -, -, -, states, -, -, -⟩ := scheduleTask_cases scheduled
  refine ⟨inv.wf.step stepped, fun i occupant here => ?_, fun i => ?_⟩
  · dsimp only [Tracked.record] at here ⊢
    rw [frames, Function.update_apply]
    rw [Function.update_apply] at here
    split
    · next same =>
        rw [if_pos same] at here
        cases here
        rfl
    · next other =>
        rw [if_neg other] at here
        exact inv.frames i occupant here
  · dsimp only [Tracked.record]
    rw [states, Function.update_apply, Function.update_apply]
    split
    · exact iff_of_false (Option.some_ne_none _) nofun
    · exact inv.empty i

theorem Tracked.Inv.taskSwitch {tcb : TaskFrame} {fxsave : FxsaveData} {h : History} (inv : t.Inv)
    (stepped : t.history.step exitAddress (.taskSwitch tcb fxsave) = .ok h) :
    (t.record h (.taskSwitch tcb fxsave)).Inv := by
  have wf := inv.wf.step stepped
  obtain ⟨switched, -, -⟩ := History.taskSwitch_cases stepped
  obtain ⟨-, -, -, -, -, outcome⟩ := Scheduler.taskSwitch_cases inv.wf.current switched
  rcases taskSwitch_frames inv.wf.current switched with
    ⟨same, frames, -, -⟩ | ⟨ne, -, frames, -, -, -⟩
  · rw [Tracked.record, if_pos same]
    refine ⟨wf, fun i occupant here => ?_, fun i => ?_⟩
    · dsimp only at here ⊢
      rw [frames]
      exact inv.frames i occupant here
    · rcases outcome with ⟨-, -, states⟩ | ⟨-, other, -, -⟩
      · dsimp only
        rw [states]
        exact inv.empty i
      · exact absurd same other
  · rw [Tracked.record, if_neg ne]
    refine ⟨wf, fun i occupant here => ?_, fun i => ?_⟩
    · dsimp only at here ⊢
      rw [frames, Function.update_apply]
      rw [Function.update_apply] at here
      split
      · next old =>
          rw [if_pos old] at here
          obtain ⟨before, -, rfl⟩ := Option.map_eq_some_iff.mp here
          rfl
      · next other =>
          rw [if_neg other] at here
          exact inv.frames i occupant here
    · rcases outcome with ⟨-, same, -⟩ | ⟨-, -, waiting, states⟩
      · exact absurd same ne
      · -- the slot switched out keeps its task, and the one switched in had one
        have kept : Function.update t.occupant t.history.sched.currentTaskId
            ((t.occupant t.history.sched.currentTaskId).map
              fun occupant => { occupant with saved := some tcb }) i = none ↔
            t.occupant i = none := by
          rw [Function.update_apply]
          split
          · next old => rw [Option.map_eq_none_iff, old]
          · exact Iff.rfl
        dsimp only
        rw [kept, states, Function.update_apply, inv.empty i]
        split
        · next next =>
            rw [next, waiting]
            exact iff_of_false nofun nofun
        · exact Iff.rfl

theorem Tracked.Inv.step {o : Op} (inv : t.Inv) (hs : t.step exitAddress o = .ok t') : t'.Inv := by
  obtain ⟨h, stepped, rfl⟩ := Tracked.step_cases hs
  cases o with
  | schedule isKernel newTask context stackTop => exact inv.schedule stepped
  | taskSwitch tcb fxsave => exact inv.taskSwitch stepped
  | kill id => exact inv.kill stepped
  | exit => exact inv.kill stepped

theorem Tracked.Inv.contextKept (inv : t.Inv) (o : Op) : ContextKept exitAddress t o := by
  cases o with
  | schedule isKernel newTask context stackTop =>
      intro id s' scheduled
      obtain ⟨rfl, -⟩ := scheduleTask_cases scheduled
      rw [inv.wf.nextTaskId_free.1]
      exact ⟨nofun, nofun⟩
  | taskSwitch tcb fxsave =>
      intro s' switched
      rcases taskSwitch_frames inv.wf.current switched with
        ⟨same, frames, left, -⟩ | ⟨ne, waiting, frames, loaded, -, -⟩
      · exact ⟨fun ne => absurd same ne, fun i _ => by rw [frames], fun _ => ⟨frames, left⟩⟩
      · refine ⟨fun _ => ?_, fun i other => ?_, fun same => absurd same ne⟩
        · have inUse : t.occupant s'.currentTaskId ≠ none := by
            rw [ne_eq, inv.empty, waiting]
            exact nofun
          obtain ⟨occupant, here⟩ := Option.ne_none_iff_exists'.mp inUse
          refine ⟨occupant, here, ?_, ?_⟩
          · rw [loaded, inv.frames _ occupant here]
            rfl
          · rw [frames, Function.update_self]
        · rw [frames, Function.update_of_ne other]
  | kill id => trivial
  | exit => trivial

/-- In every run, tasks are put into free slots only, and resume with their own frames. -/
theorem contexts_kept (exitAddress : UInt64) (ops : List Op) :
    (trackedMachine exitAddress).EachStep (ContextKept exitAddress) Tracked.init ops :=
  Machine.eachStep_of_inv (fun _ _ _ inv _ hs => Tracked.Inv.step inv hs)
    (fun _ o inv _ => Tracked.Inv.contextKept inv o) Tracked.init_inv Machine.eachStep_true

end Runs

end Tyleros.Scheduler
