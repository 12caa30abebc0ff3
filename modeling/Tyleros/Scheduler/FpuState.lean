import Tyleros.Scheduler.Contexts

/-!
# The FPU contents a task starts with

`fxsave_blocks` is indexed by slot and outlives the tasks: `schedule_task` does not write
to it, so a task in a slot that was used before starts with what `task_switch` saved there
for an earlier one. `starts_alike_iff` is about two runs that differ in the FPU contents of
tasks that are killed later: tasks start alike in both exactly if each of them starts in a
slot from which nobody was switched out before.
-/

namespace Tyleros.Scheduler

open Tyleros.Lib

/-- The same call, with other FPU contents if it is an interrupt. -/
def Op.withFxsave (fxsave : FxsaveData) : Op → Op
  | .taskSwitch tcb _ => .taskSwitch tcb fxsave
  | o => o

/-- The FPU contents an interrupt finds. -/
def Op.fxsave : Op → FxsaveData
  | .taskSwitch _ fxsave => fxsave
  | _ => Vector.replicate 512 0

theorem Op.withFxsave_fxsave (o : Op) : o.withFxsave o.fxsave = o := by
  cases o <;> rfl

def Tracked.current (t : Tracked) : Nat := t.history.sched.currentTaskId

def Tracked.tempFxsave (t : Tracked) : FxsaveData := t.history.sched.tempFxsave

/-- A task that has not been switched out since it was created is switched to. -/
def FirstStart (t t' : Tracked) : Prop :=
  t'.current ≠ t.current ∧ ∃ occupant, t.occupant t'.current = some occupant ∧ occupant.saved = none

section TwoRuns

variable (exitAddress : UInt64)

/-- The task in slot `i` is killed in a run. -/
def Dies (i : Nat) : Tracked → List Op → Prop
  | _, [] => False
  | t, o :: ops => o.victim t.history = some i ∨ ∃ t', t.step exitAddress o = .ok t' ∧ Dies i t' ops

/-- The second run makes the same calls, up to the FPU contents of tasks that are killed
later. -/
def Alike : Tracked → List Op → List Op → Prop
  | _, [], [] => True
  | t, o :: ops, o' :: ops' =>
      (o' = o ∨ ∃ fxsave t', o' = o.withFxsave fxsave ∧ t.step exitAddress o = .ok t' ∧
        Dies exitAddress t.current t' ops) ∧
      ∀ t', t.step exitAddress o = .ok t' → Alike t' ops ops'
  | _, _, _ => False

/-- Tasks start with the same FPU contents in two runs. -/
def SameStarts : Tracked → Tracked → List Op → List Op → Prop
  | t₁, t₂, o₁ :: ops₁, o₂ :: ops₂ => ∀ t₁' t₂', t₁.step exitAddress o₁ = .ok t₁' →
      t₂.step exitAddress o₂ = .ok t₂' →
      (FirstStart t₁ t₁' → t₁'.tempFxsave = t₂'.tempFxsave) ∧ SameStarts t₁' t₂' ops₁ ops₂
  | _, _, _, _ => True

/-- Nobody was ever switched out of the slot in which a task starts. -/
def StartsUnused (t : Tracked) (o : Op) : Prop :=
  ∀ t', t.step exitAddress o = .ok t' → FirstStart t t' → t.used t'.current = false

end TwoRuns

/-! ## One step with other FPU contents -/

def State.withFpu (s : State) (blocks : Nat → FxsaveData) (temp : FxsaveData) : State :=
  { s with fxsaveBlocks := blocks, tempFxsave := temp }

def History.withFpu (h : History) (blocks : Nat → FxsaveData) (temp : FxsaveData) : History :=
  { h with sched := h.sched.withFpu blocks temp }

def Tracked.withFpu (t : Tracked) (blocks : Nat → FxsaveData) (temp : FxsaveData) : Tracked :=
  { t with history := t.history.withFpu blocks temp }

/-- The saved FPU contents. -/
def Tracked.blocks (t : Tracked) : Nat → FxsaveData := t.history.sched.fxsaveBlocks

section Steps

variable {exitAddress : UInt64} {t t' : Tracked} {o : Op}

theorem searchNext_withFpu (s : State) (blocks : Nat → FxsaveData) (temp : FxsaveData) (fuel next : Nat) :
    searchNext (s.withFpu blocks temp) fuel next = searchNext s fuel next := by
  induction fuel generalizing next with
  | zero => rfl
  | succ fuel ih =>
      simp only [searchNext, ih]
      rfl

theorem kill_withFpu {id : Nat} {s s' : State} (called : kill id s = .ok s')
    (blocks : Nat → FxsaveData) (temp : FxsaveData) :
    kill id (s.withFpu blocks temp) = .ok (s'.withFpu blocks temp) := by
  unfold kill at called ⊢
  split at called
  · next bound =>
      rw [if_pos bound]
      split at called
      · next none_ =>
          cases called
          have same : (s.withFpu blocks temp).stackOf id = none := none_
          rw [same]
          rfl
      · next stack some_ =>
          cases called
          have same : (s.withFpu blocks temp).stackOf id = some stack := some_
          rw [same]
          rfl
  · cases called

theorem History.kill_withFpu {id : Nat} {exiting : Bool} {h h' : History}
    (killed : h.kill id exiting = .ok h') (blocks : Nat → FxsaveData) (temp : FxsaveData) :
    (h.withFpu blocks temp).kill id exiting = .ok (h'.withFpu blocks temp) := by
  obtain ⟨s, called, killed⟩ := bind_eq_ok killed
  cases killed
  show (Scheduler.kill id (h.sched.withFpu blocks temp) >>= _) = _
  rw [Scheduler.kill_withFpu called]
  rfl

/-- `task_switch` in the second run: the same switch, which saves other contents. -/
theorem taskSwitch_withFpu {tcb : TaskFrame} {fxsave : FxsaveData} {s s' : State}
    (current : s.currentTaskId < s.totalTasks) (switched : taskSwitch tcb fxsave s = .ok s')
    (blocks : Nat → FxsaveData) (temp fxsave' : FxsaveData) :
    ∃ blocks' temp', taskSwitch tcb fxsave' (s.withFpu blocks temp) = .ok (s'.withFpu blocks' temp') ∧
      (s'.currentTaskId = s.currentTaskId → blocks' = blocks) ∧
      (s'.currentTaskId ≠ s.currentTaskId →
        blocks' = Function.update blocks s.currentTaskId fxsave' ∧ temp' = blocks s'.currentTaskId) := by
  unfold taskSwitch at switched ⊢
  obtain ⟨_, running, switched⟩ := bind_eq_ok switched
  obtain ⟨found, search, switched⟩ := bind_eq_ok switched
  have search' : searchNext (s.withFpu blocks temp) (s.withFpu blocks temp).totalTasks
      (s.withFpu blocks temp).currentTaskId = .ok found := (searchNext_withFpu _ _ _ _ _).trans search
  have running' : kassert ((s.withFpu blocks temp).stateOf (s.withFpu blocks temp).currentTaskId ==
      .running) "current task is not running?" = .ok () := running
  rw [running', ok_bind, search', ok_bind]
  rcases searchNext_round current with ⟨next, -, ne, -, result⟩ | ⟨-, result⟩
  · rw [result] at search
    cases search
    cases switched
    refine ⟨Function.update blocks s.currentTaskId fxsave', blocks next, ?_, fun same => absurd same ne,
      fun _ => ⟨rfl, rfl⟩⟩
    have loaded : Function.update blocks s.currentTaskId fxsave' next = blocks next :=
      Function.update_of_ne ne _ _
    rw [← loaded]
    rfl
  · rw [result] at search
    cases search
    cases switched
    exact ⟨blocks, fxsave', rfl, fun _ => rfl, fun ne => absurd rfl ne⟩

/-- A call in the second run. -/
theorem Tracked.step_withFpu (inv : t.Inv) (hs : t.step exitAddress o = .ok t')
    (blocks : Nat → FxsaveData) (temp fxsave' : FxsaveData) :
    ∃ blocks' temp', (t.withFpu blocks temp).step exitAddress (o.withFxsave fxsave') =
        .ok (t'.withFpu blocks' temp') ∧
      (t'.current = t.current → blocks' = blocks) ∧
      (t'.current ≠ t.current →
        blocks' = Function.update blocks t.current fxsave' ∧ temp' = blocks t'.current) := by
  obtain ⟨h, stepped, rfl⟩ := Tracked.step_cases hs
  cases o with
  | schedule isKernel newTask context stackTop =>
      obtain ⟨⟨id, s⟩, scheduled, stepped⟩ := bind_eq_ok stepped
      cases stepped
      obtain ⟨_, room, scheduled⟩ := bind_eq_ok scheduled
      cases scheduled
      refine ⟨blocks, temp, ?_, fun _ => rfl, fun ne => absurd rfl ne⟩
      have free : nextTaskId (t.history.sched.withFpu blocks temp) = nextTaskId t.history.sched := rfl
      have room' : kassert (nextTaskId (t.history.sched.withFpu blocks temp) < MAX_TASKS)
          "ran out of tasks!" = .ok () := room
      show ((scheduleTask isKernel newTask context exitAddress stackTop
        (t.history.sched.withFpu blocks temp) >>= _) >>= _) = _
      unfold scheduleTask
      dsimp only
      rw [room']
      rfl
  | taskSwitch tcb fxsave =>
      obtain ⟨s, switched, stepped⟩ := bind_eq_ok stepped
      cases stepped
      obtain ⟨blocks', temp', switched', same, other⟩ :=
        taskSwitch_withFpu inv.wf.current switched blocks temp fxsave'
      have current : (t.record ⟨s, t.history.alive, false⟩ (.taskSwitch tcb fxsave)).current =
          s.currentTaskId := by
        unfold Tracked.record
        dsimp only
        split <;> rfl
      refine ⟨blocks', temp', ?_, ?_, ?_⟩
      · show ((Scheduler.taskSwitch tcb fxsave' (t.history.sched.withFpu blocks temp) >>= _) >>= _) = _
        rw [switched']
        show Except.ok (Tracked.record (t.withFpu blocks temp) ⟨s.withFpu blocks' temp', t.history.alive,
          false⟩ (.taskSwitch tcb fxsave')) = _
        unfold Tracked.record
        dsimp only
        split
        · next eq =>
            rw [if_pos (show s.currentTaskId = t.history.sched.currentTaskId from eq)]
            rfl
        · next ne =>
            rw [if_neg (show s.currentTaskId ≠ t.history.sched.currentTaskId from ne)]
            rfl
      · rw [current]
        exact same
      · rw [current]
        exact other
  | kill id =>
      obtain ⟨killed, -⟩ := History.kill_cases stepped
      have current := (Scheduler.kill_cases killed).2.1
      refine ⟨blocks, temp, ?_, fun _ => rfl, fun ne => absurd current ne⟩
      show ((t.history.withFpu blocks temp).kill id t.history.exiting >>= _) = _
      rw [History.kill_withFpu stepped]
      rfl
  | exit =>
      obtain ⟨killed, -⟩ := History.kill_cases stepped
      have current := (Scheduler.kill_cases killed).2.1
      refine ⟨blocks, temp, ?_, fun _ => rfl, fun ne => absurd current ne⟩
      show ((t.history.withFpu blocks temp).kill t.history.sched.currentTaskId true >>= _) = _
      rw [History.kill_withFpu stepped]
      rfl

/-- What a call does to the saved FPU contents. -/
theorem Tracked.step_blocks (inv : t.Inv) (hs : t.step exitAddress o = .ok t') :
    (t'.current = t.current → t'.blocks = t.blocks) ∧
      (t'.current ≠ t.current →
        t'.blocks = Function.update t.blocks t.current o.fxsave ∧
          t'.tempFxsave = t.blocks t'.current) := by
  obtain ⟨blocks', temp', again, same, other⟩ :=
    Tracked.step_withFpu inv hs t.blocks t.tempFxsave o.fxsave
  rw [Op.withFxsave_fxsave] at again
  have result : t' = t'.withFpu blocks' temp' := Except.ok.inj (hs.symm.trans again)
  have blocks : t'.blocks = blocks' := by
    rw [result]
    rfl
  have temp : t'.tempFxsave = temp' := by
    rw [result]
    rfl
  rw [blocks, temp]
  exact ⟨same, other⟩

/-- The slots in use. -/
theorem Tracked.step_used (hs : t.step exitAddress o = .ok t') :
    t'.used = if t'.current = t.current then t.used else Function.update t.used t.current true := by
  obtain ⟨h, stepped, rfl⟩ := Tracked.step_cases hs
  cases o with
  | schedule isKernel newTask context stackTop =>
      obtain ⟨id, scheduled, -, -⟩ := History.schedule_cases stepped
      exact (if_pos (scheduleTask_cases scheduled).2.2.1).symm
  | taskSwitch tcb fxsave =>
      by_cases same : h.sched.currentTaskId = t.history.sched.currentTaskId
      · rw [Tracked.record, if_pos same]
        exact (if_pos same).symm
      · rw [Tracked.record, if_neg same]
        exact (if_neg same).symm
  | kill id =>
      obtain ⟨killed, -⟩ := History.kill_cases stepped
      exact (if_pos (Scheduler.kill_cases killed).2.1).symm
  | exit =>
      obtain ⟨killed, -⟩ := History.kill_cases stepped
      exact (if_pos (Scheduler.kill_cases killed).2.1).symm

/-- The task in a slot has been switched out before. -/
def Tracked.Resumes (t : Tracked) (i : Nat) : Prop :=
  ∃ occupant, t.occupant i = some occupant ∧ occupant.saved ≠ none

/-- A call takes no task that has been switched out before out of its slot, unless it kills
it; and what it switches out has been. -/
theorem Tracked.step_resumes (inv : t.Inv) (hs : t.step exitAddress o = .ok t') {i : Nat} :
    (t.Resumes i → t'.Resumes i ∨ o.victim t.history = some i) ∧
      (t'.current ≠ t.current → t'.Resumes t.current) := by
  obtain ⟨h, stepped, rfl⟩ := Tracked.step_cases hs
  cases o with
  | schedule isKernel newTask context stackTop =>
      obtain ⟨id, scheduled, -, -⟩ := History.schedule_cases stepped
      refine ⟨fun ⟨occupant, here, saved⟩ => Or.inl ⟨occupant, ?_, saved⟩,
        fun ne => absurd (scheduleTask_cases scheduled).2.2.1 ne⟩
      have other : i ≠ nextTaskId t.history.sched := by
        rintro rfl
        rw [(inv.empty _).mpr inv.wf.nextTaskId_free.1] at here
        cases here
      exact (Function.update_of_ne other _ _).trans here
  | taskSwitch tcb fxsave =>
      obtain ⟨switched, -, -⟩ := History.taskSwitch_cases stepped
      have running := (Scheduler.taskSwitch_cases inv.wf.current switched).1
      by_cases same : h.sched.currentTaskId = t.history.sched.currentTaskId
      · rw [Tracked.record, if_pos same]
        exact ⟨Or.inl, fun ne => absurd same ne⟩
      · rw [Tracked.record, if_neg same]
        have inUse : t.occupant t.history.sched.currentTaskId ≠ none := by
          rw [ne_eq, inv.empty, running]
          decide
        obtain ⟨old, here⟩ := Option.ne_none_iff_exists'.mp inUse
        have out : Function.update t.occupant t.history.sched.currentTaskId
            ((t.occupant t.history.sched.currentTaskId).map
              fun occupant => { occupant with saved := some tcb }) t.history.sched.currentTaskId =
            some { old with saved := some tcb } := by
          rw [Function.update_self, here]
          rfl
        refine ⟨fun ⟨occupant, there, saved⟩ => Or.inl ?_,
          fun _ => ⟨_, out, Option.some_ne_none tcb⟩⟩
        by_cases eq : i = t.history.sched.currentTaskId
        · subst eq
          exact ⟨_, out, Option.some_ne_none tcb⟩
        · exact ⟨occupant, (Function.update_of_ne eq _ _).trans there, saved⟩
  | kill id =>
      obtain ⟨killed, -⟩ := History.kill_cases stepped
      refine ⟨fun ⟨occupant, here, saved⟩ => ?_,
        fun ne => absurd (Scheduler.kill_cases killed).2.1 ne⟩
      by_cases eq : i = id
      · exact Or.inr (congrArg some eq.symm)
      · exact Or.inl ⟨occupant, (Function.update_of_ne eq _ _).trans here, saved⟩
  | exit =>
      obtain ⟨killed, -⟩ := History.kill_cases stepped
      refine ⟨fun ⟨occupant, here, saved⟩ => ?_,
        fun ne => absurd (Scheduler.kill_cases killed).2.1 ne⟩
      by_cases eq : i = t.history.sched.currentTaskId
      · exact Or.inr (congrArg some eq.symm)
      · exact Or.inl ⟨occupant, (Function.update_of_ne eq _ _).trans here, saved⟩

end Steps

/-! ## Two runs -/

section Runs

variable {exitAddress : UInt64} {t : Tracked}

/-- Tasks that start in unused slots start alike. -/
theorem sameStarts_of_unused (ops : List Op) {ops' : List Op} (inv : t.Inv)
    {blocks : Nat → FxsaveData} (temp : FxsaveData)
    (agree : ∀ i, t.used i = false → blocks i = t.blocks i) (alike : Alike exitAddress t ops ops')
    (unused : (trackedMachine exitAddress).EachStep (StartsUnused exitAddress) t ops) :
    SameStarts exitAddress t (t.withFpu blocks temp) ops ops' := by
  induction ops generalizing t blocks temp ops' with
  | nil =>
      cases ops' with
      | nil => trivial
      | cons o' ops' => exact alike.elim
  | cons o ops ih =>
      cases ops' with
      | nil => exact alike.elim
      | cons o' ops' =>
          intro t₁ t₂ hs₁ hs₂
          obtain ⟨fxsave, rfl⟩ : ∃ fxsave, o' = o.withFxsave fxsave := by
            rcases alike.1 with rfl | ⟨fxsave, -, eq, -⟩
            · exact ⟨o'.fxsave, (Op.withFxsave_fxsave o').symm⟩
            · exact ⟨fxsave, eq⟩
          obtain ⟨blocks', temp', again, same, other⟩ :=
            Tracked.step_withFpu inv hs₁ blocks temp fxsave
          obtain rfl := Except.ok.inj (hs₂.symm.trans again)
          obtain ⟨same₁, other₁⟩ := Tracked.step_blocks inv hs₁
          have used := Tracked.step_used hs₁
          refine ⟨fun first => ?_, ih (inv.step hs₁) temp' (fun i free => ?_) (alike.2 t₁ hs₁)
            (unused.2 t₁ hs₁)⟩
          · rw [(other₁ first.1).2]
            show _ = temp'
            rw [(other first.1).2]
            exact (agree _ (unused.1 t₁ hs₁ first)).symm
          · by_cases current : t₁.current = t.current
            · rw [used, if_pos current] at free
              rw [same current, same₁ current]
              exact agree i free
            · rw [used, if_neg current, Function.update_apply] at free
              split at free
              · cases free
              · next ne =>
                  rw [(other current).1, (other₁ current).1, Function.update_of_ne ne,
                    Function.update_of_ne ne]
                  exact agree i free

theorem exists_other_fxsave (fxsave : FxsaveData) : ∃ other : FxsaveData, other ≠ fxsave := by
  by_cases zero : fxsave = Vector.replicate 512 0
  · refine ⟨Vector.replicate 512 1, fun same => ?_⟩
    have first := congrArg (fun v : FxsaveData => v[0]) (same.trans zero)
    simp at first
  · exact ⟨Vector.replicate 512 0, fun same => zero same.symm⟩

/-- A task that is gone after a step is killed by it, or was gone before. -/
theorem gone_before {exitAddress : UInt64} {ops : List Op} {o : Op} {t' : Tracked} {i : Nat}
    (inv : t.Inv) (hs : t.step exitAddress o = .ok t')
    (gone : ¬ t'.Resumes i ∨ Dies exitAddress i t' ops) :
    ¬ t.Resumes i ∨ Dies exitAddress i t (o :: ops) := by
  rcases gone with gone | dies
  · by_cases resumes : t.Resumes i
    · rcases (Tracked.step_resumes inv hs).1 resumes with still | killed
      · exact absurd still gone
      · exact Or.inr (Or.inl killed)
    · exact Or.inl resumes
  · exact Or.inr (Or.inr ⟨t', hs, dies⟩)

/-- There is a second run in which everything that tasks leave behind when they are killed
is different. It tells used slots from unused ones. -/
theorem exists_telling_run (exitAddress : UInt64) (ops : List Op) (inv : t.Inv)
    (blocks : Nat → FxsaveData) (temp : FxsaveData)
    (differ : ∀ i, t.used i = true → (¬ t.Resumes i ∨ Dies exitAddress i t ops) →
      blocks i ≠ t.blocks i) :
    ∃ ops', Alike exitAddress t ops ops' ∧
      (SameStarts exitAddress t (t.withFpu blocks temp) ops ops' →
        (trackedMachine exitAddress).EachStep (StartsUnused exitAddress) t ops) := by
  induction ops generalizing t blocks temp with
  | nil => exact ⟨[], trivial, fun _ => trivial⟩
  | cons o ops ih =>
      cases hs : t.step exitAddress o with
      | error e =>
          have stops : ∀ t', t.step exitAddress o ≠ .ok t' := fun t' eq => by
            rw [hs] at eq
            cases eq
          exact ⟨o :: ops, ⟨Or.inl rfl, fun t' eq => absurd eq (stops t')⟩,
            fun _ => ⟨fun t' eq => absurd eq (stops t'), fun t' eq => absurd eq (stops t')⟩⟩
      | ok t' =>
          -- the contents of the second run at this step
          obtain ⟨fxsave, alike, altered⟩ : ∃ fxsave : FxsaveData,
              (o.withFxsave fxsave = o ∨ Dies exitAddress t.current t' ops) ∧
                (Dies exitAddress t.current t' ops → fxsave ≠ o.fxsave) := by
            by_cases dies : Dies exitAddress t.current t' ops
            · obtain ⟨other, ne⟩ := exists_other_fxsave o.fxsave
              exact ⟨other, Or.inr dies, fun _ => ne⟩
            · exact ⟨o.fxsave, Or.inl (Op.withFxsave_fxsave o), fun h => absurd h dies⟩
          obtain ⟨blocks', temp', again, same, other⟩ :=
            Tracked.step_withFpu inv hs blocks temp fxsave
          obtain ⟨same₁, other₁⟩ := Tracked.step_blocks inv hs
          have used := Tracked.step_used hs
          have differ' : ∀ i, t'.used i = true → (¬ t'.Resumes i ∨ Dies exitAddress i t' ops) →
              blocks' i ≠ t'.blocks i := by
            intro i inUse gone
            by_cases current : t'.current = t.current
            · rw [used, if_pos current] at inUse
              rw [same current, same₁ current]
              exact differ i inUse (gone_before inv hs gone)
            · rw [(other current).1, (other₁ current).1]
              rw [used, if_neg current] at inUse
              by_cases eq : i = t.current
              · subst eq
                rw [Function.update_self, Function.update_self]
                have resumes := (Tracked.step_resumes inv hs (i := t.current)).2 current
                exact altered (gone.resolve_left fun not => not resumes)
              · rw [Function.update_of_ne eq] at inUse
                rw [Function.update_of_ne eq, Function.update_of_ne eq]
                exact differ i inUse (gone_before inv hs gone)
          obtain ⟨ops', alike', telling⟩ := ih (inv.step hs) blocks' temp' differ'
          refine ⟨o.withFxsave fxsave :: ops', ⟨?_, fun t'' eq => ?_⟩, fun starts => ⟨?_, fun t'' eq => ?_⟩⟩
          · rcases alike with eq | dies
            · exact Or.inl eq
            · exact Or.inr ⟨fxsave, t', rfl, hs, dies⟩
          · obtain rfl := Except.ok.inj (hs.symm.trans eq)
            exact alike'
          · intro t'' eq first
            obtain rfl := Except.ok.inj (hs.symm.trans eq)
            have equal := (starts t' _ hs again).1 first
            by_contra inUse
            obtain ⟨occupant, here, fresh⟩ := first.2
            refine differ t'.current (by simpa using inUse) (Or.inl ?_) ?_
            · rintro ⟨occupant', here', saved⟩
              rw [here] at here'
              cases here'
              exact saved fresh
            · rw [← (other first.1).2, ← (other₁ first.1).2]
              exact equal.symm
          · obtain rfl := Except.ok.inj (hs.symm.trans eq)
            exact telling (starts t' _ hs again).2

/-- Whatever FPU contents tasks had that are killed later, all tasks start with the same
FPU contents, exactly if no task starts in a slot from which another one was switched out
before. -/
theorem starts_alike_iff (exitAddress : UInt64) (ops : List Op) :
    (∀ ops', Alike exitAddress Tracked.init ops ops' →
        SameStarts exitAddress Tracked.init Tracked.init ops ops') ↔
      (trackedMachine exitAddress).EachStep (StartsUnused exitAddress) Tracked.init ops := by
  constructor
  · intro starts
    obtain ⟨ops', alike, telling⟩ := exists_telling_run exitAddress ops Tracked.init_inv
      Tracked.init.blocks Tracked.init.tempFxsave fun i used => nomatch used
    exact telling (starts ops' alike)
  · intro unused ops' alike
    exact sameStarts_of_unused ops Tracked.init_inv Tracked.init.tempFxsave (fun i _ => rfl) alike
      unused

/-- Slot 1 is used by a task that is switched out and killed, and then by another one. -/
def reuseSlot : List Op :=
  [.schedule true 0x1000 0 0x4000, .taskSwitch {} blankFxsave, .schedule true 0x1000 0 0x9000,
    .taskSwitch {} blankFxsave, .kill 1, .schedule false 0x2000 0 0xE000]

/-- The task in the slot that is used again does not start alike, whatever came before. -/
theorem reused_slot_leaks : ¬ ∀ ops',
    Alike 0 Tracked.init (reuseSlot ++ [.taskSwitch {} blankFxsave]) ops' →
      SameStarts 0 Tracked.init Tracked.init (reuseSlot ++ [.taskSwitch {} blankFxsave]) ops' := by
  intro starts
  obtain ⟨ops', alike, telling⟩ := exists_telling_run 0 (reuseSlot ++ [.taskSwitch {} blankFxsave])
    Tracked.init_inv Tracked.init.blocks Tracked.init.tempFxsave fun i used => nomatch used
  have evaluated : completesWith ((trackedMachine 0).run Tracked.init reuseSlot) (fun t =>
      completesWith (t.step 0 (.taskSwitch {} blankFxsave)) fun t' =>
        t'.current != t.current && (t.occupant t'.current).any (fun occupant => occupant.saved.isNone) &&
          t.used t'.current) = true := by
    decide +kernel
  obtain ⟨t, ran, tests⟩ := exists_of_completesWith evaluated
  obtain ⟨t', stepped, tests⟩ := exists_of_completesWith tests
  obtain ⟨tests, used⟩ := Bool.and_eq_true_iff.mp tests
  obtain ⟨ne, fresh⟩ := Bool.and_eq_true_iff.mp tests
  obtain ⟨occupant, here, saved⟩ := (Option.any_eq_true _ _).mp fresh
  have unused := (telling (starts ops' alike)).of_run reuseSlot [] ran t' stepped
    ⟨bne_iff_ne.mp ne, occupant, here, Option.isNone_iff_eq_none.mp saved⟩
  rw [used] at unused
  cases unused

end Runs

end Tyleros.Scheduler
