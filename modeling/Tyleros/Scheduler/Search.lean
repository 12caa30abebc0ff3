import Tyleros.Scheduler.Model

/-!
# The search of `task_switch`

`taskSwitch_exact`: from every table whose current task is in it and running, the search
ends within one round and selects the first waiting task behind the current one, in the
cyclic order of the slots. If nobody else waits the call changes nothing. Otherwise it
changes what `SwitchedTo` lists and nothing else.
-/

namespace Tyleros.Scheduler

/-- The other slots, in cyclic order from the one behind the current task. -/
def State.others (s : State) : List Nat :=
  (List.range (s.totalTasks - 1)).map fun k => s.slotAfter (k + 1)

/-- The first of them that waits. -/
def State.firstWaiting (s : State) : Option Nat := s.others.find? fun i => s.stateOf i = .waiting

section Search

variable {s : State} {i k : Nat}

theorem State.drop_others (h : k + 1 < s.totalTasks) :
    s.others.drop k = s.slotAfter (k + 1) :: s.others.drop (k + 1) := by
  have bound : k < s.others.length := by
    rw [State.others, List.length_map, List.length_range]
    omega
  rw [List.drop_eq_getElem_cons bound]
  refine congrArg (· :: s.others.drop (k + 1)) ?_
  exact (List.getElem_map _).trans (congrArg (fun k => s.slotAfter (k + 1)) (List.getElem_range _))

theorem State.drop_others_last (h : s.totalTasks ≤ k + 1) : s.others.drop k = [] := by
  refine List.drop_eq_nil_of_le ?_
  rw [State.others, List.length_map, List.length_range]
  omega

/-- They are the slots of the table without the current one. -/
theorem State.mem_others (current : s.currentTaskId < s.totalTasks) :
    i ∈ s.others ↔ i < s.totalTasks ∧ i ≠ s.currentTaskId := by
  unfold State.others
  rw [List.mem_map]
  constructor
  · rintro ⟨k, mem, rfl⟩
    have bound := List.mem_range.mp mem
    refine ⟨Nat.mod_lt _ (by omega), fun back => ?_⟩
    have round := (State.slotAfter_eq_current_iff current (Nat.succ_pos k) (by omega)).mp back
    omega
  · rintro ⟨bound, ne⟩
    obtain ⟨k, pos, less, rfl⟩ := State.exists_slotAfter current bound ne
    refine ⟨k - 1, List.mem_range.mpr (by omega), ?_⟩
    rw [Nat.sub_add_cancel pos]

theorem State.firstWaiting_eq_none (current : s.currentTaskId < s.totalTasks) :
    s.firstWaiting = none ↔ s.NobodyWaits := by
  unfold State.firstWaiting
  rw [List.find?_eq_none]
  constructor
  · intro none_ i bound ne waiting
    exact none_ i ((State.mem_others current).mpr ⟨bound, ne⟩) (decide_eq_true waiting)
  · intro nobody i mem waiting
    obtain ⟨bound, ne⟩ := (State.mem_others current).mp mem
    exact nobody i bound ne (of_decide_eq_true waiting)

theorem State.firstWaiting_some {next : Nat} (current : s.currentTaskId < s.totalTasks)
    (found : s.firstWaiting = some next) :
    next < s.totalTasks ∧ next ≠ s.currentTaskId ∧ s.stateOf next = .waiting := by
  obtain ⟨bound, ne⟩ := (State.mem_others current).mp (List.mem_of_find?_eq_some found)
  have waiting := List.find?_some found
  exact ⟨bound, ne, of_decide_eq_true waiting⟩

/-- The loop looks at the other slots one after the other and is back at the current one
behind the last of them. It makes no further iteration. -/
theorem searchNext_eq (current : s.currentTaskId < s.totalTasks) {fuel : Nat}
    (bound : k < s.totalTasks) (enough : s.totalTasks ≤ fuel + k) :
    searchNext s fuel (s.slotAfter k) =
      .ok ((s.others.drop k).find? fun i => s.stateOf i = .waiting) := by
  induction fuel generalizing k with
  | zero => omega
  | succ fuel ih =>
      have step := State.slotAfter_succ (s := s) (by omega) k
      have back := State.slotAfter_eq_current_iff current (Nat.succ_pos k) bound
      unfold searchNext
      dsimp only
      rw [step]
      by_cases last : k + 1 = s.totalTasks
      · rw [if_pos (back.mpr last), State.drop_others_last (by omega)]
        rfl
      · rw [if_neg (mt back.mp last), State.drop_others (by omega)]
        by_cases waiting : s.stateOf (s.slotAfter (k + 1)) = .waiting
        · rw [if_pos waiting, List.find?_cons, decide_eq_true waiting]
        · rw [if_neg waiting, List.find?_cons, decide_eq_false waiting]
          exact ih (by omega) (by omega)

end Search

/-- What a switch to `next` changes. -/
structure SwitchedTo (tcb : TaskFrame) (fxsave : FxsaveData) (s : State) (next : Nat) (s' : State) :
    Prop where
  current : s'.currentTaskId = next
  frameLoaded : s'.tcb = (s.tasks next).frame
  fxsaveLoaded : s'.tempFxsave = s.fxsaveBlocks next
  frameSaved : s'.tasks s.currentTaskId = { s.tasks s.currentTaskId with frame := tcb }
  fxsaveSaved : s'.fxsaveBlocks s.currentTaskId = fxsave
  selected : s'.tasks next = { s.tasks next with state := .running }
  otherTasks : ∀ i, i ≠ s.currentTaskId → i ≠ next → s'.tasks i = s.tasks i
  otherBlocks : ∀ i, i ≠ s.currentTaskId → s'.fxsaveBlocks i = s.fxsaveBlocks i
  otherVariables : s'.totalTasks = s.totalTasks ∧ s'.stackWords = s.stackWords ∧
    s'.stacksAllocated = s.stacksAllocated ∧ s'.freed = s.freed

/-- `task_switch` ends and switches to the first task that waits behind the current one. If
there is none, the context and all variables are as they were. -/
theorem taskSwitch_exact {s : State} (tcb : TaskFrame) (fxsave : FxsaveData)
    (current : s.currentTaskId < s.totalTasks)
    (running : s.stateOf s.currentTaskId = .running) :
    (∀ fuel, s.totalTasks ≤ fuel →
      searchNext s fuel s.currentTaskId = .ok s.firstWaiting) ∧
    (s.firstWaiting = none ↔ s.NobodyWaits) ∧
    match s.firstWaiting with
    | none => taskSwitch tcb fxsave s = .ok { s with tcb := tcb, tempFxsave := fxsave }
    | some next => ∃ s', taskSwitch tcb fxsave s = .ok s' ∧ SwitchedTo tcb fxsave s next s' := by
  have ends : ∀ fuel, s.totalTasks ≤ fuel →
      searchNext s fuel s.currentTaskId = .ok s.firstWaiting := by
    intro fuel enough
    have search := searchNext_eq (k := 0) current (by omega) enough
    rwa [State.slotAfter_zero current] at search
  refine ⟨ends, State.firstWaiting_eq_none current, ?_⟩
  have search := ends s.totalTasks (Nat.le_refl _)
  have asserted : kassert (s.stateOf s.currentTaskId == .running)
      "current task is not running?" = .ok () := by
    rw [running]
    rfl
  cases found : s.firstWaiting with
  | none =>
      rw [found] at search
      show taskSwitch tcb fxsave s = _
      unfold taskSwitch
      rw [asserted, ok_bind, search, ok_bind]
      rfl
  | some next =>
      obtain ⟨-, ne, -⟩ := State.firstWaiting_some current found
      rw [found] at search
      show ∃ s', taskSwitch tcb fxsave s = .ok s' ∧ _
      unfold taskSwitch
      rw [asserted, ok_bind, search, ok_bind]
      refine ⟨_, rfl, ?_⟩
      have nextTask : Function.update s.tasks s.currentTaskId
          { s.tasks s.currentTaskId with frame := tcb } next = s.tasks next :=
        Function.update_of_ne ne _ _
      exact {
        current := rfl
        frameLoaded := congrArg TaskContext.frame nextTask
        fxsaveLoaded := Function.update_of_ne ne _ _
        frameSaved := (Function.update_of_ne ne.symm _ _).trans (Function.update_self _ _ _)
        fxsaveSaved := Function.update_self _ _ _
        selected := by
          refine (Function.update_self _ _ _).trans ?_
          rw [nextTask]
        otherTasks := fun i notOld notNext =>
          (Function.update_of_ne notNext _ _).trans (Function.update_of_ne notOld _ _)
        otherBlocks := fun i notOld => Function.update_of_ne notOld _ _
        otherVariables := ⟨rfl, rfl, rfl, rfl⟩ }

/-- Slot 2 runs, slot 3 is killed; behind the wrap around the table slot 1 waits. -/
def sampleTable : State := { init with
  currentTaskId := 2
  totalTasks := 4
  tasks := fun i => { TaskContext.zeroed with
    state := if i = 1 then .waiting else if i = 3 then .killed else .running } }

theorem taskSwitch_exact_wraps : sampleTable.firstWaiting = some 1 ∧
    ∃ s', taskSwitch {} (Vector.replicate 512 0) sampleTable = .ok s' ∧
      SwitchedTo {} (Vector.replicate 512 0) sampleTable 1 s' := by
  have found : sampleTable.firstWaiting = some 1 := by decide
  obtain ⟨-, -, switched⟩ := taskSwitch_exact (s := sampleTable) {} (Vector.replicate 512 0)
    (by decide) (by decide)
  rw [found] at switched
  exact ⟨found, switched⟩

end Tyleros.Scheduler
