import Tyleros.Basic
import Tyleros.Lib.Machine

/-!
# Scopes with interrupts disabled

`kernel/interrupts.h`: `scoped_disable` executes `cli` when it is constructed and `sti`
when it is destroyed, whatever the interrupt flag was before, and
`with_interrupts_disabled` is such a scope around a call. `task_switch`, `schedule_task`
and `kill` are in scopes; the first one runs in an interrupt handler.

A run enters and leaves scopes and interrupt handlers. `nests_iff` says which runs keep
interrupts disabled inside of scopes and give the flag back as they found it: those in
which no scope ends inside of another one or of a handler.
-/

namespace Tyleros.Interrupts

open Lib

/-- `RFLAGS`. -/
abbrev Flags := BitVec 64

/-- Bit 9 of `RFLAGS`. -/
def INTERRUPT_FLAG : Flags := 1#64 <<< 9

/-- `interrupts::enable()`. -/
def enable (rflags : Flags) : Flags := rflags ||| INTERRUPT_FLAG

/-- `interrupts::disable()`. -/
def disable (rflags : Flags) : Flags := rflags &&& ~~~ INTERRUPT_FLAG

/-- `interrupts::enabled()`. -/
def enabled (rflags : Flags) : Bool := rflags &&& INTERRUPT_FLAG != 0#64

/-- Something that was entered and has not been left. -/
inductive Frame where
  /-- A `scoped_disable`, with the flags before it was constructed. -/
  | scope (entered : Flags)
  /-- An interrupt handler, with the flags on its stack. -/
  | handler (saved : Flags)

/-- The flags, and what has been entered, innermost first. -/
structure State where
  rflags : Flags
  frames : List Frame

inductive Op where
  /-- `scoped_disable()`. -/
  | construct
  /-- `~scoped_disable()`. -/
  | destroy
  /-- An interrupt or, if it is not `maskable`, an exception. -/
  | interrupt (maskable : Bool)
  /-- The handler returns. -/
  | iret
  /-- Code that leaves the interrupt flag alone, and `other` in the other flags. -/
  | code (other : Flags)

/-- Scopes and handlers are left in the opposite order of that in which they are
entered, and interrupts that can be masked arrive only if the flag is set. -/
def State.step (s : State) : Op → Except Stop State
  | .construct => .ok ⟨disable s.rflags, .scope s.rflags :: s.frames⟩
  | .destroy =>
    match s.frames with
    | .scope _ :: rest => .ok ⟨enable s.rflags, rest⟩
    | _ => .error (.fault "not in a scope")
  | .interrupt maskable =>
    if maskable && !enabled s.rflags then .error (.fault "interrupts are disabled")
    else .ok ⟨disable s.rflags, .handler s.rflags :: s.frames⟩
  | .iret =>
    match s.frames with
    | .handler saved :: rest => .ok ⟨saved, rest⟩
    | _ => .error (.fault "not in a handler")
  | .code other =>
    .ok { s with rflags := disable other ||| (s.rflags &&& INTERRUPT_FLAG) }

def machine : Machine State Op Stop := ⟨State.step⟩

/-! ## The flag -/

@[simp] theorem enabled_enable (rflags : Flags) : enabled (enable rflags) = true := by
  have flag : enable rflags &&& INTERRUPT_FLAG = INTERRUPT_FLAG := by
    ext i
    simp only [enable, BitVec.getElem_and, BitVec.getElem_or]
    cases INTERRUPT_FLAG[i] <;> simp
  rw [enabled, flag]
  decide

@[simp] theorem enabled_disable (rflags : Flags) : enabled (disable rflags) = false := by
  have flag : disable rflags &&& INTERRUPT_FLAG = 0#64 := by
    ext i
    simp [disable, BitVec.getElem_and]
  rw [enabled, flag]
  rfl

@[simp] theorem enabled_code (other rflags : Flags) :
    enabled (disable other ||| (rflags &&& INTERRUPT_FLAG)) = enabled rflags := by
  have flag : (disable other ||| (rflags &&& INTERRUPT_FLAG)) &&& INTERRUPT_FLAG =
      rflags &&& INTERRUPT_FLAG := by
    ext i
    simp only [disable, BitVec.getElem_and, BitVec.getElem_or, BitVec.getElem_not]
    cases INTERRUPT_FLAG[i] <;> simp
  rw [enabled, flag, enabled]

/-! ## Nesting -/

/-- Inside of a scope interrupts are disabled. -/
def Masked (s : State) : Prop :=
  (∃ entered, .scope entered ∈ s.frames) → enabled s.rflags = false

/-- When a scope ends, the flag is what it was when the scope was entered. -/
def Restores (s : State) : Op → Prop
  | .destroy => ∀ entered rest s', s.frames = .scope entered :: rest → s.step .destroy = .ok s' →
      enabled s'.rflags = enabled entered
  | _ => True

/-- Scopes nest in a run. -/
def Nests (s : State) (ops : List Op) : Prop :=
  machine.Always Masked s ops ∧ machine.EachStep Restores s ops

/-- A scope ends only outside of other scopes and of handlers, in a run that began with
the flag set. -/
def EndsOutermost (start : Flags) (s : State) : Op → Prop
  | .destroy => ∀ entered rest, s.frames = .scope entered :: rest → rest = [] ∧ enabled start = true
  | _ => True

/-- The flags from before. -/
def Frame.flags : Frame → Flags
  | .scope entered => entered
  | .handler saved => saved

/-- The flag is clear inside of scopes and handlers, and otherwise what it was at the
start. -/
def Clear (start : Flags) : List Frame → Flags → Prop
  | [], rflags => enabled rflags = enabled start
  | frame :: rest, rflags => enabled rflags = false ∧ Clear start rest frame.flags

theorem Clear.masked {start : Flags} {s : State} (clear : Clear start s.frames s.rflags) : Masked s := by
  rintro ⟨entered, mem⟩
  cases frames : s.frames with
  | nil =>
      rw [frames] at mem
      exact absurd mem List.not_mem_nil
  | cons frame rest =>
      rw [frames] at clear
      exact clear.1

/-- Under this invariant a scope gives the flag back exactly if it is an outermost one. -/
theorem Clear.restores_iff {start : Flags} {s : State} (clear : Clear start s.frames s.rflags) (o : Op) :
    Restores s o ↔ EndsOutermost start s o := by
  cases o with
  | destroy =>
      constructor
      · intro restores entered rest frames
        have step : s.step .destroy = .ok ⟨enable s.rflags, rest⟩ := by
          unfold State.step
          rw [frames]
        have entered_ := restores entered rest _ frames step
        rw [enabled_enable] at entered_
        rw [frames] at clear
        cases rest with
        | nil => exact ⟨rfl, clear.2.symm.trans entered_.symm⟩
        | cons frame rest =>
            have inner : enabled entered = false := clear.2.1
            rw [inner] at entered_
            cases entered_
      · intro outermost entered rest s' frames step
        obtain ⟨rfl, set⟩ := outermost entered rest frames
        unfold State.step at step
        rw [frames] at step clear
        cases step
        rw [enabled_enable]
        exact (clear.2.trans set).symm
  | construct => exact Iff.rfl
  | interrupt maskable => exact Iff.rfl
  | iret => exact Iff.rfl
  | code other => exact Iff.rfl

theorem Clear.step {start : Flags} {s s' : State} {o : Op} (clear : Clear start s.frames s.rflags)
    (guard : EndsOutermost start s o) (hs : machine.step s o = .ok s') :
    Clear start s'.frames s'.rflags := by
  cases o with
  | construct =>
      cases hs
      exact ⟨enabled_disable _, clear⟩
  | destroy =>
      change s.step .destroy = .ok s' at hs
      simp only [State.step] at hs
      split at hs
      · next entered rest frames =>
          cases hs
          obtain ⟨rfl, set⟩ := guard entered rest frames
          show enabled (enable s.rflags) = enabled start
          rw [enabled_enable, set]
      · cases hs
  | interrupt maskable =>
      change s.step (.interrupt maskable) = .ok s' at hs
      simp only [State.step] at hs
      split at hs
      · cases hs
      · cases hs
        exact ⟨enabled_disable _, clear⟩
  | iret =>
      change s.step .iret = .ok s' at hs
      simp only [State.step] at hs
      split at hs
      · next saved rest frames =>
          cases hs
          rw [frames] at clear
          exact clear.2
      · cases hs
  | code other =>
      cases hs
      dsimp only
      cases frames : s.frames with
      | nil =>
          rw [frames] at clear
          exact (enabled_code other s.rflags).trans clear
      | cons frame rest =>
          rw [frames] at clear
          exact ⟨(enabled_code other s.rflags).trans clear.1, clear.2⟩

/-- Interrupts stay disabled inside of scopes, and each scope that ends gives the flag
back as it was, exactly if scopes end only outside of other scopes and of handlers and the
run began with the flag set. -/
theorem nests_iff (start : Flags) (ops : List Op) :
    Nests ⟨start, []⟩ ops ↔ machine.EachStep (EndsOutermost start) ⟨start, []⟩ ops := by
  have first : Clear start (⟨start, []⟩ : State).frames start := rfl
  have keeps : ∀ (s : State) (o : Op) (s' : State), Clear start s.frames s.rflags →
      EndsOutermost start s o → machine.step s o = .ok s' → Clear start s'.frames s'.rflags :=
    fun _ _ _ clear guard hs => clear.step guard hs
  constructor
  · rintro ⟨-, restores⟩
    have agree : ∀ (s : State) (o : Op), Clear start s.frames s.rflags → Restores s o →
        EndsOutermost start s o := fun _ o clear => (clear.restores_iff o).mp
    exact Machine.eachStep_of_inv (fun s o s' clear restores => keeps s o s' clear (agree s o clear restores))
      agree first restores
  · intro outermost
    exact ⟨Machine.always_of_inv keeps (fun _ clear => clear.masked) first outermost,
      Machine.eachStep_of_inv keeps (fun _ o clear => (clear.restores_iff o).mpr) first outermost⟩

/-- `task_switch` in a handler leaves with the flag set, and so does a scope inside of
another one. -/
theorem nested_scope_enables : ¬ Nests ⟨0x202#64, []⟩ [.interrupt true, .construct, .destroy] ∧
    ¬ Nests ⟨0x202#64, []⟩ [.construct, .construct, .destroy] := by
  constructor
  · rintro ⟨-, -, restores⟩
    have set := (restores ⟨0x2#64, [.handler 0x202#64]⟩ rfl).2 ⟨0x2#64, [.scope 0x2#64, .handler 0x202#64]⟩
      rfl
    exact absurd (set.1 _ _ ⟨0x202#64, [.handler 0x202#64]⟩ rfl rfl) (by decide)
  · rintro ⟨masked, -⟩
    have inside := (((masked.2 ⟨0x2#64, [.scope 0x202#64]⟩ rfl).2
      ⟨0x2#64, [.scope 0x2#64, .scope 0x202#64]⟩ rfl).2 ⟨0x202#64, [.scope 0x202#64]⟩ rfl)
    exact absurd (inside ⟨_, List.mem_cons_self⟩) (by decide)

end Tyleros.Interrupts
