import Tyleros.Pic.Model

/-!
# Interrupts and their ends

Each handler tells the controllers the end of its interrupt, but not which interrupt it means, and
the end of `scheduler_interrupt` is also reached by tasks that yield, when there is none. Its code
runs with interrupts enabled by then, since `task_switch` enables them, and it may end on another
stack than it began on.

* `interrupts_acknowledged`: in every state of every run the controllers take exactly those
  interrupts to be in service whose handlers are on the stack of the current task and still owe
  their end. So no line stays blocked, no interrupt is without a handler, and the clock never stops.
-/

namespace Tyleros.Pic

open Lib
open Io (Code inb outb)

/-! ## What is owed -/

/-- The line of the first controller for which the routine still has to tell the end. -/
def Activation.master? (a : Activation) : Option (Fin 8) :=
  match a.routine with
  | .handler irq false => some irq.line
  | .scheduler true .signalled => none
  | .scheduler true _ => some Irq.CASCADE.line
  | _ => none

/-- The same for the second controller. -/
def Activation.slave? (a : Activation) : Option (Fin 8) :=
  match a.routine with
  | .scheduler true .slaveSignalled => none
  | .scheduler true .signalled => none
  | .scheduler true _ => some Irq.CMOS_RTC.line
  | _ => none

/-- The ends that are owed on a stack, innermost first. -/
def owed (stack : List Activation) : List (Fin 8) := stack.filterMap Activation.master?

def owedSlave (stack : List Activation) : List (Fin 8) := stack.filterMap Activation.slave?

/-- The routine will read register C of the clock, for an interrupt of the clock. -/
def Activation.ServesClock (a : Activation) : Prop :=
  ∃ stage ∈ [Stage.entered, .returning, .selected], a.routine = .scheduler true stage

/-- If the clock waits for a read of register C, its interrupt is requested or being handled. -/
def ClockGoesOn (b : Board) (stack : List Activation) : Prop :=
  b.slave.masks Irq.CMOS_RTC.line = false → b.cmos.pending = true →
    Irq.CMOS_RTC.line ∈ b.slave.irr ∨ ∃ a ∈ stack, a.ServesClock

/-- The controllers and the stacks agree, and the clock goes on. -/
structure State.Acknowledged (s : State) : Prop where
  master : s.board.master.isr = (owed s.stack).toFinset
  slave : s.board.slave.isr = (owedSlave s.stack).toFinset
  parked : ∀ stack ∈ s.parked, owed stack = [] ∧ owedSlave stack = []
  task : s.current.routine = .task → s.board.master.isr = ∅ ∧ s.board.slave.isr = ∅
  clock : ClockGoesOn s.board s.stack

/-- Tasks and handlers take their own steps only. -/
def State.Legal (s : State) : Op → Prop
  | .raise _ _ => True
  | .tick => True
  | .deliver => True
  | .advance _ => s.current.routine ≠ .task
  | _ => s.current.routine = .task

/-! ## The controllers -/

section Controllers

variable {c : Chip} {b b' : Board} {raised : Finset (Fin 8)} {i : Fin 8}

/-- The end of the interrupt that was taken last. -/
theorem Chip.endOfInterrupt_eq {l : List (Fin 8)} (served : c.isr = l.toFinset)
    (nested : l.Pairwise (· < ·)) : c.endOfInterrupt = { c with isr := l.tail.toFinset } := by
  unfold endOfInterrupt
  cases l with
  | nil =>
      have none : ¬ c.isr.Nonempty := by
        rw [served]
        exact Finset.not_nonempty_empty
      rw [dif_neg none]
      exact congrArg (fun isr => { c with isr }) served
  | cons i rest =>
      rw [List.pairwise_cons] at nested
      have some : c.isr.Nonempty := by
        rw [served]
        exact ⟨i, by simp⟩
      have first : c.isr.min' some = i := by
        apply le_antisymm
        · exact Finset.min'_le _ _ (by rw [served]; simp)
        · refine Finset.le_min' _ _ _ fun j inService => ?_
          rw [served, List.mem_toFinset, List.mem_cons] at inService
          obtain rfl | later := inService
          · exact le_refl _
          · exact le_of_lt (nested.1 j later)
      have fresh : i ∉ rest.toFinset := fun again =>
        lt_irrefl i (nested.1 i (List.mem_toFinset.mp again))
      rw [dif_pos some, first, served, List.toFinset_cons, Finset.erase_insert fresh,
        List.tail_cons]

theorem Chip.next?_eq_some (next : c.next? raised = some i) :
    i ∈ raised ∧ c.masks i = false ∧ ∀ j ∈ c.isr, i < j := by
  unfold Chip.next? at next
  dsimp only at next
  split at next
  · next some =>
      have found := Finset.min'_mem _ some
      rw [Option.some.inj next] at found
      exact Finset.mem_filter.mp found
  · cases next

/-- The controllers are set up, and only lines with a handler are not masked. -/
structure Board.Wired (b : Board) : Prop where
  master : b.master.offset = 0x20 ∧ b.master.cascade = 0x04 ∧ b.master.awaits = 0
  slave : b.slave.offset = 0x28 ∧ b.slave.awaits = 0
  masterMask : ∀ i, b.master.masks i = false →
    i = Irq.PIT.line ∨ i = Irq.KEYBOARD.line ∨ i = Irq.CASCADE.line ∨ i = Irq.FLOPPY.line
  slaveMask : ∀ i, b.slave.masks i = false → i = Irq.CMOS_RTC.line

/-- Changes of requests and of lines in service do not matter to it. -/
theorem Board.Wired.of_same (wired : b.Wired)
    (master : b'.master = { b.master with irr := b'.master.irr, isr := b'.master.isr })
    (slave : b'.slave = { b.slave with irr := b'.slave.irr, isr := b'.slave.isr }) : b'.Wired where
  master := by
    rw [master]
    exact wired.master
  slave := by
    rw [slave]
    exact wired.slave
  masterMask := by
    rw [master]
    exact wired.masterMask
  slaveMask := by
    rw [slave]
    exact wired.slaveMask

/-- `remap_interrupts` sets up both controllers, whatever state they are in, and unmasks
`CASCADE`. -/
theorem run_remapInterrupts (b : Board) : remapInterrupts.run Board.devices b = .ok ((), { b with
    master := ⟨∅, ∅, b.master.imr &&& ~~~ Irq.CASCADE.mask, 0x20, 0x04, 0⟩
    slave := ⟨∅, ∅, b.slave.imr, 0x28, 0x02, 0⟩ }) := rfl

theorem Chip.writeData_ready (ready : c.awaits = 0) (val : UInt8) :
    c.writeData val = { c with imr := val } := by
  obtain ⟨irr, isr, imr, offset, cascade, awaits⟩ := c
  obtain rfl : awaits = 0 := ready
  rfl

theorem Irq.line_of_mask (irq : Irq) :
    ∀ i : Fin 8, irq.mask.toBitVec.getLsbD i = true → i = irq.line := by
  cases irq <;> decide

/-- Clearing the bit of a request unmasks its line and no other one. -/
theorem Chip.masks_clear {irq : Irq}
    (unmasked : { c with imr := c.imr &&& ~~~ irq.mask }.masks i = false) :
    c.masks i = false ∨ i = irq.line := by
  unfold Chip.masks at unmasked ⊢
  rw [UInt8.toBitVec_and, UInt8.toBitVec_not, BitVec.getLsbD_and, BitVec.getLsbD_not] at unmasked
  cases set : irq.mask.toBitVec.getLsbD i with
  | true => exact Or.inr (irq.line_of_mask i set)
  | false =>
      left
      rwa [set, decide_eq_true i.isLt, Bool.not_false, Bool.and_true, Bool.and_true] at unmasked

theorem Board.Wired.unmaskMaster (wired : b.Wired) {irq : Irq} (low : irq.port = PIC1_DATA)
    (handled : irq.line = Irq.PIT.line ∨ irq.line = Irq.KEYBOARD.line ∨
      irq.line = Irq.CASCADE.line ∨ irq.line = Irq.FLOPPY.line) :
    ∃ master, (unmaskIrq irq).run Board.devices b = .ok ((), { b with master }) ∧
      ({ b with master } : Board).Wired ∧ master.isr = b.master.isr := by
  have ran : (unmaskIrq irq).run Board.devices b =
      .ok ((), { b with master := b.master.writeData (b.master.imr &&& ~~~ irq.mask) }) := by
    unfold unmaskIrq
    rw [low]
    rfl
  rw [Chip.writeData_ready wired.master.2.2] at ran
  refine ⟨_, ran, ⟨wired.master, wired.slave, fun i unmasked => ?_, wired.slaveMask⟩, rfl⟩
  obtain before | rfl := Chip.masks_clear unmasked
  · exact wired.masterMask i before
  · exact handled

theorem run_cmosInit (b : Board) : cmosInit.run Board.devices b = .ok ((), { b with
    slave := b.slave.writeData (b.slave.imr &&& ~~~ Irq.CMOS_RTC.mask)
    cmos := ⟨RTC_SELECT_C, b.cmos.registerB ||| RTC_ENABLE_INTERRUPT, false⟩ }) := rfl

/-- What the drivers unmask has a handler, and `cmos::init` reads register C before that. -/
theorem Board.Wired.init (wired : b.Wired) (driver : Driver) :
    ∃ b', driver.init.run Board.devices b = .ok ((), b') ∧ b'.Wired ∧
      b'.master.isr = b.master.isr ∧ b'.slave.isr = b.slave.isr ∧
      (b'.slave = b.slave ∧ b'.cmos = b.cmos ∨
        b'.cmos.index = RTC_SELECT_C ∧ b'.cmos.pending = false) := by
  cases driver with
  | pit =>
      obtain ⟨master, ran, wired', same⟩ := wired.unmaskMaster (show Irq.PIT.port = _ from rfl)
        (Or.inl rfl)
      exact ⟨_, ran, wired', same, rfl, Or.inl ⟨rfl, rfl⟩⟩
  | keyboard =>
      obtain ⟨master, ran, wired', same⟩ := wired.unmaskMaster
        (show Irq.KEYBOARD.port = _ from rfl) (Or.inr (Or.inl rfl))
      exact ⟨_, ran, wired', same, rfl, Or.inl ⟨rfl, rfl⟩⟩
  | floppy =>
      obtain ⟨master, ran, wired', same⟩ := wired.unmaskMaster
        (show Irq.FLOPPY.port = _ from rfl) (Or.inr (Or.inr (Or.inr rfl)))
      exact ⟨_, ran, wired', same, rfl, Or.inl ⟨rfl, rfl⟩⟩
  | cmos =>
      have ran := run_cmosInit b
      rw [Chip.writeData_ready wired.slave.2] at ran
      refine ⟨_, ran, ⟨wired.master, wired.slave, wired.masterMask, fun i unmasked => ?_⟩, rfl, rfl,
        Or.inr ⟨rfl, rfl⟩⟩
      obtain before | rfl := Chip.masks_clear unmasked
      · exact wired.slaveMask i before
      · rfl

/-- The interrupts that may be taken, and what the controllers note. -/
theorem Board.Wired.acknowledge (wired : b.Wired) {vector : UInt8}
    (taken : b.acknowledge = some (vector, b')) :
    (∃ irq : Irq, (irq = .PIT ∨ irq = .KEYBOARD ∨ irq = .FLOPPY) ∧
      vector = 0x20 + UInt8.ofNat irq.code ∧ (∀ j ∈ b.master.isr, irq.line < j) ∧
      b' = { b with master := b.master.serve irq.line }) ∨
    (vector = 0x28 ∧ (∀ j ∈ b.master.isr, Irq.CASCADE.line < j) ∧
      (∀ j ∈ b.slave.isr, Irq.CMOS_RTC.line < j) ∧
      b' = { b with
        master := b.master.serve Irq.CASCADE.line
        slave := b.slave.serve Irq.CMOS_RTC.line }) := by
  obtain ⟨offset, cascade, -⟩ := wired.master
  obtain ⟨offset', -⟩ := wired.slave
  unfold Board.acknowledge at taken
  rw [offset, cascade, offset'] at taken
  split at taken
  · cases taken
  · next i first =>
      obtain ⟨-, unmasked, before⟩ := Chip.next?_eq_some first
      obtain rfl | rfl | rfl | rfl := wired.masterMask i unmasked
      · left
        rw [if_neg (by decide)] at taken
        cases taken
        exact ⟨.PIT, Or.inl rfl, rfl, before, rfl⟩
      · left
        rw [if_neg (by decide)] at taken
        cases taken
        exact ⟨.KEYBOARD, Or.inr (Or.inl rfl), rfl, before, rfl⟩
      · right
        rw [if_pos (by decide)] at taken
        split at taken
        · cases taken
        · next j second =>
            obtain ⟨-, unmasked', before'⟩ := Chip.next?_eq_some second
            obtain rfl := wired.slaveMask j unmasked'
            cases taken
            exact ⟨rfl, before, before', rfl⟩
      · left
        rw [if_neg (by decide)] at taken
        cases taken
        exact ⟨.FLOPPY, Or.inr (Or.inr rfl), rfl, before, rfl⟩

end Controllers

/-! ## Gates -/

/-- A gate leads to its handler. -/
theorem IdtEntry.offset_ofHandler (handler : UInt64) :
    (IdtEntry.ofHandler handler).offset = handler := by
  apply UInt64.toNat_inj.mp
  apply Nat.eq_of_testBit_eq
  intro i
  show (handler.toUInt16.toUInt64 ||| (handler >>> 16).toUInt16.toUInt64 <<< 16 |||
    (handler >>> 32).toUInt32.toUInt64 <<< 32).toNat.testBit i = _
  have above : 64 ≤ i → handler.toNat.testBit i = false := fun le =>
    Nat.testBit_lt_two_pow (lt_of_lt_of_le handler.toNat_lt (Nat.pow_le_pow_right (by decide) le))
  simp only [UInt64.toNat_or, UInt64.toNat_shiftLeft, UInt64.toNat_shiftRight,
    UInt16.toNat_toUInt64, UInt64.toNat_toUInt16, UInt64.toNat_toUInt32, UInt32.toNat_toUInt64,
    Nat.testBit_or, Nat.testBit_shiftLeft, Nat.testBit_shiftRight, Nat.testBit_mod_two_pow,
    UInt64.reduceToNat, Nat.reduceMod]
  grind

theorem handlerAt_idt (image : Image) (vector : UInt8) :
    image.handlerAt (idt image vector).offset = getHandler vector := by
  rw [idt, IdtEntry.offset_ofHandler, image.placed]

theorem disables_idt (image : Image) (vector : UInt8) : (idt image vector).disables = true := by
  show decide ((PRESENT ||| INTERRUPT_32) &&& 0x0F = INTERRUPT_32) = true
  decide

section Enter

variable {image : Image} {s : State} {hardware : Bool}

/-- The handler of a device runs with interrupts disabled. -/
theorem State.enter_handler {irq : Irq} (handled : irq = .PIT ∨ irq = .KEYBOARD ∨ irq = .FLOPPY) :
    s.enter image (0x20 + UInt8.ofNat irq.code) hardware =
      .ok { s with current := ⟨.handler irq false, false⟩, below := s.stack } := by
  unfold State.enter
  simp only [handlerAt_idt]
  rw [disables_idt, Bool.not_true, Bool.and_false]
  obtain rfl | rfl | rfl := handled <;> rfl

/-- So does `scheduler_interrupt` at first. -/
theorem State.enter_scheduler : s.enter image 0x28 hardware =
    .ok { s with current := ⟨.scheduler hardware .entered, false⟩, below := s.stack } := by
  unfold State.enter
  simp only [handlerAt_idt]
  rw [disables_idt, Bool.not_true, Bool.and_false]
  rfl

end Enter

/-! ## Stacks -/

/-- What is always true of a routine: handlers run with interrupts disabled, `scheduler_interrupt`
does at first, and what it selected remains selected. -/
def Activation.Closed (index : UInt8) (a : Activation) : Prop :=
  match a.routine with
  | .handler irq _ => a.enabled = false ∧ (irq = .PIT ∨ irq = .KEYBOARD ∨ irq = .FLOPPY)
  | .scheduler _ .entered => a.enabled = false
  | .scheduler _ .selected => index = RTC_SELECT_C
  | _ => True

/-- A task, or the end of a task's `yield`. -/
def Activation.OfTask (a : Activation) : Prop :=
  a.routine = .task ∨ ∃ stage, a.routine = .scheduler false stage

/-- Stacks that interrupts make. An interrupt is taken when interrupts are enabled and its line
comes before all that are in service, a task runs when nothing is owed, and everything else has
something to return to. -/
inductive Stacked (index : UInt8) : List Activation → Prop
  | nil : Stacked index []
  | cons {a : Activation} {rest : List Activation} (closed : a.Closed index)
      (enabled : ∀ b ∈ rest, b.enabled = true)
      (first : ∀ i, a.master? = some i → ∀ j ∈ owed rest, i < j)
      (settled : a.OfTask → owed rest = []) (grounded : a.routine ≠ .task → rest ≠ [])
      (stacked : Stacked index rest) : Stacked index (a :: rest)

/-- The stack of a task that waits for its turn. -/
structure Waiting (index : UInt8) (stack : List Activation) : Prop where
  stacked : Stacked index stack
  nonempty : stack ≠ []
  enabled : ∀ a ∈ stack, a.enabled = true
  settled : owed stack = []

section Stacks

variable {a a' : Activation} {stack rest : List Activation} {index : UInt8}

theorem owed_cons_of_none (none_ : a.master? = none) : owed (a :: rest) = owed rest :=
  List.filterMap_cons_none none_

theorem owed_cons_of_some {i : Fin 8} (some_ : a.master? = some i) :
    owed (a :: rest) = i :: owed rest :=
  List.filterMap_cons_some some_

theorem owedSlave_cons_of_none (none_ : a.slave? = none) :
    owedSlave (a :: rest) = owedSlave rest :=
  List.filterMap_cons_none none_

theorem owedSlave_cons_of_some {i : Fin 8} (some_ : a.slave? = some i) :
    owedSlave (a :: rest) = i :: owedSlave rest :=
  List.filterMap_cons_some some_

/-- What owes the second controller an end owes the first one the end of the cascade. -/
theorem Activation.slave?_of_master? (none_ : a.master? = none) : a.slave? = none := by
  obtain ⟨routine, enabled⟩ := a
  match routine, none_ with
  | .task, _ => rfl
  | .handler _ _, _ => rfl
  | .scheduler false _, _ => rfl
  | .scheduler true .signalled, _ => rfl

theorem owedSlave_of_owed (settled : owed stack = []) : owedSlave stack = [] := by
  rw [owed, List.filterMap_eq_nil_iff] at settled
  rw [owedSlave, List.filterMap_eq_nil_iff]
  exact fun a mem => Activation.slave?_of_master? (settled a mem)

theorem Activation.ServesClock.master? (serves : a.ServesClock) :
    a.master? = some Irq.CASCADE.line := by
  obtain ⟨stage, among, routine⟩ := serves
  unfold Activation.master?
  rw [routine]
  simp only [List.mem_cons, List.not_mem_nil, or_false] at among
  obtain rfl | rfl | rfl := among <;> rfl

/-- What can be interrupted owes the end of the cascade at most. -/
theorem Activation.Closed.master? (closed : a.Closed index) (enabled : a.enabled = true)
    {i : Fin 8} (owes : a.master? = some i) : i = Irq.CASCADE.line := by
  unfold Activation.master? at owes
  split at owes
  · next routine =>
      rw [Activation.Closed, routine] at closed
      exact absurd (enabled.symm.trans closed.1) (by decide)
  · cases owes
  · exact (Option.some.inj owes).symm
  · cases owes

theorem Activation.Closed.select (closed : a.Closed index) : a.Closed RTC_SELECT_C := by
  unfold Activation.Closed at closed ⊢
  split at closed
  · exact closed
  · exact closed
  · rfl
  · trivial

theorem Stacked.closed (stacked : Stacked index stack) : ∀ a ∈ stack, a.Closed index := by
  induction stacked with
  | nil => simp
  | cons closed _ _ _ _ _ ih => exact List.forall_mem_cons.mpr ⟨closed, ih⟩

theorem Stacked.select (stacked : Stacked index stack) : Stacked RTC_SELECT_C stack := by
  induction stacked with
  | nil => exact .nil
  | cons closed enabled first settled grounded _ ih =>
      exact .cons closed.select enabled first settled grounded ih

theorem Waiting.select (waiting : Waiting index stack) : Waiting RTC_SELECT_C stack :=
  { waiting with stacked := waiting.stacked.select }

/-- A task that was not started yet. -/
theorem Waiting.fresh : Waiting index [⟨.task, true⟩] where
  stacked := .cons trivial (by simp) (by simp [owed]) (fun _ => rfl) (absurd rfl) .nil
  nonempty := by simp
  enabled := by simp
  settled := rfl

/-- The lines with the highest priority are innermost. -/
theorem Stacked.nested (stacked : Stacked index stack) : (owed stack).Pairwise (· < ·) := by
  induction stacked with
  | nil => exact List.Pairwise.nil
  | @cons a rest _ _ first _ _ _ ih =>
      cases owes : a.master? with
      | none =>
          rw [owed_cons_of_none owes]
          exact ih
      | some i =>
          rw [owed_cons_of_some owes]
          exact List.Pairwise.cons (first i owes) ih

/-- Below code that owes the end of the cascade, nothing is owed. -/
theorem Stacked.settled (stacked : Stacked index rest) (enabled : ∀ b ∈ rest, b.enabled = true)
    (before : ∀ j ∈ owed rest, Irq.CASCADE.line < j) : owed rest = [] := by
  rw [List.eq_nil_iff_forall_not_mem]
  intro i inRest
  obtain ⟨b, mem, owes⟩ := List.mem_filterMap.mp inRest
  obtain rfl := (stacked.closed b mem).master? (enabled b mem) owes
  exact lt_irrefl _ (before _ inRest)

/-- What `scheduler_interrupt` interrupted owes nothing. -/
theorem Stacked.below_scheduler {hardware : Bool} {stage : Stage} {enabled : Bool}
    (stacked : Stacked index (⟨.scheduler hardware stage, enabled⟩ :: rest))
    (owing : stage ≠ .signalled) : owed rest = [] := by
  cases stacked with
  | cons _ enabled first settled _ stacked =>
      cases hardware with
      | false => exact settled (Or.inr ⟨stage, rfl⟩)
      | true =>
          refine stacked.settled enabled (first _ ?_)
          cases stage <;> first | rfl | exact absurd rfl owing

theorem Stacked.enabled_below (stacked : Stacked index (a :: rest)) :
    ∀ b ∈ rest, b.enabled = true := by
  cases stacked
  assumption

theorem Stacked.inner (stacked : Stacked index (a :: rest)) : Stacked index rest := by
  cases stacked
  assumption

theorem Stacked.grounded (stacked : Stacked index (a :: rest)) (other : a.routine ≠ .task) :
    rest ≠ [] := by
  cases stacked with
  | cons _ _ _ _ grounded _ => exact grounded other

theorem Stacked.settled_of_task (stacked : Stacked index (a :: rest)) (task : a.routine = .task) :
    owed (a :: rest) = [] := by
  cases stacked with
  | cons _ _ _ settled _ _ =>
      have none_ : a.master? = none := by
        unfold Activation.master?
        rw [task]
      rw [owed_cons_of_none none_]
      exact settled (Or.inl task)

/-- The current routine goes on. -/
theorem Stacked.goOn (stacked : Stacked index (a :: rest)) (closed : a'.Closed index)
    (owes : a'.master? = a.master? ∨ a'.master? = none) (task : a'.OfTask → a.OfTask)
    (same : a.routine = .task → a'.routine = .task) : Stacked index (a' :: rest) := by
  cases stacked with
  | cons _ enabled first settled grounded stacked =>
      refine .cons closed enabled (fun i owes' => ?_) (fun of => settled (task of))
        (fun other => grounded (mt same other)) stacked
      obtain same | none_ := owes
      · exact first i (same.symm.trans owes')
      · cases none_.symm.trans owes'

end Stacks

/-! ## Steps -/

structure Served (b : Board) (stack : List Activation) : Prop where
  wired : b.Wired
  master : b.master.isr = (owed stack).toFinset
  slave : b.slave.isr = (owedSlave stack).toFinset
  clock : ClockGoesOn b stack

structure State.Inv (s : State) : Prop where
  served : Served s.board s.stack
  stacked : Stacked s.board.cmos.index s.stack
  waiting : ∀ stack ∈ s.parked, Waiting s.board.cmos.index stack

theorem Activation.ofTask_scheduler {hardware enabled enabled' : Bool} {stage stage' : Stage}
    (task : (⟨.scheduler hardware stage', enabled'⟩ : Activation).OfTask) :
    (⟨.scheduler hardware stage, enabled⟩ : Activation).OfTask := by
  obtain task | ⟨_, scheduler⟩ := task
  · cases task
  · cases scheduler
    exact Or.inr ⟨stage, rfl⟩

/-- `scheduler_interrupt` serves the clock until it reads register C. -/
theorem Activation.servesClock_scheduler {hardware enabled enabled' : Bool} {stage stage' : Stage}
    (before : stage' ∈ [Stage.entered, .returning, .selected])
    (serves : (⟨.scheduler hardware stage, enabled⟩ : Activation).ServesClock) :
    (⟨.scheduler hardware stage', enabled'⟩ : Activation).ServesClock := by
  obtain ⟨_, -, routine⟩ := serves
  cases routine
  exact ⟨stage', before, rfl⟩

/-- After that it does not. -/
theorem Activation.not_servesClock_scheduler {hardware enabled : Bool} {stage : Stage}
    (after : stage ∉ [Stage.entered, .returning, .selected]) :
    ¬ (⟨.scheduler hardware stage, enabled⟩ : Activation).ServesClock := by
  rintro ⟨_, among, routine⟩
  cases routine
  exact after among

theorem State.taskStep_eq_ok {s s' : State} {next : Except Stop State}
    (stepped : s.taskStep next = .ok s') : s.current.routine = .task ∧ next = .ok s' := by
  unfold State.taskStep at stepped
  split at stepped
  · next task => exact ⟨task, stepped⟩
  · cases stepped

section Steps

variable {image : Image} {b b' : Board} {a a' : Activation} {stack rest : List Activation}
  {index : UInt8} {s s' : State}

theorem ClockGoesOn.goOn (clock : ClockGoesOn b (a :: rest))
    (serves : a.ServesClock → a'.ServesClock) : ClockGoesOn b (a' :: rest) := by
  intro unmasked pending
  obtain requested | ⟨c, mem, serving⟩ := clock unmasked pending
  · exact Or.inl requested
  · right
    obtain rfl | mem := List.mem_cons.mp mem
    · exact ⟨a', List.mem_cons_self, serves serving⟩
    · exact ⟨c, List.mem_cons_of_mem a' mem, serving⟩

/-- The current routine goes on without an end of an interrupt. -/
theorem Served.goOn (served : Served b (a :: rest)) (master : a'.master? = a.master?)
    (slave : a'.slave? = a.slave?) (clock : ClockGoesOn b (a' :: rest)) :
    Served b (a' :: rest) where
  wired := served.wired
  master := by
    rw [served.master, owed, owed, List.filterMap_cons, List.filterMap_cons, master]
  slave := by
    rw [served.slave, owedSlave, owedSlave, List.filterMap_cons, List.filterMap_cons, slave]
  clock := clock

theorem Served.raise (served : Served b stack) (irq : Irq) : Served (b.raise irq) stack := by
  unfold Board.raise
  split
  · exact served
  · split
    · exact ⟨served.wired.of_same rfl rfl, served.master, served.slave, served.clock⟩
    · refine ⟨served.wired.of_same rfl rfl, served.master, served.slave, fun unmasked pending => ?_⟩
      exact (served.clock unmasked pending).imp_left (Finset.mem_insert_of_mem ·)

theorem Served.tick (served : Served b stack) : Served b.tick stack := by
  unfold Board.tick
  split
  · exact ⟨served.wired.of_same rfl rfl, served.master, served.slave,
      fun _ _ => Or.inl (Finset.mem_insert_self _ _)⟩
  · exact served

theorem Board.cmos_raise (irq : Irq) : (b.raise irq).cmos = b.cmos := by
  unfold Board.raise
  split
  · rfl
  · split <;> rfl

theorem Board.index_tick : b.tick.cmos.index = b.cmos.index := by
  unfold Board.tick
  split
  · rfl
  · rfl

/-- A handler of the first controller is entered. -/
theorem Served.handler (served : Served b stack) (irq : Irq) (enabled : Bool) :
    Served { b with master := b.master.serve irq.line }
      (⟨.handler irq false, enabled⟩ :: stack) where
  wired := served.wired.of_same rfl rfl
  master := by
    rw [owed_cons_of_some rfl, List.toFinset_cons, ← served.master]
    rfl
  slave := served.slave
  clock := fun unmasked pending => (served.clock unmasked pending).imp_right
    fun ⟨c, mem, serving⟩ => ⟨c, List.mem_cons_of_mem _ mem, serving⟩

/-- `scheduler_interrupt` is entered for an interrupt of the clock. -/
theorem Served.scheduler (served : Served b stack) (enabled : Bool) :
    Served { b with
        master := b.master.serve Irq.CASCADE.line
        slave := b.slave.serve Irq.CMOS_RTC.line }
      (⟨.scheduler true .entered, enabled⟩ :: stack) where
  wired := served.wired.of_same rfl rfl
  master := by
    rw [owed_cons_of_some rfl, List.toFinset_cons, ← served.master]
    rfl
  slave := by
    rw [owedSlave_cons_of_some rfl, List.toFinset_cons, ← served.slave]
    rfl
  clock := fun _ _ => Or.inr ⟨_, List.mem_cons_self, .entered, by simp, rfl⟩

/-- `scheduler_interrupt` is entered for a task that yields. -/
theorem Served.yield (served : Served b stack) (enabled : Bool) :
    Served b (⟨.scheduler false .entered, enabled⟩ :: stack) where
  wired := served.wired
  master := served.master
  slave := served.slave
  clock := fun unmasked pending => (served.clock unmasked pending).imp_right
    fun ⟨c, mem, serving⟩ => ⟨c, List.mem_cons_of_mem _ mem, serving⟩

/-- The current routine goes on above another stack. -/
theorem Served.exchange {rest' : List Activation} (served : Served b (a :: rest))
    (settled : owed rest = []) (settled' : owed rest' = []) : Served b (a :: rest') where
  wired := served.wired
  master := by
    rw [served.master, owed, owed, List.filterMap_cons, List.filterMap_cons]
    rw [owed] at settled settled'
    rw [settled, settled']
  slave := by
    have settled := owedSlave_of_owed settled
    have settled' := owedSlave_of_owed settled'
    rw [served.slave, owedSlave, owedSlave, List.filterMap_cons, List.filterMap_cons]
    rw [owedSlave] at settled settled'
    rw [settled, settled']
  clock := fun unmasked pending => by
    refine (served.clock unmasked pending).imp_right fun ⟨c, mem, serving⟩ => ?_
    obtain rfl | mem := List.mem_cons.mp mem
    · exact ⟨c, List.mem_cons_self, serving⟩
    · have owes : Irq.CASCADE.line ∈ owed rest :=
        List.mem_filterMap.mpr ⟨c, mem, serving.master?⟩
      rw [settled] at owes
      cases owes

/-- The end of an interrupt at the first controller. -/
theorem Served.endMaster (served : Served b (a :: rest)) (stacked : Stacked index (a :: rest))
    (owing : a.master? ≠ none ∨ owed rest = []) (told : a'.master? = none)
    (slave : a'.slave? = a.slave?) (serves : a.ServesClock → a'.ServesClock) :
    Served { b with master := b.master.endOfInterrupt } (a' :: rest) := by
  rw [Chip.endOfInterrupt_eq served.master stacked.nested]
  refine ⟨served.wired.of_same rfl rfl, ?_, ?_, served.clock.goOn serves⟩
  · rw [owed_cons_of_none told]
    show (owed (a :: rest)).tail.toFinset = _
    cases owes : a.master? with
    | none =>
        obtain owing | settled := owing
        · exact absurd owes owing
        · rw [owed_cons_of_none owes, settled, List.tail_nil]
    | some i => rw [owed_cons_of_some owes, List.tail_cons]
  · rw [owedSlave, List.filterMap_cons, slave, ← List.filterMap_cons]
    exact served.slave

/-- The end of an interrupt at the second controller. -/
theorem Served.endSlave (served : Served b (a :: rest)) (settled : owed rest = [])
    (told : a'.slave? = none) (master : a'.master? = a.master?)
    (serves : a.ServesClock → a'.ServesClock) :
    Served { b with slave := b.slave.endOfInterrupt } (a' :: rest) := by
  have settled' := owedSlave_of_owed settled
  have nested : (owedSlave (a :: rest)).Pairwise (· < ·) ∧ (owedSlave (a :: rest)).tail = [] := by
    cases owes : a.slave? with
    | none =>
        rw [owedSlave_cons_of_none owes, settled']
        exact ⟨List.Pairwise.nil, rfl⟩
    | some i =>
        rw [owedSlave_cons_of_some owes, settled']
        exact ⟨List.pairwise_singleton _ _, rfl⟩
  rw [Chip.endOfInterrupt_eq served.slave nested.1]
  refine ⟨served.wired.of_same rfl rfl, ?_, ?_, served.clock.goOn serves⟩
  · rw [owed, List.filterMap_cons, master, ← List.filterMap_cons]
    exact served.master
  · rw [owedSlave_cons_of_none told, settled']
    show (owedSlave (a :: rest)).tail.toFinset = _
    rw [nested.2]

theorem State.Inv.devices (inv : s.Inv) (served : Served b s.stack)
    (same : b.cmos.index = s.board.cmos.index ∨ b.cmos.index = RTC_SELECT_C) :
    { s with board := b }.Inv := by
  obtain same | selected := same
  · refine ⟨served, ?_, ?_⟩
    · rw [same]
      exact inv.stacked
    · rw [same]
      exact inv.waiting
  · refine ⟨served, ?_, fun stack mem => ?_⟩
    · rw [selected]
      exact inv.stacked.select
    · rw [selected]
      exact (inv.waiting stack mem).select

/-- The current routine goes on without an end of an interrupt. -/
theorem State.Inv.goOn (inv : s.Inv) (closed : a'.Closed s.board.cmos.index)
    (master : a'.master? = s.current.master?) (slave : a'.slave? = s.current.slave?)
    (clock : ClockGoesOn s.board (a' :: s.below)) (task : a'.OfTask → s.current.OfTask)
    (same : s.current.routine = .task → a'.routine = .task) : { s with current := a' }.Inv where
  served := inv.served.goOn master slave clock
  stacked := inv.stacked.goOn closed (Or.inl master) task same
  waiting := inv.waiting

theorem State.Inv.init (inv : s.Inv) (driver : Driver) :
    ∃ s', s.runCode driver.init = .ok s' ∧ s'.Inv := by
  obtain ⟨b, ran, wired, master, slave, clock⟩ := inv.served.wired.init driver
  refine ⟨{ s with board := b }, ?_, inv.devices ⟨wired, ?_, ?_, ?_⟩ ?_⟩
  · unfold State.runCode
    rw [ran]
  · rw [master]
    exact inv.served.master
  · rw [slave]
    exact inv.served.slave
  · obtain ⟨slave, cmos⟩ | ⟨-, read⟩ := clock
    · unfold ClockGoesOn
      rw [slave, cmos]
      exact inv.served.clock
    · intro _ pending
      cases read.symm.trans pending
  · obtain ⟨-, cmos⟩ | ⟨selected, -⟩ := clock
    · exact Or.inl (congrArg Cmos.index cmos)
    · exact Or.inr selected

/-- There is a handler for an interrupt that is taken. -/
theorem State.Inv.enter (inv : s.Inv) (enabled : s.current.enabled = true) {vector : UInt8}
    (taken : s.board.acknowledge = some (vector, b)) :
    ∃ s', { s with board := b }.enter image vector true = .ok s' ∧ s'.Inv := by
  have all : ∀ a ∈ s.stack, a.enabled = true :=
    List.forall_mem_cons.mpr ⟨enabled, inv.stacked.enabled_below⟩
  obtain ⟨irq, handled, rfl, before, rfl⟩ | ⟨rfl, before, -, rfl⟩ :=
    inv.served.wired.acknowledge taken
  · refine ⟨_, State.enter_handler handled, inv.served.handler irq false,
      .cons ⟨rfl, handled⟩ all ?_ ?_ (fun _ => List.cons_ne_nil _ _) inv.stacked, inv.waiting⟩
    · intro i owes j inService
      cases owes
      exact before j (by rw [inv.served.master]; exact List.mem_toFinset.mpr inService)
    · rintro (task | ⟨stage, scheduler⟩)
      · cases task
      · cases scheduler
  · refine ⟨_, State.enter_scheduler, inv.served.scheduler false,
      .cons rfl all ?_ ?_ (fun _ => List.cons_ne_nil _ _) inv.stacked, inv.waiting⟩
    · intro i owes j inService
      cases owes
      exact before j (by rw [inv.served.master]; exact List.mem_toFinset.mpr inService)
    · rintro (task | ⟨stage, scheduler⟩)
      · cases task
      · cases scheduler

theorem State.Inv.yield (inv : s.Inv) (task : s.current.routine = .task)
    (enabled : s.current.enabled = true) :
    ∃ s', s.enter image 0x28 false = .ok s' ∧ s'.Inv := by
  have settled : owed s.stack = [] := inv.stacked.settled_of_task task
  refine ⟨_, State.enter_scheduler, inv.served.yield false,
    .cons rfl (List.forall_mem_cons.mpr ⟨enabled, inv.stacked.enabled_below⟩) ?_
      (fun _ => settled) (fun _ => List.cons_ne_nil _ _) inv.stacked, inv.waiting⟩
  intro i owes
  cases owes

/-- `scheduler_interrupt` gets to `end_of_interrupt`. -/
theorem State.Inv.returning (inv : s.Inv) {hardware : Bool}
    (routine : s.current.routine = .scheduler hardware .entered) (enabled : Bool) :
    { s with current := ⟨.scheduler hardware .returning, enabled⟩ }.Inv := by
  obtain ⟨b, switching, ⟨_, before⟩, below, parked⟩ := s
  obtain rfl := routine
  exact inv.goOn trivial (by cases hardware <;> rfl) (by cases hardware <;> rfl)
    (inv.served.clock.goOn (Activation.servesClock_scheduler (by simp)))
    Activation.ofTask_scheduler (fun task => by cases task)

/-- `task_switch` exchanges two stacks on which nothing is owed. -/
theorem State.Inv.taskSwitch (inv : s.Inv) {hardware : Bool}
    (routine : s.current.routine = .scheduler hardware .entered) (next : Option Nat) :
    (s.taskSwitch hardware next).Inv := by
  have returning := inv.returning routine true
  unfold State.taskSwitch
  cases next with
  | none => exact returning
  | some i =>
      dsimp only
      split
      · exact returning
      · next stack found =>
          have settled : owed s.below = [] := returning.stacked.below_scheduler Stage.noConfusion
          have ready := inv.waiting stack (List.mem_of_getElem? found)
          refine ⟨returning.served.exchange settled ready.settled, ?_, fun other mem => ?_⟩
          · refine .cons trivial ready.enabled ?_ (fun _ => ready.settled) (fun _ => ready.nonempty)
              ready.stacked
            intro i _ j owes
            rw [ready.settled] at owes
            cases owes
          · obtain mem | rfl := List.mem_or_eq_of_mem_set mem
            · exact inv.waiting other mem
            · exact ⟨inv.stacked.inner, returning.stacked.grounded Routine.noConfusion,
                inv.stacked.enabled_below, settled⟩

/-- `iretq` finds something to return to. -/
theorem State.Inv.iret (inv : s.Inv) (other : s.current.routine ≠ .task)
    (told : s.current.master? = none) (serves : ¬ s.current.ServesClock) :
    ∃ s', s.iret = .ok s' ∧ s'.Inv := by
  have grounded := inv.stacked.grounded other
  obtain ⟨b, switching, current, below, parked⟩ := s
  cases below with
  | nil => exact absurd rfl grounded
  | cons outer rest =>
      refine ⟨_, rfl, ⟨inv.served.wired, ?_, ?_, ?_⟩, inv.stacked.inner, inv.waiting⟩
      · refine inv.served.master.trans ?_
        exact congrArg List.toFinset (owed_cons_of_none told)
      · refine inv.served.slave.trans ?_
        exact congrArg List.toFinset (owedSlave_cons_of_none (Activation.slave?_of_master? told))
      · refine fun unmasked pending => (inv.served.clock unmasked pending).imp_right ?_
        rintro ⟨c, mem, serving⟩
        obtain rfl | mem := List.mem_cons.mp mem
        · exact absurd serving serves
        · exact ⟨c, mem, serving⟩

theorem State.runCode_eq {code : Code Unit} (ran : code.run Board.devices s.board = .ok ((), b)) :
    s.runCode code = .ok { s with board := b } := by
  unfold State.runCode
  rw [ran]

theorem State.Inv.advance (inv : s.Inv) (other : s.current.routine ≠ .task) (next : Option Nat) :
    ∃ s', s.advance next = .ok s' ∧ s'.Inv := by
  obtain ⟨b, switching, ⟨routine, enabled⟩, below, parked⟩ := s
  cases routine with
  | task => exact absurd rfl other
  | handler irq signalled =>
      cases signalled with
      | true =>
          refine inv.iret other rfl ?_
          rintro ⟨stage, -, serving⟩
          cases serving
      | false =>
          have closed : enabled = false ∧ (irq = .PIT ∨ irq = .KEYBOARD ∨ irq = .FLOPPY) :=
            inv.stacked.closed _ List.mem_cons_self
          have ran : (signalEndOfInterrupt irq).run Board.devices b =
              .ok ((), { b with master := b.master.endOfInterrupt }) := by
            obtain rfl | rfl | rfl := closed.2 <;> rfl
          refine ⟨_, State.runCode_eq ran, inv.served.endMaster inv.stacked (Or.inl ?_) rfl rfl ?_,
            inv.stacked.goOn closed (Or.inr rfl) ?_ (fun task => by cases task), inv.waiting⟩
          · intro none_
            cases none_
          · rintro ⟨stage, -, serving⟩
            cases serving
          · rintro (task | ⟨stage, scheduler⟩)
            · cases task
            · cases scheduler
  | scheduler hardware stage =>
      have same : ∀ stage', (Routine.scheduler hardware stage = .task →
          Routine.scheduler hardware stage' = .task) := fun _ task => by cases task
      cases stage with
      | entered =>
          refine ⟨_, rfl, ?_⟩
          split
          · exact inv.taskSwitch rfl next
          · exact inv.returning rfl enabled
      | returning =>
          have ran : (outb 0x70 0xC).run Board.devices b =
              .ok ((), { b with cmos := b.cmos.select 0xC }) := rfl
          have selected := inv.devices (b := { b with cmos := b.cmos.select 0xC })
            ⟨inv.served.wired.of_same rfl rfl, inv.served.master, inv.served.slave,
              inv.served.clock⟩ (Or.inr rfl)
          have ran := State.runCode_eq
            (s := ⟨b, switching, ⟨.scheduler hardware .selected, enabled⟩, below, parked⟩) ran
          refine ⟨_, ran, selected.goOn rfl ?_ ?_
            (selected.served.clock.goOn (Activation.servesClock_scheduler (by simp)))
            Activation.ofTask_scheduler (same _)⟩
          · cases hardware <;> rfl
          · cases hardware <;> rfl
      | selected =>
          have index : b.cmos.index = RTC_SELECT_C := inv.stacked.closed _ List.mem_cons_self
          have read : b.cmos.read.2 = { b.cmos with pending := false } := by
            unfold Cmos.read
            rw [if_neg (by rw [index]; decide), if_pos index]
          have ran : (do let _ ← inb 0x71; return : Code Unit).run Board.devices b =
              .ok ((), { b with cmos := b.cmos.read.2 }) := rfl
          rw [read] at ran
          have idle : ∀ stack,
              ClockGoesOn { b with cmos := { b.cmos with pending := false } } stack :=
            fun _ _ pending => by cases pending
          have done := inv.devices (b := { b with cmos := { b.cmos with pending := false } })
            ⟨inv.served.wired.of_same rfl rfl, inv.served.master, inv.served.slave, idle _⟩
            (Or.inl rfl)
          have ran := State.runCode_eq
            (s := ⟨b, switching, ⟨.scheduler hardware .clockRead, enabled⟩, below, parked⟩) ran
          refine ⟨_, ran, done.goOn trivial ?_ ?_ (idle _)
            Activation.ofTask_scheduler (same _)⟩
          · cases hardware <;> rfl
          · cases hardware <;> rfl
      | clockRead =>
          have ran : (outb 0xA0 0x20).run Board.devices b =
              .ok ((), { b with slave := b.slave.endOfInterrupt }) := rfl
          have ran := State.runCode_eq
            (s := ⟨b, switching, ⟨.scheduler hardware .slaveSignalled, enabled⟩, below, parked⟩) ran
          refine ⟨_, ran,
            inv.served.endSlave (inv.stacked.below_scheduler Stage.noConfusion) ?_ ?_ ?_,
            inv.stacked.goOn trivial ?_ Activation.ofTask_scheduler (same _), inv.waiting⟩
          · cases hardware <;> rfl
          · cases hardware <;> rfl
          · exact fun serving => absurd serving (Activation.not_servesClock_scheduler (by simp))
          · cases hardware <;> exact Or.inl rfl
      | slaveSignalled =>
          have ran : (outb 0x20 0x20).run Board.devices b =
              .ok ((), { b with master := b.master.endOfInterrupt }) := rfl
          have settled : owed below = [] := inv.stacked.below_scheduler Stage.noConfusion
          have ran := State.runCode_eq
            (s := ⟨b, switching, ⟨.scheduler hardware .signalled, enabled⟩, below, parked⟩) ran
          refine ⟨_, ran, inv.served.endMaster inv.stacked (Or.inr settled) ?_ ?_ ?_,
            inv.stacked.goOn trivial (Or.inr ?_) Activation.ofTask_scheduler (same _), inv.waiting⟩
          · cases hardware <;> rfl
          · cases hardware <;> rfl
          · exact fun serving => absurd serving (Activation.not_servesClock_scheduler (by simp))
          · cases hardware <;> rfl
      | signalled =>
          refine inv.iret other ?_ (Activation.not_servesClock_scheduler (by simp))
          cases hardware <;> rfl

theorem State.Inv.step (inv : s.Inv) {o : Op} (legal : s.Legal o) :
    ∃ s', s.step image o = .ok s' ∧ s'.Inv := by
  have taskStep : ∀ {next s'}, s.current.routine = .task → next = .ok s' → s'.Inv →
      ∃ s', s.taskStep next = .ok s' ∧ s'.Inv := fun task eq inv' =>
    ⟨_, (if_pos task).trans eq, inv'⟩
  cases o with
  | raise irq _ =>
      exact ⟨_, rfl, inv.devices (inv.served.raise irq)
        (Or.inl (congrArg Cmos.index (Board.cmos_raise irq)))⟩
  | tick => exact ⟨_, rfl, inv.devices inv.served.tick (Or.inl Board.index_tick)⟩
  | deliver =>
      unfold State.step
      dsimp only
      split
      · next enabled =>
          split
          · next taken => exact inv.enter enabled taken
          · exact ⟨s, rfl, inv⟩
      · exact ⟨s, rfl, inv⟩
  | enable val =>
      refine taskStep legal rfl ?_
      obtain ⟨b, switching, ⟨_, enabled⟩, below, parked⟩ := s
      obtain rfl : _ = Routine.task := legal
      exact inv.goOn trivial rfl rfl (inv.served.clock.goOn id) id id
  | enableTaskSwitch => exact taskStep legal rfl ⟨inv.served, inv.stacked, inv.waiting⟩
  | init driver =>
      obtain ⟨s', ran, inv'⟩ := inv.init driver
      exact taskStep legal ran inv'
  | schedule =>
      refine taskStep legal rfl ⟨inv.served, inv.stacked, fun stack mem => ?_⟩
      obtain mem | mem := List.mem_append.mp mem
      · exact inv.waiting stack mem
      · obtain rfl := List.mem_singleton.mp mem
        exact .fresh
  | kill i =>
      exact taskStep legal rfl
        ⟨inv.served, inv.stacked, fun stack mem => inv.waiting stack (List.mem_of_mem_eraseIdx mem)⟩
  | yield =>
      by_cases ready : (s.current.enabled && s.taskSwitchingEnabled) = true
      · obtain ⟨s', entered, inv'⟩ := inv.yield legal ((Bool.and_eq_true _ _).mp ready).1
        exact taskStep legal ((if_pos ready).trans entered) inv'
      · exact taskStep legal (if_neg ready) inv
  | advance next => exact inv.advance legal next

theorem State.legal_of_step {o : Op} (stepped : s.step image o = .ok s') : s.Legal o := by
  cases o with
  | raise | tick | deliver => trivial
  | enable | enableTaskSwitch | init | schedule | kill | yield =>
      exact (State.taskStep_eq_ok stepped).1
  | advance next =>
      intro task
      have stuck : s.advance next = .error (.fault "not in a handler") := by
        unfold State.advance
        rw [task]
      cases stuck.symm.trans stepped

theorem State.Inv.acknowledged (inv : s.Inv) : s.Acknowledged where
  master := inv.served.master
  slave := inv.served.slave
  parked stack mem :=
    have settled := (inv.waiting stack mem).settled
    ⟨settled, owedSlave_of_owed settled⟩
  task task := by
    have settled : owed s.stack = [] := inv.stacked.settled_of_task task
    rw [inv.served.master, inv.served.slave, owedSlave_of_owed settled, settled]
    exact ⟨rfl, rfl⟩
  clock := inv.served.clock

end Steps

/-- The boot loader's masks stay in place until the drivers unmask their lines. -/
theorem State.start_inv (b : Board) : ∃ s, State.start b = .ok s ∧ s.Inv := by
  have masterMask : ∀ i : Fin 8,
      ((0xFF : UInt8) &&& ~~~ Irq.CASCADE.mask).toBitVec.getLsbD i = false →
        i = Irq.PIT.line ∨ i = Irq.KEYBOARD.line ∨ i = Irq.CASCADE.line ∨ i = Irq.FLOPPY.line := by
    decide
  have slaveMask : ∀ i : Fin 8, (0xFF : UInt8).toBitVec.getLsbD i = false → False := by
    decide
  refine ⟨_, State.runCode_eq (run_remapInterrupts _),
    ⟨⟨⟨rfl, rfl, rfl⟩, ⟨rfl, rfl⟩, masterMask, ?_⟩, rfl, rfl, ?_⟩, ?_, ?_⟩
  · exact fun i unmasked => (slaveMask i unmasked).elim
  · exact fun unmasked => (slaveMask _ unmasked).elim
  · refine .cons trivial (fun _ mem => ?_) (fun i owes => ?_) (fun _ => rfl) (absurd rfl) .nil
    · cases mem
    · cases owes
  · intro stack mem
    cases mem

/-- From any state of the controllers and the clock, and whatever happens after `idt::init`: the
lines in service are those whose handlers owe their end, a task that has its turn owes none, and
no step fails: every interrupt that is taken has a handler, which has something to return to. -/
theorem interrupts_acknowledged (image : Image) (b : Board) : ∃ s, State.start b = .ok s ∧
    ∀ ops, (interruptMachine image).Always State.Acknowledged s ops ∧
      (interruptMachine image).EachStep
        (fun s o => s.Legal o → ∃ s', s.step image o = .ok s') s ops := by
  obtain ⟨s, started, inv⟩ := State.start_inv b
  refine ⟨s, started, fun ops => ?_⟩
  have preserves : ∀ s o s', State.Inv s → True → (interruptMachine image).step s o = .ok s' →
      State.Inv s' := by
    intro s o s' inv _ stepped
    obtain ⟨s'', stepped', inv'⟩ := inv.step (State.legal_of_step stepped)
    cases stepped'.symm.trans stepped
    exact inv'
  refine ⟨Machine.always_of_inv preserves (fun _ inv => inv.acknowledged) inv Machine.eachStep_true,
    Machine.eachStep_of_inv preserves (fun s o inv _ legal => ?_) inv Machine.eachStep_true⟩
  obtain ⟨s', stepped, -⟩ := State.Inv.step inv legal
  exact ⟨s', stepped⟩

/-! ## A kernel and a run -/

/-- A vector with the handler. -/
def Handler.vector : Handler → UInt8
  | .generalProtectionFault => 0x0D
  | .pageFault => 0x0E
  | .timer => 0x20
  | .keyboard => 0x21
  | .floppy => 0x26
  | .scheduler => 0x28
  | .syscall => 0x80
  | .interrupt n => n

/-- Handlers of 16 bytes, in front those that `interrupt_handler` makes. -/
def sampleLink : Handler → UInt64
  | .interrupt n => (0xFFFFFFFF80010000 : UInt64) + n.toUInt64 <<< 4
  | handler => (0xFFFFFFFF80020000 : UInt64) + handler.vector.toUInt64 <<< 4

def sampleHandlerAt (address : UInt64) : Handler :=
  if address < 0xFFFFFFFF80020000 then .interrupt (address >>> 4).toUInt8
  else getHandler (address >>> 4).toUInt8

theorem sampleHandlerAt_interrupt (n : UInt8) :
    sampleHandlerAt (sampleLink (.interrupt n)) = .interrupt n := by
  have all : ∀ i : Fin 256,
      sampleHandlerAt (sampleLink (.interrupt ⟨⟨i⟩⟩)) = .interrupt ⟨⟨i⟩⟩ := by
    decide +kernel
  exact all n.toFin

def sampleImage : Image where
  link := sampleLink
  handlerAt := sampleHandlerAt
  placed handler := by
    cases handler with
    | interrupt n => exact sampleHandlerAt_interrupt n
    | generalProtectionFault | pageFault | timer | keyboard | floppy | scheduler | syscall => rfl

/-- The controllers as the firmware leaves them. -/
def sampleBoard : Board where
  master := ⟨∅, ∅, 0, 0x08, 0x04, 0⟩
  slave := ⟨∅, ∅, 0, 0x70, 0x02, 0⟩
  cmos := ⟨0, 0x02, false⟩

/-- A task yields and another one gets its turn. The clock interrupts the end of its
`scheduler_interrupt`, and the timer that of the clock's. -/
def nestedInterrupts : List Op :=
  [.init .pit, .init .cmos, .enable true, .enableTaskSwitch, .schedule,
    .yield, .advance (some 0), .tick, .deliver, .advance none, .raise .PIT (by decide), .deliver]

/-- The controllers have the lines of the timer and of the clock in service, and their handlers are
on the stack of the second task. -/
theorem interrupts_acknowledged_nested : ∃ s, State.start sampleBoard = .ok s ∧
    (interruptMachine sampleImage).Always State.Acknowledged s nestedInterrupts ∧
    ∃ t, (interruptMachine sampleImage).run s nestedInterrupts = .ok t ∧
      t.board.master.isr = {Irq.PIT.line, Irq.CASCADE.line} ∧
      t.board.slave.isr = {Irq.CMOS_RTC.line} ∧
      t.stack = [⟨.handler .PIT false, false⟩, ⟨.scheduler true .returning, true⟩,
        ⟨.scheduler false .returning, true⟩, ⟨.task, true⟩] := by
  obtain ⟨s, started, runs⟩ := interrupts_acknowledged sampleImage sampleBoard
  have evaluated : completesWith (State.start sampleBoard) (fun s =>
      completesWith ((interruptMachine sampleImage).run s nestedInterrupts) fun t => decide <|
        t.board.master.isr = {Irq.PIT.line, Irq.CASCADE.line} ∧
        t.board.slave.isr = {Irq.CMOS_RTC.line} ∧
        t.stack = [⟨.handler .PIT false, false⟩, ⟨.scheduler true .returning, true⟩,
          ⟨.scheduler false .returning, true⟩, ⟨.task, true⟩]) = true := by decide +kernel
  obtain ⟨s', started', completes⟩ := exists_of_completesWith evaluated
  obtain rfl : s = s' := Except.ok.inj (started.symm.trans started')
  obtain ⟨t, ran, final⟩ := exists_of_completesWith completes
  exact ⟨s, started, (runs nestedInterrupts).1, t, ran, of_decide_eq_true final⟩

end Tyleros.Pic
