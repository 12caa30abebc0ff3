import Tyleros.Pic.Driver
import Tyleros.Lib.Machine
import Mathlib.Data.Finset.Max
import Mathlib.Data.Fin.Basic
import Mathlib.Order.Fin.Basic

/-!
# Interrupts

What takes part in an interrupt: the two interrupt controllers and the clock, `kernel/cmos.cpp`,
the gates and the handlers that `kernel/idt.cpp` and `kernel/interrupts.cpp` install, and
`scheduler_interrupt` of `kernel/task.asm`. A step of the `interruptMachine` is a device that raises
its line, an interrupt that is taken, a task that yields, or the next instruction of a handler, so
that handlers may be interrupted at every point where they run with interrupts enabled.
-/

namespace Tyleros.Pic

open Lib
open Io (Request Code inb outb)

/-! ## The interrupt controllers -/

/-- An 8259. It keeps a request until it is served. -/
structure Chip where
  /-- The lines that were raised. -/
  irr : Finset (Fin 8)
  /-- The lines in service. -/
  isr : Finset (Fin 8)
  imr : UInt8
  offset : UInt8
  /-- The lines with another controller. -/
  cascade : UInt8
  /-- How many initialization words are to come. -/
  awaits : Nat
  deriving DecidableEq

namespace Chip

def masks (c : Chip) (i : Fin 8) : Bool := c.imr.toBitVec.getLsbD i

/-- A non-specific end of interrupt is for the line in service with the highest priority. -/
def endOfInterrupt (c : Chip) : Chip :=
  if h : c.isr.Nonempty then { c with isr := c.isr.erase (c.isr.min' h) } else c

def writeCommand (val : UInt8) (c : Chip) : Chip :=
  if val &&& 0x10 ≠ 0 then { c with irr := ∅, isr := ∅, imr := 0, awaits := 3 }
  else if val = END_OF_INTERRUPT then c.endOfInterrupt
  else c

def writeData (val : UInt8) (c : Chip) : Chip :=
  match c.awaits with
  | 0 => { c with imr := val }
  | 1 => { c with awaits := 0 }
  | 2 => { c with cascade := val, awaits := 1 }
  | _ => { c with offset := val &&& 0xF8, awaits := 2 }

/-- The line that is served next: the first one that is not masked, if it comes before all that
are in service. -/
def next? (c : Chip) (raised : Finset (Fin 8)) : Option (Fin 8) :=
  let lines := raised.filter fun i => c.masks i = false ∧ ∀ j ∈ c.isr, i < j
  if h : lines.Nonempty then some (lines.min' h) else none

/-- The line goes from `irr` to `isr`. -/
def serve (i : Fin 8) (c : Chip) : Chip :=
  { c with irr := c.irr.erase i, isr := insert i c.isr }

end Chip

/-- The line of a request at its controller. -/
def Irq.line (irq : Irq) : Fin 8 := Fin.ofNat 8 irq.code

/-! ## The clock -/

/-- The clock's registers. -/
structure Cmos where
  index : UInt8
  registerB : UInt8
  /-- Register C says that there was an interrupt. The clock raises its line again after it
  was read. -/
  pending : Bool
  deriving DecidableEq

def CMOS_COMMAND : UInt16 := 0x70

def CMOS_DATA : UInt16 := 0x71

def CMOS_NMI_DISABLE : UInt8 := 0x80

def RTC_SELECT_B : UInt8 := 0x0B

def RTC_SELECT_C : UInt8 := 0x0C

/-- `1 << 6`. -/
def RTC_ENABLE_INTERRUPT : UInt8 := 0x40

namespace Cmos

/-- The high bit is no part of the index. -/
def select (val : UInt8) (c : Cmos) : Cmos := { c with index := val &&& 0x7F }

def read (c : Cmos) : UInt8 × Cmos :=
  if c.index = RTC_SELECT_B then (c.registerB, c)
  else if c.index = RTC_SELECT_C then (if c.pending then 0xC0 else 0, { c with pending := false })
  else (0, c)

def write (val : UInt8) (c : Cmos) : Cmos :=
  if c.index = RTC_SELECT_B then { c with registerB := val } else c

end Cmos

/-! ## The board -/

structure Board where
  master : Chip
  slave : Chip
  cmos : Cmos
  deriving DecidableEq

namespace Board

def devices : (o : Request) → Board → o.Answer × Board
  | .inb port, b =>
    if port = PIC1_DATA then (b.master.imr, b)
    else if port = PIC2_DATA then (b.slave.imr, b)
    else if port = CMOS_DATA then (b.cmos.read.1, { b with cmos := b.cmos.read.2 })
    else ((0xFF : UInt8), b)
  | .outb port val, b =>
    ((), if port = PIC1_COMMAND then { b with master := b.master.writeCommand val }
      else if port = PIC2_COMMAND then { b with slave := b.slave.writeCommand val }
      else if port = PIC1_DATA then { b with master := b.master.writeData val }
      else if port = PIC2_DATA then { b with slave := b.slave.writeData val }
      else if port = CMOS_COMMAND then { b with cmos := b.cmos.select val }
      else if port = CMOS_DATA then { b with cmos := b.cmos.write val }
      else b)
  | .load, b => (false, b)
  | .store _, b => ((), b)

/-- A device raises its line. There is none at `CASCADE`. -/
def raise (irq : Irq) (b : Board) : Board :=
  if irq = .CASCADE then b
  else if irq.code < 8 then { b with master := { b.master with irr := insert irq.line b.master.irr } }
  else { b with slave := { b.slave with irr := insert irq.line b.slave.irr } }

/-- The clock has a tick. -/
def tick (b : Board) : Board :=
  if b.cmos.registerB &&& RTC_ENABLE_INTERRUPT ≠ 0 ∧ b.cmos.pending = false then
    { b with cmos := { b.cmos with pending := true } }.raise .CMOS_RTC
  else b

/-- The lines of the first controller; the second one is at `CASCADE`. -/
def raised (b : Board) : Finset (Fin 8) :=
  if (b.slave.next? b.slave.irr).isSome then insert Irq.CASCADE.line b.master.irr else b.master.irr

/-- The processor takes an interrupt: its vector. -/
def acknowledge (b : Board) : Option (UInt8 × Board) :=
  match b.master.next? b.raised with
  | none => none
  | some i =>
    if b.master.cascade.toBitVec.getLsbD i then
      match b.slave.next? b.slave.irr with
      | none => none
      | some j => some (b.slave.offset + UInt8.ofNat j,
          { b with master := b.master.serve i, slave := b.slave.serve j })
    else some (b.master.offset + UInt8.ofNat i, { b with master := b.master.serve i })

end Board

/-! ## `kernel/cmos.cpp` -/

/-- `cmos::init`. -/
def cmosInit : Code Unit := do
  outb CMOS_COMMAND (CMOS_NMI_DISABLE ||| RTC_SELECT_B)
  let value ← inb CMOS_DATA
  -- reading resets the index
  outb CMOS_COMMAND (CMOS_NMI_DISABLE ||| RTC_SELECT_B)
  outb CMOS_DATA (value ||| RTC_ENABLE_INTERRUPT)
  outb CMOS_COMMAND (CMOS_NMI_DISABLE ||| RTC_SELECT_C)
  let _ ← inb CMOS_DATA
  unmaskIrq .CMOS_RTC

/-! ## `kernel/interrupts.cpp` and `kernel/idt.cpp` -/

/-- The handlers; `interrupt n` is `interrupt_handler<n>`. -/
inductive Handler where
  | generalProtectionFault | pageFault | timer | keyboard | floppy | scheduler | syscall
  | interrupt (n : UInt8)
  deriving DecidableEq, Repr

def getHandler (index : UInt8) : Handler :=
  if index = 0x0D then .generalProtectionFault
  else if index = 0x0E then .pageFault
  else if index = 0x20 then .timer
  else if index = 0x21 then .keyboard
  else if index = 0x26 then .floppy
  else if index = 0x28 then .scheduler
  else if index = 0x80 then .syscall
  else if index < 0x28 then .interrupt index
  else .interrupt 0xFF

def KERNEL_CODE_SELECTOR : UInt16 := 8

/-- `IDT_Entry::Type::interrupt_32`. -/
def INTERRUPT_32 : UInt8 := 0xE

/-- `IDT_Entry::Attr::present`. -/
def PRESENT : UInt8 := 0x80

/-- `IDT_Entry`. -/
structure IdtEntry where
  offset1 : UInt16
  selector : UInt16
  ist : UInt8
  typeAttr : UInt8
  offset2 : UInt16
  offset3 : UInt32
  zero : UInt32

/-- The entry that `idt::init` makes for a handler. -/
def IdtEntry.ofHandler (handler : UInt64) : IdtEntry where
  offset1 := handler.toUInt16
  selector := KERNEL_CODE_SELECTOR
  ist := 0
  typeAttr := PRESENT ||| INTERRUPT_32
  offset2 := (handler >>> 16).toUInt16
  offset3 := (handler >>> 32).toUInt32
  zero := 0

/-- Where the processor goes on for an entry. -/
def IdtEntry.offset (e : IdtEntry) : UInt64 :=
  e.offset1.toUInt64 ||| e.offset2.toUInt64 <<< 16 ||| e.offset3.toUInt64 <<< 32

/-- Whether the processor disables interrupts for an entry. -/
def IdtEntry.disables (e : IdtEntry) : Bool := e.typeAttr &&& 0x0F = INTERRUPT_32

/-- Where the handlers are in the kernel. -/
structure Image where
  link : Handler → UInt64
  handlerAt : UInt64 → Handler
  placed : ∀ handler, handlerAt (link handler) = handler

/-- `g_idt`. -/
def idt (image : Image) (i : UInt8) : IdtEntry := .ofHandler (image.link (getHandler i))

/-! ## Code that is interrupted -/

/-- Where `scheduler_interrupt` is. -/
inductive Stage where
  | entered
  /-- At `end_of_interrupt`. -/
  | returning
  /-- Register C of the clock was selected. -/
  | selected
  /-- It was read. -/
  | clockRead
  /-- The second controller was told the end. -/
  | slaveSignalled
  /-- Both were. -/
  | signalled
  deriving DecidableEq, Repr

inductive Routine where
  /-- A task, with its system calls and exceptions. -/
  | task
  /-- `timer_handler`, `keyboard_handler` or `floppy_handler`, in front of
  `signal_end_of_interrupt` or behind it. -/
  | handler (irq : Irq) (signalled : Bool)
  /-- `scheduler_interrupt`; it does not know whether it is there for an interrupt of the clock or
  for a task that yields. -/
  | scheduler (hardware : Bool) (stage : Stage)
  deriving DecidableEq, Repr

/-- A routine on a stack, and whether it runs with interrupts enabled. -/
structure Activation where
  routine : Routine
  enabled : Bool
  deriving DecidableEq, Repr

structure State where
  board : Board
  taskSwitchingEnabled : Bool
  current : Activation
  /-- What the current routine interrupted, innermost first. -/
  below : List Activation
  /-- The stacks of the other tasks. -/
  parked : List (List Activation)

/-- What unmasks its interrupt: `init_pit`, `keyboard::init`, `init_floppy_driver` and
`cmos::init`. -/
inductive Driver where
  | pit | keyboard | floppy | cmos
  deriving DecidableEq, Repr

/-- The initialization of a driver, as far as the controllers and the clock take part in it. -/
def Driver.init : Driver → Code Unit
  | pit => unmaskIrq .PIT
  | keyboard => unmaskIrq .KEYBOARD
  | floppy => unmaskIrq .FLOPPY
  | cmos => cmosInit

inductive Op where
  /-- A device raises its line. The clock does at its ticks only. -/
  | raise (irq : Irq) (device : irq ≠ .CMOS_RTC)
  | tick
  /-- The processor takes an interrupt. -/
  | deliver
  /-- A task executes `sti` or `cli`. -/
  | enable (val : Bool)
  | enableTaskSwitch
  | init (driver : Driver)
  | schedule
  | kill (i : Nat)
  | yield
  /-- A handler goes on; `next` is the task that `task_switch` finds, if it finds one. -/
  | advance (next : Option Nat)

namespace State

/-- Everything on the current stack. -/
def stack (s : State) : List Activation := s.current :: s.below

/-- The processor goes on with the handler of a vector. -/
def enter (image : Image) (vector : UInt8) (hardware : Bool) (s : State) : Except Stop State :=
  let gate := idt image vector
  let next (routine : Routine) : Except Stop State := .ok { s with
    current := ⟨routine, s.current.enabled && !gate.disables⟩
    below := s.stack }
  match image.handlerAt gate.offset with
  | .timer => next (.handler .PIT false)
  | .keyboard => next (.handler .KEYBOARD false)
  | .floppy => next (.handler .FLOPPY false)
  | .scheduler => next (.scheduler hardware .entered)
  | .interrupt _ => .error (.panic "Unhandled unknown interrupt: 0x%x!")
  | _ => .error (.fault "not an interrupt of a device")

/-- `iretq`. -/
def iret (s : State) : Except Stop State :=
  match s.below with
  | outer :: rest => .ok { s with current := outer, below := rest }
  | [] => .error (.fault "nothing to return to")

/-- The current routine is at this stage of `scheduler_interrupt` now. -/
def at_ (hardware : Bool) (stage : Stage) (s : State) : State :=
  { s with current := { s.current with routine := .scheduler hardware stage } }

/-- `task_switch`, which ends with interrupts enabled. -/
def taskSwitch (hardware : Bool) (next : Option Nat) (s : State) : State :=
  let current := ⟨.scheduler hardware .returning, true⟩
  match next with
  | none => { s with current }
  | some i =>
    match s.parked[i]? with
    | none => { s with current }
    | some stack => { s with current, below := stack, parked := s.parked.set i s.below }

/-- Run code with the devices. -/
def runCode (code : Code Unit) (s : State) : Except Stop State :=
  match code.run Board.devices s.board with
  | .ok (_, board) => .ok { s with board }
  | .error e => .error e

/-- The next instruction of a handler that matters to the controllers. -/
def advance (next : Option Nat) (s : State) : Except Stop State :=
  match s.current.routine with
  | .task => .error (.fault "not in a handler")
  | .handler irq false =>
    { s with current := { s.current with routine := .handler irq true } }.runCode
      (signalEndOfInterrupt irq)
  | .handler _ true => s.iret
  | .scheduler hardware .entered =>
    .ok (if s.taskSwitchingEnabled then s.taskSwitch hardware next else s.at_ hardware .returning)
  | .scheduler hardware .returning => (s.at_ hardware .selected).runCode (outb 0x70 0xC)
  | .scheduler hardware .selected =>
    (s.at_ hardware .clockRead).runCode do
      let _ ← inb 0x71
      return
  | .scheduler hardware .clockRead => (s.at_ hardware .slaveSignalled).runCode (outb 0xA0 0x20)
  | .scheduler hardware .slaveSignalled => (s.at_ hardware .signalled).runCode (outb 0x20 0x20)
  | .scheduler _ .signalled => s.iret

/-- A step of a task. -/
def taskStep (s : State) (next : Except Stop State) : Except Stop State :=
  if s.current.routine = .task then next else .error (.fault "not in a task")

def step (image : Image) (s : State) : Op → Except Stop State
  | .raise irq _ => .ok { s with board := s.board.raise irq }
  | .tick => .ok { s with board := s.board.tick }
  | .deliver =>
    if s.current.enabled then
      match s.board.acknowledge with
      | some (vector, board) => { s with board }.enter image vector true
      | none => .ok s
    else .ok s
  | .enable val => s.taskStep (.ok { s with current := { s.current with enabled := val } })
  | .enableTaskSwitch => s.taskStep (.ok { s with taskSwitchingEnabled := true })
  | .init driver => s.taskStep (s.runCode driver.init)
  | .schedule => s.taskStep (.ok { s with parked := s.parked ++ [[⟨.task, true⟩]] })
  | .kill i => s.taskStep (.ok { s with parked := s.parked.eraseIdx i })
  | .yield => s.taskStep <|
    if s.current.enabled && s.taskSwitchingEnabled then s.enter image 0x28 false else .ok s
  | .advance next => s.advance next

/-- The boot loader masks all interrupts, and `remap_interrupts` sets the controllers up. -/
def start (board : Board) : Except Stop State :=
  { board := { board with
      master := { board.master with imr := 0xFF }
      slave := { board.slave with imr := 0xFF } }
    taskSwitchingEnabled := false
    current := ⟨.task, false⟩
    below := []
    parked := [] : State }.runCode remapInterrupts

end State

/-- All interleavings. -/
def interruptMachine (image : Image) : Machine State Op Stop := ⟨State.step image⟩

end Tyleros.Pic
