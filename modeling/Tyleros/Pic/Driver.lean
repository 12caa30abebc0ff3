import Tyleros.Basic
import Tyleros.Lib.Requests

/-!
# Ports, and the driver of the interrupt controllers

`kernel/util/io.h` and `kernel/pic.cpp`. Code that talks to devices is a program of requests:
`inb` and `outb`, and the loads and stores of the variable that an interrupt handler sets.
-/

namespace Tyleros

open Lib

/-! ## Ports -/

namespace Io

/-- A request of the devices, or of `disk_interrupt_handled`, which is `volatile`. -/
inductive Request where
  | inb (port : UInt16)
  | outb (port : UInt16) (val : UInt8)
  | load
  | store (val : Bool)
  deriving DecidableEq, Repr

def Request.Answer : Request → Type
  | inb _ => UInt8
  | outb _ _ => Unit
  | load => Bool
  | store _ => Unit

/-- Code of the kernel that talks to devices. -/
abbrev Code := Program Request Request.Answer Stop

/-- `io::inb(port)`. -/
def inb (port : UInt16) : Code UInt8 := Program.ask (Request.inb port)

/-- `io::outb(port, val)`. -/
def outb (port : UInt16) (val : UInt8) : Code Unit := Program.ask (Request.outb port val)

/-- `io::wait()`. -/
def wait : Code Unit := outb 0x80 0

end Io

namespace Pic

open Io (Code inb outb wait)

/-! ## `kernel/pic.cpp` -/

/-- `enum class irq`. -/
inductive Irq where
  | PIT | KEYBOARD | CASCADE | COM2 | COM1 | LPT2 | FLOPPY | LPT1
  | CMOS_RTC | PERIPHERAL_1 | PERIPHERAL_2 | PERIPHERAL_3 | PS2_MOUSE | FPU | PRIMARY_ATA
  | SECONDARY_ATA
  deriving DecidableEq, Repr

def PIC1_COMMAND : UInt16 := 0x20

def PIC2_COMMAND : UInt16 := 0xA0

def PIC1_DATA : UInt16 := 0x21

def PIC2_DATA : UInt16 := 0xA1

def END_OF_INTERRUPT : UInt8 := 0x20

/-- `ICW1_INIT | ICW1_ICW4`. -/
def ICW1 : UInt8 := 0x11

def ICW4_8086 : UInt8 := 0x01

/-- The value in `enum class irq`. -/
def Irq.code (irq : Irq) : Nat := irq.ctorIdx

/-- The data port of the controller of a request. -/
def Irq.port (irq : Irq) : UInt16 := if irq.code < 8 then PIC1_DATA else PIC2_DATA

/-- The bit of a request in the mask of its controller. -/
def Irq.mask (irq : Irq) : UInt8 :=
  if irq.code < 8 then 1 <<< UInt8.ofNat irq.code else 1 <<< UInt8.ofNat (irq.code - 8)

def maskIrq (code : Irq) : Code Unit := do
  let value ← inb code.port
  outb code.port (value ||| code.mask)

def unmaskIrq (code : Irq) : Code Unit := do
  let value ← inb code.port
  outb code.port (value &&& ~~~ code.mask)

def irqIsMasked (code : Irq) : Code Bool := do
  let value ← inb code.port
  return value &&& code.mask != 0

def signalEndOfInterrupt (code : Irq) : Code Unit := do
  outb PIC1_COMMAND END_OF_INTERRUPT
  if code.code ≥ 8 then outb PIC2_COMMAND END_OF_INTERRUPT

/-- Write to both controllers, and wait after each of them. -/
def writeBoth (port1 : UInt16) (val1 : UInt8) (port2 : UInt16) (val2 : UInt8) : Code Unit := do
  outb port1 val1
  wait
  outb port2 val2
  wait

def remapInterrupts : Code Unit := do
  let pic1Value ← inb PIC1_DATA
  let pic2Value ← inb PIC2_DATA
  writeBoth PIC1_COMMAND ICW1 PIC2_COMMAND ICW1
  writeBoth PIC1_DATA 0x20 PIC2_DATA 0x28
  -- the second controller is at line 2 of the first one, which is its line 1 on the bus
  writeBoth PIC1_DATA ((1 : UInt8) <<< 2) PIC2_DATA ((1 : UInt8) <<< 1)
  writeBoth PIC1_DATA ICW4_8086 PIC2_DATA ICW4_8086
  outb PIC1_DATA pic1Value
  outb PIC2_DATA pic2Value
  unmaskIrq .CASCADE

end Pic

end Tyleros
