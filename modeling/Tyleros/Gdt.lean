import Tyleros.Scheduler.Model

/-!
# The descriptor table

`gdt::init` of `kernel/gdt.cpp`, as the words that it writes, and `iretq` as the processor checks
the selectors of a frame against them. All of the kernel runs on privilege level 0.

`USER_CODE_SELECTOR` asks for level 0, and its descriptor is one of level 3. So `iretq` to the frame
of a user task is a general protection fault (`iretq_user`), and to that of a kernel task it is
none (`iretq_kernel`).
-/

namespace Tyleros.Gdt

open Scheduler (TaskFrame KERNEL_CODE_SELECTOR KERNEL_DATA_SELECTOR USER_CODE_SELECTOR
  USER_DATA_SELECTOR)

/-! ## `kernel/gdt.cpp` -/

def GDT_PRESENT : UInt8 := (1 : UInt8) <<< 7

def GDT_KERNEL_SEGMENT : UInt8 := (0 : UInt8) <<< 5

def GDT_USER_SEGMENT : UInt8 := (3 : UInt8) <<< 5

def GDT_NOT_TSS : UInt8 := (1 : UInt8) <<< 4

def GDT_EXECUTABLE : UInt8 := (1 : UInt8) <<< 3

def GDT_DATA_WRITABLE : UInt8 := (1 : UInt8) <<< 1

def GDT_CODE_READABLE : UInt8 := (1 : UInt8) <<< 1

def TSS_TYPE_AVAILABLE : UInt8 := 0x9

def GDT_PAGE_GRANULARITY : UInt8 := (1 : UInt8) <<< 3

def GDT_64_BIT : UInt8 := (1 : UInt8) <<< 1

/-- `gdt::Entry`; `limit_hi` and `flags` have 4 bits. -/
structure Entry where
  limitLo : UInt16
  baseLo : UInt16
  baseHiLo : UInt8
  access : UInt8
  limitHi : UInt8
  flags : UInt8
  baseHiHi : UInt8

/-- The 8 bytes of an entry. -/
def Entry.word (e : Entry) : UInt64 :=
  e.limitLo.toUInt64 ||| e.baseLo.toUInt64 <<< 16 ||| e.baseHiLo.toUInt64 <<< 32 |||
    e.access.toUInt64 <<< 40 ||| (e.limitHi &&& 0xF).toUInt64 <<< 48 |||
    (e.flags &&& 0xF).toUInt64 <<< 52 ||| e.baseHiHi.toUInt64 <<< 56

/-- An entry for code or data, with `access`. -/
def segment (access : UInt8) : Entry :=
  ⟨0xFFFF, 0, 0, access, 0xF, GDT_PAGE_GRANULARITY ||| GDT_64_BIT, 0⟩

def kernelCode : Entry :=
  segment (GDT_PRESENT ||| GDT_KERNEL_SEGMENT ||| GDT_NOT_TSS ||| GDT_EXECUTABLE |||
    GDT_CODE_READABLE)

def kernelData : Entry :=
  segment (GDT_PRESENT ||| GDT_KERNEL_SEGMENT ||| GDT_NOT_TSS ||| GDT_DATA_WRITABLE)

def userCode : Entry :=
  segment (GDT_PRESENT ||| GDT_USER_SEGMENT ||| GDT_NOT_TSS ||| GDT_EXECUTABLE |||
    GDT_CODE_READABLE)

def userData : Entry :=
  segment (GDT_PRESENT ||| GDT_USER_SEGMENT ||| GDT_NOT_TSS ||| GDT_DATA_WRITABLE)

/-- `sizeof(tss_entry)`. -/
def SIZE_OF_TSS : UInt64 := 104

/-- The first half of the descriptor of the task state segment, which is at `tss`. -/
def taskState (tss : UInt64) : Entry where
  limitLo := (SIZE_OF_TSS &&& 0xFFFF).toUInt16
  baseLo := (tss &&& 0xFFFF).toUInt16
  baseHiLo := ((tss >>> 16) &&& 0xFF).toUInt8
  access := GDT_PRESENT ||| TSS_TYPE_AVAILABLE
  limitHi := (SIZE_OF_TSS >>> 16).toUInt8
  flags := GDT_64_BIT
  baseHiHi := ((tss >>> 24) &&& 0xFF).toUInt8

/-- `gdt::gdt` after `init`, with `tss_entry` at `tss`. -/
def gdt (tss : UInt64) : List UInt64 :=
  [0, kernelCode.word, kernelData.word, userCode.word, userData.word, (taskState tss).word,
    tss >>> 32]

/-! ## The processor -/

namespace Descriptor

def type (w : UInt64) : UInt64 := (w >>> 40) &&& 0xF

def notSystem (w : UInt64) : Bool := (w >>> 44) &&& 1 == 1

def dpl (w : UInt64) : UInt64 := (w >>> 45) &&& 3

def present (w : UInt64) : Bool := (w >>> 47) &&& 1 == 1

def isCode (w : UInt64) : Bool := notSystem w && type w &&& 8 == 8

def conforming (w : UInt64) : Bool := type w &&& 4 == 4

def isWritable (w : UInt64) : Bool := notSystem w && type w &&& 0xA == 2

/-- Both the bit for 64 bits and the one for 32 bits. -/
def bothSizes (w : UInt64) : Bool := (w >>> 53) &&& 3 == 3

end Descriptor

inductive Exception where
  | generalProtection (errorCode : UInt64)
  | notPresent (errorCode : UInt64)
  | stackFault (errorCode : UInt64)
  deriving DecidableEq, Repr

def rpl (selector : UInt64) : UInt64 := selector &&& 3

def errorCode (selector : UInt64) : UInt64 := selector &&& 0xFFFC

/-- The descriptor that a selector is for, if it is in the table. -/
def lookup (table : List UInt64) (selector : UInt64) : Option UInt64 :=
  if selector &&& 4 = 0 then table[((selector &&& 0xFFFF) >>> 3).toNat]? else none

/-- The checks of the code segment, on level 0. -/
def checkCs (table : List UInt64) (cs : UInt64) : Except Exception Unit :=
  if errorCode cs = 0 then .error (.generalProtection 0)
  else match lookup table cs with
    | none => .error (.generalProtection (errorCode cs))
    | some w =>
      if !Descriptor.isCode w then .error (.generalProtection (errorCode cs))
      else if Descriptor.conforming w ∧ rpl cs < Descriptor.dpl w then
        .error (.generalProtection (errorCode cs))
      else if !Descriptor.conforming w ∧ Descriptor.dpl w ≠ rpl cs then
        .error (.generalProtection (errorCode cs))
      else if Descriptor.bothSizes w then .error (.generalProtection (errorCode cs))
      else if !Descriptor.present w then .error (.notPresent (errorCode cs))
      else .ok ()

/-- The checks of the stack segment, for a code segment that passed its own. -/
def checkSs (table : List UInt64) (cs ss : UInt64) : Except Exception Unit :=
  if errorCode ss = 0 then if rpl cs = 3 then .error (.generalProtection 0) else .ok ()
  else match lookup table ss with
    | none => .error (.generalProtection (errorCode ss))
    | some w =>
      if rpl ss ≠ rpl cs then .error (.generalProtection (errorCode ss))
      else if !Descriptor.isWritable w then .error (.generalProtection (errorCode ss))
      else if Descriptor.dpl w ≠ rpl cs then .error (.generalProtection (errorCode ss))
      else if !Descriptor.present w then .error (.stackFault (errorCode ss))
      else .ok ()

/-- `iretq` in the kernel, with this frame on the stack. -/
def iretq (table : List UInt64) (frame : TaskFrame) : Except Exception Unit := do
  checkCs table frame.cs
  checkSs table frame.cs frame.ss

/-! ## The two kinds of tasks -/

section Tasks

variable {frame : TaskFrame} (tss : UInt64)

theorem iretq_kernel (cs : frame.cs = KERNEL_CODE_SELECTOR) (ss : frame.ss = KERNEL_DATA_SELECTOR) :
    iretq (gdt tss) frame = .ok () := by
  have code : checkCs (gdt tss) KERNEL_CODE_SELECTOR = .ok () := by
    have found : lookup (gdt tss) KERNEL_CODE_SELECTOR = some kernelCode.word := rfl
    unfold checkCs
    rw [found, if_neg (by decide)]
    decide
  have data : checkSs (gdt tss) KERNEL_CODE_SELECTOR KERNEL_DATA_SELECTOR = .ok () := by
    have found : lookup (gdt tss) KERNEL_DATA_SELECTOR = some kernelData.word := rfl
    unfold checkSs
    rw [found, if_neg (by decide)]
    decide
  unfold iretq
  rw [cs, ss, code]
  exact data

/-- The selector and the descriptor are of different levels. -/
theorem iretq_user (cs : frame.cs = USER_CODE_SELECTOR) :
    iretq (gdt tss) frame = .error (.generalProtection USER_CODE_SELECTOR) := by
  have code : checkCs (gdt tss) USER_CODE_SELECTOR =
      .error (.generalProtection USER_CODE_SELECTOR) := by
    have found : lookup (gdt tss) USER_CODE_SELECTOR = some userCode.word := rfl
    unfold checkCs
    rw [found, if_neg (by decide)]
    decide
  unfold iretq
  rw [cs, code]
  rfl

end Tasks

end Tyleros.Gdt
