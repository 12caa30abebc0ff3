import Tyleros.Boot.LongMode

/-!
# The kernel's ELF file

`kernel.ld` links the kernel to the second megabyte of the range that `stage2.asm` maps to physical
address 0. `KernelElf` is what the boot loader relies on in such a file, as bytes alone;
`KernelElf.image` and `KernelElf.segments` say that it then is an image that `load_elf_binary` can
load, wherever in low memory it is. `longMode` is what the second stage does in long mode, and
`longMode_loads` what it leaves behind.
-/

namespace Tyleros.Boot

open Elf
open Boot.Paging (Tables BootTables physical InKernel)
open Lib (MemProgram flatBus translatedBus Placed)

/-! ## A file at an address -/

/-- The bytes of a file, from address 0 on. -/
def fileMemory (file : List UInt8) : Elf.Memory := fun x => file.getD x.toNat 0

/-- Memory holds the file from `base` on. -/
def HoldsFile (mem : Elf.Memory) (base : BitVec 64) (file : List UInt8) : Prop :=
  ∀ x : BitVec 64, x.toNat < file.length → mem (base + x) = fileMemory file x

section Shift

variable {mem : Elf.Memory} {base o : BitVec 64} {file : List UInt8} {k i : Nat}

theorem HoldsFile.readWord (holds : HoldsFile mem base file) (inside : o.toNat + 2 ≤ file.length)
    (small : file.length ≤ 2 ^ 32) :
    Elf.readWord mem (base + o) = Elf.readWord (fileMemory file) o := by
  have next : (o + 1).toNat = o.toNat + 1 := by bv_omega
  unfold Elf.readWord
  rw [BitVec.add_assoc, holds o (by omega), holds (o + 1) (by omega)]

theorem HoldsFile.readDword (holds : HoldsFile mem base file) (inside : o.toNat + 4 ≤ file.length)
    (small : file.length ≤ 2 ^ 32) :
    Elf.readDword mem (base + o) = Elf.readDword (fileMemory file) o := by
  have next : (o + 2).toNat = o.toNat + 2 := by bv_omega
  unfold Elf.readDword
  rw [BitVec.add_assoc, holds.readWord (by omega) small, holds.readWord (by omega) small]

theorem HoldsFile.readQword (holds : HoldsFile mem base file) (inside : o.toNat + 8 ≤ file.length)
    (small : file.length ≤ 2 ^ 32) :
    Elf.readQword mem (base + o) = Elf.readQword (fileMemory file) o := by
  have next : (o + 4).toNat = o.toNat + 4 := by bv_omega
  unfold Elf.readQword
  rw [BitVec.add_assoc, holds.readDword (by omega) small, holds.readDword (by omega) small]

end Shift

/-- An ELF file with one program header at least, whose segments are linked, apart from each
other, to the kernel's range above the first megabyte. -/
structure KernelElf (file : List UInt8) : Prop where
  magic : readDword (fileMemory file) 0 = ELF_MAGIC
  nonempty : 0 < e_phnum (fileMemory file) 0
  header : 64 ≤ file.length
  small : file.length ≤ 2 ^ 32
  table : ∀ k, k < e_phnum (fileMemory file) 0 →
    (e_phoff (fileMemory file) 0).toNat + k * e_phentsize (fileMemory file) 0 + 56 ≤ file.length
  sizes : ∀ k, Taken (fileMemory file) 0 k →
    p_filesz (fileMemory file) 0 k ≤ p_memsz (fileMemory file) 0 k
  source : ∀ k, Taken (fileMemory file) 0 k →
    (p_offset (fileMemory file) 0 k).toNat + p_filesz (fileMemory file) 0 k ≤ file.length
  linked : ∀ k, Taken (fileMemory file) 0 k →
    2 ^ 64 - 2 ^ 31 + 2 ^ 20 ≤ (p_vaddr (fileMemory file) 0 k).toNat ∧
      (p_vaddr (fileMemory file) 0 k).toNat + p_memsz (fileMemory file) 0 k ≤
        2 ^ 64 - 2 ^ 31 + 2 ^ 21
  disjoint : ∀ k l, Taken (fileMemory file) 0 k → Taken (fileMemory file) 0 l → k ≠ l →
    ∀ x, InRange x (p_vaddr (fileMemory file) 0 k) (p_memsz (fileMemory file) 0 k) →
      ¬ InRange x (p_vaddr (fileMemory file) 0 l) (p_memsz (fileMemory file) 0 l)

section Fields

/-- Addresses in the file itself. -/
theorem fromZero (o : BitVec 64) : 0 + o = o := BitVec.zero_add o

variable {mem : Elf.Memory} {base rsp : BitVec 64} {file : List UInt8} {k : Nat}

/-- The fields of the file's header. -/
theorem KernelElf.headerFields (elf : KernelElf file) (holds : HoldsFile mem base file) :
    readDword mem base = ELF_MAGIC ∧ e_entry mem base = e_entry (fileMemory file) 0 ∧
      e_phoff mem base = e_phoff (fileMemory file) 0 ∧
      e_phentsize mem base = e_phentsize (fileMemory file) 0 ∧
      e_phnum mem base = e_phnum (fileMemory file) 0 := by
  have header := elf.header
  refine ⟨?_, ?_, ?_, ?_, ?_⟩
  · rw [← elf.magic, ← BitVec.add_zero base]
    exact holds.readDword (by show 0 + 4 ≤ _; omega) elf.small
  · unfold e_entry
    rw [fromZero]
    exact holds.readQword (by show 24 + 8 ≤ _; omega) elf.small
  · unfold e_phoff
    rw [fromZero]
    exact holds.readQword (by show 32 + 8 ≤ _; omega) elf.small
  · unfold e_phentsize
    rw [fromZero]
    exact congrArg BitVec.toNat (holds.readWord (by show 54 + 2 ≤ _; omega) elf.small)
  · unfold e_phnum
    rw [fromZero]
    exact congrArg BitVec.toNat (holds.readWord (by show 56 + 2 ≤ _; omega) elf.small)

/-- A program header is where it is in the file. -/
theorem KernelElf.programHeader (elf : KernelElf file) (holds : HoldsFile mem base file) (k : Nat) :
    Elf.programHeader mem base k = base + Elf.programHeader (fileMemory file) 0 k := by
  obtain ⟨-, -, phoff, phentsize, -⟩ := elf.headerFields holds
  unfold Elf.programHeader
  rw [phoff, phentsize, fromZero, BitVec.add_assoc]

theorem KernelElf.inFile (elf : KernelElf file) (hk : k < e_phnum (fileMemory file) 0)
    {o : BitVec 64} {count : Nat} (small : o.toNat + count ≤ 56) :
    (Elf.programHeader (fileMemory file) 0 k + o).toNat + count ≤ file.length := by
  have table := elf.table k hk
  have bound := elf.small
  unfold Elf.programHeader
  rw [fromZero, BitVec.toNat_add, BitVec.toNat_add, BitVec.toNat_ofNat]
  omega

/-- The fields of a program header. -/
theorem KernelElf.fields (elf : KernelElf file) (holds : HoldsFile mem base file)
    (hk : k < e_phnum (fileMemory file) 0) :
    Elf.readWord mem (Elf.programHeader mem base k) =
        Elf.readWord (fileMemory file) (Elf.programHeader (fileMemory file) 0 k) ∧
      p_offset mem base k = p_offset (fileMemory file) 0 k ∧
      p_vaddr mem base k = p_vaddr (fileMemory file) 0 k ∧
      p_filesz mem base k = p_filesz (fileMemory file) 0 k ∧
      p_memsz mem base k = p_memsz (fileMemory file) 0 k := by
  have here := elf.programHeader holds k
  have field (o : BitVec 64) (small : o.toNat + 8 ≤ 56) :
      Elf.readQword mem (Elf.programHeader mem base k + o) =
        Elf.readQword (fileMemory file) (Elf.programHeader (fileMemory file) 0 k + o) := by
    rw [here, BitVec.add_assoc]
    exact holds.readQword (elf.inFile hk small) elf.small
  refine ⟨?_, field 8 (by decide), field 16 (by decide), congrArg BitVec.toNat (field 32 (by decide)),
    congrArg BitVec.toNat (field 40 (by decide))⟩
  rw [here]
  have inside : (Elf.programHeader (fileMemory file) 0 k).toNat + 2 ≤ file.length := by
    have first := elf.inFile hk (show (0 : BitVec 64).toNat + 2 ≤ 56 by decide)
    rwa [show Elf.programHeader (fileMemory file) 0 k + 0 = _ from BitVec.add_zero _] at first
  exact holds.readWord inside elf.small

theorem KernelElf.taken_iff (elf : KernelElf file) (holds : HoldsFile mem base file) :
    Taken mem base k ↔ Taken (fileMemory file) 0 k := by
  unfold Taken
  rw [(elf.headerFields holds).2.2.2.2]
  apply and_congr_right
  intro hk
  rw [(elf.fields holds hk).1]

/-- What is loaded is what the file says. -/
theorem KernelElf.content (elf : KernelElf file) (holds : HoldsFile mem base file)
    (taken : Taken (fileMemory file) 0 k) (i : Nat) :
    Elf.content mem base k i = Elf.content (fileMemory file) 0 k i := by
  obtain ⟨-, offset, -, filesz, -⟩ := elf.fields holds taken.1
  have source := elf.source k taken
  have small := elf.small
  unfold Elf.content
  rw [filesz, offset]
  split
  · next inside =>
      have here := holds (p_offset (fileMemory file) 0 k + BitVec.ofNat 64 i) (by bv_omega)
      rw [BitVec.add_assoc, here, fromZero]
  · rfl

/-- The file is an image that can be loaded. -/
theorem KernelElf.image (elf : KernelElf file) (holds : HoldsFile mem base file)
    (stack : ∀ x, InRange x (rsp - 8) 8 → ¬ InRange x base file.length) :
    Image mem base rsp file.length := by
  obtain ⟨magic, -, phoff, phentsize, phnum⟩ := elf.headerFields holds
  refine ⟨magic, ?_, elf.header, fun k hk => ?_, stack⟩
  · rw [phnum]
    exact elf.nonempty
  · rw [phoff, phentsize]
    rw [phnum] at hk
    exact elf.table k hk

/-- In low memory, its segments are apart from it and from the stack. -/
theorem KernelElf.segments (elf : KernelElf file) (holds : HoldsFile mem base file)
    (low : base.toNat + file.length ≤ 2 ^ 20) (lowStack : 8 ≤ rsp.toNat ∧ rsp.toNat ≤ 2 ^ 20) :
    Segments mem base rsp file.length (Taken mem base) := by
  have target (k : Nat) (taken : Taken mem base k) (x : BitVec 64)
      (inside : InRange x (p_vaddr mem base k) (p_memsz mem base k)) : 2 ^ 63 ≤ x.toNat := by
    have inFile := (elf.taken_iff holds).mp taken
    obtain ⟨-, -, vaddr, -, memsz⟩ := elf.fields holds inFile.1
    obtain ⟨above, below⟩ := elf.linked k inFile
    rw [vaddr, memsz] at inside
    unfold InRange at inside
    bv_omega
  refine ⟨fun k taken => ?_, fun k taken => ?_, fun k taken x inside here => ?_,
    fun k taken x inside here => ?_, fun k l taken taken' other x inside => ?_⟩
  · have inFile := (elf.taken_iff holds).mp taken
    obtain ⟨-, -, -, filesz, memsz⟩ := elf.fields holds inFile.1
    rw [filesz, memsz]
    exact elf.sizes k inFile
  · have inFile := (elf.taken_iff holds).mp taken
    obtain ⟨-, offset, -, filesz, -⟩ := elf.fields holds inFile.1
    rw [offset, filesz]
    exact elf.source k inFile
  · have high := target k taken x inside
    unfold InRange at here
    bv_omega
  · have high := target k taken x inside
    unfold InRange at here
    bv_omega
  · have inFile := (elf.taken_iff holds).mp taken
    have inFile' := (elf.taken_iff holds).mp taken'
    obtain ⟨-, -, vaddr, -, memsz⟩ := elf.fields holds inFile.1
    obtain ⟨-, -, vaddr', -, memsz'⟩ := elf.fields holds inFile'.1
    rw [vaddr, memsz] at inside
    rw [vaddr', memsz']
    exact elf.disjoint k l inFile inFile' other x inside

end Fields

/-! ## Long mode -/

/-- `rsp` behind the jump to long mode: `sp`, without the segment that it had. -/
def LONG_MODE_STACK : BitVec 64 := 0x2000

/-- `call load_elf_binary`, with the address it returns to on the stack. -/
def longMode (returnAddress : BitVec 64) (kernelImageStart : UInt32) : Code (BitVec 64) := do
  Code.writeBytes (LONG_MODE_STACK - 8) returnAddress 8
  Code.loadElfBinary (kernelImageStart.toBitVec.setWidth 64) (LONG_MODE_STACK - 8)

def pageFault (_ : BitVec 64) : Stop := .fault "page fault"

section LongMode

variable {start pages base : UInt32} {t : Tables} {file : List UInt8}

/-- The call pushes its return address below `0x2000`. -/
theorem push_returnAddress (tables : BootTables start pages t)
    (below : pages.toNat * PAGE_SIZE ≤ 2 ^ 20) (above : 0x2000 ≤ start.toNat)
    (inLow : start.toNat ≤ pages.toNat * PAGE_SIZE) (returnAddress : BitVec 64) :
    ∃ m, (Code.writeBytes (LONG_MODE_STACK - 8) returnAddress 8).run
        (translatedBus t.physical? pageFault) t.mem = .ok ((), m) ∧
      ∀ p, 0x2000 ≤ p → m p = t.mem p := by
  have low (a : BitVec 64) (inside : InRange a (LONG_MODE_STACK - 8) 8) : a.toNat < 0x2000 := by
    unfold InRange LONG_MODE_STACK at inside
    bv_omega
  have placed := Paging.boot_placed tables below
    (fun a (inside : InRange a (LONG_MODE_STACK - 8) 8) =>
      Or.inr ⟨by have := low a inside; omega, Or.inl (by have := low a inside; omega)⟩)
  obtain ⟨m, done, shows_⟩ := Lib.run_translated pageFault placed
    (within_writeBytes (Nat.le_refl 8) fun x inside => inside) (fun a _ => rfl)
    (run_writeQword (fun a => t.mem (physical a)) (LONG_MODE_STACK - 8) returnAddress)
  refine ⟨m, done, fun p high => shows_.frame p ?_⟩
  rintro a inside rfl
  have small := low a inside
  unfold physical at high
  rw [if_pos (by omega)] at high
  omega

/-- In long mode the segments of the kernel are loaded to their addresses, and low memory above
the stack is as it was. -/
theorem longMode_loads (tables : BootTables start pages t)
    (below : pages.toNat * PAGE_SIZE ≤ 2 ^ 20) (elf : KernelElf file)
    (stored : ∀ i, i < file.length → t.mem (base.toNat + i) = file.getD i 0)
    (above : 0x2000 ≤ base.toNat) (before : base.toNat + file.length ≤ start.toNat)
    (inLow : start.toNat ≤ pages.toNat * PAGE_SIZE) (returnAddress : BitVec 64) :
    ∃ m, (longMode returnAddress base).run (translatedBus t.physical? pageFault) t.mem =
        .ok (e_entry (fileMemory file) 0, m) ∧
      (∀ k, Taken (fileMemory file) 0 k → ∀ i, i < p_memsz (fileMemory file) 0 k →
        m (physical (p_vaddr (fileMemory file) 0 k + BitVec.ofNat 64 i)) =
          content (fileMemory file) 0 k i) ∧
      ∀ p, 0x2000 ≤ p → p < 2 ^ 20 → m p = t.mem p := by
  obtain ⟨m₁, pushed, kept⟩ :=
    push_returnAddress tables below (by omega) inLow returnAddress
  let address := base.toBitVec.setWidth 64
  have value : address.toNat = base.toNat := by
    have lt := base.toNat_lt
    show (base.toBitVec.setWidth 64).toNat = base.toBitVec.toNat
    rw [BitVec.toNat_setWidth]
    exact Nat.mod_eq_of_lt (Nat.lt_trans lt (by decide))
  have holds : HoldsFile (fun a => m₁ (physical a)) address file := by
    intro x inside
    have sum : (address + x).toNat = base.toNat + x.toNat := by
      rw [BitVec.toNat_add, value]
      omega
    show m₁ (physical (address + x)) = _
    unfold physical
    rw [sum, if_pos (by omega), kept _ (by omega)]
    exact stored _ inside
  have slot (x : BitVec 64) (inside : InRange x (LONG_MODE_STACK - 8 - 8) 8) :
      x.toNat < 0x2000 := by
    unfold InRange LONG_MODE_STACK at inside
    bv_omega
  have inFile (x : BitVec 64) (inside : InRange x address file.length) :
      base.toNat ≤ x.toNat ∧ x.toNat < base.toNat + file.length := by
    unfold InRange at inside
    bv_omega
  have image : Image (fun a => m₁ (physical a)) address (LONG_MODE_STACK - 8) file.length := by
    apply elf.image holds
    intro x inside here
    have := slot x inside
    have := inFile x here
    omega
  have lowStack : 8 ≤ (LONG_MODE_STACK - 8).toNat ∧ (LONG_MODE_STACK - 8).toNat ≤ 2 ^ 20 := by decide
  have segments := elf.segments holds (by omega) lowStack
  have target (k : Nat) (taken : Taken (fun a => m₁ (physical a)) address k) (x : BitVec 64)
      (inside : InRange x (p_vaddr (fun a => m₁ (physical a)) address k)
        (p_memsz (fun a => m₁ (physical a)) address k)) : InKernel x := by
    have here := (elf.taken_iff holds).mp taken
    obtain ⟨-, -, vaddr, -, memsz⟩ := elf.fields holds here.1
    obtain ⟨first, last⟩ := elf.linked k here
    rw [vaddr, memsz] at inside
    unfold InRange at inside
    unfold InKernel
    bv_omega
  have placed := (Paging.boot_placed tables below (D := Footprint (fun a => m₁ (physical a)) address
    (LONG_MODE_STACK - 8) file.length) (by
      rintro x (inside | inside | ⟨k, taken, inside⟩)
      · obtain ⟨first, last⟩ := inFile x inside
        exact Or.inr ⟨by omega, Or.inl (by omega)⟩
      · have small := slot x inside
        exact Or.inr ⟨by omega, Or.inl (by omega)⟩
      · exact Or.inl (target k taken x inside))).congr fun p keeps => kept p (by omega)
  obtain ⟨m, done, loaded, frame⟩ :=
    loadElfBinary_translated pageFault image segments placed fun _ _ => rfl
  refine ⟨m, ?_, fun k taken i hi => ?_, fun p high low => ?_⟩
  · unfold longMode
    rw [MemProgram.run_bind_of_ok _ pushed, ← (elf.headerFields holds).2.1]
    exact done
  · obtain ⟨-, -, vaddr, -, memsz⟩ := elf.fields holds taken.1
    have place := loaded k ((elf.taken_iff holds).mpr taken) i (by rwa [memsz])
    rwa [vaddr, elf.content holds taken] at place
  · rw [frame p, kept p high]
    · rintro k taken x inside rfl
      obtain ⟨first, last⟩ := target k taken x inside
      unfold physical at low
      rw [if_neg (by omega)] at low
      omega
    · rintro x inside rfl
      have small := slot x inside
      unfold physical at high
      rw [if_pos (by omega)] at high
      omega

end LongMode

end Tyleros.Boot
