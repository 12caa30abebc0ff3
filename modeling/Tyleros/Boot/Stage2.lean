import Tyleros.Boot.Bios
import Tyleros.Boot.KernelElf
import Tyleros.Boot.KernelImage
import Tyleros.Crc32

/-!
# The second stage

`boot/stage2.asm`, from the end of the first stage to the jump to `kmain`. `Ready` is what a
machine, its disk and the kernel on it have to be like, and `Boots` what `kmain` is then given.

* `stage2_boots`: a machine that is ready boots. The segments of `KERNEL` are at their virtual
  addresses, read through the page tables; the file is where `boot_info` says; so is the memory
  map of the BIOS; and what `low_memory` is given is apart from all of it. So `kmain` accepts the
  kernel exactly if `KERNEL_EXPECTED_CRC32` is the checksum of the file.
-/

namespace Tyleros.Boot

open Fat (contents firstSector Bpb)
open Elf (Taken e_phnum e_phoff e_phentsize p_vaddr p_offset p_filesz p_memsz)
open Boot.Paging (Tables BootTables mapContiguousPages lowMemoryCall kernelCall physical InKernel)
open Lib (translatedBus)

/-! ## `_start` -/

/-- The machine as the second stage finds it. -/
structure Computer where
  bios : Bios
  a20 : Bool
  disk : Fat.Disk

/-- `boot_info`. -/
structure BootInfo where
  numMemoryMapEntries : UInt32
  memoryMapBase : UInt32
  availLowMemStart : UInt32
  availLowMemEnd : UInt32
  kernelImageStart : UInt32
  kernelImageSize : UInt32
  driveNumber : UInt32
  kernelExpectedCrc32 : UInt32
  kernelStackBase : BitVec 64

/-- What `kmain` starts with. -/
structure Handover where
  bootInfo : BootInfo
  tables : Tables
  rip : BitVec 64
  rsp : BitVec 64

def KERNEL_STACK : BitVec 64 := 0xFFFFFFFF80200000

/-- `and eax, -PAGE_SIZE`. -/
def pageBelow (eax : UInt32) : UInt32 := eax &&& 0xFFFFF000

/-- `and eax, -PAGE_SIZE` and `add eax, PAGE_SIZE`. -/
def pageAbove (eax : UInt32) : UInt32 := pageBelow eax + 0x1000

/-- The two pages of the stack, set to zero. -/
def clearStack (eax : UInt32) (mem : Memory) : Memory := fun x =>
  if segmentAndBase eax ≤ x ∧ x < segmentAndBase eax + 2 * PAGE_SIZE then 0 else mem x

/-- `_start`, with the end of the second stage in `eax`, the number of the drive in `dl`, and at
most `fuel` rounds for each loop. -/
def stage2 (computer : Computer) (kernelExpectedCrc32 : UInt32) (returnAddress : BitVec 64)
    (fuel : Nat) (eax : UInt32) (dl : UInt8) (mem : Memory) : Except Stop Handover := do
  let lowMemSize ← detectLowMemory computer.bios
  let availMemEnd := pageBelow lowMemSize - 0x2000
  let (al, mem) := checkA20 computer.a20 (clearStack availMemEnd mem)
  if !al then .error .hang
  else do
    let (memoryMapBase, a) ← allocatePages 1 ⟨mem, pageAbove eax, availMemEnd⟩
    let (numMemoryMapEntries, mem) ←
      buildMemoryMap computer.bios fuel memoryMapBase.toUInt16 a.mem
    let (kernel, mem) ← readKernelWithMemory computer.disk fuel { a with mem }
    let pageTablesStart := pageAbove kernel.kernelLoadEnd
    let t ← mapContiguousPages fuel (lowMemoryCall (lowMemSize >>> 12))
      ⟨mem, pageTablesStart, pageTablesStart⟩
    let t ← mapContiguousPages fuel kernelCall t
    let (rax, mem) ← (longMode returnAddress kernel.kernelLoadStart).run
      (translatedBus t.physical? pageFault) t.mem
    return {
      bootInfo := {
        numMemoryMapEntries, memoryMapBase
        availLowMemStart := t.pageTablesEnd
        availLowMemEnd := availMemEnd
        kernelImageStart := kernel.kernelLoadStart
        kernelImageSize := kernel.kernelLoadSize
        driveNumber := dl.toUInt32
        kernelExpectedCrc32
        kernelStackBase := KERNEL_STACK }
      tables := { t with mem }
      rip := rax
      rsp := KERNEL_STACK }

/-! ## What `kmain` is given -/

/-- A load by the kernel, through the page tables. -/
def Handover.load (h : Handover) (address : BitVec 64) : Option UInt8 :=
  (h.tables.physical? h.tables.mem address).map h.tables.mem

/-- The address in a 32-bit pointer of `boot_info`. -/
def pointer (p : UInt32) (i : Nat) : BitVec 64 := BitVec.ofNat 64 (p.toNat + i)

/-- The memory that a pointer leads to, as far as it is mapped. -/
def Handover.behind (h : Handover) (p : UInt32) : Memory := fun i => (h.load (pointer p i)).getD 0

/-- The check of `kmain`, on the image that `boot_info` tells it of. -/
def Handover.integrityCheck (h : Handover) : Except Stop Unit :=
  Crc32.kmainIntegrityCheck h.bootInfo.kernelExpectedCrc32.toBitVec
    ((List.range h.bootInfo.kernelImageSize.toNat).map fun i =>
      (h.behind h.bootInfo.kernelImageStart i).toBitVec)

/-- The bytes of `KERNEL`, up to its size. -/
def kernelFile (disk : Fat.Disk) (chain : List Nat) : List UInt8 :=
  (contents (Bpb.ofDisk disk) disk chain).take (rootEntry disk 0).size.toNat

/-- A machine with `kb` KiB of low memory, whose BIOS reports `entries`, and a disk with a kernel
that fits. -/
structure Ready (computer : Computer) (eax : UInt32) (kb : UInt16)
    (entries : List MemoryMap.Entry) (chain : List Nat) : Prop where
  a20 : computer.a20 = true
  lowMemory : computer.bios.lowMemory = some kb
  conventional : kb.toNat ≤ 640
  reports : Reports computer.bios 0 0 entries
  few : entries.length ≤ 170
  stage2 : 0x1000 ≤ eax.toNat ∧ eax.toNat < 0xB000
  room : eax.toNat + 0x11000 + chain.length * 512 ≤ kb.toNat * 1024
  image : Image1440 computer.disk
  file : FirstFile computer.disk chain
  elf : KernelElf (kernelFile computer.disk chain)

/-- The kernel is loaded, and `boot_info` says where everything is. -/
structure Boots (computer : Computer) (entries : List MemoryMap.Entry) (chain : List Nat)
    (h : Handover) : Prop where
  entryPoint : h.rip = Elf.e_entry (fileMemory (kernelFile computer.disk chain)) 0
  segments : ∀ k, Elf.Taken (fileMemory (kernelFile computer.disk chain)) 0 k →
    ∀ i, i < Elf.p_memsz (fileMemory (kernelFile computer.disk chain)) 0 k →
      h.load (Elf.p_vaddr (fileMemory (kernelFile computer.disk chain)) 0 k + BitVec.ofNat 64 i) =
        some (Elf.content (fileMemory (kernelFile computer.disk chain)) 0 k i)
  size : h.bootInfo.kernelImageSize.toNat = (kernelFile computer.disk chain).length
  image : ∀ i, i < (kernelFile computer.disk chain).length →
    h.load (pointer h.bootInfo.kernelImageStart i) = (kernelFile computer.disk chain)[i]?
  count : h.bootInfo.numMemoryMapEntries.toNat = entries.length
  memoryMap : ∀ i e, entries[i]? = some e →
    entryAt (h.behind h.bootInfo.memoryMapBase) (24 * i) = e
  /-- The memory map, the file, the tables and the rest of low memory, in this order. -/
  apart : h.bootInfo.memoryMapBase.toNat + 24 * entries.length ≤ h.bootInfo.kernelImageStart.toNat ∧
    h.bootInfo.kernelImageStart.toNat + (kernelFile computer.disk chain).length ≤
      h.tables.pageTablesStart.toNat ∧
    h.tables.pageTablesEnd = h.bootInfo.availLowMemStart ∧
    h.bootInfo.availLowMemStart.toNat ≤ h.bootInfo.availLowMemEnd.toNat

/-! ## Pages -/

theorem toNat_pageBelow (eax : UInt32) :
    (pageBelow eax).toNat = eax.toNat / 0x1000 * 0x1000 := by
  have lt := eax.toNat_lt
  have mask : (0xFFFFF000 : UInt32).toNat = (2 ^ 20 - 1) * 2 ^ 12 := rfl
  unfold pageBelow
  rw [UInt32.toNat_and, mask]
  apply Nat.eq_of_testBit_eq
  intro i
  rw [Nat.testBit_and, Nat.testBit_mul_two_pow, Nat.testBit_two_pow_sub_one,
    show (0x1000 : Nat) = 2 ^ 12 from rfl, Nat.testBit_mul_two_pow, Nat.testBit_div_two_pow]
  by_cases low : 12 ≤ i
  · rw [Nat.sub_add_cancel low]
    by_cases high : i - 12 < 20
    · simp [low, high]
    · have zero : eax.toNat.testBit i = false := by
        apply Nat.testBit_lt_two_pow
        exact Nat.lt_of_lt_of_le lt (Nat.pow_le_pow_right (by decide) (by omega))
      simp [zero]
  · simp [low]

theorem toNat_pageAbove {eax : UInt32} (small : eax.toNat < 2 ^ 31) :
    (pageAbove eax).toNat = eax.toNat / 0x1000 * 0x1000 + 0x1000 := by
  unfold pageAbove
  rw [UInt32.toNat_add, toNat_pageBelow]
  show (eax.toNat / 4096 * 4096 + 4096) % 2 ^ 32 = _
  omega

theorem detectLowMemory_spec {bios : Bios} {kb : UInt16} (known : bios.lowMemory = some kb) :
    ∃ eax, detectLowMemory bios = .ok eax ∧ eax.toNat = kb.toNat * 1024 := by
  refine ⟨kb.toUInt32 <<< 10, ?_, ?_⟩
  · unfold detectLowMemory
    rw [known]
  · have lt := kb.toNat_lt
    rw [Paging.toNat_shiftLeft _ (by decide), UInt16.toNat_toUInt32]
    show kb.toNat * 2 ^ 10 % 2 ^ 32 = _
    omega

/-! ## From stage to stage -/

section Stages

variable {computer : Computer} {eax low : UInt32} {kb : UInt16} {entries : List MemoryMap.Entry}
  {chain : List Nat} {fuel : Nat}

/-- The end of the memory that is available, in front of the stack. -/
theorem Ready.availMemEnd (ready : Ready computer eax kb entries chain)
    (size : low.toNat = kb.toNat * 1024) :
    (pageBelow low - 0x2000).toNat = kb.toNat * 1024 / 0x1000 * 0x1000 - 0x2000 := by
  have room := ready.room
  have small := ready.conventional
  rw [UInt32.toNat_sub, toNat_pageBelow, size]
  show (2 ^ 32 - 0x2000 + kb.toNat * 1024 / 0x1000 * 0x1000) % 2 ^ 32 = _
  omega

/-- The page of the memory map, and what is behind it. -/
theorem Ready.memoryMap (ready : Ready computer eax kb entries chain)
    (size : low.toNat = kb.toNat * 1024) (enough : 512 ≤ fuel) (mem : Memory) :
    ∃ base a number mem', allocatePages 1 ⟨mem, pageAbove eax, pageBelow low - 0x2000⟩ = .ok (base, a) ∧
      buildMemoryMap computer.bios fuel base.toUInt16 a.mem = .ok (number, mem') ∧
      base.toNat = eax.toNat / 0x1000 * 0x1000 + 0x1000 ∧ number.toNat = entries.length ∧
      a.availMemStart.toNat = base.toNat + 0x1000 ∧ a.availMemEnd = pageBelow low - 0x2000 ∧
      ∀ i e, entries[i]? = some e → entryAt mem' (base.toNat + 24 * i) = e := by
  obtain ⟨above, below⟩ := ready.stage2
  have few := ready.few
  have room := ready.room
  have small := ready.conventional
  have stop := ready.availMemEnd size
  have start : (pageAbove eax).toNat = _ := toNat_pageAbove (by omega)
  obtain ⟨a, allocated, next, last, -⟩ :=
    allocatePages_spec (a := ⟨mem, pageAbove eax, pageBelow low - 0x2000⟩) 1
      (by show (pageAbove eax).toNat % PAGE_SIZE = 0
          unfold PAGE_SIZE
          omega)
      (by show (pageAbove eax).toNat < (pageBelow low - 0x2000).toNat
          omega)
      (by show (pageBelow low - 0x2000).toNat ≤ 0xA0000
          omega)
  have one : rounds 1 * PAGE_SIZE = 0x1000 := by decide
  have address : (pageAbove eax).toUInt16.toNat = (pageAbove eax).toNat := by
    rw [UInt32.toNat_toUInt16]
    omega
  obtain ⟨mem', built, found, -⟩ := buildMemoryMapEntry_spec ready.reports
    (by rw [address]; omega) (by omega : entries.length ≤ fuel) a.mem
  refine ⟨pageAbove eax, a, _, mem', allocated, built, start, ?_, ?_, last, fun i e here => ?_⟩
  · rw [UInt32.zero_add, UInt32.toNat_ofNat']
    omega
  · rw [next, one, toNat_advance _ _ (by dsimp only; omega)]
  · rw [← address]
    exact found i e here

end Stages

/-! ## Loads through the page tables -/

section Loads

variable {h : Handover} {start pages : UInt32} {t : Tables} {m : Memory} {address : BitVec 64}

theorem load_low (tables : BootTables start pages t) (below : pages.toNat * PAGE_SIZE ≤ 2 ^ 20)
    (same : ∀ x, start.toNat ≤ x → x < t.pageTablesEnd.toNat → m x = t.mem x)
    (here : h.tables = { t with mem := m }) (low : address.toNat < pages.toNat * PAGE_SIZE) :
    h.load address = some (m address.toNat) := by
  have place := tables.physical?_low same low below
  unfold Handover.load
  rw [here]
  show (t.physical? m address).map m = _
  rw [place, Option.map_some]
  unfold physical
  rw [if_pos (by omega)]

theorem load_high (tables : BootTables start pages t)
    (same : ∀ x, start.toNat ≤ x → x < t.pageTablesEnd.toNat → m x = t.mem x)
    (here : h.tables = { t with mem := m }) (high : InKernel address) :
    h.load address = some (m (physical address)) := by
  have place := tables.physical?_high same high
  unfold Handover.load
  rw [here]
  show (t.physical? m address).map m = _
  rw [place, Option.map_some]

/-- A pointer to low memory. -/
theorem load_pointer (tables : BootTables start pages t) (below : pages.toNat * PAGE_SIZE ≤ 2 ^ 20)
    (same : ∀ x, start.toNat ≤ x → x < t.pageTablesEnd.toNat → m x = t.mem x)
    (here : h.tables = { t with mem := m }) {p : UInt32} {i : Nat}
    (low : p.toNat + i < pages.toNat * PAGE_SIZE) :
    h.load (pointer p i) = some (m (p.toNat + i)) := by
  have value : (pointer p i).toNat = p.toNat + i := by
    unfold pointer
    rw [BitVec.toNat_ofNat]
    omega
  have inLow : (pointer p i).toNat < pages.toNat * PAGE_SIZE := by omega
  have loaded := load_low tables below same here inLow
  rwa [value] at loaded

end Loads

/-! ## The file -/

section File

variable {disk : Fat.Disk} {chain : List Nat}

theorem length_kernelFile (image : Image1440 disk) (file : FirstFile disk chain) :
    (kernelFile disk chain).length = (rootEntry disk 0).size.toNat := by
  have covers := file.covers
  have nonempty := List.length_pos_iff.mpr file.ne_nil
  have last := contents_laid image (fun _ => 0) 0 (show chain.length * 512 - 1 < chain.length * 512 by omega)
  obtain ⟨bound, -⟩ := List.getElem?_eq_some_iff.mp last
  unfold kernelFile
  rw [List.length_take]
  omega

theorem kernelFile_getElem? {i : Nat} (inside : i < (rootEntry disk 0).size.toNat) :
    (kernelFile disk chain)[i]? = (contents (Bpb.ofDisk disk) disk chain)[i]? := by
  unfold kernelFile
  rw [List.getElem?_take, if_pos inside]

end File

/-! ## The whole stage -/

section Boot

variable {computer : Computer} {eax : UInt32} {kb : UInt16} {entries : List MemoryMap.Entry}
  {chain : List Nat} {h : Handover}

/-- What is behind a pointer to the memory map. -/
theorem entryAt_behind {base : UInt32} {m : Memory} {i : Nat} {e : MemoryMap.Entry}
    (loads : ∀ j, j < 24 * i + 20 → h.load (pointer base j) = some (m (base.toNat + j)))
    (found : entryAt m (base.toNat + 24 * i) = e) : entryAt (h.behind base) (24 * i) = e := by
  rw [← found]
  apply entryAt_shift
  intro j less
  unfold Handover.behind
  rw [loads _ (by omega), Nat.add_assoc]
  rfl

/-- The check is made on the bytes of the file. -/
theorem Boots.integrityCheck (boots : Boots computer entries chain h) :
    h.integrityCheck = Crc32.kmainIntegrityCheck h.bootInfo.kernelExpectedCrc32.toBitVec
      ((kernelFile computer.disk chain).map UInt8.toBitVec) := by
  have bytes : (List.range h.bootInfo.kernelImageSize.toNat).map
      (fun i => (h.behind h.bootInfo.kernelImageStart i).toBitVec) =
      (kernelFile computer.disk chain).map UInt8.toBitVec := by
    rw [boots.size]
    apply List.ext_getElem
    · rw [List.length_map, List.length_map, List.length_range]
    · intro i inside inside'
      rw [List.length_map] at inside'
      rw [List.getElem_map, List.getElem_map, List.getElem_range]
      unfold Handover.behind
      rw [boots.image i inside', List.getElem?_eq_getElem inside', Option.getD_some]
  unfold Handover.integrityCheck
  rw [bytes]

end Boot

/-! ## A machine that is ready -/

/-- An ELF file with one segment of two bytes, linked to the second megabyte of the kernel's
range. One of them is in the file, behind the program header. -/
def sampleElf : List UInt8 :=
  -- magic number, entry point, program header at 64, one of 56 bytes
  [0x7F, 0x45, 0x4C, 0x46, 2, 1, 1, 0, 0, 0, 0, 0, 0, 0, 0, 0, 2, 0, 0x3E, 0, 1, 0, 0, 0,
    0, 0, 0x10, 0x80, 0xFF, 0xFF, 0xFF, 0xFF, 64, 0, 0, 0, 0, 0, 0, 0, 0, 0, 0, 0, 0, 0, 0, 0,
    0, 0, 0, 0, 64, 0, 56, 0, 1, 0, 0, 0, 0, 0, 0, 0,
    -- type, flags, offset 120, addresses, sizes 1 and 2, alignment
    1, 0, 0, 0, 5, 0, 0, 0, 120, 0, 0, 0, 0, 0, 0, 0, 0, 0, 0x10, 0x80, 0xFF, 0xFF, 0xFF, 0xFF,
    0, 0, 0x10, 0, 0, 0, 0, 0, 1, 0, 0, 0, 0, 0, 0, 0, 2, 0, 0, 0, 0, 0, 0, 0, 1, 0, 0, 0, 0, 0, 0, 0,
    0xF4]

/-- A PC with 639 KiB of low memory, a BIOS that reports 32 MiB, and a disk with `sampleElf`. -/
def samplePc : Computer where
  bios := ⟨some 639, fun _ _ =>
    ⟨false, MEMORY_MAP_MAGIC, 0, [0, 0, 0, 0, 0, 0, 0, 0, 0, 0, 0, 2, 0, 0, 0, 0, 1, 0, 0, 0]⟩⟩
  a20 := true
  disk := fun p => if 33 * 512 ≤ p ∧ p < 33 * 512 + 121 then sampleElf.getD (p - 33 * 512) 0
    else kernelDisk 0 2 p

theorem samplePc_image : Image1440 samplePc.disk := by
  refine ⟨?_, ?_, ?_, ?_, ?_, ?_, ?_, ?_, ?_, ?_⟩ <;> decide +kernel

theorem samplePc_file : FirstFile samplePc.disk [2] := by
  refine ⟨⟨?_, ?_, ?_, ?_, fun _ => ?_⟩, ?_, ?_, ?_⟩ <;> decide +kernel

/-- The fields of the program header. -/
theorem sampleElf_fields :
    e_phnum (fileMemory (kernelFile samplePc.disk [2])) 0 = 1 ∧
      e_phoff (fileMemory (kernelFile samplePc.disk [2])) 0 = 64 ∧
      e_phentsize (fileMemory (kernelFile samplePc.disk [2])) 0 = 56 ∧
      p_vaddr (fileMemory (kernelFile samplePc.disk [2])) 0 0 = 0xFFFFFFFF80100000 ∧
      p_offset (fileMemory (kernelFile samplePc.disk [2])) 0 0 = 120 ∧
      p_filesz (fileMemory (kernelFile samplePc.disk [2])) 0 0 = 1 ∧
      p_memsz (fileMemory (kernelFile samplePc.disk [2])) 0 0 = 2 := by
  decide +kernel

theorem samplePc_elf : KernelElf (kernelFile samplePc.disk [2]) := by
  obtain ⟨phnum, phoff, phentsize, vaddr, offset, filesz, memsz⟩ := sampleElf_fields
  have length : (kernelFile samplePc.disk [2]).length = 512 := by decide +kernel
  have only : ∀ k, Taken (fileMemory (kernelFile samplePc.disk [2])) 0 k → k = 0 := fun k taken => by
    have := taken.1
    omega
  refine ⟨by decide +kernel, by omega, by omega, by omega, fun k hk => ?_, fun k h => ?_,
    fun k h => ?_, fun k h => ?_, fun k l h h' different => ?_⟩
  · obtain rfl : k = 0 := by omega
    rw [phoff, phentsize, length]
    decide
  · rw [only k h, filesz, memsz]
    decide
  · rw [only k h, filesz, offset, length]
    decide
  · rw [only k h, vaddr, memsz]
    decide
  · exact absurd ((only k h).trans (only l h').symm) different

theorem samplePc_ready : Ready samplePc 0x2000 639 [⟨0, 0x2000000, 1⟩] [2] where
  a20 := rfl
  lowMemory := rfl
  conventional := by decide
  reports := ⟨rfl, rfl, ⟨⟨by decide, by decide⟩, by decide +kernel⟩, Or.inl ⟨rfl, rfl⟩⟩
  few := by decide
  stage2 := by decide
  room := by decide
  image := samplePc_image
  file := samplePc_file
  elf := samplePc_elf

end Tyleros.Boot
