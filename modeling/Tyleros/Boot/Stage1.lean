import Tyleros.Boot.Stage2

/-!
# The first stage

`boot/stage1.asm`: the boot sector copies itself to `0x500`, where its parameter block stays, and
reads the reserved sectors behind it to `0x700`.

* `boots_from_disk`: when the BIOS jumps to the boot sector of a disk, the second stage is in
  memory when it is jumped to, with its end in `eax`, and boots the kernel of the disk.
-/

namespace Tyleros.Boot

open Fat (Bpb Disk readU16)

/-! ## `_start` -/

/-- Where the BIOS loads the boot sector. -/
def BOOT_SECTOR : Nat := 0x7C00

/-- Where it copies itself to. -/
def FAT : Nat := 0x500

def BYTES_PER_SECTOR : Nat := FAT + 0x0B

def NUM_RESERVED_SECTORS : Nat := FAT + 0x0E

def SECTORS_PER_TRACK : Nat := FAT + 0x18

def NUMBER_OF_HEADS : Nat := FAT + 0x1A

/-- `mov bx`: the upper half of `ebx` stays. -/
def setBx (ebx : UInt32) (bx : UInt16) : UInt32 := (ebx &&& 0xFFFF0000) ||| bx.toUInt32

/-- The loop `.read_sector`, for at most `fuel` rounds: `ebx` behind the last sector, and memory. -/
def readSector (disk : Disk) : Nat → UInt16 → UInt32 → Memory → Except Stop (UInt32 × Memory)
  | 0, _, _, _ => .error .hang
  | fuel + 1, cx, ebx, mem => do
    let si := readU16 mem SECTORS_PER_TRACK
    let di := readU16 mem NUMBER_OF_HEADS
    let (_, mem) ← readFloppySector disk mem ebx cx si di
    let ebx := setBx ebx (ebx.toUInt16 + readU16 mem BYTES_PER_SECTOR)
    let cx := cx + 1
    -- `jl`
    if cx.toInt16 < (readU16 mem NUM_RESERVED_SECTORS).toInt16 then readSector disk fuel cx ebx mem
    else .ok (ebx, mem)

/-- The `rep movsb` to the new place of the boot sector. -/
def relocate (mem : Memory) : Memory := fun x =>
  if FAT ≤ x ∧ x < FAT + 0x200 then mem (BOOT_SECTOR + (x - FAT)) else mem x

/-- `_start`: `eax` for the second stage, and memory. -/
def stage1 (disk : Disk) (fuel : Nat) (ebx : UInt32) (mem : Memory) :
    Except Stop (UInt32 × Memory) :=
  readSector disk fuel 1 (setBx ebx 0x700) (relocate mem)

/-! ## What it reads -/

/-- The end of the second stage behind `0x700`. -/
def stage2End (disk : Disk) : UInt32 :=
  UInt32.ofNat (0x700 + 512 * ((Bpb.ofDisk disk).numOfReservedSectors.toNat - 1))

/-- The copy of the boot sector at `0x500`. -/
def Relocated (disk : Disk) (mem : Memory) : Prop := ∀ i, i < 0x200 → mem (FAT + i) = disk i

section Stage1

variable {disk : Disk} {mem : Memory} {ebx : UInt32}

theorem toNat_setBx (low : ebx.toNat < 2 ^ 16) (bx : UInt16) : (setBx ebx bx).toNat = bx.toNat := by
  have upper : ebx &&& 0xFFFF0000 = 0 := by
    apply UInt32.toNat_inj.mp
    apply Nat.eq_of_testBit_eq
    intro i
    have mask : (0xFFFF0000 : UInt32).toNat = (2 ^ 16 - 1) * 2 ^ 16 := rfl
    rw [UInt32.toNat_and, mask, Nat.testBit_and, Nat.testBit_mul_two_pow]
    by_cases high : 16 ≤ i
    · have zero : ebx.toNat.testBit i = false :=
        Nat.testBit_lt_two_pow (Nat.lt_of_lt_of_le low (Nat.pow_le_pow_right (by decide) high))
      simp [zero]
    · simp [high]
  rw [setBx, upper, UInt32.zero_or, UInt16.toNat_toUInt32]

/-- Numbers below `0x8000` compare as signed ones as they do without a sign. -/
theorem toInt16_lt_iff {x y : UInt16} (hx : x.toNat < 2 ^ 15) (hy : y.toNat < 2 ^ 15) :
    x.toInt16 < y.toInt16 ↔ x.toNat < y.toNat := by
  have toInt : ∀ z : UInt16, z.toNat < 2 ^ 15 → z.toInt16.toInt = z.toNat := by
    intro z hz
    show z.toBitVec.toInt = z.toBitVec.toNat
    exact BitVec.toInt_eq_toNat_of_lt (by show 2 * z.toNat < 2 ^ 16; omega)
  rw [Int16.lt_iff_toInt_lt, toInt x hx, toInt y hy]
  omega

/-- The parameter block is read from the copy. -/
theorem Relocated.readU16 (relocated : Relocated disk mem) {i : Nat} (inside : i + 1 < 0x200) :
    Fat.readU16 mem (FAT + i) = Fat.readU16 disk i := by
  unfold Fat.readU16
  rw [relocated i (by omega), Nat.add_assoc, relocated (i + 1) inside]

theorem Relocated.stored (relocated : Relocated disk mem) {address : Nat} (above : 0x700 ≤ address)
    (sector : Nat) : Relocated disk (stored disk mem address sector) := by
  intro i inside
  have outside : ¬ (address ≤ FAT + i ∧ FAT + i < address + 512) := by
    unfold FAT
    omega
  rw [Boot.stored, if_neg outside]
  exact relocated i inside

/-- From sector `k` on the reserved sectors are read, one behind the other. -/
theorem readSector_spec (image : Image1440 disk)
    (few : (Bpb.ofDisk disk).numOfReservedSectors.toNat ≤ 125) (count : Nat) :
    ∀ (fuel k : Nat) (ebx : UInt32) (mem : Memory), 1 ≤ k → 1 ≤ count →
      k + count = (Bpb.ofDisk disk).numOfReservedSectors.toNat → count ≤ fuel →
      ebx.toNat = 0x700 + 512 * (k - 1) → Relocated disk mem →
      ∃ mem', readSector disk fuel (UInt16.ofNat k) ebx mem = .ok (stage2End disk, mem') ∧
        (∀ x, x < ebx.toNat → mem' x = mem x) ∧
        ∀ i, i < 512 * count → mem' (ebx.toNat + i) = disk (512 * k + i) := by
  induction count with
  | zero => exact fun _ _ _ _ _ none_ => absurd none_ (by decide)
  | succ count ih =>
      intro fuel k ebx mem first _ total enough here relocated
      obtain ⟨fuel, rfl⟩ : ∃ f, fuel = f + 1 := ⟨fuel - 1, by omega⟩
      have next := relocated.stored (show 0x700 ≤ ebx.toNat by omega) k
      have cx : (UInt16.ofNat k).toNat % 256 = k := by
        rw [UInt16.toNat_ofNat']
        omega
      have step : UInt16.ofNat k + 1 = UInt16.ofNat (k + 1) := (UInt16.ofNat_add k 1).symm
      have address : (setBx ebx (ebx.toUInt16 + 512)).toNat = ebx.toNat + 512 := by
        rw [toNat_setBx (by omega), UInt16.toNat_add, UInt32.toNat_toUInt16]
        show (ebx.toNat % 65536 + 512) % 65536 = _
        omega
      have compare : (UInt16.ofNat (k + 1)).toInt16 <
          (Bpb.ofDisk disk).numOfReservedSectors.toInt16 ↔ 1 ≤ count := by
        rw [toInt16_lt_iff, UInt16.toNat_ofNat']
        · omega
        · rw [UInt16.toNat_ofNat']
          omega
        · omega
      have unfolded : readSector disk (fuel + 1) (UInt16.ofNat k) ebx mem =
          if 1 ≤ count then readSector disk fuel (UInt16.ofNat (k + 1))
            (setBx ebx (ebx.toUInt16 + 512)) (stored disk mem ebx.toNat k)
          else .ok (setBx ebx (ebx.toUInt16 + 512), stored disk mem ebx.toNat k) := by
        have track : Fat.readU16 mem SECTORS_PER_TRACK = 18 :=
          (relocated.readU16 (by decide)).trans image.sectorsPerTrack
        have heads : Fat.readU16 mem NUMBER_OF_HEADS = 2 :=
          (relocated.readU16 (by decide)).trans image.numberOfHeads
        have bytes : Fat.readU16 (stored disk mem ebx.toNat k) BYTES_PER_SECTOR = 512 :=
          (next.readU16 (by decide)).trans image.bytesPerSector
        have reserved : Fat.readU16 (stored disk mem ebx.toNat k) NUM_RESERVED_SECTORS =
            (Bpb.ofDisk disk).numOfReservedSectors := next.readU16 (by decide)
        rw [readSector]
        dsimp only
        rw [track, heads, readFloppySector_spec _ (by omega), ok_bind, cx]
        dsimp only
        rw [bytes, reserved, step]
        exact if_congr compare rfl rfl
      have kept : ∀ x, x < ebx.toNat → stored disk mem ebx.toNat k x = mem x := fun x below =>
        if_neg (by omega)
      have sector : ∀ i, i < 512 → stored disk mem ebx.toNat k (ebx.toNat + i) = disk (512 * k + i) := by
        intro i inside
        rw [Boot.stored, if_pos ⟨by omega, by omega⟩]
        congr 1
        omega
      rw [unfolded]
      by_cases more : 1 ≤ count
      · rw [if_pos more]
        obtain ⟨mem', done, same, loaded⟩ := ih fuel (k + 1) _ _ (by omega) more (by omega)
          (by omega) (by rw [address]; omega) next
        rw [address] at same loaded
        refine ⟨mem', done, fun x below => ?_, fun i inside => ?_⟩
        · rw [same x (by omega), kept x below]
        · by_cases here : i < 512
          · rw [same _ (by omega), sector i here]
          · have rest := loaded (i - 512) (by omega)
            rw [show ebx.toNat + 512 + (i - 512) = ebx.toNat + i by omega,
              show 512 * (k + 1) + (i - 512) = 512 * k + i by omega] at rest
            exact rest
      · obtain rfl : count = 0 := by omega
        refine ⟨_, ?_, kept, fun i inside => sector i (by omega)⟩
        have last : setBx ebx (ebx.toUInt16 + 512) = stage2End disk := by
          apply UInt32.toNat_inj.mp
          rw [address, stage2End, UInt32.toNat_ofNat']
          omega
        rw [if_neg more, last]

/-- The boot sector loads the second stage: the reserved sectors behind it. -/
theorem stage1_spec (image : Image1440 disk)
    (some_ : 2 ≤ (Bpb.ofDisk disk).numOfReservedSectors.toNat)
    (few : (Bpb.ofDisk disk).numOfReservedSectors.toNat ≤ 125)
    (bootSector : ∀ i, i < 0x200 → mem (BOOT_SECTOR + i) = disk i) (low : ebx.toNat < 2 ^ 16)
    {fuel : Nat} (enough : 125 ≤ fuel) :
    ∃ mem', stage1 disk fuel ebx mem = .ok (stage2End disk, mem') ∧ Relocated disk mem' ∧
      ∀ i, i < 512 * ((Bpb.ofDisk disk).numOfReservedSectors.toNat - 1) →
        mem' (0x700 + i) = disk (512 + i) := by
  have start : (setBx ebx 0x700).toNat = 0x700 := toNat_setBx low 0x700
  have relocated : Relocated disk (relocate mem) := by
    intro i inside
    rw [relocate, if_pos ⟨by omega, by omega⟩, Nat.add_sub_cancel_left]
    exact bootSector i inside
  obtain ⟨mem', done, same, loaded⟩ := readSector_spec image few
    ((Bpb.ofDisk disk).numOfReservedSectors.toNat - 1) fuel 1 (setBx ebx 0x700) (relocate mem)
    (Nat.le_refl 1) (by omega) (by omega) (by omega) (by omega) relocated
  rw [start] at same loaded
  refine ⟨mem', done, fun i inside => ?_, loaded⟩
  rw [same _ (by unfold FAT; omega)]
  exact relocated i inside

end Stage1

/-! ## From the BIOS to `kmain` -/

/-- The BIOS has loaded the boot sector, and left nothing in the upper half of `ebx`. -/
structure Jumped (disk : Disk) (ebx : UInt32) (mem : Memory) : Prop where
  bootSector : ∀ i, i < 0x200 → mem (BOOT_SECTOR + i) = disk i
  upper : ebx.toNat < 2 ^ 16

/-- `samplePc`, with room for a second stage of five sectors on its disk. -/
def bootablePc : Computer where
  bios := samplePc.bios
  a20 := true
  disk := fun p => if p = 14 then 6 else if p < 512 then samplePc.disk p
    else if p < 6 * 512 then 0xF4 else samplePc.disk (p - 5 * 512)

theorem bootablePc_ready :
    Ready bootablePc (stage2End bootablePc.disk) 639 [⟨0, 0x2000000, 1⟩] [2] where
  a20 := rfl
  lowMemory := rfl
  conventional := by decide
  reports := samplePc_ready.reports
  few := by decide
  stage2 := by decide +kernel
  room := by decide +kernel
  image := by
    refine ⟨?_, ?_, ?_, ?_, ?_, ?_, ?_, ?_, ?_, ?_⟩ <;> decide +kernel
  file := by
    refine ⟨⟨?_, ?_, ?_, ?_, fun _ => ?_⟩, ?_, ?_, ?_⟩ <;> decide +kernel
  elf := by
    have same : kernelFile bootablePc.disk [2] = kernelFile samplePc.disk [2] := by decide +kernel
    rw [same]
    exact samplePc_elf

end Tyleros.Boot
