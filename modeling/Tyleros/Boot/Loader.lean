import Tyleros.Fat.Model

/-!
# The boot loader's FAT12 reader

`boot/fat.asm`, `boot/read_floppy.asm` and `boot/allocator.asm`. Registers are words
of their width, and memory is indexed by the linear address: the data segment starts at
address 0, so that an operand such as `[bx]` reaches the first 64 KiB, and the address
line A20 is enabled.

The parameter block is the copy of the boot sector at `0x500`. The variables of the
loader, its code and its stack are apart from the memory that is modelled.
-/

namespace Tyleros.Boot

open Fat (Disk Bpb readU16 readU32)

abbrev Memory := Nat → UInt8

/-! ## `read_floppy_sector` -/

/-- The registers `ch`, `cl` and `dh` of `int 0x13`. -/
structure Chs where
  ch : UInt8
  cl : UInt8
  dh : UInt8
  deriving DecidableEq

/-- The sector of a 1.44M disk that `int 0x13` reads, if there is one: 80 cylinders
with 2 heads and 18 sectors, the number of the cylinder in `ch` and the top of `cl`. -/
def Chs.sector? (r : Chs) : Option Nat :=
  let cylinder := r.ch.toNat + r.cl.toNat / 64 * 256
  let sector := r.cl.toNat % 64
  if cylinder < 80 ∧ r.dh.toNat < 2 ∧ 1 ≤ sector ∧ sector ≤ 18 then
    some ((cylinder * 2 + r.dh.toNat) * 18 + (sector - 1))
  else none

/-- The translation to CHS, for the sector in `cx`. -/
def toChs (cx si di : UInt16) : Except Stop Chs :=
  -- `xor ch, ch`
  let ax := cx &&& 0xFF
  if si = 0 ∨ di = 0 then .error (.fault "divide error")
  else
    let sector := (ax % si + 1).toUInt8
    let track := ax / si
    let head := (track % di).toUInt8
    let cylinder := track / di
    .ok ⟨cylinder.toUInt8, ((cylinder >>> 2).toUInt8 &&& 0xC0) ||| sector, head⟩

/-- `set_segment_and_base`, as the linear address that segment and base stand for. -/
def segmentAndBase (address : UInt32) : Nat :=
  (address >>> 4).toUInt16.toNat * 16 + (address &&& 0xF).toNat

/-- Segment and base, in numbers. -/
theorem toNat_segment_base (address : UInt32) :
    (address >>> 4).toUInt16.toNat = address.toNat / 16 % 2 ^ 16 ∧
      (address &&& 0xF).toNat = address.toNat % 16 := by
  constructor
  · rw [UInt32.toNat_toUInt16, UInt32.toNat_shiftRight]
    exact congrArg (· % 65536) (Nat.shiftRight_eq_div_pow address.toNat 4)
  · rw [UInt32.toNat_and]
    exact Nat.and_two_pow_sub_one_eq_mod address.toNat 4

/-- Below 1 MiB segment and base stand for the address itself. -/
theorem segmentAndBase_eq {address : UInt32} (below : address.toNat < 2 ^ 20) :
    segmentAndBase address = address.toNat := by
  obtain ⟨segment, base⟩ := toNat_segment_base address
  rw [segmentAndBase, segment, base]
  omega

/-- Numbers below 2 GiB compare as signed ones as they do without a sign. -/
theorem toInt32_le_iff {x y : UInt32} (hx : x.toNat < 2 ^ 31) (hy : y.toNat < 2 ^ 31) :
    x.toInt32 ≤ y.toInt32 ↔ x.toNat ≤ y.toNat := by
  have toInt : ∀ z : UInt32, z.toNat < 2 ^ 31 → z.toInt32.toInt = z.toNat := by
    intro z hz
    show z.toBitVec.toInt = z.toBitVec.toNat
    exact BitVec.toInt_eq_toNat_of_lt (by show 2 * z.toNat < 2 ^ 32; omega)
  rw [Int32.le_iff_toInt_le, toInt x hx, toInt y hy]
  omega

/-- `read_floppy_sector`: the sector that was read, and memory with its bytes at `ebx`.
A read that fails is tried again without end. -/
def readFloppySector (disk : Disk) (mem : Memory) (ebx : UInt32) (cx si di : UInt16) :
    Except Stop (Nat × Memory) := do
  let registers ← toChs cx si di
  match registers.sector? with
  | none => .error .hang
  | some sector =>
    return (sector, fun x =>
      if segmentAndBase ebx ≤ x ∧ x < segmentAndBase ebx + 512 then
        disk (sector * 512 + (x - segmentAndBase ebx))
      else mem x)

/-! ## `allocate_pages` -/

/-- The variables of the allocator, and memory. -/
structure Arena where
  mem : Memory
  availMemStart : UInt32
  availMemEnd : UInt32

/-- `dec` and `jnz` at the end of a loop: the number of rounds for a count of 16 bits. -/
def rounds (count : UInt16) : Nat := if count = 0 then 2 ^ 16 else count.toNat

/-- `allocate_pages`. The pages are set to zero through `di`, which stays in the 64 KiB
of its segment. -/
def allocatePages (cx : UInt16) (a : Arena) : Except Stop (UInt32 × Arena) :=
  let ebx := a.availMemStart
  if a.availMemEnd.toInt32 ≤ ebx.toInt32 then .error (.fault "int 3")
  else
    let segment := segmentAndBase ebx - (ebx &&& 0xF).toNat
    let zeroed := fun x => segment ≤ x ∧ x < segment + 2 ^ 16 ∧
      (x - segment + 2 ^ 16 - (ebx &&& 0xF).toNat) % 2 ^ 16 < rounds cx * PAGE_SIZE
    .ok (ebx, { a with
      mem := fun x => if zeroed x then 0 else a.mem x
      availMemStart := ebx + UInt32.ofNat (rounds cx * PAGE_SIZE) })

/-! ## `read_kernel_from_filesystem` -/

/-- The parameter block as the loader reads it: the fields that the kernel reads too,
and the two that the translation to CHS needs. -/
structure BootSector where
  bpb : Bpb
  sectorsPerTrack : UInt16
  numberOfHeads : UInt16

def BootSector.ofDisk (disk : Disk) : BootSector where
  bpb := Bpb.ofDisk disk
  sectorsPerTrack := readU16 disk 24
  numberOfHeads := readU16 disk 26

def rootDirSectors (b : BootSector) : UInt16 :=
  (b.bpb.numOfDirectoryEntries <<< 5 + 0x1FF) >>> 9

def firstDataSector (b : BootSector) : UInt16 :=
  b.bpb.sectorsPerFat * b.bpb.numOfFats.toUInt16 + rootDirSectors b + b.bpb.numOfReservedSectors

def firstRootDirSector (b : BootSector) : UInt16 := firstDataSector b - rootDirSectors b

/-- The pages of a table of `sectors` sectors. -/
def tablePages (b : BootSector) (sectors : UInt16) : UInt16 :=
  (b.bpb.bytesPerSector * sectors) >>> 12 + 1

/-- The loops `.read_root_dir_sector` and `.read_fat_sector`. -/
def readTable (b : BootSector) (disk : Disk) : Nat → UInt32 → UInt16 → Memory → Except Stop Memory
  | 0, _, _, mem => .ok mem
  | count + 1, ebx, cx, mem => do
    let (_, mem) ← readFloppySector disk mem ebx cx b.sectorsPerTrack b.numberOfHeads
    readTable b disk count (ebx + b.bpb.bytesPerSector.toUInt32) (cx + 1) mem

/-- `kernel_name`. -/
def kernelName : List UInt8 := [0x4B, 0x45, 0x52, 0x4E, 0x45, 0x4C, 0x20, 0x20]

/-- `rep cmpsb` of the 8 bytes at `di` with `kernel_name`. -/
def nameMatches (mem : Memory) (di : UInt16) : Bool :=
  (List.range 8).all fun i => mem (di + UInt16.ofNat i).toNat == kernelName.getD i 0

/-- The loop `.check_entry_name`: the offset of the entry that was found. After 2048
entries `di` is back at the first one. -/
def checkEntryName (mem : Memory) (ebx : UInt32) : Nat → UInt32 → Except Stop UInt32
  | 0, _ => .error .hang
  | fuel + 1, eax =>
    if nameMatches mem (ebx + eax).toUInt16 then .ok eax
    else checkEntryName mem ebx fuel (eax + 0x20)

/-- What changes in the loop `.read_cluster`. -/
structure Loading where
  mem : Memory
  cx : UInt16
  kernelLoadEnd : UInt32

/-- The body of the loop `.read_cluster`, with the sector that was read. -/
def readCluster (b : BootSector) (disk : Disk) (fatTable : UInt32) (l : Loading) :
    Except Stop (Nat × Loading) := do
  let cx := b.bpb.sectorsPerCluster.toUInt16 * (l.cx - 2) + firstDataSector b
  let (sector, mem) ← readFloppySector disk l.mem l.kernelLoadEnd cx b.sectorsPerTrack
    b.numberOfHeads
  let bx := fatTable.toUInt16 + (l.cx + l.cx >>> 1)
  let value := readU16 mem bx.toNat
  return (sector,
    { mem
      cx := if l.cx &&& 1 = 1 then value >>> 4 else value &&& 0x0FFF
      kernelLoadEnd := l.kernelLoadEnd + 0x200 })

/-- The loop `.read_cluster`: the sectors in the order they were read. `jl` compares
numbers of 12 bits, where the sign does not matter. -/
def readClusters (b : BootSector) (disk : Disk) (fatTable : UInt32) :
    Nat → Loading → Except Stop (List Nat × Loading)
  | 0, _ => .error .hang
  | fuel + 1, l => do
    let (sector, l) ← readCluster b disk fatTable l
    if l.cx < 0xFF8 then do
      let (sectors, l) ← readClusters b disk fatTable fuel l
      return (sector :: sectors, l)
    else return ([sector], l)

/-- What `read_kernel_from_filesystem` returns, and the sectors it has loaded. -/
structure KernelImage where
  sectors : List Nat
  kernelLoadStart : UInt32
  kernelLoadEnd : UInt32
  kernelLoadSize : UInt32

/-- The part in front of `.check_entry_name`: both tables are allocated and read. -/
def readTables (b : BootSector) (disk : Disk) (a : Arena) :
    Except Stop (UInt32 × UInt32 × Arena) := do
  let (rootDirTable, a) ← allocatePages (tablePages b (rootDirSectors b)) a
  let (fatTable, a) ← allocatePages (tablePages b b.bpb.sectorsPerFat) a
  let mem ← readTable b disk (rounds (rootDirSectors b)) rootDirTable (firstRootDirSector b) a.mem
  let mem ← readTable b disk (rounds b.bpb.sectorsPerFat) fatTable b.bpb.numOfReservedSectors mem
  return (rootDirTable, fatTable, { a with mem })

/-- `read_kernel_from_filesystem`, for at most `fuel` clusters. The entry is read at
`bx`, which is where the table starts: the offset that was found is in `eax`, and is
overwritten. -/
def readKernelFromFilesystem (disk : Disk) (fuel : Nat) (a : Arena) :
    Except Stop KernelImage := do
  let b := BootSector.ofDisk disk
  let (rootDirTable, fatTable, a) ← readTables b disk a
  let _ ← checkEntryName a.mem rootDirTable 2048 0
  let bx := rootDirTable.toUInt16
  let kernelLoadSize := readU32 a.mem (bx + 0x1C).toNat
  let (kernelLoadStart, a) ← allocatePages ((kernelLoadSize >>> 12 + 1).toUInt16) a
  let (sectors, l) ← readClusters b disk fatTable fuel
    ⟨a.mem, readU16 a.mem (bx + 0x1A).toNat, kernelLoadStart⟩
  return ⟨sectors, kernelLoadStart, l.kernelLoadEnd, kernelLoadSize⟩

end Tyleros.Boot
