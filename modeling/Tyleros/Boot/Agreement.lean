import Tyleros.Boot.Loader
import Tyleros.Fat.ClusterLoop
import Tyleros.Fat.ShortNames

/-!
# The two FAT12 readers

The boot loader and `fs::read_file` both load the clusters of `KERNEL`, one sector for
each. `loadsSame_iff` compares the sectors they read on a 1.44M disk.

The loader looks for the name in the root directory, but then goes on with the first
entry of the table, and it passes sector numbers to `read_floppy_sector`, which clears
the upper half of them. So the sectors are the same only if the chain of the first
entry takes it, modulo 256, through the sectors of `KERNEL`.
-/

namespace Tyleros.Fat

/-! ## The sectors `read_file` reads -/

/-- The loop of `read_file` with the data sectors it reads. -/
def sectorsRead (bpb : Bpb) (disk : Disk) (size behind : Nat) :
    Nat → Reader → Except Stop (List Nat × Reader)
  | 0, r => if r.cluster < 0xFF8 then .error .hang else .ok ([], r)
  | fuel + 1, r =>
    if r.cluster < 0xFF8 then do
      copySector size behind r.offset
      let (sectors, r') ← sectorsRead bpb disk size behind fuel (r.step bpb disk)
      return (nextDataSector bpb r.cluster :: sectors, r')
    else .ok ([], r)

/-- The sectors `read_file(path)` reads, `none` if there is no such file. -/
def readFileSectors (fs : FileSystem) (disk : Disk) (fat memory : Nat → UInt8) (behind : Nat)
    (path : List UInt8) : Except Stop (Option (List Nat)) := do
  match ← resolvePath fs path with
  | none => return none
  | some fileEntry =>
    let size := fileEntry.size.toNat
    let (sectors, _) ← sectorsRead fs.bpb disk size behind (maxClusters size behind)
      (fileEntry.reader fat memory)
    return some sectors

section Sectors

variable {bpb : Bpb} {disk : Disk} {size behind : Nat}

/-- The loop is the one of `readClusters`. -/
theorem sectorsRead_snd (fuel : Nat) (r : Reader) :
    Prod.snd <$> sectorsRead bpb disk size behind fuel r =
      readClusters bpb disk size behind fuel r := by
  induction fuel generalizing r with
  | zero =>
      unfold sectorsRead readClusters
      split <;> rfl
  | succ fuel ih =>
      unfold sectorsRead readClusters
      split
      · rw [← ih]
        cases copySector size behind r.offset with
        | error e => rfl
        | ok copied => cases sectorsRead bpb disk size behind fuel (r.step bpb disk) <;> rfl
      · rfl

/-- The loop that completes has copied the sectors that `readClusters` copies. -/
theorem readClusters_of_sectorsRead {fuel : Nat} {r r' : Reader} {sectors : List Nat}
    (done : sectorsRead bpb disk size behind fuel r = .ok (sectors, r')) :
    readClusters bpb disk size behind fuel r = .ok r' := by
  rw [← sectorsRead_snd, done]
  rfl

theorem sectorsRead_chain (wf : WellFormed bpb) (nonempty : size ≠ 0) {r : Reader}
    {chain : List Nat} {fuel : Nat} (enough : chain.length ≤ fuel) (ok : r.WindowOk disk)
    (isChain : IsChain bpb disk r.cluster chain)
    (room : r.offset + chain.length * BYTES_PER_SECTOR ≤ bufferRoom size behind) :
    ∃ r', sectorsRead bpb disk size behind fuel r =
      .ok (chain.map (nextDataSector bpb), r') := by
  induction chain generalizing r fuel with
  | nil =>
      have atEnd : ¬ r.cluster < 0xFF8 := Nat.not_lt.mpr isChain
      refine ⟨r, ?_⟩
      cases fuel with
      | zero => rw [sectorsRead, if_neg atEnd, List.map_nil]
      | succ fuel => rw [sectorsRead, if_neg atEnd, List.map_nil]
  | cons c rest ih =>
      obtain ⟨rfl, inData, ok', next⟩ := Reader.step_chain wf ok isChain
      cases fuel with
      | zero => simp at enough
      | succ fuel =>
          have offset : (r.step bpb disk).offset = r.offset + BYTES_PER_SECTOR := rfl
          rw [List.length_cons, Nat.succ_mul] at room
          have copied : copySector size behind r.offset = .ok () :=
            copySector_eq_ok_iff.mpr ⟨nonempty, by omega⟩
          obtain ⟨r', result⟩ := ih (by simpa using enough) ok' next (by omega)
          refine ⟨r', ?_⟩
          rw [sectorsRead, if_pos inData, copied, ok_bind, result]
          rfl

/-- Nothing is read of an empty file. -/
theorem sectorsRead_empty {r r' : Reader} {fuel : Nat} {sectors : List Nat}
    (done : sectorsRead bpb disk 0 behind fuel r = .ok (sectors, r')) : sectors = [] := by
  cases fuel with
  | zero =>
      rw [sectorsRead] at done
      split at done
      · cases done
      · cases done
        rfl
  | succ fuel =>
      rw [sectorsRead] at done
      split at done
      · cases done
      · cases done
        rfl

end Sectors

end Tyleros.Fat

namespace Tyleros.Boot

open Fat

/-! ## The registers of `int 0x13` -/

theorem toChs_small : ∀ n : Fin 256, ∃ r, toChs (UInt16.ofNat n) 18 2 = .ok r ∧
    r.sector? = some n.val := by
  have evaluated : ∀ n : Fin 256, completesWith (toChs (UInt16.ofNat n) 18 2)
      (fun r => r.sector? == some n.val) = true := by decide +kernel
  intro n
  obtain ⟨r, done, same⟩ := exists_of_completesWith (evaluated n)
  exact ⟨r, done, beq_iff_eq.mp same⟩

/-- The registers address the sector modulo 256. -/
theorem toChs_spec (cx : UInt16) : ∃ r, toChs cx 18 2 = .ok r ∧
    r.sector? = some (cx.toNat % 256) := by
  have low : cx &&& 0xFF = UInt16.ofNat (cx.toNat % 256) := by
    apply UInt16.toNat_inj.mp
    rw [UInt16.toNat_and, UInt16.toNat_ofNat_of_lt' (by show _ < 65536; omega)]
    exact Nat.and_two_pow_sub_one_eq_mod cx.toNat 8
  have again : UInt16.ofNat (cx.toNat % 256) &&& 0xFF = UInt16.ofNat (cx.toNat % 256) := by
    rw [← low, UInt16.and_assoc]
    rfl
  obtain ⟨r, done, sector⟩ := toChs_small ⟨cx.toNat % 256, Nat.mod_lt _ (by decide)⟩
  refine ⟨r, ?_, sector⟩
  rw [← done]
  unfold toChs
  rw [low, again]

/-- A sector is put to the place it is read to. -/
def stored (disk : Disk) (mem : Memory) (address sector : Nat) : Memory := fun x =>
  if address ≤ x ∧ x < address + 512 then disk (sector * 512 + (x - address)) else mem x

theorem readFloppySector_spec {disk : Disk} {mem : Memory} {ebx : UInt32} (cx : UInt16)
    (below : ebx.toNat < 2 ^ 20) :
    readFloppySector disk mem ebx cx 18 2 =
      .ok (cx.toNat % 256, stored disk mem ebx.toNat (cx.toNat % 256)) := by
  obtain ⟨r, done, sector⟩ := toChs_spec cx
  rw [readFloppySector, done, ok_bind, sector, segmentAndBase_eq below]
  rfl

/-- Whatever is asked for, one of the first 256 sectors is read. -/
theorem readFloppySector_lt {disk : Disk} {mem mem' : Memory} {ebx : UInt32} {cx : UInt16}
    {sector : Nat} (done : readFloppySector disk mem ebx cx 18 2 = .ok (sector, mem')) :
    sector < 256 := by
  obtain ⟨r, registers, addressed⟩ := toChs_spec cx
  rw [readFloppySector, registers, ok_bind, addressed] at done
  cases done
  exact Nat.mod_lt _ (by decide)

/-! ## 1.44M disks -/

/-- Entry `i` of the root directory. -/
def rootEntry (disk : Disk) (i : Nat) : DirectoryEntry :=
  DirectoryEntry.ofBytes disk
    (((Bpb.ofDisk disk).numOfReservedSectors.toNat + 18) * 512 + DIRECTORY_ENTRY_SIZE * i)

/-- A FAT12 disk of 1.44M: the parameters of the format, with any number of reserved
sectors, and numbers of clusters that have 12 bits. -/
structure Image1440 (disk : Disk) : Prop where
  bytesPerSector : (Bpb.ofDisk disk).bytesPerSector = 512
  sectorsPerCluster : (Bpb.ofDisk disk).sectorsPerCluster = 1
  numOfFats : (Bpb.ofDisk disk).numOfFats = 2
  numOfDirectoryEntries : (Bpb.ofDisk disk).numOfDirectoryEntries = 224
  sectorsPerFat : (Bpb.ofDisk disk).sectorsPerFat = 9
  sectorsPerTrack : readU16 disk 24 = 18
  numberOfHeads : readU16 disk 26 = 2
  reserved : 1 ≤ (Bpb.ofDisk disk).numOfReservedSectors.toNat
  onDisk : (Bpb.ofDisk disk).numOfReservedSectors.toNat + 32 ≤ 2880
  clusters : ∀ i, i < 224 → (rootEntry disk i).clusterNumLo.toNat < 0x1000

section Image

variable {disk : Disk}

theorem Image1440.wellFormed (image : Image1440 disk) : WellFormed (Bpb.ofDisk disk) := by
  refine ⟨?_, image.reserved, ?_, ?_⟩
  · rw [image.bytesPerSector]
    rfl
  · rw [image.sectorsPerCluster]
    decide
  · rw [image.numOfFats]
    decide

theorem Image1440.rootDirSectors (image : Image1440 disk) :
    rootDirSectors (BootSector.ofDisk disk) = 14 := by
  have entries : (BootSector.ofDisk disk).bpb.numOfDirectoryEntries = 224 :=
    image.numOfDirectoryEntries
  rw [Boot.rootDirSectors, entries]
  rfl

theorem Image1440.firstDataSector (image : Image1440 disk) :
    (firstDataSector (BootSector.ofDisk disk)).toNat =
      (Bpb.ofDisk disk).numOfReservedSectors.toNat + 32 := by
  have fats : (BootSector.ofDisk disk).bpb.numOfFats = 2 := image.numOfFats
  have sectors : (BootSector.ofDisk disk).bpb.sectorsPerFat = 9 := image.sectorsPerFat
  have onDisk := image.onDisk
  rw [Boot.firstDataSector, image.rootDirSectors, fats, sectors, UInt16.toNat_add]
  show (32 + (Bpb.ofDisk disk).numOfReservedSectors.toNat) % 65536 = _
  omega

theorem Image1440.nextDataSector (image : Image1440 disk) (cluster : Nat) :
    nextDataSector (Bpb.ofDisk disk) cluster =
      (((cluster : Int) + ((Bpb.ofDisk disk).numOfReservedSectors.toNat + 30 : Nat)) %
        2 ^ 16).toNat := by
  have first : Fat.firstDataSector (Bpb.ofDisk disk) =
      (Bpb.ofDisk disk).numOfReservedSectors.toNat + 32 := by
    rw [Fat.firstDataSector, image.sectorsPerFat, image.numOfFats, image.numOfDirectoryEntries]
    rfl
  have one : (Bpb.ofDisk disk).sectorsPerCluster.toNat = 1 := by
    rw [image.sectorsPerCluster]
    rfl
  rw [Fat.nextDataSector, first, one]
  omega

/-- The sector of a cluster of the file system, which both readers compute in 16 bits. -/
theorem Image1440.loaderSector (image : Image1440 disk) (cx : UInt16) :
    ((BootSector.ofDisk disk).bpb.sectorsPerCluster.toUInt16 * (cx - 2) +
      Boot.firstDataSector (BootSector.ofDisk disk)).toNat =
      Fat.nextDataSector (Bpb.ofDisk disk) cx.toNat := by
  have one : (BootSector.ofDisk disk).bpb.sectorsPerCluster = 1 := image.sectorsPerCluster
  have onDisk := image.onDisk
  have lt := cx.toNat_lt
  have sub : (cx - 2).toNat = (2 ^ 16 - 2 + cx.toNat) % 2 ^ 16 := UInt16.toNat_sub cx 2
  rw [image.nextDataSector, UInt16.toNat_add, UInt16.toNat_mul, sub, image.firstDataSector, one]
  show (1 * _ % 2 ^ 16 + _) % 2 ^ 16 = _
  omega

end Image

/-! ## The tables in memory -/

/-- Memory as `_start` hands it over: the page behind the memory map is the first one
available, below `0xC000`, and the stack is in the last pages of conventional memory. -/
structure Layout (a : Arena) : Prop where
  aligned : a.availMemStart.toNat % PAGE_SIZE = 0
  low : a.availMemStart.toNat ≤ 0xC000
  room : a.availMemStart.toNat + 0x4000 < a.availMemEnd.toNat
  conventional : a.availMemEnd.toNat ≤ 0xA0000

/-- The FAT as it is in memory: the sectors of the first FAT, and zeros up to the end of
the second page. -/
def bootFat (disk : Disk) : Nat → UInt8 := fun o =>
  if o < 9 * 512 then disk ((Bpb.ofDisk disk).numOfReservedSectors.toNat * 512 + o) else 0

section Tables

variable {disk : Disk} {a : Arena}

theorem toNat_advance (start : UInt32) (n : Nat) (h : start.toNat + n < 2 ^ 32) :
    (start + UInt32.ofNat n).toNat = start.toNat + n := by
  rw [UInt32.toNat_add, UInt32.toNat_ofNat']
  omega

/-- The pages start where memory was available; below them nothing changes, and the
pages themselves are zero as far as the segment goes. -/
theorem allocatePages_spec (cx : UInt16) (aligned : a.availMemStart.toNat % PAGE_SIZE = 0)
    (room : a.availMemStart.toNat < a.availMemEnd.toNat)
    (conventional : a.availMemEnd.toNat ≤ 0xA0000) :
    ∃ a', allocatePages cx a = .ok (a.availMemStart, a') ∧
      a'.availMemStart = a.availMemStart + UInt32.ofNat (rounds cx * PAGE_SIZE) ∧
      a'.availMemEnd = a.availMemEnd ∧
      ∀ x, a'.mem x = if a.availMemStart.toNat ≤ x ∧ x < a.availMemStart.toNat + 2 ^ 16 ∧
        x < a.availMemStart.toNat + rounds cx * PAGE_SIZE then 0 else a.mem x := by
  have base : (a.availMemStart &&& 0xF).toNat = 0 := by
    rw [(toNat_segment_base a.availMemStart).2]
    unfold PAGE_SIZE at aligned
    omega
  refine ⟨_, if_neg (mt (toInt32_le_iff (by omega) (by omega)).mp (by omega)), rfl, rfl, fun x => ?_⟩
  dsimp only
  rw [segmentAndBase_eq (by omega), base]
  refine if_congr ?_ rfl rfl
  unfold PAGE_SIZE
  generalize rounds cx = n
  omega

/-- The loops that read a table copy its sectors, while these are among the first 256. -/
theorem readTable_spec (image : Image1440 disk) (count : Nat) (ebx : UInt32) (cx : UInt16)
    (mem : Memory) (below : ebx.toNat + count * 512 ≤ 2 ^ 20) (sectors : cx.toNat + count ≤ 256) :
    ∃ mem', readTable (BootSector.ofDisk disk) disk count ebx cx mem = .ok mem' ∧
      ∀ x, mem' x = if ebx.toNat ≤ x ∧ x < ebx.toNat + count * 512 then
        disk (cx.toNat * 512 + (x - ebx.toNat)) else mem x := by
  induction count generalizing ebx cx mem with
  | zero => exact ⟨mem, rfl, fun x => (if_neg (by omega)).symm⟩
  | succ count ih =>
      have track : (BootSector.ofDisk disk).sectorsPerTrack = 18 := image.sectorsPerTrack
      have heads : (BootSector.ofDisk disk).numberOfHeads = 2 := image.numberOfHeads
      have bytes : (BootSector.ofDisk disk).bpb.bytesPerSector = 512 := image.bytesPerSector
      have next : (ebx + (512 : UInt16).toUInt32).toNat = ebx.toNat + 512 := by
        rw [UInt32.toNat_add]
        show (ebx.toNat + 512) % 2 ^ 32 = _
        omega
      have sector : (cx + 1).toNat = cx.toNat + 1 := by
        rw [UInt16.toNat_add]
        show (cx.toNat + 1) % 2 ^ 16 = _
        omega
      obtain ⟨mem', done, bytes'⟩ := ih (ebx + (512 : UInt16).toUInt32) (cx + 1)
        (stored disk mem ebx.toNat (cx.toNat % 256)) (by omega) (by omega)
      refine ⟨mem', ?_, fun x => ?_⟩
      · rw [readTable, track, heads, bytes, readFloppySector_spec cx (by omega), ok_bind]
        exact done
      · rw [bytes' x, next, sector, stored, Nat.mod_eq_of_lt (by omega)]
        by_cases here : ebx.toNat ≤ x ∧ x < ebx.toNat + 512
        · rw [if_neg (by omega), if_pos here, if_pos (by omega)]
        · rw [if_neg here]
          by_cases later : ebx.toNat + 512 ≤ x ∧ x < ebx.toNat + 512 + count * 512
          · rw [if_pos later, if_pos (by omega)]
            exact congrArg disk (by omega)
          · rw [if_neg later, if_neg (by omega)]

/-- Both tables are read to the first available pages. -/
theorem readTables_spec (image : Image1440 disk) (layout : Layout a)
    (sectors : (Bpb.ofDisk disk).numOfReservedSectors.toNat + 32 ≤ 256) :
    ∃ fatTable a', readTables (BootSector.ofDisk disk) disk a =
        .ok (a.availMemStart, fatTable, a') ∧
      fatTable.toNat = a.availMemStart.toNat + 0x2000 ∧
      a'.availMemStart.toNat = a.availMemStart.toNat + 0x4000 ∧
      a'.availMemEnd = a.availMemEnd ∧
      (∀ o, o < 14 * 512 → a'.mem (a.availMemStart.toNat + o) =
        disk (((Bpb.ofDisk disk).numOfReservedSectors.toNat + 18) * 512 + o)) ∧
      ∀ o, o < 0x2000 → a'.mem (fatTable.toNat + o) = bootFat disk o := by
  obtain ⟨aligned, low, room, conventional⟩ := layout
  have bytes : (BootSector.ofDisk disk).bpb.bytesPerSector = 512 := image.bytesPerSector
  have perFat : (BootSector.ofDisk disk).bpb.sectorsPerFat = 9 := image.sectorsPerFat
  have reserved : (BootSector.ofDisk disk).bpb.numOfReservedSectors =
      (Bpb.ofDisk disk).numOfReservedSectors := rfl
  have rootPages : tablePages (BootSector.ofDisk disk) 14 = 2 := by
    rw [tablePages, bytes]
    rfl
  have fatPages : tablePages (BootSector.ofDisk disk) 9 = 2 := by
    rw [tablePages, bytes]
    rfl
  have rootSector : (firstRootDirSector (BootSector.ofDisk disk)).toNat =
      (Bpb.ofDisk disk).numOfReservedSectors.toNat + 18 := by
    rw [firstRootDirSector, image.rootDirSectors, UInt16.toNat_sub, image.firstDataSector]
    have fourteen : (14 : UInt16).toNat = 14 := rfl
    omega
  have two : rounds 2 * PAGE_SIZE = 0x2000 := by decide
  have nine : rounds 9 = 9 := by decide
  have fourteen : rounds 14 = 14 := by decide
  obtain ⟨a₁, first, start₁, end₁, mem₁⟩ := allocatePages_spec (a := a) 2 aligned (by omega)
    conventional
  rw [two] at start₁ mem₁
  have start₁ : a₁.availMemStart.toNat = a.availMemStart.toNat + 0x2000 := by
    rw [start₁, toNat_advance _ _ (by omega)]
  have aligned₁ : a₁.availMemStart.toNat % PAGE_SIZE = 0 := by
    rw [start₁]
    unfold PAGE_SIZE at *
    omega
  obtain ⟨a₂, second, start₂, end₂, mem₂⟩ := allocatePages_spec (a := a₁) 2 aligned₁
    (by rw [end₁]; omega) (by rw [end₁]; exact conventional)
  rw [two] at start₂ mem₂
  have start₂ : a₂.availMemStart.toNat = a.availMemStart.toNat + 0x4000 := by
    have advanced := toNat_advance a₁.availMemStart 0x2000 (by omega)
    rw [start₂]
    omega
  obtain ⟨mem₃, third, bytes₃⟩ := readTable_spec image 14 a.availMemStart
    (firstRootDirSector (BootSector.ofDisk disk)) a₂.mem (by omega) (by omega)
  obtain ⟨mem₄, fourth, bytes₄⟩ := readTable_spec image 9 a₁.availMemStart
    (Bpb.ofDisk disk).numOfReservedSectors mem₃ (by omega) (by omega)
  refine ⟨a₁.availMemStart, { a₂ with mem := mem₄ }, ?_, start₁, start₂, end₂.trans end₁, ?_, ?_⟩
  · rw [readTables, image.rootDirSectors, rootPages, first, ok_bind, perFat, fatPages]
    dsimp only
    rw [second, ok_bind]
    dsimp only
    rw [fourteen, third, ok_bind, nine, reserved, fourth, ok_bind]
    rfl
  · intro o ho
    dsimp only
    rw [bytes₄, if_neg (by omega), bytes₃, if_pos (by omega), rootSector]
    exact congrArg disk (by omega)
  · intro o ho
    dsimp only
    rw [bytes₄, bootFat]
    by_cases inside : o < 9 * 512
    · rw [if_pos (by omega), if_pos inside]
      exact congrArg disk (by omega)
    · rw [if_neg (by omega), if_neg inside, bytes₃, if_neg (by omega), mem₂, if_pos (by omega)]

/-! ## The search for the name -/

theorem checkEntryName_found {mem : Memory} {ebx eax : UInt32} {index fuel : Nat}
    (enough : index < fuel)
    (found : nameMatches mem (ebx + (eax + UInt32.ofNat (0x20 * index))).toUInt16 = true) :
    ∃ offset, checkEntryName mem ebx fuel eax = .ok offset := by
  induction fuel generalizing eax index with
  | zero => omega
  | succ fuel ih =>
      rw [checkEntryName]
      split
      · exact ⟨eax, rfl⟩
      · next other =>
          cases index with
          | zero =>
              rw [Nat.mul_zero, show UInt32.ofNat 0 = 0 from rfl, UInt32.add_zero] at found
              exact absurd found other
          | succ index =>
              refine ih (Nat.lt_of_succ_lt_succ enough) ?_
              rwa [Nat.mul_succ, UInt32.ofNat_add, UInt32.add_comm (UInt32.ofNat (0x20 * index)),
                ← UInt32.add_assoc eax] at found

end Tables

/-! ## The clusters the loader follows -/

/-- The clusters from `first` on, up to an entry of the table that marks the end. The
first one is taken as it is. -/
def BootChain (fat : Nat → UInt8) : Nat → List Nat → Prop
  | _, [] => False
  | first, c :: rest => first = c ∧
      (rest = [] ∧ 0xFF8 ≤ tableEntry fat c ∨
        tableEntry fat c < 0xFF8 ∧ BootChain fat (tableEntry fat c) rest)

section Clusters

variable {disk : Disk} {fat : Nat → UInt8} {fatTable : UInt32} {l : Loading}

/-- The table is in memory, and the image is loaded behind it. -/
structure Loading.Sees (fat : Nat → UInt8) (fatTable : UInt32) (l : Loading) : Prop where
  table : ∀ o, o < 0x2000 → l.mem (fatTable.toNat + o) = fat o
  addressed : fatTable.toNat + 0x2000 ≤ 2 ^ 16
  behind : fatTable.toNat + 0x2000 ≤ l.kernelLoadEnd.toNat
  cluster : l.cx.toNat < 0x1000

theorem tableEntry_lt (cluster : Nat) : tableEntry fat cluster < 0x1000 := by
  have := (readU16 fat (cluster + cluster / 2)).toNat_lt
  unfold tableEntry
  dsimp only
  split
  · omega
  · exact Nat.mod_lt _ (by decide)

/-- The next cluster, from the word at the 16-bit address. -/
theorem tableEntry_eq (cx value : UInt16) (read : value.toNat =
    (readU16 fat (cx.toNat + cx.toNat / 2)).toNat) :
    (if cx &&& 1 = 1 then value >>> 4 else value &&& 0x0FFF).toNat = tableEntry fat cx.toNat := by
  have one : (cx &&& 1).toNat = cx.toNat % 2 := by
    rw [UInt16.toNat_and]
    exact Nat.and_two_pow_sub_one_eq_mod cx.toNat 1
  have odd : cx &&& 1 = 1 ↔ cx.toNat % 2 = 1 := by
    rw [← one, ← UInt16.toNat_inj]
    rfl
  rw [tableEntry, ← read]
  by_cases h : cx.toNat % 2 = 1
  · rw [if_pos (odd.mpr h), if_pos h, UInt16.toNat_shiftRight]
    show value.toNat >>> 4 = _
    rw [Nat.shiftRight_eq_div_pow]
  · rw [if_neg (mt odd.mp h), if_neg h, UInt16.toNat_and]
    exact Nat.and_two_pow_sub_one_eq_mod value.toNat 12

/-- One round reads the sector of the cluster, modulo 256, and goes to the next one. -/
theorem readCluster_spec (image : Image1440 disk) (sees : l.Sees fat fatTable)
    (room : l.kernelLoadEnd.toNat + 512 ≤ 2 ^ 20) :
    ∃ l', readCluster (BootSector.ofDisk disk) disk fatTable l =
        .ok (Fat.nextDataSector (Bpb.ofDisk disk) l.cx.toNat % 256, l') ∧
      l'.cx.toNat = tableEntry fat l.cx.toNat ∧ l'.Sees fat fatTable ∧
      l'.kernelLoadEnd.toNat = l.kernelLoadEnd.toNat + 512 := by
  obtain ⟨table, addressed, behind, cluster⟩ := sees
  have track : (BootSector.ofDisk disk).sectorsPerTrack = 18 := image.sectorsPerTrack
  have heads : (BootSector.ofDisk disk).numberOfHeads = 2 := image.numberOfHeads
  let mem := stored disk l.mem l.kernelLoadEnd.toNat
    (Fat.nextDataSector (Bpb.ofDisk disk) l.cx.toNat % 256)
  have kept : ∀ o, o < 0x2000 → mem (fatTable.toNat + o) = fat o := by
    intro o ho
    show (if _ then _ else _) = _
    rw [if_neg (by omega), table o ho]
  have address : (fatTable.toUInt16 + (l.cx + l.cx >>> 1)).toNat =
      fatTable.toNat + (l.cx.toNat + l.cx.toNat / 2) := by
    have half : (l.cx >>> 1).toNat = l.cx.toNat / 2 := by
      rw [UInt16.toNat_shiftRight]
      show l.cx.toNat >>> 1 = _
      rw [Nat.shiftRight_eq_div_pow, Nat.pow_one]
    rw [UInt16.toNat_add, UInt16.toNat_add, half, UInt32.toNat_toUInt16]
    omega
  have read : (readU16 mem (fatTable.toUInt16 + (l.cx + l.cx >>> 1)).toNat).toNat =
      (readU16 fat (l.cx.toNat + l.cx.toNat / 2)).toNat := by
    rw [address, readU16_toNat, readU16_toNat, kept _ (by omega), Nat.add_assoc,
      kept _ (by omega)]
  have next := tableEntry_eq l.cx _ read
  have loadEnd : (l.kernelLoadEnd + 0x200).toNat = l.kernelLoadEnd.toNat + 512 :=
    toNat_advance l.kernelLoadEnd 512 (by omega)
  refine ⟨⟨mem, _, l.kernelLoadEnd + 0x200⟩, ?_, next, ⟨kept, addressed, ?_, ?_⟩, loadEnd⟩
  · rw [readCluster, track, heads, readFloppySector_spec _ (by omega), ok_bind,
      image.loaderSector]
    rfl
  · dsimp only
    omega
  · have bound : tableEntry fat l.cx.toNat < 0x1000 := tableEntry_lt _
    rw [← next] at bound
    exact bound

/-- A loop that ends has followed a chain, as long as the image stays in the first
megabyte. -/
theorem bootChain_of_readClusters (image : Image1440 disk) {fuel : Nat} {sectors : List Nat}
    {l' : Loading} (sees : l.Sees fat fatTable)
    (done : readClusters (BootSector.ofDisk disk) disk fatTable fuel l = .ok (sectors, l'))
    (room : l.kernelLoadEnd.toNat + sectors.length * 512 ≤ 2 ^ 20) :
    ∃ chain, BootChain fat l.cx.toNat chain ∧
      chain.map (fun c => Fat.nextDataSector (Bpb.ofDisk disk) c % 256) = sectors := by
  induction fuel generalizing l sectors with
  | zero => cases done
  | succ fuel ih =>
      have nonempty : l.kernelLoadEnd.toNat + 512 ≤ 2 ^ 20 := by
        rw [readClusters] at done
        obtain ⟨⟨sector, l₁⟩, -, rest⟩ := bind_eq_ok done
        dsimp only at rest
        split at rest
        · obtain ⟨⟨sectors', l₂⟩, -, same⟩ := bind_eq_ok rest
          cases same
          rw [List.length_cons] at room
          omega
        · cases rest
          rw [List.length_singleton] at room
          omega
      obtain ⟨l₁, first, next, sees₁, end₁⟩ := readCluster_spec image sees nonempty
      have below : l₁.cx < 0xFF8 ↔ tableEntry fat l.cx.toNat < 0xFF8 := by
        rw [UInt16.lt_iff_toNat_lt, next]
        rfl
      rw [readClusters, first, ok_bind] at done
      dsimp only at done
      split at done
      · next more =>
          obtain ⟨⟨sectors', l₂⟩, done', same⟩ := bind_eq_ok done
          cases same
          rw [List.length_cons] at room
          dsimp only at room
          obtain ⟨chain, isChain, mapped⟩ := ih sees₁ done' (by omega)
          rw [next] at isChain
          refine ⟨l.cx.toNat :: chain, ⟨rfl, Or.inr ⟨below.mp more, isChain⟩⟩, ?_⟩
          rw [List.map_cons, mapped]
      · next last =>
          cases done
          exact ⟨[l.cx.toNat], ⟨rfl, Or.inl ⟨rfl, Nat.not_lt.mp (mt below.mpr last)⟩⟩, rfl⟩

theorem readClusters_of_bootChain (image : Image1440 disk) {chain : List Nat}
    (sees : l.Sees fat fatTable) (isChain : BootChain fat l.cx.toNat chain)
    (room : l.kernelLoadEnd.toNat + chain.length * 512 ≤ 2 ^ 20) :
    ∃ l', readClusters (BootSector.ofDisk disk) disk fatTable chain.length l =
      .ok (chain.map (fun c => Fat.nextDataSector (Bpb.ofDisk disk) c % 256), l') := by
  induction chain generalizing l with
  | nil => cases isChain
  | cons c rest ih =>
      obtain ⟨rfl, links⟩ := isChain
      rw [List.length_cons] at room
      obtain ⟨l₁, first, next, sees₁, end₁⟩ := readCluster_spec image sees (by omega)
      have below : l₁.cx < 0xFF8 ↔ tableEntry fat l.cx.toNat < 0xFF8 := by
        rw [UInt16.lt_iff_toNat_lt, next]
        rfl
      rw [List.length_cons, readClusters, first, ok_bind]
      dsimp only
      rcases links with ⟨rfl, last⟩ | ⟨more, links⟩
      · rw [if_neg (mt below.mp (Nat.not_lt.mpr last))]
        exact ⟨l₁, rfl⟩
      · obtain ⟨l₂, done⟩ := ih sees₁ (by rwa [next]) (by omega)
        rw [if_pos (below.mpr more), done, ok_bind]
        exact ⟨l₂, rfl⟩

theorem readCluster_low (image : Image1440 disk) {sector : Nat} {l' : Loading}
    (done : readCluster (BootSector.ofDisk disk) disk fatTable l = .ok (sector, l')) :
    sector < 256 := by
  have track : (BootSector.ofDisk disk).sectorsPerTrack = 18 := image.sectorsPerTrack
  have heads : (BootSector.ofDisk disk).numberOfHeads = 2 := image.numberOfHeads
  rw [readCluster, track, heads] at done
  obtain ⟨⟨sector', mem⟩, read, same⟩ := bind_eq_ok done
  cases same
  exact readFloppySector_lt read

/-- Whatever is in memory, at least one sector is loaded, and all are among the first
256 of the disk. -/
theorem readClusters_low (image : Image1440 disk) {fuel : Nat} {sectors : List Nat} {l' : Loading}
    (done : readClusters (BootSector.ofDisk disk) disk fatTable fuel l = .ok (sectors, l')) :
    sectors ≠ [] ∧ ∀ s ∈ sectors, s < 256 := by
  induction fuel generalizing l sectors with
  | zero => cases done
  | succ fuel ih =>
      rw [readClusters] at done
      obtain ⟨⟨sector, l₁⟩, first, rest⟩ := bind_eq_ok done
      have low := readCluster_low image first
      dsimp only at rest
      split at rest
      · obtain ⟨⟨sectors', l₂⟩, done', same⟩ := bind_eq_ok rest
        cases same
        exact ⟨List.cons_ne_nil _ _, List.forall_mem_cons.mpr ⟨low, (ih done').2⟩⟩
      · cases rest
        exact ⟨List.cons_ne_nil _ _, List.forall_mem_singleton.mpr low⟩

end Clusters

/-! ## Which disks both readers load the same sectors of -/

/-- `KERNEL` with the blanks of an empty extension. -/
def kernelFullName : List UInt8 := kernelName ++ [0x20, 0x20, 0x20]

/-- `"/KERNEL"`. -/
def kernelPath : List UInt8 := [0x2F, 0x4B, 0x45, 0x52, 0x4E, 0x45, 0x4C]

/-- Entry `index` of the root directory is the file `KERNEL`, with the given clusters
unless it is empty. -/
structure KernelFile (disk : Disk) (index : Nat) (chain : List Nat) : Prop where
  inside : index < 224
  named : (rootEntry disk index).name = kernelFullName
  first : ∀ j, j < index → (rootEntry disk j).name ≠ kernelFullName
  file : (rootEntry disk index).attributes &&& DIRECTORY = 0
  clusters : (rootEntry disk index).size ≠ 0 →
    IsChain (Bpb.ofDisk disk) disk (rootEntry disk index).clusterNumLo.toNat chain ∧ chain.Nodup

/-- Both readers complete, with the same sequence of data sectors. `heap`, `fat` and
`memory` are what the kernel's buffers held before, and `behind` bytes are mapped
directly behind the pages of the file. -/
def LoadsSame (disk : Disk) (heap fat memory : Nat → UInt8) (behind : Nat) (a : Arena) : Prop :=
  ∃ fs fuel image, mount disk heap = .ok fs ∧ readKernelFromFilesystem disk fuel a = .ok image ∧
    readFileSectors fs disk fat memory behind kernelPath = .ok (some image.sectors)

/-- The pages that `read_file` allocates for `KERNEL`, and what is mapped behind them, have
room for a sector of each of its clusters. -/
def HasRoom (disk : Disk) (index : Nat) (chain : List Nat) (behind : Nat) : Prop :=
  chain.length * BYTES_PER_SECTOR ≤ bufferRoom (rootEntry disk index).size.toNat behind

instance (disk : Disk) (index : Nat) (chain : List Nat) (behind : Nat) :
    Decidable (HasRoom disk index chain behind) := Nat.decLe _ _

/-- The chain of the first entry of the root directory goes, modulo 256, through the
sectors of `KERNEL`. -/
def FirstEntryFits (disk : Disk) (chain : List Nat) : Prop :=
  ∃ bootChain, BootChain (bootFat disk) (rootEntry disk 0).clusterNumLo.toNat bootChain ∧
    bootChain.map (fun c => Fat.nextDataSector (Bpb.ofDisk disk) c % 256) =
      chain.map (Fat.nextDataSector (Bpb.ofDisk disk))

section Agreement

variable {disk : Disk} {heap fat memory : Nat → UInt8} {behind : Nat} {a : Arena} {index : Nat}
  {chain : List Nat}

theorem Image1440.mounted (image : Image1440 disk) (heap : Nat → UInt8) :
    ∃ fs, mount disk heap = .ok fs ∧ fs.bpb = Bpb.ofDisk disk ∧
      ∀ i, i < 224 → fs.rootDir i = rootEntry disk i := by
  have bytes : ((Bpb.ofDisk disk).bytesPerSector.toNat == BYTES_PER_SECTOR) = true := by
    rw [image.bytesPerSector]
    rfl
  obtain ⟨fs, mounted⟩ : ∃ fs, mount disk heap = .ok fs := by
    rw [mount]
    dsimp only
    rw [bytes, kassert_true, ok_bind]
    exact ⟨_, rfl⟩
  obtain ⟨bpb, -, rootDir⟩ := mount_rootDir mounted
  have sector : rootDirectorySector fs.bpb = (Bpb.ofDisk disk).numOfReservedSectors.toNat + 18 := by
    rw [rootDirectorySector, bpb, image.sectorsPerFat, image.numOfFats]
    rfl
  have count : rootDirectorySectorCount fs.bpb = 14 := by
    rw [rootDirectorySectorCount, bpb, image.numOfDirectoryEntries]
    rfl
  refine ⟨fs, mounted, bpb, fun i hi => ?_⟩
  rw [rootEntry, rootDir i fun x from_ below => ?_, sector]
  · rfl
  · rw [Fat.Loaded, count]
    unfold DIRECTORY_ENTRY_SIZE BYTES_PER_SECTOR at *
    omega

theorem KernelFile.resolved (image : Image1440 disk) (kernel : KernelFile disk index chain)
    {fs : FileSystem} (bpb : fs.bpb = Bpb.ofDisk disk)
    (rootDir : ∀ i, i < 224 → fs.rootDir i = rootEntry disk i) :
    resolvePath fs kernelPath = .ok (some (rootEntry disk index)) := by
  have entries : fs.bpb.numOfDirectoryEntries.toNat = 224 := by
    rw [bpb, image.numOfDirectoryEntries]
    rfl
  have plain : (0 : UInt8) ∉ kernelFullName := by decide
  have compare : ∀ i, i < 224 → (strncmpEq (fs.rootDir i).name kernelFullName = true ↔
      (rootEntry disk i).name = kernelFullName) := by
    intro i hi
    rw [rootDir i hi]
    exact strncmpEq_iff (by simp [rootEntry, DirectoryEntry.ofBytes, kernelFullName, kernelName])
      plain
  have inside := kernel.inside
  have fragment : readNextFragment kernelPath 1 = .ok (kernelFullName, 7) := by rfl
  have rooted : charAt kernelPath 0 = 0x2F := rfl
  rw [resolvePath, rooted, fragment]
  show searchDirectory fs kernelPath (2 ^ 96) 0 0 kernelFullName 7 = _
  have first : ∀ j < index, strncmpEq (fs.rootDir j).name kernelFullName ≠ true :=
    fun j lt => mt (compare j (by omega)).mp (kernel.first j lt)
  rw [searchDirectory_first rfl (by omega) ((compare index inside).mpr kernel.named) first
    (Nat.lt_trans (m := 224) (by omega) (by decide)), rootDir index inside, kernel.file]
  rfl

/-- The kernel reads the sectors of the chain. -/
theorem KernelFile.readFileSectors (image : Image1440 disk) (kernel : KernelFile disk index chain)
    (nonempty : (rootEntry disk index).size ≠ 0) (hasRoom : HasRoom disk index chain behind)
    (heap fat memory : Nat → UInt8) :
    ∃ fs, mount disk heap = .ok fs ∧ Fat.readFileSectors fs disk fat memory behind kernelPath =
      .ok (some (chain.map (Fat.nextDataSector (Bpb.ofDisk disk)))) := by
  obtain ⟨fs, mounted, bpb, rootDir⟩ := image.mounted heap
  obtain ⟨isChain, -⟩ := kernel.clusters nonempty
  have size : (rootEntry disk index).size.toNat ≠ 0 := by
    intro zero
    exact nonempty (UInt32.toNat_inj.mp zero)
  have enough : chain.length ≤ maxClusters (rootEntry disk index).size.toNat behind :=
    Nat.le_succ_of_le ((Nat.le_div_iff_mul_le (by decide)).mpr hasRoom)
  have start : ((rootEntry disk index).reader fat memory).offset = 0 := rfl
  obtain ⟨r, read⟩ := sectorsRead_chain (r := (rootEntry disk index).reader fat memory)
    image.wellFormed size enough (Or.inl rfl) isChain (by rwa [start, Nat.zero_add])
  refine ⟨fs, mounted, ?_⟩
  rw [Fat.readFileSectors, kernel.resolved image bpb rootDir, ok_bind]
  dsimp only
  rw [bpb, read]
  rfl

/-- Of an empty file, the kernel reads no sector. -/
theorem KernelFile.readFileSectors_empty (image : Image1440 disk)
    (kernel : KernelFile disk index chain) (empty : (rootEntry disk index).size = 0)
    {fs : FileSystem} {sectors : List Nat} (mounted : mount disk heap = .ok fs)
    (read : Fat.readFileSectors fs disk fat memory behind kernelPath = .ok (some sectors)) :
    sectors = [] := by
  obtain ⟨fs', mounted', bpb, rootDir⟩ := image.mounted heap
  obtain rfl : fs' = fs := Except.ok.inj (mounted'.symm.trans mounted)
  rw [Fat.readFileSectors, kernel.resolved image bpb rootDir, ok_bind] at read
  dsimp only at read
  obtain ⟨⟨sectors', r⟩, done, same⟩ := bind_eq_ok read
  cases same
  rw [empty] at done
  exact sectorsRead_empty done

/-- If the kernel reads the file, there is room for its chain. -/
theorem KernelFile.hasRoom (image : Image1440 disk) (kernel : KernelFile disk index chain)
    (nonempty : (rootEntry disk index).size ≠ 0) {fs : FileSystem} {sectors : List Nat}
    (mounted : mount disk heap = .ok fs)
    (read : Fat.readFileSectors fs disk fat memory behind kernelPath = .ok (some sectors)) :
    HasRoom disk index chain behind := by
  obtain ⟨fs', mounted', bpb, rootDir⟩ := image.mounted heap
  obtain rfl : fs' = fs := Except.ok.inj (mounted'.symm.trans mounted)
  rw [Fat.readFileSectors, kernel.resolved image bpb rootDir, ok_bind, bpb] at read
  dsimp only at read
  obtain ⟨⟨sectors', r⟩, done, -⟩ := bind_eq_ok read
  have room := room_of_readClusters image.wellFormed (Or.inl rfl) (kernel.clusters nonempty).1
    (Nat.zero_le _) (readClusters_of_sectorsRead done)
  have start : ((rootEntry disk index).reader fat memory).offset = 0 := rfl
  rwa [start, Nat.zero_add] at room

/-- The name is found, and the loop starts with the first entry of the root directory. -/
theorem readKernel_loading (image : Image1440 disk) (layout : Layout a)
    (kernel : KernelFile disk index chain)
    (sectors : (Bpb.ofDisk disk).numOfReservedSectors.toNat + 32 ≤ 256) :
    ∃ fatTable l size, Loading.Sees (bootFat disk) fatTable l ∧
      l.cx = (rootEntry disk 0).clusterNumLo ∧ l.kernelLoadEnd.toNat + 256 * 512 ≤ 2 ^ 20 ∧
      ∀ fuel, readKernelFromFilesystem disk fuel a = (do
        let (sectors, l') ← readClusters (BootSector.ofDisk disk) disk fatTable fuel l
        return ⟨sectors, l.kernelLoadEnd, l'.kernelLoadEnd, size⟩) := by
  obtain ⟨fatTable, a₁, tables, fatStart, start₁, end₁, root, table⟩ :=
    readTables_spec image layout sectors
  obtain ⟨aligned, low, room, conventional⟩ := layout
  have inside := kernel.inside
  have name : ∀ i, i < 8 → disk (((Bpb.ofDisk disk).numOfReservedSectors.toNat + 18) * 512 +
      DIRECTORY_ENTRY_SIZE * index + i) = kernelName.getD i 0 := by
    intro i hi
    have at_i : ((rootEntry disk index).name)[i]? = kernelFullName[i]? := by rw [kernel.named]
    rw [kernelFullName, List.getElem?_append_left (show i < kernelName.length from hi)] at at_i
    rw [List.getD_eq_getElem?_getD, ← at_i]
    simp [rootEntry, DirectoryEntry.ofBytes, show i < 11 by omega]
  have found : nameMatches a₁.mem
      (a.availMemStart + (0 + UInt32.ofNat (0x20 * index))).toUInt16 = true := by
    refine List.all_eq_true.mpr fun i mem => beq_iff_eq.mpr ?_
    have hi := List.mem_range.mp mem
    have address : ((a.availMemStart + (0 + UInt32.ofNat (0x20 * index))).toUInt16 +
        UInt16.ofNat i).toNat = a.availMemStart.toNat + (32 * index + i) := by
      rw [UInt32.zero_add, UInt16.toNat_add, UInt32.toNat_toUInt16,
        toNat_advance _ _ (by omega), UInt16.toNat_ofNat']
      omega
    rw [address, root _ (by omega), ← name i hi]
    exact congrArg disk (by unfold DIRECTORY_ENTRY_SIZE; omega)
  obtain ⟨offset, searched⟩ : ∃ offset, checkEntryName a₁.mem a.availMemStart 2048 0 = .ok offset :=
    checkEntryName_found (by omega) found
  let size := readU32 a₁.mem (a.availMemStart.toUInt16 + 0x1C).toNat
  obtain ⟨a₂, allocated, -, -, mem₂⟩ := allocatePages_spec (a := a₁)
    ((size >>> 12 + 1).toUInt16)
    (by rw [start₁]; unfold PAGE_SIZE at *; omega) (by rw [end₁]; omega) (by rw [end₁]; omega)
  have kept : ∀ x, x < a.availMemStart.toNat + 0x4000 → a₂.mem x = a₁.mem x := by
    intro x hx
    rw [mem₂, if_neg (by omega)]
  have entry : (a.availMemStart.toUInt16 + 0x1A).toNat = a.availMemStart.toNat + 26 := by
    rw [UInt16.toNat_add, UInt32.toNat_toUInt16, show (0x1A : UInt16).toNat = 26 from rfl]
    omega
  have cluster : readU16 a₂.mem (a.availMemStart.toUInt16 + 0x1A).toNat =
      (rootEntry disk 0).clusterNumLo := by
    show _ = readU16 disk (_ + DIRECTORY_ENTRY_SIZE * 0 + 26)
    rw [entry, readU16, readU16, kept _ (by omega), kept _ (by omega), root _ (by omega),
      Nat.add_assoc a.availMemStart.toNat, root _ (by omega), Nat.mul_zero, Nat.add_zero]
  refine ⟨fatTable, ⟨a₂.mem, (rootEntry disk 0).clusterNumLo, a₁.availMemStart⟩, size,
    ⟨fun o ho => ?_, ?_, ?_, image.clusters 0 (by decide)⟩, rfl, ?_, fun fuel => ?_⟩
  · dsimp only
    rw [kept _ (by omega), table o ho]
  · omega
  · dsimp only
    omega
  · dsimp only
    omega
  · rw [readKernelFromFilesystem]
    dsimp only
    rw [tables, ok_bind]
    dsimp only
    rw [searched, ok_bind, allocated, ok_bind]
    dsimp only
    rw [cluster]

/-- The loader reads at least one sector, and only of the first 256. -/
theorem readKernel_low (image : Image1440 disk) {fuel : Nat} {loaded : KernelImage}
    (done : readKernelFromFilesystem disk fuel a = .ok loaded) :
    loaded.sectors ≠ [] ∧ ∀ s ∈ loaded.sectors, s < 256 := by
  rw [readKernelFromFilesystem] at done
  obtain ⟨⟨rootDirTable, fatTable, a₁⟩, -, done⟩ := bind_eq_ok done
  obtain ⟨offset, -, done⟩ := bind_eq_ok done
  obtain ⟨⟨start, a₂⟩, -, done⟩ := bind_eq_ok done
  obtain ⟨⟨sectors, l⟩, read, same⟩ := bind_eq_ok done
  cases same
  exact readClusters_low image read

/-- A chain in the first 256 sectors leaves room for the tables there, and is no longer
than 256. -/
theorem KernelFile.low (image : Image1440 disk)
    (isChain : IsChain (Bpb.ofDisk disk) disk (rootEntry disk index).clusterNumLo.toNat chain)
    (acyclic : chain.Nodup) (nonempty : chain ≠ [])
    (low : ∀ s ∈ chain.map (Fat.nextDataSector (Bpb.ofDisk disk)), s < 256) :
    (Bpb.ofDisk disk).numOfReservedSectors.toNat + 32 ≤ 256 ∧ chain.length ≤ 256 := by
  have onDisk := image.onDisk
  have range : ∀ c ∈ chain, 2 ≤ c ∧ c < 0xFF8 := fun c mem => isChain.mem_range mem
  have sector : ∀ c ∈ chain, c + (Bpb.ofDisk disk).numOfReservedSectors.toNat + 30 < 256 := by
    intro c mem
    obtain ⟨-, lt⟩ := range c mem
    have := low _ (List.mem_map_of_mem mem)
    rw [image.nextDataSector] at this
    omega
  refine ⟨?_, ?_⟩
  · obtain ⟨c, rest, rfl⟩ := List.exists_cons_of_ne_nil nonempty
    have := sector c List.mem_cons_self
    have := (range c List.mem_cons_self).1
    omega
  · refine length_le_of_nodup acyclic fun c mem => ?_
    have := sector c mem
    omega

theorem firstEntryFits_of_loadsSame (image : Image1440 disk) (kernel : KernelFile disk index chain)
    (layout : Layout a) (same : LoadsSame disk heap fat memory behind a) :
    (rootEntry disk index).size ≠ 0 ∧ HasRoom disk index chain behind ∧
      FirstEntryFits disk chain := by
  obtain ⟨fs, fuel, loaded, mounted, done, read⟩ := same
  obtain ⟨some_sector, low⟩ := readKernel_low image done
  have nonempty : (rootEntry disk index).size ≠ 0 := fun empty =>
    some_sector (kernel.readFileSectors_empty image empty mounted read)
  have hasRoom := kernel.hasRoom image nonempty mounted read
  obtain ⟨isChain, acyclic⟩ := kernel.clusters nonempty
  obtain ⟨fs', mounted', read'⟩ := kernel.readFileSectors image nonempty hasRoom heap fat memory
  obtain rfl : fs' = fs := Except.ok.inj (mounted'.symm.trans mounted)
  have same : loaded.sectors = chain.map (Fat.nextDataSector (Bpb.ofDisk disk)) :=
    Option.some.inj (Except.ok.inj (read.symm.trans read'))
  rw [same] at low some_sector
  obtain ⟨tables, short⟩ := KernelFile.low image isChain acyclic
    (fun nil => some_sector (by rw [nil, List.map_nil])) low
  obtain ⟨fatTable, l, size, sees, first, room, run⟩ :=
    readKernel_loading image layout kernel tables
  rw [run fuel] at done
  obtain ⟨⟨sectors, l'⟩, clusters, result⟩ := bind_eq_ok done
  cases result
  have length : sectors.length = chain.length := by
    have := congrArg List.length same
    rwa [List.length_map] at this
  have fits : l.kernelLoadEnd.toNat + sectors.length * 512 ≤ 2 ^ 20 := by
    rw [length]
    exact Nat.le_trans (Nat.add_le_add_left (Nat.mul_le_mul_right 512 short) _) room
  obtain ⟨bootChain, follows, mapped⟩ := bootChain_of_readClusters image sees clusters fits
  rw [first] at follows
  exact ⟨nonempty, hasRoom, bootChain, follows, mapped.trans same⟩

theorem loadsSame_of_firstEntryFits (image : Image1440 disk) (kernel : KernelFile disk index chain)
    (layout : Layout a) (nonempty : (rootEntry disk index).size ≠ 0)
    (hasRoom : HasRoom disk index chain behind) (fits : FirstEntryFits disk chain) :
    LoadsSame disk heap fat memory behind a := by
  obtain ⟨bootChain, follows, mapped⟩ := fits
  obtain ⟨isChain, acyclic⟩ := kernel.clusters nonempty
  obtain ⟨fs, mounted, read⟩ := kernel.readFileSectors image nonempty hasRoom heap fat memory
  have low : ∀ s ∈ chain.map (Fat.nextDataSector (Bpb.ofDisk disk)), s < 256 := by
    intro s mem
    rw [← mapped] at mem
    obtain ⟨c, -, rfl⟩ := List.mem_map.mp mem
    exact Nat.mod_lt _ (by decide)
  have length : bootChain.length = chain.length := by
    have := congrArg List.length mapped
    rwa [List.length_map, List.length_map] at this
  have some_cluster : chain ≠ [] := by
    rintro rfl
    rw [List.eq_nil_of_length_eq_zero length] at follows
    exact follows
  obtain ⟨tables, short⟩ := KernelFile.low image isChain acyclic some_cluster low
  obtain ⟨fatTable, l, size, sees, first, room, run⟩ :=
    readKernel_loading image layout kernel tables
  rw [← first] at follows
  have fits : l.kernelLoadEnd.toNat + bootChain.length * 512 ≤ 2 ^ 20 := by
    rw [length]
    exact Nat.le_trans (Nat.add_le_add_left (Nat.mul_le_mul_right 512 short) _) room
  obtain ⟨l', clusters⟩ := readClusters_of_bootChain image sees follows fits
  rw [mapped] at clusters
  refine ⟨fs, bootChain.length, ⟨_, l.kernelLoadEnd, l'.kernelLoadEnd, size⟩, mounted, ?_, read⟩
  rw [run, clusters]
  rfl

end Agreement

/-- The loader and `read_file` load the same sectors of `KERNEL` exactly if it is not
empty, the kernel has room for its chain and the chain of the first entry of the root
directory fits it. -/
theorem loadsSame_iff {disk : Disk} {a : Arena} {index : Nat} {chain : List Nat}
    (image : Image1440 disk) (kernel : KernelFile disk index chain) (layout : Layout a)
    (heap fat memory : Nat → UInt8) (behind : Nat) :
    LoadsSame disk heap fat memory behind a ↔
      (rootEntry disk index).size ≠ 0 ∧ HasRoom disk index chain behind ∧
        FirstEntryFits disk chain := by
  constructor
  · exact firstEntryFits_of_loadsSame image kernel layout
  · rintro ⟨nonempty, hasRoom, fits⟩
    exact loadsSame_of_firstEntryFits image kernel layout nonempty hasRoom fits

/-! ## Three disks -/

/-- A disk with one file: `KERNEL`, of 512 bytes in one cluster. If its entry is not the
first one, the first one is the label of the volume. -/
def kernelDisk (index : Nat) (cluster : UInt8) : Disk := fun p =>
  let entry := 19 * 512 + 32 * index
  let fat := 512 + cluster.toNat + cluster.toNat / 2
  let label := if index = 0 then [] else [(9728, 0x42), (9729, 0x4F), (9730, 0x4F), (9731, 0x54)] ++
    (List.range' 9732 7).map (fun p => (p, 0x20)) ++ [(9739, 0x08)]
  (List.lookup p ([(12, 2), (13, 1), (14, 1), (16, 2), (17, 224), (22, 9), (24, 18), (26, 2),
    (512, 0xF0), (513, 0xFF), (514, 0xFF), (fat, 0xFF), (fat + 1, 0x0F)] ++ label ++
    (List.range 11).map (fun i => (entry + i, kernelFullName.getD i 0)) ++
    [(entry + 26, cluster), (entry + 29, 2)])).getD 0

/-- The pages from `0x4000` to the end of conventional memory. -/
def sampleArena : Arena := ⟨fun _ => 0, 0x4000, 0x9E000⟩

theorem sampleArena_layout : Layout sampleArena :=
  ⟨by decide, by decide, by decide, by decide⟩

theorem kernelDisk_image : Image1440 (kernelDisk 0 226) ∧ Image1440 (kernelDisk 1 2) := by
  refine ⟨⟨?_, ?_, ?_, ?_, ?_, ?_, ?_, ?_, ?_, ?_⟩, ⟨?_, ?_, ?_, ?_, ?_, ?_, ?_, ?_, ?_, ?_⟩⟩ <;>
    decide +kernel

theorem kernelDisk_file : KernelFile (kernelDisk 0 226) 0 [226] ∧
    KernelFile (kernelDisk 1 2) 1 [2] := by
  refine ⟨⟨?_, ?_, ?_, ?_, fun _ => ?_⟩, ⟨?_, ?_, ?_, ?_, fun _ => ?_⟩⟩ <;> decide +kernel

/-- The same with a `KERNEL` of 1500 bytes in clusters 2, 3 and 5. -/
def chainDisk : Disk := fun p =>
  (List.lookup p [(515, 0x03), (516, 0x50), (517, 0x00), (519, 0xF0), (520, 0xFF), (9756, 0xDC),
    (9757, 5)]).getD (kernelDisk 0 2 p)

theorem chainDisk_image : Image1440 chainDisk := by
  refine ⟨?_, ?_, ?_, ?_, ?_, ?_, ?_, ?_, ?_, ?_⟩ <;> decide +kernel

theorem chainDisk_file : KernelFile chainDisk 0 [2, 3, 5] := by
  refine ⟨?_, ?_, ?_, ?_, fun _ => ?_⟩ <;> decide +kernel

theorem chainDisk_bootChain :
    BootChain (bootFat chainDisk) (rootEntry chainDisk 0).clusterNumLo.toNat [2, 3, 5] := by
  refine ⟨?_, Or.inr ⟨?_, ?_, Or.inr ⟨?_, ?_, Or.inl ⟨rfl, ?_⟩⟩⟩⟩ <;> decide +kernel

theorem loadsSame_first_entry :
    (rootEntry chainDisk 0).size = 1500 ∧
      LoadsSame chainDisk (fun _ => 0) (fun _ => 0) (fun _ => 0) 0 sampleArena := by
  have fits : FirstEntryFits chainDisk [2, 3, 5] :=
    ⟨[2, 3, 5], chainDisk_bootChain, by decide +kernel⟩
  refine ⟨by decide +kernel, ?_⟩
  exact (loadsSame_iff chainDisk_image chainDisk_file sampleArena_layout _ _ _ 0).mpr
    ⟨by decide +kernel, by decide +kernel, fits⟩

/-- In cluster 226 the file is in sector 257, and behind the label of the volume it is
not the first entry. -/
theorem loader_reads_other_sectors :
    (Image1440 (kernelDisk 0 226) ∧ KernelFile (kernelDisk 0 226) 0 [226] ∧ Layout sampleArena ∧
      ¬ LoadsSame (kernelDisk 0 226) (fun _ => 0) (fun _ => 0) (fun _ => 0) 0 sampleArena) ∧
    Image1440 (kernelDisk 1 2) ∧ KernelFile (kernelDisk 1 2) 1 [2] ∧ Layout sampleArena ∧
      ¬ LoadsSame (kernelDisk 1 2) (fun _ => 0) (fun _ => 0) (fun _ => 0) 0 sampleArena := by
  obtain ⟨far, label⟩ := kernelDisk_image
  obtain ⟨farFile, labelFile⟩ := kernelDisk_file
  refine ⟨⟨far, farFile, sampleArena_layout, fun same => ?_⟩,
    label, labelFile, sampleArena_layout, fun same => ?_⟩
  · obtain ⟨-, -, bootChain, -, mapped⟩ :=
      firstEntryFits_of_loadsSame far farFile sampleArena_layout same
    have sector : Fat.nextDataSector (Bpb.ofDisk (kernelDisk 0 226)) 226 = 257 := by decide +kernel
    have low : 257 ∈ bootChain.map
        (fun c => Fat.nextDataSector (Bpb.ofDisk (kernelDisk 0 226)) c % 256) := by
      rw [mapped, List.map_singleton, sector]
      exact List.mem_singleton_self _
    obtain ⟨c, -, equal⟩ := List.mem_map.mp low
    have := Nat.mod_lt (Fat.nextDataSector (Bpb.ofDisk (kernelDisk 0 226)) c)
      (show 256 > 0 by decide)
    omega
  · obtain ⟨-, -, bootChain, follows, mapped⟩ :=
      firstEntryFits_of_loadsSame label labelFile sampleArena_layout same
    have first : (rootEntry (kernelDisk 1 2) 0).clusterNumLo.toNat = 0 := by decide +kernel
    rw [first] at follows
    cases bootChain with
    | nil => exact follows
    | cons c rest =>
        obtain ⟨rfl, -⟩ := follows
        rw [List.map_cons, List.map_singleton] at mapped
        exact absurd (List.cons.inj mapped).1 (by decide +kernel)

end Tyleros.Boot
