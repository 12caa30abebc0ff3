import Tyleros.Fat.Model

/-!
# Where the root directory ends

`read_root_directory` and `read_file` compute the layout of the disk independently of each
other: the first rounds the size of the root directory down to sectors, the second keeps
it in 16 bits and rounds it up. `layoutAgrees_iff` says for which parameter blocks both
agree with the disk.
-/

namespace Tyleros.Fat

/-- `root_directory_sector`. -/
def rootDirectorySector (bpb : Bpb) : Nat :=
  bpb.numOfReservedSectors.toNat + bpb.sectorsPerFat.toNat * bpb.numOfFats.toNat

/-- `root_directory_sector_count`. -/
def rootDirectorySectorCount (bpb : Bpb) : Nat :=
  DIRECTORY_ENTRY_SIZE * bpb.numOfDirectoryEntries.toNat / BYTES_PER_SECTOR

/-- The sectors in which the entries of the root directory are. -/
def rootDirectorySectors (bpb : Bpb) : Nat :=
  divCeil (DIRECTORY_ENTRY_SIZE * bpb.numOfDirectoryEntries.toNat) BYTES_PER_SECTOR

/-- Byte `x` of the root directory is in the sectors that `read_root_directory` reads. -/
def Loaded (bpb : Bpb) (x : Nat) : Prop := x < rootDirectorySectorCount bpb * BYTES_PER_SECTOR

/-- An entry is its 32 bytes. -/
theorem DirectoryEntry.ofBytes_congr {bytes bytes' : Nat → UInt8} {pos pos' : Nat}
    (same : ∀ o, o < DIRECTORY_ENTRY_SIZE → bytes (pos + o) = bytes' (pos' + o)) :
    DirectoryEntry.ofBytes bytes pos = DirectoryEntry.ofBytes bytes' pos' := by
  have name : (List.range 11).map (fun i => bytes (pos + i)) =
      (List.range 11).map fun i => bytes' (pos' + i) := by
    refine List.map_congr_left fun o mem => same o ?_
    have := List.mem_range.mp mem
    unfold DIRECTORY_ENTRY_SIZE
    omega
  have words : ∀ o, o + 1 < DIRECTORY_ENTRY_SIZE →
      readU16 bytes (pos + o) = readU16 bytes' (pos' + o) := by
    intro o ho
    unfold readU16
    rw [Nat.add_assoc, Nat.add_assoc, same o (by omega), same (o + 1) ho]
  unfold DirectoryEntry.ofBytes readU32
  rw [name, same 11 (by decide), words 26 (by decide), words 28 (by decide), Nat.add_assoc,
    Nat.add_assoc, words 30 (by decide)]

/-- What `read_root_directory` loads. -/
theorem mount_rootDir {disk : Disk} {heap : Nat → UInt8} {fs : FileSystem}
    (mounted : mount disk heap = .ok fs) :
    fs.bpb = Bpb.ofDisk disk ∧ fs.bpb.bytesPerSector.toNat = BYTES_PER_SECTOR ∧
      ∀ i, (∀ x, DIRECTORY_ENTRY_SIZE * i ≤ x → x < DIRECTORY_ENTRY_SIZE * (i + 1) → Loaded fs.bpb x) →
        fs.rootDir i = DirectoryEntry.ofBytes disk
          (rootDirectorySector fs.bpb * BYTES_PER_SECTOR + DIRECTORY_ENTRY_SIZE * i) := by
  obtain ⟨_, sector, mounted⟩ := bind_eq_ok mounted
  cases mounted
  refine ⟨rfl, beq_iff_eq.mp (kassert_eq_ok sector), fun i loaded => ?_⟩
  dsimp only
  refine DirectoryEntry.ofBytes_congr fun o ho => ?_
  have inside := loaded (DIRECTORY_ENTRY_SIZE * i + o) (Nat.le_add_right _ _)
    (by rw [Nat.mul_succ]; omega)
  rw [Nat.add_assoc]
  exact if_pos inside

/-- Every entry that `resolve_path` scans is loaded, the data area of `read_file` begins
right behind the sectors of the root directory, and the two `uint16_t` hold what is
assigned to them. -/
structure LayoutAgrees (bpb : Bpb) : Prop where
  loaded : ∀ i, i < bpb.numOfDirectoryEntries.toNat → ∀ x, DIRECTORY_ENTRY_SIZE * i ≤ x →
    x < DIRECTORY_ENTRY_SIZE * (i + 1) → Loaded bpb x
  dataBehind : firstDataSector bpb = rootDirectorySector bpb + rootDirectorySectors bpb
  fatSectors : bpb.sectorsPerFat.toNat * bpb.numOfFats.toNat % 2 ^ 16 =
    bpb.sectorsPerFat.toNat * bpb.numOfFats.toNat
  rootDirSize : bpb.numOfDirectoryEntries.toNat * DIRECTORY_ENTRY_SIZE % 2 ^ 16 =
    bpb.numOfDirectoryEntries.toNat * DIRECTORY_ENTRY_SIZE

/-- The entries fill whole sectors, and both sizes fit in 16 bits. -/
structure LayoutFits (bpb : Bpb) : Prop where
  wholeSectors : bpb.numOfDirectoryEntries.toNat % 16 = 0
  rootDirSize : bpb.numOfDirectoryEntries.toNat < 2048
  fatSectors : bpb.sectorsPerFat.toNat * bpb.numOfFats.toNat < 2 ^ 16

/-- All entries are loaded exactly if they fill whole sectors. -/
theorem all_loaded_iff (bpb : Bpb) :
    (∀ i, i < bpb.numOfDirectoryEntries.toNat → ∀ x, DIRECTORY_ENTRY_SIZE * i ≤ x →
        x < DIRECTORY_ENTRY_SIZE * (i + 1) → Loaded bpb x) ↔
      bpb.numOfDirectoryEntries.toNat % 16 = 0 := by
  unfold Loaded rootDirectorySectorCount DIRECTORY_ENTRY_SIZE BYTES_PER_SECTOR
  constructor
  · intro loaded
    by_contra rest
    -- the last byte of the last entry
    have last := loaded (bpb.numOfDirectoryEntries.toNat - 1) (by omega)
      (32 * bpb.numOfDirectoryEntries.toNat - 1) (by omega) (by omega)
    omega
  · intro whole i hi x from_ below
    omega

/-- Both computations agree with the disk exactly for these parameter blocks. -/
theorem layoutAgrees_iff (bpb : Bpb) : LayoutAgrees bpb ↔ LayoutFits bpb := by
  constructor
  · rintro ⟨loaded, -, fatSectors, rootDirSize⟩
    refine ⟨(all_loaded_iff bpb).mp loaded, ?_, ?_⟩
    · unfold DIRECTORY_ENTRY_SIZE at rootDirSize
      omega
    · rw [← fatSectors]
      exact Nat.mod_lt _ (by decide)
  · rintro ⟨whole, small, fits⟩
    have rootDirSize : bpb.numOfDirectoryEntries.toNat * DIRECTORY_ENTRY_SIZE % 2 ^ 16 =
        bpb.numOfDirectoryEntries.toNat * DIRECTORY_ENTRY_SIZE := by
      unfold DIRECTORY_ENTRY_SIZE
      omega
    refine ⟨(all_loaded_iff bpb).mpr whole, ?_, Nat.mod_eq_of_lt fits, rootDirSize⟩
    unfold firstDataSector rootDirectorySector rootDirectorySectors
    dsimp only
    rw [rootDirSize, Nat.mod_eq_of_lt fits, Nat.mul_comm DIRECTORY_ENTRY_SIZE]

/-- With 100 directory entries the last four are not loaded; with 4096 the data area is
taken to begin at the root directory. -/
theorem layout_disagrees :
    ¬ LayoutAgrees ⟨512, 1, 1, 2, 100, 9⟩ ∧ ¬ LayoutAgrees ⟨512, 1, 1, 2, 4096, 9⟩ := by
  constructor
  · intro agrees
    have last := agrees.loaded 99 (by decide) 3199 (by decide) (by decide)
    exact absurd last (by unfold Loaded; decide)
  · intro agrees
    exact absurd agrees.dataBehind (by decide)

end Tyleros.Fat
