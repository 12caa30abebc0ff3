import Tyleros.Fat.Model
import Tyleros.Alloc.Alignment
import Mathlib.Data.List.Nodup
import Mathlib.Data.Finset.Card

/-!
# Reading a file

`fileSector` is the sector of the disk that holds the `j`-th 512 bytes of a file,
from the layout of a FAT12 volume: reserved sectors, FATs, root directory and then
the clusters. `read_file` reads one sector for each cluster of the chain, whatever
the size of a cluster, at a number it computes in 16 bits, and copies it to a buffer
that need not have room for a whole last sector. `readFile_correct_iff` says for
which files this gives the contents of the file.
-/

namespace Tyleros.Fat

/-! ## The layout of a volume -/

/-- The first sector of a cluster. -/
def firstSector (bpb : Bpb) (cluster : Nat) : Nat :=
  bpb.numOfReservedSectors.toNat + bpb.numOfFats.toNat * bpb.sectorsPerFat.toNat +
    divCeil (bpb.numOfDirectoryEntries.toNat * DIRECTORY_ENTRY_SIZE) BYTES_PER_SECTOR +
    (cluster - 2) * bpb.sectorsPerCluster.toNat

/-- The number of bytes in a cluster. -/
def clusterSize (bpb : Bpb) : Nat := bpb.sectorsPerCluster.toNat * BYTES_PER_SECTOR

def clusterBytes (bpb : Bpb) (disk : Disk) (cluster : Nat) : List UInt8 :=
  (List.range (clusterSize bpb)).map fun r => disk (firstSector bpb cluster * BYTES_PER_SECTOR + r)

/-- The clusters of a chain, one after the other. -/
def contents (bpb : Bpb) (disk : Disk) (chain : List Nat) : List UInt8 :=
  chain.flatMap (clusterBytes bpb disk)

/-- Entry `cluster` of the first FAT: entries `2 * k` and `2 * k + 1` are packed in
the bytes from `3 * k` on. -/
def fatEntry (bpb : Bpb) (disk : Disk) (cluster : Nat) : Nat :=
  let pos := bpb.numOfReservedSectors.toNat * BYTES_PER_SECTOR + 3 * (cluster / 2)
  if cluster % 2 = 0 then (disk pos).toNat + 256 * ((disk (pos + 1)).toNat % 16)
  else (disk (pos + 1)).toNat / 16 + 16 * (disk (pos + 2)).toNat

/-- The clusters from `first` on, up to an entry that marks the end. Each has its
entry inside the FAT. -/
def IsChain (bpb : Bpb) (disk : Disk) : Nat → List Nat → Prop
  | first, [] => 0xFF8 ≤ first
  | first, c :: rest => first = c ∧ 2 ≤ c ∧ c < 0xFF8 ∧
      c + c / 2 + 1 < bpb.sectorsPerFat.toNat * BYTES_PER_SECTOR ∧
      IsChain bpb disk (fatEntry bpb disk c) rest

instance IsChain.decidable (bpb : Bpb) (disk : Disk) :
    (first : Nat) → (chain : List Nat) → Decidable (IsChain bpb disk first chain)
  | first, [] => inferInstanceAs (Decidable (0xFF8 ≤ first))
  | first, c :: rest =>
    have := IsChain.decidable bpb disk (fatEntry bpb disk c) rest
    inferInstanceAs (Decidable (first = c ∧ 2 ≤ c ∧ c < 0xFF8 ∧ _ ∧ _))

/-- The part of the parameter block a FAT12 volume needs. -/
structure WellFormed (bpb : Bpb) : Prop where
  sector : bpb.bytesPerSector.toNat = BYTES_PER_SECTOR
  reserved : 1 ≤ bpb.numOfReservedSectors.toNat
  cluster : 1 ≤ bpb.sectorsPerCluster.toNat
  fats : 1 ≤ bpb.numOfFats.toNat

/-- The disks agree in front of the first cluster. -/
def SameMetadata (bpb : Bpb) (disk disk' : Disk) : Prop :=
  ∀ p, p < firstSector bpb 2 * BYTES_PER_SECTOR → disk' p = disk p

/-- The sector that holds the `j`-th 512 bytes of a file. -/
def fileSector (bpb : Bpb) (chain : List Nat) (j : Nat) : Nat :=
  firstSector bpb (chain.getD (j / bpb.sectorsPerCluster.toNat) 0) +
    j % bpb.sectorsPerCluster.toNat

theorem readU16_toNat (bytes : Nat → UInt8) (pos : Nat) :
    (readU16 bytes pos).toNat = (bytes pos).toNat + 256 * (bytes (pos + 1)).toNat := by
  have := (bytes pos).toNat_lt
  have := (bytes (pos + 1)).toNat_lt
  rw [readU16, UInt16.toNat_ofNat_of_lt']
  show _ < 65536
  omega

section Contents

variable {bpb : Bpb} {disk : Disk}

/-- A byte of the contents, by the cluster it is in. -/
theorem contents_getElem? (chain : List Nat) (x : Nat) (pos : 0 < clusterSize bpb) :
    (contents bpb disk chain)[x]? = (chain[x / clusterSize bpb]?).map fun c =>
      disk (firstSector bpb c * BYTES_PER_SECTOR + x % clusterSize bpb) := by
  induction chain generalizing x with
  | nil => simp [contents]
  | cons c rest ih =>
      have length : (clusterBytes bpb disk c).length = clusterSize bpb := by simp [clusterBytes]
      rw [contents, List.flatMap_cons, List.getElem?_append, length]
      split
      · next first =>
          rw [Nat.div_eq_of_lt first, Nat.mod_eq_of_lt first]
          simp [clusterBytes, first]
      · next later =>
          have le := Nat.not_lt.mp later
          rw [show List.flatMap (clusterBytes bpb disk) rest = contents bpb disk rest from rfl, ih,
            Nat.div_eq_sub_div pos le, List.getElem?_cons_succ, Nat.mod_eq_sub_mod le]

/-- A byte of the contents, by the sector it is in. -/
theorem contents_sector (wf : WellFormed bpb) {chain : List Nat} {x : Nat}
    (inside : x < chain.length * clusterSize bpb) :
    (contents bpb disk chain)[x]? =
      some (disk (fileSector bpb chain (x / BYTES_PER_SECTOR) * BYTES_PER_SECTOR +
        x % BYTES_PER_SECTOR)) := by
  have one := wf.cluster
  have pos : 0 < clusterSize bpb := by
    unfold clusterSize BYTES_PER_SECTOR
    omega
  have index : x / clusterSize bpb < chain.length := Nat.div_lt_of_lt_mul (by rwa [Nat.mul_comm])
  have split_ : x / BYTES_PER_SECTOR / bpb.sectorsPerCluster.toNat = x / clusterSize bpb := by
    rw [Nat.div_div_eq_div_mul, clusterSize, Nat.mul_comm]
  rw [contents_getElem? chain x pos, List.getElem?_eq_getElem index, Option.map_some, fileSector,
    split_, List.getD_eq_getElem?_getD, List.getElem?_eq_getElem index, Option.getD_some,
    Nat.add_mul, Nat.add_assoc]
  congr 3
  rw [clusterSize, Nat.mul_comm bpb.sectorsPerCluster.toNat, Nat.mod_mul, Nat.add_comm,
    Nat.mul_comm]

end Contents

/-! ## What `read_file` computes -/

section Sectors

variable {bpb : Bpb} {c : Nat}

theorem nextDataSector_eq_mod (hc : 2 ≤ c) :
    nextDataSector bpb c =
      ((c - 2) * bpb.sectorsPerCluster.toNat + firstDataSector bpb) % 2 ^ 16 := by
  have cast : ((c : Int) - 2) = ((c - 2 : Nat) : Int) := by omega
  unfold nextDataSector
  rw [cast, ← Int.natCast_mul, ← Int.natCast_add]
  omega

/-- Both data sectors, up to the truncation of the size of the root directory. -/
theorem nextDataSector_add (hc : 2 ≤ c) :
    (nextDataSector bpb c + 128 * (bpb.numOfDirectoryEntries.toNat / 2048)) % 2 ^ 16 =
      firstSector bpb c % 2 ^ 16 := by
  rw [nextDataSector_eq_mod hc]
  unfold firstSector firstDataSector divCeil DIRECTORY_ENTRY_SIZE BYTES_PER_SECTOR
  rw [Nat.mul_comm bpb.sectorsPerFat.toNat]
  generalize (c - 2) * bpb.sectorsPerCluster.toNat = a
  generalize bpb.numOfFats.toNat * bpb.sectorsPerFat.toNat = f
  generalize bpb.numOfDirectoryEntries.toNat = e
  dsimp only
  split <;> split <;> omega

theorem nextDataSector_of_small (hc : 2 ≤ c) (small : bpb.numOfDirectoryEntries.toNat < 2048) :
    nextDataSector bpb c = firstSector bpb c % 2 ^ 16 := by
  have added : (nextDataSector bpb c + 128 * (bpb.numOfDirectoryEntries.toNat / 2048)) % 2 ^ 16 =
      firstSector bpb c % 2 ^ 16 := nextDataSector_add hc
  have bound : nextDataSector bpb c < 2 ^ 16 := by
    rw [nextDataSector_eq_mod hc]
    exact Nat.mod_lt _ (by decide)
  rw [Nat.div_eq_of_lt small, Nat.mul_zero, Nat.add_zero, Nat.mod_eq_of_lt bound] at added
  exact added

theorem small_of_nextDataSector (hc : 2 ≤ c) (eq : nextDataSector bpb c = firstSector bpb c) :
    bpb.numOfDirectoryEntries.toNat < 2048 := by
  have added : (nextDataSector bpb c + 128 * (bpb.numOfDirectoryEntries.toNat / 2048)) % 2 ^ 16 =
      firstSector bpb c % 2 ^ 16 := nextDataSector_add hc
  have := bpb.numOfDirectoryEntries.toNat_lt
  rw [← eq] at added
  omega

end Sectors

section Clusters

variable {bpb : Bpb} {disk : Disk} {r : Reader}

/-- The FAT window holds the two sectors from `loadedFatSector` on, or has not been
loaded. -/
def Reader.WindowOk (disk : Disk) (r : Reader) : Prop :=
  r.loadedFatSector = 0 ∨
    ∀ o, o < 2 * BYTES_PER_SECTOR → r.fat o = disk (r.loadedFatSector * BYTES_PER_SECTOR + o)

/-- The FAT window after the first part of the loop body. -/
theorem Reader.window_step (reserved : 1 ≤ bpb.numOfReservedSectors.toNat)
    (ok : r.WindowOk disk) :
    (r.step bpb disk).loadedFatSector ≠ 0 ∧ (r.step bpb disk).WindowOk disk := by
  refine ⟨?_, Or.inr fun o ho => ?_⟩
  · exact Nat.ne_of_gt (Nat.add_pos_left reserved _)
  · show (if bpb.numOfReservedSectors.toNat + (r.cluster + r.cluster / 2) / BYTES_PER_SECTOR ≠
        r.loadedFatSector then readFloppy disk r.fat 0 _ 2 else r.fat) o = _
    split
    · rw [readFloppy, if_pos ⟨Nat.zero_le o, by omega⟩]
      rfl
    · next kept =>
        have kept := not_not.mp kept
        rcases ok with zero | loaded
        · rw [zero] at kept
          exact absurd kept (Nat.ne_of_gt (Nat.add_pos_left reserved _))
        · rw [loaded o ho, ← kept]
          rfl

/-- The next cluster is the entry of the FAT, if the window holds the sectors it is
in. -/
theorem Reader.cluster_of_window
    (window : ∀ o, o < 2 * BYTES_PER_SECTOR → (r.step bpb disk).fat o =
      disk ((r.step bpb disk).loadedFatSector * BYTES_PER_SECTOR + o)) :
    (r.step bpb disk).cluster = fatEntry bpb disk r.cluster := by
  have inWindow : ∀ o, o < 2 → (r.step bpb disk).fat
      ((r.cluster + r.cluster / 2) % BYTES_PER_SECTOR + o) =
      disk (bpb.numOfReservedSectors.toNat * BYTES_PER_SECTOR + (r.cluster + r.cluster / 2) + o) := by
    intro o ho
    have position : (bpb.numOfReservedSectors.toNat +
        (r.cluster + r.cluster / 2) / BYTES_PER_SECTOR) * BYTES_PER_SECTOR +
        ((r.cluster + r.cluster / 2) % BYTES_PER_SECTOR + o) =
        bpb.numOfReservedSectors.toNat * BYTES_PER_SECTOR + (r.cluster + r.cluster / 2) + o := by
      unfold BYTES_PER_SECTOR
      omega
    rw [← position]
    exact window _ (by unfold BYTES_PER_SECTOR; omega)
  have value : (readU16 (r.step bpb disk).fat
      ((r.cluster + r.cluster / 2) % BYTES_PER_SECTOR)).toNat =
      (disk (bpb.numOfReservedSectors.toNat * BYTES_PER_SECTOR +
        (r.cluster + r.cluster / 2))).toNat +
      256 * (disk (bpb.numOfReservedSectors.toNat * BYTES_PER_SECTOR +
        (r.cluster + r.cluster / 2) + 1)).toNat := by
    rw [readU16_toNat, inWindow 1 (by omega)]
    congr 2
    simpa using inWindow 0 (by omega)
  show (if r.cluster % 2 = 1 then (readU16 (r.step bpb disk).fat
      ((r.cluster + r.cluster / 2) % BYTES_PER_SECTOR)).toNat / 16
    else (readU16 (r.step bpb disk).fat
      ((r.cluster + r.cluster / 2) % BYTES_PER_SECTOR)).toNat % 0x1000) = _
  rw [value, fatEntry]
  by_cases odd : r.cluster % 2 = 1
  · have offset : r.cluster + r.cluster / 2 = 3 * (r.cluster / 2) + 1 := by omega
    rw [if_pos odd, if_neg (by omega), offset, ← Nat.add_assoc, Nat.add_assoc _ 1 1]
    omega
  · have offset : r.cluster + r.cluster / 2 = 3 * (r.cluster / 2) := by omega
    rw [if_neg odd, if_pos (by omega), offset]
    have := (disk (bpb.numOfReservedSectors.toNat * BYTES_PER_SECTOR +
      3 * (r.cluster / 2))).toNat_lt
    omega

theorem Reader.cluster_step (reserved : 1 ≤ bpb.numOfReservedSectors.toNat)
    (ok : r.WindowOk disk) : (r.step bpb disk).cluster = fatEntry bpb disk r.cluster := by
  obtain ⟨loaded, zero | window⟩ := Reader.window_step reserved ok
  · exact absurd zero loaded
  · exact Reader.cluster_of_window window

/-- The bytes of a buffer, and what follows them in its pages: these are the pages that
`alloc` maps for it. -/
theorem backs_iff_bufferRoom {s s' : Alloc.State Pma.State Vma.State} {live : List Alloc.Block}
    {b : Alloc.Block} {size : UInt32} (intact : Alloc.Intact s live)
    (allocated : Alloc.alloc Alloc.kernelSuppliers size.toNat 1 .READ_WRITE s = .ok (some b, s'))
    {x : Nat} (behindHeader : b.pointer ≤ x) :
    b.Backs s' x ↔ x < b.pointer + bufferRoom size.toNat 0 := by
  have small := size.toNat_lt
  have header : Alloc.paddedHeaderSize 1 = 16 := by decide
  obtain ⟨alignment, returned⟩ := Alloc.alloc_returned intact allocated
  have pointer := returned.pointer
  have pages := returned.size
  have below := returned.below
  have whole := returned.whole (by rw [alignment, header]; unfold PAGE_SIZE; omega)
  rw [alignment, header] at pointer whole
  rw [alignment] at pages
  have noWrap : b.base + 16 < 2 ^ 64 := by
    have pages := whole.1
    unfold PAGE_SIZE at pages
    omega
  rw [add64_eq noWrap] at pointer
  rw [returned.backs_iff, whole.1, bufferRoom, header, ← pages]
  omega

theorem bufferRoom_le (size behind : Nat) : bufferRoom size 0 ≤ bufferRoom size behind :=
  Nat.add_le_add_left (Nat.zero_le behind) _

/-- A copy that completes stays inside the mapped bytes. -/
theorem copySector_eq_ok_iff {size behind offset : Nat} :
    copySector size behind offset = .ok () ↔
      size ≠ 0 ∧ offset + BYTES_PER_SECTOR ≤ bufferRoom size behind := by
  unfold copySector
  split
  · next empty => exact iff_of_false nofun fun ok => ok.1 empty
  · next nonempty =>
      split
      · next outside => exact iff_of_false nofun fun ok => Nat.not_le.mpr outside ok.2
      · next inside => exact iff_of_true rfl ⟨nonempty, Nat.not_lt.mp inside⟩

/-- A round goes on to the next cluster of the chain. -/
theorem Reader.step_chain (wf : WellFormed bpb) (ok : r.WindowOk disk) {c : Nat} {rest : List Nat}
    (isChain : IsChain bpb disk r.cluster (c :: rest)) :
    r.cluster = c ∧ r.cluster < 0xFF8 ∧ (r.step bpb disk).WindowOk disk ∧
      IsChain bpb disk (r.step bpb disk).cluster rest := by
  obtain ⟨rfl, -, inData, -, tail⟩ := isChain
  refine ⟨rfl, inData, (Reader.window_step wf.reserved ok).2, ?_⟩
  rw [Reader.cluster_step wf.reserved ok]
  exact tail

/-- The loop puts one sector of each cluster of the chain into the buffer, if there is
room for them. -/
theorem readClusters_spec (wf : WellFormed bpb) {size behind : Nat} (nonempty : size ≠ 0)
    {chain : List Nat} {fuel : Nat} (enough : chain.length ≤ fuel) (ok : r.WindowOk disk)
    (isChain : IsChain bpb disk r.cluster chain)
    (room : r.offset + chain.length * BYTES_PER_SECTOR ≤ bufferRoom size behind) :
    ∃ r', readClusters bpb disk size behind fuel r = .ok r' ∧ ∀ x, r'.buffer x =
      if r.offset ≤ x then
        match chain[(x - r.offset) / BYTES_PER_SECTOR]? with
        | some c => disk (nextDataSector bpb c * BYTES_PER_SECTOR +
            (x - r.offset) % BYTES_PER_SECTOR)
        | none => r.buffer x
      else r.buffer x := by
  induction chain generalizing r fuel with
  | nil =>
      refine ⟨r, ?_, fun x => ?_⟩
      · have atEnd : ¬ r.cluster < 0xFF8 := Nat.not_lt.mpr isChain
        cases fuel with
        | zero => rw [readClusters, if_neg atEnd]
        | succ fuel => rw [readClusters, if_neg atEnd]
      · simp
  | cons c rest ih =>
      obtain ⟨rfl, inData, ok', next⟩ := Reader.step_chain wf ok isChain
      cases fuel with
      | zero => simp at enough
      | succ fuel =>
          have offset : (r.step bpb disk).offset = r.offset + BYTES_PER_SECTOR := rfl
          rw [List.length_cons, Nat.succ_mul] at room
          have copied : copySector size behind r.offset = .ok () :=
            copySector_eq_ok_iff.mpr ⟨nonempty, by omega⟩
          obtain ⟨r', result, bytes⟩ := ih (by simpa using enough) ok' next (by omega)
          refine ⟨r', ?_, fun x => ?_⟩
          · rw [readClusters, if_pos inData, copied, ok_bind]
            exact result
          · have buffer : (r.step bpb disk).buffer x =
                if r.offset ≤ x ∧ x < r.offset + 1 * BYTES_PER_SECTOR then
                  disk (nextDataSector bpb r.cluster * BYTES_PER_SECTOR + (x - r.offset))
                else r.buffer x := rfl
            rw [bytes x, offset, buffer, Nat.one_mul]
            by_cases before : x < r.offset
            · rw [if_neg (by omega), if_neg (by omega), if_neg (by omega)]
            · rw [if_pos (Nat.not_lt.mp before)]
              by_cases here : x < r.offset + BYTES_PER_SECTOR
              · have first : (x - r.offset) / BYTES_PER_SECTOR = 0 := Nat.div_eq_of_lt (by omega)
                rw [if_neg (by omega), if_pos ⟨Nat.not_lt.mp before, here⟩, first,
                  Nat.mod_eq_of_lt (by omega)]
                rfl
              · have later : (x - r.offset) / BYTES_PER_SECTOR =
                    (x - (r.offset + BYTES_PER_SECTOR)) / BYTES_PER_SECTOR + 1 := by
                  unfold BYTES_PER_SECTOR at *
                  omega
                have same : (x - r.offset) % BYTES_PER_SECTOR =
                    (x - (r.offset + BYTES_PER_SECTOR)) % BYTES_PER_SECTOR := by
                  unfold BYTES_PER_SECTOR at *
                  omega
                rw [if_pos (Nat.not_lt.mp here), if_neg fun h => here h.2, later, same,
                  List.getElem?_cons_succ]

/-- A loop that completes had room for all of the chain. -/
theorem room_of_readClusters (wf : WellFormed bpb) {size behind : Nat} {chain : List Nat}
    {fuel : Nat} {r' : Reader} (ok : r.WindowOk disk) (isChain : IsChain bpb disk r.cluster chain)
    (start : r.offset ≤ bufferRoom size behind)
    (result : readClusters bpb disk size behind fuel r = .ok r') :
    r.offset + chain.length * BYTES_PER_SECTOR ≤ bufferRoom size behind := by
  induction chain generalizing r fuel with
  | nil => simpa using start
  | cons c rest ih =>
      obtain ⟨rfl, inData, ok', next⟩ := Reader.step_chain wf ok isChain
      cases fuel with
      | zero =>
          rw [readClusters, if_pos inData] at result
          cases result
      | succ fuel =>
          rw [readClusters, if_pos inData] at result
          obtain ⟨_, copied, later⟩ := bind_eq_ok result
          have offset : (r.step bpb disk).offset = r.offset + BYTES_PER_SECTOR := rfl
          have inside := (copySector_eq_ok_iff.mp copied).2
          have room := ih ok' next (by omega) later
          rw [List.length_cons, Nat.succ_mul]
          omega

/-- The loop ends: with the chain, or with a copy that leaves the mapped bytes. -/
theorem readClusters_ne_hang {size behind fuel : Nat}
    (enough : bufferRoom size behind < r.offset + fuel * BYTES_PER_SECTOR) (pos : fuel ≠ 0) :
    readClusters bpb disk size behind fuel r ≠ .error .hang := by
  induction fuel generalizing r with
  | zero => exact absurd rfl pos
  | succ fuel ih =>
      rw [readClusters]
      split
      · cases copied : copySector size behind r.offset with
        | error e =>
            unfold copySector at copied
            split at copied
            · cases copied
              exact nofun
            · split at copied <;> cases copied
              exact nofun
        | ok done =>
            have offset : (r.step bpb disk).offset = r.offset + BYTES_PER_SECTOR := rfl
            have inside := (copySector_eq_ok_iff.mp copied).2
            rw [Nat.succ_mul] at enough
            rw [ok_bind]
            refine ih (by omega) ?_
            rintro rfl
            omega
      · exact nofun

end Clusters

/-! ## Which files are read correctly -/

section Reading

variable {fs : FileSystem} {disk : Disk} {path : List UInt8} {entry : DirectoryEntry}
  {chain : List Nat}

/-- `read_file` returns a buffer that starts with the contents of the file,
whatever memory held before and wherever the pages of the buffer are. -/
def ReadsFile (fs : FileSystem) (disk : Disk) (path : List UInt8) (entry : DirectoryEntry)
    (chain : List Nat) : Prop :=
  ∀ fat memory behind, ∃ buffer, readFile fs disk fat memory behind path = .ok (some buffer) ∧
    ∀ x, x < entry.size.toNat → (contents fs.bpb disk chain)[x]? = some (buffer x)

theorem IsChain.mem_range {bpb : Bpb} {first c : Nat} (isChain : IsChain bpb disk first chain)
    (mem : c ∈ chain) : 2 ≤ c ∧ c < 0xFF8 := by
  induction chain generalizing first with
  | nil => exact absurd mem List.not_mem_nil
  | cons d rest ih =>
      obtain ⟨rfl, two, lt, -, tail⟩ := isChain
      rcases List.mem_cons.mp mem with rfl | later
      · exact ⟨two, lt⟩
      · exact ih tail later

/-- Different clusters below a bound are at most as many. -/
theorem length_le_of_nodup {n : Nat} (acyclic : chain.Nodup) (below : ∀ c ∈ chain, c < n) :
    chain.length ≤ n := by
  have inside : chain.toFinset ⊆ Finset.range n := fun c mem =>
    Finset.mem_range.mpr (below c (List.mem_toFinset.mp mem))
  have card := Finset.card_le_card inside
  rwa [List.toFinset_card_of_nodup acyclic, Finset.card_range] at card

/-- The chain is stored in front of the first cluster. -/
theorem IsChain.of_sameMetadata {bpb : Bpb} (wf : WellFormed bpb) {disk' : Disk} {first : Nat}
    (same : SameMetadata bpb disk disk') (isChain : IsChain bpb disk first chain) :
    IsChain bpb disk' first chain := by
  induction chain generalizing first with
  | nil => exact isChain
  | cons c rest ih =>
      obtain ⟨rfl, two, lt, inFat, tail⟩ := isChain
      have fats : bpb.sectorsPerFat.toNat ≤ bpb.numOfFats.toNat * bpb.sectorsPerFat.toNat :=
        Nat.le_mul_of_pos_left _ wf.fats
      have agree : ∀ o, o ≤ first + first / 2 + 1 →
          disk' (bpb.numOfReservedSectors.toNat * BYTES_PER_SECTOR + o) =
            disk (bpb.numOfReservedSectors.toNat * BYTES_PER_SECTOR + o) := by
        intro o ho
        refine same _ ?_
        unfold firstSector BYTES_PER_SECTOR at *
        omega
      have entry : fatEntry bpb disk' first = fatEntry bpb disk first := by
        unfold fatEntry
        dsimp only
        split
        · next even =>
            rw [agree _ (by omega), Nat.add_assoc, agree _ (by omega)]
        · next odd =>
            rw [Nat.add_assoc, Nat.add_assoc, agree _ (by omega), agree _ (by omega)]
      exact ⟨rfl, two, lt, inFat, ih (entry ▸ tail)⟩

/-- What `read_file` returns for a file that is not empty, if there is room for its
chain. -/
theorem readFile_spec (wf : WellFormed fs.bpb) (found : resolvePath fs path = .ok (some entry))
    (isChain : IsChain fs.bpb disk entry.clusterNumLo.toNat chain)
    (nonempty : entry.size.toNat ≠ 0) {behind : Nat}
    (room : chain.length * BYTES_PER_SECTOR ≤ bufferRoom entry.size.toNat behind)
    (fat memory : Nat → UInt8) :
    ∃ buffer, readFile fs disk fat memory behind path = .ok (some buffer) ∧ ∀ x, buffer x =
      match chain[x / BYTES_PER_SECTOR]? with
      | some c => disk (nextDataSector fs.bpb c * BYTES_PER_SECTOR + x % BYTES_PER_SECTOR)
      | none => memory x := by
  have start : Reader.WindowOk disk ⟨0, entry.clusterNumLo.toNat, 0, fat, memory⟩ := Or.inl rfl
  have enough : chain.length ≤ maxClusters entry.size.toNat behind :=
    Nat.le_succ_of_le ((Nat.le_div_iff_mul_le (by decide)).mpr room)
  obtain ⟨r, result, bytes⟩ := readClusters_spec wf nonempty enough start isChain
    (by simpa using room)
  have size : entry.size ≠ 0 := fun zero => nonempty (by rw [zero]; rfl)
  refine ⟨r.buffer, ?_, fun x => ?_⟩
  · unfold readFile
    rw [found, ok_bind]
    dsimp only
    rw [result, ok_bind, if_neg size]
    rfl
  · rw [bytes x, if_pos (Nat.zero_le x), Nat.sub_zero]

theorem readFile_empty (found : resolvePath fs path = .ok (some entry))
    (empty : entry.size.toNat = 0) (fat memory buffer : Nat → UInt8) (behind : Nat) :
    readFile fs disk fat memory behind path ≠ .ok (some buffer) := by
  have zero : entry.size = 0 := UInt32.toNat_inj.mp empty
  intro returned
  unfold readFile at returned
  rw [found, ok_bind] at returned
  dsimp only at returned
  obtain ⟨r, -, returned⟩ := bind_eq_ok returned
  rw [if_pos zero] at returned
  cases returned

/-- A file that `read_file` returns has room for its chain. -/
theorem room_of_readFile (wf : WellFormed fs.bpb) (found : resolvePath fs path = .ok (some entry))
    (isChain : IsChain fs.bpb disk entry.clusterNumLo.toNat chain) {behind : Nat}
    {fat memory buffer : Nat → UInt8}
    (returned : readFile fs disk fat memory behind path = .ok (some buffer)) :
    chain.length * BYTES_PER_SECTOR ≤ bufferRoom entry.size.toNat behind := by
  unfold readFile at returned
  rw [found, ok_bind] at returned
  dsimp only at returned
  obtain ⟨r, result, -⟩ := bind_eq_ok returned
  have start : Reader.WindowOk disk ⟨0, entry.clusterNumLo.toNat, 0, fat, memory⟩ := Or.inl rfl
  simpa using room_of_readClusters wf start isChain (Nat.zero_le _) result

/-- Every call ends, also for a chain that never does. -/
theorem readFile_ne_hang (found : resolvePath fs path = .ok (some entry))
    (fat memory : Nat → UInt8) (behind : Nat) :
    readFile fs disk fat memory behind path ≠ .error .hang := by
  have enough : bufferRoom entry.size.toNat behind <
      0 + maxClusters entry.size.toNat behind * BYTES_PER_SECTOR := by
    unfold maxClusters BYTES_PER_SECTOR
    omega
  have ends : readClusters fs.bpb disk entry.size.toNat behind
      (maxClusters entry.size.toNat behind) ⟨0, entry.clusterNumLo.toNat, 0, fat, memory⟩ ≠
        .error .hang :=
    readClusters_ne_hang enough (Nat.succ_ne_zero _)
  unfold readFile
  rw [found, ok_bind]
  dsimp only
  cases result : readClusters fs.bpb disk entry.size.toNat behind
      (maxClusters entry.size.toNat behind) ⟨0, entry.clusterNumLo.toNat, 0, fat, memory⟩ with
  | error e =>
      rw [result] at ends
      intro hang
      exact ends (congrArg Except.error (Except.error.inj hang))
  | ok r => exact nofun

/-- The pages of the buffer have room for a sector of each cluster of the chain. For
each 512 bytes of the file there is a cluster whose first sector, as a 16-bit number,
is the sector that holds these bytes; and the size of the root directory fits 16 bits. -/
structure SectorsFit (bpb : Bpb) (chain : List Nat) (size : Nat) : Prop where
  nonempty : 0 < size
  room : chain.length * BYTES_PER_SECTOR ≤ bufferRoom size 0
  rootDirectory : bpb.numOfDirectoryEntries.toNat < 2048
  sectors : ∀ j, j * BYTES_PER_SECTOR < size →
    ∃ c, chain[j]? = some c ∧ firstSector bpb c % 2 ^ 16 = fileSector bpb chain j

theorem SectorsFit.readsFile {disk : Disk} (fit : SectorsFit fs.bpb chain entry.size.toNat)
    (wf : WellFormed fs.bpb) (found : resolvePath fs path = .ok (some entry))
    (isChain : IsChain fs.bpb disk entry.clusterNumLo.toNat chain)
    (covers : entry.size.toNat ≤ chain.length * clusterSize fs.bpb) :
    ReadsFile fs disk path entry chain := by
  intro fat memory behind
  have room : chain.length * BYTES_PER_SECTOR ≤ bufferRoom entry.size.toNat behind :=
    Nat.le_trans fit.room (bufferRoom_le _ behind)
  obtain ⟨buffer, result, bytes⟩ := readFile_spec wf found isChain
    (Nat.ne_of_gt fit.nonempty) room fat memory
  refine ⟨buffer, result, fun x hx => ?_⟩
  have position : x / BYTES_PER_SECTOR * BYTES_PER_SECTOR < entry.size.toNat :=
    Nat.lt_of_le_of_lt (Nat.div_mul_le_self x _) hx
  obtain ⟨c, at_, sector⟩ := fit.sectors (x / BYTES_PER_SECTOR) position
  have two := (isChain.mem_range (List.mem_of_getElem? at_)).1
  rw [contents_sector wf (Nat.lt_of_lt_of_le hx covers), bytes x, at_, ← sector,
    ← nextDataSector_of_small two fit.rootDirectory]

/-- The disk with another byte at one position. -/
def flipByte (disk : Disk) (pos : Nat) : Disk := Function.update disk pos (disk pos + 1)

theorem flipByte_self_ne (disk : Disk) (pos : Nat) : flipByte disk pos pos ≠ disk pos := by
  have bound := (disk pos).toNat_lt
  rw [flipByte, Function.update_self]
  intro same
  have bytes := congrArg UInt8.toNat same
  simp only [UInt8.toNat_add, UInt8.toNat_one] at bytes
  omega

theorem flipByte_of_ne (disk : Disk) {pos p : Nat} (ne : p ≠ pos) :
    flipByte disk pos p = disk p := Function.update_of_ne ne _ _

/-- A file of which `read_file` returns the right `j`-th 512 bytes for all contents
of the clusters: the sector it reads is the one that holds them. -/
theorem ReadsFile.sector (reads : ∀ disk', SameMetadata fs.bpb disk disk' →
      ReadsFile fs disk' path entry chain)
    (wf : WellFormed fs.bpb) (found : resolvePath fs path = .ok (some entry))
    (isChain : IsChain fs.bpb disk entry.clusterNumLo.toNat chain)
    (covers : entry.size.toNat ≤ chain.length * clusterSize fs.bpb) {j : Nat}
    (hj : j * BYTES_PER_SECTOR < entry.size.toNat) :
    ∃ c, chain[j]? = some c ∧ nextDataSector fs.bpb c = fileSector fs.bpb chain j := by
  have sectorPos : 0 < BYTES_PER_SECTOR := by decide
  have div : j * BYTES_PER_SECTOR / BYTES_PER_SECTOR = j := Nat.mul_div_cancel j sectorPos
  have mod : j * BYTES_PER_SECTOR % BYTES_PER_SECTOR = 0 := Nat.mul_mod_left j _
  have inData : firstSector fs.bpb 2 ≤ fileSector fs.bpb chain j := by
    unfold fileSector firstSector
    omega
  have same : SameMetadata fs.bpb disk
      (flipByte disk (fileSector fs.bpb chain j * BYTES_PER_SECTOR)) := by
    intro p hp
    have := Nat.mul_le_mul_right BYTES_PER_SECTOR inData
    exact flipByte_of_ne disk (by omega)
  have value : ∀ d, SameMetadata fs.bpb disk d →
      d (fileSector fs.bpb chain j * BYTES_PER_SECTOR) =
      match chain[j]? with
      | some c => d (nextDataSector fs.bpb c * BYTES_PER_SECTOR)
      | none => 0 := by
    intro d agree
    obtain ⟨buffer, returned, right⟩ := reads d agree (fun _ => 0) (fun _ => 0) 0
    have nonempty : entry.size.toNat ≠ 0 := by omega
    have isChain' := isChain.of_sameMetadata wf agree
    obtain ⟨buffer', returned', bytes⟩ := readFile_spec wf found isChain' nonempty
      (room_of_readFile wf found isChain' returned) (fun _ => 0) (fun _ => 0)
    rw [returned'] at returned
    cases returned
    have atPosition := right _ hj
    rw [contents_sector wf (Nat.lt_of_lt_of_le hj covers), bytes, div, mod] at atPosition
    simpa only [Nat.add_zero, Option.some.injEq] using atPosition
  -- the byte in question has another value on the second disk
  have first := value disk fun _ _ => rfl
  have second := value _ same
  have changed := flipByte_self_ne disk (fileSector fs.bpb chain j * BYTES_PER_SECTOR)
  cases at_ : chain[j]? with
  | none =>
      rw [at_] at first second
      exact absurd (second.trans first.symm) changed
  | some c =>
      rw [at_] at first second
      refine ⟨c, rfl, ?_⟩
      by_contra other
      have elsewhere := flipByte_of_ne disk fun eq =>
        other (Nat.eq_of_mul_eq_mul_right sectorPos eq)
      exact changed (second.trans (elsewhere.trans first.symm))

/-- With one sector in a cluster, only the chain can be too long for the buffer and the
sector numbers too large. -/
theorem sectorsFit_iff_of_one {bpb : Bpb} {size : Nat} (one : bpb.sectorsPerCluster.toNat = 1)
    (covers : size ≤ chain.length * clusterSize bpb) :
    SectorsFit bpb chain size ↔ 0 < size ∧
      chain.length * BYTES_PER_SECTOR ≤ bufferRoom size 0 ∧
      bpb.numOfDirectoryEntries.toNat < 2048 ∧
      ∀ j c, j * BYTES_PER_SECTOR < size → chain[j]? = some c → firstSector bpb c < 2 ^ 16 := by
  have sector : ∀ j c, chain[j]? = some c → fileSector bpb chain j = firstSector bpb c := by
    intro j c at_
    rw [fileSector, one, Nat.div_one, Nat.mod_one, List.getD_eq_getElem?_getD, at_]
    rfl
  constructor
  · rintro ⟨nonempty, room, small, sectors⟩
    refine ⟨nonempty, room, small, fun j c hj at_ => ?_⟩
    obtain ⟨c', at', eq⟩ := sectors j hj
    rw [at_] at at'
    cases at'
    rw [sector j c at_] at eq
    exact eq ▸ Nat.mod_lt _ (by decide)
  · rintro ⟨nonempty, room, small, sectors⟩
    refine ⟨nonempty, room, small, fun j hj => ?_⟩
    have index : j < chain.length := by
      rw [clusterSize, one, Nat.one_mul] at covers
      exact Nat.lt_of_mul_lt_mul_right (Nat.lt_of_lt_of_le hj covers)
    have at_ := List.getElem?_eq_getElem index
    refine ⟨chain[j], at_, ?_⟩
    rw [sector j _ at_, Nat.mod_eq_of_lt (sectors j _ hj at_)]

/-- For a chain that is as long as the file needs, the last sector has no room if the
file ends in the last of the eight sectors of a page, but not in the bytes that the
header pushes to another page. -/
theorem room_iff_of_tight {size : Nat} (small : size < 2 ^ 32)
    (tight : chain.length = divCeil size BYTES_PER_SECTOR) :
    chain.length * BYTES_PER_SECTOR ≤ bufferRoom size 0 ↔
      ¬ (3584 < size % 4096 ∧ size % 4096 ≤ 4080) := by
  have header : Alloc.paddedHeaderSize 1 = 16 := by decide
  have pages : Alloc.sizeWithHeader size 1 = (size + 16 + 4095) / 4096 * 4096 := by
    rw [Alloc.sizeWithHeader, header, add64_eq (by omega),
      Alloc.alignTo_page_eq (by unfold PAGE_SIZE; omega)]
  rw [tight, bufferRoom, pages, header]
  unfold divCeil BYTES_PER_SECTOR
  split <;> omega

/-- With an even number of sectors in a cluster, at most one sector is read
correctly. -/
theorem SectorsFit.le_of_even {bpb : Bpb} {size : Nat} (fit : SectorsFit bpb chain size)
    (even : bpb.sectorsPerCluster.toNat % 2 = 0) (one : 1 ≤ bpb.sectorsPerCluster.toNat) :
    size ≤ BYTES_PER_SECTOR := by
  by_contra more
  obtain ⟨c, -, sector⟩ := fit.sectors 1 (by omega)
  have within : 1 / bpb.sectorsPerCluster.toNat = 0 ∧ 1 % bpb.sectorsPerCluster.toNat = 1 :=
    ⟨Nat.div_eq_of_lt (by omega), Nat.mod_eq_of_lt (by omega)⟩
  have parity : ∀ c, firstSector bpb c % 2 = firstSector bpb 2 % 2 := by
    intro c
    have product : (c - 2) * bpb.sectorsPerCluster.toNat % 2 = 0 := by
      rw [Nat.mul_mod, even, Nat.mul_zero, Nat.zero_mod]
    unfold firstSector
    omega
  rw [fileSector, within.1, within.2] at sector
  have left := parity c
  have right := parity (chain.getD 0 0)
  omega

end Reading

/-! ## A small volume -/

/-- One reserved sector, one FAT sector and one sector of root directory, with the
file `A` of 1024 bytes in clusters 2 and 3. Every byte behind has the number of its
sector as its value. -/
def sampleDisk (sectorsPerCluster : UInt8) : Disk := fun p =>
  if p < 1536 then
    (List.lookup p ([(12, 2), (13, sectorsPerCluster), (14, 1), (16, 1), (17, 16), (22, 1),
      (515, 0x03), (516, 0xF0), (517, 0xFF), (1024, 0x41), (1050, 2), (1053, 4)] ++
      (List.range' 1025 10).map fun p => (p, 0x20))).getD 0
  else UInt8.ofNat (p / 512)

def sampleEntry : DirectoryEntry :=
  ⟨[0x41, 0x20, 0x20, 0x20, 0x20, 0x20, 0x20, 0x20, 0x20, 0x20, 0x20], 0, 2, 1024⟩

/-- The volume is mounted, and the file is found with its chain. -/
theorem sample_mounted (sectorsPerCluster : UInt8)
    (one_or_two : sectorsPerCluster = 1 ∨ sectorsPerCluster = 2) :
    ∃ fs, mount (sampleDisk sectorsPerCluster) (fun _ => 0) = .ok fs ∧
      fs.bpb = ⟨512, sectorsPerCluster, 1, 1, 16, 1⟩ ∧
      resolvePath fs [0x2F, 0x41] = .ok (some sampleEntry) := by
  have evaluated : completesWith (mount (sampleDisk sectorsPerCluster) fun _ => 0) (fun fs =>
      fs.bpb == ⟨512, sectorsPerCluster, 1, 1, 16, 1⟩ &&
      completesWith (resolvePath fs [0x2F, 0x41]) (· == some sampleEntry)) = true := by
    rcases one_or_two with rfl | rfl <;> decide +kernel
  obtain ⟨fs, mounted, tests⟩ := exists_of_completesWith evaluated
  obtain ⟨bpb, resolved⟩ := Bool.and_eq_true_iff.mp tests
  obtain ⟨entry, found, same⟩ := exists_of_completesWith resolved
  rw [beq_iff_eq] at bpb same
  exact ⟨fs, mounted, bpb, same ▸ found⟩

theorem sample_isChain (sectorsPerCluster : UInt8)
    (one_or_two : sectorsPerCluster = 1 ∨ sectorsPerCluster = 2) :
    IsChain ⟨512, sectorsPerCluster, 1, 1, 16, 1⟩ (sampleDisk sectorsPerCluster) 2 [2, 3] := by
  rcases one_or_two with rfl | rfl <;> decide +kernel

theorem sample_wellFormed (sectorsPerCluster : UInt8)
    (one_or_two : sectorsPerCluster = 1 ∨ sectorsPerCluster = 2) :
    WellFormed ⟨512, sectorsPerCluster, 1, 1, 16, 1⟩ := by
  rcases one_or_two with rfl | rfl <;> exact ⟨rfl, by decide, by decide, by decide⟩

end Tyleros.Fat
