import Tyleros.Boot.Agreement

/-!
# The kernel's image in memory

`read_kernel_from_filesystem` with the memory it leaves behind. On a 1.44M disk whose first file
is `KERNEL`, within the first 256 sectors, the contents of the file are at `kernel_load_start`,
cluster by cluster, and memory below the tables of the loader is as it was (`readKernel_stored`).
-/

namespace Tyleros.Boot

open Fat

/-- `read_kernel_from_filesystem` with memory. -/
def readKernelWithMemory (disk : Disk) (fuel : Nat) (a : Arena) :
    Except Stop (KernelImage × Memory) := do
  let b := BootSector.ofDisk disk
  let (rootDirTable, fatTable, a) ← readTables b disk a
  let _ ← checkEntryName a.mem rootDirTable 2048 0
  let bx := rootDirTable.toUInt16
  let kernelLoadSize := readU32 a.mem (bx + 0x1C).toNat
  let (kernelLoadStart, a) ← allocatePages ((kernelLoadSize >>> 12 + 1).toUInt16) a
  let (sectors, l) ← readClusters b disk fatTable fuel
    ⟨a.mem, readU16 a.mem (bx + 0x1A).toNat, kernelLoadStart⟩
  return (⟨sectors, kernelLoadStart, l.kernelLoadEnd, kernelLoadSize⟩, l.mem)

theorem fst_readKernelWithMemory (disk : Disk) (fuel : Nat) (a : Arena) :
    Prod.fst <$> readKernelWithMemory disk fuel a = readKernelFromFilesystem disk fuel a := by
  unfold readKernelWithMemory readKernelFromFilesystem
  simp only [map_bind, map_pure]

/-! ## The sectors of a chain, one behind the other -/

section Clusters

variable {disk : Disk} {fat : Nat → UInt8} {fatTable : UInt32} {l l' : Loading} {sector : Nat}

/-- Memory after one round. -/
theorem readCluster_mem (image : Image1440 disk) (below : l.kernelLoadEnd.toNat < 2 ^ 20)
    (done : readCluster (BootSector.ofDisk disk) disk fatTable l = .ok (sector, l')) :
    l'.mem = stored disk l.mem l.kernelLoadEnd.toNat sector := by
  have track : (BootSector.ofDisk disk).sectorsPerTrack = 18 := image.sectorsPerTrack
  have heads : (BootSector.ofDisk disk).numberOfHeads = 2 := image.numberOfHeads
  rw [readCluster, track, heads, readFloppySector_spec _ below, ok_bind] at done
  cases done
  rfl

/-- Bytes of the disk from `start` on in memory, sector by sector. -/
def laid (disk : Disk) (mem : Memory) (start : Nat) (sectors : List Nat) : Memory := fun x =>
  if start ≤ x ∧ x < start + sectors.length * 512 then
    disk (sectors.getD ((x - start) / 512) 0 * 512 + (x - start) % 512)
  else mem x

theorem laid_stored (disk : Disk) (mem : Memory) (start sector : Nat) (sectors : List Nat) :
    laid disk (stored disk mem start sector) (start + 512) sectors =
      laid disk mem start (sector :: sectors) := by
  funext x
  unfold laid stored
  rw [List.length_cons]
  by_cases first : start ≤ x ∧ x < start + 512
  · have zero : (x - start) / 512 = 0 := by omega
    have rest : (x - start) % 512 = x - start := by omega
    rw [if_neg (by omega), if_pos first, if_pos (by omega), zero, rest]
    rfl
  · by_cases later : start + 512 ≤ x ∧ x < start + 512 + sectors.length * 512
    · have next : (x - start) / 512 = (x - (start + 512)) / 512 + 1 := by omega
      have same : (x - start) % 512 = (x - (start + 512)) % 512 := by omega
      rw [if_pos later, if_pos (by omega), next, same]
      rfl
    · rw [if_neg later, if_neg first, if_neg (by omega)]

/-- The loop lays the sectors of the chain behind each other. -/
theorem readClusters_stored (image : Image1440 disk) {chain : List Nat} {fuel : Nat}
    (sees : l.Sees fat fatTable) (isChain : BootChain fat l.cx.toNat chain)
    (room : l.kernelLoadEnd.toNat + chain.length * 512 ≤ 2 ^ 20) (enough : chain.length ≤ fuel) :
    ∃ l', readClusters (BootSector.ofDisk disk) disk fatTable fuel l =
        .ok (chain.map (fun c => Fat.nextDataSector (Bpb.ofDisk disk) c % 256), l') ∧
      l'.kernelLoadEnd.toNat = l.kernelLoadEnd.toNat + chain.length * 512 ∧
      l'.mem = laid disk l.mem l.kernelLoadEnd.toNat
        (chain.map (fun c => Fat.nextDataSector (Bpb.ofDisk disk) c % 256)) := by
  induction chain generalizing l fuel with
  | nil => cases isChain
  | cons c rest ih =>
      obtain ⟨rfl, links⟩ := isChain
      rw [List.length_cons] at room enough
      obtain ⟨l₁, first, next, sees₁, end₁⟩ := readCluster_spec image sees (by omega)
      have mem₁ := readCluster_mem image (by omega) first
      have below : l₁.cx < 0xFF8 ↔ tableEntry fat l.cx.toNat < 0xFF8 := by
        rw [UInt16.lt_iff_toNat_lt, next]
        rfl
      cases fuel with
      | zero => omega
      | succ fuel =>
          rw [readClusters, first, ok_bind, List.map_cons, List.length_cons]
          dsimp only
          rcases links with ⟨rfl, last⟩ | ⟨more, links⟩
          · rw [if_neg (mt below.mp (Nat.not_lt.mpr last))]
            refine ⟨l₁, rfl, by rw [end₁, List.length_nil], ?_⟩
            rw [← laid_stored, ← mem₁]
            funext x
            exact (if_neg (by rw [List.map_nil, List.length_nil]; omega)).symm
          · obtain ⟨l₂, done, end₂, mem₂⟩ :=
              ih sees₁ (by rwa [next]) (by omega) (Nat.le_of_succ_le_succ enough)
            rw [if_pos (below.mpr more), done, ok_bind]
            refine ⟨l₂, rfl, by omega, ?_⟩
            rw [mem₂, mem₁, end₁, laid_stored]

end Clusters

/-! ## The chain of the first entry -/

section Chain

variable {disk : Disk} {chain : List Nat}

theorem bootFat_of_lt {o : Nat} (inside : o < 9 * 512) :
    bootFat disk o = disk ((Bpb.ofDisk disk).numOfReservedSectors.toNat * 512 + o) := by
  unfold bootFat
  rw [if_pos inside]

/-- Entries inside the first FAT are read from its copy in memory. -/
theorem tableEntry_bootFat {c : Nat} (inside : c + c / 2 + 1 < 9 * 512) :
    tableEntry (bootFat disk) c = fatEntry (Bpb.ofDisk disk) disk c := by
  generalize start : (Bpb.ofDisk disk).numOfReservedSectors.toNat * 512 = base
  have value := readU16_toNat (bootFat disk) (c + c / 2)
  rw [bootFat_of_lt (by omega), bootFat_of_lt inside, start] at value
  have low := (disk (base + (c + c / 2))).toNat_lt
  have high := (disk (base + (c + c / 2 + 1))).toNat_lt
  unfold tableEntry fatEntry BYTES_PER_SECTOR
  dsimp only
  rw [start, value]
  by_cases odd : c % 2 = 1
  · have place : c + c / 2 = 3 * (c / 2) + 1 := by omega
    rw [if_pos odd, if_neg (by omega)]
    rw [place] at low ⊢
    show _ = (disk (base + (3 * (c / 2) + 1))).toNat / 16 +
      16 * (disk (base + (3 * (c / 2) + 1 + 1))).toNat
    omega
  · have place : c + c / 2 = 3 * (c / 2) := by omega
    rw [if_neg odd, if_pos (by omega)]
    rw [place] at low ⊢
    show _ = (disk (base + 3 * (c / 2))).toNat +
      256 * ((disk (base + (3 * (c / 2) + 1))).toNat % 16)
    omega

/-- The loader follows the chain of a file as the file system does. -/
theorem bootChain_of_isChain (image : Image1440 disk) {first : Nat} (nonempty : chain ≠ [])
    (isChain : IsChain (Bpb.ofDisk disk) disk first chain) :
    BootChain (bootFat disk) first chain := by
  induction chain generalizing first with
  | nil => exact absurd rfl nonempty
  | cons c rest ih =>
      obtain ⟨rfl, -, -, inFat, links⟩ := isChain
      rw [image.sectorsPerFat] at inFat
      have next : tableEntry (bootFat disk) first = fatEntry (Bpb.ofDisk disk) disk first :=
        tableEntry_bootFat inFat
      refine ⟨rfl, ?_⟩
      cases rest with
      | nil => exact Or.inl ⟨rfl, by rw [next]; exact links⟩
      | cons d rest =>
          have more : d = fatEntry (Bpb.ofDisk disk) disk first ∧ d < 0xFF8 :=
            ⟨links.1.symm, links.2.2.1⟩
          refine Or.inr ⟨by rw [next, ← more.1]; exact more.2, ?_⟩
          rw [next]
          exact ih (List.cons_ne_nil d rest) links

end Chain

/-! ## The whole function -/

section Stored

variable {disk : Disk} {a a' : Arena} {chain : List Nat}

/-- What was available before `allocate_pages`, and what is below. -/
theorem allocatePages_frame {cx : UInt16} {page : UInt32}
    (aligned : a.availMemStart.toNat % PAGE_SIZE = 0) (conventional : a.availMemEnd.toNat ≤ 0xA0000)
    (room : a.availMemStart.toNat < a.availMemEnd.toNat) (done : allocatePages cx a = .ok (page, a')) :
    page = a.availMemStart ∧
      a'.availMemStart = a.availMemStart + UInt32.ofNat (rounds cx * PAGE_SIZE) ∧
      a'.availMemEnd = a.availMemEnd ∧ ∀ x, x < a.availMemStart.toNat → a'.mem x = a.mem x := by
  obtain ⟨a₁, allocated, start, stop, mem⟩ := allocatePages_spec cx aligned room conventional
  obtain ⟨rfl, rfl⟩ := Prod.mk.inj (Except.ok.inj (allocated.symm.trans done))
  exact ⟨rfl, start, stop, fun x below => (mem x).trans (if_neg (by omega))⟩

theorem readTable_frame (image : Image1440 disk) {count : Nat} {ebx : UInt32} {cx : UInt16}
    {mem mem' : Memory} (below : ebx.toNat + count * 512 ≤ 2 ^ 20)
    (sectors : cx.toNat + count ≤ 256)
    (done : readTable (BootSector.ofDisk disk) disk count ebx cx mem = .ok mem') (x : Nat)
    (before : x < ebx.toNat) : mem' x = mem x := by
  obtain ⟨mem₁, read, bytes⟩ := readTable_spec image count ebx cx mem below sectors
  obtain rfl := Except.ok.inj (read.symm.trans done)
  rw [bytes, if_neg (by omega)]

/-- The tables are read to the pages behind `avail_mem_start`. -/
theorem readTables_frame (image : Image1440 disk) (layout : Layout a)
    (sectors : (Bpb.ofDisk disk).numOfReservedSectors.toNat + 32 ≤ 256) {root fatTable : UInt32}
    (done : readTables (BootSector.ofDisk disk) disk a = .ok (root, fatTable, a')) (x : Nat)
    (below : x < a.availMemStart.toNat) : a'.mem x = a.mem x := by
  obtain ⟨aligned, low, room, conventional⟩ := layout
  have bytes : (BootSector.ofDisk disk).bpb.bytesPerSector = 512 := image.bytesPerSector
  have perFat : (BootSector.ofDisk disk).bpb.sectorsPerFat = 9 := image.sectorsPerFat
  have rootPages : tablePages (BootSector.ofDisk disk) 14 = 2 := by
    rw [tablePages, bytes]
    rfl
  have rootSector : (firstRootDirSector (BootSector.ofDisk disk)).toNat =
      (Bpb.ofDisk disk).numOfReservedSectors.toNat + 18 := by
    rw [firstRootDirSector, image.rootDirSectors, UInt16.toNat_sub, image.firstDataSector]
    have fourteen : (14 : UInt16).toNat = 14 := rfl
    omega
  have two : rounds 2 * PAGE_SIZE = 0x2000 := by decide
  have nine : rounds 9 = 9 := by decide
  have fourteen : rounds 14 = 14 := by decide
  rw [readTables, image.rootDirSectors, rootPages, perFat] at done
  obtain ⟨⟨page, a₁⟩, first, done⟩ := bind_eq_ok done
  obtain ⟨⟨page', a₂⟩, second, done⟩ := bind_eq_ok done
  obtain ⟨mem₃, third, done⟩ := bind_eq_ok done
  obtain ⟨mem₄, fourth, done⟩ := bind_eq_ok done
  cases done
  obtain ⟨rfl, start₁, stop₁, kept₁⟩ := allocatePages_frame aligned conventional (by omega) first
  rw [two] at start₁
  have start₁ : a₁.availMemStart.toNat = a.availMemStart.toNat + 0x2000 := by
    rw [start₁, toNat_advance _ _ (by omega)]
  have aligned₁ : a₁.availMemStart.toNat % PAGE_SIZE = 0 := by
    rw [start₁]
    unfold PAGE_SIZE at *
    omega
  obtain ⟨rfl, -, -, kept₂⟩ := allocatePages_frame aligned₁ (by rw [stop₁]; exact conventional)
    (by rw [stop₁]; omega) second
  rw [fourteen] at third
  rw [nine] at fourth
  have reserved : (BootSector.ofDisk disk).bpb.numOfReservedSectors.toNat =
      (Bpb.ofDisk disk).numOfReservedSectors.toNat := rfl
  show mem₄ x = a.mem x
  rw [readTable_frame image (by omega) (by omega) fourth x (by omega),
    readTable_frame image (by omega) (by omega) third x below, kept₂ x (by omega), kept₁ x below]

/-- `KERNEL` is the first file, not empty, and in the first 256 sectors of the disk. -/
structure FirstFile (disk : Disk) (chain : List Nat) : Prop where
  kernel : KernelFile disk 0 chain
  nonempty : (rootEntry disk 0).size ≠ 0
  covers : (rootEntry disk 0).size.toNat ≤ chain.length * 512
  low : ∀ c ∈ chain, firstSector (Bpb.ofDisk disk) c < 256

theorem FirstFile.isChain (first : FirstFile disk chain) :
    IsChain (Bpb.ofDisk disk) disk (rootEntry disk 0).clusterNumLo.toNat chain :=
  (first.kernel.clusters first.nonempty).1

/-- Both readers compute the sectors of such a file. -/
theorem FirstFile.sector (image : Image1440 disk) (first : FirstFile disk chain) {c : Nat}
    (mem : c ∈ chain) :
    Fat.nextDataSector (Bpb.ofDisk disk) c = firstSector (Bpb.ofDisk disk) c := by
  have low := first.low c mem
  have entries : (Bpb.ofDisk disk).numOfDirectoryEntries.toNat < 2048 := by
    rw [image.numOfDirectoryEntries]
    decide
  rw [nextDataSector_of_small (first.isChain.mem_range mem).1 entries, Nat.mod_eq_of_lt (by omega)]

theorem FirstFile.ne_nil (first : FirstFile disk chain) : chain ≠ [] := by
  rintro rfl
  have covers := first.covers
  rw [List.length_nil, Nat.zero_mul, Nat.le_zero] at covers
  exact first.nonempty (UInt32.toNat_inj.mp covers)

/-- The sectors that are read are those of the file. -/
theorem FirstFile.sectors (image : Image1440 disk) (first : FirstFile disk chain) :
    chain.map (fun c => Fat.nextDataSector (Bpb.ofDisk disk) c % 256) =
      chain.map (firstSector (Bpb.ofDisk disk)) := by
  apply List.map_congr_left
  intro c mem
  rw [first.sector image mem, Nat.mod_eq_of_lt (first.low c mem)]

theorem FirstFile.bounds (image : Image1440 disk) (first : FirstFile disk chain) :
    (Bpb.ofDisk disk).numOfReservedSectors.toNat + 32 ≤ 256 ∧ chain.length ≤ 256 := by
  apply KernelFile.low image first.isChain (first.kernel.clusters first.nonempty).2 first.ne_nil
  intro s mem
  obtain ⟨c, inChain, rfl⟩ := List.mem_map.mp mem
  rw [first.sector image inChain]
  exact first.low c inChain

/-- The contents of a file of single sectors. -/
theorem contents_laid (image : Image1440 disk) (mem : Memory) (start : Nat) {i : Nat}
    (inside : i < chain.length * 512) :
    (contents (Bpb.ofDisk disk) disk chain)[i]? =
      some (laid disk mem start (chain.map (firstSector (Bpb.ofDisk disk))) (start + i)) := by
  have size : clusterSize (Bpb.ofDisk disk) = 512 := by
    unfold clusterSize BYTES_PER_SECTOR
    rw [image.sectorsPerCluster]
    rfl
  have index : i / 512 < chain.length := by omega
  rw [contents_getElem? chain i (by omega), size, List.getElem?_eq_getElem index, Option.map_some,
    laid, List.length_map, if_pos (by omega), Nat.add_sub_cancel_left, List.getD_eq_getElem?_getD,
    List.getElem?_map, List.getElem?_eq_getElem index]
  rfl

/-- The file is in memory, behind the tables of the loader, and below them nothing has changed. -/
theorem readKernel_stored (image : Image1440 disk) (layout : Layout a)
    (first : FirstFile disk chain) {fuel : Nat} (enough : chain.length ≤ fuel) :
    ∃ loaded mem, readKernelWithMemory disk fuel a = .ok (loaded, mem) ∧
      loaded.kernelLoadStart.toNat = a.availMemStart.toNat + 0x4000 ∧
      loaded.kernelLoadEnd.toNat = loaded.kernelLoadStart.toNat + chain.length * 512 ∧
      loaded.kernelLoadSize = (rootEntry disk 0).size ∧
      (∀ i, i < chain.length * 512 → (contents (Bpb.ofDisk disk) disk chain)[i]? =
        some (mem (loaded.kernelLoadStart.toNat + i))) ∧
      ∀ x, x < a.availMemStart.toNat → mem x = a.mem x := by
  obtain ⟨tables, short⟩ := first.bounds image
  obtain ⟨fatTable, a₁, read, fatStart, start₁, end₁, root, table⟩ :=
    readTables_spec image layout tables
  have kept₁ := readTables_frame image layout tables read
  obtain ⟨aligned, low, room, conventional⟩ := layout
  -- the entry that is used is the first one
  have field (o : UInt16) (small : o.toNat + 4 ≤ 32) :
      (a.availMemStart.toUInt16 + o).toNat = a.availMemStart.toNat + o.toNat := by
    rw [UInt16.toNat_add, UInt32.toNat_toUInt16]
    omega
  have found : nameMatches a₁.mem (a.availMemStart + (0 + UInt32.ofNat (0x20 * 0))).toUInt16 = true := by
    refine List.all_eq_true.mpr fun i mem => beq_iff_eq.mpr ?_
    have hi := List.mem_range.mp mem
    have named : ((rootEntry disk 0).name)[i]? = kernelFullName[i]? := by rw [first.kernel.named]
    rw [kernelFullName, List.getElem?_append_left (show i < kernelName.length from hi)] at named
    have address : ((a.availMemStart + (0 + UInt32.ofNat (0x20 * 0))).toUInt16 +
        UInt16.ofNat i).toNat = a.availMemStart.toNat + i := by
      rw [UInt32.zero_add, UInt16.toNat_add, UInt32.toNat_toUInt16,
        toNat_advance _ _ (by omega), UInt16.toNat_ofNat']
      omega
    rw [address, root _ (by omega), List.getD_eq_getElem?_getD, ← named]
    simp [rootEntry, DirectoryEntry.ofBytes, show i < 11 by omega]
  obtain ⟨offset, searched⟩ : ∃ offset, checkEntryName a₁.mem a.availMemStart 2048 0 = .ok offset :=
    checkEntryName_found (by omega) found
  have word (o : Nat) (small : o + 1 < 14 * 512) : readU16 a₁.mem (a.availMemStart.toNat + o) =
      readU16 disk (((Bpb.ofDisk disk).numOfReservedSectors.toNat + 18) * 512 + o) := by
    unfold readU16
    rw [root o (by omega), Nat.add_assoc, root (o + 1) small, Nat.add_assoc]
  have size : readU32 a₁.mem (a.availMemStart.toUInt16 + 0x1C).toNat = (rootEntry disk 0).size := by
    show _ = readU32 disk (_ + DIRECTORY_ENTRY_SIZE * 0 + 28)
    rw [field 0x1C (by decide), show (0x1C : UInt16).toNat = 28 from rfl, readU32, readU32,
      Nat.add_assoc a.availMemStart.toNat, word 28 (by omega), word (28 + 2) (by omega),
      Nat.mul_zero, Nat.add_zero, Nat.add_assoc _ 28 2]
  have fits : a₁.availMemEnd.toNat ≤ 0xA0000 := by
    rw [end₁]
    exact conventional
  have more : a₁.availMemStart.toNat < a₁.availMemEnd.toNat := by
    rw [end₁]
    omega
  have aligned₁ : a₁.availMemStart.toNat % PAGE_SIZE = 0 := by
    rw [start₁]
    unfold PAGE_SIZE at *
    omega
  obtain ⟨a₂, allocated, -, -, -⟩ :=
    allocatePages_spec (((rootEntry disk 0).size >>> 12 + 1).toUInt16) aligned₁ more fits
  obtain ⟨-, -, -, kept₂⟩ := allocatePages_frame aligned₁ fits more allocated
  have cluster : readU16 a₂.mem (a.availMemStart.toUInt16 + 0x1A).toNat =
      (rootEntry disk 0).clusterNumLo := by
    show _ = readU16 disk (_ + DIRECTORY_ENTRY_SIZE * 0 + 26)
    rw [field 0x1A (by decide), show (0x1A : UInt16).toNat = 26 from rfl, Nat.mul_zero, Nat.add_zero,
      ← word 26 (by omega), readU16, readU16, kept₂ _ (by omega), kept₂ _ (by omega)]
  have sees : Loading.Sees (bootFat disk) fatTable
      ⟨a₂.mem, (rootEntry disk 0).clusterNumLo, a₁.availMemStart⟩ := by
    refine ⟨fun o ho => ?_, by omega, ?_, image.clusters 0 (by decide)⟩
    · rw [← table o ho]
      exact kept₂ _ (by omega)
    · dsimp only
      omega
  obtain ⟨l, clusters, end₂, mem₂⟩ := readClusters_stored image sees
    (bootChain_of_isChain image first.ne_nil first.isChain)
    (by dsimp only
        omega) enough
  rw [first.sectors image] at clusters mem₂
  dsimp only at end₂ mem₂
  refine ⟨⟨chain.map (firstSector (Bpb.ofDisk disk)), a₁.availMemStart, l.kernelLoadEnd,
    (rootEntry disk 0).size⟩, l.mem, ?_, start₁, end₂, rfl, fun i inside => ?_, fun x below => ?_⟩
  · rw [readKernelWithMemory]
    dsimp only
    rw [read, ok_bind]
    dsimp only
    rw [searched, ok_bind, size, allocated, ok_bind]
    dsimp only
    rw [cluster, clusters]
    rfl
  · rw [mem₂]
    exact contents_laid image _ _ inside
  · rw [mem₂, laid, if_neg (by omega), kept₂ x (by omega), kept₁ x below]

end Stored

end Tyleros.Boot
