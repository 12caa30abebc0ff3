import Tyleros.Fat.ReadFile

/-!
# Where the loop of `read_file` ends and writes

The loop follows the FAT wherever it leads: it looks at neither the size of the file
nor at the clusters it has been to, and it writes 512 bytes for every cluster.
`loopSafe_iff` says for which files it ends, forms sectors of clusters from 2 on only
and stays inside the buffer of `file_entry->size` bytes: the chain has to end, without
an entry below 2 and with at most one cluster for every 512 bytes of the size.

Without reserved sectors the first FAT sector is sector 0, which `read_file` takes for
loaded from the start: until it has loaded another one, it follows the bytes that
happen to be in its FAT window.
-/

namespace Tyleros.Fat

/-- The locals of `read_file` in front of the loop. -/
def DirectoryEntry.reader (entry : DirectoryEntry) (fat memory : Nat → UInt8) : Reader :=
  ⟨0, entry.clusterNumLo.toNat, 0, fat, memory⟩

/-- A round of the loop has a cluster from 2 on and writes to the `size` bytes of the
buffer. -/
def RoundSafe (size : Nat) (r : Reader) : Prop :=
  r.cluster < 0xFF8 ∧ 2 ≤ r.cluster ∧ r.offset + BYTES_PER_SECTOR ≤ size

/-- The loop ends, and every round of it is safe. -/
def LoopSafe (bpb : Bpb) (disk : Disk) (size : Nat) (r : Reader) : Prop :=
  ∃ n, 0xFF8 ≤ ((Reader.step bpb disk)^[n] r).cluster ∧
    ∀ i < n, RoundSafe size ((Reader.step bpb disk)^[i] r)

/-! ## The chain of a file -/

/-- Entry `cluster` of a FAT that begins with the given bytes. -/
def tableEntry (bytes : Nat → UInt8) (cluster : Nat) : Nat :=
  let value := (readU16 bytes (cluster + cluster / 2)).toNat
  if cluster % 2 = 1 then value / 16 else value % 0x1000

/-- The sector of the first FAT that holds the entry. -/
def entrySector (bpb : Bpb) (cluster : Nat) : Nat :=
  bpb.numOfReservedSectors.toNat + (cluster + cluster / 2) / BYTES_PER_SECTOR

/-- The clusters from `first` on, up to an entry that marks the end. The entries are
those of the FAT on the disk, once a sector of it other than sector 0 has been needed,
and the ones in `window` before. -/
def Links (bpb : Bpb) (disk : Disk) (window : Nat → UInt8) : Bool → Nat → List Nat → Prop
  | _, first, [] => 0xFF8 ≤ first
  | loaded, first, c :: rest => first = c ∧ c < 0xFF8 ∧
      let loaded' := loaded || entrySector bpb c != 0
      Links bpb disk window loaded'
        (if loaded' then fatEntry bpb disk c else tableEntry window c) rest

/-- The chain of a file fits it. -/
def FileFits (bpb : Bpb) (disk : Disk) (window : Nat → UInt8) (entry : DirectoryEntry) : Prop :=
  ∃ chain, Links bpb disk window false entry.clusterNumLo.toNat chain ∧ (∀ c ∈ chain, 2 ≤ c) ∧
    chain.length * BYTES_PER_SECTOR ≤ entry.size.toNat

/-! ## The loop follows the chain -/

section Loop

variable {bpb : Bpb} {disk : Disk} {window : Nat → UInt8} {loaded : Bool} {size : Nat} {r : Reader}

/-- What the FAT window holds: the two sectors from the loaded one on, or, as long as
none has been loaded, what it held in front of the loop. -/
def Reader.Sees (disk : Disk) (window : Nat → UInt8) (loaded : Bool) (r : Reader) : Prop :=
  match loaded with
  | true => ∀ o, o < 2 * BYTES_PER_SECTOR →
      r.fat o = disk (r.loadedFatSector * BYTES_PER_SECTOR + o)
  | false => r.loadedFatSector = 0 ∧ r.fat = window

/-- One round keeps track of the window and goes to the next cluster of the chain. -/
theorem Reader.Sees.step (bpb : Bpb) (sees : r.Sees disk window loaded) :
    let loaded' := loaded || entrySector bpb r.cluster != 0
    (r.step bpb disk).Sees disk window loaded' ∧ (r.step bpb disk).cluster =
      if loaded' then fatEntry bpb disk r.cluster else tableEntry window r.cluster := by
  have fat_eq : (r.step bpb disk).fat = if entrySector bpb r.cluster ≠ r.loadedFatSector then
      readFloppy disk r.fat 0 (entrySector bpb r.cluster) 2 else r.fat := rfl
  by_cases same : entrySector bpb r.cluster = r.loadedFatSector
  · rw [if_neg (not_not.mpr same)] at fat_eq
    cases loaded with
    | true =>
        have window' : (r.step bpb disk).Sees disk window true := by
          intro o ho
          rw [fat_eq, sees o ho, ← same]
          rfl
        exact ⟨window', Reader.cluster_of_window window'⟩
    | false =>
        obtain ⟨zero, kept⟩ := sees
        rw [zero] at same
        have inFirst : r.cluster + r.cluster / 2 < BYTES_PER_SECTOR := by
          unfold entrySector BYTES_PER_SECTOR at same
          unfold BYTES_PER_SECTOR
          omega
        simp only [same, Bool.false_or, bne_self_eq_false, Bool.false_eq_true, if_false]
        refine ⟨⟨same, fat_eq.trans kept⟩, ?_⟩
        show (if r.cluster % 2 = 1 then (readU16 (r.step bpb disk).fat
            ((r.cluster + r.cluster / 2) % BYTES_PER_SECTOR)).toNat / 16
          else (readU16 (r.step bpb disk).fat
            ((r.cluster + r.cluster / 2) % BYTES_PER_SECTOR)).toNat % 0x1000) = _
        rw [fat_eq, kept, Nat.mod_eq_of_lt inFirst]
        rfl
  · rw [if_pos same] at fat_eq
    have window' : (r.step bpb disk).Sees disk window true := by
      intro o ho
      rw [fat_eq, readFloppy, if_pos ⟨Nat.zero_le o, by omega⟩]
      rfl
    have loaded' : (loaded || entrySector bpb r.cluster != 0) = true := by
      cases loaded with
      | true => rfl
      | false => simpa [sees.1] using same
    rw [loaded']
    exact ⟨window', Reader.cluster_of_window window'⟩

theorem loopSafe_succ_iff (n : Nat) :
    (0xFF8 ≤ ((Reader.step bpb disk)^[n + 1] r).cluster ∧
        ∀ i < n + 1, RoundSafe size ((Reader.step bpb disk)^[i] r)) ↔
      RoundSafe size r ∧ 0xFF8 ≤ ((Reader.step bpb disk)^[n] (r.step bpb disk)).cluster ∧
        ∀ i < n, RoundSafe size ((Reader.step bpb disk)^[i] (r.step bpb disk)) := by
  rw [Nat.forall_lt_succ_left]
  simp only [Function.iterate_succ_apply, Function.iterate_zero_apply]
  exact and_left_comm

theorem exists_links_of_loopSafe (sees : r.Sees disk window loaded) {n : Nat}
    (ends : 0xFF8 ≤ ((Reader.step bpb disk)^[n] r).cluster)
    (rounds : ∀ i < n, RoundSafe size ((Reader.step bpb disk)^[i] r)) :
    ∃ chain, Links bpb disk window loaded r.cluster chain ∧ (∀ c ∈ chain, 2 ≤ c) ∧
      (chain = [] ∨ r.offset + chain.length * BYTES_PER_SECTOR ≤ size) := by
  induction n generalizing r loaded with
  | zero => exact ⟨[], ends, nofun, .inl rfl⟩
  | succ n ih =>
      obtain ⟨⟨inData, two, room⟩, ends', rounds'⟩ := (loopSafe_succ_iff n).mp ⟨ends, rounds⟩
      obtain ⟨sees', next⟩ := sees.step bpb
      obtain ⟨chain, links, twos, fits⟩ := ih sees' ends' rounds'
      rw [next] at links
      refine ⟨r.cluster :: chain, ⟨rfl, inData, links⟩, List.forall_mem_cons.mpr ⟨two, twos⟩,
        .inr ?_⟩
      have offset : (r.step bpb disk).offset = r.offset + BYTES_PER_SECTOR := rfl
      rw [List.length_cons, Nat.succ_mul]
      rcases fits with rfl | fits
      · rw [List.length_nil]
        omega
      · omega

theorem loopSafe_of_links (sees : r.Sees disk window loaded) {chain : List Nat}
    (links : Links bpb disk window loaded r.cluster chain) (twos : ∀ c ∈ chain, 2 ≤ c)
    (fits : r.offset + chain.length * BYTES_PER_SECTOR ≤ size) : LoopSafe bpb disk size r := by
  induction chain generalizing r loaded with
  | nil => exact ⟨0, links, nofun⟩
  | cons c rest ih =>
      obtain ⟨rfl, inData, links⟩ := links
      obtain ⟨two, twos⟩ := List.forall_mem_cons.mp twos
      obtain ⟨sees', next⟩ := sees.step bpb
      have offset : (r.step bpb disk).offset = r.offset + BYTES_PER_SECTOR := rfl
      rw [List.length_cons, Nat.succ_mul] at fits
      obtain ⟨n, ends, rounds⟩ := ih sees' (by rw [next]; exact links) twos (by omega)
      exact ⟨n + 1, (loopSafe_succ_iff n).mpr ⟨⟨inData, two, by omega⟩, ends, rounds⟩⟩

end Loop

/-- The loop is safe exactly for the files whose chain fits them, whatever is in the
FAT, in its window and in the directory entry. -/
theorem loopSafe_iff (bpb : Bpb) (disk : Disk) (entry : DirectoryEntry)
    (window memory : Nat → UInt8) :
    LoopSafe bpb disk entry.size.toNat (entry.reader window memory) ↔
      FileFits bpb disk window entry := by
  have sees : (entry.reader window memory).Sees disk window false := ⟨rfl, rfl⟩
  constructor
  · rintro ⟨n, ends, rounds⟩
    obtain ⟨chain, links, twos, fits⟩ := exists_links_of_loopSafe sees ends rounds
    refine ⟨chain, links, twos, ?_⟩
    rcases fits with rfl | fits
    · exact Nat.zero_le _
    · have zero : (entry.reader window memory).offset = 0 := rfl
      omega
  · rintro ⟨chain, links, twos, fits⟩
    have zero : (entry.reader window memory).offset = 0 := rfl
    exact loopSafe_of_links sees links twos (by omega)

/-- The small volume, with a file of 1000 bytes in clusters 2 and 3. -/
def oddDisk : Disk := fun p =>
  if p = 1052 then 0xE8 else if p = 1053 then 3 else sampleDisk 1 p

def oddEntry : DirectoryEntry := { sampleEntry with size := 1000 }

theorem odd_mounted : ∃ fs, mount oddDisk (fun _ => 0) = .ok fs ∧
    fs.bpb = ⟨512, 1, 1, 1, 16, 1⟩ ∧ resolvePath fs [0x2F, 0x41] = .ok (some oddEntry) := by
  have evaluated : completesWith (mount oddDisk fun _ => 0) (fun fs =>
      fs.bpb == ⟨512, 1, 1, 1, 16, 1⟩ &&
      completesWith (resolvePath fs [0x2F, 0x41]) (· == some oddEntry)) = true := by
    decide +kernel
  obtain ⟨fs, mounted, tests⟩ := exists_of_completesWith evaluated
  obtain ⟨bpb, resolved⟩ := Bool.and_eq_true_iff.mp tests
  obtain ⟨entry, found, same⟩ := exists_of_completesWith resolved
  rw [beq_iff_eq] at bpb same
  exact ⟨fs, mounted, bpb, same ▸ found⟩

/-- The second round writes behind the end of the buffer. -/
theorem loop_leaves_buffer : ∃ fs, mount oddDisk (fun _ => 0) = .ok fs ∧
    resolvePath fs [0x2F, 0x41] = .ok (some oddEntry) ∧
    ¬ LoopSafe fs.bpb oddDisk oddEntry.size.toNat (oddEntry.reader (fun _ => 0) fun _ => 0) := by
  obtain ⟨fs, mounted, bpb, found⟩ := odd_mounted
  refine ⟨fs, mounted, found, ?_⟩
  rw [bpb]
  rintro ⟨n, ends, rounds⟩
  have second : ((oddEntry.reader (fun _ => 0) fun _ => 0).step ⟨512, 1, 1, 1, 16, 1⟩
      oddDisk).cluster = 3 := by decide +kernel
  match n with
  | 0 => exact absurd ends (by decide)
  | 1 =>
      rw [Function.iterate_one, second] at ends
      exact absurd ends (by decide)
  | n + 2 => exact absurd (rounds 1 (by omega)).2.2 (by decide)

end Tyleros.Fat
