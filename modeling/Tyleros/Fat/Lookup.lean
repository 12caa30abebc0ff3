import Tyleros.Fat.ClusterLoop
import Mathlib.Logic.Relation
import Mathlib.Logic.Equiv.Defs

/-!
# The entries `read_file` looks up

A FAT12 table packs two entries of 12 bits into three bytes, so some entries begin in one
sector and end in the next. `read_file` takes the entries out of a window of two sectors,
which it loads again only when an entry begins in another sector than the last one did.

* `Table.packing`: every byte array is the packing of exactly one table.
* `Reader.Rounds.nextCluster`: with a reserved sector in front of the FAT, each round of
  the loop goes on to the entry of that table, whatever clusters it has been to.
* `readClusters_follows`: so the loop that ends has followed the table to an end.
-/

namespace Tyleros.Fat

/-! ## Packed tables -/

/-- A table of 12-bit entries. -/
abbrev Table := Nat → Fin 0x1000

/-- Entries `2 * k` and `2 * k + 1` as one number of 24 bits. -/
def Table.pair (table : Table) (k : Nat) : Nat :=
  (table (2 * k)).val + 0x1000 * (table (2 * k + 1)).val

/-- The bytes of a packed table: pair `k` in the bytes from `3 * k` on, the lowest first. -/
def Table.pack (table : Table) (pos : Nat) : UInt8 :=
  UInt8.ofNat (table.pair (pos / 3) / 0x100 ^ (pos % 3))

/-- The bytes from `3 * k` on as one number of 24 bits. -/
def triple (bytes : Nat → UInt8) (k : Nat) : Nat :=
  (bytes (3 * k)).toNat + 0x100 * (bytes (3 * k + 1)).toNat + 0x10000 * (bytes (3 * k + 2)).toNat

/-- The table whose packing the bytes are. -/
def Table.unpack (bytes : Nat → UInt8) : Table := fun cluster =>
  Fin.ofNat 0x1000 (triple bytes (cluster / 2) / 0x1000 ^ (cluster % 2))

theorem Table.pair_entry (table : Table) (k : Nat) {i : Nat} (inside : i < 2) :
    table.pair k / 0x1000 ^ i % 0x1000 = (table (2 * k + i)).val := by
  have low := (table (2 * k)).isLt
  have high := (table (2 * k + 1)).isLt
  unfold Table.pair
  match i, inside with
  | 0, _ =>
      rw [Nat.pow_zero, Nat.div_one, Nat.add_zero (2 * k)]
      omega
  | 1, _ =>
      rw [Nat.pow_one]
      omega

theorem triple_byte (bytes : Nat → UInt8) (k : Nat) {i : Nat} (inside : i < 3) :
    triple bytes k / 0x100 ^ i % 0x100 = (bytes (3 * k + i)).toNat := by
  have first := (bytes (3 * k)).toNat_lt
  have second := (bytes (3 * k + 1)).toNat_lt
  have third := (bytes (3 * k + 2)).toNat_lt
  unfold triple
  match i, inside with
  | 0, _ =>
      rw [Nat.pow_zero, Nat.div_one, Nat.add_zero (3 * k)]
      omega
  | 1, _ =>
      rw [Nat.pow_one]
      omega
  | 2, _ =>
      rw [show 0x100 ^ 2 = 0x10000 from rfl]
      omega

theorem Table.triple_pack (table : Table) (k : Nat) : triple table.pack k = table.pair k := by
  have low := (table (2 * k)).isLt
  have high := (table (2 * k + 1)).isLt
  have byte : ∀ i < 3, (table.pack (3 * k + i)).toNat = table.pair k / 0x100 ^ i % 0x100 := by
    intro i inside
    have group : (3 * k + i) / 3 = k := by omega
    have place : (3 * k + i) % 3 = i := by omega
    rw [Table.pack, group, place]
    exact UInt8.toNat_ofNat'
  have first := byte 0 (by decide)
  have second := byte 1 (by decide)
  have third := byte 2 (by decide)
  rw [Nat.add_zero] at first
  rw [triple, first, second, third]
  unfold Table.pair
  omega

theorem Table.pair_unpack (bytes : Nat → UInt8) (k : Nat) :
    (Table.unpack bytes).pair k = triple bytes k := by
  have first := (bytes (3 * k)).toNat_lt
  have second := (bytes (3 * k + 1)).toNat_lt
  have third := (bytes (3 * k + 2)).toNat_lt
  have entry : ∀ i < 2, (Table.unpack bytes (2 * k + i)).val =
      triple bytes k / 0x1000 ^ i % 0x1000 := by
    intro i inside
    have group : (2 * k + i) / 2 = k := by omega
    have place : (2 * k + i) % 2 = i := by omega
    rw [Table.unpack, group, place]
    rfl
  have low := entry 0 (by decide)
  have high := entry 1 (by decide)
  rw [Nat.add_zero] at low
  rw [Table.pair, low, high]
  unfold triple
  omega

/-- Every byte array is the packing of exactly one table. -/
def Table.packing : Table ≃ (Nat → UInt8) where
  toFun := Table.pack
  invFun := Table.unpack
  left_inv table := by
    funext cluster
    apply Fin.ext
    have value : (Table.unpack table.pack cluster).val =
        table.pair (cluster / 2) / 0x1000 ^ (cluster % 2) % 0x1000 := by
      rw [Table.unpack, Table.triple_pack]
      rfl
    rw [value, Table.pair_entry table _ (Nat.mod_lt _ Nat.two_pos), Nat.div_add_mod]
  right_inv bytes := by
    funext pos
    apply UInt8.toNat_inj.mp
    have value : ((Table.unpack bytes).pack pos).toNat =
        triple bytes (pos / 3) / 0x100 ^ (pos % 3) % 0x100 := by
      rw [Table.pack, Table.pair_unpack]
      exact UInt8.toNat_ofNat'
    rw [value, triple_byte bytes _ (Nat.mod_lt _ (by decide)), Nat.div_add_mod]

/-! ## The loop -/

/-- The bytes from the first FAT on. -/
def fatBytes (bpb : Bpb) (disk : Disk) : Nat → UInt8 := fun pos =>
  disk (bpb.numOfReservedSectors.toNat * BYTES_PER_SECTOR + pos)

/-- A round of the loop, which has not come to an end yet. -/
def Reader.Round (bpb : Bpb) (disk : Disk) (r next : Reader) : Prop :=
  r.cluster < 0xFF8 ∧ next = r.step bpb disk

/-- Any number of rounds. -/
abbrev Reader.Rounds (bpb : Bpb) (disk : Disk) : Reader → Reader → Prop :=
  Relation.ReflTransGen (Reader.Round bpb disk)

section Loop

variable {bpb : Bpb} {disk : Disk} {entry : DirectoryEntry} {window memory : Nat → UInt8}
  {r next : Reader}

/-- The loop makes such rounds, and ends with an entry that marks the end. -/
theorem Reader.rounds_of_readClusters {size behind fuel : Nat}
    (result : readClusters bpb disk size behind fuel r = .ok next) :
    Reader.Rounds bpb disk r next ∧ 0xFF8 ≤ next.cluster := by
  induction fuel generalizing r with
  | zero =>
      rw [readClusters] at result
      split at result
      · cases result
      · next atEnd =>
          cases result
          exact ⟨.refl, Nat.not_lt.mp atEnd⟩
  | succ fuel ih =>
      rw [readClusters] at result
      split at result
      · next inData =>
          obtain ⟨-, -, later⟩ := bind_eq_ok result
          obtain ⟨rounds, ended⟩ := ih later
          exact ⟨.head ⟨inData, rfl⟩ rounds, ended⟩
      · next atEnd =>
          cases result
          exact ⟨.refl, Nat.not_lt.mp atEnd⟩

/-- The two ways to look up an entry of the FAT. -/
theorem fatEntry_eq_unpack (bpb : Bpb) (disk : Disk) (cluster : Nat) :
    fatEntry bpb disk cluster = (Table.unpack (fatBytes bpb disk) cluster).val := by
  have first := (fatBytes bpb disk (3 * (cluster / 2))).toNat_lt
  have second := (fatBytes bpb disk (3 * (cluster / 2) + 1)).toNat_lt
  have third := (fatBytes bpb disk (3 * (cluster / 2) + 2)).toNat_lt
  have value : (Table.unpack (fatBytes bpb disk) cluster).val =
      triple (fatBytes bpb disk) (cluster / 2) / 0x1000 ^ (cluster % 2) % 0x1000 := rfl
  have packed : fatEntry bpb disk cluster =
      if cluster % 2 = 0 then (fatBytes bpb disk (3 * (cluster / 2))).toNat +
        256 * ((fatBytes bpb disk (3 * (cluster / 2) + 1)).toNat % 16)
      else (fatBytes bpb disk (3 * (cluster / 2) + 1)).toNat / 16 +
        16 * (fatBytes bpb disk (3 * (cluster / 2) + 2)).toNat := by
    unfold fatEntry fatBytes
    simp only [Nat.add_assoc]
  rw [value, packed, triple]
  rcases Nat.mod_two_eq_zero_or_one cluster with even | odd
  · rw [if_pos even, even, Nat.pow_zero, Nat.div_one]
    omega
  · rw [if_neg (by omega), odd, Nat.pow_one]
    omega

/-- As long as the loop goes on, the window is not loaded yet or holds the sectors it
should. -/
theorem Reader.Rounds.windowOk (reserved : 1 ≤ bpb.numOfReservedSectors.toNat)
    (rounds : Reader.Rounds bpb disk (entry.reader window memory) r) : r.WindowOk disk := by
  induction rounds with
  | refl => exact Or.inl rfl
  | tail rounds round ih =>
      obtain ⟨-, rfl⟩ := round
      exact (Reader.window_step reserved ih).2

theorem Reader.WindowOk.nextEntry (ok : r.WindowOk disk)
    (reserved : 1 ≤ bpb.numOfReservedSectors.toNat) :
    (r.step bpb disk).cluster = (Table.packing.symm (fatBytes bpb disk) r.cluster).val := by
  rw [Reader.cluster_step reserved ok]
  exact fatEntry_eq_unpack bpb disk r.cluster

/-- Each round goes on to the entry of the packed table, in whatever order the chain goes
through it. -/
theorem Reader.Rounds.nextCluster (reserved : 1 ≤ bpb.numOfReservedSectors.toNat)
    (rounds : Reader.Rounds bpb disk (entry.reader window memory) r)
    (round : Reader.Round bpb disk r next) :
    next.cluster = (Table.packing.symm (fatBytes bpb disk) r.cluster).val := by
  obtain ⟨-, rfl⟩ := round
  exact (rounds.windowOk reserved).nextEntry reserved

/-- The parameters of a volume with two sectors to a FAT. -/
def straddlingBpb : Bpb := ⟨512, 1, 1, 1, 16, 2⟩

/-- Entry 341 of the FAT is 2. -/
def straddlingDisk : Disk := fun pos => if pos = 1023 then 0x20 else 0

/-- A file that begins with cluster 341. -/
def straddlingEntry : DirectoryEntry := ⟨[], 0, 341, 1024⟩

def straddlingReader : Reader := straddlingEntry.reader (fun _ => 0xFF) fun _ => 0

/-- Entry 341 begins in the last byte of the first sector of the FAT. From there the chain
goes back to cluster 2. -/
theorem nextCluster_straddling :
    (straddlingReader.step straddlingBpb straddlingDisk).cluster =
      (Table.packing.symm (fatBytes straddlingBpb straddlingDisk) straddlingReader.cluster).val ∧
    straddlingReader.cluster = 341 ∧
    (straddlingReader.step straddlingBpb straddlingDisk).cluster = 2 := by
  have round : Reader.Round straddlingBpb straddlingDisk straddlingReader
      (straddlingReader.step straddlingBpb straddlingDisk) := ⟨by decide, rfl⟩
  have rounds : Reader.Rounds straddlingBpb straddlingDisk
      (straddlingEntry.reader (fun _ => 0xFF) fun _ => 0) straddlingReader := .refl
  exact ⟨rounds.nextCluster (by decide) round, rfl, by decide +kernel⟩

/-- The loop follows the table, from the first cluster of the file to an entry that marks
the end. -/
theorem readClusters_follows (reserved : 1 ≤ bpb.numOfReservedSectors.toNat)
    {size behind fuel : Nat}
    (result : readClusters bpb disk size behind fuel (entry.reader window memory) = .ok r) :
    0xFF8 ≤ r.cluster ∧ ∃ n,
      r.cluster = (fun cluster => (Table.packing.symm (fatBytes bpb disk) cluster).val)^[n]
        entry.clusterNumLo.toNat := by
  obtain ⟨rounds, ended⟩ := Reader.rounds_of_readClusters result
  refine ⟨ended, ?_⟩
  clear result ended
  induction rounds with
  | refl => exact ⟨0, rfl⟩
  | tail rounds round ih =>
      obtain ⟨-, rfl⟩ := round
      obtain ⟨n, reached⟩ := ih
      refine ⟨n + 1, ?_⟩
      have ok := Reader.Rounds.windowOk reserved rounds
      rw [Function.iterate_succ_apply', ← reached]
      exact ok.nextEntry reserved

end Loop

end Tyleros.Fat
