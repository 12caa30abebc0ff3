import Tyleros.Boot.PagedElf

/-!
# Memory behind the boot loader's page tables

What surrounds the page tables that `stage2.asm` builds: `map_contiguous_pages` writes to the
pages of its tables only (`mapContiguousPages_frame`), and the processor's translation depends on
these pages only (`Tables.translate_congr`). With the two ranges of `stage2.asm` mapped, every
address of them has the place `physical` (`boot_placed`).
-/

namespace Tyleros.Boot.Paging

open Fat (readU32)
open Lib

/-! ## What a call writes to -/

section Frame

variable {t t' : Tables} {path rest : List (Fin 512)} {limit level x : Nat} {ebx offset : UInt32}
  {i : Fin 512} {c : Call}

/-- Outside of a dword memory is unchanged. -/
theorem writeU32_of_outside {mem : Memory} {address : Nat} {value : UInt32}
    (outside : x < address ∨ address + 4 ≤ x) : writeU32 mem address value x = mem x := by
  unfold writeU32
  rw [if_neg (by omega)]

/-- One level down, no page is written to but those of the tables. -/
theorem Descended.frame (descended : Descended t t' limit path (level + 1) ebx (i :: rest))
    (here : offset.toNat = 8 * i) (outside : x < t.pageTablesStart.toNat ∨ limit ≤ x) :
    (getOrAllocateLevel (ebx + offset) t').2.mem x = t'.mem x := by
  have inside := descended.tree.inside _ _ _ descended.reaches
  have first := inside.first
  have last := inside.last
  have start := congrArg UInt32.toNat descended.start
  have room := descended.room
  have fits := descended.fits
  have plain := descended.tree.plain _ _ _ i descended.reaches
  rcases plain.low with zero | page
  · unfold missing at room
    rw [child_eq_none (target_of_zero plain zero)] at room
    dsimp only at room
    unfold getOrAllocateLevel
    rw [(descended.slot here).2, zero, if_pos (by rfl)]
    dsimp only
    unfold PAGE_SIZE at *
    have low : t'.pageTablesEnd.toNat + PAGE_SIZE ≤ 2 ^ 20 := by
      unfold PAGE_SIZE
      omega
    rw [writeU32_of_outside (by omega), allocatePage_mem low]
    unfold PAGE_SIZE
    rw [if_neg (by omega)]
  · obtain ⟨below, got, -⟩ := descended.present here page
    rw [got]

theorem Wf.root_frame (wf : Wf t)
    (room : t.pageTablesEnd.toNat + t.needed c * PAGE_SIZE ≤ 2 ^ 20)
    (outside : x < t.pageTablesStart.toNat ∨
      t.pageTablesEnd.toNat + t.needed c * PAGE_SIZE ≤ x) :
    (allocatePageIfNeeded (t.pageTablesStart == t.pageTablesEnd) t.pageTablesStart t).2.mem x =
      t.mem x := by
  unfold allocatePageIfNeeded
  unfold Tables.needed at room outside
  rcases wf.tree with none_ | tree
  · rw [if_pos none_] at room outside
    rw [if_pos (beq_iff_eq.mpr none_)]
    have same := congrArg UInt32.toNat none_
    unfold PAGE_SIZE at room outside
    have low : t.pageTablesEnd.toNat + PAGE_SIZE ≤ 2 ^ 20 := by
      unfold PAGE_SIZE
      omega
    rw [allocatePage_mem low]
    unfold PAGE_SIZE
    rw [if_neg (by omega)]
  · rw [if_neg (mt beq_iff_eq.mp tree.nonempty)]

/-- The tables on the way to the first page, and what they leave as it was. -/
theorem getTables_frame (wf : Wf t)
    (room : t.pageTablesEnd.toNat + t.needed c * PAGE_SIZE ≤ 2 ^ 20)
    (outside : x < t.pageTablesStart.toNat ∨
      t.pageTablesEnd.toNat + t.needed c * PAGE_SIZE ≤ x) :
    (getTables c t).2.2.mem x = t.mem x := by
  obtain ⟨pml4, t₄, first, top⟩ := wf.root room
  have kept₄ := wf.root_frame room outside
  have kept₃ := top.frame (i := Fin.ofNat 512 (c.virtual / 2 ^ 46)) (toNat_pml4Offset c) outside
  obtain ⟨pml3, t₃, second, below⟩ := top.step (i := Fin.ofNat 512 (c.virtual / 2 ^ 46))
    (toNat_pml4Offset c)
  have kept₂ := below.frame (toNat_pml3Offset c) outside
  obtain ⟨pml2, t₂, third, below⟩ := below.step (toNat_pml3Offset c)
  have kept₁ := below.frame (toNat_pml2Offset c) outside
  obtain ⟨pml1, t₁, fourth, below⟩ := below.step (toNat_pml2Offset c)
  rw [first] at kept₄
  rw [second] at kept₃
  rw [third] at kept₂
  rw [fourth] at kept₁
  unfold getTables
  rw [first]
  dsimp only
  rw [second]
  dsimp only
  rw [third]
  dsimp only
  rw [fourth]
  exact kept₁.trans (kept₂.trans (kept₃.trans kept₄))

theorem setEntries_frame {table : Nat} (count i : Nat) (v : UInt32) (t : Tables)
    (outside : x < table ∨ table + PAGE_SIZE ≤ x) :
    (setEntries table count i v t).mem x = t.mem x := by
  induction count generalizing i v t with
  | zero => rfl
  | succ count ih =>
      show (setEntries table count (i + 1) (v + UInt32.ofNat PAGE_SIZE)
        (t.setEntry table (Fin.ofNat 512 i) v)).mem x = _
      rw [ih]
      have slot := (Fin.ofNat 512 i).isLt
      unfold PAGE_SIZE at outside
      exact writeU32_of_outside (by omega)

/-- A call writes to the pages of the tables, old and new ones, and to nothing else. -/
theorem mapContiguousPages_frame {fuel : Nat} (wf : Wf t) (legal : Legal t c)
    (done : mapContiguousPages fuel c t = .ok t')
    (outside : x < t.pageTablesStart.toNat ∨ t'.pageTablesEnd.toNat ≤ x) :
    t'.mem x = t.mem x := by
  obtain ⟨reached, mapped⟩ := mapped_of_ok wf legal done
  have outside : x < t.pageTablesStart.toNat ∨
      t.pageTablesEnd.toNat + t.needed c * PAGE_SIZE ≤ x := by
    rw [← mapped.stop]
    exact outside
  obtain ⟨pml2, pml1, t₁, got, there⟩ := wf.getTables legal.room
  have kept := getTables_frame wf legal.room outside
  rw [got] at kept
  have inside := there.tree.inside _ _ _ there.reaches
  have first := inside.first
  have last := inside.last
  have start := congrArg UInt32.toNat there.start
  have arrived := there.arrived
  unfold mapContiguousPages at done
  rw [if_neg (count_accepted legal.count.2), got] at done
  dsimp only at done
  rw [writePageTableEntry_first there legal.count.2 reached] at done
  split at done
  · cases done
    rw [setEntries_frame _ _ _ _ (by omega)]
    exact kept
  · cases done

end Frame

/-! ## What the translation depends on -/

section Congr

variable {t : Tables} {mem : Memory}

/-- Pages are found in the pages of the tables. -/
theorem Tree.find_congr (tree : Tree t)
    (same : ∀ x, t.pageTablesStart.toNat ≤ x → x < t.pageTablesEnd.toNat → mem x = t.mem x)
    (path : List (Fin 512)) (i : Fin 512) : Tables.find { t with mem } path i = t.find path i := by
  have word {path : List (Fin 512)} {node : Nat × Nat} (reaches : t.Reaches path node)
      (i : Fin 512) : target mem node.2 i = target t.mem node.2 i := by
    have inside := tree.inside _ _ _ reaches
    have first := inside.first
    have last := inside.last
    unfold PAGE_SIZE at last
    apply target_congr
    · exact readU32_congr fun x lower upper => same x (by omega) (by omega)
    · exact readU32_congr fun x lower upper => same x (by omega) (by omega)
  have edges (node : Nat × Nat) (i : Fin 512) (used : t.Used node) :
      child mem node i = child t.mem node i := by
    obtain ⟨path, reaches⟩ := used
    exact child_congr (word reaches i)
  have walks := walk_congr t.closed_used edges ⟨[], t.reaches_root⟩ path
  unfold Tables.find
  rw [if_neg tree.nonempty, if_neg tree.nonempty]
  dsimp only
  rw [walks]
  cases reached : walk (child t.mem) (3, t.pageTablesStart.toNat) path with
  | none => rfl
  | some node => exact word reached i

theorem Tables.translate_congr (wf : Wf t)
    (same : ∀ x, t.pageTablesStart.toNat ≤ x → x < t.pageTablesEnd.toNat → mem x = t.mem x)
    (address : Nat) : Tables.translate { t with mem } address = t.translate address := by
  unfold Tables.translate
  rcases wf.tree with none_ | tree
  · unfold Tables.find
    rw [if_pos none_, if_pos none_]
  · rw [tree.find_congr same]

/-- Addresses in a page are translated as the page is. -/
theorem Tables.translate_page (t : Tables) (address : Nat) :
    t.translate address = t.translate (address / PAGE_SIZE * PAGE_SIZE) := by
  have index_page (level : Nat) : index level (address / PAGE_SIZE * PAGE_SIZE) = index level address := by
    have power : 2 ^ (12 + 9 * level) = 4096 * 2 ^ (9 * level) := by
      rw [Nat.pow_add]
    unfold index PAGE_SIZE
    rw [power, ← Nat.div_div_eq_div_mul, ← Nat.div_div_eq_div_mul, Nat.mul_div_cancel _ (by decide)]
  have canonical : Canonical (address / PAGE_SIZE * PAGE_SIZE) ↔ Canonical address := by
    unfold Canonical PAGE_SIZE
    omega
  unfold Tables.translate tablePath
  rw [index_page 3, index_page 2, index_page 1, index_page 0]
  exact (if_congr canonical rfl rfl).symm

end Congr

/-! ## The tables of the second stage -/

/-- Whatever the fuel, a call that returns returns the same tables. -/
theorem mapContiguousPages_enough {t t' : Tables} {c : Call} {fuel fuel' : Nat} (wf : Wf t)
    (legal : Legal t c) (done : mapContiguousPages fuel c t = .ok t') (enough : 512 ≤ fuel') :
    mapContiguousPages fuel' c t = .ok t' := by
  obtain ⟨reached, -⟩ := mapped_of_ok wf legal done
  obtain ⟨t₁, -, returns⟩ := mapContiguousPages_eq wf legal reached
  rw [returns] at done
  have count := legal.count.2
  have few : c.written ≤ fuel' := by
    unfold Call.written
    omega
  split at done
  · cases done
    rw [returns, if_pos few]
  · cases done

/-- The tables behind the two calls of `stage2.asm`, from `start` on. -/
structure BootTables (start pages : UInt32) (t : Tables) : Prop where
  wf : Wf t
  first : t.pageTablesStart = start
  stop : start.toNat ≤ t.pageTablesEnd.toNat ∧ t.pageTablesEnd.toNat ≤ start.toNat + 7 * PAGE_SIZE
  low : ∀ k, k < pages.toNat → t.translate (k * PAGE_SIZE) = some (k * PAGE_SIZE)
  high : ∀ k, k < 512 → t.translate (2 ^ 64 - 2 ^ 31 + k * PAGE_SIZE) = some (k * PAGE_SIZE)

/-- Both calls return, with memory changed in the pages of the tables only. -/
theorem boot_tables (mem : Memory) {start pages : UInt32} (aligned : start.toNat % PAGE_SIZE = 0)
    (room : start.toNat + 7 * PAGE_SIZE ≤ 2 ^ 20) (some_ : 1 ≤ pages.toNat) (few : pages.toNat ≤ 512)
    {fuel : Nat} (enough : 512 ≤ fuel) :
    ∃ t t', mapContiguousPages fuel (lowMemoryCall pages) ⟨mem, start, start⟩ = .ok t ∧
      mapContiguousPages fuel kernelCall t = .ok t' ∧ BootTables start pages t' ∧
      ∀ x, x < start.toNat ∨ t'.pageTablesEnd.toNat ≤ x → t'.mem x = mem x := by
  obtain ⟨fuel₁, fuel₂, t, t', first, second, low, high, -⟩ := boot_maps mem aligned room some_ few
  have first_page (level : Nat) : index level (lowMemoryCall pages).virtual = index level 0 :=
    congrArg (index level) (virtual_lowMemoryCall pages)
  unfold PAGE_SIZE at room
  have built : Built start ⟨mem, start, start⟩ := Built.empty mem aligned (by omega)
  have legal : Legal ⟨mem, start, start⟩ (lowMemoryCall pages) := by
    refine ⟨rfl, ?_, ?_, ⟨some_, few⟩, ?_⟩
    · rw [virtual_lowMemoryCall]
      rfl
    · rw [virtual_lowMemoryCall]
      exact Or.inl (by decide)
    unfold Tables.needed
    rw [if_pos rfl]
    show start.toNat + 4 * 4096 ≤ 2 ^ 20
    omega
  obtain ⟨-, mapped⟩ := mapped_of_ok built.wf legal first
  have stop : t.pageTablesEnd.toNat = start.toNat + 4 * PAGE_SIZE := by
    rw [mapped.stop]
    unfold Tables.needed
    rw [if_pos rfl]
  have nonempty : t.pageTablesStart ≠ t.pageTablesEnd := by
    intro same
    have begin_ : t.pageTablesEnd.toNat = start.toNat := by
      rw [← same, mapped.start]
    unfold PAGE_SIZE at stop
    omega
  have three : t.needed kernelCall ≤ 3 := by
    have missing_ :=
      missing_le_length (child t.mem) (3, t.pageTablesStart.toNat) kernelCall.writtenPath
    unfold Tables.needed
    rw [if_neg nonempty]
    exact missing_
  have legal' : Legal t kernelCall := by
    refine ⟨by decide, by decide, by decide, by decide, ?_⟩
    unfold PAGE_SIZE at stop ⊢
    omega
  obtain ⟨-, mapped'⟩ := mapped_of_ok mapped.wf legal' second
  have begin_ : t'.pageTablesStart = start := mapped'.start.trans mapped.start
  have stop' := mapped'.stop
  refine ⟨t, t', mapContiguousPages_enough built.wf legal first enough,
    mapContiguousPages_enough mapped.wf legal' second enough,
    ⟨mapped'.wf, begin_, ?_, low, high⟩, fun x outside => ?_⟩
  · unfold PAGE_SIZE at stop stop' ⊢
    omega
  · have begin' : t.pageTablesStart.toNat = start.toNat := congrArg UInt32.toNat mapped.start
    have last : t.pageTablesEnd.toNat ≤ t'.pageTablesEnd.toNat := by
      rw [stop']
      exact Nat.le_add_right _ _
    rw [mapContiguousPages_frame mapped.wf legal' second (by omega)]
    exact mapContiguousPages_frame built.wf legal first (by
      show x < start.toNat ∨ _
      omega)

/-! ## Where addresses are -/

/-- The translation of an address with these tables in memory. -/
def Tables.physical? (t : Tables) (mem : Memory) (address : BitVec 64) : Option Nat :=
  (Tables.translate { t with mem } address.toNat).map (· + address.toNat % PAGE_SIZE)

/-- The place of an address of low memory, or of the kernel's range. -/
def physical (address : BitVec 64) : Nat :=
  if address.toNat < 2 ^ 47 then address.toNat else address.toNat - (2 ^ 64 - 2 ^ 31)

/-- The addresses where the kernel is linked, above the first megabyte. -/
def InKernel (address : BitVec 64) : Prop :=
  2 ^ 64 - 2 ^ 31 + 2 ^ 20 ≤ address.toNat ∧ address.toNat < 2 ^ 64 - 2 ^ 31 + 2 ^ 21

section Places

variable {start pages : UInt32} {t : Tables} {mem : Memory} {address : BitVec 64}

theorem BootTables.physical?_low (tables : BootTables start pages t)
    (same : ∀ x, start.toNat ≤ x → x < t.pageTablesEnd.toNat → mem x = t.mem x)
    (low : address.toNat < pages.toNat * PAGE_SIZE) (below : pages.toNat * PAGE_SIZE ≤ 2 ^ 20) :
    t.physical? mem address = some (physical address) := by
  have first := congrArg UInt32.toNat tables.first
  unfold Tables.physical? physical
  rw [Tables.translate_congr tables.wf (by rwa [first]), Tables.translate_page,
    tables.low _ (by unfold PAGE_SIZE at *; omega), Option.map_some, if_pos (by omega)]
  unfold PAGE_SIZE
  exact congrArg some (by omega)

theorem BootTables.physical?_high (tables : BootTables start pages t)
    (same : ∀ x, start.toNat ≤ x → x < t.pageTablesEnd.toNat → mem x = t.mem x)
    (high : InKernel address) : t.physical? mem address = some (physical address) := by
  obtain ⟨above, below⟩ := high
  have first := congrArg UInt32.toNat tables.first
  have page : address.toNat / PAGE_SIZE * PAGE_SIZE =
      2 ^ 64 - 2 ^ 31 + (address.toNat - (2 ^ 64 - 2 ^ 31)) / PAGE_SIZE * PAGE_SIZE := by
    unfold PAGE_SIZE
    omega
  unfold Tables.physical? physical
  rw [Tables.translate_congr tables.wf (by rwa [first]), Tables.translate_page, page,
    tables.high _ (by unfold PAGE_SIZE; omega), Option.map_some, if_neg (by omega)]
  unfold PAGE_SIZE
  exact congrArg some (by omega)

/-- Low memory next to the tables, and the kernel's range above the first megabyte, have places of
their own, apart from the tables. -/
theorem boot_placed (tables : BootTables start pages t) (below : pages.toNat * PAGE_SIZE ≤ 2 ^ 20)
    {D : BitVec 64 → Prop}
    (inside : ∀ a, D a → InKernel a ∨ a.toNat < pages.toNat * PAGE_SIZE ∧
      (a.toNat < start.toNat ∨ t.pageTablesEnd.toNat ≤ a.toNat)) :
    Lib.Placed t.physical? D physical
      (fun p => start.toNat ≤ p ∧ p < t.pageTablesEnd.toNat) t.mem := by
  have low := tables.wf.low
  refine ⟨fun m same a here => ?_, fun a b here here' equal => ?_, fun a here kept => ?_⟩
  · rcases inside a here with high | ⟨inLow, -⟩
    · exact tables.physical?_high (fun x above less => same x ⟨above, less⟩) high
    · exact tables.physical?_low (fun x above less => same x ⟨above, less⟩) inLow below
  · apply BitVec.eq_of_toNat_eq
    unfold physical at equal
    rcases inside a here with ⟨above, less⟩ | ⟨inLow, -⟩
    · rcases inside b here' with ⟨above', less'⟩ | ⟨inLow', -⟩
      · rw [if_neg (by omega), if_neg (by omega)] at equal
        omega
      · rw [if_neg (by omega), if_pos (by omega)] at equal
        omega
    · rcases inside b here' with ⟨above', less'⟩ | ⟨inLow', -⟩
      · rw [if_pos (by omega), if_neg (by omega)] at equal
        omega
      · rwa [if_pos (by omega), if_pos (by omega)] at equal
  · unfold physical at kept
    rcases inside a here with ⟨above, less⟩ | ⟨inLow, apart⟩
    · rw [if_neg (by omega)] at kept
      omega
    · rw [if_pos (by omega)] at kept
      omega

end Places

end Tyleros.Boot.Paging
