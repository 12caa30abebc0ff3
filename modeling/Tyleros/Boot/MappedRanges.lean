import Tyleros.Boot.Mapping

/-!
# The ranges the boot loader maps

* `maps_iff`: from all tables that calls have built, the next call maps its range, and changes no
  other translation, exactly if it is a regular one.
* `boot_maps`: what is mapped after the two calls of the second stage.
-/

namespace Tyleros.Boot.Paging

open Lib

/-! ## Addresses and paths -/

section Addresses

variable {c : Call} {a b : Nat}

/-- An address with these indices. -/
def addressOf (i j k l : Fin 512) : Nat :=
  (if i.val < 256 then 0 else 2 ^ 64 - 2 ^ 48) + i * 2 ^ 39 + j * 2 ^ 30 + k * 2 ^ 21 + l * 2 ^ 12

theorem index_eq {level : Nat} {i : Fin 512} (same : a / 2 ^ (12 + 9 * level) % 512 = i) :
    index level a = i := Fin.ext same

theorem addressOf_spec (i j k l : Fin 512) :
    Canonical (addressOf i j k l) ∧ addressOf i j k l % PAGE_SIZE = 0 ∧
      tablePath (addressOf i j k l) = [i, j, k] ∧ index 0 (addressOf i j k l) = l := by
  have top : index 3 (addressOf i j k l) = i := by
    apply index_eq
    unfold addressOf
    split <;> omega
  have second : index 2 (addressOf i j k l) = j := by
    apply index_eq
    unfold addressOf
    split <;> omega
  have third : index 1 (addressOf i j k l) = k := by
    apply index_eq
    unfold addressOf
    split <;> omega
  refine ⟨?_, ?_, ?_, ?_⟩
  · unfold addressOf Canonical
    split <;> omega
  · unfold addressOf PAGE_SIZE
    split <;> omega
  · unfold tablePath
    rw [top, second, third]
  · apply index_eq
    unfold addressOf
    split <;> omega

/-- A canonical page has a path of its own. -/
theorem address_inj (canonical : Canonical a) (canonical' : Canonical b)
    (aligned : a % PAGE_SIZE = 0) (aligned' : b % PAGE_SIZE = 0) (path : tablePath a = tablePath b)
    (last : index 0 a = index 0 b) : a = b := by
  unfold tablePath at path
  obtain ⟨top, path⟩ := List.cons_eq_cons.mp path
  obtain ⟨second, path⟩ := List.cons_eq_cons.mp path
  obtain ⟨third, -⟩ := List.cons_eq_cons.mp path
  have top : a / 2 ^ 39 % 512 = b / 2 ^ 39 % 512 := congrArg Fin.val top
  have second : a / 2 ^ 30 % 512 = b / 2 ^ 30 % 512 := congrArg Fin.val second
  have third : a / 2 ^ 21 % 512 = b / 2 ^ 21 % 512 := congrArg Fin.val third
  have last : a / 2 ^ 12 % 512 = b / 2 ^ 12 % 512 := congrArg Fin.val last
  unfold Canonical at canonical canonical'
  unfold PAGE_SIZE at aligned aligned'
  omega

theorem Call.virtual_lt (c : Call) : c.virtual < 2 ^ 64 := by
  have low := c.edi.toNat_lt
  have high := c.ebx.toNat_lt
  unfold Call.virtual
  omega

/-- The pages of a range are apart from each other. -/
theorem page_inj (c : Call) (small : a < 512) (small' : b < 512) (same : c.page a = c.page b) :
    a = b := by
  have bound := c.virtual_lt
  unfold Call.page add64 PAGE_SIZE at same
  omega

theorem page_aligned (aligned : c.virtual % PAGE_SIZE = 0) (k : Nat) :
    c.page k % PAGE_SIZE = 0 := by
  unfold Call.page add64
  unfold PAGE_SIZE at aligned ⊢
  omega

/-- Up to the end of the first PML1 table the pages of a range have one path. -/
theorem page_spec (canonical : Canonical c.virtual) (aligned : c.virtual % PAGE_SIZE = 0) {k : Nat}
    (inTable : index 0 c.virtual + k < 512) :
    Canonical (c.page k) ∧ tablePath (c.page k) = tablePath c.virtual ∧
      (index 0 (c.page k)).val = index 0 c.virtual + k := by
  have bound := c.virtual_lt
  have first : (index 0 c.virtual).val = c.virtual / 2 ^ 12 % 512 := rfl
  have sum : c.page k = c.virtual + k * 4096 := by
    unfold Call.page add64 PAGE_SIZE
    unfold Canonical at canonical
    unfold PAGE_SIZE at aligned
    omega
  unfold PAGE_SIZE at aligned
  have above : (c.virtual + k * 4096) / 2 ^ 21 = c.virtual / 2 ^ 21 := by omega
  refine ⟨?_, ?_, ?_⟩
  · unfold Canonical at canonical ⊢
    omega
  · rw [sum]
    have same (level : Nat) :
        index (level + 1) (c.virtual + k * 4096) = index (level + 1) c.virtual := by
      have power : 2 ^ (12 + 9 * (level + 1)) = 2 ^ 21 * 2 ^ (9 * level) := by
        rw [← Nat.pow_add]
        congr 1
        omega
      unfold index
      rw [power, ← Nat.div_div_eq_div_mul, above, Nat.div_div_eq_div_mul]
    unfold tablePath
    rw [same 2, same 1, same 0]
  · rw [sum]
    show (c.virtual + k * 4096) / 2 ^ 12 % 512 = _
    omega

/-- The PML4 index that is written to is right for the first and the last entry. -/
theorem topRight_iff (canonical : Canonical c.virtual) :
    c.TopRight ↔ tablePath c.virtual = c.writtenPath := by
  have top : c.TopRight ↔ c.virtual / 2 ^ 39 % 512 = 0 ∨ c.virtual / 2 ^ 39 % 512 = 511 :=
    or_congr Fin.ext_iff Fin.ext_iff
  have bound := c.virtual_lt
  have path : tablePath c.virtual = c.writtenPath ↔
      c.virtual / 2 ^ 39 % 512 = c.virtual / 2 ^ 46 % 512 := by
    unfold tablePath Call.writtenPath
    constructor
    · intro same
      exact congrArg Fin.val (List.cons_eq_cons.mp same).1
    · intro same
      rw [show index 3 c.virtual = Fin.ofNat 512 (c.virtual / 2 ^ 46) from Fin.ext same]
  rw [top, path]
  rcases canonical with low | ⟨high, -⟩
  · have small : c.virtual / 2 ^ 39 < 2 ^ 8 := by omega
    have smaller : c.virtual / 2 ^ 46 % 512 = c.virtual / 2 ^ 39 / 2 ^ 7 := by omega
    rw [smaller, Nat.mod_eq_of_lt (by omega)]
    generalize c.virtual / 2 ^ 39 = x at small ⊢
    omega
  · obtain ⟨w, rfl_⟩ := Nat.exists_eq_add_of_le high
    have third : c.virtual / 2 ^ 39 % 512 = 256 + w / 2 ^ 39 := by omega
    have second : c.virtual / 2 ^ 46 % 512 = 510 + w / 2 ^ 39 / 2 ^ 7 := by omega
    have small : w / 2 ^ 39 < 2 ^ 8 := by omega
    rw [third, second]
    generalize w / 2 ^ 39 = x at small ⊢
    omega

end Addresses

/-! ## The translations of a call -/

section Translations

variable {t t' : Tables} {c : Call} {a k : Nat}

/-- The address is found through an entry that the call writes. -/
def Call.Hits (c : Call) (a : Nat) : Prop :=
  Canonical a ∧ tablePath a = c.writtenPath ∧ (index 0 c.virtual).val ≤ (index 0 a).val ∧
    (index 0 a).val < c.ecx.toNat

theorem Mapped.translate_of_hits (mapped : Mapped t t' c) (hits : c.Hits a) :
    t'.translate a =
      some ((c.esi.toNat + ((index 0 a).val - index 0 c.virtual) * PAGE_SIZE) % 2 ^ 32) := by
  obtain ⟨canonical, path, first, last⟩ := hits
  unfold Tables.translate
  rw [if_pos canonical, mapped.find _ rfl, if_pos ⟨path, first, last⟩]

theorem Mapped.translate_of_not_hits (mapped : Mapped t t' c) (misses : ¬ c.Hits a) :
    t'.translate a = t.translate a := by
  unfold Tables.translate
  by_cases canonical : Canonical a
  · rw [if_pos canonical, if_pos canonical, mapped.find _ rfl, if_neg]
    exact fun here => misses ⟨canonical, here⟩
  · rw [if_neg canonical, if_neg canonical]

/-- A page whose entry is written, in the right table. -/
theorem hits_page (legal : Legal t c) (top : c.TopRight) (written : k < c.written) :
    c.Hits (c.page k) ∧ (index 0 (c.page k)).val - index 0 c.virtual = k := by
  have count := legal.count.2
  unfold Call.written at written
  obtain ⟨canonical, path, last⟩ := page_spec (k := k) legal.canonical legal.aligned (by omega)
  have right := (topRight_iff legal.canonical).mp top
  exact ⟨⟨canonical, path.trans right, by omega, by omega⟩, by omega⟩

/-- In the right table only pages of the range are hit. -/
theorem page_of_hits (legal : Legal t c) (top : c.TopRight) (aligned : a % PAGE_SIZE = 0)
    (hits : c.Hits a) : ∃ k, k < c.written ∧ a = c.page k := by
  obtain ⟨canonical, path, first, last⟩ := hits
  have written : (index 0 a).val - index 0 c.virtual < c.written := by
    unfold Call.written
    omega
  obtain ⟨⟨canonical', path', first', -⟩, place⟩ := hits_page legal top written
  refine ⟨_, written, ?_⟩
  apply address_inj canonical canonical' aligned (page_aligned legal.aligned _)
    (path.trans path'.symm)
  apply Fin.ext
  omega

/-- In a regular call nothing changes but the pages of the range. -/
theorem Mapped.translate_other (mapped : Mapped t t' c) (legal : Legal t c) (regular : Regular t c)
    (aligned : a % PAGE_SIZE = 0) (other : c.TopRight → ∀ k, k < c.written → a ≠ c.page k) :
    t'.translate a = t.translate a := by
  by_cases hits : c.Hits a
  · by_cases top : c.TopRight
    · obtain ⟨k, written, here⟩ := page_of_hits legal top aligned hits
      exact absurd here (other top k written)
    · obtain ⟨canonical, path, first, last⟩ := hits
      have below := regular.below
      have written : (index 0 a).val - index 0 c.virtual < c.written := by
        unfold Call.written
        omega
      have before := regular.elsewhere top _ written
      have place : Fin.ofNat 512 ((index 0 c.virtual).val + ((index 0 a).val - index 0 c.virtual)) =
          index 0 a := by
        apply Fin.ext
        show _ % 512 = _
        omega
      rw [place, ← path] at before
      rw [mapped.translate_of_hits ⟨canonical, path, first, last⟩]
      unfold Tables.translate
      rw [if_pos canonical, before, Nat.mod_eq_of_lt]
      unfold Call.written at written
      unfold PAGE_SIZE at below ⊢
      omega
  · exact mapped.translate_of_not_hits hits

theorem maps_of_regular (wf : Wf t) (legal : Legal t c) (regular : Regular t c) : Maps t c := by
  have below := regular.below
  obtain ⟨t', mapped, returns⟩ := mapContiguousPages_eq wf legal regular.reached
  refine ⟨c.written, t', by rw [returns, if_pos (Nat.le_refl _)], fun k inRange => ?_,
    fun a aligned other => ?_⟩
  · by_cases written : c.TopRight ∧ k < c.written
    · obtain ⟨hits, place⟩ := hits_page legal written.1 written.2
      rw [mapped.translate_of_hits hits, place, Nat.mod_eq_of_lt]
      unfold PAGE_SIZE at below ⊢
      omega
    · rw [← regular.already k inRange written]
      apply mapped.translate_other legal regular (page_aligned legal.aligned k)
      intro top m here same
      have count := legal.count.2
      have bound : m < c.ecx.toNat := by
        unfold Call.written at here
        omega
      apply written
      obtain rfl := page_inj c (by omega) (by omega) same
      exact ⟨top, here⟩
  · apply mapped.translate_other legal regular aligned
    intro _ k written
    apply other
    unfold Call.written at written
    omega

/-- When a call has mapped its range, a page of it that is hit is one whose entry was written, in
the right table. -/
theorem topRight_of_hits (mapped : Mapped t t' c) (legal : Legal t c)
    (below : c.esi.toNat + c.ecx.toNat * PAGE_SIZE ≤ 2 ^ 32) (inRange : k < c.ecx.toNat)
    (range : t'.translate (c.page k) = some (c.esi.toNat + k * PAGE_SIZE))
    (hits : c.Hits (c.page k)) : c.TopRight ∧ k < c.written := by
  have value := Option.some.inj (range.symm.trans (mapped.translate_of_hits hits))
  obtain ⟨canonical, path, first, last⟩ := hits
  have place : (index 0 (c.page k)).val - index 0 c.virtual = k := by
    unfold PAGE_SIZE at below value
    omega
  have written : k < c.written := by
    unfold Call.written
    omega
  have small := (index 0 (c.page k)).isLt
  obtain ⟨-, path', -⟩ := page_spec (k := k) legal.canonical legal.aligned (by omega)
  exact ⟨(topRight_iff legal.canonical).mpr (path'.symm.trans path), written⟩

/-- A call returns only if the loop reaches its end. -/
theorem mapped_of_ok {fuel : Nat} (wf : Wf t) (legal : Legal t c)
    (done : mapContiguousPages fuel c t = .ok t') :
    (index 0 c.virtual).val < c.ecx.toNat ∧ Mapped t t' c := by
  have reached : (index 0 c.virtual).val < c.ecx.toNat := by
    by_contra behind
    rw [mapContiguousPages_hangs fuel t legal.count (by omega)] at done
    cases done
  obtain ⟨t₁, mapped, returns⟩ := mapContiguousPages_eq wf legal reached
  rw [returns] at done
  split at done
  · cases done
    exact ⟨reached, mapped⟩
  · cases done

theorem regular_of_maps (wf : Wf t) (legal : Legal t c) (maps : Maps t c) : Regular t c := by
  obtain ⟨fuel, t', done, range, others⟩ := maps
  obtain ⟨reached, mapped⟩ := mapped_of_ok wf legal done
  have count := legal.count
  have below : c.esi.toNat + c.ecx.toNat * PAGE_SIZE ≤ 2 ^ 32 := by
    have last := range (c.ecx.toNat - 1) (by omega)
    unfold Tables.translate at last
    split at last
    · rcases mapped.wf.tree with none_ | tree
      · unfold Tables.find at last
        rw [if_pos none_] at last
        cases last
      · have bound := tree.find_lt last
        unfold PAGE_SIZE at bound ⊢
        omega
    · cases last
  refine ⟨reached, below, fun k inRange unwritten => ?_, fun wrong k written => ?_⟩
  · rw [← range k inRange]
    apply Eq.symm
    apply mapped.translate_of_not_hits
    exact fun hits => unwritten (topRight_of_hits mapped legal below inRange (range k inRange) hits)
  · -- the canonical address of the entry that is written
    unfold Call.written at written
    have place : (Fin.ofNat 512 ((index 0 c.virtual).val + k)).val = index 0 c.virtual + k :=
      Nat.mod_eq_of_lt (by omega)
    obtain ⟨canonical, aligned, path, last⟩ := addressOf_spec
      (Fin.ofNat 512 (c.virtual / 2 ^ 46)) (index 2 c.virtual) (index 1 c.virtual)
      (Fin.ofNat 512 ((index 0 c.virtual).val + k))
    have hits : c.Hits (addressOf _ _ _ _) :=
      ⟨canonical, path, by rw [last, place]; omega, by rw [last, place]; omega⟩
    have other := others _ aligned fun m inRange same => by
      rw [same] at hits
      exact wrong (topRight_of_hits mapped legal below inRange (range m inRange) hits).1
    rw [mapped.translate_of_hits hits, last, place, Nat.add_sub_cancel_left, Nat.mod_eq_of_lt] at other
    · rw [other]
      unfold Tables.translate
      rw [if_pos canonical, path, last]
      rfl
    · unfold PAGE_SIZE at below ⊢
      omega

end Translations

/-! ## Every state -/

variable {start : UInt32} {t : Tables} {c : Call}

theorem Built.wf (built : Built start t) : Wf t := by
  induction built with
  | empty mem aligned low => exact ⟨aligned, low, Or.inl rfl⟩
  | call built legal done wf => exact (mapped_of_ok wf legal done).2.wf
  | code mem built same wf =>
      refine ⟨wf.aligned, wf.low, ?_⟩
      rcases wf.tree with none_ | tree
      · exact Or.inl none_
      · exact Or.inr (tree.congr same)

/-- From all tables that calls have built, the next call maps its range and changes no other
translation exactly if it is regular. -/
theorem maps_iff (built : Built start t) (legal : Legal t c) : Maps t c ↔ Regular t c :=
  ⟨regular_of_maps built.wf legal, maps_of_regular built.wf legal⟩

/-- From the first entry of the right table on, a range below 4 GiB is regular. -/
theorem regular_of_first (count : 1 ≤ c.ecx.toNat) (top : c.TopRight)
    (first : index 0 c.virtual = 0) (below : c.esi.toNat + c.ecx.toNat * PAGE_SIZE ≤ 2 ^ 32) : Regular t c := by
  refine ⟨?_, below, fun k inRange unwritten => absurd ⟨top, ?_⟩ unwritten,
    fun wrong => absurd top wrong⟩
  · rw [first]
    exact count
  · unfold Call.written
    rw [first]
    exact inRange

/-- No tables yet, and memory that is not zero. -/
def noTables : Tables := ⟨fun _ => 0xCC, 0x10000, 0x10000⟩

theorem noTables_built : Built 0x10000 noTables := Built.empty _ (by decide) (by decide)

theorem noTables_translate (address : Nat) : noTables.translate address = none := by
  unfold Tables.translate Tables.find
  rw [if_pos (show noTables.pageTablesStart = noTables.pageTablesEnd from rfl), ite_self]

/-- The two ranges of `stage2.asm`: 640 KiB of low memory, and the first 2 MiB where the kernel
is to be. -/
theorem maps_boot_ranges :
    Maps noTables ⟨0, 0, 0, 160⟩ ∧ Maps noTables ⟨0, 0x80000000, 0xFFFFFFFF, 0x200⟩ := by
  constructor
  · have legal : Legal noTables ⟨0, 0, 0, 160⟩ :=
      ⟨by decide, by decide, by decide, by decide, by decide⟩
    apply (maps_iff noTables_built legal).mpr
    exact regular_of_first (by decide) (Or.inl (by decide)) (by decide) (by decide)
  · have legal : Legal noTables ⟨0, 0x80000000, 0xFFFFFFFF, 0x200⟩ :=
      ⟨by decide, by decide, by decide, by decide, by decide⟩
    apply (maps_iff noTables_built legal).mpr
    exact regular_of_first (by decide) (Or.inr (by decide)) (by decide) (by decide)

/-- Of two pages from the second entry of a table on, the second one is not mapped; a call for
that entry alone does not return; and a page at 512 GiB is mapped at address 0. -/
theorem not_maps_ranges :
    ¬ Maps noTables ⟨0, 0x1000, 0, 2⟩ ∧ ¬ Maps noTables ⟨0, 0x1000, 0, 1⟩ ∧
      ¬ Maps noTables ⟨0, 0, 0x80, 1⟩ := by
  refine ⟨fun maps => ?_, fun maps => ?_, fun maps => ?_⟩
  · have legal : Legal noTables ⟨0, 0x1000, 0, 2⟩ :=
      ⟨by decide, by decide, by decide, by decide, by decide⟩
    have regular := regular_of_maps noTables_built.wf legal maps
    have mapped := regular.already 1 (by decide) fun written => absurd written.2 (by decide)
    cases (noTables_translate _).symm.trans mapped
  · have legal : Legal noTables ⟨0, 0x1000, 0, 1⟩ :=
      ⟨by decide, by decide, by decide, by decide, by decide⟩
    have regular := regular_of_maps noTables_built.wf legal maps
    exact absurd regular.reached (by decide)
  · have legal : Legal noTables ⟨0, 0, 0x80, 1⟩ :=
      ⟨by decide, by decide, by decide, by decide, by decide⟩
    have regular := regular_of_maps noTables_built.wf legal maps
    have wrong : ¬ Call.TopRight ⟨0, 0, 0x80, 1⟩ := fun top =>
      top.elim (fun h => absurd h (by decide)) (fun h => absurd h (by decide))
    have mapped := regular.already 0 (by decide) fun written => wrong written.1
    cases (noTables_translate _).symm.trans mapped

/-! ## The calls of the second stage -/

/-- The identity map of all of low memory. -/
def lowMemoryCall (pages : UInt32) : Call := ⟨0, 0, 0, pages⟩

/-- The map of the first 2 MiB where the kernel is linked. -/
def kernelCall : Call := ⟨0, 0x80000000, 0xFFFFFFFF, 0x200⟩

theorem virtual_lowMemoryCall (pages : UInt32) : (lowMemoryCall pages).virtual = 0 := by
  show (0 : UInt32).toNat * 2 ^ 32 + (0 : UInt32).toNat = 0
  decide

theorem virtual_kernelCall : kernelCall.virtual = 2 ^ 64 - 2 ^ 31 := by decide

theorem lowMemoryCall_page {pages : UInt32} {k : Nat} (small : k < 512) :
    (lowMemoryCall pages).page k = k * PAGE_SIZE := by
  unfold Call.page add64 PAGE_SIZE
  rw [virtual_lowMemoryCall]
  omega

theorem kernelCall_page {k : Nat} (small : k < 512) :
    kernelCall.page k = 2 ^ 64 - 2 ^ 31 + k * PAGE_SIZE := by
  unfold Call.page add64 PAGE_SIZE
  rw [virtual_kernelCall]
  omega

/-- Whatever was in memory, with room for seven tables both calls of `stage2.asm` return, and the
processor then finds low memory and the kernel's range, and no page besides. -/
theorem boot_maps (mem : Memory) {start pages : UInt32} (aligned : start.toNat % PAGE_SIZE = 0)
    (room : start.toNat + 7 * PAGE_SIZE ≤ 2 ^ 20) (some_ : 1 ≤ pages.toNat)
    (few : pages.toNat ≤ 512) :
    ∃ fuel fuel' t t', mapContiguousPages fuel (lowMemoryCall pages) ⟨mem, start, start⟩ = .ok t ∧
      mapContiguousPages fuel' kernelCall t = .ok t' ∧
      (∀ k, k < pages.toNat → t'.translate (k * PAGE_SIZE) = some (k * PAGE_SIZE)) ∧
      (∀ k, k < 512 → t'.translate (2 ^ 64 - 2 ^ 31 + k * PAGE_SIZE) = some (k * PAGE_SIZE)) ∧
      ∀ address, address % PAGE_SIZE = 0 → (∀ k, k < pages.toNat → address ≠ k * PAGE_SIZE) →
        (∀ k, k < 512 → address ≠ 2 ^ 64 - 2 ^ 31 + k * PAGE_SIZE) →
        t'.translate address = none := by
  unfold PAGE_SIZE at room
  have built : Built start ⟨mem, start, start⟩ := Built.empty mem aligned (by omega)
  -- the first call allocates the four tables of one path
  have legal : Legal ⟨mem, start, start⟩ (lowMemoryCall pages) := by
    refine ⟨rfl, ?_, ?_, ⟨some_, few⟩, ?_⟩
    · rw [virtual_lowMemoryCall]
      rfl
    · rw [virtual_lowMemoryCall]
      exact Or.inl (by decide)
    unfold Tables.needed
    rw [if_pos rfl]
    show start.toNat + 4 * 4096 ≤ 2 ^ 20
    omega
  have regular : Regular ⟨mem, start, start⟩ (lowMemoryCall pages) := by
    have first (level : Nat) : index level (lowMemoryCall pages).virtual = index level 0 :=
      congrArg (index level) (virtual_lowMemoryCall pages)
    apply regular_of_first some_ (Or.inl (first 3)) (first 0)
    show 0 + pages.toNat * 4096 ≤ 2 ^ 32
    omega
  obtain ⟨fuel, t, done, low, others⟩ := maps_of_regular built.wf legal regular
  have mapped := (mapped_of_ok built.wf legal done).2
  have stop : t.pageTablesEnd.toNat = start.toNat + 4 * 4096 := by
    rw [mapped.stop]
    unfold Tables.needed
    rw [if_pos rfl]
    rfl
  -- the second one shares the first of them at least
  have nonempty : t.pageTablesStart ≠ t.pageTablesEnd := by
    intro same
    have first : t.pageTablesEnd.toNat = start.toNat := by
      rw [← same, mapped.start]
    omega
  have legal' : Legal t kernelCall := by
    refine ⟨by decide, by decide, by decide, by decide, ?_⟩
    have three :=
      missing_le_length (child t.mem) (3, t.pageTablesStart.toNat) kernelCall.writtenPath
    unfold Tables.needed PAGE_SIZE
    rw [if_neg nonempty, stop]
    change _ ≤ 3 at three
    omega
  have regular' : Regular t kernelCall :=
    regular_of_first (by decide) (Or.inr (by decide)) (by decide) (by decide)
  obtain ⟨fuel', t', done', high, others'⟩ := maps_of_regular mapped.wf legal' regular'
  refine ⟨fuel, fuel', t, t', done, done', fun k inRange => ?_, fun k inRange => ?_,
    fun address whole notLow notHigh => ?_⟩
  · have found := low k inRange
    rw [lowMemoryCall_page (inRange.trans_le few)] at found
    rw [others' _ (Nat.mul_mod_left _ _), found]
    · exact congrArg some (Nat.zero_add _)
    · intro k' inRange' same
      rw [kernelCall_page inRange'] at same
      unfold PAGE_SIZE at same
      omega
  · rw [← kernelCall_page inRange, high k inRange]
    exact congrArg some (Nat.zero_add _)
  · rw [others' _ whole, others _ whole]
    · unfold Tables.translate Tables.find
      rw [if_pos rfl, ite_self]
    · intro k inRange
      rw [lowMemoryCall_page (inRange.trans_le few)]
      exact notLow k inRange
    · intro k inRange
      rw [kernelCall_page inRange]
      exact notHigh k inRange

end Tyleros.Boot.Paging
