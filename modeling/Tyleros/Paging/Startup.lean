import Tyleros.Paging.Protection

/-!
# The tables at startup

Which entries `early_init` leaves behind, page by page (`Entries.leaf`), and that
`enable_kernel_page_protection` completes when the sections of the image end below the
guard page (`boot_completes`).
-/

namespace Tyleros.Paging

open Tyleros.Lib

/-! ## The entries `early_init` writes -/

/-- What `early_init` enters for a page of the lowest 2 MiB. -/
def identityEntry (i : Nat) : Word := BitVec.ofNat 64 (i * PAGE_SIZE) ||| XD ||| PRESENT

theorem State.entry_foldl_mapIdentity {s : State} {t t' : Word} (h : t.toNat % PAGE_SIZE = 0)
    (h' : t'.toNat % PAGE_SIZE = 0) {l : List Nat} (bound : ∀ i ∈ l, i < 512) {i' : Nat}
    (hi' : i' < 512) :
    (l.foldl (mapIdentity t) s).entry t' i' =
      if t' = t ∧ i' ∈ l then identityEntry i' else s.entry t' i' := by
  induction l generalizing s with
  | nil =>
      rw [if_neg fun both => List.not_mem_nil both.2]
      rfl
  | cons i l ih =>
      obtain ⟨hi, rest⟩ := List.forall_mem_cons.mp bound
      have step : (mapIdentity t s i).entry t' i' =
          if t' = t ∧ i' = i then identityEntry i else s.entry t' i' :=
        State.entry_store h h' hi hi'
      rw [List.foldl_cons, ih rest, step]
      by_cases here : t' = t
      · by_cases later : i' ∈ l
        · rw [if_pos ⟨here, later⟩, if_pos ⟨here, List.mem_cons_of_mem i later⟩]
        · rw [if_neg fun both => later both.2]
          by_cases first : i' = i
          · subst first
            rw [if_pos ⟨here, rfl⟩, if_pos ⟨here, List.mem_cons_self⟩]
          · rw [if_neg fun both => first both.2, if_neg]
            rintro ⟨-, mem⟩
            exact (List.mem_cons.mp mem).elim first later
      · rw [if_neg fun both => here both.1, if_neg fun both => here both.1,
          if_neg fun both => here both.1]

/-- The tables that `early_init` fills. -/
structure Entries (y : Symbols) (s : State) : Prop where
  kernelPml4 : ∀ i, i < 512 → s.entry y.kernelPml4 i =
    if i = 0x1FF then tableEntry y.kernelPml3 else if i = 0 then tableEntry y.identityPml3 else 0#64
  kernelPml3 : ∀ i, i < 512 → s.entry y.kernelPml3 i =
    if i = 0x1FE then tableEntry y.kernelPml2 else 0#64
  kernelPml2 : ∀ i, i < 512 → s.entry y.kernelPml2 i =
    if i = 0 then tableEntry y.kernelPml1 else 0#64
  kernelPml1 : ∀ i, i < 512 → s.entry y.kernelPml1 i =
    if 0x100 ≤ i then identityEntry i else 0#64
  identityPml3 : ∀ i, i < 512 → s.entry y.identityPml3 i =
    if i = 0 then tableEntry y.identityPml2 else 0#64
  identityPml2 : ∀ i, i < 512 → s.entry y.identityPml2 i =
    if i = 0 then tableEntry y.identityPml1 else 0#64
  identityPml1 : ∀ i, i < 512 → s.entry y.identityPml1 i =
    if 1 ≤ i then identityEntry i else 0#64

theorem earlyInit_entries (y : Layout) (memory : Word → Word) :
    Entries y.toSymbols (earlyInit y.toSymbols (image y.toSymbols memory)) := by
  obtain ⟨⟨ne43, ne42, ne41, ne4i3, ne4i2, ne4i1⟩, ⟨ne32, ne31, ne3i3, ne3i2, ne3i1⟩,
    ⟨ne21, ne2i3, ne2i2, ne2i1⟩, ⟨ne1i3, ne1i2, ne1i1⟩, ⟨nei3i2, nei3i1⟩, nei2i1⟩ := y.named_ne
  have mem := fun t => y.named_mem (t := t)
  have al4 := y.aligned _ (mem y.kernelPml4 (by simp))
  have al3 := y.aligned _ (mem y.kernelPml3 (by simp))
  have al2 := y.aligned _ (mem y.kernelPml2 (by simp))
  have al1 := y.aligned _ (mem y.kernelPml1 (by simp))
  have ali3 := y.aligned _ (mem y.identityPml3 (by simp))
  have ali2 := y.aligned _ (mem y.identityPml2 (by simp))
  have ali1 := y.aligned _ (mem y.identityPml1 (by simp))
  have upper : ∀ i ∈ List.range' 0x100 0x100, i < 512 := by simp [List.mem_range'_1]
  have lower : ∀ i ∈ List.range' 1 0x1FF, i < 512 := by simp [List.mem_range'_1]
  -- what was stored last comes first
  have entry : ∀ t i, t ∈ y.tables → i < 512 →
      (earlyInit y.toSymbols (image y.toSymbols memory)).entry t i =
        if t = y.identityPml1 ∧ 1 ≤ i then identityEntry i
        else if t = y.identityPml1 ∧ i = 0 then 0#64
        else if t = y.identityPml2 ∧ i = 0 then tableEntry y.identityPml1
        else if t = y.identityPml3 ∧ i = 0 then tableEntry y.identityPml2
        else if t = y.kernelPml4 ∧ i = 0 then tableEntry y.identityPml3
        else if t = y.kernelPml1 ∧ 0x100 ≤ i then identityEntry i
        else if t = y.kernelPml2 ∧ i = 0 then tableEntry y.kernelPml1
        else if t = y.kernelPml3 ∧ i = 0x1FE then tableEntry y.kernelPml2
        else if t = y.kernelPml4 ∧ i = 0x1FF then tableEntry y.kernelPml3
        else 0#64 := by
    intro t i mem hi
    have al := y.aligned t mem
    have inUpper : i ∈ List.range' 0x100 0x100 ↔ 0x100 ≤ i := by
      rw [List.mem_range'_1]
      omega
    have inLower : i ∈ List.range' 1 0x1FF ↔ 1 ≤ i := by
      rw [List.mem_range'_1]
      omega
    rw [earlyInit_eq]
    unfold mapLowMemory mapKernelImage
    dsimp only
    rw [State.entry_foldl_mapIdentity ali1 al lower hi, State.entry_store ali1 al (by decide) hi,
      State.entry_store ali2 al (by decide) hi, State.entry_store ali3 al (by decide) hi,
      State.entry_store al4 al (by decide) hi, State.entry_foldl_mapIdentity al1 al upper hi,
      State.entry_store al2 al (by decide) hi, State.entry_store al3 al (by decide) hi,
      State.entry_store al4 al (by decide) hi, image_zero y memory mem hi]
    simp only [inUpper, inLower]
  refine ⟨fun i hi => ?_, fun i hi => ?_, fun i hi => ?_, fun i hi => ?_, fun i hi => ?_,
    fun i hi => ?_, fun i hi => ?_⟩
  · rw [entry _ i (mem _ (by simp)) hi]
    simp [ne43, ne42, ne41, ne4i3, ne4i2, ne4i1]
    grind
  · rw [entry _ i (mem _ (by simp)) hi]
    simp [Ne.symm ne43, ne32, ne31, ne3i3, ne3i2, ne3i1]
  · rw [entry _ i (mem _ (by simp)) hi]
    simp [Ne.symm ne42, Ne.symm ne32, ne21, ne2i3, ne2i2, ne2i1]
  · rw [entry _ i (mem _ (by simp)) hi]
    simp [Ne.symm ne41, Ne.symm ne31, Ne.symm ne21, ne1i3, ne1i2, ne1i1]
  · rw [entry _ i (mem _ (by simp)) hi]
    simp [Ne.symm ne4i3, Ne.symm ne3i3, Ne.symm ne2i3, Ne.symm ne1i3, nei3i2, nei3i1]
  · rw [entry _ i (mem _ (by simp)) hi]
    simp [Ne.symm ne4i2, Ne.symm ne3i2, Ne.symm ne2i2, Ne.symm ne1i2, Ne.symm nei3i2, nei2i1]
  · rw [entry _ i (mem _ (by simp)) hi]
    simp [Ne.symm ne4i1, Ne.symm ne3i1, Ne.symm ne2i1, Ne.symm ne1i1, Ne.symm nei3i1, Ne.symm nei2i1]

/-! ## The pages -/

section Pages

variable {s : State} {t c : Word} {l i : Nat}

theorem State.child_of_zero (zero : s.entry t i = 0#64) : s.child (l + 1, t) i = none := by
  rw [State.child, zero, if_neg]
  rintro ⟨-, present⟩
  exact present rfl

theorem State.child_of_tableEntry (ptr : TablePtr c) (hi : i < 512) (refers : s.entry t i = tableEntry c) :
    s.child (l + 1, t) i = some (l, c) := by
  rw [State.child, refers, if_pos ⟨hi, tableEntry_present c⟩, tableEntry_masked ptr,
    BitVec.sub_add_cancel]

/-- A table that has one entry. -/
theorem State.child_of_single {k : Nat} (ptr : TablePtr c) (hi : i < 512)
    (single : s.entry t i = if i = k then tableEntry c else 0#64) :
    s.child (l + 1, t) i = if i = k then some (l, c) else none := by
  by_cases here : i = k
  · rw [if_pos here] at single ⊢
    exact State.child_of_tableEntry ptr hi single
  · rw [if_neg here] at single ⊢
    exact State.child_of_zero single

end Pages

/-- The entry of a page after `early_init`. -/
def startEntry (page : Word) : Word :=
  if path page = [0x1FF, 0x1FE, 0] ∧ 0x100 ≤ index page 0 then identityEntry (index page 0)
  else if path page = [0, 0, 0] ∧ 1 ≤ index page 0 then identityEntry (index page 0)
  else 0#64

/-- The tables of the 1 GiB that the kernel is in, and of the lowest 1 GiB. -/
structure Rooted (y : Symbols) (s : State) : Prop where
  kernel : walk s.child (3, s.base) [0x1FF, 0x1FE] = some (1, y.kernelPml2)
  low : walk s.child (3, s.base) [0, 0] = some (1, y.identityPml2)

section Start

variable {y : Layout} {s : State}

theorem Entries.leaf (entries : Entries y.toSymbols s) (base : s.base = y.kernelPml4) (page : Word) :
    s.leaf page = if path page = [0x1FF, 0x1FE, 0] then some (0, y.kernelPml1)
      else if path page = [0, 0, 0] then some (0, y.identityPml1) else none := by
  have mem : ∀ t, t ∈ [y.kernelPml4, y.kernelPml3, y.kernelPml2, y.kernelPml1, y.identityPml3,
      y.identityPml2, y.identityPml1] → TablePtr t :=
    fun t h => y.pointer (List.mem_append.mpr (Or.inl h))
  have h3 := index_lt page 3
  have h2 := index_lt page 2
  have h1 := index_lt page 1
  have child3 := State.child_of_single (l := 1) (mem y.kernelPml2 (by simp)) h2
    (entries.kernelPml3 _ h2)
  have child2 := State.child_of_single (l := 0) (mem y.kernelPml1 (by simp)) h1
    (entries.kernelPml2 _ h1)
  have childI3 := State.child_of_single (l := 1) (mem y.identityPml2 (by simp)) h2
    (entries.identityPml3 _ h2)
  have childI2 := State.child_of_single (l := 0) (mem y.identityPml1 (by simp)) h1
    (entries.identityPml2 _ h1)
  have root := entries.kernelPml4 _ h3
  unfold State.leaf
  simp only [path, List.cons.injEq, and_true, walk, base]
  split at root
  · next top =>
      rw [State.child_of_tableEntry (mem y.kernelPml3 (by simp)) h3 root, Option.bind_some, child3]
      by_cases second : index page 2 = 0x1FE
      · rw [if_pos second, Option.bind_some, child2]
        by_cases third : index page 1 = 0
        · simp [top, second, third]
        · simp [top, second, third]
      · simp [top, second]
  · split at root
    · next other top =>
        rw [State.child_of_tableEntry (mem y.identityPml3 (by simp)) h3 root, Option.bind_some,
          childI3]
        by_cases second : index page 2 = 0
        · rw [if_pos second, Option.bind_some, childI2]
          by_cases third : index page 1 = 0
          · simp [top, second, third]
          · simp [top, second, third]
        · simp [top, second]
    · next other notLow =>
        rw [State.child_of_zero root]
        simp [other, notLow]

theorem Entries.entryOf (entries : Entries y.toSymbols s) (base : s.base = y.kernelPml4) (page : Word) :
    s.entryOf page = startEntry page := by
  have h0 := index_lt page 0
  have leaf := entries.leaf base page
  unfold startEntry
  by_cases kernel : path page = [0x1FF, 0x1FE, 0]
  · rw [if_pos kernel] at leaf
    rw [State.entryOf_of_leaf leaf, entries.kernelPml1 _ h0]
    simp [kernel]
  · rw [if_neg kernel] at leaf
    by_cases low : path page = [0, 0, 0]
    · rw [if_pos low] at leaf
      rw [State.entryOf_of_leaf leaf, entries.identityPml1 _ h0]
      simp [low]
    · rw [if_neg low] at leaf
      rw [State.entryOf_of_missing leaf]
      simp [kernel, low]

theorem Entries.rooted (entries : Entries y.toSymbols s) (base : s.base = y.kernelPml4) :
    Rooted y.toSymbols s := by
  have mem : ∀ t, t ∈ [y.kernelPml4, y.kernelPml3, y.kernelPml2, y.kernelPml1, y.identityPml3,
      y.identityPml2, y.identityPml1] → TablePtr t :=
    fun t h => y.pointer (List.mem_append.mpr (Or.inl h))
  have top := State.child_of_tableEntry (l := 2) (mem y.kernelPml3 (by simp)) (by decide)
    (entries.kernelPml4 0x1FF (by decide))
  have second := State.child_of_tableEntry (l := 1) (mem y.kernelPml2 (by simp)) (by decide)
    (entries.kernelPml3 0x1FE (by decide))
  have lowTop := State.child_of_tableEntry (l := 2) (mem y.identityPml3 (by simp)) (by decide)
    (entries.kernelPml4 0 (by decide))
  have lowSecond := State.child_of_tableEntry (l := 1) (mem y.identityPml2 (by simp)) (by decide)
    (entries.identityPml3 0 (by decide))
  constructor
  · rw [walk, base, top, Option.bind_some, walk, second]
    rfl
  · rw [walk, base, lowTop, Option.bind_some, walk, lowSecond]
    rfl

end Start

/-! ## Protecting the pages -/

section Protecting

variable {y : Layout} {s : State} {level : Word → Option Nat} {r : Region}

/-- A page that is present can be changed. -/
theorem Wf.regionPage_ok (wf : Wf y s level) {c : Word} (present : s.entryOf c &&& PRESENT ≠ 0#64) :
    ∃ t, s.leaf c = some (0, t) ∧
      r.page c s = .ok (s.store (slot t (index c 0)) (r.edit (s.entryOf c))) := by
  obtain ⟨it, found, outcome⟩ := find_spec wf.tree c
  rcases outcome with ⟨t, reached, cursor⟩ | ⟨missing, -⟩
  · have ptr := wf.tree.pointer (wf.tree.leaf_level reached).2
    have entry := State.entryOf_of_leaf reached
    have notEnd : it.same Iterator.atEnd = false := by
      simp [Iterator.same, Iterator.atEnd, cursor.level]
    have isPresent : it.present s = .ok true := by
      rw [cursor.present ptr (by omega), ← entry, bne_iff_ne.mpr present]
    have asserted : r.assertPresent it s = .ok () := by
      unfold Region.assertPresent
      split
      · rw [isPresent]
        rfl
      · rfl
    refine ⟨t, reached, ?_⟩
    unfold Region.page
    rw [found, ok_bind, notEnd, cursor.exists ptr, asserted, cursor.read ptr (by omega), ← entry]
    simp only [Bool.not_false, Bool.or_true, Bool.and_self, kassert_true, ok_bind]
    rw [cursor.write ptr (by omega)]
  · rw [State.entryOf_of_missing missing] at present
    exact absurd rfl present

/-- Page `i` of the kernel image. -/
def imagePage (i : Nat) : Word := pageAt Sections.textStart i

theorem imagePage_toNat {i : Nat} (hi : i < 256) :
    (imagePage i).toNat = KERNEL_VMA_START + PAGE_SIZE * i := by
  simp only [imagePage, pageAt, Sections.textStart, KERNEL_VMA_START, PAGE_SIZE, BitVec.toNat_add,
    BitVec.toNat_ofNat]
  omega

theorem imagePage_canonical {i : Nat} (hi : i < 256) : CanonicalPage (imagePage i) := by
  have address := imagePage_toNat hi
  unfold KERNEL_VMA_START at address
  refine ⟨?_, Or.inr ?_⟩
  · unfold PAGE_SIZE at *
    omega
  · omega

theorem pageAt_imagePage (i j : Nat) : pageAt (imagePage i) j = imagePage (i + j) :=
  pageAt_pageAt _ i j

/-- From `s` to `s'` only entries of the kernel image changed. -/
structure Reprotects (s s' : State) : Prop where
  base : s'.base = s.base
  left : s'.tablesLeft = s.tablesLeft
  pool : s'.dynamicTables = s.dynamicTables
  walks : ∀ p, walk s'.child (3, s.base) p = walk s.child (3, s.base) p
  others : ∀ page, CanonicalPage page → (∀ i, i < 256 → page ≠ imagePage i) →
    s'.entryOf page = s.entryOf page

theorem Reprotects.refl (s : State) : Reprotects s s :=
  ⟨rfl, rfl, rfl, fun _ => rfl, fun _ _ _ => rfl⟩

theorem Reprotects.trans {s₁ s₂ s₃ : State} (first : Reprotects s₁ s₂) (second : Reprotects s₂ s₃) :
    Reprotects s₁ s₃ := by
  refine ⟨second.base.trans first.base, second.left.trans first.left, second.pool.trans first.pool,
    fun p => ?_, fun page canonical outside => ?_⟩
  · have walks := second.walks p
    rw [first.base] at walks
    rw [walks, first.walks p]
  · rw [second.others page canonical outside, first.others page canonical outside]

theorem Wf.reprotects (wf : Wf y s level) {i : Nat} (hi : i < 256) {t : Word} (w : Word)
    (reached : s.leaf (imagePage i) = some (0, t)) :
    Reprotects s (s.store (slot t (index (imagePage i) 0)) w) := by
  obtain ⟨-, used⟩ := wf.tree.leaf_level reached
  refine ⟨rfl, rfl, rfl, wf.tree.walk_setLeaf used (index_lt _ 0), fun page canonical outside => ?_⟩
  exact (wf.tree.entryOf_setLeaf reached).2 page (imagePage_canonical hi) canonical (outside i hi)

/-- A loop over pages that are present completes, and they stay present. -/
theorem Wf.regionPages_ok (wf : Wf y s level) {a n : Nat} (inside : a + n ≤ 256)
    (keeps : ∀ w, w &&& PRESENT ≠ 0#64 → r.edit w &&& PRESENT ≠ 0#64)
    (present : ∀ i, i < 256 → s.entryOf (imagePage i) &&& PRESENT ≠ 0#64) :
    ∃ s', r.pages n (imagePage a) s = .ok s' ∧ Wf y s' level ∧ Reprotects s s' ∧
      ∀ i, i < 256 → s'.entryOf (imagePage i) &&& PRESENT ≠ 0#64 := by
  induction n generalizing a s with
  | zero => exact ⟨s, rfl, wf, Reprotects.refl s, present⟩
  | succ n ih =>
      obtain ⟨t, reached, done⟩ := wf.regionPage_ok (r := r) (present a (by omega))
      obtain ⟨-, used⟩ := wf.tree.leaf_level reached
      have next : imagePage a + BitVec.ofNat 64 PAGE_SIZE = imagePage (a + 1) := by
        rw [← pageAt_imagePage]
        rfl
      have stays : ∀ i, i < 256 → (s.store (slot t (index (imagePage a) 0))
          (r.edit (s.entryOf (imagePage a)))).entryOf (imagePage i) &&& PRESENT ≠ 0#64 := by
        intro i hi
        rcases wf.tree.entryOf_setLeaf_or (w := r.edit (s.entryOf (imagePage a))) used
          (index_lt (imagePage a) 0) (imagePage i) with new | old
        · rw [new]
          exact keeps _ (present a (by omega))
        · rw [old]
          exact present i hi
      have wf₁ := wf.setLeaf (w := r.edit (s.entryOf (imagePage a))) used (index_lt (imagePage a) 0)
      obtain ⟨s', rest, wf', reprotects, stays'⟩ := ih wf₁ (a := a + 1) (by omega) stays
      refine ⟨s', ?_, wf', (wf.reprotects (by omega) _ reached).trans reprotects, stays'⟩
      rw [Region.pages, done, ok_bind, next]
      exact rest

theorem Tree.getPhysicalAddress_ok {fresh : Set Word} (tree : Tree s level fresh) {page : Word}
    (canonical : CanonicalPage page) (present : s.entryOf page &&& PRESENT ≠ 0#64) :
    Paging.getPhysicalAddress page s = .ok (s.entryOf page &&& ADDRESS_MASK) := by
  have translated := tree.getPhysicalAddress canonical present (show 0 < PAGE_SIZE by decide)
  rw [show page + BitVec.ofNat 64 0 = page from BitVec.add_zero page] at translated
  rw [translated]
  exact congrArg _ (BitVec.add_zero _)

end Protecting

/-- `KERNEL_STACK`, from where the kernel stack grows down. -/
def KERNEL_STACK : Word := 0xFFFFFFFF80200000#64

theorem keeps_present {w attrs : Word} (absent : attrs.getLsbD 0 = false)
    (present : w &&& PRESENT ≠ 0#64) : w &&& ~~~ attrs &&& PRESENT ≠ 0#64 := by
  rw [present_iff] at present ⊢
  rw [BitVec.getLsbD_and, BitVec.getLsbD_not, present, absent]
  rfl

theorem or_present {w attrs : Word} (present : w &&& PRESENT ≠ 0#64) :
    (w ||| attrs) &&& PRESENT ≠ 0#64 := by
  rw [present_iff] at present ⊢
  rw [BitVec.getLsbD_or, present, Bool.true_or]

/-- The page below the stack. -/
def GUARD_PAGE : Nat := 239

/-- The tables once the kernel's pages are protected: all pages of the kernel image but
the guard page are present, and outside of it the entries are those of `early_init`. -/
structure Protected (y : Layout) (s : State) (level : Word → Option Nat) : Prop where
  wf : Wf y s level
  left : s.tablesLeft = MAX_STATIC_TABLES
  noDynamic : s.dynamicTables = 0#64
  rooted : Rooted y.toSymbols s
  image : ∀ i, i < 256 → i ≠ GUARD_PAGE → s.entryOf (imagePage i) &&& PRESENT ≠ 0#64
  others : ∀ page, CanonicalPage page → (∀ i, i < 256 → page ≠ imagePage i) →
    s.entryOf page = startEntry page

/-- Where the sections begin and end. -/
theorem Sections.ends (z : Sections) :
    Sections.textStart = imagePage 0 ∧ z.textEnd = imagePage z.text ∧
      z.rodataEnd = imagePage (z.text + z.rodata) ∧ z.dataEnd = imagePage (z.text + z.rodata + z.data) ∧
      z.bssEnd = imagePage (z.text + z.rodata + z.data + z.bss) := by
  have rodataEnd : z.rodataEnd = imagePage (z.text + z.rodata) := pageAt_imagePage _ _
  have dataEnd : z.dataEnd = imagePage (z.text + z.rodata + z.data) := by
    rw [Sections.dataEnd, rodataEnd, pageAt_imagePage]
  have bssEnd : z.bssEnd = imagePage (z.text + z.rodata + z.data + z.bss) := by
    rw [Sections.bssEnd, dataEnd, pageAt_imagePage]
  exact ⟨(pageAt_zero _).symm, rfl, rodataEnd, dataEnd, bssEnd⟩

/-- After `early_init` the pages of the kernel image are present. -/
theorem earlyInit_present (y : Layout) (memory : Word → Word) {i : Nat} (hi : i < 256) :
    (earlyInit y.toSymbols (Paging.image y.toSymbols memory)).entryOf (imagePage i) &&& PRESENT ≠
      0#64 := by
  obtain ⟨level, wf⟩ := earlyInit_wf y memory
  have address := imagePage_toNat hi
  have kernel : path (imagePage i) = [0x1FF, 0x1FE, 0] ∧ 0x100 ≤ index (imagePage i) 0 := by
    simp only [path, index_eq, address, KERNEL_VMA_START, PAGE_SIZE, List.cons.injEq, and_true]
    omega
  rw [(earlyInit_entries y memory).entryOf wf.base, startEntry, if_pos kernel]
  exact mapped_present _ _

/-- The pages are protected if the sections end below the stack. What is left then is to
look up the addresses that are printed. -/
theorem boot_protects (y : Layout) (z : Sections) (memory : Word → Word)
    (small : z.text + z.rodata + z.data + z.bss < 240) :
    ∃ s level, Protected y s level ∧ boot y.toSymbols z KERNEL_STACK memory = (do
      let _ ← getPhysicalAddress (imagePage 0) s
      let _ ← getPhysicalAddress (imagePage z.text) s
      let _ ← getPhysicalAddress (imagePage (z.text + z.rodata)) s
      let _ ← getPhysicalAddress (imagePage (z.text + z.rodata + z.data)) s
      let _ ← getPhysicalAddress (imagePage (z.text + z.rodata + z.data + z.bss)) s
      return s) := by
  obtain ⟨level, wf⟩ := earlyInit_wf y memory
  have entries := earlyInit_entries y memory
  obtain ⟨left, noDynamic, noneDynamic⟩ := earlyInit_pools y.toSymbols (Paging.image y.toSymbols memory)
  have rooted := entries.rooted wf.base
  obtain ⟨textStart, textEnd, rodataEnd, dataEnd, bssEnd⟩ := z.ends
  have stackTop : KERNEL_STACK - BitVec.ofNat 64 (KERNEL_STACK_PAGES * PAGE_SIZE) = imagePage 240 := by
    decide
  have guardPage : imagePage 240 - BitVec.ofNat 64 PAGE_SIZE = imagePage GUARD_PAGE := by decide
  have above : decide ((imagePage 240).toNat > (imagePage (z.text + z.rodata + z.data + z.bss)).toNat) =
      true := by
    rw [imagePage_toNat (by omega), imagePage_toNat (by omega)]
    unfold PAGE_SIZE
    exact decide_eq_true (by omega)
  obtain ⟨s₁, text, wf₁, re₁, present₁⟩ := wf.regionPages_ok (r := Region.text) (a := 0)
    (n := z.text) (by omega) (fun w => keeps_present (by decide))
    fun _ => earlyInit_present y memory
  obtain ⟨s₂, rodata, wf₂, re₂, present₂⟩ := wf₁.regionPages_ok (r := Region.rodata) (a := z.text)
    (n := z.rodata) (by omega) (fun w h => keeps_present (by decide) (or_present h)) present₁
  obtain ⟨s₃, data, wf₃, re₃, present₃⟩ := wf₂.regionPages_ok (r := Region.data)
    (a := z.text + z.rodata) (n := z.data) (by omega) (fun w => or_present) present₂
  obtain ⟨s₄, bss, wf₄, re₄, present₄⟩ := wf₃.regionPages_ok (r := Region.bss)
    (a := z.text + z.rodata + z.data) (n := z.bss) (by omega) (fun w => or_present) present₃
  obtain ⟨s₅, stack, wf₅, re₅, present₅⟩ := wf₄.regionPages_ok (r := Region.stack) (a := 240)
    (n := KERNEL_STACK_PAGES) (by decide) (fun w => or_present) present₄
  obtain ⟨t, reached, guard⟩ := wf₅.regionPage_ok (r := Region.guard)
    (present₅ GUARD_PAGE (by decide))
  have re₆ := wf₅.reprotects (by decide) (Region.guard.edit (s₅.entryOf (imagePage GUARD_PAGE))) reached
  have wf₆ := wf₅.setLeaf (w := Region.guard.edit (s₅.entryOf (imagePage GUARD_PAGE)))
    (wf₅.tree.leaf_level reached).2 (index_lt (imagePage GUARD_PAGE) 0)
  obtain ⟨-, elsewhere⟩ := wf₅.tree.entryOf_setLeaf
    (w := Region.guard.edit (s₅.entryOf (imagePage GUARD_PAGE))) reached
  generalize s₅.store (slot t (index (imagePage GUARD_PAGE) 0))
    (Region.guard.edit (s₅.entryOf (imagePage GUARD_PAGE))) = s₆ at *
  have all := ((((re₁.trans re₂).trans re₃).trans re₄).trans re₅).trans re₆
  refine ⟨s₆, level, ⟨wf₆, ?_, all.pool.trans noDynamic, ⟨?_, ?_⟩, fun i hi notGuard => ?_,
    fun page canonical outside => ?_⟩, ?_⟩
  · rw [all.left, State.tablesLeft, left, noneDynamic]
    rfl
  · rw [all.base, all.walks]
    exact rooted.kernel
  · rw [all.base, all.walks]
    exact rooted.low
  · have apart : imagePage i ≠ imagePage GUARD_PAGE := fun eq =>
      notGuard (pageAt_inj (by omega) (by decide) eq)
    rw [elsewhere _ (imagePage_canonical (by decide)) (imagePage_canonical hi) apart]
    exact present₅ i hi
  · rw [all.others page canonical outside, entries.entryOf wf.base]
  · unfold boot enableKernelPageProtection
    dsimp only
    rw [stackTop, guardPage, textEnd, rodataEnd, dataEnd, bssEnd, textStart, text, ok_bind, rodata,
      ok_bind, data, ok_bind, bss, ok_bind, above, kassert_true, ok_bind, stack, ok_bind, guard, ok_bind]

/-- The pages are protected if the sections end below the guard page. -/
theorem boot_completes (y : Layout) (z : Sections) (memory : Word → Word)
    (small : z.text + z.rodata + z.data + z.bss < 239) :
    ∃ s level, boot y.toSymbols z KERNEL_STACK memory = .ok s ∧ Protected y s level := by
  obtain ⟨s, level, protected_, rest⟩ := boot_protects y z memory (by omega)
  have found : ∀ i, i < 239 → ∃ a, getPhysicalAddress (imagePage i) s = .ok a := by
    intro i hi
    refine ⟨_, protected_.wf.tree.getPhysicalAddress_ok (imagePage_canonical (by omega)) ?_⟩
    exact protected_.image i (by omega) (by unfold GUARD_PAGE; omega)
  obtain ⟨a₀, found₀⟩ := found 0 (by decide)
  obtain ⟨a₁, found₁⟩ := found z.text (by omega)
  obtain ⟨a₂, found₂⟩ := found (z.text + z.rodata) (by omega)
  obtain ⟨a₃, found₃⟩ := found (z.text + z.rodata + z.data) (by omega)
  obtain ⟨a₄, found₄⟩ := found (z.text + z.rodata + z.data + z.bss) small
  refine ⟨s, level, ?_, protected_⟩
  rw [rest, found₀, ok_bind, found₁, ok_bind, found₂, ok_bind, found₃, ok_bind, found₄, ok_bind]
  rfl

/-- Whenever the pages have been protected, the tables are as expected. -/
theorem boot_protected {y : Layout} {z : Sections} {memory : Word → Word} {s : State}
    (done : boot y.toSymbols z KERNEL_STACK memory = .ok s) : ∃ level, Protected y s level := by
  have small : z.text + z.rodata + z.data + z.bss < 240 := by
    have fits := z.fits
    unfold boot enableKernelPageProtection at done
    obtain ⟨s₁, -, done⟩ := bind_eq_ok done
    obtain ⟨s₂, -, done⟩ := bind_eq_ok done
    obtain ⟨s₃, -, done⟩ := bind_eq_ok done
    obtain ⟨s₄, -, done⟩ := bind_eq_ok done
    obtain ⟨_, above, -⟩ := bind_eq_ok done
    have above := of_decide_eq_true (kassert_eq_ok above)
    have top : (KERNEL_STACK - BitVec.ofNat 64 (KERNEL_STACK_PAGES * PAGE_SIZE)).toNat =
        KERNEL_VMA_START + PAGE_SIZE * 240 := by decide
    have bssEnd : z.bssEnd.toNat =
        KERNEL_VMA_START + PAGE_SIZE * (z.text + z.rodata + z.data + z.bss) := by
      have place : z.bssEnd = imagePage (z.text + z.rodata + z.data + z.bss) := by
        rw [Sections.bssEnd, Sections.dataEnd, Sections.rodataEnd, Sections.textEnd,
          show pageAt Sections.textStart z.text = imagePage z.text from rfl, pageAt_imagePage,
          pageAt_imagePage, pageAt_imagePage]
      rw [place, imagePage, pageAt, Sections.textStart, ← BitVec.ofNat_add, BitVec.toNat_ofNat]
      exact Nat.mod_eq_of_lt fits
    rw [top, bssEnd] at above
    unfold PAGE_SIZE at above
    omega
  obtain ⟨s', level, protected_, rest⟩ := boot_protects y z memory small
  rw [rest] at done
  iterate 5 obtain ⟨_, -, done⟩ := bind_eq_ok done
  cases done
  exact ⟨level, protected_⟩

end Tyleros.Paging
