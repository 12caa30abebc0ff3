import Tyleros.Paging.Translation
import Tyleros.Lib.Machine

/-!
# Runs of the page tables

The tables `early_init` sets up satisfy the invariant (`earlyInit_wf`), and so do
the dynamic tables once `finish_init` has added them. `Wf.step`: every call of `map_page`
and `unmap_page` keeps it, and with it the tree (`Wf.isTree`).
-/

namespace Tyleros.Paging

open Tyleros.Lib

/-! ## `early_init` -/

/-- A tree in which every level 0 entry has a property. -/
structure LeafTree (P : Word → Prop) (s : State) (level : Word → Option Nat) (fresh : Set Word) :
    Prop where
  tree : Tree s level fresh
  leaves : ∀ t i, level t = some 0 → i < 512 → P (s.entry t i)

section Leaves

variable {P : Word → Prop} {s : State} {level : Word → Option Nat} {fresh : Set Word}

/-- Linking a fresh table, whose entries are zero. -/
theorem LeafTree.link (here : LeafTree P s level fresh) (zero : P 0#64) {t c : Word} {l i : Nat}
    (used : level t = some (l + 1)) (hi : i < 512) (new : c ∈ fresh) :
    LeafTree P (s.store (slot t i) (tableEntry c)) (Function.update level c (some l)) (fresh \ {c}) := by
  refine ⟨here.tree.link used hi new, fun t' i' used' hi' => ?_⟩
  rcases level_link used' with ⟨rfl, -⟩ | ⟨-, old⟩
  · rw [here.tree.entry_store_fresh used hi new hi']
    exact zero
  · rw [State.entry_store (here.tree.pointer used).aligned (here.tree.pointer old).aligned hi hi',
      if_neg]
    · exact here.leaves t' i' old hi'
    · rintro ⟨rfl, -⟩
      rw [used] at old
      cases old

theorem LeafTree.setLeaf (here : LeafTree P s level fresh) {t w : Word} {i : Nat}
    (used : level t = some 0) (hi : i < 512) (value : P w) :
    LeafTree P (s.store (slot t i) w) level fresh := by
  refine ⟨here.tree.setLeaf used hi, fun t' i' used' hi' => ?_⟩
  rw [State.entry_store (here.tree.pointer used).aligned (here.tree.pointer used').aligned hi hi']
  split
  · exact value
  · exact here.leaves t' i' used' hi'

theorem LeafTree.mapIdentity (here : LeafTree P s level fresh)
    (value : ∀ i, i < 512 → P (BitVec.ofNat 64 (i * PAGE_SIZE) ||| XD ||| PRESENT)) {t : Word}
    (used : level t = some 0) {l : List Nat} (bound : ∀ i ∈ l, i < 512) :
    LeafTree P (l.foldl (Paging.mapIdentity t) s) level fresh := by
  induction l generalizing s with
  | nil => exact here
  | cons i l ih =>
      obtain ⟨hi, rest⟩ := List.forall_mem_cons.mp bound
      exact ih (here.setLeaf used hi (value i hi)) rest

end Leaves

/-- The last two assignments of `early_init`. -/
def State.activate (y : Symbols) (s : State) : State :=
  { s with base := y.kernelPml4, hasAllocator := true }

theorem State.activate_store (y : Symbols) (s : State) (a w : Word) :
    (s.store a w).activate y = (s.activate y).store a w := rfl

theorem State.activate_mapIdentity (y : Symbols) (s : State) (t : Word) (l : List Nat) :
    (l.foldl (Paging.mapIdentity t) s).activate y = l.foldl (Paging.mapIdentity t) (s.activate y) := by
  induction l generalizing s with
  | nil => rfl
  | cons i l ih => exact ih (Paging.mapIdentity t s i)

theorem Layout.pointer (y : Layout) {t : Word} (mem : t ∈ y.tables) : TablePtr t := by
  have image := (y.inImage t mem).1
  refine ⟨y.aligned t mem, ?_, ?_⟩
  · rintro rfl
    revert image
    decide
  · rintro rfl
    revert image
    decide

theorem image_zero (y : Layout) (memory : Word → Word) {t : Word} (mem : t ∈ y.tables) {i : Nat}
    (hi : i < 512) : ((image y.toSymbols memory).activate y.toSymbols).entry t i = 0#64 := by
  have aligned := y.aligned t mem
  have := t.isLt
  unfold PAGE_SIZE at aligned
  have page : BitVec.ofNat 64 ((slot t i).toNat / PAGE_SIZE * PAGE_SIZE) = t := by
    apply BitVec.eq_of_toNat_eq
    simp only [slot, PAGE_SIZE, BitVec.toNat_add, BitVec.toNat_ofNat]
    omega
  show (if BitVec.ofNat 64 ((slot t i).toNat / PAGE_SIZE * PAGE_SIZE) ∈ y.tables then 0#64
    else memory (slot t i)) = 0#64
  rw [page, if_pos mem]

/-- Before the first link only the root is in use. -/
theorem image_tree (y : Layout) (memory : Word → Word) :
    Tree ((image y.toSymbols memory).activate y.toSymbols)
      (fun t => if t = y.kernelPml4 then some 3 else none)
      {t | t ∈ y.tables ∧ t ≠ y.kernelPml4} := by
  have root : y.kernelPml4 ∈ y.tables := by simp [Symbols.tables]
  have isRoot : ∀ t l, (if t = y.kernelPml4 then some 3 else none) = some l →
      t = y.kernelPml4 ∧ l = 3 := by
    intro t l eq
    split at eq
    · next same =>
        cases eq
        exact ⟨same, rfl⟩
    · cases eq
  have rootZero : ∀ t l i, (if t = y.kernelPml4 then some 3 else none) = some l → i < 512 →
      ((image y.toSymbols memory).activate y.toSymbols).entry t i = 0#64 := by
    intro t l i eq hi
    obtain ⟨rfl, -⟩ := isRoot t l eq
    exact image_zero y memory root hi
  refine ⟨if_pos rfl, fun t l eq => (isRoot t l eq).2.le, ?_, fun t l i eq hi =>
    Or.inl (rootZero t _ i eq hi), ?_, fun t fresh => if_neg fresh.2,
    fun t i fresh hi => image_zero y memory fresh.1 hi⟩
  · rintro t (inUse | fresh)
    · obtain ⟨l, eq⟩ := Option.ne_none_iff_exists'.mp inUse
      obtain ⟨rfl, -⟩ := isRoot t l eq
      exact y.pointer root
    · exact y.pointer fresh.1
  · intro t l i t' l' i' c eq eq' hi hi' inUse refer refer'
    rw [rootZero t _ i eq hi] at refer
    exact absurd refer.symm (tableEntry_ne_zero c)

theorem Tree.mono {s : State} {level : Word → Option Nat} {fresh fresh' : Set Word}
    (tree : Tree s level fresh) (sub : fresh' ⊆ fresh) : Tree s level fresh' :=
  ⟨tree.root, tree.bound, fun t known => tree.pointers t (known.imp_right fun mem => sub mem),
    tree.entries, tree.once, fun t mem => tree.unused t (sub mem),
    fun t i mem => tree.zero t i (sub mem)⟩

theorem Tree.congr {s s' : State} {level : Word → Option Nat} {fresh fresh' : Set Word}
    (tree : Tree s level fresh) (eq : s' = s) (sub : fresh' ⊆ fresh) : Tree s' level fresh' :=
  eq ▸ tree.mono sub

theorem foldl_mapIdentity_pools (t : Word) (l : List Nat) (s : State) :
    (l.foldl (Paging.mapIdentity t) s).numStaticTablesLeft = s.numStaticTablesLeft ∧
      (l.foldl (Paging.mapIdentity t) s).dynamicTables = s.dynamicTables ∧
      (l.foldl (Paging.mapIdentity t) s).numDynamicTablesLeft = s.numDynamicTablesLeft := by
  induction l generalizing s with
  | nil => exact ⟨rfl, rfl, rfl⟩
  | cons i l ih => exact ih (Paging.mapIdentity t s i)

/-- `early_init` takes no table out of a pool. -/
theorem earlyInit_pools (y : Symbols) (s : State) :
    (earlyInit y s).numStaticTablesLeft = s.numStaticTablesLeft ∧
      (earlyInit y s).dynamicTables = s.dynamicTables ∧
      (earlyInit y s).numDynamicTablesLeft = s.numDynamicTablesLeft := by
  simp only [earlyInit, mapLowMemory, mapKernelImage, foldl_mapIdentity_pools, State.store, and_self]

/-- `early_init` with the assignments to `kernel_page_tables` made first. -/
theorem earlyInit_eq (y : Symbols) (s : State) :
    earlyInit y s = mapLowMemory y (mapKernelImage y (s.activate y)) := by
  have active : earlyInit y s = (mapLowMemory y (mapKernelImage y s)).activate y := rfl
  rw [active]
  simp only [mapLowMemory, mapKernelImage, State.activate_mapIdentity, State.activate_store]

/-- The tables that have names are different ones. -/
theorem Layout.named_ne (y : Layout) :
    (y.kernelPml4 ≠ y.kernelPml3 ∧ y.kernelPml4 ≠ y.kernelPml2 ∧ y.kernelPml4 ≠ y.kernelPml1 ∧
      y.kernelPml4 ≠ y.identityPml3 ∧ y.kernelPml4 ≠ y.identityPml2 ∧ y.kernelPml4 ≠ y.identityPml1) ∧
    (y.kernelPml3 ≠ y.kernelPml2 ∧ y.kernelPml3 ≠ y.kernelPml1 ∧ y.kernelPml3 ≠ y.identityPml3 ∧
      y.kernelPml3 ≠ y.identityPml2 ∧ y.kernelPml3 ≠ y.identityPml1) ∧
    (y.kernelPml2 ≠ y.kernelPml1 ∧ y.kernelPml2 ≠ y.identityPml3 ∧ y.kernelPml2 ≠ y.identityPml2 ∧
      y.kernelPml2 ≠ y.identityPml1) ∧
    (y.kernelPml1 ≠ y.identityPml3 ∧ y.kernelPml1 ≠ y.identityPml2 ∧ y.kernelPml1 ≠ y.identityPml1) ∧
    (y.identityPml3 ≠ y.identityPml2 ∧ y.identityPml3 ≠ y.identityPml1) ∧
      y.identityPml2 ≠ y.identityPml1 := by
  have distinct := y.nodup
  rw [Symbols.tables, List.nodup_append] at distinct
  simpa only [List.nodup_cons, List.mem_cons, List.not_mem_nil, or_false, not_or, List.nodup_nil,
    and_true, not_false_eq_true] using distinct.1

theorem Layout.named_mem (y : Layout) {t : Word}
    (named : t ∈ [y.kernelPml4, y.kernelPml3, y.kernelPml2, y.kernelPml1, y.identityPml3,
      y.identityPml2, y.identityPml1]) : t ∈ y.tables := List.mem_append.mpr (Or.inl named)

/-- No table with a name is one of `static_tables`. -/
theorem Layout.static_ne_named (y : Layout) {j : Nat} (hj : j < MAX_STATIC_TABLES) {t : Word}
    (named : t ∈ [y.kernelPml4, y.kernelPml3, y.kernelPml2, y.kernelPml1, y.identityPml3,
      y.identityPml2, y.identityPml1]) : tableAt y.staticTables j ≠ t := by
  have distinct := y.nodup
  rw [Symbols.tables, List.nodup_append] at distinct
  exact (distinct.2.2 t named _ (List.mem_map.mpr ⟨j, List.mem_range.mpr hj, rfl⟩)).symm

/-- The tables `early_init` sets up are well formed, and their level 0 entries are
zero or those it wrote. -/
theorem earlyInit_leaves (y : Layout) (memory : Word → Word) {P : Word → Prop} (zero : P 0#64)
    (value : ∀ i, i < 512 → P (BitVec.ofNat 64 (i * PAGE_SIZE) ||| XD ||| PRESENT)) :
    ∃ level, Wf y (earlyInit y.toSymbols (image y.toSymbols memory)) level ∧
      ∀ t i, level t = some 0 → i < 512 →
        P ((earlyInit y.toSymbols (image y.toSymbols memory)).entry t i) := by
  obtain ⟨⟨ne43, ne42, ne41, ne4i3, ne4i2, ne4i1⟩, ⟨ne32, ne31, ne3i3, ne3i2, ne3i1⟩,
    ⟨ne21, ne2i3, ne2i2, ne2i1⟩, ⟨ne1i3, ne1i2, ne1i1⟩, ⟨nei3i2, nei3i1⟩, nei2i1⟩ := y.named_ne
  have mem := fun t => y.named_mem (t := t)
  have mem3 := mem y.kernelPml3 (by simp)
  have mem2 := mem y.kernelPml2 (by simp)
  have mem1 := mem y.kernelPml1 (by simp)
  have memi3 := mem y.identityPml3 (by simp)
  have memi2 := mem y.identityPml2 (by simp)
  have memi1 := mem y.identityPml1 (by simp)
  have start : LeafTree P _ _ _ := ⟨image_tree y memory, fun t i used _ => by
    split at used <;> cases used⟩
  -- the tables of the kernel image
  have tree₁ := start.link zero (t := y.kernelPml4) (c := y.kernelPml3) (l := 2) (i := 0x1FF)
    (if_pos rfl) (by decide) ⟨mem3, Ne.symm ne43⟩
  have tree₂ := tree₁.link zero (c := y.kernelPml2) (i := 0x1FE) (Function.update_self _ _ _) (by decide)
    ⟨⟨mem2, Ne.symm ne42⟩, Ne.symm ne32⟩
  have tree₃ := tree₂.link zero (c := y.kernelPml1) (i := 0) (Function.update_self _ _ _) (by decide)
    ⟨⟨⟨mem1, Ne.symm ne41⟩, Ne.symm ne31⟩, Ne.symm ne21⟩
  have tree₄ := tree₃.mapIdentity value (l := List.range' 0x100 0x100) (Function.update_self _ _ _)
    (by simp [List.mem_range'_1])
  -- the tables of the identity map
  have tree₅ := tree₄.link zero (t := y.kernelPml4) (c := y.identityPml3) (l := 2) (i := 0)
    (by simp [Function.update_of_ne, ne43, ne42, ne41]) (by decide)
    ⟨⟨⟨⟨memi3, Ne.symm ne4i3⟩, Ne.symm ne3i3⟩, Ne.symm ne2i3⟩, Ne.symm ne1i3⟩
  have tree₆ := tree₅.link zero (c := y.identityPml2) (i := 0) (Function.update_self _ _ _) (by decide)
    ⟨⟨⟨⟨⟨memi2, Ne.symm ne4i2⟩, Ne.symm ne3i2⟩, Ne.symm ne2i2⟩, Ne.symm ne1i2⟩, Ne.symm nei3i2⟩
  have tree₇ := tree₆.link zero (c := y.identityPml1) (i := 0) (Function.update_self _ _ _) (by decide)
    ⟨⟨⟨⟨⟨⟨memi1, Ne.symm ne4i1⟩, Ne.symm ne3i1⟩, Ne.symm ne2i1⟩, Ne.symm ne1i1⟩,
      Ne.symm nei3i1⟩, Ne.symm nei2i1⟩
  have tree₈ := (tree₇.setLeaf (w := 0#64) (i := 0) (Function.update_self _ _ _)
    (by decide) zero).mapIdentity value (l := List.range' 1 0x1FF) (Function.update_self _ _ _)
    (by simp [List.mem_range'_1])
  obtain ⟨counts, dynamic, noneDynamic⟩ := earlyInit_pools y.toSymbols (image y.toSymbols memory)
  refine ⟨_, ⟨tree₈.tree.congr (earlyInit_eq y.toSymbols _) ?_, rfl, rfl, counts.le, ?_,
    fun _ => ⟨noneDynamic, fun t inUse => ?_⟩, fun notNull => absurd dynamic notNull⟩, ?_⟩
  · rintro t (⟨j, hj, rfl⟩ | ⟨j, hj, -⟩)
    · rw [counts] at hj
      have other : ∀ t ∈ [y.kernelPml4, y.kernelPml3, y.kernelPml2, y.kernelPml1, y.identityPml3,
          y.identityPml2, y.identityPml1], tableAt y.staticTables j ≠ t :=
        fun t named => y.static_ne_named hj named
      simp only [List.forall_mem_cons, List.not_mem_nil] at other
      obtain ⟨n4, n3, n2, n1, ni3, ni2, ni1, -⟩ := other
      exact ⟨⟨⟨⟨⟨⟨⟨y.static_mem hj, n4⟩, n3⟩, n2⟩, n1⟩, ni3⟩, ni2⟩, ni1⟩
    · rw [noneDynamic] at hj
      exact absurd hj (Nat.not_lt_zero j)
  · rw [noneDynamic]
    exact Nat.zero_le _
  · simp only [Function.update_apply] at inUse
    grind
  · rw [earlyInit_eq]
    exact tree₈.leaves

theorem earlyInit_wf (y : Layout) (memory : Word → Word) :
    ∃ level, Wf y (earlyInit y.toSymbols (image y.toSymbols memory)) level := by
  obtain ⟨level, wf, -⟩ := earlyInit_leaves y memory (P := fun _ => True) trivial fun _ _ => trivial
  exact ⟨level, wf⟩

/-! ## The second pool -/

/-- Pages that can serve as dynamic tables: apart from the tables of the image and
from physical page 0. -/
structure Spare (y : Layout) (virtualAddr : Word) : Prop where
  nonzero : virtualAddr ≠ 0#64
  aligned : virtualAddr.toNat % PAGE_SIZE = 0
  fits : virtualAddr.toNat + PAGE_SIZE * MAX_DYNAMIC_TABLES ≤ 2 ^ 64
  apart : ∀ j, j < MAX_DYNAMIC_TABLES →
    tableAt virtualAddr j ∉ y.tables ∧ tableAt virtualAddr j ≠ VMA_OFFSET

/-- Memory is cleared for `size` bytes from an address on. -/
def State.clear (s : State) (address : Word) (size : Nat) : State :=
  { s with memory := fun a => if (a - address).toNat < size then 0#64 else s.memory a }

section Dynamic

variable {y : Layout} {s : State} {level : Word → Option Nat} {virtualAddr : Word}

theorem Spare.tableAt_toNat (spare : Spare y virtualAddr) {j : Nat} (hj : j < 512) :
    (tableAt virtualAddr j).toNat = virtualAddr.toNat + 4096 * j := by
  have fits := spare.fits
  simp only [PAGE_SIZE, MAX_DYNAMIC_TABLES] at fits
  simp only [tableAt, PAGE_SIZE, BitVec.toNat_add, BitVec.toNat_ofNat]
  omega

theorem Spare.pointer (spare : Spare y virtualAddr) {j : Nat} (hj : j < 512) :
    TablePtr (tableAt virtualAddr j) := by
  have address := spare.tableAt_toNat hj
  have aligned := spare.aligned
  have nonzero : virtualAddr.toNat ≠ 0 := fun zero => spare.nonzero (BitVec.eq_of_toNat_eq zero)
  unfold PAGE_SIZE at aligned
  refine ⟨?_, fun zero => ?_, (spare.apart j hj).2⟩
  · rw [address]
    unfold PAGE_SIZE
    omega
  · rw [zero] at address
    simp only [BitVec.toNat_ofNat, Nat.zero_mod] at address
    omega

/-- Clearing pages of the dynamic tables does not touch the tables of the image. -/
theorem Spare.entry_image (spare : Spare y virtualAddr) {t : Word} (mem : t ∈ y.tables) {i n : Nat}
    (hi : i < 512) (hn : n ≤ MAX_DYNAMIC_TABLES) :
    (s.clear virtualAddr (PAGE_SIZE * n)).entry t i = s.entry t i := by
  show (if (slot t i - virtualAddr).toNat < PAGE_SIZE * n then 0#64
    else s.memory (slot t i)) = s.memory (slot t i)
  rw [if_neg]
  intro inside
  have alignedT := y.aligned t mem
  have aligned := spare.aligned
  have ltT := t.isLt
  have ltV := virtualAddr.isLt
  have fits := spare.fits
  simp only [PAGE_SIZE, MAX_DYNAMIC_TABLES, slot, BitVec.toNat_sub, BitVec.toNat_add,
    BitVec.toNat_ofNat] at inside alignedT aligned fits hn
  -- the page of the slot would be one of the dynamic tables
  obtain ⟨j, hj, eq⟩ : ∃ j, j < 512 ∧ t.toNat = virtualAddr.toNat + 4096 * j :=
    ⟨(t.toNat - virtualAddr.toNat) / 4096, by omega, by omega⟩
  refine (spare.apart j hj).1 ?_
  rw [BitVec.eq_of_toNat_eq ((spare.tableAt_toNat hj).trans eq.symm)]
  exact mem

theorem Spare.entry_dynamic (spare : Spare y virtualAddr) {j i : Nat} (hj : j < 512)
    (hi : i < 512) : (addDynamicTables virtualAddr s).entry (tableAt virtualAddr j) i = 0#64 := by
  show (if (slot (tableAt virtualAddr j) i - virtualAddr).toNat < PAGE_SIZE * MAX_DYNAMIC_TABLES
    then 0#64 else s.memory (slot (tableAt virtualAddr j) i)) = 0#64
  have address := spare.tableAt_toNat hj
  have fits := spare.fits
  have lt := virtualAddr.isLt
  rw [if_pos]
  simp only [PAGE_SIZE, MAX_DYNAMIC_TABLES, slot, BitVec.toNat_sub, BitVec.toNat_add, address,
    BitVec.toNat_ofNat] at fits ⊢
  omega

/-- Before the dynamic tables are added all tables in use are those of the image. -/
theorem Wf.entry_clear (wf : Wf y s level) (none_ : s.dynamicTables = 0#64)
    (spare : Spare y virtualAddr) {t : Word} {l i n : Nat} (used : level t = some l) (hi : i < 512)
    (hn : n ≤ MAX_DYNAMIC_TABLES) :
    (s.clear virtualAddr (PAGE_SIZE * n)).entry t i = s.entry t i := by
  refine spare.entry_image ((wf.noDynamic none_).2 t ?_) hi hn
  rw [used]
  exact Option.some_ne_none l

/-- Clearing pages of the dynamic tables changes no walk. -/
theorem Wf.walk_clear (wf : Wf y s level) (none_ : s.dynamicTables = 0#64)
    (spare : Spare y virtualAddr) {n : Nat} (hn : n ≤ MAX_DYNAMIC_TABLES) (p : List Nat) :
    walk (s.clear virtualAddr (PAGE_SIZE * n)).child (3, s.base) p = walk s.child (3, s.base) p := by
  have children : ∀ m i, level m.2 = some m.1 →
      (s.clear virtualAddr (PAGE_SIZE * n)).child m i = s.child m i := by
    rintro ⟨l, t⟩ i used
    exact State.child_congr fun hi => wf.entry_clear none_ spare used hi hn
  exact walk_congr wf.tree.closed children wf.tree.root p

/-- It changes the entry of no page. -/
theorem Wf.entryOf_clear (wf : Wf y s level) (none_ : s.dynamicTables = 0#64)
    (spare : Spare y virtualAddr) {n : Nat} (hn : n ≤ MAX_DYNAMIC_TABLES) (page : Word) :
    (s.clear virtualAddr (PAGE_SIZE * n)).entryOf page = s.entryOf page := by
  have leaf : (s.clear virtualAddr (PAGE_SIZE * n)).leaf page = s.leaf page :=
    wf.walk_clear none_ spare hn (path page)
  cases reached : s.leaf page with
  | none => rw [State.entryOf_of_missing reached, State.entryOf_of_missing (leaf.trans reached)]
  | some m =>
      obtain ⟨l, t⟩ := m
      rw [State.entryOf_of_leaf reached, State.entryOf_of_leaf (leaf.trans reached),
        wf.entry_clear none_ spare (wf.tree.leaf_level reached).2 (index_lt page 0) hn]

/-- Adding the dynamic tables changes no walk. -/
theorem Wf.walk_addDynamicTables (wf : Wf y s level) (none_ : s.dynamicTables = 0#64)
    (spare : Spare y virtualAddr) (p : List Nat) :
    walk (Paging.addDynamicTables virtualAddr s).child (3, s.base) p = walk s.child (3, s.base) p :=
  wf.walk_clear none_ spare (Nat.le_refl _) p

/-- Adding the dynamic tables keeps the tree and the entry of every page. -/
theorem Wf.addDynamicTables (wf : Wf y s level) (none_ : s.dynamicTables = 0#64)
    (spare : Spare y virtualAddr) :
    Wf y (Paging.addDynamicTables virtualAddr s) level ∧
      ∀ page, (Paging.addDynamicTables virtualAddr s).leaf page = s.leaf page ∧
        (Paging.addDynamicTables virtualAddr s).entryOf page = s.entryOf page := by
  obtain ⟨noneLeft, inImage⟩ := wf.noDynamic none_
  have entry : ∀ t l i, level t = some l → i < 512 →
      (Paging.addDynamicTables virtualAddr s).entry t i = s.entry t i :=
    fun t l i used hi => wf.entry_clear none_ spare used hi (Nat.le_refl _)
  constructor
  · refine ⟨⟨wf.tree.root, wf.tree.bound, ?_, ?_, ?_, ?_, ?_⟩, wf.base, wf.allocator, wf.staticLe,
      Nat.le_refl _, fun null => absurd null spare.nonzero, fun _ j hj => (spare.apart j hj).1⟩
    · rintro t (inUse | ⟨j, hj, rfl⟩ | ⟨j, hj, rfl⟩)
      · exact wf.tree.pointers t (Or.inl inUse)
      · exact wf.tree.pointers _ (Or.inr (Or.inl ⟨j, hj, rfl⟩))
      · exact spare.pointer hj
    · intro t l i eq hi
      rw [entry t _ i eq hi]
      exact wf.tree.entries t l i eq hi
    · intro t l i t' l' i' c eq eq' hi hi' inUse refer refer'
      rw [entry t _ i eq hi] at refer
      rw [entry t' _ i' eq' hi'] at refer'
      exact wf.tree.once t l i t' l' i' c eq eq' hi hi' inUse refer refer'
    · rintro t (⟨j, hj, rfl⟩ | ⟨j, hj, rfl⟩)
      · exact wf.tree.unused _ (Or.inl ⟨j, hj, rfl⟩)
      · by_contra inUse
        exact (spare.apart j hj).1 (inImage _ inUse)
    · rintro t i (⟨j, hj, rfl⟩ | ⟨j, hj, rfl⟩) hi
      · have image := spare.entry_image (s := s)
          (y.static_mem (Nat.lt_of_lt_of_le hj wf.staticLe)) hi (Nat.le_refl _)
        exact image.trans (wf.tree.zero _ i (Or.inl ⟨j, hj, rfl⟩) hi)
      · exact spare.entry_dynamic hj hi
  · intro page
    exact ⟨wf.walk_addDynamicTables none_ spare (path page),
      wf.entryOf_clear none_ spare (Nat.le_refl _) page⟩

end Dynamic

/-! ## Runs -/

inductive Op where
  | map (physicalPage virtualPage attrs : Word)
  | unmap (virtualPage : Word)
  | addDynamicTables (virtualAddr : Word)
  deriving DecidableEq

def State.step (y : Symbols) (s : State) : Op → Except Stop State
  | .map physicalPage virtualPage attrs => do
    let (_, s) ← mapPage y physicalPage virtualPage attrs s
    return s
  | .unmap virtualPage => unmapPage virtualPage s
  | .addDynamicTables virtualAddr => .ok (addDynamicTables virtualAddr s)

/-- Runs of `map_page` and `unmap_page`, and of `finish_init` once its pages are
mapped. -/
def machine (y : Symbols) : Machine State Op Stop := ⟨State.step y⟩

/-- Page-aligned canonical virtual pages, page-aligned physical pages of at most
52 bits, and attributes inside `ALL_MASK`; dynamic tables are added once. -/
def Legal (y : Layout) (s : State) : Op → Prop
  | .map physicalPage virtualPage attrs => CanonicalPage virtualPage ∧
      physicalPage.toNat % PAGE_SIZE = 0 ∧ physicalPage.toNat < 2 ^ 52 ∧
      attrs &&& ~~~ ALL_MASK = 0#64
  | .unmap virtualPage => CanonicalPage virtualPage
  | .addDynamicTables virtualAddr => s.dynamicTables = 0#64 ∧ Spare y virtualAddr

/-- A table that can be reached from `base`, with its level. -/
def State.Reachable (s : State) (n : Nat × Word) : Prop := ∃ p, walk s.child (3, s.base) p = some n

/-- No table is referred to by two entries, none refers back to the root, and the
tables left in the pools are zero and not reachable. -/
structure IsTree (y : Symbols) (s : State) : Prop where
  once : ∀ n n' m m' i i', s.Reachable n → s.Reachable n' → s.child n i = some m →
    s.child n' i' = some m' → m.2 = m'.2 → n = n' ∧ i = i'
  root : ∀ n m i, s.Reachable n → s.child n i = some m → m.2 ≠ s.base
  fresh : ∀ t ∈ s.pool y, (∀ l, ¬ s.Reachable (l, t)) ∧ ∀ i, i < 512 → s.entry t i = 0#64

section Runs

variable {y : Layout} {s s' : State} {level level' : Word → Option Nat}

theorem Wf.isTree (wf : Wf y s level) : IsTree y.toSymbols s := by
  have levels : ∀ n, s.Reachable n → level n.2 = some n.1 := by
    rintro ⟨l, t⟩ ⟨p, reached⟩
    exact wf.tree.walk_level reached
  refine ⟨?_, ?_, ?_⟩
  · rintro n n' ⟨l, c⟩ ⟨l', c'⟩ i i' reach reach' edge edge' same
    obtain rfl : c = c' := same
    have below := wf.tree.closed n i _ (levels n reach) edge
    have below' := wf.tree.closed n' i' _ (levels n' reach') edge'
    have sameLevel : l = l' := Option.some.inj (below.symm.trans below')
    subst sameLevel
    exact wf.tree.referencedOnce n n' i i' _ (levels n reach) (levels n' reach') edge edge'
  · rintro ⟨_ | l, t⟩ ⟨l', c⟩ i reach edge isBase
    · cases edge
    · have isBase : c = s.base := isBase
      have below : level c = some l' := wf.tree.closed _ i _ (levels _ reach) edge
      have bound : l + 1 ≤ 3 := wf.tree.bound t _ (levels _ reach)
      have depth := s.walk_depth (p := [i]) (by rw [walk, edge]; rfl : walk s.child (l + 1, t) [i] = _)
      rw [isBase, wf.tree.root] at below
      have := Option.some.inj below
      simp only [List.length_cons, List.length_nil] at depth
      omega
  · intro t fresh
    refine ⟨fun l reach => ?_, fun i hi => wf.tree.zero t i fresh hi⟩
    have := levels _ reach
    rw [wf.tree.unused t fresh] at this
    cases this

/-- What `map_page` stores gives back the physical page. -/
theorem mapped_address {physical attrs : Word} (aligned : physical.toNat % PAGE_SIZE = 0)
    (small : physical.toNat < 2 ^ 52) (inside : attrs &&& ~~~ ALL_MASK = 0#64) :
    (physical ||| attrs ||| PRESENT) &&& ADDRESS_MASK = physical := by
  have bits : ∀ i : Fin 64, ∀ b c : Bool, ((12 ≤ i.val ∧ i.val < 52) ∨ b = false) →
      (c && !ALL_MASK.getLsbD i) = false →
      ((b || c || PRESENT.getLsbD i) && ADDRESS_MASK.getLsbD i) = b := by decide
  apply BitVec.eq_of_getLsbD_eq
  intro i hi
  rw [BitVec.getLsbD_and, BitVec.getLsbD_or, BitVec.getLsbD_or]
  refine bits ⟨i, hi⟩ _ _ ?_ ?_
  · by_cases low : i < 12
    · exact Or.inr (getLsbD_of_aligned aligned low)
    · by_cases high : i < 52
      · exact Or.inl ⟨Nat.not_lt.mp low, high⟩
      · refine Or.inr (Nat.testBit_lt_two_pow (Nat.lt_of_lt_of_le small ?_))
        exact Nat.pow_le_pow_right (by decide) (Nat.not_lt.mp high)
  · have bit := congrArg (fun w => BitVec.getLsbD w i) inside
    simpa [BitVec.getLsbD_and, BitVec.getLsbD_not, hi] using bit

theorem mapped_present (physical attrs : Word) :
    (physical ||| attrs ||| PRESENT) &&& PRESENT ≠ 0#64 := by
  intro zero
  have bit := congrArg (fun w => BitVec.getLsbD w 0) zero
  simp [PRESENT] at bit

theorem unmapped_absent (entry : Word) : entry &&& ~~~ PRESENT &&& PRESENT = 0#64 := by
  rw [BitVec.and_assoc, show ~~~ PRESENT &&& PRESENT = 0#64 by decide, BitVec.and_zero]

theorem Wf.step {o : Op} (wf : ∃ level, Wf y s level) (legal : Legal y s o)
    (hs : (machine y.toSymbols).step s o = .ok s') : ∃ level, Wf y s' level := by
  obtain ⟨level, wf⟩ := wf
  cases o with
  | map physicalPage virtualPage attrs =>
      obtain ⟨canonical, aligned, -, -⟩ := legal
      obtain ⟨⟨r, s₁⟩, mapped, done⟩ := bind_eq_ok hs
      cases done
      rcases wf.mapPage attrs canonical aligned with
        ⟨e, stops, -⟩ | ⟨-, message, stops⟩ | ⟨-, r', s₂, level', result, wf', -⟩
      · rw [stops] at mapped
        cases mapped
      · rw [stops] at mapped
        cases mapped
      · rw [result] at mapped
        cases mapped
        exact ⟨level', wf'⟩
  | unmap virtualPage =>
      have hs : Paging.unmapPage virtualPage s = .ok s' := hs
      rcases wf.unmapPage legal with ⟨-, message, stops⟩ | ⟨-, s₂, result, wf', -⟩
      · rw [stops] at hs
        cases hs
      · rw [result] at hs
        cases hs
        exact ⟨level, wf'⟩
  | addDynamicTables virtualAddr =>
      cases hs
      exact ⟨level, (wf.addDynamicTables legal.1 legal.2).1⟩

end Runs

/-- The tables on consecutive pages of the kernel image. -/
def sampleSymbols : Symbols where
  kernelPml4 := 0xFFFFFFFF80110000#64
  kernelPml3 := 0xFFFFFFFF80111000#64
  kernelPml2 := 0xFFFFFFFF80112000#64
  kernelPml1 := 0xFFFFFFFF80113000#64
  identityPml3 := 0xFFFFFFFF80114000#64
  identityPml2 := 0xFFFFFFFF80115000#64
  identityPml1 := 0xFFFFFFFF80116000#64
  staticTables := 0xFFFFFFFF80117000#64

theorem sampleSymbols_tables :
    sampleSymbols.tables = (List.range 15).map (tableAt 0xFFFFFFFF80110000#64) := by decide

theorem sampleSymbols_image : ∀ t ∈ sampleSymbols.tables, t.toNat % PAGE_SIZE = 0 ∧
    KERNEL_VMA_START ≤ t.toNat ∧ t.toNat < KERNEL_VMA_END := by
  rw [sampleSymbols_tables]
  intro t mem
  obtain ⟨j, hj, rfl⟩ := List.mem_map.mp mem
  rw [List.mem_range] at hj
  simp only [tableAt, PAGE_SIZE, KERNEL_VMA_START, KERNEL_VMA_END, BitVec.toNat_add,
    BitVec.toNat_ofNat]
  omega

def sampleLayout : Layout where
  toSymbols := sampleSymbols
  nodup := by decide
  aligned := fun t mem => (sampleSymbols_image t mem).1
  inImage := fun t mem => (sampleSymbols_image t mem).2

end Tyleros.Paging
