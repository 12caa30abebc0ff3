import Tyleros.Kernel.Model

/-!
# The page tables during startup

While `kmain` sets up the allocators, pages are mapped and none is unmapped. `Since` keeps
track of them: outside of the pages that were taken since the kernel's own pages were
protected, the entries are those of `early_init`, so that a page is present exactly if it
is one of the kernel image, one of the lowest 2 MiB, or one that was taken.
-/

namespace Tyleros.Kernel

open Lib Paging

/-! ## Accesses -/

theorem touch_ok {s : Paging.State} {v : Word} {size : Nat} {u : Unit} (done : touch s v size = .ok u)
    {j : Nat} (hj : j < divCeil size PAGE_SIZE) :
    ((pageAt v j).toNat < 2 ^ 47 ∨ 2 ^ 64 - 2 ^ 47 ≤ (pageAt v j).toNat) ∧
      s.entryOf (pageAt v j) &&& PRESENT ≠ 0#64 := by
  unfold touch at done
  split at done
  · next all =>
      have here := List.all_eq_true.mp all j (List.mem_range.mpr hj)
      unfold accessible at here
      simpa using here
  · cases done

theorem divCeil_pos {size : Nat} (positive : 0 < size) : 0 < divCeil size PAGE_SIZE := by
  unfold divCeil PAGE_SIZE
  split <;> omega

/-! ## The pages present from the start -/

/-- `early_init` maps the kernel image and the lowest 2 MiB less page 0. -/
theorem startEntry_absent {page : Word} (canonical : CanonicalPage page)
    (notImage : page.toNat < KERNEL_VMA_START ∨ KERNEL_VMA_END ≤ page.toNat)
    (notLow : page.toNat = 0 ∨ 0x200000 ≤ page.toNat) : startEntry page = 0#64 := by
  obtain ⟨aligned, extended⟩ := canonical
  have := page.isLt
  unfold KERNEL_VMA_START KERNEL_VMA_END at notImage
  unfold PAGE_SIZE at aligned
  unfold startEntry
  rw [if_neg, if_neg]
  · rintro ⟨low, first⟩
    simp only [path, List.cons.injEq, index_eq] at low first
    omega
  · rintro ⟨image, upper⟩
    simp only [path, List.cons.injEq, index_eq] at image upper
    omega

/-- Page `i` of the lowest 2 MiB. -/
def lowPage (i : Nat) : Word := BitVec.ofNat 64 (PAGE_SIZE * i)

theorem lowPage_toNat {i : Nat} (hi : i < 512) : (lowPage i).toNat = PAGE_SIZE * i := by
  rw [lowPage, BitVec.toNat_ofNat]
  unfold PAGE_SIZE
  omega

theorem lowPage_canonical {i : Nat} (hi : i < 512) : CanonicalPage (lowPage i) := by
  refine ⟨?_, Or.inl ?_⟩
  · rw [lowPage_toNat hi]
    exact Nat.mul_mod_right PAGE_SIZE i
  · rw [lowPage_toNat hi]
    unfold PAGE_SIZE
    omega

theorem startEntry_lowPage {i : Nat} (positive : 0 < i) (hi : i < 512) :
    startEntry (lowPage i) &&& PRESENT ≠ 0#64 := by
  have address := lowPage_toNat hi
  unfold PAGE_SIZE at address
  have low : path (lowPage i) = [0, 0, 0] ∧ 1 ≤ index (lowPage i) 0 := by
    simp only [path, List.cons.injEq, index_eq, address, and_true]
    omega
  have notKernel : ¬ (path (lowPage i) = [0x1FF, 0x1FE, 0] ∧ 0x100 ≤ index (lowPage i) 0) := by
    rw [low.1]
    simp
  unfold startEntry
  rw [if_neg notKernel, if_pos low]
  exact mapped_present _ _

theorem lowPage_ne_imagePage {i j : Nat} (hi : i < 512) (hj : j < 256) : lowPage i ≠ imagePage j := by
  intro same
  have addresses := congrArg BitVec.toNat same
  rw [lowPage_toNat hi, imagePage_toNat hj] at addresses
  unfold PAGE_SIZE KERNEL_VMA_START at addresses
  omega

/-! ## Pages that are taken -/

/-- Since the kernel's own pages were protected, no pages were mapped but those in
`taken`. -/
structure Since (y : Layout) (taken : Set Word) (s : Paging.State) : Prop where
  wf : ∃ level, Wf y s level
  noDynamic : s.dynamicTables = 0#64
  image : ∀ i, i < 256 → i ≠ GUARD_PAGE → s.entryOf (imagePage i) &&& PRESENT ≠ 0#64
  low : ∀ i, 0 < i → i < 512 → s.entryOf (lowPage i) &&& PRESENT ≠ 0#64
  entries : ∀ page, CanonicalPage page → page ∉ taken → (∀ i, i < 256 → page ≠ imagePage i) →
    s.entryOf page = startEntry page

/-- The pages of a range. -/
def pagesFrom (v : Word) (n : Nat) : Set Word := {page | ∃ j, j < n ∧ page = pageAt v j}

theorem not_mem_pagesFrom {v : Word} {n m : Nat} (le : n ≤ m) (small : m < 2 ^ 52) :
    pageAt v m ∉ pagesFrom v n := by
  rintro ⟨j, hj, same⟩
  have := pageAt_inj small (by omega) same
  omega

section Taken

variable {y : Layout} {s s' : Paging.State} {taken : Set Word} {level : Word → Option Nat}

theorem Since.start (protected_ : Protected y s level) : Since y ∅ s := by
  refine ⟨⟨level, protected_.wf⟩, protected_.noDynamic, protected_.image, fun i positive hi => ?_,
    fun page canonical _ outside => protected_.others page canonical outside⟩
  rw [protected_.others _ (lowPage_canonical hi) fun j hj => lowPage_ne_imagePage hi hj]
  exact startEntry_lowPage positive hi

theorem Since.maps (since : Since y taken s) {p v attrs : Word} {n : Nat} (maps : Maps p v attrs n s s')
    (wf : Wf y s' level) (pool : s'.dynamicTables = s.dynamicTables) :
    Since y (taken ∪ pagesFrom v n) s' := by
  refine ⟨⟨level, wf⟩, pool.trans since.noDynamic, fun i hi notGuard => ?_, fun i positive hi => ?_,
    fun page canonical outside notImage => ?_⟩
  · rw [maps.keeps (imagePage_canonical hi) (since.image i hi notGuard)]
    exact since.image i hi notGuard
  · rw [maps.keeps (lowPage_canonical hi) (since.low i positive hi)]
    exact since.low i positive hi
  · rw [maps.others page canonical fun j hj same => outside (Or.inr ⟨j, hj, same⟩)]
    exact since.entries page canonical (fun mem => outside (Or.inl mem)) notImage

/-- `map_page` takes a page that was not present. -/
theorem Since.mapPage (since : Since y taken s) {physical v attrs r : Word} (canonical : CanonicalPage v)
    (done : Paging.mapPage y.toSymbols physical v attrs s = .ok (r, s')) :
    s.entryOf v &&& PRESENT = 0#64 ∧ Since y (insert v taken) s' ∧
      (∀ page, CanonicalPage page → s.entryOf page &&& PRESENT ≠ 0#64 →
        s'.entryOf page &&& PRESENT ≠ 0#64) := by
  obtain ⟨level, wf⟩ := since.wf
  obtain ⟨aligned, -⟩ := wf.mapPage_entries done
  have pool : s'.dynamicTables = s.dynamicTables := by
    obtain ⟨_, -, done⟩ := bind_eq_ok done
    obtain ⟨⟨it, s₁⟩, got, done⟩ := bind_eq_ok done
    exact (mapPageAt_pool done).trans (get_pool got)
  rcases wf.mapPage attrs canonical aligned with
    ⟨e, stops, -⟩ | ⟨-, message, stops⟩ | ⟨absent, r', s₁, level', result, wf', -, others, -⟩
  · rw [stops] at done
    cases done
  · rw [stops] at done
    cases done
  · obtain ⟨-, rfl⟩ := Prod.mk.inj (Except.ok.inj (result.symm.trans done))
    have keeps : ∀ page, CanonicalPage page → s.entryOf page &&& PRESENT ≠ 0#64 →
        s₁.entryOf page &&& PRESENT ≠ 0#64 := by
      intro page canonical' present
      have apart : page ≠ v := by
        rintro rfl
        exact present absent
      rw [others page canonical' apart]
      exact present
    refine ⟨absent, ⟨⟨level', wf'⟩, pool.trans since.noDynamic, fun i hi notGuard => ?_,
      fun i positive hi => ?_, fun page canonical' outside notImage => ?_⟩, keeps⟩
    · exact keeps _ (imagePage_canonical hi) (since.image i hi notGuard)
    · exact keeps _ (lowPage_canonical hi) (since.low i positive hi)
    · rw [others page canonical' fun same => outside (Or.inl same)]
      exact since.entries page canonical' (fun mem => outside (Or.inr mem)) notImage

/-- Pages that are mapped into kernel space and then written to have addresses that do
not wrap around. -/
theorem Since.identityMap (since : Since y taken s) {p n size : Nat} {v : Word} {u : Unit}
    (word : p < 2 ^ 64) (small : n < 2 ^ 51) (positive : 0 < size)
    (fresh : BitVec.ofNat 64 p + VMA_OFFSET ∉ taken)
    (done : identityMapPagesIntoKernelSpace y.toSymbols (BitVec.ofNat 64 p) n DEFAULT_ATTRIBUTES s =
      .ok (v, s')) (touched : touch s' v size = .ok u) :
    0 < n ∧ v = BitVec.ofNat 64 p + VMA_OFFSET ∧ p + PAGE_SIZE * n < 2 ^ 64 ∧
      Maps (BitVec.ofNat 64 p) v DEFAULT_ATTRIBUTES n s s' ∧ Since y (taken ∪ pagesFrom v n) s' := by
  obtain ⟨level, wf⟩ := since.wf
  have address : (BitVec.ofNat 64 p).toNat = p := by
    rw [BitVec.toNat_ofNat]
    exact Nat.mod_eq_of_lt word
  obtain ⟨some_, aligned, rfl, level', wf', maps⟩ := wf.identityMapPages small done
  rw [address] at maps aligned
  split at maps
  · next room =>
      exact ⟨some_, rfl, room, maps, since.maps maps wf' (identityMapPages_pool done)⟩
  · next wraps =>
      -- nothing was mapped, and nothing was there before
      exfalso
      obtain ⟨extended, present⟩ := touch_ok touched (divCeil_pos positive)
      rw [pageAt_zero] at extended present
      have place : (BitVec.ofNat 64 p + VMA_OFFSET).toNat = p - 2 ^ 31 := by
        rw [BitVec.toNat_add, address]
        unfold VMA_OFFSET KERNEL_VMA_OFFSET
        rw [BitVec.toNat_ofNat]
        unfold PAGE_SIZE at wraps
        omega
      have canonical : CanonicalPage (BitVec.ofNat 64 p + VMA_OFFSET) := by
        refine ⟨?_, extended⟩
        rw [place]
        unfold PAGE_SIZE at *
        omega
      have below : (BitVec.ofNat 64 p + VMA_OFFSET).toNat < KERNEL_VMA_START := by
        rw [place]
        unfold KERNEL_VMA_START
        omega
      refine present ?_
      rw [maps.others _ canonical fun j hj => absurd hj (Nat.not_lt_zero j),
        since.entries _ canonical fresh fun i hi same => ?_,
        startEntry_absent canonical (Or.inl below) (Or.inr ?_)]
      · rfl
      · rw [place]
        unfold PAGE_SIZE at wraps
        omega
      · rw [same, imagePage_toNat hi] at below
        omega

/-! ## Calls that complete -/

/-- The same, and `n` tables are left. -/
structure Ready (y : Layout) (taken : Set Word) (n : Nat) (s : Paging.State) : Prop where
  since : Since y taken s
  rooted : Rooted y.toSymbols s
  left : n ≤ s.tablesLeft

theorem Ready.start (protected_ : Protected y s level) : Ready y ∅ MAX_STATIC_TABLES s :=
  ⟨Since.start protected_, protected_.rooted, Nat.le_of_eq protected_.left.symm⟩

/-- Pages behind the kernel image are not present until they are taken. -/
theorem Since.absent_kernelPage (since : Since y taken s) {a : Nat} (small : a < 2 ^ 30)
    (aligned : a % PAGE_SIZE = 0) (outside : a < 0x100000 ∨ 0x200000 ≤ a)
    (fresh : kernelPage a ∉ taken) : s.entryOf (kernelPage a) &&& PRESENT = 0#64 := by
  rw [since.entries _ (kernelPage_canonical small aligned) fresh
    fun i hi => kernelPage_ne_imagePage small hi outside, startEntry_kernelPage small outside]
  rfl

theorem touch_of_present {v : Word} {size n : Nat} (fits : divCeil size PAGE_SIZE ≤ n)
    (canonical : ∀ j, j < n → CanonicalPage (pageAt v j))
    (present : ∀ j, j < n → s.entryOf (pageAt v j) &&& PRESENT ≠ 0#64) : touch s v size = .ok () := by
  unfold touch
  rw [if_pos]
  rw [List.all_eq_true]
  intro j hj
  have hj : j < n := Nat.lt_of_lt_of_le (List.mem_range.mp hj) fits
  unfold accessible
  rw [Bool.and_eq_true_iff, Bool.or_eq_true_iff]
  refine ⟨?_, bne_iff_ne.mpr (present j hj)⟩
  rcases (canonical j hj).2 with low | high
  · exact Or.inl (decide_eq_true low)
  · exact Or.inr (decide_eq_true high)

/-- Mapping pages from `a` on into kernel space and writing to them. -/
theorem Ready.identityMap {m : Nat} (ready : Ready y taken m s) {a n cost : Nat} (size : Nat)
    (positive : 0 < n) (aligned : a % PAGE_SIZE = 0) (behind : 0x200000 ≤ a)
    (inside : a + PAGE_SIZE * n < 2 ^ 30)
    (fresh : ∀ j, j < n → kernelPage (a + PAGE_SIZE * j) ∉ taken) (fits : divCeil size PAGE_SIZE ≤ n)
    (costs : 1 + ((a / PAGE_SIZE + n) / 512 - a / PAGE_SIZE / 512) = cost) (supply : cost ≤ m) :
    ∃ s', identityMapPagesIntoKernelSpace y.toSymbols (BitVec.ofNat 64 a) n DEFAULT_ATTRIBUTES s =
        .ok (kernelPage a, s') ∧ touch s' (kernelPage a) size = .ok () ∧
      Ready y (taken ∪ pagesFrom (kernelPage a) n) (m - cost) s' := by
  obtain ⟨level, wf⟩ := ready.since.wf
  have left := ready.left
  have small : a < 2 ^ 30 := by omega
  have absent : ∀ j, j < n → s.entryOf (kernelPage (a + PAGE_SIZE * j)) &&& PRESENT = 0#64 := by
    intro j hj
    refine ready.since.absent_kernelPage ?_ ?_ (Or.inr (by omega)) (fresh j hj)
    · unfold PAGE_SIZE at *
      omega
    · unfold PAGE_SIZE at *
      omega
  obtain ⟨s', done, left'⟩ := wf.identityMapPages_ok ready.rooted DEFAULT_ATTRIBUTES positive aligned
    inside absent (by rw [crossings_kernelPage small]; omega)
  rw [crossings_kernelPage small] at left'
  have few : n < 2 ^ 51 := by
    unfold PAGE_SIZE at inside
    omega
  have address : (BitVec.ofNat 64 a).toNat = a := by
    rw [BitVec.toNat_ofNat]
    omega
  obtain ⟨-, -, -, level', wf', maps⟩ := wf.identityMapPages few done
  rw [address, if_pos (by omega)] at maps
  have touched : touch s' (kernelPage a) size = .ok () :=
    touch_of_present fits maps.canonical fun j hj => maps.present hj
  refine ⟨s', done, touched, ?_, maps.rooted ready.rooted, by omega⟩
  exact ready.since.maps maps wf' (identityMapPages_pool done)

/-- Mapping one page of the lower half. -/
theorem Ready.mapPage {m : Nat} (ready : Ready y taken (m + 1) s) (physical : Nat) {v : Nat} (attrs : Word)
    (aligned : v % PAGE_SIZE = 0) (behind : 0x200000 ≤ v) (inside : v < 2 ^ 30)
    (alignedP : physical % PAGE_SIZE = 0) (fresh : BitVec.ofNat 64 v ∉ taken) :
    ∃ r s', Paging.mapPage y.toSymbols (BitVec.ofNat 64 physical) (BitVec.ofNat 64 v) attrs s =
        .ok (r, s') ∧ Ready y (insert (BitVec.ofNat 64 v) taken) m s' ∧
      s'.entryOf (BitVec.ofNat 64 v) = BitVec.ofNat 64 physical ||| attrs ||| PRESENT := by
  obtain ⟨level, wf⟩ := ready.since.wf
  have left := ready.left
  have address : (BitVec.ofNat 64 v).toNat = v := by
    rw [BitVec.toNat_ofNat]
    omega
  have canonical : CanonicalPage (BitVec.ofNat 64 v) := by
    refine ⟨?_, Or.inl ?_⟩
    · rw [address]
      exact aligned
    · rw [address]
      omega
  have alignedWord : (BitVec.ofNat 64 physical).toNat % PAGE_SIZE = 0 := by
    rw [BitVec.toNat_ofNat]
    unfold PAGE_SIZE at *
    omega
  have absent : s.entryOf (BitVec.ofNat 64 v) &&& PRESENT = 0#64 := by
    rw [ready.since.entries _ canonical fresh fun i hi same => ?_,
      startEntry_absent canonical (Or.inl ?_) (Or.inr ?_)]
    · rfl
    · rw [address]
      unfold KERNEL_VMA_START
      omega
    · rw [address]
      exact behind
    · have addresses := congrArg BitVec.toNat same
      rw [address, imagePage_toNat hi] at addresses
      unfold KERNEL_VMA_START at addresses
      omega
  obtain ⟨r, s', done, rooted, left', entry⟩ := wf.mapPage_ok ready.rooted attrs
    (ready.rooted.hasTable_low inside) canonical alignedWord absent (by omega)
  exact ⟨r, s', done, ⟨(ready.since.mapPage canonical done).2.1, rooted, by omega⟩, entry⟩

end Taken

/-! ## A machine with 128 MiB of memory -/

def zeroContents : Contents := ⟨fun _ => 0#64, fun _ => ⟨0, 0, none⟩, fun _ => 0⟩

def sampleMap : List MemoryMap.Entry := [⟨0x300000, 0x7CE0000, 1⟩]

/-- The bitmap of `sampleMap`. -/
def samplePma : Pma.State := Pma.earlyInit 0x300000 0x7CE0000 zeroContents.limbs

/-- The heap after `memory::finish_init`. -/
def sampleHeap : Except Stop (Alloc.State Pma.State Vma.State) := do
  let (page, pma) ← Pma.getPhysicalPage samplePma
  let vma ← Vma.init zeroContents.nodes page
  Alloc.init Alloc.kernelSuppliers ⟨pma, vma, ⟨fun _ => none, zeroContents.bytes, false⟩, 0, []⟩

/-- The pages of the bitmap, of the free list and of the heap's first node. -/
def sampleTaken : Set Word :=
  insert (BitVec.ofNat 64 0x200000) (∅ ∪ pagesFrom (kernelPage 0x300000) 1 ∪
    pagesFrom (kernelPage 0x301000) 1)

theorem kernelPage_not_mem {a b n : Nat} (ha : a < 2 ^ 30) (inside : b + PAGE_SIZE * n < 2 ^ 30)
    (outside : a < b ∨ b + PAGE_SIZE * n ≤ a) : kernelPage a ∉ pagesFrom (kernelPage b) n := by
  rintro ⟨j, hj, same⟩
  rw [pageAt_kernelPage] at same
  have := kernelPage_inj ha (by unfold PAGE_SIZE at *; omega) same
  unfold PAGE_SIZE at *
  omega

theorem low_not_mem {v b n : Nat} (low : v < 2 ^ 30) (inside : b + PAGE_SIZE * n < 2 ^ 30) :
    BitVec.ofNat 64 v ∉ pagesFrom (kernelPage b) n := by
  rintro ⟨j, hj, same⟩
  rw [pageAt_kernelPage] at same
  have addresses := congrArg BitVec.toNat same
  rw [kernelPage_toNat (by unfold PAGE_SIZE at *; omega), BitVec.toNat_ofNat] at addresses
  unfold KERNEL_VMA_OFFSET at addresses
  omega

theorem sampleTaken_next : BitVec.ofNat 64 0x201000 ∉ sampleTaken := by
  rintro (first | (none_ | mem) | mem)
  · exact absurd first (by decide)
  · exact none_
  · exact low_not_mem (by decide) (by decide) mem
  · exact low_not_mem (by decide) (by decide) mem

theorem memoryFinishInit_sample {y : Layout} {s : Paging.State}
    (ready : Ready y ∅ MAX_STATIC_TABLES s) :
    ∃ k, memoryFinishInit y.toSymbols zeroContents sampleMap s = .ok k ∧ sampleHeap = .ok k.heap ∧
      k.live = [] ∧ Ready y sampleTaken 5 k.tables := by
  have evaluated : completesWith (Pma.getPhysicalPage samplePma) (fun r => r.1 == 0x301000 &&
      completesWith (Vma.init zeroContents.nodes r.1) fun vma =>
      completesWith (Alloc.init Alloc.kernelSuppliers
        ⟨r.2, vma, ⟨fun _ => none, zeroContents.bytes, false⟩, 0, []⟩) fun heap =>
      heap.calls == [.getPhysicalPage 0x302000, .getVirtualPages 0x200000 PAGE_SIZE,
        .mapPage 0x302000 0x200000]) = true := by
    decide +kernel
  obtain ⟨⟨page, pma⟩, got, tests⟩ := exists_of_completesWith evaluated
  obtain ⟨isPage, tests⟩ := Bool.and_eq_true_iff.mp tests
  obtain ⟨vma, list, tests⟩ := exists_of_completesWith tests
  obtain ⟨heap, allocated, calls⟩ := exists_of_completesWith tests
  obtain rfl : page = 0x301000 := beq_iff_eq.mp isPage
  have calls := beq_iff_eq.mp calls
  -- the pages of the bitmap
  obtain ⟨s₁, mapped₁, touched₁, ready₁⟩ := ready.identityMap (a := 0x300000) (n := 1)
    (8 + 8 * samplePma.physicalPageMap.numLimbs) Nat.one_pos (by decide) (by decide) (by decide)
    (fun j hj => Set.notMem_empty _) (by decide) rfl (by decide)
  have early : pmaEarlyInit y.toSymbols zeroContents sampleMap s = .ok (samplePma, s₁) := by
    show (Pma.earlyInitMapped y.toSymbols zeroContents.limbs s sampleMap >>= _) = _
    have bitmap : Pma.earlyInitMapped y.toSymbols zeroContents.limbs s sampleMap =
        .ok (samplePma, s₁) := by
      have start : alignTo (0x300000 : UInt64).toNat PAGE_SIZE = 0x300000 := by decide
      have pages : Pma.pagesNeededForPageMap (0x7CE0000 : UInt64).toNat = 1 := by decide
      unfold Pma.earlyInitMapped sampleMap
      dsimp only
      rw [start, pages, mapped₁]
      rfl
    rw [bitmap, ok_bind]
    show (touch s₁ (kernelPage 0x300000) _ >>= _) = _
    rw [touched₁, ok_bind]
    rfl
  -- the page of the free list
  obtain ⟨s₂, mapped₂, touched₂, ready₂⟩ := ready₁.identityMap (a := 0x301000) (n := 1) PAGE_SIZE
    Nat.one_pos (by decide) (by decide) (by decide) (fun j hj => by
      obtain rfl : j = 0 := by omega
      rintro (none_ | mem)
      · exact none_
      · exact kernelPage_not_mem (by decide) (by decide) (by decide) mem)
    (by decide) rfl (by decide)
  have init : vmaInit y.toSymbols zeroContents samplePma s₁ = .ok (pma, vma, s₂) := by
    unfold vmaInit
    rw [got, ok_bind]
    dsimp only
    rw [mapped₂, ok_bind]
    dsimp only
    rw [touched₂, ok_bind, list, ok_bind]
    rfl
  -- the page of the first node
  obtain ⟨r, s₃, mapped₃, ready₃, -⟩ := ready₂.mapPage (m := 5) 0x302000 (v := 0x200000)
    DEFAULT_ATTRIBUTES (by decide) (by decide) (by decide) (by decide) (by
      rintro ((none_ | mem) | mem)
      · exact none_
      · exact low_not_mem (by decide) (by decide) mem
      · exact low_not_mem (by decide) (by decide) mem)
  refine ⟨⟨s₃, heap, []⟩, ?_, ?_, rfl, ready₃⟩
  · unfold memoryFinishInit
    rw [early, ok_bind]
    dsimp only
    rw [init, ok_bind]
    dsimp only
    unfold allocInit
    rw [allocated, ok_bind, calls]
    simp only [replay]
    show ((Paging.mapPage y.toSymbols (BitVec.ofNat 64 0x302000) (BitVec.ofNat 64 0x200000)
      DEFAULT_ATTRIBUTES s₂ >>= _) >>= _) = _
    rw [mapped₃]
    rfl
  · unfold sampleHeap
    rw [got, ok_bind]
    dsimp only
    rw [list, ok_bind]
    exact allocated

end Tyleros.Kernel
