import Tyleros.Kernel.Startup
import Tyleros.Pma.Startup
import Tyleros.Vma.Startup

/-!
# Free virtual pages and the page tables

A page of the free list should not be present. Most ranges that `kmain` maps are taken
off the list when they are mapped, but not those of `vga::init` and of `acpi::init`, and
`pma::finish_init`, which takes off the range of the bitmap, is never called. The startup is
followed here from component to component: whatever the memory map is, the page of the
screen is both present and free when `kmain` has completed.
-/

namespace Tyleros.Kernel

open Lib Paging

/-- No page inside a free node is present. -/
def FreePagesAbsent (k : State) : Prop :=
  ∀ i ∈ k.heap.vma.listed, ∀ page : Nat, page % PAGE_SIZE = 0 →
    (k.heap.vma.nodes i).base ≤ page →
    page + PAGE_SIZE ≤ (k.heap.vma.nodes i).base + (k.heap.vma.nodes i).size →
    k.tables.entryOf (BitVec.ofNat 64 page) &&& PRESENT = 0#64

/-- `alloc::alloc` or `alloc::free`. -/
def Op.IsHeap : Op → Prop
  | .alloc _ _ _ => True
  | .free _ => True
  | _ => False

/-! ## Pages in kernel space -/

/-- Where a physical address is mapped in kernel space. -/
theorem toNat_add_offset (a : Nat) :
    (BitVec.ofNat 64 a + VMA_OFFSET).toNat = add64 a KERNEL_VMA_OFFSET := by
  rw [BitVec.toNat_add, BitVec.toNat_ofNat, VMA_OFFSET, BitVec.toNat_ofNat]
  unfold add64 KERNEL_VMA_OFFSET
  omega

theorem pageAt_add_offset (a j : Nat) :
    pageAt (BitVec.ofNat 64 a + VMA_OFFSET) j = BitVec.ofNat 64 (a + PAGE_SIZE * j) + VMA_OFFSET :=
  pageAt_kernelPage a j

section Taken

variable {y : Layout} {s s' : Paging.State} {taken : Set Word}

/-- A page that is not present is none of the lowest 2 MiB and none of the kernel image
but the guard page. -/
theorem Since.absent_cases (since : Since y taken s) {page : Word}
    (absent : s.entryOf page &&& PRESENT = 0#64) :
    (∀ i, 0 < i → i < 512 → page ≠ lowPage i) ∧
      ∀ i, i < 256 → i ≠ GUARD_PAGE → page ≠ imagePage i := by
  constructor
  · rintro i positive hi rfl
    exact since.low i positive hi absent
  · rintro i hi notGuard rfl
    exact since.image i hi notGuard absent

/-! ## The bitmap -/

/-- `pma::early_init` maps the bitmap, whose pages were not present. -/
theorem Since.pmaEarlyInit (since : Since y ∅ s) {c : Contents} {memoryMap : List MemoryMap.Entry}
    {pma : Pma.State} (done : pmaEarlyInit y.toSymbols c memoryMap s = .ok (pma, s')) :
    ∃ first n limbs, 0 < n ∧ n ≤ 15 * 512 ∧ first % PAGE_SIZE = 0 ∧ first + PAGE_SIZE * n < 2 ^ 64 ∧
      Maps (BitVec.ofNat 64 first) (BitVec.ofNat 64 first + VMA_OFFSET) DEFAULT_ATTRIBUTES n s s' ∧
      Since y (pagesFrom (BitVec.ofNat 64 first + VMA_OFFSET) n) s' ∧
      limbs ≤ 2 ^ 24 ∧ 1 < 32 * limbs ∧ Pma.Shape limbs (first + PAGE_SIZE * n) ⟨pma, []⟩ ∧
      Pma.Filled pma.physicalPageMap 0 := by
  obtain ⟨⟨pma', s''⟩, bitmap, done⟩ := bind_eq_ok done
  obtain ⟨_, touched, done⟩ := bind_eq_ok done
  obtain ⟨rfl, rfl⟩ := Prod.mk.inj (Except.ok.inj done)
  cases memoryMap with
  | nil => cases bitmap
  | cons e rest =>
      obtain ⟨⟨v, s₁⟩, mapped, bitmap⟩ := bind_eq_ok bitmap
      obtain ⟨rfl, rfl⟩ := Prod.mk.inj (Except.ok.inj bitmap)
      have wordBase : e.base.toNat < 2 ^ 64 := e.base.toNat_lt
      have wordLength : e.length.toNat < 2 ^ 64 := e.length.toNat_lt
      obtain ⟨aligned, word, -⟩ := Pma.alignTo_page wordBase
      obtain ⟨lower, upper⟩ := Pma.pagesNeeded_bounds wordLength
      have few := Pma.limbsNeeded_le wordLength
      have small : Pma.pagesNeededForPageMap e.length.toNat < 2 ^ 51 := by
        unfold PAGE_SIZE at upper
        omega
      have place : v = bitmapAddress (e :: rest) := by
        obtain ⟨-, -, eq, -⟩ := since.wf.choose_spec.identityMapPages small mapped
        exact eq
      rw [← place] at touched
      obtain ⟨positive, rfl, room, maps, since'⟩ := since.identityMap word small (by omega)
        (Set.notMem_empty _) mapped touched
      obtain ⟨level', wf'⟩ := since'.wf
      have pages := wf'.maps_count_le since'.noDynamic maps (by omega)
      have fewLimbs : Pma.limbsNeeded e.length.toNat ≤ 2 ^ 24 := by
        unfold PAGE_SIZE at lower
        omega
      obtain ⟨shape, filled⟩ := Pma.earlyInit_shape c.limbs wordBase fewLimbs room
      rw [Set.empty_union] at since'
      refine ⟨_, _, _, positive, pages, aligned, room, maps, since', fewLimbs, ?_, shape, filled⟩
      unfold PAGE_SIZE at upper
      omega

/-! ## The free list -/

/-- `vma::init` maps the page of the free list, which was not present, and the list holds
the rest of the free ranges. -/
theorem Since.vmaInit (since : Since y taken s) {c : Contents} {pma pma' : Pma.State} {vma : Vma.State}
    {page : Nat} (word : page < 2 ^ 64) (got : Pma.getPhysicalPage pma = .ok (page, pma'))
    (fresh : BitVec.ofNat 64 page + VMA_OFFSET ∉ taken)
    (notLow : add64 page KERNEL_VMA_OFFSET ≠ 0x200000)
    (notEnd : add64 page KERNEL_VMA_OFFSET ≠ KERNEL_VMA_END) {pma₁ : Pma.State}
    (done : vmaInit y.toSymbols c pma s = .ok (pma₁, vma, s')) :
    pma₁ = pma' ∧ page + PAGE_SIZE < 2 ^ 64 ∧ add64 page KERNEL_VMA_OFFSET + PAGE_SIZE < 2 ^ 64 ∧
      Maps (BitVec.ofNat 64 page) (BitVec.ofNat 64 page + VMA_OFFSET) DEFAULT_ATTRIBUTES 1 s s' ∧
      Since y (taken ∪ pagesFrom (BitVec.ofNat 64 page + VMA_OFFSET) 1) s' ∧
      Vma.StartList vma 0x200000 (add64 page KERNEL_VMA_OFFSET) ∧
      vma.free = Vma.initialRanges \ Set.Ico (add64 page KERNEL_VMA_OFFSET)
        (add64 page KERNEL_VMA_OFFSET + PAGE_SIZE) ∧
      ((vma.nodes 0).size = 2 ^ 42 - 0x200000 ∨
        (vma.nodes 0).size = add64 page KERNEL_VMA_OFFSET - 0x200000) := by
  obtain ⟨⟨page', pma''⟩, got', done⟩ := bind_eq_ok done
  obtain ⟨eqPage, eqPma⟩ := Prod.mk.inj (Except.ok.inj (got'.symm.trans got))
  subst page' pma''
  obtain ⟨⟨v, s₁⟩, mapped, done⟩ := bind_eq_ok done
  obtain ⟨_, touched, done⟩ := bind_eq_ok done
  obtain ⟨vma', list, done⟩ := bind_eq_ok done
  obtain ⟨rfl, rest⟩ := Prod.mk.inj (Except.ok.inj done)
  obtain ⟨rfl, rfl⟩ := Prod.mk.inj rest
  obtain ⟨-, rfl, room, maps, since'⟩ :=
    since.identityMap word (by decide) (by decide) fresh mapped touched
  have below := maps.below 0 (by decide)
  have extended := maps.extended 0 (by decide)
  rw [pageAt_zero, toNat_add_offset] at below
  rw [pageAt_zero, SignExtended, toNat_add_offset] at extended
  have inner : ∀ i, i < 3 → add64 page KERNEL_VMA_OFFSET ≠ Vma.rangeStart i := by
    generalize add64 page KERNEL_VMA_OFFSET = v at *
    intro i hi
    obtain rfl | rfl | rfl : i = 0 ∨ i = 1 ∨ i = 2 := by omega
    · exact notLow
    · show v ≠ 2 ^ 64 - 2 ^ 42
      omega
    · exact notEnd
  obtain ⟨startList, free, size⟩ := Vma.init_list list rfl inner below
  rw [Nat.mul_one] at room
  exact ⟨rfl, room, below, maps, since', startList, free, size⟩

/-! ## The heap -/

theorem withMemory_keeps {heap heap' : Alloc.State Pma.State Vma.State}
    {memory : Option (PagedMemory PAGE_SIZE)} (done : heap.withMemory memory = .ok heap') :
    heap'.pma = heap.pma ∧ heap'.vma = heap.vma ∧ heap'.calls = heap.calls := by
  cases memory with
  | none => cases done
  | some memory =>
      cases done
      exact ⟨rfl, rfl, rfl⟩

/-- `alloc::init` takes a page for the first node and maps it. -/
theorem allocInit_cases {c : Contents} {pma : Pma.State} {vma : Vma.State} {k : State}
    (done : allocInit y.toSymbols c pma vma s = .ok k) :
    ∃ page pma' address vma' r, Pma.getPhysicalPage pma = .ok (page, pma') ∧
      Vma.getVirtualPages PAGE_SIZE vma = .ok (address, vma') ∧
      Paging.mapPage y.toSymbols (BitVec.ofNat 64 page) (BitVec.ofNat 64 address) DEFAULT_ATTRIBUTES s =
        .ok (r, k.tables) ∧
      k.heap.pma = pma' ∧ k.heap.vma = vma' := by
  obtain ⟨heap, allocated, done⟩ := bind_eq_ok done
  obtain ⟨s₁, replayed, done⟩ := bind_eq_ok done
  cases done
  obtain ⟨⟨first, heap₁⟩, node, allocated⟩ := bind_eq_ok allocated
  obtain ⟨heap₂, stored₂, allocated⟩ := bind_eq_ok allocated
  obtain ⟨heap₃, stored₃, stored₄⟩ := bind_eq_ok allocated
  obtain ⟨pma₂, vma₂, calls₂⟩ := withMemory_keeps stored₂
  obtain ⟨pma₃, vma₃, calls₃⟩ := withMemory_keeps stored₃
  obtain ⟨pma₄, vma₄, calls₄⟩ := withMemory_keeps stored₄
  obtain ⟨⟨page, heap₅⟩, gotPage, node⟩ := bind_eq_ok node
  obtain ⟨⟨page', pma'⟩, got, gotPage⟩ := bind_eq_ok gotPage
  obtain ⟨rfl, rfl⟩ := Prod.mk.inj (Except.ok.inj gotPage)
  obtain ⟨⟨address, heap₆⟩, gotAddress, node⟩ := bind_eq_ok node
  obtain ⟨⟨address', vma'⟩, taken, gotAddress⟩ := bind_eq_ok gotAddress
  obtain ⟨rfl, rfl⟩ := Prod.mk.inj (Except.ok.inj gotAddress)
  obtain ⟨heap₇, mapped, node⟩ := bind_eq_ok node
  obtain ⟨rfl, rfl⟩ := Prod.mk.inj (Except.ok.inj node)
  obtain ⟨_, -, mapped⟩ := bind_eq_ok mapped
  obtain ⟨_, -, mapped⟩ := bind_eq_ok mapped
  split at mapped
  · cases mapped
  · cases mapped
    have calls : heap.calls = [.getPhysicalPage page', .getVirtualPages address' PAGE_SIZE,
        .mapPage page' address'] := by
      rw [calls₄, calls₃, calls₂]
      rfl
    rw [calls] at replayed
    obtain ⟨⟨r, s₂⟩, done, rest⟩ := bind_eq_ok replayed
    cases rest
    refine ⟨page', pma', address', vma', r, got, taken, done, ?_, ?_⟩
    · show heap.pma = pma'
      rw [pma₄, pma₃, pma₂]
    · show heap.vma = vma'
      rw [vma₄, vma₃, vma₂]

/-! ## `memory::finish_init` -/

/-- The state after `memory::finish_init`, where the free list is on a physical page: the
next block of pages comes two pages behind it. -/
structure Started (y : Layout) (page : Nat) (k : State) : Prop where
  aligned : page % PAGE_SIZE = 0
  room : page + PAGE_SIZE < 2 ^ 64
  below : add64 page KERNEL_VMA_OFFSET + PAGE_SIZE < 2 ^ 64
  tables : ∃ taken, Since y taken k.tables ∧
    pageAt (BitVec.ofNat 64 page + VMA_OFFSET) 2 ∉ taken
  notLow : ∀ i, 0 < i → i < 512 → BitVec.ofNat 64 page + VMA_OFFSET ≠ lowPage i
  notImage : ∀ i, i < 256 → i ≠ GUARD_PAGE → BitVec.ofNat 64 page + VMA_OFFSET ≠ imagePage i
  present : k.tables.entryOf (BitVec.ofNat 64 page + VMA_OFFSET) &&& PRESENT ≠ 0#64
  list : Vma.StartList k.heap.vma 0x201000 (add64 page KERNEL_VMA_OFFSET)
  free : k.heap.vma.free = (Vma.initialRanges \ Set.Ico (add64 page KERNEL_VMA_OFFSET)
    (add64 page KERNEL_VMA_OFFSET + PAGE_SIZE)) \ Set.Ico 0x200000 0x201000
  block : ∀ next pma, Pma.getContiguousPhysicalPages MAX_DYNAMIC_TABLES k.heap.pma = .ok (next, pma) →
    next = (page + PAGE_SIZE * 2) % 2 ^ 64 ∧ next ≠ 0

/-- The page behind `n` pages that were not present is not the first one of a free range. -/
theorem Since.behind (since : Since y taken s) {first n page : Nat} {attrs : Word} (positive : 0 < n)
    (maps : Maps (BitVec.ofNat 64 first) (BitVec.ofNat 64 first + VMA_OFFSET) attrs n s s')
    (behind : page = first + PAGE_SIZE * n) :
    add64 page KERNEL_VMA_OFFSET ≠ 0x200000 ∧ add64 page KERNEL_VMA_OFFSET ≠ KERNEL_VMA_END ∧
      (pageAt (BitVec.ofNat 64 first + VMA_OFFSET) (n - 1)).toNat =
        (add64 page KERNEL_VMA_OFFSET + (2 ^ 64 - PAGE_SIZE)) % 2 ^ 64 := by
  have lastPage : (pageAt (BitVec.ofNat 64 first + VMA_OFFSET) (n - 1)).toNat =
      (add64 page KERNEL_VMA_OFFSET + (2 ^ 64 - PAGE_SIZE)) % 2 ^ 64 := by
    rw [pageAt_add_offset, toNat_add_offset, behind]
    unfold add64 PAGE_SIZE KERNEL_VMA_OFFSET
    omega
  obtain ⟨notLow, notImage⟩ := since.absent_cases (maps.absent (n - 1) (by omega))
  refine ⟨fun same => ?_, fun same => ?_, lastPage⟩
  · rw [same] at lastPage
    exact notLow 511 (by decide) (by decide) (BitVec.eq_of_toNat_eq lastPage)
  · rw [same] at lastPage
    exact notImage 255 (by decide) (by decide) (BitVec.eq_of_toNat_eq lastPage)

/-- The free list comes right behind the bitmap. Its page is neither the first one of a free
range, nor the second one of the first range: what is in front of it was mapped. -/
theorem Since.memoryFinishInit (since : Since y ∅ s) {c : Contents} {memoryMap : List MemoryMap.Entry}
    {k : State} (done : memoryFinishInit y.toSymbols c memoryMap s = .ok k) :
    ∃ page, Started y page k := by
  obtain ⟨⟨pma, s₁⟩, early, done⟩ := bind_eq_ok done
  obtain ⟨⟨pma₁, vma, s₂⟩, list, done⟩ := bind_eq_ok done
  dsimp only at list done
  obtain ⟨first, n, limbs, positive, small, alignedFirst, room, maps, since₁, few, some_, shape,
    filled⟩ := since.pmaEarlyInit early
  obtain ⟨⟨page, pma₁'⟩, got, -⟩ := bind_eq_ok list
  obtain ⟨eqPage, filled₁, shape₁⟩ := shape.gotNext few (by omega) filled got
  have page_ : page = first + PAGE_SIZE * n := by
    rw [eqPage]
    exact Nat.mod_eq_of_lt room
  have next : pageAt (BitVec.ofNat 64 first + VMA_OFFSET) n = BitVec.ofNat 64 page + VMA_OFFSET := by
    rw [pageAt_add_offset, page_]
  -- the last page of the bitmap
  obtain ⟨notLow, notEnd, lastPage⟩ := since.behind positive maps page_
  have fresh : BitVec.ofNat 64 page + VMA_OFFSET ∉ pagesFrom (BitVec.ofNat 64 first + VMA_OFFSET) n := by
    rw [← next]
    exact not_mem_pagesFrom (Nat.le_refl n) (by omega)
  obtain ⟨rfl, roomPage, below, maps₁, since₂, startList, free, size⟩ :=
    since₁.vmaInit (by omega) got fresh notLow notEnd list
  have absent := maps₁.absent 0 (by decide)
  rw [pageAt_zero] at absent
  obtain ⟨pageNotLow, pageNotImage⟩ := since₁.absent_cases absent
  obtain ⟨page₂, pma₂, address, vma₂, r, got₂, taken, mapped, pmaEq, vmaEq⟩ := allocInit_cases done
  -- the page of the heap
  have onPages := startList.onPages 0 (startList.inv.mem_listed.mpr (by decide))
  have full := startList.full 0 (by decide)
  have roomy : PAGE_SIZE ≤ (vma.nodes 0).size := by
    have := onPages.2
    unfold PAGE_SIZE at *
    omega
  obtain ⟨rfl, free₂, rest⟩ := startList.get roomy taken
  have canonical : CanonicalPage (BitVec.ofNat 64 0x200000) := ⟨by decide, Or.inl (by decide)⟩
  obtain ⟨notMapped, since₃, keeps⟩ := since₂.mapPage canonical mapped
  have more : (vma.nodes 0).size ≠ PAGE_SIZE := by
    intro one
    have second : add64 page KERNEL_VMA_OFFSET = 0x201000 := by
      unfold PAGE_SIZE at one
      omega
    rw [second] at lastPage
    have bitmap : pageAt (BitVec.ofNat 64 first + VMA_OFFSET) (n - 1) = BitVec.ofNat 64 0x200000 :=
      BitVec.eq_of_toNat_eq lastPage
    have there := maps.present (j := n - 1) (by omega)
    have still := maps₁.keeps (maps.canonical (n - 1) (by omega)) there
    rw [← still, bitmap] at there
    exact there notMapped
  have pageThere := maps₁.present (j := 0) (by decide)
  have pageCanonical := maps₁.canonical 0 (by decide)
  rw [pageAt_zero] at pageThere pageCanonical
  refine ⟨page, ?_, roomPage, below, ⟨_, since₃, ?_⟩, pageNotLow, pageNotImage,
    keeps _ pageCanonical pageThere, ?_, ?_, fun block pma₃ got₃ => ?_⟩
  · rw [page_]
    unfold PAGE_SIZE at *
    omega
  · -- the block behind is new
    rintro (same | inBitmap | inList)
    · have address := congrArg BitVec.toNat same
      refine pageNotLow 510 (by decide) (by decide) (BitVec.eq_of_toNat_eq ?_)
      rw [pageAt, BitVec.toNat_add] at address
      rw [lowPage_toNat (by decide)]
      have := (BitVec.ofNat 64 page + VMA_OFFSET).isLt
      simp only [PAGE_SIZE, BitVec.toNat_ofNat] at address ⊢
      omega
    · rw [← next, pageAt_pageAt] at inBitmap
      exact not_mem_pagesFrom (by omega) (by omega) inBitmap
    · exact not_mem_pagesFrom (by decide) (by decide) inList
  · rw [vmaEq]
    exact rest more
  · rw [vmaEq, free₂, free]
    rfl
  · rw [pmaEq] at got₃
    obtain ⟨-, filled₂, shape₂⟩ := shape₁.gotNext few some_ filled₁ got₂
    rw [page_]
    exact shape₂.gotBlock few filled₂ (by decide) got₃

/-! ## `paging::finish_init` -/

/-- Pages that are mapped and were not present are apart from the kernel's own tables. -/
theorem Since.spare (since : Since y taken s) {p v : Word} (maps : Maps p v DEFAULT_ATTRIBUTES 512 s s')
    (physical : ∀ j, j < 512 → pageAt v j ≠ VMA_OFFSET) : Spare y v := by
  have address : ∀ j, j < 512 → (pageAt v j).toNat = v.toNat + PAGE_SIZE * j := fun j hj => maps.toNat hj
  have absent : ∀ j, j < 512 → (∀ i, 0 < i → i < 512 → pageAt v j ≠ lowPage i) ∧
      ∀ i, i < 256 → i ≠ GUARD_PAGE → pageAt v j ≠ imagePage i :=
    fun j hj => since.absent_cases (maps.absent j hj)
  have aligned := (maps.canonical 0 (by decide)).aligned
  rw [pageAt_zero] at aligned
  refine ⟨?_, aligned, ?_, fun j hj => ⟨fun mem => ?_, physical j hj⟩⟩
  · rintro rfl
    exact (absent 1 (by decide)).1 1 (by decide) (by decide) rfl
  · have last := maps.below 511 (by decide)
    rw [address 511 (by decide)] at last
    unfold PAGE_SIZE MAX_DYNAMIC_TABLES at *
    omega
  · -- it would be a page of the kernel image, and so would be the ones next to it
    have hj : j < 512 := hj
    have onPage := y.aligned _ mem
    obtain ⟨lower, upper⟩ := y.inImage _ mem
    have place : (tableAt v j).toNat = v.toNat + PAGE_SIZE * j := address j hj
    rw [place] at onPage lower upper
    have image : ∀ j' i, j' < 512 → i < 256 → v.toNat + PAGE_SIZE * j' = KERNEL_VMA_START + PAGE_SIZE * i →
        i = GUARD_PAGE := by
      intro j' i hj' hi same
      by_contra notGuard
      refine (absent j' hj').2 i hi notGuard (BitVec.eq_of_toNat_eq ?_)
      rw [address j' hj', imagePage_toNat hi]
      exact same
    have guard := image j ((v.toNat + PAGE_SIZE * j - KERNEL_VMA_START) / PAGE_SIZE) hj
      (by unfold PAGE_SIZE KERNEL_VMA_START KERNEL_VMA_END at *; omega)
      (by unfold PAGE_SIZE KERNEL_VMA_START at *; omega)
    have here : v.toNat + PAGE_SIZE * j = KERNEL_VMA_START + PAGE_SIZE * 239 := by
      unfold PAGE_SIZE KERNEL_VMA_START GUARD_PAGE at *
      omega
    rcases Nat.eq_zero_or_pos j with rfl | later
    · exact absurd (image 1 240 (by decide) (by decide) (by unfold PAGE_SIZE at *; omega)) (by decide)
    · exact absurd (image (j - 1) 238 (by omega) (by decide) (by unfold PAGE_SIZE at *; omega))
        (by decide)

/-- The block of pages two pages behind the free list begins none of the ranges on the list. -/
theorem Started.block_ne {page : Nat} {k : State} (started : Started y page k) :
    add64 (page + PAGE_SIZE * 2) KERNEL_VMA_OFFSET % PAGE_SIZE = 0 ∧
      add64 (page + PAGE_SIZE * 2) KERNEL_VMA_OFFSET ≠ 0x201000 ∧
      add64 (page + PAGE_SIZE * 2) KERNEL_VMA_OFFSET ≠ KERNEL_VMA_END ∧
      add64 (page + PAGE_SIZE * 2) KERNEL_VMA_OFFSET ≠ add64 page KERNEL_VMA_OFFSET + PAGE_SIZE := by
  have aligned := started.aligned
  have below := started.below
  have blockAt : add64 (page + PAGE_SIZE * 2) KERNEL_VMA_OFFSET =
      (add64 page KERNEL_VMA_OFFSET + PAGE_SIZE * 2) % 2 ^ 64 := by
    unfold add64 PAGE_SIZE KERNEL_VMA_OFFSET
    omega
  have listPage := toNat_add_offset page
  refine ⟨?_, fun here => ?_, fun here => ?_, ?_⟩
  · unfold add64 PAGE_SIZE KERNEL_VMA_OFFSET at *
    omega
  · refine started.notLow 511 (by decide) (by decide) (BitVec.eq_of_toNat_eq ?_)
    rw [listPage, lowPage_toNat (by decide)]
    unfold PAGE_SIZE at *
    omega
  · refine started.notImage 254 (by decide) (by decide) (BitVec.eq_of_toNat_eq ?_)
    rw [listPage, imagePage_toNat (by decide)]
    unfold PAGE_SIZE KERNEL_VMA_START KERNEL_VMA_END at *
    omega
  · rw [blockAt]
    unfold PAGE_SIZE at *
    omega

/-- `paging::finish_init` maps the block, whose pages were not present and are apart from the
kernel's own tables. -/
theorem Started.mapBlock {page next : Nat} {k : State} (started : Started y page k) {pma : Pma.State}
    {v : Word} {u : Unit}
    (got : Pma.getContiguousPhysicalPages MAX_DYNAMIC_TABLES k.heap.pma = .ok (next, pma))
    (mapped : identityMapPagesIntoKernelSpace y.toSymbols (BitVec.ofNat 64 next) MAX_DYNAMIC_TABLES
      DEFAULT_ATTRIBUTES k.tables = .ok (v, s'))
    (touched : touch s' v (PAGE_SIZE * MAX_DYNAMIC_TABLES) = .ok u) :
    next = page + PAGE_SIZE * 2 ∧ v = BitVec.ofNat 64 next + VMA_OFFSET ∧
      Maps (BitVec.ofNat 64 next) v DEFAULT_ATTRIBUTES 512 k.tables s' ∧
      (∃ taken', Since y taken' s') ∧ Spare y v := by
  obtain ⟨taken, since, fresh⟩ := started.tables
  obtain ⟨nextEq, notNull⟩ := started.block next pma got
  have room := started.room
  have aligned := started.aligned
  have next_ : next = page + PAGE_SIZE * 2 := by
    rw [nextEq] at notNull ⊢
    unfold PAGE_SIZE at *
    omega
  have word : next < 2 ^ 64 := by
    rw [nextEq]
    exact Nat.mod_lt _ (by decide)
  have behind : pageAt (BitVec.ofNat 64 page + VMA_OFFSET) 2 = BitVec.ofNat 64 next + VMA_OFFSET := by
    rw [pageAt_add_offset, next_]
  rw [behind] at fresh
  obtain ⟨-, rfl, roomBlock, maps, since'⟩ :=
    since.identityMap word (by decide) (by decide) fresh mapped touched
  refine ⟨next_, rfl, maps, ⟨_, since'⟩, since.spare maps fun j hj null => notNull ?_⟩
  have zero := congrArg BitVec.toNat null
  have kernel : VMA_OFFSET.toNat = KERNEL_VMA_OFFSET := by decide
  rw [maps.toNat hj, toNat_add_offset, kernel] at zero
  unfold add64 KERNEL_VMA_OFFSET at zero
  unfold PAGE_SIZE MAX_DYNAMIC_TABLES at *
  omega

/-- The pages of a mapped range, by their addresses. -/
theorem present_inside {p v attrs : Word} {n x : Nat} {s s' : Paging.State}
    (maps : Maps p v attrs n s s') (start : v.toNat % PAGE_SIZE = 0) (small : x < 2 ^ 64)
    (onPage : x % PAGE_SIZE = 0) (inside : v.toNat ≤ x ∧ x < v.toNat + PAGE_SIZE * n) :
    s'.entryOf (BitVec.ofNat 64 x) &&& PRESENT ≠ 0#64 := by
  have bound : (x - v.toNat) / PAGE_SIZE < n := by
    unfold PAGE_SIZE at *
    omega
  have here : pageAt v ((x - v.toNat) / PAGE_SIZE) = BitVec.ofNat 64 x := by
    apply BitVec.eq_of_toNat_eq
    rw [maps.toNat bound, BitVec.toNat_ofNat, Nat.mod_eq_of_lt small]
    unfold PAGE_SIZE at *
    omega
  have present := maps.present bound
  rw [here] at present
  exact present

/-- After `paging::finish_init` the pages of the free ranges that are not present are on the
list. -/
theorem Started.pagingFinishInit {page : Nat} {k k' : State} (started : Started y page k)
    (done : pagingFinishInit y.toSymbols k = .ok k') :
    (∃ level, Wf y k'.tables level) ∧ Vma.OnPages k'.heap.vma ∧
      ∀ x, x ∈ Vma.initialRanges → 0x201000 ≤ x → CanonicalPage (BitVec.ofNat 64 x) → x < 2 ^ 64 →
        k'.tables.entryOf (BitVec.ofNat 64 x) &&& PRESENT = 0#64 → x ∈ k'.heap.vma.free := by
  obtain ⟨⟨next, pma⟩, got, done⟩ := bind_eq_ok done
  obtain ⟨⟨v, s₁⟩, mapped, done⟩ := bind_eq_ok done
  obtain ⟨_, touched, done⟩ := bind_eq_ok done
  obtain ⟨vma, removed, done⟩ := bind_eq_ok done
  cases done
  obtain ⟨next_, rfl, maps, ⟨taken, since₁⟩, spare⟩ := started.mapBlock got mapped touched
  obtain ⟨onPage, notFirst, notEnd, notRest⟩ := started.block_ne
  rw [← next_] at onPage notFirst notEnd notRest
  obtain ⟨level₁, wf₁⟩ := since₁.wf
  obtain ⟨wf₂, same⟩ := wf₁.addDynamicTables since₁.noDynamic spare
  have place := toNat_add_offset next
  have address : ∀ j, j < 512 → (pageAt (BitVec.ofNat 64 next + VMA_OFFSET) j).toNat =
      add64 next KERNEL_VMA_OFFSET + PAGE_SIZE * j := by
    intro j hj
    rw [maps.toNat hj, place]
  -- the range of the tables is taken off the list
  have extended := maps.extended 0 (by decide)
  have last := maps.below 511 (by decide)
  rw [pageAt_zero, SignExtended, place] at extended
  rw [address 511 (by decide)] at last
  have notInner : ∀ i, 0 < i → i < 3 → add64 next KERNEL_VMA_OFFSET ≠ Vma.rangeStart i := by
    intro i positive hi
    obtain rfl | rfl : i = 1 ∨ i = 2 := by omega
    · show add64 next KERNEL_VMA_OFFSET ≠ 2 ^ 64 - 2 ^ 42
      omega
    · exact notEnd
  have size : alignTo (PAGE_SIZE * MAX_DYNAMIC_TABLES) PAGE_SIZE = PAGE_SIZE * 512 := by decide
  have inside : add64 next KERNEL_VMA_OFFSET + alignTo (PAGE_SIZE * MAX_DYNAMIC_TABLES) PAGE_SIZE ≤
      2 ^ 64 := by
    rw [size]
    unfold PAGE_SIZE at *
    omega
  rw [place] at removed
  obtain ⟨free, onPages⟩ := started.list.remove (by decide) (add64_lt _ _) inside notFirst notInner
    notRest onPage removed
  refine ⟨⟨level₁, wf₂⟩, onPages, fun x initial above canonical small absent => ?_⟩
  have xOnPage := canonical.aligned
  rw [BitVec.toNat_ofNat, Nat.mod_eq_of_lt small] at xOnPage
  rw [(same _).2] at absent
  show x ∈ vma.free
  rw [free, started.free, size]
  refine ⟨⟨⟨initial, fun inList => ?_⟩, fun first => ?_⟩, fun inBlock => ?_⟩
  · have aligned := started.aligned
    have listOnPage : add64 page KERNEL_VMA_OFFSET % PAGE_SIZE = 0 := by
      unfold add64 PAGE_SIZE KERNEL_VMA_OFFSET at *
      omega
    have here : BitVec.ofNat 64 x = BitVec.ofNat 64 page + VMA_OFFSET := by
      apply BitVec.eq_of_toNat_eq
      rw [toNat_add_offset, BitVec.toNat_ofNat, Nat.mod_eq_of_lt small]
      rw [Set.mem_Ico] at inList
      unfold PAGE_SIZE at *
      omega
    rw [here] at canonical absent
    have still := maps.keeps canonical started.present
    rw [still] at absent
    exact started.present absent
  · rw [Set.mem_Ico] at first
    omega
  · rw [Set.mem_Ico, ← place] at inBlock
    refine present_inside maps ?_ small xOnPage inBlock absent
    rw [place]
    exact onPage

end Taken

/-! ## The screen -/

/-- The page of the screen in kernel space. -/
def screenPage : Nat := KERNEL_VMA_OFFSET + VGA_MEMORY_BASE_ADDRESS

section Screen

variable {y : Layout} {k k' : State}

/-- `vga::init` maps the page of the screen, which was not present. -/
theorem vgaInit_screen (wf : ∃ level, Wf y k.tables level) (done : vgaInit y.toSymbols k = .ok k') :
    k'.heap = k.heap ∧ (∃ level, Wf y k'.tables level) ∧
      k.tables.entryOf (BitVec.ofNat 64 screenPage) &&& PRESENT = 0#64 ∧
      k'.tables.entryOf (BitVec.ofNat 64 screenPage) &&& PRESENT ≠ 0#64 := by
  obtain ⟨level, wf⟩ := wf
  obtain ⟨⟨r, s⟩, mapped, done⟩ := bind_eq_ok done
  cases done
  obtain ⟨-, -, level', wf', maps⟩ := wf.identityMapPageRange (n := 1) (by decide) (by decide) mapped
  rw [if_pos (by decide)] at maps
  have absent := maps.absent 0 (by decide)
  have present := maps.present (j := 0) (by decide)
  rw [pageAt_zero] at absent present
  exact ⟨rfl, ⟨level', wf'⟩, absent, present⟩

/-- `acpi::init` leaves the page of the screen. -/
theorem acpiInit_keeps (wf : ∃ level, Wf y k.tables level) (done : acpiInit y.toSymbols k = .ok k')
    {page : Word} (canonical : CanonicalPage page)
    (present : k.tables.entryOf page &&& PRESENT ≠ 0#64) :
    k'.heap = k.heap ∧ k'.tables.entryOf page &&& PRESENT ≠ 0#64 := by
  obtain ⟨level, wf⟩ := wf
  obtain ⟨⟨r, s⟩, mapped, done⟩ := bind_eq_ok done
  cases done
  obtain ⟨-, -, level', -, maps⟩ := wf.identityMapPageRange (n := 32) (by decide) (by decide) mapped
  refine ⟨rfl, ?_⟩
  rw [maps.keeps canonical present]
  exact present

/-- However the kernel starts, once it has started the page of the screen is present and on
the free list. -/
theorem kmain_screen {z : Sections} {memory : Word → Word} {c : Contents}
    {memoryMap : List MemoryMap.Entry} (done : kmain y.toSymbols z memory c memoryMap = .ok k) :
    ¬ FreePagesAbsent k := by
  obtain ⟨s, booted, done⟩ := bind_eq_ok done
  obtain ⟨level, protected_⟩ := boot_protected booted
  obtain ⟨k₁, finished, done⟩ := bind_eq_ok done
  obtain ⟨page, started⟩ := (Since.start protected_).memoryFinishInit finished
  obtain ⟨k₂, paged, done⟩ := bind_eq_ok done
  obtain ⟨wf₂, onPages, free⟩ := started.pagingFinishInit paged
  obtain ⟨k₃, screen, acpi⟩ := bind_eq_ok done
  obtain ⟨heap₃, wf₃, absent, present⟩ := vgaInit_screen wf₂ screen
  have canonical : CanonicalPage (BitVec.ofNat 64 screenPage) := ⟨by decide, Or.inr (by decide)⟩
  obtain ⟨heap, still⟩ := acpiInit_keeps wf₃ acpi canonical present
  intro agree
  have initial : screenPage ∈ Vma.initialRanges := Or.inl (Or.inr ⟨by decide, by decide⟩)
  obtain ⟨i, listed, inNode⟩ := free screenPage initial (by decide) canonical (by decide) absent
  obtain ⟨baseOnPage, sizeOnPage⟩ := onPages i listed
  rw [Vma.FreeNode.range, Set.mem_Ico] at inNode
  unfold FreePagesAbsent at agree
  rw [heap, heap₃] at agree
  have aligned : screenPage % PAGE_SIZE = 0 := by decide
  refine still (agree i listed screenPage aligned inNode.1 ?_)
  generalize screenPage = x at *
  unfold PAGE_SIZE at *
  omega

/-- Whatever the memory map is, it does not hold of the runs of the heap that no page of a
free node is present. -/
theorem free_pages_present {z : Sections} {memory : Word → Word} {c : Contents}
    {memoryMap : List MemoryMap.Entry} (done : kmain y.toSymbols z memory c memoryMap = .ok k) :
    ¬ ∀ ops : List Op, (∀ o ∈ ops, o.IsHeap) → (machine y.toSymbols).Always FreePagesAbsent k ops :=
  fun always => kmain_screen done (always [] fun _ mem => absurd mem List.not_mem_nil)

end Screen

/-! ## The kernel starts -/

theorem sampleTaken_block {j : Nat} (hj : j < 512) : kernelPage (0x303000 + PAGE_SIZE * j) ∉ sampleTaken := by
  unfold PAGE_SIZE
  rintro (first | (none_ | mem) | mem)
  · have addresses := congrArg BitVec.toNat first
    rw [kernelPage_toNat (by omega), BitVec.toNat_ofNat] at addresses
    unfold KERNEL_VMA_OFFSET at addresses
    omega
  · exact none_
  · exact kernelPage_not_mem (by omega) (by decide) (by unfold PAGE_SIZE; omega) mem
  · exact kernelPage_not_mem (by omega) (by decide) (by unfold PAGE_SIZE; omega) mem

theorem sampleTaken_low {a : Nat} (low : a < 0x100000) :
    kernelPage a ∉ sampleTaken ∪ pagesFrom (kernelPage 0x303000) 512 := by
  rintro ((first | (none_ | mem) | mem) | mem)
  · have addresses := congrArg BitVec.toNat first
    rw [kernelPage_toNat (by omega), BitVec.toNat_ofNat] at addresses
    unfold KERNEL_VMA_OFFSET at addresses
    omega
  · exact none_
  · exact kernelPage_not_mem (by omega) (by decide) (by omega) mem
  · exact kernelPage_not_mem (by omega) (by decide) (by omega) mem
  · exact kernelPage_not_mem (by omega) (by decide) (by omega) mem

/-- With the memory of `sampleMap` the dynamic tables are mapped, and the tables of the
kernel's 1 GiB stay. -/
theorem pagingFinishInit_sample {y : Layout} {k : State} (started : sampleHeap = .ok k.heap)
    (ready : Ready y sampleTaken 5 k.tables) :
    ∃ k', pagingFinishInit y.toSymbols k = .ok k' ∧ (∃ level, Wf y k'.tables level) ∧
      Rooted y.toSymbols k'.tables ∧ MAX_DYNAMIC_TABLES ≤ k'.tables.tablesLeft ∧
      ∀ a, a < 0x100000 → a % PAGE_SIZE = 0 → k'.tables.entryOf (kernelPage a) &&& PRESENT = 0#64 := by
  have evaluated : completesWith sampleHeap (fun heap =>
      completesWith (Pma.getContiguousPhysicalPages MAX_DYNAMIC_TABLES heap.pma) (fun r =>
        r.1 == 0x303000) &&
      completesWith (Vma.removeFromFreeList (KERNEL_VMA_OFFSET + 0x303000)
        (PAGE_SIZE * MAX_DYNAMIC_TABLES) heap.vma) fun _ => true) = true := by
    decide +kernel
  rw [started] at evaluated
  obtain ⟨gotTest, removeTest⟩ := Bool.and_eq_true_iff.mp evaluated
  obtain ⟨⟨page, pma⟩, got, isPage⟩ := exists_of_completesWith gotTest
  obtain ⟨vma, removed, -⟩ := exists_of_completesWith removeTest
  obtain rfl : page = 0x303000 := beq_iff_eq.mp isPage
  obtain ⟨s₁, mapped, touched, ready₁⟩ := ready.identityMap (a := 0x303000) (n := 512)
    (PAGE_SIZE * MAX_DYNAMIC_TABLES) (by decide) (by decide) (by decide) (by decide)
    (fun j hj => sampleTaken_block hj) (by decide) rfl (by decide)
  have mapped' : identityMapPagesIntoKernelSpace y.toSymbols (BitVec.ofNat 64 0x303000)
      MAX_DYNAMIC_TABLES DEFAULT_ATTRIBUTES k.tables = .ok (kernelPage 0x303000, s₁) := mapped
  obtain ⟨level₁, wf₁⟩ := ready₁.since.wf
  have spare : Spare y (kernelPage 0x303000) := by
    obtain ⟨level, wf⟩ := ready.since.wf
    obtain ⟨-, -, -, level', -, maps⟩ := wf.identityMapPages (by decide) mapped
    rw [if_pos (by decide)] at maps
    refine ready.since.spare maps fun j hj null => ?_
    rw [pageAt_kernelPage] at null
    have addresses := congrArg BitVec.toNat null
    have kernel : VMA_OFFSET.toNat = KERNEL_VMA_OFFSET := by decide
    rw [kernelPage_toNat (by unfold PAGE_SIZE; omega), kernel] at addresses
    omega
  obtain ⟨wf₂, same⟩ := wf₁.addDynamicTables ready₁.since.noDynamic spare
  have walks := wf₁.walk_addDynamicTables ready₁.since.noDynamic spare
  have address : (kernelPage 0x303000).toNat = KERNEL_VMA_OFFSET + 0x303000 :=
    kernelPage_toNat (by decide)
  refine ⟨{ k with
    tables := addDynamicTables (kernelPage 0x303000) s₁
    heap := { k.heap with pma, vma } }, ?_, ⟨level₁, wf₂⟩, ⟨?_, ?_⟩, Nat.le_add_left _ _,
    fun a low aligned => ?_⟩
  · unfold pagingFinishInit
    rw [got, ok_bind]
    dsimp only
    rw [mapped', ok_bind]
    dsimp only
    rw [touched, ok_bind, address, removed]
    rfl
  · exact (walks _).trans ready₁.rooted.kernel
  · exact (walks _).trans ready₁.rooted.low
  · show (addDynamicTables (kernelPage 0x303000) s₁).entryOf (kernelPage a) &&& PRESENT = 0#64
    rw [(same _).2]
    exact ready₁.since.absent_kernelPage (by omega) aligned (Or.inl low) (sampleTaken_low low)

/-- Pages of the first MiB are mapped into kernel space if two tables are left. -/
theorem identityMap_low {y : Layout} {s : Paging.State} (wf : ∃ level, Wf y s level)
    (rooted : Rooted y.toSymbols s) {a n : Nat} {size : Word}
    (rounded : alignTo size.toNat PAGE_SIZE = PAGE_SIZE * n) (aligned : a % PAGE_SIZE = 0)
    (low : a + PAGE_SIZE * n ≤ 0x100000)
    (absent : ∀ j, j < n → s.entryOf (kernelPage (a + PAGE_SIZE * j)) &&& PRESENT = 0#64)
    (left : 2 ≤ s.tablesLeft) :
    ∃ s', identityMapPageRangeIntoKernelSpace y.toSymbols (BitVec.ofNat 64 a) size DEFAULT_ATTRIBUTES s =
        .ok (kernelPage a, s') ∧
      s.tablesLeft ≤ s'.tablesLeft + 2 ∧ (∃ level, Wf y s' level) ∧
      Maps (BitVec.ofNat 64 a) (BitVec.ofNat 64 a + VMA_OFFSET) DEFAULT_ATTRIBUTES n s s' := by
  obtain ⟨level, wf⟩ := wf
  have cost : crossings (kernelPage a) n ≤ 1 := by
    rw [crossings_kernelPage (by omega)]
    unfold PAGE_SIZE at *
    omega
  obtain ⟨s', done, left'⟩ := wf.identityMapPageRange_ok rooted DEFAULT_ATTRIBUTES rounded aligned
    (by omega) absent (by omega)
  have few : n < 2 ^ 51 := by
    unfold PAGE_SIZE at low
    omega
  obtain ⟨-, -, level', wf', maps⟩ := wf.identityMapPageRange few rounded done
  have room : (BitVec.ofNat 64 a).toNat + PAGE_SIZE * n < 2 ^ 64 := by
    rw [BitVec.toNat_ofNat]
    omega
  rw [if_pos room] at maps
  exact ⟨s', done, by omega, ⟨level', wf'⟩, maps⟩

/-- The kernel starts with the memory of `sampleMap`. -/
theorem kmain_sample : ∃ k, kmain sampleLayout.toSymbols Pma.smallSections (fun _ => 0#64) zeroContents
    sampleMap = .ok k := by
  obtain ⟨s, level, booted, protected_⟩ :=
    boot_completes sampleLayout Pma.smallSections (fun _ => 0#64) (by decide)
  obtain ⟨k₁, finished, started, -, ready⟩ := memoryFinishInit_sample (Ready.start protected_)
  obtain ⟨k₂, paged, wf₂, rooted, left, absent⟩ := pagingFinishInit_sample started ready
  have enough : 2 + 2 ≤ MAX_DYNAMIC_TABLES := by decide
  -- the screen
  have screenAbsent : ∀ j, j < 1 →
      k₂.tables.entryOf (kernelPage (VGA_MEMORY_BASE_ADDRESS + PAGE_SIZE * j)) &&& PRESENT = 0#64 := by
    intro j hj
    obtain rfl : j = 0 := by omega
    exact absent VGA_MEMORY_BASE_ADDRESS (by decide) (by decide)
  have screenSize : alignTo (BitVec.ofNat 64 SCREEN_SIZE).toNat PAGE_SIZE = PAGE_SIZE * 1 := by decide
  obtain ⟨s₃, screen, left₃, wf₃, maps⟩ := identityMap_low wf₂ rooted (a := VGA_MEMORY_BASE_ADDRESS)
    screenSize (by decide) (by decide) screenAbsent (by omega)
  -- the area of the RSDP
  have rsdpAbsent : ∀ j, j < 32 →
      s₃.entryOf (kernelPage (RSDP_AREA_START + PAGE_SIZE * j)) &&& PRESENT = 0#64 := by
    intro j hj
    have inside : RSDP_AREA_START + PAGE_SIZE * j < 0x100000 := by
      unfold RSDP_AREA_START PAGE_SIZE
      omega
    have aligned : (RSDP_AREA_START + PAGE_SIZE * j) % PAGE_SIZE = 0 := by
      unfold RSDP_AREA_START PAGE_SIZE
      omega
    rw [maps.others _ (kernelPage_canonical (by omega) aligned) fun i hi same => ?_]
    · exact absent _ inside aligned
    · obtain rfl : i = 0 := by omega
      rw [pageAt_zero] at same
      have addresses := kernelPage_inj (by omega) (by decide) same
      unfold RSDP_AREA_START VGA_MEMORY_BASE_ADDRESS at addresses
      omega
  have rsdpSize : alignTo (BitVec.ofNat 64 RSDP_AREA_SIZE).toNat PAGE_SIZE = PAGE_SIZE * 32 := by decide
  obtain ⟨s₄, rsdp, -⟩ := identityMap_low wf₃ (maps.rooted rooted) (a := RSDP_AREA_START)
    rsdpSize (by decide) (by decide) rsdpAbsent (by omega)
  refine ⟨{ k₂ with tables := s₄ }, ?_⟩
  have first : vgaInit sampleLayout.toSymbols k₂ = .ok { k₂ with tables := s₃ } := by
    unfold vgaInit
    rw [screen]
    rfl
  unfold kmain
  rw [booted, ok_bind, finished, ok_bind, paged, ok_bind, first, ok_bind]
  unfold acpiInit
  dsimp only
  rw [rsdp]
  rfl

theorem free_pages_present_sample : ∃ k,
    kmain sampleLayout.toSymbols Pma.smallSections (fun _ => 0#64) zeroContents sampleMap = .ok k ∧
      ¬ ∀ ops : List Op, (∀ o ∈ ops, o.IsHeap) →
        (machine sampleLayout.toSymbols).Always FreePagesAbsent k ops := by
  obtain ⟨k, done⟩ := kmain_sample
  exact ⟨k, done, free_pages_present done⟩

/-- With 128 MiB of memory the page of the screen is present and free, before any call of
the heap. -/
theorem free_pages_not_absent :
    ¬ ∀ k, kmain sampleLayout.toSymbols Pma.smallSections (fun _ => 0#64) zeroContents sampleMap = .ok k →
      ∀ ops : List Op, (∀ o ∈ ops, o.IsHeap) →
        (machine sampleLayout.toSymbols).Always FreePagesAbsent k ops := by
  intro agrees
  obtain ⟨k, done⟩ := kmain_sample
  exact kmain_screen done (agrees k done [] fun _ mem => absurd mem List.not_mem_nil)

end Tyleros.Kernel
