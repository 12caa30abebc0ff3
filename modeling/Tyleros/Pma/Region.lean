import Tyleros.Pma.Runs
import Tyleros.Paging.Supply
import Tyleros.MemoryMap

/-!
# The bitmap in its region

`pma::early_init` puts the bitmap at the start of the largest usable region and hands out
the pages behind it. The bitmap has a bit for every page of the region, rounded up to
limbs, also for those pages that hold the bitmap itself; and its header is not part of
the size that is mapped for it. `early_init_region_iff` says for which regions nothing
goes wrong because of that.
-/

namespace Tyleros.Pma

open Tyleros.Lib

/-! ## `early_init` with the mapping of the bitmap -/

/-- `pages_needed_for_page_map`. -/
def pagesNeededForPageMap (length : Nat) : Nat :=
  divCeil (Bitmap.sizeRequired (length / PAGE_SIZE)) PAGE_SIZE

/-- `early_init` with the mapping of the bitmap's pages, where `memory` is what they held
before. -/
def earlyInitMapped (y : Paging.Symbols) (memory : Nat → BitVec 64) (s : Paging.State) :
    List MemoryMap.Entry → Except Stop (State × Paging.State)
  | [] => .error (.assertion "memory map not initialized!")
  | e :: _ => do
    let (_, s) ← Paging.identityMapPagesIntoKernelSpace y
      (BitVec.ofNat 64 (alignTo e.base.toNat PAGE_SIZE)) (pagesNeededForPageMap e.length.toNat)
      Paging.DEFAULT_ATTRIBUTES s
    return (earlyInit e.base.toNat e.length.toNat memory, s)

/-! ## Where the bitmap and the pages are -/

section Placement

variable (base length : Nat) (tables : Paging.State)

/-- Byte `o` of the bitmap is in the pages mapped for it, and its address is translated
to that of the region. -/
def ByteMapped (o : Nat) : Prop :=
  o < PAGE_SIZE * pagesNeededForPageMap length ∧
    Paging.getPhysicalAddress
        (BitVec.ofNat 64 (alignTo base PAGE_SIZE) + Paging.VMA_OFFSET + BitVec.ofNat 64 o) tables =
      .ok (BitVec.ofNat 64 (alignTo base PAGE_SIZE + o))

/-- All bytes of limb `i`, which is behind the header of eight bytes. -/
def LimbMapped (i : Nat) : Prop := ∀ o, 8 + 8 * i ≤ o → o < 8 + 8 * (i + 1) → ByteMapped base length tables o

/-- The limbs that `set` and `reset` write in an operation that completes. -/
def WritesMapped (h : Held) : Op → Prop
  | .get => ∀ page pma, getPhysicalPage h.pma = .ok (page, pma) →
      LimbMapped base length tables
        (toUnsigned (h.pma.physicalPageMap.findFirst false) / BITS_PER_LIMB)
  | .getContiguous n => ∀ page pma idx, getContiguousPhysicalPages n h.pma = .ok (page, pma) →
      h.pma.physicalPageMap.findFirstN false n = .ok idx → ∀ i, i < n →
      LimbMapped base length tables ((toUnsigned idx + i) % 2 ^ 32 / BITS_PER_LIMB)
  | .free page => ∀ pma, freePhysicalPage page h.pma = .ok pma →
      LimbMapped base length tables
        (sub64 page h.pma.physicalPageBase / PAGE_SIZE % 2 ^ 32 / BITS_PER_LIMB)

/-- The header, the limbs that `make` clears and those written later are in the pages
that were mapped for the bitmap. -/
def BitmapMapped (pma : State) : Prop :=
  (∀ o, o < 8 + 8 * pma.physicalPageMap.numLimbs → ByteMapped base length tables o) ∧
    ∀ ops, machine.EachStep Legal ⟨pma, []⟩ ops →
      machine.EachStep (WritesMapped base length tables) ⟨pma, []⟩ ops

/-- The page is in the region, and not one of the bitmap's. -/
def InRegion (page : Nat) : Prop :=
  base ≤ page ∧ page < base + length ∧
    ¬ (alignTo base PAGE_SIZE ≤ page ∧
      page < alignTo base PAGE_SIZE + PAGE_SIZE * pagesNeededForPageMap length)

/-- The pages an operation hands out are in the region. -/
def HandsOutInside (h : Held) : Op → Prop
  | .get => ∀ page pma, getPhysicalPage h.pma = .ok (page, pma) → InRegion base length page
  | .getContiguous n => ∀ page pma, getContiguousPhysicalPages n h.pma = .ok (page, pma) →
      ∀ p ∈ block page n, InRegion base length p
  | .free _ => True

def PagesInside (pma : State) : Prop :=
  ∀ ops, machine.EachStep Legal ⟨pma, []⟩ ops →
    machine.EachStep (HandsOutInside base length) ⟨pma, []⟩ ops

/-- The number of limbs of the bitmap. -/
def limbsNeeded : Nat := divCeil (length / PAGE_SIZE) BITS_PER_LIMB

/-- The limbs do not fill the pages that are mapped, so that there is room for the
header; the bitmap is at an address that an entry can hold; and the page of the last bit
that `find_first` can find is in the region. -/
def Roomy : Prop :=
  limbsNeeded length % 512 ≠ 0 ∧
    alignTo base PAGE_SIZE + PAGE_SIZE * pagesNeededForPageMap length ≤ 2 ^ 52 ∧
    base ≤ alignTo base PAGE_SIZE ∧
    alignTo base PAGE_SIZE +
        PAGE_SIZE * (pagesNeededForPageMap length + BITS_PER_LIMB * limbsNeeded length - 33) <
      base + length

end Placement

/-! ## Sizes -/

section Sizes

variable {base length : Nat}

theorem limbsNeeded_le (word : length < 2 ^ 64) : limbsNeeded length ≤ 2 ^ 46 := by
  unfold limbsNeeded divCeil BITS_PER_LIMB PAGE_SIZE
  split <;> omega

/-- The limbs take all the pages but less than one. -/
theorem pagesNeeded_bounds (word : length < 2 ^ 64) :
    8 * limbsNeeded length ≤ PAGE_SIZE * pagesNeededForPageMap length ∧
      PAGE_SIZE * pagesNeededForPageMap length < 8 * limbsNeeded length + PAGE_SIZE := by
  have few := limbsNeeded_le word
  have size : Bitmap.sizeRequired (length / PAGE_SIZE) = 8 * limbsNeeded length := by
    unfold Bitmap.sizeRequired
    rw [Nat.mul_comm]
    exact Nat.mod_eq_of_lt (Nat.lt_of_le_of_lt (Nat.mul_le_mul_left 8 few) (by decide))
  unfold pagesNeededForPageMap divCeil
  rw [size]
  unfold PAGE_SIZE
  split <;> omega

theorem alignTo_page (word : base < 2 ^ 64) :
    alignTo base PAGE_SIZE % PAGE_SIZE = 0 ∧ alignTo base PAGE_SIZE < 2 ^ 64 ∧
      (base ≤ alignTo base PAGE_SIZE ∧ alignTo base PAGE_SIZE < base + PAGE_SIZE ∨
        2 ^ 64 < base + PAGE_SIZE ∧ alignTo base PAGE_SIZE = 0) := by
  unfold alignTo add64 sub64 PAGE_SIZE
  omega

end Sizes

/-! ## What a run keeps -/

/-- The header of the bitmap and the base stay, and every outstanding page belongs to a
bit of the bitmap. -/
structure Shape (limbs pageBase : Nat) (h : Held) : Prop where
  numLimbs : h.pma.physicalPageMap.numLimbs = limbs
  totalSize : h.pma.physicalPageMap.totalSize = limbs * 8
  physicalPageBase : h.pma.physicalPageBase = pageBase
  pages : ∀ page ∈ h.outstanding, ∃ k, k < BITS_PER_LIMB * limbs ∧ page = h.pma.pageAt (toInt k)

section Shapes

variable {limbs pageBase : Nat} {h h' : Held}

/-- `get_physical_page` takes a bit in the lower half of a limb. -/
theorem Shape.getPage (few : limbs ≤ 2 ^ 26) (shape : Shape limbs pageBase h) {page : Nat} {pma : State}
    (got : getPhysicalPage h.pma = .ok (page, pma)) :
    ∃ k, k + 33 ≤ BITS_PER_LIMB * limbs ∧ h.pma.physicalPageMap.findFirst false = toInt k ∧
      page = h.pma.pageAt (toInt k) ∧
      pma = { h.pma with physicalPageMap := h.pma.physicalPageMap.set k } := by
  obtain ⟨k, hk, low, -, found, eq, after⟩ := getPhysicalPage_spec (by rw [shape.numLimbs]; exact few) got
  rw [shape.numLimbs] at hk
  refine ⟨k, ?_, found, eq, after⟩
  unfold BITS_PER_LIMB at *
  omega

/-- The bits of a block end before the upper half of the last limb, because only the first
eighth of the bitmap is searched. -/
theorem Shape.getBlock (few : limbs ≤ 2 ^ 26) (shape : Shape limbs pageBase h) {n page : Nat}
    {pma : State} (got : getContiguousPhysicalPages n h.pma = .ok (page, pma)) :
    ∃ r, r + n + 32 ≤ BITS_PER_LIMB * limbs ∧ r + n < 2 ^ 31 ∧
      h.pma.physicalPageMap.findFirstN false n = .ok (r : Int) ∧ page = h.pma.pageAt r ∧
      pma = { h.pma with physicalPageMap := setBits h.pma.physicalPageMap r n } := by
  obtain ⟨q, pos, -, inside, limb, found, eq, after⟩ := getContiguousPhysicalPages_spec
    (by rw [shape.numLimbs]; exact few) (by rw [shape.totalSize, shape.numLimbs]) got
  rw [shape.numLimbs] at inside limb
  have start : h.pma.physicalPageMap.startOf false q ≤ q + (BITS_PER_LIMB - 1) := by
    unfold Bitmap.startOf
    split <;> omega
  generalize h.pma.physicalPageMap.startOf false q = r at *
  have ends : r + n + 32 ≤ BITS_PER_LIMB * limbs ∧ r + n < 2 ^ 31 := by
    unfold BITS_PER_LIMB at *
    omega
  exact ⟨r, ends.1, ends.2, found, eq, after⟩

theorem Shape.step (few : limbs ≤ 2 ^ 26) (shape : Shape limbs pageBase h) {o : Op}
    (hs : machine.step h o = .ok h') : Shape limbs pageBase h' := by
  cases o with
  | get =>
      obtain ⟨⟨page, pma⟩, got, hs⟩ := bind_eq_ok hs
      cases hs
      obtain ⟨k, hk, -, rfl, rfl⟩ := shape.getPage few got
      refine ⟨shape.numLimbs, shape.totalSize, shape.physicalPageBase, fun p mem => ?_⟩
      rcases List.mem_cons.mp mem with rfl | old
      · exact ⟨k, by omega, rfl⟩
      · exact shape.pages p old
  | getContiguous n =>
      obtain ⟨⟨page, pma⟩, got, hs⟩ := bind_eq_ok hs
      cases hs
      obtain ⟨r, inside, small, -, rfl, rfl⟩ := shape.getBlock few got
      obtain ⟨sameLimbs, sameSize⟩ := setBits_header h.pma.physicalPageMap r n
      refine ⟨sameLimbs.trans shape.numLimbs, sameSize.trans shape.totalSize, shape.physicalPageBase, fun p mem => ?_⟩
      rcases List.mem_append.mp mem with new | old
      · rw [h.pma.block_pageAt small, List.mem_map] at new
        obtain ⟨i, hi, rfl⟩ := new
        rw [List.mem_range] at hi
        exact ⟨r + i, by omega, rfl⟩
      · exact shape.pages p old
  | free page =>
      obtain ⟨pma, freed, hs⟩ := bind_eq_ok hs
      cases hs
      obtain ⟨_, -, freed⟩ := bind_eq_ok freed
      obtain ⟨_, -, freed⟩ := bind_eq_ok freed
      cases freed
      exact ⟨shape.numLimbs, shape.totalSize, shape.physicalPageBase, fun p mem =>
        shape.pages p (List.mem_of_mem_filter mem)⟩

theorem index_limb {k : Nat} (hk : k < BITS_PER_LIMB * limbs) : k / BITS_PER_LIMB < limbs :=
  Nat.div_lt_of_lt_mul hk

/-- `set` and `reset` write limbs of the bitmap. -/
theorem Shape.writesMapped (few : limbs ≤ 2 ^ 26) (word : pageBase < 2 ^ 64)
    (shape : Shape limbs pageBase h) {base length : Nat} {tables : Paging.State}
    (mapped : ∀ i, i < limbs → LimbMapped base length tables i) {o : Op} (legal : Legal h o) :
    WritesMapped base length tables h o := by
  have indices : ∀ k, k < BITS_PER_LIMB * limbs → k < 2 ^ 32 := by
    unfold BITS_PER_LIMB
    omega
  cases o with
  | get =>
      intro page pma got
      obtain ⟨k, hk, found, -, -⟩ := shape.getPage few got
      rw [found, toUnsigned_toInt (indices k (by omega))]
      exact mapped _ (index_limb (by omega))
  | getContiguous n =>
      intro page pma idx got found i hi
      obtain ⟨r, inside, small, found', -, -⟩ := shape.getBlock few got
      obtain rfl : (r : Int) = idx := Except.ok.inj (found'.symm.trans found)
      have index : (toUnsigned (r : Int) + i) % 2 ^ 32 = r + i := by
        unfold toUnsigned
        omega
      rw [index]
      exact mapped _ (index_limb (by omega))
  | free page =>
      intro pma freed
      obtain ⟨k, hk, rfl⟩ := shape.pages page legal
      rw [h.pma.pageIdx_pageAt (by rw [shape.physicalPageBase]; exact word) (indices k hk)]
      exact mapped _ (index_limb hk)

/-- The address of the page of a bit. -/
theorem Shape.pageAt (shape : Shape limbs pageBase h) {k : Nat} (small : k < 2 ^ 31)
    (room : pageBase + PAGE_SIZE * k < 2 ^ 64) :
    h.pma.pageAt (toInt k) = pageBase + PAGE_SIZE * k := by
  rw [Bitmap.toInt_of_lt small, State.pageAt, shape.physicalPageBase]
  unfold PAGE_SIZE at *
  omega

theorem Shape.handsOutInside (few : limbs ≤ 2 ^ 24) (shape : Shape limbs pageBase h)
    {base length : Nat} (room : pageBase < 2 ^ 53)
    (inside : ∀ k, k + 33 ≤ BITS_PER_LIMB * limbs → InRegion base length (pageBase + PAGE_SIZE * k))
    (o : Op) : HandsOutInside base length h o := by
  have address : ∀ k, k < BITS_PER_LIMB * limbs →
      h.pma.pageAt (toInt k) = pageBase + PAGE_SIZE * k := by
    intro k hk
    apply shape.pageAt
    · unfold BITS_PER_LIMB at hk
      omega
    · unfold BITS_PER_LIMB at hk
      unfold PAGE_SIZE
      omega
  cases o with
  | get =>
      intro page pma got
      obtain ⟨k, hk, -, rfl, -⟩ := shape.getPage (by omega) got
      rw [address k (by omega)]
      exact inside k hk
  | getContiguous n =>
      intro page pma got p mem
      obtain ⟨r, bound, small, -, rfl, -⟩ := shape.getBlock (by omega) got
      rw [h.pma.block_pageAt small, List.mem_map] at mem
      obtain ⟨i, hi, rfl⟩ := mem
      rw [List.mem_range] at hi
      rw [address (r + i) (by omega)]
      exact inside (r + i) (by omega)
  | free page => trivial

end Shapes

/-! ## Taking all pages -/

/-- A limb of which `r` lower bits are set. -/
def lowBits (r : Nat) : BitVec 64 := BitVec.ofNat 64 (2 ^ r - 1)

theorem firstBit_lowBits {r : Nat} (hr : r < 32) : Bitmap.firstBit (lowBits r) false = some r := by
  have bits : ∀ r : Fin 32, Bitmap.firstBit (lowBits r) false = some r.val := by decide +kernel
  exact bits ⟨r, hr⟩

theorem firstBit_lowHalf : Bitmap.firstBit (lowBits 32) false = none := by decide +kernel

theorem lowBits_set {r : Nat} (hr : r < 32) : lowBits r ||| 1#64 <<< r = lowBits (r + 1) := by
  have bits : ∀ r : Fin 32, lowBits r ||| 1#64 <<< r.val = lowBits (r + 1) := by decide +kernel
  exact bits ⟨r, hr⟩

theorem lowBits_ne_empty {r : Nat} (hr : r ≤ 32) : lowBits r ≠ Bitmap.emptyLimb false := by
  have bits : ∀ r : Fin 33, lowBits r ≠ Bitmap.emptyLimb false := by decide +kernel
  exact bits ⟨r, by omega⟩

/-- Bit `m` of the lower halves of the limbs. -/
def lowBit (m : Nat) : Nat := BITS_PER_LIMB * (m / 32) + m % 32

theorem lowBit_div (m : Nat) : lowBit m / BITS_PER_LIMB = m / 32 := by
  unfold lowBit BITS_PER_LIMB
  omega

theorem lowBit_mod (m : Nat) : lowBit m % BITS_PER_LIMB = m % 32 := by
  unfold lowBit BITS_PER_LIMB
  omega

/-- Of the lower halves of the limbs, the first `m` bits are set. -/
def Filled (b : Bitmap) (m : Nat) : Prop :=
  ∀ i, i < b.numLimbs → b.limbs i = lowBits (min 32 (m - 32 * i))

theorem Filled.findFirst {b : Bitmap} {m : Nat} (filled : Filled b m) (free : m < 32 * b.numLimbs) :
    b.findFirst false = toInt (lowBit m) := by
  have loop : ∀ count i, i ≤ m / 32 → m / 32 < i + count → i + count ≤ b.numLimbs →
      b.findFirstFrom false (List.range' i count) = toInt (lowBit m) := by
    intro count
    induction count with
    | zero => omega
    | succ count ih =>
        intro i le lt inside
        have limb := filled i (by omega)
        rw [List.range'_succ, Bitmap.findFirstFrom, limb, if_neg (lowBits_ne_empty (by omega))]
        rcases Nat.eq_or_lt_of_le le with rfl | before
        · have here : min 32 (m - 32 * (m / 32)) = m % 32 := by omega
          rw [here, firstBit_lowBits (by omega)]
          rfl
        · have full : min 32 (m - 32 * i) = 32 := by omega
          rw [full, firstBit_lowHalf]
          exact ih (i + 1) (by omega) (by omega) (by omega)
  rw [Bitmap.findFirst, List.range_eq_range']
  exact loop b.numLimbs 0 (Nat.zero_le _) (by omega) (by omega)

theorem Filled.set {b : Bitmap} {m : Nat} (filled : Filled b m) :
    Filled (b.set (lowBit m)) (m + 1) := by
  intro i hi
  show Function.update b.limbs _ (b.limbs _ ||| Bitmap.bitMask _) i = _
  rw [Bitmap.bitMask, lowBit_div, lowBit_mod, Function.update_apply]
  split
  · next here =>
      subst here
      have before : min 32 (m - 32 * (m / 32)) = m % 32 := by omega
      have after : min 32 (m + 1 - 32 * (m / 32)) = m % 32 + 1 := by omega
      rw [filled _ hi, before, after]
      exact lowBits_set (by omega)
  · have same : min 32 (m + 1 - 32 * i) = min 32 (m - 32 * i) := by omega
    rw [same]
    exact filled i hi

section Gets

variable {limbs pageBase : Nat} {h : Held}

/-- The next page, if a bit of a lower half is left. -/
theorem Shape.getNext (shape : Shape limbs pageBase h) (few : limbs ≤ 2 ^ 24)
    (room : pageBase < 2 ^ 53) (positive : 0 < pageBase) {m : Nat} (hm : m < 32 * limbs)
    (filled : Filled h.pma.physicalPageMap m) :
    getPhysicalPage h.pma = .ok (pageBase + PAGE_SIZE * lowBit m,
      ⟨h.pma.physicalPageBase, h.pma.physicalPageMap.set (lowBit m)⟩) := by
  have index : lowBit m < 2 ^ 31 := by
    unfold lowBit BITS_PER_LIMB
    omega
  have found := filled.findFirst (by rw [shape.numLimbs]; exact hm)
  have some_ : toInt (lowBit m) ≠ -1 := by
    rw [Bitmap.toInt_of_lt index]
    omega
  have page : State.pageAt ⟨h.pma.physicalPageBase, h.pma.physicalPageMap.set (lowBit m)⟩
      (toInt (lowBit m)) = pageBase + PAGE_SIZE * lowBit m :=
    shape.pageAt index (by unfold PAGE_SIZE; omega)
  have notNull : (pageBase + PAGE_SIZE * lowBit m != 0) = true := by
    rw [bne_iff_ne]
    omega
  unfold getPhysicalPage
  dsimp only
  rw [found, if_neg some_, toUnsigned_toInt (by omega), page, notNull]
  rfl

theorem Shape.run_gets (shape : Shape limbs pageBase h) (few : limbs ≤ 2 ^ 24)
    (room : pageBase < 2 ^ 53) (positive : 0 < pageBase) {m c : Nat} (hm : c + m < 32 * limbs)
    (filled : Filled h.pma.physicalPageMap c) :
    ∃ h', machine.run h (List.replicate m .get) = .ok h' ∧ Shape limbs pageBase h' ∧
      Filled h'.pma.physicalPageMap (c + m) := by
  induction m generalizing h c with
  | zero => exact ⟨h, rfl, shape, filled⟩
  | succ m ih =>
      have step : machine.step h .get =
          .ok ⟨⟨h.pma.physicalPageBase, h.pma.physicalPageMap.set (lowBit c)⟩,
            (pageBase + PAGE_SIZE * lowBit c) :: h.outstanding⟩ := by
        show h.step .get = _
        rw [Held.step, shape.getNext few room positive (by omega) filled]
        rfl
      obtain ⟨h', rest, shape', filled'⟩ := ih (shape.step (by omega) step) (c := c + 1)
        (by omega) filled.set
      refine ⟨h', ?_, shape', ?_⟩
      · rw [List.replicate_succ, Machine.run, step]
        exact rest
      · rwa [Nat.add_assoc, Nat.add_comm 1] at filled'

theorem legal_gets (h : Held) (m : Nat) : machine.EachStep Legal h (List.replicate m .get) := by
  induction m generalizing h with
  | zero => trivial
  | succ m ih => exact ⟨trivial, fun h' _ => ih h'⟩

/-- Taking one page after the other, all pages whose bits are in a lower half are handed
out. -/
theorem Shape.inRegion_of_pagesInside {base length : Nat} {pma : State}
    (shape : Shape limbs pageBase ⟨pma, []⟩) (few : limbs ≤ 2 ^ 24) (room : pageBase < 2 ^ 53)
    (positive : 0 < pageBase) (filled : Filled pma.physicalPageMap 0)
    (inside : PagesInside base length pma) {m : Nat} (hm : m < 32 * limbs) :
    InRegion base length (pageBase + PAGE_SIZE * lowBit m) := by
  obtain ⟨h', ran, shape', filled'⟩ := shape.run_gets (m := m) few room positive (by omega) filled
  rw [Nat.zero_add] at filled'
  have each := inside (List.replicate (m + 1) .get) (legal_gets _ _)
  rw [List.replicate_succ'] at each
  have last : HandsOutInside base length h' .get := each.of_run _ [] ran
  exact last _ _ (shape'.getNext few room positive hm filled')

end Gets

/-! ## The region -/

section Regions

variable {y : Paging.Layout} {s s' : Paging.State} {level : Paging.Word → Option Nat}
  {base length : Nat} {memory : Nat → BitVec 64}

theorem toNat_alignTo (word : base < 2 ^ 64) :
    (BitVec.ofNat 64 (alignTo base PAGE_SIZE)).toNat = alignTo base PAGE_SIZE := by
  rw [BitVec.toNat_ofNat]
  exact Nat.mod_eq_of_lt (alignTo_page word).2.1

/-- The page addresses that come out of a translation have 52 bits. -/
theorem ByteMapped.page_lt (word : base < 2 ^ 64) {j : Nat}
    (mapped : ByteMapped base length s' (PAGE_SIZE * j)) :
    (alignTo base PAGE_SIZE + PAGE_SIZE * j) % 2 ^ 64 < 2 ^ 52 := by
  have aligned : (BitVec.ofNat 64 (alignTo base PAGE_SIZE)).toNat % PAGE_SIZE = 0 := by
    rw [toNat_alignTo word]
    exact (alignTo_page word).1
  have onPage := Paging.pageAt_aligned (Paging.add_aligned aligned (b := Paging.VMA_OFFSET) (by decide)) j
  have small := Paging.getPhysicalAddress_lt onPage mapped.2
  rwa [BitVec.toNat_ofNat] at small

/-- What `early_init` starts with. -/
theorem earlyInit_shape (memory : Nat → BitVec 64) (word : base < 2 ^ 64) (few : limbsNeeded length ≤ 2 ^ 24)
    (room : alignTo base PAGE_SIZE + PAGE_SIZE * pagesNeededForPageMap length < 2 ^ 64) :
    Shape (limbsNeeded length)
        (alignTo base PAGE_SIZE + PAGE_SIZE * pagesNeededForPageMap length)
        ⟨earlyInit base length memory, []⟩ ∧
      Filled (earlyInit base length memory).physicalPageMap 0 := by
  have limbs : limbsNeeded length % 2 ^ 32 = limbsNeeded length := Nat.mod_eq_of_lt (by omega)
  refine ⟨⟨limbs, ?_, ?_, fun page mem => absurd mem List.not_mem_nil⟩, fun i hi => ?_⟩
  · show limbsNeeded length % 2 ^ 32 * 8 % 2 ^ 32 = limbsNeeded length * 8
    rw [limbs]
    exact Nat.mod_eq_of_lt (by omega)
  · show sub64 (add64 (add64 (alignTo base PAGE_SIZE) KERNEL_VMA_OFFSET)
      (pagesNeededForPageMap length * PAGE_SIZE)) KERNEL_VMA_OFFSET = _
    have := (alignTo_page word).2.1
    rw [Nat.mul_comm]
    unfold sub64 add64 KERNEL_VMA_OFFSET
    omega
  · have clear : (earlyInit base length memory).physicalPageMap.limbs i = 0#64 := if_pos hi
    have none_ : min 32 (0 - 32 * i) = 0 := by omega
    rw [clear, none_]
    rfl

/-- A bitmap that is mapped, and all of whose pages are in the region, has room. -/
theorem roomy_of_mapped (wordBase : base < 2 ^ 64) (wordLength : length < 2 ^ 64)
    (positive : 0 < pagesNeededForPageMap length) (few : limbsNeeded length ≤ 2 ^ 24)
    (room : alignTo base PAGE_SIZE + PAGE_SIZE * pagesNeededForPageMap length < 2 ^ 64)
    (mapped : ∀ o, o < 8 + 8 * limbsNeeded length → ByteMapped base length s' o)
    (inside : PagesInside base length (earlyInit base length memory)) : Roomy base length := by
  obtain ⟨shape, empty⟩ := earlyInit_shape memory wordBase few room
  obtain ⟨aligned, -, above⟩ := alignTo_page wordBase
  obtain ⟨lower, upper⟩ := pagesNeeded_bounds wordLength
  have limbs : 0 < limbsNeeded length := by
    unfold PAGE_SIZE at lower upper
    omega
  have addressable : alignTo base PAGE_SIZE + PAGE_SIZE * pagesNeededForPageMap length ≤ 2 ^ 52 := by
    have last := (mapped (PAGE_SIZE * (pagesNeededForPageMap length - 1))
      (by unfold PAGE_SIZE at *; omega)).page_lt wordBase
    unfold PAGE_SIZE at *
    omega
  have first := shape.inRegion_of_pagesInside few (by omega) (by unfold PAGE_SIZE; omega) empty
    inside (m := 0) (by omega)
  have last := shape.inRegion_of_pagesInside few (by omega) (by unfold PAGE_SIZE; omega) empty
    inside (m := 32 * limbsNeeded length - 1) (by omega)
  have lastBit : lowBit (32 * limbsNeeded length - 1) = BITS_PER_LIMB * limbsNeeded length - 33 := by
    unfold lowBit BITS_PER_LIMB
    omega
  have firstBit : lowBit 0 = 0 := rfl
  rw [lastBit] at last
  rw [firstBit] at first
  refine ⟨?_, addressable, ?_, ?_⟩
  · have end_ := (mapped (8 + 8 * limbsNeeded length - 1) (by omega)).1
    unfold PAGE_SIZE at *
    omega
  · have := first.1
    unfold PAGE_SIZE at *
    omega
  · have := last.2.1
    unfold PAGE_SIZE BITS_PER_LIMB at *
    omega

/-- The condition for a bitmap that is mapped. -/
theorem bitmap_region_iff (wordBase : base < 2 ^ 64) (wordLength : length < 2 ^ 64)
    (wf : Paging.Wf y s' level) (positive : 0 < pagesNeededForPageMap length)
    (few : limbsNeeded length ≤ 2 ^ 24)
    (room : alignTo base PAGE_SIZE + PAGE_SIZE * pagesNeededForPageMap length < 2 ^ 64)
    (maps : Paging.Maps (BitVec.ofNat 64 (alignTo base PAGE_SIZE))
      (BitVec.ofNat 64 (alignTo base PAGE_SIZE) + Paging.VMA_OFFSET) Paging.DEFAULT_ATTRIBUTES
      (pagesNeededForPageMap length) s s') :
    BitmapMapped base length s' (earlyInit base length memory) ∧
        PagesInside base length (earlyInit base length memory) ↔
      Roomy base length := by
  obtain ⟨shape, -⟩ := earlyInit_shape memory wordBase few room
  obtain ⟨aligned, -, -⟩ := alignTo_page wordBase
  obtain ⟨lower, upper⟩ := pagesNeeded_bounds wordLength
  have header : (earlyInit base length memory).physicalPageMap.numLimbs = limbsNeeded length :=
    shape.numLimbs
  constructor
  · rintro ⟨⟨mapped, -⟩, inside⟩
    rw [header] at mapped
    exact roomy_of_mapped wordBase wordLength positive few room mapped inside
  · rintro ⟨notFull, addressable, notBelow, lastPage⟩
    have bytes : ∀ o, o < 8 + 8 * limbsNeeded length → ByteMapped base length s' o := by
      intro o ho
      have inPages : o < PAGE_SIZE * pagesNeededForPageMap length := by
        unfold PAGE_SIZE at *
        omega
      refine ⟨inPages, ?_⟩
      rw [wf.translates maps (by decide) (by rw [toNat_alignTo wordBase]; exact aligned)
        (by rw [toNat_alignTo wordBase]; exact addressable) inPages, BitVec.ofNat_add]
    have limbsMapped : ∀ i, i < limbsNeeded length → LimbMapped base length s' i :=
      fun i hi o lo hi' => bytes o (by omega)
    have pages : ∀ k, k + 33 ≤ BITS_PER_LIMB * limbsNeeded length →
        InRegion base length
          (alignTo base PAGE_SIZE + PAGE_SIZE * pagesNeededForPageMap length + PAGE_SIZE * k) := by
      intro k hk
      unfold InRegion PAGE_SIZE BITS_PER_LIMB at *
      omega
    refine ⟨⟨?_, fun ops legal => ?_⟩, fun ops legal => ?_⟩
    · rw [header]
      exact bytes
    · exact Machine.eachStep_of_inv (fun _ _ _ inv _ => inv.step (by omega))
        (fun _ _ inv legal => inv.writesMapped (by omega) room limbsMapped legal) shape legal
    · exact Machine.eachStep_of_inv (fun _ _ _ inv _ => inv.step (by omega))
        (fun _ o inv _ => inv.handsOutInside few (by omega) pages o) shape legal

/-- After `early_init`, whatever the first region of the memory map: the bitmap is in the
pages mapped for it, and all pages that are handed out are in the region and not the
bitmap's, exactly if there is room for the header and for the pages of all bits. -/
theorem early_init_region_iff {z : Paging.Sections} {kernelStackBase : Paging.Word}
    {content : Paging.Word → Paging.Word} {e : MemoryMap.Entry} {rest : List MemoryMap.Entry}
    {pma : State} (booted : Paging.boot y.toSymbols z kernelStackBase content = .ok s)
    (done : earlyInitMapped y.toSymbols memory s (e :: rest) = .ok (pma, s')) :
    BitmapMapped e.base.toNat e.length.toNat s' pma ∧
        PagesInside e.base.toNat e.length.toNat pma ↔
      Roomy e.base.toNat e.length.toNat := by
  have wordBase : e.base.toNat < 2 ^ 64 := e.base.toNat_lt
  have wordLength : e.length.toNat < 2 ^ 64 := e.length.toNat_lt
  obtain ⟨level, wf, none_, -⟩ := Paging.boot_spec booted
  obtain ⟨⟨r, s₁⟩, mapped, done⟩ := bind_eq_ok done
  obtain ⟨rfl, rfl⟩ := Prod.mk.inj (Except.ok.inj done)
  have few := limbsNeeded_le wordLength
  obtain ⟨lower, upper⟩ := pagesNeeded_bounds wordLength
  have small : pagesNeededForPageMap e.length.toNat < 2 ^ 51 := by
    unfold PAGE_SIZE at upper
    omega
  obtain ⟨positive, -, -, level', wf', maps⟩ := wf.identityMapPages small mapped
  rw [toNat_alignTo wordBase] at maps
  split at maps
  · next room =>
      have pool := (Paging.identityMapPages_pool mapped).trans none_
      have count := wf'.maps_count_le pool maps (by omega)
      refine bitmap_region_iff wordBase wordLength wf' positive ?_ room maps
      unfold PAGE_SIZE at lower
      omega
  · next wraps =>
      -- nothing is mapped, and the address is none that an entry can hold
      have high : 2 ^ 52 ≤ alignTo e.base.toNat PAGE_SIZE := by
        unfold PAGE_SIZE at *
        omega
      have word := (alignTo_page wordBase).2.1
      constructor
      · rintro ⟨⟨bytes, -⟩, -⟩
        have first : ByteMapped e.base.toNat e.length.toNat s₁ (PAGE_SIZE * 0) := bytes 0 (by omega)
        have := first.page_lt wordBase
        omega
      · rintro ⟨-, addressable, -⟩
        omega

/-! ## Two memory maps -/

/-- `early_init` completes for a region behind the kernel whose bitmap takes one page. -/
theorem earlyInitMapped_completes (z : Paging.Sections) (content : Paging.Word → Paging.Word)
    (memory : Nat → BitVec 64) (e : MemoryMap.Entry) (rest : List MemoryMap.Entry)
    (image : z.text + z.rodata + z.data + z.bss < 239)
    (aligned : alignTo e.base.toNat PAGE_SIZE = e.base.toNat)
    (behind : 0x200000 ≤ e.base.toNat) (inside : e.base.toNat + PAGE_SIZE < 2 ^ 30)
    (one : pagesNeededForPageMap e.length.toNat = 1) :
    ∃ s s' level, Paging.boot y.toSymbols z Paging.KERNEL_STACK content = .ok s ∧
      earlyInitMapped y.toSymbols memory s (e :: rest) =
        .ok (earlyInit e.base.toNat e.length.toNat memory, s') ∧ Paging.Wf y s' level ∧
      Paging.Maps (BitVec.ofNat 64 (alignTo e.base.toNat PAGE_SIZE))
        (BitVec.ofNat 64 (alignTo e.base.toNat PAGE_SIZE) + Paging.VMA_OFFSET)
        Paging.DEFAULT_ATTRIBUTES (pagesNeededForPageMap e.length.toNat) s s' := by
  have word : e.base.toNat < 2 ^ 64 := e.base.toNat_lt
  have onPage := (alignTo_page word).1
  rw [aligned] at onPage
  obtain ⟨s, level, booted, wf, left, -, rooted, -, entries⟩ :=
    Paging.boot_completes y z content image
  have absent : ∀ j, j < 1 →
      s.entryOf (Paging.kernelPage (e.base.toNat + PAGE_SIZE * j)) &&& Paging.PRESENT = 0#64 := by
    intro j hj
    obtain rfl : j = 0 := by omega
    rw [Nat.mul_zero, Nat.add_zero, entries _ (Paging.kernelPage_canonical (by omega) onPage)
      fun i hi => Paging.kernelPage_ne_imagePage (by omega) hi (Or.inr behind),
      Paging.startEntry_kernelPage (by omega) (Or.inr behind)]
    rfl
  have few : Paging.crossings (Paging.kernelPage e.base.toNat) 1 ≤ 1 := by
    rw [Paging.crossings_kernelPage (by omega)]
    omega
  obtain ⟨s', mapped, -⟩ := wf.identityMapPages_ok rooted Paging.DEFAULT_ATTRIBUTES Nat.one_pos onPage
    inside absent (by rw [left, Paging.MAX_STATIC_TABLES]; omega)
  obtain ⟨-, -, -, level', wf', maps⟩ := wf.identityMapPages (by decide) mapped
  have room : (BitVec.ofNat 64 e.base.toNat).toNat + PAGE_SIZE * 1 < 2 ^ 64 := by
    rw [BitVec.toNat_ofNat]
    omega
  rw [if_pos room] at maps
  rw [aligned, one]
  refine ⟨s, s', level', booted, ?_, wf', maps⟩
  rw [earlyInitMapped, aligned, one, mapped]
  rfl

def smallSections : Paging.Sections := ⟨64, 16, 8, 32, by decide⟩

/-- A region of 256 KiB at 3 MiB. -/
theorem early_init_region_small : ∃ s pma s',
    Paging.boot Paging.sampleLayout.toSymbols smallSections Paging.KERNEL_STACK (fun _ => 0#64) = .ok s ∧
      earlyInitMapped Paging.sampleLayout.toSymbols (fun _ => 0#64) s [⟨0x300000, 0x40000, 1⟩] =
        .ok (pma, s') ∧
      BitmapMapped 0x300000 0x40000 s' pma ∧ PagesInside 0x300000 0x40000 pma := by
  obtain ⟨s, s', -, booted, done, -, -⟩ := earlyInitMapped_completes (y := Paging.sampleLayout)
    smallSections (fun _ => 0#64) (fun _ => 0#64) ⟨0x300000, 0x40000, 1⟩ [] (by decide) (by decide)
    (by decide) (by decide) (by decide)
  have roomy : Roomy 0x300000 0x40000 := by
    unfold Roomy
    decide
  exact ⟨s, _, s', booted, done, (early_init_region_iff booted done).mpr roomy⟩

/-- With 128 MiB of memory the last page that is handed out is the one behind the region. -/
theorem early_init_region_behind : ∃ s pma s',
    Paging.boot Paging.sampleLayout.toSymbols smallSections Paging.KERNEL_STACK (fun _ => 0#64) = .ok s ∧
      earlyInitMapped Paging.sampleLayout.toSymbols (fun _ => 0#64) s [⟨0x300000, 0x7CE0000, 1⟩] =
        .ok (pma, s') ∧
      ¬ (BitmapMapped 0x300000 0x7CE0000 s' pma ∧ PagesInside 0x300000 0x7CE0000 pma) := by
  obtain ⟨s, s', level, booted, done, wf, maps⟩ := earlyInitMapped_completes (y := Paging.sampleLayout)
    smallSections (fun _ => 0#64) (fun _ => 0#64) ⟨0x300000, 0x7CE0000, 1⟩ [] (by decide) (by decide)
    (by decide) (by decide) (by decide)
  have notRoomy : ¬ Roomy 0x300000 0x7CE0000 := by
    unfold Roomy
    decide
  refine ⟨s, _, s', booted, done, fun both => notRoomy ?_⟩
  exact (bitmap_region_iff (by decide) (by decide) wf (by decide) (by decide) (by decide) maps).mp both

end Regions

end Tyleros.Pma
