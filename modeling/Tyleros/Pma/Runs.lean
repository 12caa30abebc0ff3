import Tyleros.Pma.Search
import Tyleros.Lib.Machine

/-!
# The physical memory allocator

`kernel/pma.cpp`: the pages behind the bitmap are handed out one by one
(`get_physical_page`) or in blocks (`get_contiguous_physical_pages`). `Held` is the
allocator with the pages that are outstanding.

A block starts where `find_first_n` says, which is 63 pages too far when the first
run of free pages starts with a whole free limb; its last pages may then belong to
somebody else. `owned_once_run` shows that nothing else goes wrong, as long as the
bit indices fit 32 bits.
-/

namespace Tyleros.Pma

open Tyleros.Lib

/-- The variables of `pma.cpp`. -/
structure State where
  physicalPageBase : Nat
  physicalPageMap : Bitmap

/-- `early_init`, with the base and the length of the largest usable region and
what the pages of the bitmap held before. Mapping these pages is left out. -/
def earlyInit (base length : Nat) (memory : Nat → BitVec 64) : State :=
  let maxPagesTotal := length / PAGE_SIZE
  let physicalPageMap := add64 (alignTo base PAGE_SIZE) KERNEL_VMA_OFFSET
  let pagesNeededForPageMap := divCeil (Bitmap.sizeRequired maxPagesTotal) PAGE_SIZE
  { physicalPageBase := sub64 (add64 physicalPageMap (pagesNeededForPageMap * PAGE_SIZE))
      KERNEL_VMA_OFFSET
    physicalPageMap := Bitmap.make memory maxPagesTotal }

/-- `idx * PAGE_SIZE + physical_page_base` for an `int` index. -/
def State.pageAt (s : State) (idx : Int) : Nat :=
  ((idx * PAGE_SIZE + s.physicalPageBase) % 2 ^ 64).toNat

/-- `get_physical_page()`. -/
def getPhysicalPage (s : State) : Except Stop (Nat × State) :=
  let newPageIdx := s.physicalPageMap.findFirst false
  if newPageIdx = -1 then .error (.panic "Allocation failed, out of physical pages!")
  else do
    let s := { s with physicalPageMap := s.physicalPageMap.set (toUnsigned newPageIdx) }
    let newPage := s.pageAt newPageIdx
    kassert (newPage != 0) "Top of page stack is null!"
    return (newPage, s)

/-- Set the `n` bits from `idx` on. -/
def setBits (b : Bitmap) (idx n : Nat) : Bitmap :=
  (List.range n).foldl (fun b i => b.set ((idx + i) % 2 ^ 32)) b

/-- `get_contiguous_physical_pages(n)`. The loop that sets the bits has an `unsigned`
counter, which never reaches a larger `n`. -/
def getContiguousPhysicalPages (n : Nat) (s : State) : Except Stop (Nat × State) := do
  let newPagesIdx ← s.physicalPageMap.findFirstN false n
  if newPagesIdx = -1 then
    .error (.panic "Allocation failed, can't find %zx contiguous physical pages!")
  else if 2 ^ 32 ≤ n then .error .hang
  else
    let s := { s with physicalPageMap := setBits s.physicalPageMap (toUnsigned newPagesIdx) n }
    let newPages := s.pageAt newPagesIdx
    kassert (newPages != 0) "Top of page stack is null!"
    return (newPages, s)

/-- `free_physical_page(page)`. -/
def freePhysicalPage (page : Nat) (s : State) : Except Stop State := do
  kassert (page != 0) "Page being freed is null!"
  let pageIdx := sub64 page s.physicalPageBase / PAGE_SIZE
  kassert (s.physicalPageMap.test (pageIdx % 2 ^ 32)) "page being freed was never allocated!"
  return { s with physicalPageMap := s.physicalPageMap.reset (pageIdx % 2 ^ 32) }

/-! ## The allocator with its outstanding pages -/

structure Held where
  pma : State
  outstanding : List Nat

inductive Op where
  | get
  | getContiguous (n : Nat)
  | free (page : Nat)
  deriving DecidableEq, Repr

/-- The addresses of the `n` pages from `page` on. -/
def block (page n : Nat) : List Nat := (List.range n).map fun i => (page + i * PAGE_SIZE) % 2 ^ 64

def Held.step (h : Held) : Op → Except Stop Held
  | .get => do
    let (page, pma) ← getPhysicalPage h.pma
    return ⟨pma, page :: h.outstanding⟩
  | .getContiguous n => do
    let (page, pma) ← getContiguousPhysicalPages n h.pma
    return ⟨pma, block page n ++ h.outstanding⟩
  | .free page => do
    let pma ← freePhysicalPage page h.pma
    return ⟨pma, h.outstanding.filter (· ≠ page)⟩

def machine : Machine Held Op Stop := ⟨Held.step⟩

/-- Only outstanding pages are freed. -/
def Legal (h : Held) : Op → Prop
  | .free page => page ∈ h.outstanding
  | _ => True

/-- No page is handed out that is outstanding. -/
def HandsOutFree (h : Held) : Op → Prop
  | .get => ∀ page pma, getPhysicalPage h.pma = .ok (page, pma) → page ∉ h.outstanding
  | .getContiguous n => ∀ page pma, getContiguousPhysicalPages n h.pma = .ok (page, pma) →
      ∀ p ∈ block page n, p ∉ h.outstanding
  | .free _ => True

/-- The set bits of the bitmap are exactly the outstanding pages. -/
structure BitsMatch (h : Held) : Prop where
  bits : ∀ k, k < BITS_PER_LIMB * h.pma.physicalPageMap.numLimbs →
    (h.pma.physicalPageMap.test k = true ↔ h.pma.pageAt (toInt k) ∈ h.outstanding)
  pages : ∀ page ∈ h.outstanding, ∃ k,
    k < BITS_PER_LIMB * h.pma.physicalPageMap.numLimbs ∧ page = h.pma.pageAt (toInt k)

/-- When the first run of `n` free pages starts with a whole free limb, the 63
pages behind the run are free as well. -/
def NoSpill (h : Held) : Op → Prop
  | .getContiguous n => ∀ s, h.pma.physicalPageMap.FirstRun false n s →
      s % BITS_PER_LIMB = 0 → h.pma.physicalPageMap.limbs (s / BITS_PER_LIMB) = 0#64 →
      ∀ k, s + n ≤ k → k < s + n + (BITS_PER_LIMB - 1) → h.pma.physicalPageMap.test k = false
  | _ => True

/-- The bitmap is small enough for its indices, and matches the outstanding
pages. -/
structure HeldInv (h : Held) : Prop where
  small : h.pma.physicalPageMap.numLimbs ≤ 2 ^ 26
  size : h.pma.physicalPageMap.totalSize = h.pma.physicalPageMap.numLimbs * 8
  base : h.pma.physicalPageBase < 2 ^ 64
  bitsMatch : BitsMatch h

theorem earlyInit_inv {base length : Nat} {memory : Nat → BitVec 64}
    (small : length / PAGE_SIZE ≤ 2 ^ 32) : HeldInv ⟨earlyInit base length memory, []⟩ := by
  have limbs : divCeil (length / PAGE_SIZE) BITS_PER_LIMB ≤ 2 ^ 26 := by
    unfold divCeil BITS_PER_LIMB
    split <;> omega
  have numLimbs : (earlyInit base length memory).physicalPageMap.numLimbs =
      divCeil (length / PAGE_SIZE) BITS_PER_LIMB := Nat.mod_eq_of_lt (by omega)
  refine ⟨by rw [numLimbs]; exact limbs, ?_, sub64_lt _ _, ⟨fun k hk => ?_, ?_⟩⟩
  · show (earlyInit base length memory).physicalPageMap.numLimbs * 8 % 2 ^ 32 = _
    rw [numLimbs]
    exact Nat.mod_eq_of_lt (by omega)
  · have clear : (earlyInit base length memory).physicalPageMap.limbs (k / BITS_PER_LIMB) = 0#64 := by
      refine if_pos ?_
      unfold BITS_PER_LIMB at *
      exact Nat.div_lt_of_lt_mul hk
    simp only [Bitmap.test_eq, clear, BitVec.getLsbD_zero, List.not_mem_nil]
    exact iff_of_false Bool.false_ne_true id
  · exact fun page mem => absurd mem List.not_mem_nil

/-! ## Pages and indices -/

theorem toInt_cases {k : Nat} (h : k < 2 ^ 32) :
    (k < 2 ^ 31 ∧ toInt k = k) ∨ (2 ^ 31 ≤ k ∧ toInt k = (k : Int) - 2 ^ 32) := by
  rcases Nat.lt_or_ge k (2 ^ 31) with low | high
  · exact Or.inl ⟨low, Bitmap.toInt_of_lt low⟩
  · refine Or.inr ⟨high, ?_⟩
    unfold toInt
    rw [BitVec.toInt_eq_toNat_cond, BitVec.toNat_ofNat, Nat.mod_eq_of_lt h, if_neg (by omega)]
    rfl

theorem toUnsigned_toInt {k : Nat} (h : k < 2 ^ 32) : toUnsigned (toInt k) = k := by
  unfold toUnsigned
  rcases toInt_cases h with ⟨-, eq⟩ | ⟨-, eq⟩ <;> rw [eq] <;> omega

theorem State.pageAt_inj (s : State) {j k : Nat} (hj : j < 2 ^ 32) (hk : k < 2 ^ 32)
    (eq : s.pageAt (toInt j) = s.pageAt (toInt k)) : j = k := by
  unfold State.pageAt PAGE_SIZE at eq
  rcases toInt_cases hj with ⟨-, eqJ⟩ | ⟨-, eqJ⟩ <;> rcases toInt_cases hk with ⟨-, eqK⟩ | ⟨-, eqK⟩ <;>
    rw [eqJ, eqK] at eq <;> omega

/-- The index `free_physical_page` computes. -/
theorem State.pageIdx_pageAt (s : State) (base : s.physicalPageBase < 2 ^ 64) {k : Nat}
    (hk : k < 2 ^ 32) :
    sub64 (s.pageAt (toInt k)) s.physicalPageBase / PAGE_SIZE % 2 ^ 32 = k := by
  unfold State.pageAt sub64 PAGE_SIZE
  rcases toInt_cases hk with ⟨-, eq⟩ | ⟨-, eq⟩ <;> rw [eq] <;> omega

/-- A block of pages that starts at a small index. -/
theorem State.block_pageAt (s : State) {r n : Nat} (small : r + n < 2 ^ 31) :
    block (s.pageAt r) n = (List.range n).map fun i => s.pageAt (toInt (r + i)) := by
  unfold block
  apply List.map_congr_left
  intro i mem
  rw [List.mem_range] at mem
  rw [Bitmap.toInt_of_lt (by omega)]
  unfold State.pageAt PAGE_SIZE
  omega

theorem test_setBits (b : Bitmap) {r n : Nat} (small : r + n ≤ 2 ^ 32) (k : Nat) :
    (setBits b r n).test k = (decide (r ≤ k ∧ k < r + n) || b.test k) := by
  induction n with
  | zero =>
      have outside : ¬ (r ≤ k ∧ k < r + 0) := by omega
      rw [decide_eq_false outside]
      rfl
  | succ n ih =>
      have here : (r + n) % 2 ^ 32 = r + n := Nat.mod_eq_of_lt (by omega)
      have step : setBits b r (n + 1) = (setBits b r n).set (r + n) := by
        rw [setBits, List.range_succ, List.foldl_append, List.foldl_cons, List.foldl_nil, here]
        rfl
      have split_ : (r ≤ k ∧ k < r + (n + 1)) ↔ k = r + n ∨ (r ≤ k ∧ k < r + n) := by omega
      rw [step, Bitmap.test_set, ih (by omega), ← Bool.or_assoc, ← Bool.decide_or,
        decide_eq_decide.mpr split_.symm]

theorem setBits_header (b : Bitmap) (r n : Nat) :
    (setBits b r n).numLimbs = b.numLimbs ∧ (setBits b r n).totalSize = b.totalSize := by
  unfold setBits
  generalize List.range n = l
  induction l generalizing b with
  | nil => exact ⟨rfl, rfl⟩
  | cons i l ih => exact ih (b.set ((r + i) % 2 ^ 32))

/-! ## Steps -/

section Steps

variable {h h' : Held}

theorem HeldInv.index_lt (inv : HeldInv h) {k : Nat}
    (hk : k < BITS_PER_LIMB * h.pma.physicalPageMap.numLimbs) : k < 2 ^ 32 := by
  have := inv.small
  unfold BITS_PER_LIMB at hk
  omega

/-- `get_physical_page` hands out the page of a clear bit, in the lower half of its limb,
and sets the bit. -/
theorem getPhysicalPage_spec {s pma : State} {page : Nat} (small : s.physicalPageMap.numLimbs ≤ 2 ^ 26)
    (got : getPhysicalPage s = .ok (page, pma)) :
    ∃ k, k < BITS_PER_LIMB * s.physicalPageMap.numLimbs ∧ k % BITS_PER_LIMB < 32 ∧
      s.physicalPageMap.test k = false ∧ s.physicalPageMap.findFirst false = toInt k ∧
      page = s.pageAt (toInt k) ∧
      pma = { s with physicalPageMap := s.physicalPageMap.set k } := by
  unfold getPhysicalPage at got
  dsimp only at got
  split at got
  · cases got
  · next found =>
      obtain ⟨_, -, got⟩ := bind_eq_ok got
      cases got
      rcases s.physicalPageMap.findFirst_spec with none_ | ⟨k, hk, low, eq, clear⟩
      · exact absurd none_ found
      · have index : k < 2 ^ 32 := by
          unfold BITS_PER_LIMB at hk
          omega
        refine ⟨k, hk, low, clear, eq, by rw [eq]; rfl, ?_⟩
        rw [eq, toUnsigned_toInt index]

/-- `get_contiguous_physical_pages` hands out the pages from where `find_first_n` says,
and sets their bits. -/
theorem getContiguousPhysicalPages_spec {s pma : State} {n page : Nat}
    (small : s.physicalPageMap.numLimbs ≤ 2 ^ 26)
    (size : s.physicalPageMap.totalSize = s.physicalPageMap.numLimbs * 8)
    (got : getContiguousPhysicalPages n s = .ok (page, pma)) :
    ∃ q, 0 < n ∧ s.physicalPageMap.FirstRun false n q ∧ q + n ≤ s.physicalPageMap.numLimbs * 8 ∧
      (s.physicalPageMap.startOf false q = q ∨
        q + BITS_PER_LIMB ≤ s.physicalPageMap.numLimbs * 8) ∧
      s.physicalPageMap.findFirstN false n = .ok (s.physicalPageMap.startOf false q : Int) ∧
      page = s.pageAt (s.physicalPageMap.startOf false q) ∧
      pma = { s with
        physicalPageMap := setBits s.physicalPageMap (s.physicalPageMap.startOf false q) n } := by
  unfold getContiguousPhysicalPages at got
  obtain ⟨newPagesIdx, search, got⟩ := bind_eq_ok got
  split at got
  · cases got
  · next found =>
      split at got
      · cases got
      · next word =>
          obtain ⟨_, -, got⟩ := bind_eq_ok got
          cases got
          have pos : 0 < n := by
            rcases Nat.eq_zero_or_pos n with rfl | pos
            · rw [Bitmap.findFirstN_zero _ _ rfl] at search
              cases search
              exact absurd rfl found
            · exact pos
          obtain ⟨startIdx, result, outcome⟩ :=
            s.physicalPageMap.findFirstN_spec (v := false) pos (Nat.not_le.mp word) (by omega)
          rw [result] at search
          cases search
          obtain ⟨q, first, rfl, inside, limb⟩ := outcome.resolve_left found
          rw [size] at inside limb
          refine ⟨q, pos, first, inside, limb, result, rfl, ?_⟩
          have bound : s.physicalPageMap.startOf false q ≤ q + (BITS_PER_LIMB - 1) := by
            unfold Bitmap.startOf
            split <;> omega
          have index : toUnsigned (s.physicalPageMap.startOf false q : Int) =
              s.physicalPageMap.startOf false q := by
            unfold toUnsigned BITS_PER_LIMB at *
            omega
          rw [index]

/-- `get_contiguous_physical_pages` hands out clear bits, if nothing spills over. -/
theorem HeldInv.getBlock (inv : HeldInv h) {n page : Nat} {pma : State}
    (noSpill : NoSpill h (.getContiguous n))
    (got : getContiguousPhysicalPages n h.pma = .ok (page, pma)) :
    ∃ r, r + n ≤ BITS_PER_LIMB * h.pma.physicalPageMap.numLimbs ∧ r + n < 2 ^ 31 ∧
      (∀ k, r ≤ k → k < r + n → h.pma.physicalPageMap.test k = false) ∧
      page = h.pma.pageAt r ∧
      pma = { h.pma with physicalPageMap := setBits h.pma.physicalPageMap r n } := by
  have small := inv.small
  obtain ⟨s, -, first, inside, limb, -, rfl, rfl⟩ :=
    getContiguousPhysicalPages_spec inv.small inv.size got
  have reported : h.pma.physicalPageMap.startOf false s = s ∨
      (h.pma.physicalPageMap.startOf false s = s + (BITS_PER_LIMB - 1) ∧
        s % BITS_PER_LIMB = 0 ∧ h.pma.physicalPageMap.limbs (s / BITS_PER_LIMB) = 0#64) := by
    unfold Bitmap.startOf
    split
    · next whole => exact Or.inr ⟨rfl, whole.1, by rw [whole.2]; decide⟩
    · exact Or.inl rfl
  generalize h.pma.physicalPageMap.startOf false s = r at *
  have bound : r + n ≤ BITS_PER_LIMB * h.pma.physicalPageMap.numLimbs ∧ r + n < 2 ^ 31 := by
    unfold BITS_PER_LIMB at *
    omega
  refine ⟨r, bound.1, bound.2, fun k hr hk => ?_, rfl, rfl⟩
  rcases reported with same | ⟨whole, start, clear⟩
  · exact first.bits k (by omega) (by omega)
  · rcases Nat.lt_or_ge k (s + n) with inRun | behind
    · exact first.bits k (by omega) inRun
    · exact noSpill s first start clear k behind (by omega)

theorem HeldInv.get (inv : HeldInv h) (hs : h.step .get = .ok h') : HeldInv h' := by
  obtain ⟨⟨page, pma⟩, got, hs⟩ := bind_eq_ok hs
  cases hs
  obtain ⟨k, hk, -, -, -, rfl, rfl⟩ := getPhysicalPage_spec inv.small got
  refine ⟨inv.small, inv.size, inv.base, fun j hj => ?_, fun p mem => ?_⟩
  · have pages : h.pma.pageAt (toInt j) = h.pma.pageAt (toInt k) ↔ j = k :=
      ⟨h.pma.pageAt_inj (inv.index_lt hj) (inv.index_lt hk), fun eq => by rw [eq]⟩
    show ((h.pma.physicalPageMap.set k).test j = true ↔
      h.pma.pageAt (toInt j) ∈ h.pma.pageAt (toInt k) :: h.outstanding)
    rw [Bitmap.test_set, Bool.or_eq_true, decide_eq_true_iff, inv.bitsMatch.bits j hj,
      List.mem_cons, pages]
  · rcases List.mem_cons.mp mem with rfl | old
    · exact ⟨k, hk, rfl⟩
    · exact inv.bitsMatch.pages p old

theorem HeldInv.getContiguous (inv : HeldInv h) {n : Nat} (noSpill : NoSpill h (.getContiguous n))
    (hs : h.step (.getContiguous n) = .ok h') : HeldInv h' := by
  obtain ⟨⟨page, pma⟩, got, hs⟩ := bind_eq_ok hs
  cases hs
  obtain ⟨r, inside, small, -, rfl, rfl⟩ := inv.getBlock noSpill got
  obtain ⟨sameLimbs, sameSize⟩ := setBits_header h.pma.physicalPageMap r n
  have members : ∀ p, p ∈ block (h.pma.pageAt r) n ++ h.outstanding ↔
      (∃ i, i < n ∧ p = h.pma.pageAt (toInt (r + i))) ∨ p ∈ h.outstanding := by
    intro p
    rw [List.mem_append, h.pma.block_pageAt small, List.mem_map]
    simp only [List.mem_range]
    refine or_congr_left (exists_congr fun i => and_congr_right fun _ => ?_)
    exact eq_comm
  refine ⟨sameLimbs ▸ inv.small, ?_, inv.base, fun j hj => ?_, fun p mem => ?_⟩
  · show (setBits h.pma.physicalPageMap r n).totalSize = _
    rw [sameLimbs, sameSize]
    exact inv.size
  · have hj : j < BITS_PER_LIMB * h.pma.physicalPageMap.numLimbs := by
      rw [← sameLimbs]
      exact hj
    have inBlock : (∃ i, i < n ∧ h.pma.pageAt (toInt j) = h.pma.pageAt (toInt (r + i))) ↔
        r ≤ j ∧ j < r + n := by
      constructor
      · rintro ⟨i, hi, eq⟩
        have := h.pma.pageAt_inj (inv.index_lt hj) (by omega) eq
        omega
      · rintro ⟨lower, upper⟩
        exact ⟨j - r, by omega, by rw [show r + (j - r) = j by omega]⟩
    show ((setBits h.pma.physicalPageMap r n).test j = true ↔
      h.pma.pageAt (toInt j) ∈ block (h.pma.pageAt r) n ++ h.outstanding)
    rw [test_setBits _ (by omega), Bool.or_eq_true, decide_eq_true_iff, members, inBlock,
      inv.bitsMatch.bits j hj]
  · show ∃ k, k < BITS_PER_LIMB * (setBits h.pma.physicalPageMap r n).numLimbs ∧ _
    rw [sameLimbs]
    rcases (members p).mp mem with ⟨i, hi, rfl⟩ | old
    · exact ⟨r + i, by omega, rfl⟩
    · exact inv.bitsMatch.pages p old

theorem HeldInv.free (inv : HeldInv h) {page : Nat} (outstanding : page ∈ h.outstanding)
    (hs : h.step (.free page) = .ok h') : HeldInv h' := by
  obtain ⟨pma, freed, hs⟩ := bind_eq_ok hs
  cases hs
  obtain ⟨_, -, freed⟩ := bind_eq_ok freed
  obtain ⟨_, -, freed⟩ := bind_eq_ok freed
  cases freed
  obtain ⟨k, hk, rfl⟩ := inv.bitsMatch.pages page outstanding
  have index := h.pma.pageIdx_pageAt inv.base (inv.index_lt hk)
  refine ⟨inv.small, inv.size, inv.base, fun j hj => ?_, fun p mem => ?_⟩
  · have pages : h.pma.pageAt (toInt j) = h.pma.pageAt (toInt k) ↔ j = k :=
      ⟨h.pma.pageAt_inj (inv.index_lt hj) (inv.index_lt hk), fun eq => by rw [eq]⟩
    show ((h.pma.physicalPageMap.reset _).test j = true ↔
      h.pma.pageAt (toInt j) ∈ h.outstanding.filter (· ≠ h.pma.pageAt (toInt k)))
    rw [index, Bitmap.test_reset, Bool.and_eq_true, Bool.not_eq_true', decide_eq_false_iff_not,
      inv.bitsMatch.bits j hj, List.mem_filter, decide_eq_true_iff, ne_eq, pages, and_comm]
  · exact inv.bitsMatch.pages p (List.mem_of_mem_filter mem)

theorem HeldInv.step {o : Op} (inv : HeldInv h) (ok : Legal h o ∧ NoSpill h o)
    (hs : machine.step h o = .ok h') : HeldInv h' := by
  obtain ⟨legal, noSpill⟩ := ok
  cases o with
  | get => exact inv.get hs
  | getContiguous n => exact inv.getContiguous noSpill hs
  | free page => exact inv.free legal hs

theorem HeldInv.handsOutFree {o : Op} (inv : HeldInv h) (noSpill : NoSpill h o) :
    HandsOutFree h o := by
  cases o with
  | get =>
      intro page pma got taken
      obtain ⟨k, hk, -, clear, -, rfl, -⟩ := getPhysicalPage_spec inv.small got
      rw [← inv.bitsMatch.bits k hk, clear] at taken
      cases taken
  | getContiguous n =>
      intro page pma got p mem taken
      obtain ⟨r, inside, small, clear, rfl, -⟩ := inv.getBlock noSpill got
      rw [h.pma.block_pageAt small, List.mem_map] at mem
      obtain ⟨i, hi, rfl⟩ := mem
      rw [List.mem_range] at hi
      rw [← inv.bitsMatch.bits (r + i) (by omega), clear (r + i) (by omega) (by omega)] at taken
      cases taken
  | free page => trivial

end Steps

/-- In a region of at most `2 ^ 32` pages, in every run in which no block spills
over: no outstanding page is handed out, and the set bits are exactly the
outstanding pages. -/
theorem owned_once_run {base length : Nat} {memory : Nat → BitVec 64} {ops : List Op}
    (small : length / PAGE_SIZE ≤ 2 ^ 32)
    (legal : machine.EachStep Legal ⟨earlyInit base length memory, []⟩ ops)
    (noSpill : machine.EachStep NoSpill ⟨earlyInit base length memory, []⟩ ops) :
    machine.EachStep HandsOutFree ⟨earlyInit base length memory, []⟩ ops ∧
      machine.Always BitsMatch ⟨earlyInit base length memory, []⟩ ops := by
  have start : HeldInv ⟨earlyInit base length memory, []⟩ := earlyInit_inv small
  have guard := Machine.eachStep_and legal noSpill
  constructor
  · exact Machine.eachStep_of_inv (fun _ _ _ inv => HeldInv.step inv)
      (fun _ _ inv ok => inv.handsOutFree ok.2) start guard
  · exact Machine.always_of_inv (fun _ _ _ inv => HeldInv.step inv)
      (fun _ inv => inv.bitsMatch) start guard

theorem owned_once_run_block :
    machine.EachStep HandsOutFree ⟨earlyInit 0x200000 0x240000 (fun _ => 0#64), []⟩
      [.getContiguous 2, .get] := by
  have clear : ∀ k, (earlyInit 0x200000 0x240000 fun _ => 0#64).physicalPageMap.test k = false := by
    intro k
    rw [Bitmap.test_eq]
    show BitVec.getLsbD (if _ then 0#64 else 0#64) _ = false
    rw [ite_self, BitVec.getLsbD_zero]
  refine (owned_once_run (by decide) ?_ ?_).1
  · exact ⟨trivial, fun _ _ => ⟨trivial, fun _ _ => trivial⟩⟩
  · exact ⟨fun _ _ _ _ k _ _ => clear k, fun _ _ => ⟨trivial, fun _ _ => trivial⟩⟩

instance (h : Held) : (o : Op) → Decidable (Legal h o)
  | .get => isTrue trivial
  | .getContiguous _ => isTrue trivial
  | .free page => inferInstanceAs (Decidable (page ∈ h.outstanding))

/-- A block of two pages comes out as pages 63 and 64. When page 63 is given back,
the next block of two pages is again pages 63 and 64. -/
theorem block_handed_out_twice :
    machine.EachStep Legal ⟨earlyInit 0x200000 0x240000 (fun _ => 0#64), []⟩
        [.getContiguous 2, .free 0x240000, .getContiguous 2] ∧
      ¬ machine.EachStep HandsOutFree ⟨earlyInit 0x200000 0x240000 (fun _ => 0#64), []⟩
        [.getContiguous 2, .free 0x240000, .getContiguous 2] := by
  have evaluated : completesWith (machine.run ⟨earlyInit 0x200000 0x240000 (fun _ => 0#64), []⟩
      [.getContiguous 2, .free 0x240000]) (fun h =>
        completesWith (getContiguousPhysicalPages 2 h.pma) fun r =>
          decide (0x241000 ∈ block r.1 2 ∧ 0x241000 ∈ h.outstanding)) = true := by
    decide +kernel
  refine ⟨by decide +kernel, fun free => ?_⟩
  obtain ⟨h, hrun, rest⟩ := exists_of_completesWith evaluated
  obtain ⟨⟨page, pma⟩, got, both⟩ := exists_of_completesWith rest
  obtain ⟨handedOut, taken⟩ := of_decide_eq_true both
  have last : HandsOutFree h (.getContiguous 2) :=
    Machine.EachStep.of_run [.getContiguous 2, .free 0x240000] [] free hrun
  exact last page pma got _ handedOut taken

end Tyleros.Pma
