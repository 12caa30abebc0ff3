import Tyleros.Pma.Region

/-!
# The first pages

`kmain` takes two single pages, for the free list of the virtual allocator and for the
heap, and then a block for page tables. They come one behind the other from the start of
the region, right behind the bitmap (`Shape.gotNext`, `Shape.gotBlock`).
-/

namespace Tyleros.Pma

section Startup

variable {limbs pageBase : Nat} {h : Held}

/-- The next page, as long as a bit of a lower half is left. -/
theorem Shape.gotNext (shape : Shape limbs pageBase h) (few : limbs ≤ 2 ^ 24) {m : Nat}
    (hm : m < 32 * limbs) (filled : Filled h.pma.physicalPageMap m) {page : Nat} {pma : State}
    (got : getPhysicalPage h.pma = .ok (page, pma)) :
    page = (pageBase + PAGE_SIZE * lowBit m) % 2 ^ 64 ∧ Filled pma.physicalPageMap (m + 1) ∧
      Shape limbs pageBase ⟨pma, page :: h.outstanding⟩ := by
  have step : machine.step h .get = .ok ⟨pma, page :: h.outstanding⟩ := by
    show h.step .get = _
    rw [Held.step, got]
    rfl
  have shape' := shape.step (by omega) step
  obtain ⟨k, hk, found, rfl, rfl⟩ := shape.getPage (by omega) got
  rw [filled.findFirst (by rw [shape.numLimbs]; exact hm)] at found
  have bit : lowBit m < 2 ^ 31 := by
    unfold lowBit BITS_PER_LIMB
    omega
  have small : k < 2 ^ 31 := by
    unfold BITS_PER_LIMB at hk
    omega
  rw [Bitmap.toInt_of_lt bit, Bitmap.toInt_of_lt small] at found
  obtain rfl : k = lowBit m := by omega
  refine ⟨?_, filled.set, shape'⟩
  rw [Bitmap.toInt_of_lt small, State.pageAt, shape.physicalPageBase]
  unfold PAGE_SIZE
  omega

/-- The first two bits are set, and no others. -/
theorem Filled.test_two {b : Bitmap} (filled : Filled b 2) {k : Nat} (hk : k < BITS_PER_LIMB * b.numLimbs) :
    b.test k = decide (k < 2) := by
  have limb := filled (k / BITS_PER_LIMB) (Nat.div_lt_of_lt_mul hk)
  unfold Bitmap.test
  rw [limb]
  rcases Nat.lt_or_ge k BITS_PER_LIMB with first | later
  · have bits : ∀ k, k < BITS_PER_LIMB → (lowBits 2 &&& Bitmap.bitMask k != 0#64) = decide (k < 2) := by
      decide +kernel
    rw [Nat.div_eq_of_lt first]
    exact bits k first
  · have none_ : min 32 (2 - 32 * (k / BITS_PER_LIMB)) = 0 := by
      unfold BITS_PER_LIMB at *
      omega
    have empty : lowBits 0 = 0#64 := rfl
    rw [none_, empty, BitVec.zero_and, decide_eq_false (by unfold BITS_PER_LIMB at later; omega)]
    rfl

/-- A block of pages comes right behind the first two. -/
theorem Shape.gotBlock (shape : Shape limbs pageBase h) (few : limbs ≤ 2 ^ 24)
    (filled : Filled h.pma.physicalPageMap 2) {n page : Nat} {pma : State} (large : 64 ≤ n)
    (got : getContiguousPhysicalPages n h.pma = .ok (page, pma)) :
    page = (pageBase + PAGE_SIZE * 2) % 2 ^ 64 ∧ page ≠ 0 := by
  have notNull : page ≠ 0 := by
    unfold getContiguousPhysicalPages at got
    obtain ⟨idx, -, got⟩ := bind_eq_ok got
    split at got
    · cases got
    · split at got
      · cases got
      · obtain ⟨_, checked, got⟩ := bind_eq_ok got
        cases got
        exact bne_iff_ne.mp (kassert_eq_ok checked)
  refine ⟨?_, notNull⟩
  obtain ⟨q, -, run, inside, -, -, rfl, -⟩ := getContiguousPhysicalPages_spec
    (by rw [shape.numLimbs]; omega) (by rw [shape.totalSize, shape.numLimbs]) got
  have bits : ∀ k, k < 2 + n → h.pma.physicalPageMap.test k = decide (k < 2) := by
    intro k hk
    apply filled.test_two
    unfold BITS_PER_LIMB
    omega
  -- the first run of clear bits starts at bit 2
  have notBefore : 2 ≤ q := by
    by_contra before
    have clear := run.bits 1 (by omega) (by omega)
    rw [bits 1 (by omega)] at clear
    cases clear
  have notBehind : q ≤ 2 := by
    by_contra behind
    obtain ⟨k, notBelow, inRun, set⟩ := run.least 2 (by omega)
    rw [bits k inRun, decide_eq_false (by omega)] at set
    exact set rfl
  obtain rfl : q = 2 := by omega
  have start : h.pma.physicalPageMap.startOf false 2 = 2 := if_neg fun both => absurd both.1 (by decide)
  rw [start, State.pageAt, shape.physicalPageBase]
  unfold PAGE_SIZE
  omega

end Startup

end Tyleros.Pma
