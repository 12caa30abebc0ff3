import Mathlib.Data.Nat.Find
import Tyleros.Pma.Search

/-!
# What `find_first` finds

`find_first` tests bit `bit` of a limb with the `int` `1 << bit`. The processor takes the
count modulo 32, and the mask of bit 31 is sign-extended to all upper bits. A clear bit of
an upper half is never found, and a set one is taken for bit 31; `findsFirst_iff` says for
which bitmaps the result is the least index nevertheless.
-/

namespace Tyleros.Pma.Bitmap

/-- `k` is the least index of a bit with value `v`. -/
structure Least (b : Bitmap) (v : Bool) (k : Nat) : Prop where
  inside : k < BITS_PER_LIMB * b.numLimbs
  value : b.test k = v
  first : ∀ m, m < k → b.test m ≠ v

/-- `find_first(v)` returns the least index, and -1 exactly if there is none. -/
structure FindsFirst (b : Bitmap) (v : Bool) : Prop where
  least : ∀ k, Least b v k → b.findFirst v = k
  missing : b.findFirst v = -1 ↔ ¬ ∃ k, k < BITS_PER_LIMB * b.numLimbs ∧ b.test k = v

/-! ## The masks -/

theorem and_bitMask {limb : BitVec 64} {i : Nat} (hi : i < BITS_PER_LIMB) :
    (limb &&& bitMask i != 0#64) = limb.getLsbD i := by
  have single := test_eq ⟨1, 8, fun _ => limb⟩ i
  rw [Nat.mod_eq_of_lt hi] at single
  exact single

/-- Below bit 31 a mask selects one bit. -/
theorem and_intMask_low {limb : BitVec 64} {bit : Nat} (low : bit % 32 < 31) :
    (limb &&& intMask bit != 0#64) = limb.getLsbD (bit % 32) := by
  have masks : ∀ i : Fin 31, intMask i.val = bitMask i.val := by decide
  rw [intMask_mod, masks ⟨bit % 32, low⟩]
  exact and_bitMask (by unfold BITS_PER_LIMB; omega)

theorem getLsbD_intMask_sign (i : Nat) : (intMask 31).getLsbD i = (decide (31 ≤ i) && decide (i < 64)) := by
  by_cases inside : i < 64
  · have bits : ∀ i : Fin 64, (intMask 31).getLsbD i.val = decide (31 ≤ i.val) := by decide
    rw [bits ⟨i, inside⟩, decide_eq_true inside, Bool.and_true]
  · rw [BitVec.getLsbD_of_ge _ _ (by omega), decide_eq_false inside, Bool.and_false]

/-- The bits from bit 31 on are clear. -/
def UpperClear (limb : BitVec 64) : Prop := ∀ i, 31 ≤ i → i < BITS_PER_LIMB → limb.getLsbD i = false

/-- The mask of bit 31 selects the upper bits as well. -/
theorem and_intMask_sign {limb : BitVec 64} {bit : Nat} (sign : bit % 32 = 31) :
    (limb &&& intMask bit != 0#64) = false ↔ UpperClear limb := by
  rw [intMask_mod, sign, bne_eq_false_iff_eq]
  constructor
  · intro zero i above inside
    have bit := congrArg (fun w => BitVec.getLsbD w i) zero
    rw [BitVec.getLsbD_and, getLsbD_intMask_sign, decide_eq_true above,
      decide_eq_true (show i < 64 from inside), BitVec.getLsbD_zero] at bit
    simpa only [Bool.and_self, Bool.and_true] using bit
  · intro clear
    apply BitVec.eq_of_getLsbD_eq
    intro i hi
    rw [BitVec.getLsbD_and, getLsbD_intMask_sign, BitVec.getLsbD_zero]
    by_cases above : 31 ≤ i
    · rw [clear i above hi, Bool.false_and]
    · rw [decide_eq_false above, Bool.false_and, Bool.and_false]

/-! ## One limb -/

section Limbs

variable {limb : BitVec 64} {l : Nat}

theorem firstBit_of_least {v : Bool} (small : l < BITS_PER_LIMB)
    (stops : ((limb &&& intMask l != 0#64) == v) = true)
    (earlier : ∀ i, i < l → (limb &&& intMask i != 0#64) = !v) : firstBit limb v = some l := by
  refine List.find?_range_eq_some.mpr ⟨stops, List.mem_range.mpr small, fun i hi => ?_⟩
  rw [earlier i hi]
  cases v <;> rfl

/-- Of a set bit in the upper half, bit 31 is returned. -/
theorem firstBit_true (small : l < BITS_PER_LIMB) (set : limb.getLsbD l = true)
    (first : ∀ i, i < l → limb.getLsbD i ≠ true) : firstBit limb true = some (min l 31) := by
  have earlier : ∀ i, i < min l 31 → (limb &&& intMask i != 0#64) = false := by
    intro i hi
    rw [and_intMask_low (by omega), Nat.mod_eq_of_lt (by omega)]
    exact Bool.eq_false_iff.mpr (first i (by omega))
  refine firstBit_of_least (by unfold BITS_PER_LIMB; omega) ?_ earlier
  rw [beq_iff_eq]
  rcases Nat.lt_or_ge l 31 with low | high
  · rw [Nat.min_eq_left (by omega), and_intMask_low (by omega), Nat.mod_eq_of_lt (by omega), set]
  · rw [Nat.min_eq_right high, ← Bool.not_eq_false, and_intMask_sign (by decide)]
    intro clear
    rw [clear l high small] at set
    cases set

/-- A limb in which `find_first(false)` finds a bit. -/
def Recognised (limb : BitVec 64) : Prop :=
  (∃ i, i < 31 ∧ limb.getLsbD i = false) ∨ UpperClear limb

/-- A clear bit in the lower half is found, bit 31 only if the bits above are clear. -/
theorem firstBit_clear (small : l < BITS_PER_LIMB) (clear : limb.getLsbD l = false)
    (first : ∀ i, i < l → limb.getLsbD i ≠ false) :
    (firstBit limb false = some l ∧ (l < 31 ∨ l = 31 ∧ UpperClear limb) ∧ Recognised limb) ∨
      (firstBit limb false = none ∧ ¬ (l < 31 ∨ l = 31 ∧ UpperClear limb) ∧ ¬ Recognised limb) := by
  have earlier : ∀ i, i < l → i < 31 → (limb &&& intMask i != 0#64) = true := by
    intro i hi low
    rw [and_intMask_low (by omega), Nat.mod_eq_of_lt (by omega)]
    simpa using first i hi
  rcases Nat.lt_or_ge l 31 with low | high
  · refine Or.inl ⟨firstBit_of_least small ?_ fun i hi => earlier i hi (by omega), Or.inl low,
      Or.inl ⟨l, low, clear⟩⟩
    rw [and_intMask_low (by omega), Nat.mod_eq_of_lt (by omega), clear]
    rfl
  · by_cases upper : UpperClear limb
    · have l31 : l = 31 := by
        by_contra other
        exact first 31 (by omega) (upper 31 (Nat.le_refl 31) (by decide))
      subst l31
      refine Or.inl ⟨firstBit_of_least small ?_ fun i hi => earlier i hi hi, Or.inr ⟨rfl, upper⟩,
        Or.inr upper⟩
      rw [(and_intMask_sign rfl).mpr upper]
      rfl
    · refine Or.inr ⟨?_, ?_, ?_⟩
      · refine List.find?_eq_none.mpr fun i mem => ?_
        have set : (limb &&& intMask i != 0#64) = true := by
          rcases Nat.lt_or_ge (i % 32) 31 with lower | sign
          · rw [intMask_mod]
            exact earlier _ (by omega) lower
          · rw [← Bool.not_eq_false, and_intMask_sign (by omega)]
            exact upper
        rw [set]
        decide
      · rintro (low | ⟨-, clear'⟩)
        · omega
        · exact upper clear'
      · rintro (⟨i, low, clear'⟩ | clear')
        · exact first i (by omega) clear'
        · exact upper clear'

theorem emptyLimb_of_bits {v : Bool} (other : ∀ i, i < BITS_PER_LIMB → limb.getLsbD i ≠ v) :
    limb = emptyLimb v := by
  apply BitVec.eq_of_getLsbD_eq
  intro i hi
  rw [getLsbD_emptyLimb v hi]
  exact Bool.eq_not.mpr (other i hi)

end Limbs

/-! ## All limbs -/

section Search

variable {b : Bitmap} {v : Bool} {k : Nat}

/-- `find_first` finds no bit in limb `m`. -/
def Skips (b : Bitmap) (v : Bool) (m : Nat) : Prop :=
  b.limbs m = emptyLimb v ∨ firstBit (b.limbs m) v = none

/-- The search stops in the first limb that is not skipped. -/
theorem findFirst_cases (b : Bitmap) (v : Bool) :
    (b.findFirst v = -1 ∧ ∀ m, m < b.numLimbs → Skips b v m) ∨
      ∃ j bit, j < b.numLimbs ∧ (∀ m, m < j → Skips b v m) ∧ b.limbs j ≠ emptyLimb v ∧
        firstBit (b.limbs j) v = some bit ∧ b.findFirst v = toInt (BITS_PER_LIMB * j + bit) := by
  have loop : ∀ count start,
      (b.findFirstFrom v (List.range' start count) = -1 ∧
          ∀ m, start ≤ m → m < start + count → Skips b v m) ∨
        ∃ j bit, start ≤ j ∧ j < start + count ∧ (∀ m, start ≤ m → m < j → Skips b v m) ∧
          b.limbs j ≠ emptyLimb v ∧ firstBit (b.limbs j) v = some bit ∧
          b.findFirstFrom v (List.range' start count) = toInt (BITS_PER_LIMB * j + bit) := by
    intro count
    induction count with
    | zero => exact fun start => Or.inl ⟨rfl, fun m le lt => by omega⟩
    | succ count ih =>
        intro start
        rw [List.range'_succ]
        have skip : Skips b v start → b.findFirstFrom v (start :: List.range' (start + 1) count) =
            b.findFirstFrom v (List.range' (start + 1) count) := by
          rintro (empty | none_)
          · rw [findFirstFrom, if_pos empty]
          · rw [findFirstFrom, none_]
            exact ite_self _
        by_cases skips : Skips b v start
        · have here : ∀ m, start ≤ m → ¬ start + 1 ≤ m → Skips b v m := by
            intro m le notLater
            obtain rfl : m = start := by omega
            exact skips
          rw [skip skips]
          rcases ih (start + 1) with ⟨result, rest⟩ | ⟨j, bit, le, lt, before, stops, found, result⟩
          · refine Or.inl ⟨result, fun m le lt => ?_⟩
            by_cases later : start + 1 ≤ m
            · exact rest m later (by omega)
            · exact here m le later
          · refine Or.inr ⟨j, bit, by omega, by omega, fun m le lt => ?_, stops, found, result⟩
            by_cases later : start + 1 ≤ m
            · exact before m later lt
            · exact here m le later
        · obtain ⟨notEmpty, some_⟩ := not_or.mp skips
          obtain ⟨bit, found⟩ := Option.ne_none_iff_exists'.mp some_
          refine Or.inr ⟨start, bit, Nat.le_refl _, by omega, fun m le lt => by omega, notEmpty, found, ?_⟩
          rw [findFirstFrom, if_neg notEmpty, found]
  have all := loop b.numLimbs 0
  rw [← List.range_eq_range'] at all
  rcases all with ⟨result, rest⟩ | ⟨j, bit, -, lt, before, stops, found, result⟩
  · exact Or.inl ⟨result, fun m lt => rest m (Nat.zero_le m) (by omega)⟩
  · exact Or.inr ⟨j, bit, by omega, fun m lt => before m (Nat.zero_le m) lt, stops, found, result⟩

/-- The limbs in front of the least index are empty, and so are the bits of its own limb
in front of it. -/
theorem Least.limbs (least : Least b v k) :
    (∀ m, m < k / BITS_PER_LIMB → b.limbs m = emptyLimb v) ∧
      (b.limbs (k / BITS_PER_LIMB)).getLsbD (k % BITS_PER_LIMB) = v ∧
      ∀ i, i < k % BITS_PER_LIMB → (b.limbs (k / BITS_PER_LIMB)).getLsbD i ≠ v := by
  have at_ : ∀ m i, i < BITS_PER_LIMB → BITS_PER_LIMB * m + i < k → (b.limbs m).getLsbD i ≠ v := by
    intro m i hi before
    have other := least.first _ before
    rwa [test_limb b hi] at other
  refine ⟨fun m hm => emptyLimb_of_bits fun i hi => at_ m i hi ?_, (test_eq b k).symm.trans least.value,
    fun i hi => at_ _ i ?_ ?_⟩
  · unfold BITS_PER_LIMB at *
    omega
  · unfold BITS_PER_LIMB at *
    omega
  · unfold BITS_PER_LIMB at *
    omega

theorem skips_false_iff {m : Nat} : Skips b false m ↔ ¬ Recognised (b.limbs m) := by
  by_cases empty : b.limbs m = emptyLimb false
  · refine iff_of_true (Or.inl empty) ?_
    rw [empty]
    rintro (⟨i, low, clear⟩ | upper)
    · rw [getLsbD_emptyLimb false (by omega)] at clear
      cases clear
    · have clear := upper 31 (Nat.le_refl 31) (by decide)
      rw [getLsbD_emptyLimb false (by decide)] at clear
      cases clear
  · -- the least clear bit of the limb
    have exists_ : ∃ i, i < BITS_PER_LIMB ∧ (b.limbs m).getLsbD i = false := by
      by_contra none_
      refine empty (emptyLimb_of_bits fun i hi clear => none_ ⟨i, hi, clear⟩)
    obtain ⟨l, ⟨small, clear⟩, first⟩ :
        ∃ l, (l < BITS_PER_LIMB ∧ (b.limbs m).getLsbD l = false) ∧
          ∀ i, i < l → ¬ (i < BITS_PER_LIMB ∧ (b.limbs m).getLsbD i = false) :=
      ⟨Nat.find exists_, Nat.find_spec exists_, fun i hi => Nat.find_min exists_ hi⟩
    have first' : ∀ i, i < l → (b.limbs m).getLsbD i ≠ false := fun i hi clear =>
      first i hi ⟨Nat.lt_trans hi small, clear⟩
    rcases firstBit_clear small clear first' with ⟨found, -, recognised⟩ | ⟨none_, -, unrecognised⟩
    · refine iff_of_false ?_ (not_not.mpr recognised)
      rintro (empty' | none_)
      · exact empty empty'
      · rw [none_] at found
        cases found
    · exact iff_of_true (Or.inr none_) unrecognised

theorem toInt_eq_iff {x k : Nat} : toInt x = k ↔ x % 2 ^ 32 = k ∧ k < 2 ^ 31 := by
  unfold toInt
  rw [BitVec.toInt_eq_toNat_cond, BitVec.toNat_ofNat]
  split <;> omega

/-- Behind limb `i`, the next limb in which a bit is found is `0x7FFFFFFF`, a multiple of
`2 ^ 26` limbs away, so that the same `int` results. -/
def Coincides (b : Bitmap) (i : Nat) : Prop :=
  ∃ j, i < j ∧ j < b.numLimbs ∧ (j - i) % 2 ^ 26 = 0 ∧ b.limbs j = 0x7FFFFFFF#64 ∧
    ∀ m, i < m → m < j → ¬ Recognised (b.limbs m)

/-- The condition on the least index: it fits in an `int` and is in the lower half of its
limb; and a clear bit 31 only counts if the bits above are clear. -/
def Findable (b : Bitmap) (v : Bool) (k : Nat) : Prop :=
  k < 2 ^ 31 ∧ (k % BITS_PER_LIMB < 31 ∨ k % BITS_PER_LIMB = 31 ∧
    (v = true ∨ UpperClear (b.limbs (k / BITS_PER_LIMB)) ∨ Coincides b (k / BITS_PER_LIMB)))

theorem Least.limb_lt (least : Least b v k) : k / BITS_PER_LIMB < b.numLimbs :=
  Nat.div_lt_of_lt_mul least.inside

/-- The search does not stop in front of the least index. -/
theorem Least.not_before (least : Least b v k) {j : Nat} (stops : b.limbs j ≠ emptyLimb v) :
    k / BITS_PER_LIMB ≤ j := by
  by_contra before
  exact stops (least.limbs.1 j (Nat.not_le.mp before))

/-- Where a bit is found in the limb of the least index, that is the one returned. -/
theorem Least.findFirst_eq (least : Least b v k) {bit : Nat}
    (notEmpty : b.limbs (k / BITS_PER_LIMB) ≠ emptyLimb v)
    (found : firstBit (b.limbs (k / BITS_PER_LIMB)) v = some bit) :
    b.findFirst v = toInt (BITS_PER_LIMB * (k / BITS_PER_LIMB) + bit) := by
  have notSkipped : ¬ Skips b v (k / BITS_PER_LIMB) := by
    rintro (empty | none_)
    · exact notEmpty empty
    · rw [none_] at found
      cases found
  rcases findFirst_cases b v with ⟨-, skips⟩ | ⟨j, bit', -, skips, stops, found', result⟩
  · exact absurd (skips _ least.limb_lt) notSkipped
  · obtain rfl : j = k / BITS_PER_LIMB := by
      rcases Nat.eq_or_lt_of_le (least.not_before stops) with eq | behind
      · exact eq.symm
      · exact absurd (skips _ behind) notSkipped
    rw [found] at found'
    cases found'
    exact result

theorem Least.limb_ne_empty (least : Least b v k) : b.limbs (k / BITS_PER_LIMB) ≠ emptyLimb v := by
  intro empty
  have value := least.limbs.2.1
  have small : k % BITS_PER_LIMB < BITS_PER_LIMB := Nat.mod_lt k (by decide)
  rw [empty, getLsbD_emptyLimb v small] at value
  cases v <;> cases value

theorem Least.findFirst_true_iff (least : Least b true k) :
    b.findFirst true = k ↔ Findable b true k := by
  obtain ⟨-, value, first⟩ := least.limbs
  have found := firstBit_true (Nat.mod_lt k (by decide)) value first
  rw [least.findFirst_eq least.limb_ne_empty found, toInt_eq_iff, Findable]
  unfold BITS_PER_LIMB at *
  constructor
  · rintro ⟨same, fits⟩
    refine ⟨fits, ?_⟩
    by_cases low : k % 64 < 31
    · exact Or.inl low
    · exact Or.inr ⟨by omega, Or.inl rfl⟩
  · rintro ⟨fits, low | ⟨sign, -⟩⟩
    · omega
    · omega

/-! ## A limb that is skipped -/

theorem getLsbD_again : ∀ i : Fin 64, (0x7FFFFFFF#64).getLsbD i.val = decide (i.val < 31) := by decide

/-- In `0x7FFFFFFF` bit 31 is found. -/
theorem again_found : firstBit 0x7FFFFFFF#64 false = some 31 ∧ Recognised 0x7FFFFFFF#64 := by
  refine ⟨by decide, Or.inr fun i above hi => ?_⟩
  rw [getLsbD_again ⟨i, hi⟩]
  exact decide_eq_false (Nat.not_lt.mpr above)

/-- Where bit 31 is the first one found, the lower bits are set and the upper ones clear. -/
theorem eq_again_of_found {limb : BitVec 64} (found : firstBit limb false = some 31) :
    limb = 0x7FFFFFFF#64 := by
  obtain ⟨stop, -, earlier⟩ := List.find?_range_eq_some.mp found
  have upper := (and_intMask_sign (by decide : 31 % 32 = 31)).mp (beq_iff_eq.mp stop)
  apply BitVec.eq_of_getLsbD_eq
  intro i hi
  rw [getLsbD_again ⟨i, hi⟩]
  by_cases lower : i < 31
  · have set := earlier i lower
    rw [and_intMask_low (by omega), Nat.mod_eq_of_lt (by omega)] at set
    rw [decide_eq_true lower]
    simpa using set
  · rw [decide_eq_false lower]
    exact upper i (by omega) hi

/-- If the limb of the least index is skipped, only a coincidence helps. -/
theorem Least.findFirst_skipped (least : Least b false k) (high : 31 ≤ k % BITS_PER_LIMB)
    (none_ : firstBit (b.limbs (k / BITS_PER_LIMB)) false = none) :
    b.findFirst false = k ↔
      k < 2 ^ 31 ∧ k % BITS_PER_LIMB = 31 ∧ Coincides b (k / BITS_PER_LIMB) := by
  rcases findFirst_cases b false with ⟨result, skips⟩ | ⟨j, bit, hj, skips, stops, found, result⟩
  · rw [result]
    refine iff_of_false (by omega) ?_
    rintro ⟨-, -, j, -, hj, -, limbJ, -⟩
    have skipped := skips_false_iff.mp (skips j hj)
    rw [limbJ] at skipped
    exact skipped again_found.2
  · have behind : k / BITS_PER_LIMB < j := by
      refine Nat.lt_of_le_of_ne (least.not_before stops) ?_
      rintro rfl
      rw [none_] at found
      cases found
    have low := (firstBit_false found).1
    rw [result, toInt_eq_iff]
    constructor
    · rintro ⟨same, fits⟩
      have sign : bit = 31 ∧ k % BITS_PER_LIMB = 31 := by
        unfold BITS_PER_LIMB at *
        omega
      obtain ⟨rfl, sign⟩ := sign
      refine ⟨fits, sign, j, behind, hj, ?_, eq_again_of_found found,
        fun m _ lt => skips_false_iff.mp (skips m lt)⟩
      unfold BITS_PER_LIMB at *
      omega
    · rintro ⟨fits, sign, j', behind', hj', apart, limbJ', between⟩
      obtain rfl : j = j' := by
        rcases Nat.lt_trichotomy j j' with lt | eq | gt
        · refine absurd (skips_false_iff.mpr (between j behind lt)) ?_
          rintro (empty | none')
          · exact stops empty
          · rw [none'] at found
            cases found
        · exact eq
        · have skipped := skips_false_iff.mp (skips j' gt)
          rw [limbJ'] at skipped
          exact absurd again_found.2 skipped
      rw [limbJ', again_found.1] at found
      cases found
      unfold BITS_PER_LIMB at *
      omega

theorem Least.findFirst_false_iff (least : Least b false k) :
    b.findFirst false = k ↔ Findable b false k := by
  obtain ⟨-, clear, first⟩ := least.limbs
  rcases firstBit_clear (Nat.mod_lt k (by decide)) clear first with
    ⟨found, place, -⟩ | ⟨none_, place, -⟩
  · rw [least.findFirst_eq least.limb_ne_empty found, Nat.div_add_mod, toInt_eq_iff, Findable]
    constructor
    · rintro ⟨-, fits⟩
      exact ⟨fits, place.imp_right fun ⟨sign, upper⟩ => ⟨sign, Or.inr (Or.inl upper)⟩⟩
    · rintro ⟨fits, -⟩
      exact ⟨by omega, fits⟩
  · have high : 31 ≤ k % BITS_PER_LIMB := by
      by_contra low
      exact place (Or.inl (Nat.not_le.mp low))
    rw [least.findFirst_skipped high none_, Findable]
    constructor
    · rintro ⟨fits, sign, coincides⟩
      exact ⟨fits, Or.inr ⟨sign, Or.inr (Or.inr coincides)⟩⟩
    · rintro ⟨fits, low | ⟨sign, impossible | upper | coincides⟩⟩
      · exact absurd (Or.inl low) place
      · cases impossible
      · exact absurd (Or.inr ⟨sign, upper⟩) place
      · exact ⟨fits, sign, coincides⟩

theorem Least.findFirst_iff (least : Least b v k) : b.findFirst v = k ↔ Findable b v k := by
  cases v with
  | false => exact least.findFirst_false_iff
  | true => exact least.findFirst_true_iff

/-- Without a bit of that value, -1 is returned. -/
theorem findFirst_missing (missing : ¬ ∃ k, k < BITS_PER_LIMB * b.numLimbs ∧ b.test k = v) :
    b.findFirst v = -1 := by
  rcases findFirst_cases b v with ⟨result, -⟩ | ⟨j, bit, hj, -, stops, -, -⟩
  · exact result
  · refine absurd (emptyLimb_of_bits fun i hi value => missing ⟨BITS_PER_LIMB * j + i, ?_, ?_⟩) stops
    · unfold BITS_PER_LIMB at *
      omega
    · rw [test_limb b hi]
      exact value

/-- The bitmap made for `numBits` bits, with any pattern of set bits. -/
def ofPattern (numBits : UInt64) (pattern : Nat → BitVec 64) : Bitmap :=
  { make pattern numBits.toNat with limbs := pattern }

/-- `find_first` is right exactly if the least index, when there is one, is findable. -/
theorem findsFirst_iff (numBits : UInt64) (pattern : Nat → BitVec 64) (v : Bool) :
    FindsFirst (ofPattern numBits pattern) v ↔
      ∀ k, Least (ofPattern numBits pattern) v k → Findable (ofPattern numBits pattern) v k := by
  generalize ofPattern numBits pattern = b
  constructor
  · intro finds k least
    exact least.findFirst_iff.mp (finds.least k least)
  · intro findable
    refine ⟨fun k least => least.findFirst_iff.mpr (findable k least), fun result => ?_,
      findFirst_missing⟩
    intro exists_
    have least : Least b v (Nat.find exists_) :=
      ⟨(Nat.find_spec exists_).1, (Nat.find_spec exists_).2, fun m lt value =>
        Nat.find_min exists_ lt ⟨Nat.lt_trans lt (Nat.find_spec exists_).1, value⟩⟩
    have found := least.findFirst_iff.mpr (findable _ least)
    rw [result] at found
    omega

/-- With the lower half of a limb in use, none of the 32 free bits above is found; and bit
31 is returned for bit 40. -/
theorem findFirst_misses_upper_half :
    ¬ FindsFirst (ofPattern 64 fun _ => 0xFFFFFFFF#64) false ∧
      ¬ FindsFirst (ofPattern 64 fun _ => 0x10000000000#64) true := by
  constructor
  · intro finds
    have missing := finds.missing.mp (by decide)
    exact missing ⟨32, by decide, by decide⟩
  · intro finds
    have least : Least (ofPattern 64 fun _ => 0x10000000000#64) true 40 :=
      ⟨by decide, by decide, by decide⟩
    exact absurd (finds.least 40 least) (by decide)

end Search

end Tyleros.Pma.Bitmap
