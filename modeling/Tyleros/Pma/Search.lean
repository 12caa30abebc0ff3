import Tyleros.Pma.Bitmap
import Mathlib.Order.Basic

/-!
# The two searches of the bitmap

`findFirst_spec`: `find_first` returns the index of a bit with the value asked
for, although it only ever returns bits of the lower half of a limb.

`findFirstN_reports`: `find_first_n` returns -1 unless it sees the end of the first run of
`n` bits with the value asked for (`Detected`). Then it returns the start of the run, except
when the run starts with a whole limb of such bits: then it is the last bit of that limb
(`startOf`). `findFirstN_spec` is the part of this that the page allocator relies on.
-/

namespace Tyleros.Pma.Bitmap

/-! ## Single bits -/

theorem getLsbD_bitMask (idx i : Nat) :
    (bitMask idx).getLsbD i = decide (i = idx % BITS_PER_LIMB) := by
  unfold bitMask BITS_PER_LIMB
  have := Nat.mod_lt idx (show 64 > 0 by decide)
  rw [BitVec.getLsbD_shiftLeft, BitVec.getLsbD_one]
  by_cases eq : i = idx % 64
  · subst eq
    simp [this]
  · have : i < idx % 64 ∨ i - idx % 64 ≠ 0 := by omega
    rcases this with lt | ne
    · simp [lt, eq]
    · simp [ne, eq]

theorem test_eq (b : Bitmap) (idx : Nat) :
    b.test idx = (b.limbs (idx / BITS_PER_LIMB)).getLsbD (idx % BITS_PER_LIMB) := by
  unfold test
  cases bit : (b.limbs (idx / BITS_PER_LIMB)).getLsbD (idx % BITS_PER_LIMB) with
  | false =>
      rw [bne_eq_false_iff_eq]
      apply BitVec.eq_of_getLsbD_eq
      intro i hi
      rw [BitVec.getLsbD_and, getLsbD_bitMask, BitVec.getLsbD_zero]
      by_cases eq : i = idx % BITS_PER_LIMB
      · rw [eq, bit, Bool.false_and]
      · rw [decide_eq_false eq, Bool.and_false]
  | true =>
      rw [bne_iff_ne]
      intro zero
      have := congrArg (fun w => BitVec.getLsbD w (idx % BITS_PER_LIMB)) zero
      simp [getLsbD_bitMask, bit] at this

/-- Bit `i` of limb `m`. -/
theorem limb_index {m i : Nat} (hi : i < BITS_PER_LIMB) :
    (BITS_PER_LIMB * m + i) / BITS_PER_LIMB = m ∧ (BITS_PER_LIMB * m + i) % BITS_PER_LIMB = i := by
  unfold BITS_PER_LIMB at *
  omega

theorem test_limb (b : Bitmap) {m i : Nat} (hi : i < BITS_PER_LIMB) :
    b.test (BITS_PER_LIMB * m + i) = (b.limbs m).getLsbD i := by
  obtain ⟨limb, offset⟩ := limb_index (m := m) hi
  rw [test_eq, limb, offset]

theorem test_set (b : Bitmap) (idx k : Nat) :
    (b.set idx).test k = (decide (k = idx) || b.test k) := by
  rw [test_eq, test_eq, set]
  simp only [Function.update_apply]
  have same : k = idx ↔ k / BITS_PER_LIMB = idx / BITS_PER_LIMB ∧
      k % BITS_PER_LIMB = idx % BITS_PER_LIMB := by
    unfold BITS_PER_LIMB
    omega
  split
  · next limb =>
      rw [BitVec.getLsbD_or, getLsbD_bitMask, Bool.or_comm, limb]
      congr 1
      exact decide_eq_decide.mpr ⟨fun h => same.mpr ⟨limb, h⟩, fun h => (same.mp h).2⟩
  · next limb =>
      rw [decide_eq_false fun h => limb (same.mp h).1, Bool.false_or]

theorem test_reset (b : Bitmap) (idx k : Nat) :
    (b.reset idx).test k = (!decide (k = idx) && b.test k) := by
  rw [test_eq, test_eq, reset]
  simp only [Function.update_apply]
  have bound : k % BITS_PER_LIMB < 64 := Nat.mod_lt k (by decide)
  have same : k = idx ↔ k / BITS_PER_LIMB = idx / BITS_PER_LIMB ∧
      k % BITS_PER_LIMB = idx % BITS_PER_LIMB := by
    unfold BITS_PER_LIMB
    omega
  split
  · next limb =>
      rw [BitVec.getLsbD_and, BitVec.getLsbD_not, getLsbD_bitMask, Bool.and_comm, limb]
      simp only [bound, decide_true, Bool.true_and]
      congr 2
      exact decide_eq_decide.mpr ⟨fun h => same.mpr ⟨limb, h⟩, fun h => (same.mp h).2⟩
  · next limb =>
      rw [decide_eq_false fun h => limb (same.mp h).1, Bool.not_false, Bool.true_and]

theorem getLsbD_emptyLimb (v : Bool) {i : Nat} (h : i < 64) : (emptyLimb v).getLsbD i = !v := by
  cases v with
  | false => rw [emptyLimb, if_neg Bool.false_ne_true, BitVec.getLsbD_allOnes, decide_eq_true h]; rfl
  | true => rw [emptyLimb, if_pos rfl, BitVec.getLsbD_zero]; rfl

theorem test_of_emptyLimb {b : Bitmap} {v : Bool} {k : Nat}
    (h : b.limbs (k / BITS_PER_LIMB) = emptyLimb v) : b.test k ≠ v := by
  have bound : k % BITS_PER_LIMB < 64 := Nat.mod_lt k (by decide)
  rw [test_eq, h, getLsbD_emptyLimb v bound]
  cases v <;> decide

theorem test_of_fullLimb {b : Bitmap} {v : Bool} {k : Nat}
    (h : b.limbs (k / BITS_PER_LIMB) = ~~~ emptyLimb v) : b.test k = v := by
  have bound : k % BITS_PER_LIMB < 64 := Nat.mod_lt k (by decide)
  rw [test_eq, h, BitVec.getLsbD_not, getLsbD_emptyLimb v bound, decide_eq_true bound,
    Bool.true_and, Bool.not_not]

theorem toInt_of_lt {x : Nat} (h : x < 2 ^ 31) : toInt x = x := by
  unfold toInt
  rw [BitVec.toInt_eq_toNat_of_lt]
  · rw [BitVec.toNat_ofNat, Nat.mod_eq_of_lt (by omega)]
  · rw [BitVec.toNat_ofNat, Nat.mod_eq_of_lt (by omega)]
    omega

/-! ## `find_first` -/

/-- The masks of `find_first` select at least their own bit in the lower half. -/
theorem getLsbD_intMask {bit : Nat} (h : bit < 64) : (intMask bit).getLsbD (bit % 32) = true := by
  have masks : ∀ bit : Fin 64, (intMask bit).getLsbD (bit.val % 32) = true := by decide
  exact masks ⟨bit, h⟩

theorem intMask_mod (bit : Nat) : intMask bit = intMask (bit % 32) := by
  unfold intMask
  rw [Nat.mod_mod]

/-- The bit that the inner loop stops at for a free bit is in the lower half of the
limb and is free. -/
theorem firstBit_false {limb : BitVec 64} {bit : Nat} (h : firstBit limb false = some bit) :
    bit < 32 ∧ limb.getLsbD bit = false := by
  unfold firstBit BITS_PER_LIMB at h
  obtain ⟨stops, member, earlier⟩ := List.find?_range_eq_some.mp h
  rw [List.mem_range] at member
  have clear : limb &&& intMask bit = 0#64 := by simpa using stops
  have low : bit < 32 := by
    by_contra high
    have := earlier (bit % 32) (by omega)
    rw [← intMask_mod, clear] at this
    simp at this
  refine ⟨low, ?_⟩
  have own := congrArg (fun w => BitVec.getLsbD w (bit % 32)) clear
  rw [BitVec.getLsbD_and, getLsbD_intMask member, Nat.mod_eq_of_lt low] at own
  simpa using own

/-- `find_first(false)` returns -1 or the index of a clear bit. -/
theorem findFirst_spec (b : Bitmap) :
    b.findFirst false = -1 ∨ ∃ k, k < BITS_PER_LIMB * b.numLimbs ∧ k % BITS_PER_LIMB < 32 ∧
      b.findFirst false = toInt k ∧ b.test k = false := by
  have loop : ∀ l : List Nat, (∀ i ∈ l, i < b.numLimbs) →
      b.findFirstFrom false l = -1 ∨ ∃ k, k < BITS_PER_LIMB * b.numLimbs ∧
        k % BITS_PER_LIMB < 32 ∧ b.findFirstFrom false l = toInt k ∧ b.test k = false := by
    intro l bound
    induction l with
    | nil => exact Or.inl rfl
    | cons i rest ih =>
        obtain ⟨hi, rest_⟩ := List.forall_mem_cons.mp bound
        simp only [findFirstFrom]
        split
        · exact ih rest_
        · split
          · next bit first =>
              obtain ⟨low, clear⟩ := firstBit_false first
              have small : bit < BITS_PER_LIMB := by
                unfold BITS_PER_LIMB
                omega
              refine Or.inr ⟨BITS_PER_LIMB * i + bit, ?_, ?_, rfl, ?_⟩
              · unfold BITS_PER_LIMB
                omega
              · rw [(limb_index small).2]
                exact low
              · rw [test_limb b small, clear]
          · exact ih rest_
  exact loop _ fun i mem => List.mem_range.mp mem

/-! ## `find_first_n` -/

/-- The bits from `s` up to `p` have value `v` and the one before `s` does not;
every run of `n` bits that ends at or before `s` has a bit of the other value. -/
structure Run (b : Bitmap) (v : Bool) (n s p : Nat) : Prop where
  le : s ≤ p
  inside : ∀ k, s ≤ k → k < p → b.test k = v
  before : s = 0 ∨ b.test (s - 1) ≠ v
  none : ∀ s', s' + n ≤ s → ∃ k, s' ≤ k ∧ k < s' + n ∧ b.test k ≠ v

/-- The first `n` bits in a row with value `v` start at `s`. -/
structure FirstRun (b : Bitmap) (v : Bool) (n s : Nat) : Prop where
  bits : ∀ k, s ≤ k → k < s + n → b.test k = v
  least : ∀ s', s' < s → ∃ k, s' ≤ k ∧ k < s' + n ∧ b.test k ≠ v

/-- What `find_first_n` reports for a run that starts at `s`. -/
def startOf (b : Bitmap) (v : Bool) (s : Nat) : Nat :=
  if s % BITS_PER_LIMB = 0 ∧ b.limbs (s / BITS_PER_LIMB) = ~~~ emptyLimb v then
    s + (BITS_PER_LIMB - 1)
  else s

section Runs

variable {b : Bitmap} {v : Bool} {n s p : Nat}

theorem Run.start (b : Bitmap) (v : Bool) (pos : 0 < n) : Run b v n 0 0 :=
  ⟨Nat.le_refl 0, fun k _ hk => absurd hk (Nat.not_lt_zero k), Or.inl rfl, fun s' h => by omega⟩

theorem Run.match (run : Run b v n s p) (same : b.test p = v) : Run b v n s (p + 1) := by
  refine ⟨Nat.le_succ_of_le run.le, fun k hs hp => ?_, run.before, run.none⟩
  rcases Nat.lt_succ_iff_lt_or_eq.mp hp with lt | rfl
  · exact run.inside k hs lt
  · exact same

theorem Run.least (run : Run b v n s p) {s' : Nat} (before : s' < s) :
    ∃ k, s' ≤ k ∧ k < s' + n ∧ b.test k ≠ v := by
  rcases Nat.lt_or_ge s (s' + n) with inside | ends
  · exact ⟨s - 1, by omega, by omega, run.before.resolve_left (by omega)⟩
  · exact run.none s' ends

theorem Run.mismatch (run : Run b v n s p) (short : p - s < n) (other : b.test p ≠ v) :
    Run b v n (p + 1) (p + 1) := by
  refine ⟨Nat.le_refl _, fun k hs hp => by omega, Or.inr other, fun s' ends => ?_⟩
  have le := run.le
  rcases Nat.lt_or_ge p (s' + n) with inside | ends'
  · exact ⟨p, by omega, inside, other⟩
  · exact run.least (by omega)

/-- A limb of the other value ends the run. -/
theorem Run.mismatchLimb (run : Run b v n s p) (short : p - s < n) (count : Nat)
    (other : ∀ j, j < count + 1 → b.test (p + j) ≠ v) :
    Run b v n (p + (count + 1)) (p + (count + 1)) := by
  induction count with
  | zero => exact run.mismatch short (other 0 (by omega))
  | succ count ih =>
      have run' := ih fun j hj => other j (by omega)
      exact run'.mismatch (by omega) (other (count + 1) (by omega))

theorem Run.matchLimb (run : Run b v n s p) (count : Nat)
    (same : ∀ j, j < count → b.test (p + j) = v) : Run b v n s (p + count) := by
  induction count with
  | zero => exact run
  | succ count ih => exact (ih fun j hj => same j (by omega)).match (same count (by omega))

theorem Run.firstRun (run : Run b v n s p) (long : n ≤ p - s) : FirstRun b v n s := by
  have le := run.le
  exact ⟨fun k hs hk => run.inside k hs (by omega), fun s' before => run.least before⟩

/-- The bits up to `p` hold no run of `n` bits. -/
theorem Run.pending (run : Run b v n s p) (short : p - s < n) {q : Nat} (first : FirstRun b v n q) :
    p < q + n := by
  by_contra ends
  rcases Nat.lt_or_ge q s with before | after
  · obtain ⟨k, le, lt, other⟩ := run.least before
    exact other (first.bits k le lt)
  · omega

theorem FirstRun.unique (h : FirstRun b v n s) (h' : FirstRun b v n p) : s = p := by
  rcases Nat.lt_trichotomy s p with lt | eq | gt
  · obtain ⟨k, le, lt', other⟩ := h'.least s lt
    exact absurd (h.bits k le lt') other
  · exact eq
  · obtain ⟨k, le, lt', other⟩ := h.least p gt
    exact absurd (h'.bits k le lt') other

/-- The search sees the end of the run at `s`: in a mixed limb the last bit is tested, a
whole limb is only noticed when another one follows. -/
def Detected (b : Bitmap) (v : Bool) (n s : Nat) : Prop :=
  if b.limbs ((s + n - 1) / BITS_PER_LIMB) = ~~~ emptyLimb v then
    BITS_PER_LIMB * ((s + n - 1) / BITS_PER_LIMB + 1) < b.totalSize
  else s + n ≤ b.totalSize

theorem Detected.mixed (detected : Detected b v n s)
    (limb : b.limbs ((s + n - 1) / BITS_PER_LIMB) ≠ ~~~ emptyLimb v) : s + n ≤ b.totalSize := by
  unfold Detected at detected
  rwa [if_neg limb] at detected

theorem Detected.full (detected : Detected b v n s)
    (limb : b.limbs ((s + n - 1) / BITS_PER_LIMB) = ~~~ emptyLimb v) :
    BITS_PER_LIMB * ((s + n - 1) / BITS_PER_LIMB + 1) < b.totalSize := by
  unfold Detected at detected
  rwa [if_pos limb] at detected

/-- A run that ends within the bits searched is detected if its last limb is mixed. -/
theorem Detected.of_mixed (inside : s + n ≤ b.totalSize)
    (limb : b.limbs ((s + n - 1) / BITS_PER_LIMB) ≠ ~~~ emptyLimb v) : Detected b v n s := by
  unfold Detected
  rwa [if_neg limb]

/-- A run that ends before a limb that is searched is detected. -/
theorem Detected.of_limb {i : Nat} (pos : 0 < n) (limb : i % BITS_PER_LIMB = 0)
    (ends : s + n ≤ i) (inside : i < b.totalSize) : Detected b v n s := by
  unfold Detected
  split
  · unfold BITS_PER_LIMB at *
    omega
  · omega

theorem Detected.inside (pos : 0 < n) (detected : Detected b v n s) : s + n ≤ b.totalSize := by
  by_cases limb : b.limbs ((s + n - 1) / BITS_PER_LIMB) = ~~~ emptyLimb v
  · have := detected.full limb
    unfold BITS_PER_LIMB at *
    omega
  · exact detected.mixed limb

/-- The search goes on beyond the start that is reported. -/
theorem Detected.startOf_lt (pos : 0 < n) (detected : Detected b v n s) :
    startOf b v s = s ∨ s + BITS_PER_LIMB ≤ b.totalSize := by
  by_cases whole : s % BITS_PER_LIMB = 0 ∧ b.limbs (s / BITS_PER_LIMB) = ~~~ emptyLimb v
  · refine Or.inr ?_
    have inside := detected.inside pos
    rcases Nat.lt_or_ge n BITS_PER_LIMB with short | long
    · have same : (s + n - 1) / BITS_PER_LIMB = s / BITS_PER_LIMB := by
        unfold BITS_PER_LIMB at *
        omega
      have := detected.full (same ▸ whole.2)
      unfold BITS_PER_LIMB at *
      omega
    · omega
  · exact Or.inl (if_neg whole)

/-- The locals of `find_first_n` describe the run that ends at `p`. -/
structure ScanInv (b : Bitmap) (v : Bool) (n s p : Nat) (scan : Scan) : Prop where
  run : Run b v n s p
  count : scan.numContiguous = p - s
  start : scan.startIdx = if s = p then -1 else toInt (startOf b v s)

variable {scan : Scan}

theorem ScanInv.startIdx (inv : ScanInv b v n s p scan) (h : s < p) :
    scan.startIdx = toInt (startOf b v s) := by
  rw [inv.start, if_neg (by omega)]

/-- No run is under way. -/
theorem ScanInv.reset (run : Run b v n p p) : ScanInv b v n p p ⟨0, -1⟩ :=
  ⟨run, by simp, by simp⟩

theorem toInt_ne_neg_one {x : Nat} (h : x < 2 ^ 32 - 1) : toInt x ≠ -1 := by
  unfold toInt
  rw [BitVec.toInt_eq_toNat_cond, BitVec.toNat_ofNat]
  split <;> omega

/-- A whole limb at the start of a run ends before the next limb starts. -/
theorem startOf_lt {i : Nat} (limb : i % BITS_PER_LIMB = 0) (before : s < i) :
    startOf b v s < i := by
  unfold startOf
  unfold BITS_PER_LIMB at *
  split <;> omega

/-- The start of a run is recorded with its first bits and kept afterwards. -/
theorem ScanInv.record (inv : ScanInv b v n s p scan) (bound : s ≠ p → startOf b v s < 2 ^ 32 - 1)
    {x : Nat} (first : s = p → x = startOf b v s) :
    (if scan.startIdx = -1 then toInt x else scan.startIdx) = toInt (startOf b v s) := by
  rw [inv.start]
  by_cases fresh : s = p
  · rw [if_pos fresh, if_pos rfl, first fresh]
  · rw [if_neg fresh, if_neg (toInt_ne_neg_one (bound fresh))]

/-- What a search that returns has found. -/
def Reports (b : Bitmap) (v : Bool) (n : Nat) (startIdx : Int) : Prop :=
  ∃ s, FirstRun b v n s ∧ Detected b v n s ∧ startIdx = toInt (startOf b v s)

/-- The inner loop over a limb that is neither empty nor full. If it does not return, it
has searched up to the end of the limb or of the bits searched. -/
theorem scanBits_spec (word : b.totalSize < 2 ^ 32) {i : Nat}
    (limb : i % BITS_PER_LIMB = 0) (mixed : b.limbs (i / BITS_PER_LIMB) ≠ ~~~ emptyLimb v)
    {fuel j : Nat} (enough : fuel + j = BITS_PER_LIMB) (searched : i + j ≤ b.totalSize)
    (inv : ScanInv b v n s (i + j) scan) (short : i + j - s < n) :
    (∃ startIdx, scanBits b v n i fuel j scan = .inl startIdx ∧ Reports b v n startIdx) ∨
      ∃ scan' s' p, scanBits b v n i fuel j scan = .inr scan' ∧ ScanInv b v n s' p scan' ∧
        p - s' < n ∧ (p = i + BITS_PER_LIMB ∨ p = b.totalSize ∧ p < i + BITS_PER_LIMB) := by
  induction fuel generalizing j s scan with
  | zero => exact Or.inr ⟨scan, s, i + j, rfl, inv, short, Or.inl (by omega)⟩
  | succ fuel ih =>
      have le := inv.run.le
      rw [scanBits]
      split
      · next inBounds =>
          split
          · next other =>
              have other : b.test (i + j) ≠ v := bne_iff_ne.mp other
              exact ih (j := j + 1) (by omega) (by omega)
                (ScanInv.reset (inv.run.mismatch short other)) (by omega)
          · next same =>
              have same : b.test (i + j) = v := by simpa using same
              have run := inv.run.match same
              have count : (scan.numContiguous + 1) % 2 ^ 32 = i + j + 1 - s := by
                rw [inv.count]
                omega
              have limbOf : (i + j) / BITS_PER_LIMB = i / BITS_PER_LIMB := by
                unfold BITS_PER_LIMB at *
                omega
              -- a run that starts in this limb does not start with a whole limb
              have partial_ : i ≤ s → startOf b v s = s := by
                intro inLimb
                rw [startOf, if_neg]
                rintro ⟨-, full⟩
                refine mixed ?_
                rw [← full]
                congr 1
                unfold BITS_PER_LIMB at *
                omega
              have bound : s ≠ i + j → startOf b v s < 2 ^ 32 - 1 := by
                intro started
                rcases Nat.lt_or_ge s i with before | inLimb
                · have := startOf_lt (b := b) (v := v) limb before
                  omega
                · rw [partial_ inLimb]
                  omega
              have start := inv.record bound (x := i + j) fun fresh =>
                fresh ▸ (partial_ (by omega)).symm
              rw [count, start]
              dsimp only
              split
              · next long =>
                  have last : s + n = i + j + 1 := by omega
                  refine Or.inl ⟨_, rfl, s, run.firstRun long, Detected.of_mixed (by omega) ?_, rfl⟩
                  rw [last, Nat.add_sub_cancel, limbOf]
                  exact mixed
              · next stillShort =>
                  refine ih (s := s) (j := j + 1) (by omega) (by omega) ⟨run, rfl, ?_⟩ (by omega)
                  rw [if_neg (by omega)]
      · next outOfBounds =>
          exact Or.inr ⟨scan, s, i + j, rfl, inv, short, Or.inr ⟨by omega, by omega⟩⟩

theorem scanLimbs_end {fuel i : Nat} (done : b.totalSize ≤ i) :
    scanLimbs b v n (fuel + 1) i scan = .ok (-1) := by
  rw [scanLimbs, if_neg (by omega)]

/-- A detected run has not ended before limb `i`, nor with a whole limb before it. -/
def Ahead (b : Bitmap) (v : Bool) (n i : Nat) : Prop :=
  ∀ q, FirstRun b v n q → Detected b v n q → i ≤ BITS_PER_LIMB * ((q + n - 1) / BITS_PER_LIMB + 1) ∧
    (b.limbs ((q + n - 1) / BITS_PER_LIMB) ≠ ~~~ emptyLimb v → i < q + n)

/-- Nothing is missed if the search ends. -/
theorem Ahead.none {i : Nat} (ahead : Ahead b v n i) (done : b.totalSize ≤ i) :
    ∀ q, FirstRun b v n q → ¬ Detected b v n q := by
  intro q first detected
  obtain ⟨limbEnd, ends⟩ := ahead q first detected
  by_cases limb : b.limbs ((q + n - 1) / BITS_PER_LIMB) = ~~~ emptyLimb v
  · have := detected.full limb
    omega
  · have := detected.mixed limb
    have := ends limb
    omega

/-- A limb in which the search does not return keeps all detected runs ahead. -/
theorem Ahead.step {i : Nat} (limb : i % BITS_PER_LIMB = 0)
    (pending : ∀ q, FirstRun b v n q → i < q + n)
    (rest : ∀ q, FirstRun b v n q → Detected b v n q →
      (q + n - 1) / BITS_PER_LIMB = i / BITS_PER_LIMB →
        b.limbs (i / BITS_PER_LIMB) ≠ ~~~ emptyLimb v → i + BITS_PER_LIMB < q + n) :
    Ahead b v n (i + BITS_PER_LIMB) := by
  intro q first detected
  have after := pending q first
  constructor
  · unfold BITS_PER_LIMB at *
    omega
  · intro mixed
    by_cases here : (q + n - 1) / BITS_PER_LIMB = i / BITS_PER_LIMB
    · exact rest q first detected here (here ▸ mixed)
    · unfold BITS_PER_LIMB at *
      omega

/-- The bits of the limb at `i`. -/
theorem test_emptyLimb {i : Nat} (limb : i % BITS_PER_LIMB = 0)
    (empty : b.limbs (i / BITS_PER_LIMB) = emptyLimb v) {j : Nat} (hj : j < BITS_PER_LIMB) :
    b.test (i + j) ≠ v := by
  refine test_of_emptyLimb ?_
  rw [show (i + j) / BITS_PER_LIMB = i / BITS_PER_LIMB by unfold BITS_PER_LIMB at *; omega, empty]

theorem test_fullLimb {i : Nat} (limb : i % BITS_PER_LIMB = 0)
    (full : b.limbs (i / BITS_PER_LIMB) = ~~~ emptyLimb v) {j : Nat} (hj : j < BITS_PER_LIMB) :
    b.test (i + j) = v := by
  refine test_of_fullLimb ?_
  rw [show (i + j) / BITS_PER_LIMB = i / BITS_PER_LIMB by unfold BITS_PER_LIMB at *; omega, full]

/-- No run ends in an empty limb. -/
theorem Ahead.passEmpty {i : Nat} (pos : 0 < n) (limb : i % BITS_PER_LIMB = 0)
    (pending : ∀ q, FirstRun b v n q → i < q + n)
    (empty : b.limbs (i / BITS_PER_LIMB) = emptyLimb v) : Ahead b v n (i + BITS_PER_LIMB) := by
  refine Ahead.step limb pending fun q first _ here _ => ?_
  have bit := first.bits (q + n - 1) (by omega) (by omega)
  exact absurd bit (test_of_emptyLimb (here ▸ empty))

/-- A whole limb of the other value ends the run that is under way. -/
theorem ScanInv.passEmpty {i : Nat} (inv : ScanInv b v n s i scan) (short : i - s < n)
    (limb : i % BITS_PER_LIMB = 0) (empty : b.limbs (i / BITS_PER_LIMB) = emptyLimb v) :
    ScanInv b v n (i + BITS_PER_LIMB) (i + BITS_PER_LIMB) ⟨0, -1⟩ :=
  ScanInv.reset (inv.run.mismatchLimb short (BITS_PER_LIMB - 1) fun _ hj =>
    test_emptyLimb limb empty hj)

/-- A whole limb of the value goes on with the run, or starts one; then its last bit is
recorded as the start. -/
theorem ScanInv.passFull {i : Nat} (inv : ScanInv b v n s i scan) (limb : i % BITS_PER_LIMB = 0)
    (full : b.limbs (i / BITS_PER_LIMB) = ~~~ emptyLimb v) (word : i + BITS_PER_LIMB < 2 ^ 32) :
    ScanInv b v n s (i + BITS_PER_LIMB) ⟨(scan.numContiguous + BITS_PER_LIMB) % 2 ^ 32,
      if scan.startIdx = -1 then toInt (i + (BITS_PER_LIMB - 1)) else scan.startIdx⟩ := by
  have le := inv.run.le
  have start := inv.record
    (fun started => by
      have := startOf_lt (b := b) (v := v) limb (Nat.lt_of_le_of_ne le started)
      omega)
    (x := i + (BITS_PER_LIMB - 1))
    fun fresh => by subst fresh; exact (if_pos ⟨limb, full⟩).symm
  refine ⟨inv.run.matchLimb BITS_PER_LIMB fun _ hj => test_fullLimb limb full hj, ?_, ?_⟩
  · rw [inv.count]
    dsimp only
    unfold BITS_PER_LIMB at *
    omega
  · refine start.trans (if_neg ?_).symm
    unfold BITS_PER_LIMB
    omega

/-- The outer loop reports the first run if it is detected and returns -1 otherwise. It
ends before the counter overflows, at the latest when it has found a run that is detected. -/
theorem scanLimbs_spec (pos : 0 < n) (word : b.totalSize < 2 ^ 32)
    (fits : b.totalSize ≤ 2 ^ 32 - BITS_PER_LIMB ∨ ∃ q, FirstRun b v n q ∧ Detected b v n q)
    {fuel i : Nat} (limb : i % BITS_PER_LIMB = 0) (bound : i < b.totalSize + BITS_PER_LIMB)
    (enough : b.totalSize + BITS_PER_LIMB ≤ i + BITS_PER_LIMB * fuel) (ahead : Ahead b v n i)
    (rest : i < b.totalSize → ∃ s, ScanInv b v n s i scan) :
    ∃ startIdx, scanLimbs b v n fuel i scan = .ok startIdx ∧
      (Reports b v n startIdx ∨
        startIdx = -1 ∧ ∀ q, FirstRun b v n q → ¬ Detected b v n q) := by
  induction fuel generalizing i scan with
  | zero => omega
  | succ fuel ih =>
      rcases Nat.lt_or_ge i b.totalSize with inBounds | outOfBounds
      · obtain ⟨s, inv⟩ := rest inBounds
        have le := inv.run.le
        rw [scanLimbs, if_pos inBounds]
        split
        · next long =>
            rw [inv.count] at long
            exact ⟨_, rfl, Or.inl ⟨s, inv.run.firstRun long,
              Detected.of_limb pos limb (by omega) inBounds, inv.startIdx (by omega)⟩⟩
        · next short =>
            rw [inv.count] at short
            have pending : ∀ q, FirstRun b v n q → i < q + n := fun q first =>
              inv.run.pending (by omega) first
            have limb' : (i + BITS_PER_LIMB) % BITS_PER_LIMB = 0 := by rw [Nat.add_mod_right, limb]
            have enough' : b.totalSize + BITS_PER_LIMB ≤ i + BITS_PER_LIMB + BITS_PER_LIMB * fuel := by
              unfold BITS_PER_LIMB at *
              omega
            -- the counter does not overflow
            have next : Ahead b v n (i + BITS_PER_LIMB) →
                (i + BITS_PER_LIMB) % 2 ^ 32 = i + BITS_PER_LIMB := by
              intro ahead'
              refine Nat.mod_eq_of_lt ?_
              rcases fits with fits | ⟨q, first, detected⟩
              · unfold BITS_PER_LIMB at *
                omega
              · by_contra overflow
                exact ahead'.none (by unfold BITS_PER_LIMB at *; omega) q first detected
            split
            · next empty =>
                have ahead' := Ahead.passEmpty pos limb pending empty
                rw [next ahead']
                exact ih limb' (by omega) enough' ahead' fun _ =>
                  ⟨_, inv.passEmpty (by omega) limb empty⟩
            · split
              · next full =>
                  have ahead' : Ahead b v n (i + BITS_PER_LIMB) :=
                    Ahead.step limb pending fun q _ _ _ mixed => absurd full mixed
                  dsimp only
                  rw [next ahead']
                  exact ih limb' (by omega) enough' ahead' fun inside =>
                    ⟨s, inv.passFull limb full (by omega)⟩
              · next mixed =>
                  rw [limb]
                  dsimp only
                  rw [Nat.sub_zero]
                  rcases scanBits_spec word limb mixed (Nat.add_zero _) (by omega) inv (by omega) with
                    ⟨startIdx, result, found⟩ | ⟨scan', s', p, result, inv', short', ends⟩
                  · rw [result]
                    exact ⟨startIdx, rfl, Or.inl found⟩
                  · have ahead' : Ahead b v n (i + BITS_PER_LIMB) := by
                      refine Ahead.step limb pending fun q first detected here _ => ?_
                      have inside := detected.mixed (here ▸ mixed)
                      have := inv'.run.pending short' first
                      omega
                    rw [result]
                    dsimp only
                    rw [next ahead']
                    refine ih limb' (by omega) enough' ahead' fun inside => ⟨s', ?_⟩
                    obtain rfl : p = i + BITS_PER_LIMB := by omega
                    exact inv'
      · exact ⟨-1, scanLimbs_end outOfBounds, Or.inr ⟨rfl, ahead.none outOfBounds⟩⟩

/-- `find_first_n` reports the first run if it is detected and returns -1 otherwise. -/
theorem findFirstN_reports (pos : 0 < n) (small : n < 2 ^ 32) (word : b.totalSize < 2 ^ 32)
    (fits : b.totalSize ≤ 2 ^ 32 - BITS_PER_LIMB ∨ ∃ q, FirstRun b v n q ∧ Detected b v n q) :
    ∃ startIdx, b.findFirstN v n = .ok startIdx ∧
      (Reports b v n startIdx ∨
        startIdx = -1 ∧ ∀ q, FirstRun b v n q → ¬ Detected b v n q) := by
  unfold findFirstN
  rw [Nat.mod_eq_of_lt small]
  refine scanLimbs_spec pos word fits rfl ?_ ?_ (fun q _ _ => ⟨Nat.zero_le _, fun _ => by omega⟩)
    fun _ => ⟨0, ScanInv.reset (Run.start b v pos)⟩
  · unfold BITS_PER_LIMB
    omega
  · unfold BITS_PER_LIMB
    omega

/-- What the search has found when it returns: the start reported for the first
run, which ends within the bits searched, and so does a whole limb at its start. -/
def Found (b : Bitmap) (v : Bool) (n : Nat) (startIdx : Int) : Prop :=
  ∃ s, FirstRun b v n s ∧ startIdx = startOf b v s ∧ s + n ≤ b.totalSize ∧
    (startOf b v s = s ∨ s + BITS_PER_LIMB ≤ b.totalSize)

/-- `find_first_n` returns -1 or what it reports for the first run. -/
theorem findFirstN_spec (pos : 0 < n) (word : n < 2 ^ 32) (small : b.totalSize < 2 ^ 31) :
    ∃ startIdx, b.findFirstN v n = .ok startIdx ∧ (startIdx = -1 ∨ Found b v n startIdx) := by
  obtain ⟨startIdx, result, ⟨s, first, detected, reported⟩ | ⟨minus, -⟩⟩ :=
    findFirstN_reports (b := b) (v := v) pos word (by omega)
      (Or.inl (by unfold BITS_PER_LIMB; omega))
  · have inside := detected.inside pos
    have start := detected.startOf_lt pos
    have le : startOf b v s ≤ s + (BITS_PER_LIMB - 1) := by
      unfold startOf
      split <;> omega
    refine ⟨startIdx, result, Or.inr ⟨s, first, ?_, inside, start⟩⟩
    rw [reported, toInt_of_lt]
    unfold BITS_PER_LIMB at *
    omega
  · exact ⟨startIdx, result, Or.inl minus⟩

/-- A run of no bits is not looked for. -/
theorem findFirstN_zero (b : Bitmap) (v : Bool) (zero : n % 2 ^ 32 = 0) :
    b.findFirstN v n = .ok (-1) := by
  unfold findFirstN
  rw [zero, show (2 ^ 32 : Nat) = 2 ^ 32 - 1 + 1 by decide, scanLimbs]
  split
  · rw [if_pos (Nat.zero_le _)]
  · rfl

end Runs

end Tyleros.Pma.Bitmap
