import Tyleros.Pma.FindFirst

/-!
# What `find_first_n` finds

`size()` is the size of the limbs in bytes, and `find_first_n` searches that many bits. It
records the last bit of a whole limb as the start of a run, and it does not look at the count
after the last limb. `findsFirstN_iff` says for which bitmaps the result is the least run
nevertheless.
-/

namespace Tyleros.Pma.Bitmap

/-- `n` bits in a row with value `v` start at `s`. -/
structure IsRun (b : Bitmap) (v : Bool) (n s : Nat) : Prop where
  inside : s + n ≤ BITS_PER_LIMB * b.numLimbs
  bits : ∀ k, s ≤ k → k < s + n → b.test k = v

/-- The least start of such a run. -/
structure LeastRun (b : Bitmap) (v : Bool) (n s : Nat) : Prop where
  isRun : IsRun b v n s
  least : ∀ s', s' < s → ¬ IsRun b v n s'

/-- `find_first_n(v, n)` returns the least start of a run, and -1 exactly if there is none. -/
structure FindsFirstN (b : Bitmap) (v : Bool) (n : Nat) : Prop where
  least : ∀ s, LeastRun b v n s → b.findFirstN v n = .ok s
  missing : b.findFirstN v n = .ok (-1) ↔ ¬ ∃ s, IsRun b v n s

/-- The least run is reported: its start fits in an `int`, it does not start with a whole
limb, and its end is detected. -/
structure Reported (b : Bitmap) (v : Bool) (n s : Nat) : Prop where
  fits : s < 2 ^ 31
  start : ¬ (s % BITS_PER_LIMB = 0 ∧ b.limbs (s / BITS_PER_LIMB) = ~~~ emptyLimb v)
  detected : Detected b v n s

/-- The condition: the least run, if there is one, is reported. With a counter that
overflows there must be one, because the search does not end otherwise. -/
structure ReportsLeast (b : Bitmap) (v : Bool) (n : Nat) : Prop where
  run : ∀ s, LeastRun b v n s → Reported b v n s
  ends : b.totalSize ≤ 2 ^ 32 - BITS_PER_LIMB ∨ ∃ s, IsRun b v n s

section Runs

variable {b : Bitmap} {v : Bool} {n s : Nat}

theorem LeastRun.firstRun (run : LeastRun b v n s) : FirstRun b v n s := by
  refine ⟨run.isRun.bits, fun s' before => ?_⟩
  by_contra none_
  refine run.least s' before ⟨?_, fun k le lt => ?_⟩
  · have := run.isRun.inside
    omega
  · by_contra other
    exact none_ ⟨k, le, lt, other⟩

theorem FirstRun.leastRun (first : FirstRun b v n s) (inside : s + n ≤ BITS_PER_LIMB * b.numLimbs) :
    LeastRun b v n s := by
  refine ⟨⟨inside, first.bits⟩, fun s' before run => ?_⟩
  obtain ⟨k, le, lt, other⟩ := first.least s' before
  exact other (run.bits k le lt)

theorem IsRun.exists_least (run : IsRun b v n s) : ∃ q, LeastRun b v n q :=
  have exists_ : ∃ q, IsRun b v n q := ⟨s, run⟩
  have : DecidablePred (IsRun b v n) := Classical.decPred _
  ⟨Nat.find exists_, Nat.find_spec exists_, fun _ before => Nat.find_min exists_ before⟩

theorem startOf_eq_iff : startOf b v s = s ↔
    ¬ (s % BITS_PER_LIMB = 0 ∧ b.limbs (s / BITS_PER_LIMB) = ~~~ emptyLimb v) := by
  unfold startOf BITS_PER_LIMB
  split
  · next whole => exact iff_of_false (by omega) (not_not.mpr whole)
  · next other => exact iff_of_true rfl other

theorem toInt_startOf_iff (bound : startOf b v s < 2 ^ 32) :
    toInt (startOf b v s) = s ↔ s < 2 ^ 31 ∧
      ¬ (s % BITS_PER_LIMB = 0 ∧ b.limbs (s / BITS_PER_LIMB) = ~~~ emptyLimb v) := by
  rw [toInt_eq_iff, Nat.mod_eq_of_lt bound, startOf_eq_iff]
  exact and_comm

/-- The searched bits are bits of the bitmap. -/
theorem ofPattern_totalSize (numBits : UInt64) (pattern : Nat → BitVec 64) :
    (ofPattern numBits pattern).totalSize < 2 ^ 32 ∧
      (ofPattern numBits pattern).totalSize ≤
        BITS_PER_LIMB * (ofPattern numBits pattern).numLimbs := by
  unfold ofPattern make BITS_PER_LIMB
  dsimp only
  omega

theorem startOf_word (pos : 0 < n) (word : b.totalSize < 2 ^ 32) (detected : Detected b v n s) :
    startOf b v s < 2 ^ 32 := by
  have inside := detected.inside pos
  rcases detected.startOf_lt pos with same | limb
  · omega
  · unfold startOf
    split
    · unfold BITS_PER_LIMB at *
      omega
    · omega

/-- If the least run is reported, the result is right. -/
theorem ReportsLeast.finds (reports : ReportsLeast b v n) (pos : 0 < n) (small : n < 2 ^ 32)
    (word : b.totalSize < 2 ^ 32) (size : b.totalSize ≤ BITS_PER_LIMB * b.numLimbs) :
    FindsFirstN b v n := by
  have found : ∀ s, LeastRun b v n s → b.findFirstN v n = .ok s := by
    intro s run
    have reported := reports.run s run
    have result := toInt_startOf_iff (startOf_word pos word reported.detected) |>.mpr
      ⟨reported.fits, reported.start⟩
    obtain ⟨startIdx, search, ⟨q, first, -, start⟩ | ⟨-, none_⟩⟩ :=
      findFirstN_reports pos small word (Or.inr ⟨s, run.firstRun, reported.detected⟩)
    · rw [search, start, first.unique run.firstRun, result]
    · exact absurd reported.detected (none_ s run.firstRun)
  refine ⟨found, ?_, fun missing => ?_⟩
  · rintro minus ⟨s, run⟩
    obtain ⟨q, least⟩ := run.exists_least
    have := Except.ok.inj ((found q least).symm.trans minus)
    omega
  · obtain ⟨startIdx, search, ⟨q, first, detected, -⟩ | ⟨minus, -⟩⟩ :=
      findFirstN_reports (b := b) (v := v) pos small word
        (Or.inl (reports.ends.resolve_right missing))
    · have inside := detected.inside pos
      exact absurd ⟨q, (first.leastRun (by omega)).isRun⟩ missing
    · rw [search, minus]

/-- Without an overflow of the counter the condition is necessary. -/
theorem FindsFirstN.reports (finds : FindsFirstN b v n) (pos : 0 < n) (small : n < 2 ^ 32)
    (word : b.totalSize < 2 ^ 32) (fits : b.totalSize ≤ 2 ^ 32 - BITS_PER_LIMB) :
    ReportsLeast b v n := by
  refine ⟨fun s run => ?_, Or.inl fits⟩
  have result := finds.least s run
  obtain ⟨startIdx, search, ⟨q, first, detected, start⟩ | ⟨minus, -⟩⟩ :=
    findFirstN_reports (b := b) (v := v) pos small word (Or.inl fits)
  · obtain rfl := first.unique run.firstRun
    rw [search, start] at result
    have exact_ := (toInt_startOf_iff (startOf_word pos word detected)).mp (Except.ok.inj result)
    exact ⟨exact_.1, exact_.2, detected⟩
  · rw [search, minus] at result
    have := Except.ok.inj result
    omega

end Runs

/-- `find_first_n` is right if the least run is reported, and only then unless the counter
of the limbs overflows. -/
theorem findsFirstN_iff (numBits : UInt64) (pattern : Nat → BitVec 64) (v : Bool) (n : UInt32)
    (pos : n ≠ 0) :
    (ReportsLeast (ofPattern numBits pattern) v n.toNat →
        FindsFirstN (ofPattern numBits pattern) v n.toNat) ∧
      ((ofPattern numBits pattern).totalSize ≤ 2 ^ 32 - BITS_PER_LIMB →
        FindsFirstN (ofPattern numBits pattern) v n.toNat →
          ReportsLeast (ofPattern numBits pattern) v n.toNat) := by
  have pos : 0 < n.toNat := Nat.pos_of_ne_zero fun zero => pos (UInt32.toNat_inj.mp zero)
  have small : n.toNat < 2 ^ 32 := n.toNat_lt
  obtain ⟨word, size⟩ := ofPattern_totalSize numBits pattern
  exact ⟨fun reports => reports.finds pos small word size, fun fits finds =>
    finds.reports pos small word fits⟩

/-- With bit 0 in use, two free bits are found behind it. -/
theorem findsFirstN_behind_first : FindsFirstN (ofPattern 64 fun _ => 1#64) false 2 := by
  refine (findsFirstN_iff 64 (fun _ => 1#64) false 2 (by decide)).1 ⟨fun s run => ?_, Or.inl (by decide)⟩
  have le : s ≤ 1 := by
    by_contra more
    refine run.least 1 (by omega) ⟨by decide, fun k le lt => ?_⟩
    obtain rfl | rfl : k = 1 ∨ k = 2 := by
      change k < 1 + 2 at lt
      omega
    · decide
    · decide
  have used : s ≠ 0 := by
    rintro rfl
    exact absurd (run.isRun.bits 0 (Nat.le_refl 0) (by decide)) (by decide)
  obtain rfl : s = 1 := by omega
  exact ⟨by decide, by decide, by unfold Detected; decide⟩

/-- In a bitmap of 576 free bits the first one is reported as 63; of 512 free bits, and of
the 56 free bits behind the first 8 bits in use, none is found. -/
theorem findFirstN_misses :
    ¬ FindsFirstN (ofPattern 576 fun _ => 0#64) false 1 ∧
      ¬ FindsFirstN (ofPattern 512 fun _ => 0#64) false 1 ∧
        ¬ FindsFirstN (ofPattern 64 fun _ => 0xFF#64) false 1 := by
  refine ⟨fun finds => ?_, fun finds => ?_, fun finds => ?_⟩
  · have result := finds.least 0 ⟨⟨by decide, fun k _ lt => ?_⟩, fun s' lt => by omega⟩
    · exact absurd result (by decide +kernel)
    · obtain rfl : k = 0 := by omega
      decide
  · refine finds.missing.mp (by decide +kernel) ⟨0, by decide, fun k _ lt => ?_⟩
    obtain rfl : k = 0 := by omega
    decide
  · refine finds.missing.mp (by decide +kernel) ⟨8, by decide, fun k _ lt => ?_⟩
    obtain rfl : k = 8 := by omega
    decide

end Tyleros.Pma.Bitmap
