import Tyleros.Libc.Search

/-!
# Comparing strings

`strncmp` and `strcmp` of `libc/string.cpp` compare characters, and `char` is signed on this
target; `memcmp` compares bytes. `comparisons_agree_iff`: they order two sequences in the same
way exactly if the first bytes that differ lie in the same half of the byte range.
-/

namespace Tyleros.Libc

/-- The value of a `char`. -/
def charValue (c : UInt8) : Int := c.toBitVec.toInt

/-- The loop of `strncmp`, from character `i` on with `left` rounds left. -/
def strncmpLoop (str1 str2 : List UInt8) : Nat → Nat → Option Int
  | 0, _ => some 0
  | left + 1, i => do
    let x ← str1[i]?
    let y ← str2[i]?
    if x ≠ y then some (if charValue x < charValue y then -1 else 1)
    else if y = 0 ∧ x = 0 then some 0
    else strncmpLoop str1 str2 left (i + 1)

/-- `strncmp(str1, str2, n)`. -/
def strncmp (str1 str2 : List UInt8) (n : Nat) : Option Int := strncmpLoop str1 str2 n 0

def SIZE_MAX : Nat := 2 ^ 64 - 1

/-- `strcmp(str1, str2)`. -/
def strcmp (str1 str2 : List UInt8) : Option Int := strncmp str1 str2 SIZE_MAX

/-! ## The first difference -/

/-- The first place at which two sequences differ, and what stands there. -/
structure FirstDifference (a b : List UInt8) (k : Nat) (x y : UInt8) : Prop where
  left : a[k]? = some x
  right : b[k]? = some y
  differ : x ≠ y
  same : ∀ j < k, a[j]? = b[j]?

section Loops

variable {a b : List UInt8} {k i left n : Nat} {x y : UInt8}

theorem FirstDifference.lt_length (h : FirstDifference a b k x y) :
    k < a.length ∧ k < b.length :=
  ⟨(List.getElem?_eq_some_iff.mp h.left).1, (List.getElem?_eq_some_iff.mp h.right).1⟩

/-- There is only one first difference. -/
theorem FirstDifference.unique {k' : Nat} {x' y' : UInt8} (h : FirstDifference a b k x y)
    (h' : FirstDifference a b k' x' y') : k = k' ∧ x = x' ∧ y = y' := by
  have place : k = k' := by
    rcases Nat.lt_trichotomy k k' with before | same | behind
    · have agree := h'.same k before
      rw [h.left, h.right] at agree
      exact absurd (Option.some.inj agree) h.differ
    · exact same
    · have agree := h.same k' behind
      rw [h'.left, h'.right] at agree
      exact absurd (Option.some.inj agree) h'.differ
  subst place
  exact ⟨rfl, Option.some.inj (h.left.symm.trans h'.left),
    Option.some.inj (h.right.symm.trans h'.right)⟩

/-- Two sequences differ somewhere in their first `n` bytes, or not at all. -/
theorem firstDifference_or_same (inside : n ≤ a.length) (inside' : n ≤ b.length) :
    (∃ k x y, k < n ∧ FirstDifference a b k x y) ∨ ∀ j < n, a[j]? = b[j]? := by
  by_cases some_ : ∃ k, k < n ∧ a[k]? ≠ b[k]?
  · obtain ⟨before, differ⟩ := Nat.find_spec some_
    have read : a[Nat.find some_]? = some a[Nat.find some_] :=
      List.getElem?_eq_getElem (by omega)
    have read' : b[Nat.find some_]? = some b[Nat.find some_] :=
      List.getElem?_eq_getElem (by omega)
    refine Or.inl ⟨Nat.find some_, _, _, before, read, read', ?_, fun j hj => ?_⟩
    · intro same
      exact differ (read.trans ((congrArg some same).trans read'.symm))
    · by_contra other
      exact Nat.find_min some_ hj ⟨by omega, other⟩
  · refine Or.inr fun j hj => ?_
    by_contra other
    exact some_ ⟨j, hj, other⟩

theorem strncmpLoop_of_difference (h : FirstDifference a b k x y) (noNul : ∀ j < k, a[j]? ≠ some 0)
    (behind : i ≤ k) (enough : k < i + left) :
    strncmpLoop a b left i = some (if charValue x < charValue y then -1 else 1) := by
  induction left generalizing i with
  | zero => omega
  | succ left ih =>
      unfold strncmpLoop
      rcases Nat.eq_or_lt_of_le behind with rfl | before
      · rw [h.left, some_bind, h.right, some_bind, if_pos h.differ]
      · have inside := h.lt_length
        have read : a[i]? = some a[i] := List.getElem?_eq_getElem (by omega)
        have notNul : ¬ (a[i] = 0 ∧ a[i] = 0) :=
          fun zero => noNul i before (read.trans (congrArg some zero.1))
        rw [← h.same i before, read, some_bind, some_bind, if_neg (not_not_intro rfl),
          if_neg notNul]
        exact ih before (by omega)

theorem strncmpLoop_of_same (same : ∀ j < i + left, a[j]? = b[j]?)
    (inside : i + left ≤ a.length) : strncmpLoop a b left i = some 0 := by
  induction left generalizing i with
  | zero => rfl
  | succ left ih =>
      have read : a[i]? = some a[i] := List.getElem?_eq_getElem (by omega)
      unfold strncmpLoop
      rw [← same i (by omega), read, some_bind, some_bind, if_neg (not_not_intro rfl)]
      split
      · rfl
      · exact ih (fun j hj => same j (by omega)) (by omega)

theorem memcmpLoop_of_difference (h : FirstDifference a b k x y) (behind : i ≤ k)
    (enough : k < i + left) :
    memcmpLoop a 0 b 0 left i = some (if x < y then -1 else 1) := by
  induction left generalizing i with
  | zero => omega
  | succ left ih =>
      unfold memcmpLoop
      rw [Nat.zero_add]
      rcases Nat.eq_or_lt_of_le behind with rfl | before
      · rw [h.left, some_bind, h.right, some_bind]
        split
        · rfl
        · next notLess =>
            have greater : x > y := UInt8.lt_of_le_of_ne (UInt8.not_lt.mp notLess) h.differ.symm
            rw [if_pos greater]
      · have inside := h.lt_length
        have read : a[i]? = some a[i] := List.getElem?_eq_getElem (by omega)
        rw [← h.same i before, read, some_bind, some_bind, if_neg (UInt8.lt_irrefl _),
          if_neg (UInt8.lt_irrefl _)]
        exact ih before (by omega)

theorem memcmpLoop_of_same (same : ∀ j < i + left, a[j]? = b[j]?)
    (inside : i + left ≤ a.length) : memcmpLoop a 0 b 0 left i = some 0 := by
  induction left generalizing i with
  | zero => rfl
  | succ left ih =>
      have read : a[i]? = some a[i] := List.getElem?_eq_getElem (by omega)
      unfold memcmpLoop
      rw [Nat.zero_add, ← same i (by omega), read, some_bind, some_bind,
        if_neg (UInt8.lt_irrefl _), if_neg (UInt8.lt_irrefl _)]
      exact ih (fun j hj => same j (by omega)) (by omega)

end Loops

/-! ## Signed characters and bytes -/

/-- The bytes lie in the same half of the range. -/
def SameHalf (x y : UInt8) : Prop := x < 0x80 ↔ y < 0x80

theorem charValue_eq (c : UInt8) :
    charValue c = if c.toNat < 128 then (c.toNat : Int) else (c.toNat : Int) - 256 := by
  have bits : c.toBitVec.toNat = c.toNat := rfl
  unfold charValue
  rw [BitVec.toInt_eq_toNat_cond, bits]
  split
  · rw [if_pos (by omega)]
  · rw [if_neg (by omega)]
    rfl

/-- Different characters are ordered like their bytes exactly if these lie in the same half. -/
theorem charValue_lt_iff {x y : UInt8} (differ : x ≠ y) :
    (charValue x < charValue y ↔ x < y) ↔ SameHalf x y := by
  have notSame : x.toNat ≠ y.toNat := fun same => differ (UInt8.toNat_inj.mp same)
  have small := x.toNat_lt
  have small' := y.toNat_lt
  have half (c : UInt8) : c < 0x80 ↔ c.toNat < 128 := UInt8.lt_iff_toNat_lt
  unfold SameHalf
  rw [charValue_eq, charValue_eq, half, half, UInt8.lt_iff_toNat_lt]
  split <;> split <;> omega

/-- The first bytes that differ among the first `n` lie in the same half. -/
def SameHalves (a b : List UInt8) (n : Nat) : Prop :=
  ∀ k x y, k < n → FirstDifference a b k x y → SameHalf x y

theorem sameHalves_of_difference {a b : List UInt8} {n k : Nat} {x y : UInt8} (inside : k < n)
    (h : FirstDifference a b k x y) : SameHalves a b n ↔ SameHalf x y := by
  constructor
  · exact fun all => all k x y inside h
  · intro here k' x' y' inside' h'
    obtain ⟨-, rfl, rfl⟩ := h.unique h'
    exact here

theorem sameHalves_of_same {a b : List UInt8} {n : Nat} (same : ∀ j < n, a[j]? = b[j]?) :
    SameHalves a b n := by
  intro k x y inside h
  have agree := same k inside
  rw [h.left, h.right] at agree
  exact absurd (Option.some.inj agree) h.differ

/-! ## Sequences -/

/-- Both functions return, and their results have the same sign. -/
def SameSign (r r' : Option Int) : Prop := ∃ u v, r = some u ∧ r' = some v ∧ u.sign = v.sign

theorem sameSign_ite (P Q : Prop) [Decidable P] [Decidable Q] :
    SameSign (some (if P then -1 else 1)) (some (if Q then -1 else 1)) ↔ (P ↔ Q) := by
  unfold SameSign
  by_cases hP : P
  · by_cases hQ : Q
    · rw [if_pos hP, if_pos hQ]
      exact iff_of_true ⟨-1, -1, rfl, rfl, rfl⟩ (iff_of_true hP hQ)
    · rw [if_pos hP, if_neg hQ]
      refine iff_of_false ?_ fun same => hQ (same.mp hP)
      rintro ⟨u, v, hu, hv, sign⟩
      cases hu
      cases hv
      exact absurd sign (by decide)
  · by_cases hQ : Q
    · rw [if_neg hP, if_pos hQ]
      refine iff_of_false ?_ fun same => hP (same.mpr hQ)
      rintro ⟨u, v, hu, hv, sign⟩
      cases hu
      cases hv
      exact absurd sign (by decide)
    · rw [if_neg hP, if_neg hQ]
      exact iff_of_true ⟨1, 1, rfl, rfl, rfl⟩ (iff_of_false hP hQ)

theorem strncmp_memcmp_iff {a b : List UInt8} {n : Nat} (inside : n ≤ a.length)
    (inside' : n ≤ b.length) (noNul : 0 ∉ a.take n) :
    SameSign (strncmp a b n) (memcmp a 0 b 0 n) ↔ SameHalves a b n := by
  unfold strncmp memcmp
  rcases firstDifference_or_same inside inside' with ⟨k, x, y, before, h⟩ | same
  · have early (j : Nat) (hj : j < k) : a[j]? ≠ some 0 := by
      intro zero
      have taken : (a.take n)[j]? = some 0 := by
        rw [List.getElem?_take_of_lt (by omega), zero]
      exact noNul (List.mem_of_getElem? taken)
    rw [strncmpLoop_of_difference h early (Nat.zero_le k) (by omega),
      memcmpLoop_of_difference h (Nat.zero_le k) (by omega), sameSign_ite,
      charValue_lt_iff h.differ, sameHalves_of_difference before h]
  · have all : ∀ j < 0 + n, a[j]? = b[j]? := fun j hj => same j (by omega)
    rw [strncmpLoop_of_same all (by omega), memcmpLoop_of_same all (by omega)]
    exact iff_of_true ⟨0, 0, rfl, rfl, rfl⟩ (sameHalves_of_same same)

/-! ## Strings -/

/-- The result orders the strings lexicographically by their bytes. -/
def OrdersStrings (s t : CString) (r : Option Int) : Prop :=
  ∃ u, r = some u ∧ (u < 0 ↔ s.chars < t.chars) ∧ (0 < u ↔ t.chars < s.chars)

/-- Different strings differ before either ends, or where the shorter one ends; and the bytes
there order them. -/
theorem exists_stringDifference {l m : List UInt8} (noNul : 0 ∉ l) (noNul' : 0 ∉ m)
    (differ : l ≠ m) :
    ∃ k x y, k ≤ l.length ∧ k ≤ m.length ∧ FirstDifference (l ++ [0]) (m ++ [0]) k x y ∧
      (l < m ↔ x < y) ∧ (m < l ↔ y < x) := by
  induction l generalizing m with
  | nil =>
      cases m with
      | nil => exact absurd rfl differ
      | cons y m =>
          have notNul : y ≠ 0 := fun zero => noNul' (zero ▸ List.mem_cons_self)
          have positive : 0 < y := UInt8.pos_iff_ne_zero.mpr notNul
          refine ⟨0, 0, y, Nat.le_refl 0, Nat.zero_le _, ⟨rfl, rfl, notNul.symm, ?_⟩, ?_, ?_⟩
          · exact fun j hj => absurd hj (Nat.not_lt_zero j)
          · exact iff_of_true (List.nil_lt_cons y m) positive
          · exact iff_of_false (List.not_lt_nil _) (UInt8.not_lt.mpr (UInt8.le_of_lt positive))
  | cons x l ih =>
      cases m with
      | nil =>
          have notNul : x ≠ 0 := fun zero => noNul (zero ▸ List.mem_cons_self)
          have positive : 0 < x := UInt8.pos_iff_ne_zero.mpr notNul
          refine ⟨0, x, 0, Nat.zero_le _, Nat.le_refl 0, ⟨rfl, rfl, notNul, ?_⟩, ?_, ?_⟩
          · exact fun j hj => absurd hj (Nat.not_lt_zero j)
          · exact iff_of_false (List.not_lt_nil _) (UInt8.not_lt.mpr (UInt8.le_of_lt positive))
          · exact iff_of_true (List.nil_lt_cons x l) positive
      | cons y m =>
          by_cases same : x = y
          · subst same
            have differ' : l ≠ m := fun equal => differ (congrArg (x :: ·) equal)
            obtain ⟨k, u, v, hk, hk', h, less, greater⟩ := ih
              (fun mem => noNul (List.mem_cons_of_mem _ mem))
              (fun mem => noNul' (List.mem_cons_of_mem _ mem)) differ'
            refine ⟨k + 1, u, v, Nat.succ_le_succ hk, Nat.succ_le_succ hk',
              ⟨h.left, h.right, h.differ, fun j hj => ?_⟩, ?_, ?_⟩
            · cases j with
              | zero => rfl
              | succ j => exact h.same j (Nat.lt_of_succ_lt_succ hj)
            · rw [List.cons_lt_cons_iff, ← less]
              exact ⟨fun h => h.resolve_left (UInt8.lt_irrefl x) |>.2, fun h => Or.inr ⟨rfl, h⟩⟩
            · rw [List.cons_lt_cons_iff, ← greater]
              exact ⟨fun h => h.resolve_left (UInt8.lt_irrefl x) |>.2, fun h => Or.inr ⟨rfl, h⟩⟩
          · refine ⟨0, x, y, Nat.zero_le _, Nat.zero_le _, ⟨rfl, rfl, same, ?_⟩, ?_, ?_⟩
            · exact fun j hj => absurd hj (Nat.not_lt_zero j)
            · rw [List.cons_lt_cons_iff]
              exact ⟨fun h => h.resolve_right fun equal => same equal.1, Or.inl⟩
            · rw [List.cons_lt_cons_iff]
              exact ⟨fun h => h.resolve_right fun equal => same equal.1.symm, Or.inl⟩

section Strings

variable {s t : CString} {k : Nat} {x y : UInt8}

/-- A result that is never zero, for strings that differ. -/
theorem ordersStrings_ite (differ : x ≠ y) (less : s.chars < t.chars ↔ x < y)
    (greater : t.chars < s.chars ↔ y < x) (P : Prop) [Decidable P] :
    OrdersStrings s t (some (if P then -1 else 1)) ↔ (P ↔ x < y) := by
  have other : y < x ↔ ¬ x < y := by
    constructor
    · exact UInt8.lt_asymm
    · exact fun notLess => UInt8.lt_of_le_of_ne (UInt8.not_lt.mp notLess) differ.symm
  unfold OrdersStrings
  rw [less, greater, other]
  by_cases hP : P
  · rw [if_pos hP, iff_true_left hP]
    constructor
    · rintro ⟨u, hu, negative, -⟩
      cases hu
      exact negative.mp (by decide)
    · intro holds
      exact ⟨-1, rfl, iff_of_true (by decide) holds, iff_of_false (by decide) (not_not_intro holds)⟩
  · rw [if_neg hP, iff_false_left hP]
    constructor
    · rintro ⟨u, hu, -, positive⟩
      cases hu
      exact positive.mp (by decide)
    · intro fails
      exact ⟨1, rfl, iff_of_false (by decide) fails, iff_of_true (by decide) fails⟩

/-- The result for equal strings. -/
theorem ordersStrings_zero (same : s.chars = t.chars) : OrdersStrings s t (some 0) := by
  have irrefl : ¬ t.chars < t.chars := List.lt_irrefl t.chars
  refine ⟨0, rfl, ?_, ?_⟩
  · rw [same]
    exact iff_of_false (by decide) irrefl
  · rw [same]
    exact iff_of_false (by decide) irrefl

theorem bytes_eq (same : s.chars = t.chars) : s.bytes = t.bytes := by
  unfold CString.bytes
  rw [same]

/-- Up to its terminator a string is equal to itself. -/
theorem strncmpLoop_self (s : CString) {left i : Nat} (inside : i ≤ s.chars.length) :
    strncmpLoop s.bytes s.bytes left i = some 0 := by
  induction left generalizing i with
  | zero => rfl
  | succ left ih =>
      unfold strncmpLoop
      rcases Nat.eq_or_lt_of_le inside with rfl | before
      · rw [s.getElem?_bytes_length, some_bind, some_bind, if_neg (not_not_intro rfl),
          if_pos ⟨rfl, rfl⟩]
      · rw [CString.getElem?_bytes_of_lt before, some_bind, some_bind,
          if_neg (not_not_intro rfl), if_neg (fun zero => CString.getElem_ne_zero before zero.1)]
        exact ih before

/-- `memcmp` up to the terminator of the shorter string. -/
theorem memcmp_orders (s t : CString) :
    OrdersStrings s t
      (memcmp s.bytes 0 t.bytes 0 (min s.chars.length t.chars.length + 1)) := by
  have inside : min s.chars.length t.chars.length + 1 ≤ s.bytes.length := by
    rw [s.length_bytes]
    omega
  unfold memcmp
  by_cases same : s.chars = t.chars
  · rw [memcmpLoop_of_same (fun j _ => by rw [bytes_eq same]) (by omega)]
    exact ordersStrings_zero same
  · obtain ⟨k, x, y, hk, hk', h, less, greater⟩ := exists_stringDifference s.noNul t.noNul same
    have difference : FirstDifference s.bytes t.bytes k x y := h
    rw [memcmpLoop_of_difference difference (Nat.zero_le k) (by omega)]
    exact (ordersStrings_ite h.differ less greater _).mpr Iff.rfl

/-- `strcmp` orders two strings of which one at least has a length below `SIZE_MAX`. -/
theorem strcmp_orders_iff (s t : CString) (fits : min s.chars.length t.chars.length < SIZE_MAX) :
    OrdersStrings s t (strcmp s.bytes t.bytes) ↔
      SameHalves s.bytes t.bytes (min s.chars.length t.chars.length + 1) := by
  unfold strcmp strncmp
  by_cases same : s.chars = t.chars
  · rw [bytes_eq same, strncmpLoop_self t (Nat.zero_le _)]
    exact iff_of_true (ordersStrings_zero same) (sameHalves_of_same fun j _ => rfl)
  · obtain ⟨k, x, y, hk, hk', h, less, greater⟩ := exists_stringDifference s.noNul t.noNul same
    have difference : FirstDifference s.bytes t.bytes k x y := h
    have noNul (j : Nat) (hj : j < k) : s.bytes[j]? ≠ some 0 := by
      have inside : j < s.chars.length := by omega
      rw [CString.getElem?_bytes_of_lt inside]
      exact fun zero => CString.getElem_ne_zero inside (Option.some.inj zero)
    rw [strncmpLoop_of_difference difference noNul (Nat.zero_le k) (by omega),
      ordersStrings_ite h.differ less greater, charValue_lt_iff h.differ,
      sameHalves_of_difference (by omega) difference]

/-! ### Strings in a buffer -/

variable {buffer rest : List UInt8}

/-- Up to a terminator that both have, two objects compare as equal. -/
theorem strncmpLoop_of_terminated {a b : List UInt8} {left i k : Nat}
    (same : ∀ j ≤ k, a[j]? = b[j]?) (terminator : a[k]? = some 0) (inside : i ≤ k) :
    strncmpLoop a b left i = some 0 := by
  have short := (List.getElem?_eq_some_iff.mp terminator).1
  induction left generalizing i with
  | zero => rfl
  | succ left ih =>
      have read : a[i]? = some a[i] := List.getElem?_eq_getElem (by omega)
      unfold strncmpLoop
      rw [← same i inside, read, some_bind, some_bind, if_neg (not_not_intro rfl)]
      rcases Nat.eq_or_lt_of_le inside with rfl | before
      · have zero : a[i] = 0 := Option.some.inj (read.symm.trans terminator)
        rw [if_pos ⟨zero, zero⟩]
      · split
        · rfl
        · exact ih before

/-- Where a string in a buffer differs from another one. -/
theorem firstDifference_buffer (holds : buffer = s.bytes ++ rest) (differ : s.chars ≠ t.chars) :
    ∃ k x y, k ≤ s.chars.length ∧ k ≤ t.chars.length ∧ FirstDifference buffer t.bytes k x y ∧
      ∀ j < k, buffer[j]? ≠ some 0 := by
  obtain ⟨k, x, y, hk, hk', h, -, -⟩ := exists_stringDifference s.noNul t.noNul differ
  have read (j : Nat) (hj : j ≤ k) : buffer[j]? = s.bytes[j]? := by
    rw [holds, List.getElem?_append_left (by rw [s.length_bytes]; omega)]
  refine ⟨k, x, y, hk, hk', ⟨(read k (Nat.le_refl k)).trans h.left, h.right, h.differ, ?_⟩, ?_⟩
  · intro j hj
    exact (read j (Nat.le_of_lt hj)).trans (h.same j hj)
  · intro j hj
    have inside : j < s.chars.length := by omega
    rw [read j (Nat.le_of_lt hj), CString.getElem?_bytes_of_lt inside]
    exact fun zero => CString.getElem_ne_zero inside (Option.some.inj zero)

theorem ite_sign_ne_zero (P : Prop) [Decidable P] : (if P then -1 else 1 : Int) ≠ 0 := by
  split <;> decide

/-- `strcmp` tells whether the string in a buffer is another one, whatever stands behind it. -/
theorem strcmp_buffer (holds : buffer = s.bytes ++ rest)
    (fits : min s.chars.length t.chars.length < SIZE_MAX) :
    ∃ r, strcmp buffer t.bytes = some r ∧ (r = 0 ↔ s.chars = t.chars) := by
  unfold strcmp strncmp
  by_cases same : s.chars = t.chars
  · refine ⟨0, strncmpLoop_of_terminated (k := s.chars.length) (fun j hj => ?_) ?_ (Nat.zero_le _),
      iff_of_true rfl same⟩
    · rw [holds, List.getElem?_append_left (by rw [s.length_bytes]; omega), bytes_eq same]
    · rw [holds, List.getElem?_append_left (by rw [s.length_bytes]; omega),
        s.getElem?_bytes_length]
  · obtain ⟨k, x, y, hk, hk', difference, noNul⟩ := firstDifference_buffer holds same
    exact ⟨_, strncmpLoop_of_difference difference noNul (Nat.zero_le k) (by omega),
      iff_of_false (ite_sign_ne_zero _) same⟩

/-- `strncmp` tells whether the string in a buffer begins with another one. -/
theorem strncmp_buffer (holds : buffer = s.bytes ++ rest) :
    ∃ r, strncmp buffer t.bytes t.chars.length = some r ∧ (r = 0 ↔ t.chars <+: s.chars) := by
  unfold strncmp
  by_cases front : t.chars <+: s.chars
  · have short := front.length_le
    refine ⟨0, strncmpLoop_of_same (fun j hj => ?_) ?_, iff_of_true rfl front⟩
    · have inside : j < t.chars.length := by omega
      rw [holds, List.getElem?_append_left (by rw [s.length_bytes]; omega),
        CString.getElem?_bytes_of_lt (by omega), CString.getElem?_bytes_of_lt inside,
        front.getElem inside]
    · rw [holds, List.length_append, s.length_bytes]
      omega
  · have differ : s.chars ≠ t.chars := fun same => front (same ▸ List.prefix_refl _)
    obtain ⟨k, x, y, hk, hk', difference, noNul⟩ := firstDifference_buffer holds differ
    have before : k < t.chars.length := by
      rcases Nat.eq_or_lt_of_le hk' with rfl | before
      · -- all of `t` is in front of the difference
        refine absurd (List.prefix_iff_getElem.mpr ⟨hk, fun j hj => ?_⟩) front
        have read := difference.same j hj
        rw [holds, List.getElem?_append_left (by rw [s.length_bytes]; omega),
          CString.getElem?_bytes_of_lt (by omega), CString.getElem?_bytes_of_lt hj] at read
        exact (Option.some.inj read).symm
      · exact before
    exact ⟨_, strncmpLoop_of_difference difference noNul (Nat.zero_le k) (by omega),
      iff_of_false (ite_sign_ne_zero _) front⟩

end Strings

/-- On sequences without a NUL `strncmp` has the sign of `memcmp`, and on strings `strcmp` orders
lexicographically by unsigned bytes as `memcmp` does, if and only if the first bytes that differ
lie in the same half of the byte range. -/
theorem comparisons_agree_iff {a b : List UInt8} {n : Nat} (inside : n ≤ a.length)
    (inside' : n ≤ b.length) (noNul : 0 ∉ a.take n ∧ 0 ∉ b.take n) (s t : CString) :
    (SameSign (strncmp a b n) (memcmp a 0 b 0 n) ↔ SameHalves a b n) ∧
      OrdersStrings s t (memcmp s.bytes 0 t.bytes 0 (min s.chars.length t.chars.length + 1)) ∧
      (min s.chars.length t.chars.length < SIZE_MAX →
        (OrdersStrings s t (strcmp s.bytes t.bytes) ↔
          SameHalves s.bytes t.bytes (min s.chars.length t.chars.length + 1))) := by
  have sequences := strncmp_memcmp_iff inside inside' noNul.1
  exact ⟨sequences, memcmp_orders s t, strcmp_orders_iff s t⟩

/-- `"ab"` and `"ac"`. -/
theorem comparisons_agree_ascii :
    SameSign (strncmp [0x61, 0x62] [0x61, 0x63] 2) (memcmp [0x61, 0x62] 0 [0x61, 0x63] 0 2) ∧
      OrdersStrings ⟨[0x61, 0x62], by decide⟩ ⟨[0x61, 0x63], by decide⟩
        (strcmp [0x61, 0x62, 0] [0x61, 0x63, 0]) := by
  have difference (a b : List UInt8) : FirstDifference (0x61 :: 0x62 :: a) (0x61 :: 0x63 :: b) 1
      0x62 0x63 := by
    refine ⟨rfl, rfl, by decide, fun j hj => ?_⟩
    have first : j = 0 := by omega
    rw [first]
    rfl
  have ascii : SameHalf 0x62 0x63 := iff_of_true (by decide) (by decide)
  obtain ⟨sequences, -, strings⟩ := comparisons_agree_iff (show 2 ≤ [0x61, 0x62].length by decide)
    (show 2 ≤ [0x61, 0x63].length by decide) (by decide) ⟨[0x61, 0x62], by decide⟩
    ⟨[0x61, 0x63], by decide⟩
  constructor
  · exact sequences.mpr ((sameHalves_of_difference (by decide) (difference [] [])).mpr ascii)
  · exact (strings (by decide)).mpr
      ((sameHalves_of_difference (by decide) (difference [0] [0])).mpr ascii)

/-- `"é"` in Latin-1 comes before `"e"` for `strncmp` and `strcmp`, and behind it for
`memcmp`. -/
theorem comparisons_disagree :
    ¬ SameSign (strncmp [0xE9] [0x65] 1) (memcmp [0xE9] 0 [0x65] 0 1) ∧
      ¬ OrdersStrings ⟨[0xE9], by decide⟩ ⟨[0x65], by decide⟩ (strcmp [0xE9, 0] [0x65, 0]) := by
  have first : strncmp [0xE9] [0x65] 1 = some (-1) := by decide
  have second : memcmp [0xE9] 0 [0x65] 0 1 = some 1 := by decide
  have order : strcmp [0xE9, 0] [0x65, 0] = some (-1) := by
    obtain ⟨n, hn⟩ : ∃ n, SIZE_MAX = n + 1 := ⟨2 ^ 64 - 2, rfl⟩
    unfold strcmp
    rw [hn]
    rfl
  constructor
  · rw [first, second]
    rintro ⟨u, v, hu, hv, sign⟩
    cases hu
    cases hv
    exact absurd sign (by decide)
  · rw [order]
    rintro ⟨u, hu, negative, -⟩
    cases hu
    exact absurd (negative.mp (by decide)) (by decide)

end Tyleros.Libc
