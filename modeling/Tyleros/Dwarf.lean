import Tyleros.Basic

/-!
# LEB128 numbers

`kernel/dwarf.cpp`: `decode_leb128` reads a number in groups of seven bits, the lowest group
first; a set top bit says that another byte follows.

The decoder stops where it should (`decodeLeb128_eq_none_iff`), but it sets the length to the
index of the last byte, shifts the groups by eight bits, and widens a `char`, which is signed,
before it clears the top bit. `decodeLeb128_wrong` says what remains: the value of a number
of one byte.
-/

namespace Tyleros.Dwarf

/-- `((uint64_t)input & ~0x80) << (8 * i)`. -/
def group (input : UInt8) (i : Nat) : BitVec 64 :=
  (input.toBitVec.signExtend 64 &&& ~~~ 0x80#64) <<< (8 * i)

/-- The loop of `decode_leb128` with `left` bytes left to try: the value, and what `*len` is
set to. -/
def decodeLoop (data : Nat → UInt8) : Nat → Nat → BitVec 64 → Option (BitVec 64 × BitVec 32)
  | 0, _, _ => none
  | left + 1, i, result =>
    let result := result ||| group (data i) i
    if data i &&& 0x80 = 0 then some (result, BitVec.ofNat 32 i)
    else decodeLoop data left (i + 1) result

/-- `decode_leb128`. -/
def decodeLeb128 (data : Nat → UInt8) : Option (BitVec 64 × BitVec 32) := decodeLoop data 8 0 0#64

/-! ## The encoding -/

/-- A byte that is not the last one of an encoding. -/
def Continues (b : UInt8) : Prop := b &&& 0x80 ≠ 0

instance (b : UInt8) : Decidable (Continues b) := inferInstanceAs (Decidable (_ ≠ _))

/-- The unsigned LEB128 encoding of a number. -/
def encode (v : Nat) : List UInt8 :=
  if v < 128 then [UInt8.ofNat v] else UInt8.ofNat (v % 128 + 128) :: encode (v / 128)

/-- `bytes` lies at the start of `data`. -/
def Starts (data : Nat → UInt8) (bytes : List UInt8) : Prop :=
  ∀ i b, bytes[i]? = some b → data i = b

/-- The decoder returns the number and the length of its encoding. -/
def Decodes (data : Nat → UInt8) (v : Nat) : Prop :=
  decodeLeb128 data = some (BitVec.ofNat 64 v, BitVec.ofNat 32 (encode v).length)

theorem continues_iff : ∀ b : UInt8, Continues b ↔ 128 ≤ b.toNat :=
  forall_byte (by decide +kernel)

theorem encode_small {v : Nat} (small : v < 128) : encode v = [UInt8.ofNat v] := by
  rw [encode, if_pos small]

theorem encode_large {v : Nat} (large : 128 ≤ v) :
    encode v = UInt8.ofNat (v % 128 + 128) :: encode (v / 128) := by
  rw [encode, if_neg (by omega)]

/-- Every byte of an encoding continues, except for the last one. -/
theorem encode_shape (v : Nat) : ∃ front last, encode v = front ++ [last] ∧
    (∀ b ∈ front, Continues b) ∧ ¬ Continues last ∧ (front = [] ↔ v < 128) := by
  induction v using encode.induct with
  | case1 v small =>
      refine ⟨[], UInt8.ofNat v, encode_small small, by simp, ?_, by simp [small]⟩
      rw [continues_iff, UInt8.toNat_ofNat']
      omega
  | case2 v large ih =>
      obtain ⟨front, last, shape, continue_, ends, -⟩ := ih
      refine ⟨UInt8.ofNat (v % 128 + 128) :: front, last, ?_, ?_, ends, by simpa using large⟩
      · rw [encode_large (by omega), shape]
        rfl
      · intro b mem
        rcases List.mem_cons.mp mem with rfl | rest
        · rw [continues_iff, UInt8.toNat_ofNat']
          omega
        · exact continue_ b rest

/-- A number below `2 ^ (7 * n)` takes at most `n` bytes. -/
theorem length_encode_le (v n : Nat) (fits : v < 128 ^ n) (positive : 0 < n) :
    (encode v).length ≤ n := by
  induction n generalizing v with
  | zero => omega
  | succ n ih =>
      rcases Nat.lt_or_ge v 128 with small | large
      · rw [encode_small small, List.length_singleton]
        omega
      · have below : v / 128 < 128 ^ n := by
          rw [Nat.pow_succ] at fits
          omega
        have more : 0 < n := by
          rcases n with _ | n
          · omega
          · omega
        rw [encode_large large, List.length_cons]
        have rest := ih (v / 128) below more
        omega

/-! ## The loop -/

section Loop

variable {data : Nat → UInt8}

theorem decodeLoop_last (left : Nat) {i : Nat} (result : BitVec 64) (ends : ¬ Continues (data i)) :
    decodeLoop data (left + 1) i result =
      some (result ||| group (data i) i, BitVec.ofNat 32 i) := by
  unfold decodeLoop
  exact if_pos (not_not.mp ends)

theorem decodeLoop_more (left : Nat) {i : Nat} (result : BitVec 64) (more : Continues (data i)) :
    decodeLoop data (left + 1) i result =
      decodeLoop data left (i + 1) (result ||| group (data i) i) := by
  rw [decodeLoop]
  exact if_neg more

theorem decodeLoop_eq_none_iff (left i : Nat) (result : BitVec 64) :
    decodeLoop data left i result = none ↔ ∀ j < left, Continues (data (i + j)) := by
  induction left generalizing i result with
  | zero => simp [decodeLoop]
  | succ left ih =>
      by_cases more : Continues (data i)
      · rw [decodeLoop_more left result more, ih]
        constructor
        · rintro rest (_ | j) below
          · exact more
          · rw [show i + (j + 1) = i + 1 + j by omega]
            exact rest j (by omega)
        · intro all j below
          rw [show i + 1 + j = i + (j + 1) by omega]
          exact all (j + 1) (by omega)
      · rw [decodeLoop_last left result more]
        constructor
        · rintro ⟨⟩
        · intro all
          exact absurd (all 0 (by omega)) more

/-- The loop ends with the first byte that ends an encoding; the bits that are set stay set. -/
theorem decodeLoop_ends (front : Nat) (left i : Nat) (result : BitVec 64)
    (continue_ : ∀ j < front, Continues (data (i + j))) (ends : ¬ Continues (data (i + front)))
    (enough : front < left) : ∃ value, decodeLoop data left i result =
      some (value, BitVec.ofNat 32 (i + front)) ∧ result.toNat ≤ value.toNat := by
  induction front generalizing left i result with
  | zero =>
      obtain ⟨left, rfl⟩ := Nat.exists_eq_succ_of_ne_zero (Nat.ne_of_gt enough)
      refine ⟨_, decodeLoop_last left result ends, ?_⟩
      rw [BitVec.toNat_or]
      exact Nat.left_le_or
  | succ front ih =>
      obtain ⟨left, rfl⟩ := Nat.exists_eq_succ_of_ne_zero (show left ≠ 0 by omega)
      obtain ⟨value, done, kept⟩ := ih left (i + 1) (result ||| group (data i) i)
        (fun j below => by
          rw [show i + 1 + j = i + (j + 1) by omega]
          exact continue_ (j + 1) (by omega))
        (by rwa [show i + 1 + front = i + (front + 1) by omega]) (by omega)
      refine ⟨value, ?_, ?_⟩
      · have more : Continues (data i) := continue_ 0 (by omega)
        rw [Nat.succ_eq_add_one, decodeLoop_more left result more, done,
          show i + 1 + front = i + (front + 1) by omega]
      · rw [BitVec.toNat_or] at kept
        exact Nat.le_trans Nat.left_le_or kept

end Loop

/-! ## What is decoded -/

/-- There is no number exactly if none of the first eight bytes ends the encoding. -/
theorem decodeLeb128_eq_none_iff (data : Nat → UInt8) :
    decodeLeb128 data = none ↔ ∀ i < 8, Continues (data i) := by
  unfold decodeLeb128
  rw [decodeLoop_eq_none_iff]
  simp only [Nat.zero_add]

theorem group_last {b : UInt8} (ends : ¬ Continues b) : group b 0 = BitVec.ofNat 64 b.toNat := by
  have all : ∀ b : UInt8, ¬ Continues b → group b 0 = BitVec.ofNat 64 b.toNat :=
    forall_byte (by decide +kernel)
  exact all b ends

/-- The sign of a byte that continues fills the upper bits. -/
theorem group_first {b : UInt8} (more : Continues b) : 2 ^ 56 ≤ (group b 0).toNat := by
  have all : ∀ b : UInt8, Continues b → 2 ^ 56 ≤ (group b 0).toNat :=
    forall_byte (by decide +kernel)
  exact all b more

/-- The bytes of an encoding in `data`. -/
theorem starts_shape {data : Nat → UInt8} {front : List UInt8} {last : UInt8}
    (starts : Starts data (front ++ [last])) (continue_ : ∀ b ∈ front, Continues b)
    (ends : ¬ Continues last) :
    (∀ j < front.length, Continues (data j)) ∧ ¬ Continues (data front.length) := by
  constructor
  · intro j below
    have read : (front ++ [last])[j]? = some front[j] := by
      rw [List.getElem?_append_left below, List.getElem?_eq_getElem below]
    rw [starts j _ read]
    exact continue_ _ (List.getElem_mem below)
  · have read : (front ++ [last])[front.length]? = some last := by
      rw [List.getElem?_append_right (Nat.le_refl _), Nat.sub_self]
      rfl
    rwa [starts _ _ read]

/-- One byte is decoded as it is. -/
theorem decodeLeb128_single {data : Nat → UInt8} (ends : ¬ Continues (data 0)) :
    decodeLeb128 data = some (BitVec.ofNat 64 (data 0).toNat, 0#32) := by
  unfold decodeLeb128
  rw [decodeLoop_last 7 0#64 ends, group_last ends, BitVec.zero_or]

/-- Of more bytes the first one already sets bits that no number below `2 ^ 56` has. -/
theorem decodeLeb128_several {data : Nat → UInt8} {n : Nat} (several : 0 < n) (fits : n < 8)
    (continue_ : ∀ j < n, Continues (data j)) (ends : ¬ Continues (data n)) :
    ∃ value, decodeLeb128 data = some (value, BitVec.ofNat 32 n) ∧ 2 ^ 56 ≤ value.toNat := by
  have more : Continues (data 0) := continue_ 0 several
  have place : 1 + (n - 1) = n := by omega
  obtain ⟨value, done, kept⟩ := decodeLoop_ends (n - 1) 7 1 (0#64 ||| group (data 0) 0)
    (fun j below => continue_ (1 + j) (by omega)) (by rwa [place]) (by omega)
  rw [place] at done
  rw [BitVec.zero_or] at kept
  refine ⟨value, ?_, Nat.le_trans (group_first more) kept⟩
  unfold decodeLeb128
  rw [decodeLoop_more 7 0#64 more]
  exact done

/-- For no encoding of a number below `2 ^ 56` does the decoder return the number and the
length: the length is one too small, and the value is right only for one byte. It does
return a number whenever one of the first eight bytes ends the encoding. -/
theorem decodeLeb128_wrong {data : Nat → UInt8} {v : Nat} (small : v < 2 ^ 56)
    (starts : Starts data (encode v)) :
    (∃ value, decodeLeb128 data = some (value, BitVec.ofNat 32 ((encode v).length - 1)) ∧
      (value = BitVec.ofNat 64 v ↔ v < 128)) ∧
    ¬ Decodes data v ∧
    ∀ data', decodeLeb128 data' = none ↔ ∀ i < 8, Continues (data' i) := by
  obtain ⟨front, last, shape, continue_, ends, single⟩ := encode_shape v
  have short := length_encode_le v 8 small (by decide)
  rw [shape] at starts
  rw [shape, List.length_append, List.length_singleton] at short
  have bytes := starts_shape starts continue_ ends
  have returned : ∃ value, decodeLeb128 data = some (value, BitVec.ofNat 32 front.length) ∧
      (value = BitVec.ofNat 64 v ↔ v < 128) := by
    rcases Nat.eq_zero_or_pos front.length with none_ | some_
    · have one := single.mp (List.eq_nil_of_length_eq_zero none_)
      have first : data 0 = UInt8.ofNat v := by
        rw [← shape, encode_small one] at starts
        exact starts 0 _ rfl
      have final : ¬ Continues (data 0) := by
        rw [none_] at bytes
        exact bytes.2
      refine ⟨BitVec.ofNat 64 v, ?_, iff_of_true rfl one⟩
      rw [none_, decodeLeb128_single final, first,
        UInt8.toNat_ofNat_of_lt' (Nat.lt_trans one (by decide))]
    · obtain ⟨value, done, large⟩ := decodeLeb128_several some_ (by omega) bytes.1 bytes.2
      refine ⟨value, done, ?_⟩
      constructor
      · rintro rfl
        rw [BitVec.toNat_ofNat, Nat.mod_eq_of_lt (by omega)] at large
        omega
      · intro one
        rw [single.mpr one] at some_
        cases some_
  have length : (encode v).length = front.length + 1 := by
    rw [shape, List.length_append, List.length_singleton]
  refine ⟨?_, ?_, decodeLeb128_eq_none_iff⟩
  · rwa [length, Nat.add_sub_cancel]
  · intro decodes
    obtain ⟨value, done, -⟩ := returned
    unfold Decodes at decodes
    rw [done, length] at decodes
    have lengths := congrArg BitVec.toNat (congrArg Prod.snd (Option.some.inj decodes))
    rw [BitVec.toNat_ofNat, BitVec.toNat_ofNat, Nat.mod_eq_of_lt (by omega),
      Nat.mod_eq_of_lt (by omega)] at lengths
    omega

/-- 300 is encoded in the bytes 0xAC and 0x02. -/
def sample : Nat → UInt8 := fun i => if i = 0 then 0xAC else if i = 1 then 0x02 else 0xFF

theorem starts_sample : Starts sample (encode 300) := by
  rw [encode_large (by decide), encode_small (by decide)]
  rintro (_ | _ | i) b at_
  · exact Option.some.inj at_
  · exact Option.some.inj at_
  · cases at_

theorem decodeLeb128_wrong_sample : Starts sample (encode 300) ∧
    (∃ value, decodeLeb128 sample = some (value, BitVec.ofNat 32 ((encode 300).length - 1)) ∧
      (value = 300#64 ↔ 300 < 128)) ∧ ¬ Decodes sample 300 :=
  have wrong := decodeLeb128_wrong (by decide) starts_sample
  ⟨starts_sample, wrong.1, wrong.2.1⟩

theorem length_encode_sample : (encode 300).length = 2 := by
  rw [encode_large (by decide), encode_small (by decide)]
  rfl

/-- The length 1 for two bytes, and a value with the upper bits set. -/
theorem decodeLeb128_sample : Starts sample (encode 300) ∧
    decodeLeb128 sample = some (0xFFFFFFFFFFFFFF2C#64, 1#32) ∧ ¬ Decodes sample 300 := by
  have decoded : decodeLeb128 sample = some (0xFFFFFFFFFFFFFF2C#64, 1#32) := by decide +kernel
  refine ⟨starts_sample, decoded, fun decodes => ?_⟩
  unfold Decodes at decodes
  rw [decoded, length_encode_sample] at decodes
  exact absurd decodes (by decide)

end Tyleros.Dwarf
