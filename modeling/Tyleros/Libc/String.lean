import Tyleros.Boot.ElfLoader

/-!
# Copying and filling memory

`libc/string.cpp`: `memset`, `memcpy` and `memmove`, byte by byte and eight bytes at a time.
Addresses and sizes are 64-bit words, which wrap around.

`memmove_spec`: without a wrap, `memmove` copies whatever the distance and the overlap. The
wide loop of `memset` goes on in steps of eight until it is not below the size any more, and
so writes past the end; `memset_exact_iff` says when nobody notices.
-/

namespace Tyleros.Libc

open Boot.Elf

/-! ## `memcpy` and `memmove` -/

/-- `((simd_type *)dst)[i] = ((simd_type *)src)[i]`. -/
def copyWord (dst src : BitVec 64) (i : Nat) (mem : Memory) : Memory :=
  writeQword mem (dst + BitVec.ofNat 64 (i * 8)) (readQword mem (src + BitVec.ofNat 64 (i * 8)))

/-- `dst[k] = src[k]`. -/
def copyByte (dst src : BitVec 64) (k : Nat) (mem : Memory) : Memory :=
  Function.update mem (dst + BitVec.ofNat 64 k) (mem (src + BitVec.ofNat 64 k))

/-- The first loop of `memcpy`, from word `i` on with `count` rounds left. -/
def copyWordsUp (dst src : BitVec 64) : Nat → Nat → Memory → Memory
  | 0, _, mem => mem
  | count + 1, i, mem => copyWordsUp dst src count (i + 1) (copyWord dst src i mem)

/-- The second loop of `memcpy`, from byte `k` on with `count` rounds left. -/
def copyBytesUp (dst src : BitVec 64) : Nat → Nat → Memory → Memory
  | 0, _, mem => mem
  | count + 1, k, mem => copyBytesUp dst src count (k + 1) (copyByte dst src k mem)

/-- `memcpy(dst, src, n)`. -/
def memcpy (dst src n : BitVec 64) (mem : Memory) : BitVec 64 × Memory :=
  let i := n.toNat / 8
  let mem := copyWordsUp dst src i 0 mem
  (dst, copyBytesUp dst src (n.toNat % 8) (i * 8) mem)

/-- The first loop of `memmove`, down from byte `k` with `count` rounds left. -/
def copyBytesDown (dst src : BitVec 64) : Nat → Nat → Memory → Memory
  | 0, _, mem => mem
  | count + 1, k, mem => copyBytesDown dst src count (k - 1) (copyByte dst src (k - 1) mem)

/-- The second loop of `memmove`, down from word `i`. -/
def copyWordsDown (dst src : BitVec 64) : Nat → Memory → Memory
  | 0, mem => mem
  | i + 1, mem => copyWordsDown dst src i (copyWord dst src i mem)

/-- `memmove(dst, src, n)`. -/
def memmove (dst src n : BitVec 64) (mem : Memory) : BitVec 64 × Memory :=
  if dst < src then memcpy dst src n mem
  else
    let mem := copyBytesDown dst src (n.toNat % 8) n.toNat mem
    (dst, copyWordsDown dst src (n.toNat / 8) mem)

/-! ### What is copied -/

/-- Bytes `lo`, …, `hi - 1` of the target are those of the source. -/
def copied (dst src : BitVec 64) (lo hi : Nat) (mem : Memory) : Memory := fun x =>
  if lo ≤ (x - dst).toNat ∧ (x - dst).toNat < hi then mem (src + (x - dst)) else mem x

section Copies

variable {dst src n : BitVec 64} {mem : Memory} {lo mid hi : Nat}

theorem extract_readWord (mem : Memory) (a : BitVec 64) {i : Nat} (hi : i < 2) :
    (readWord mem a).extractLsb' (8 * i) 8 = (mem (a + BitVec.ofNat 64 i)).toBitVec := by
  have cases_ : i = 0 ∨ i = 1 := by omega
  unfold readWord
  rcases cases_ with rfl | rfl
  · rw [BitVec.extractLsb'_append_eq_of_add_le (by decide), Nat.mul_zero, BitVec.extractLsb'_eq_self,
      BitVec.add_zero]
  · rw [BitVec.extractLsb'_append_eq_of_le (by decide)]
    exact BitVec.extractLsb'_eq_self

theorem extract_readDword (mem : Memory) (a : BitVec 64) {i : Nat} (hi : i < 4) :
    (readDword mem a).extractLsb' (8 * i) 8 = (mem (a + BitVec.ofNat 64 i)).toBitVec := by
  unfold readDword
  by_cases low : i < 2
  · rw [BitVec.extractLsb'_append_eq_of_add_le (by omega), extract_readWord mem a low]
  · have index : 8 * i - 16 = 8 * (i - 2) := by omega
    have address : a + 2 + BitVec.ofNat 64 (i - 2) = a + BitVec.ofNat 64 i := by bv_omega
    rw [BitVec.extractLsb'_append_eq_of_le (by omega), index,
      extract_readWord mem (a + 2) (by omega), address]

/-- The bytes of a word in memory. -/
theorem byteOf_readQword (mem : Memory) (a : BitVec 64) {i : Nat} (hi : i < 8) :
    byteOf (readQword mem a) i = mem (a + BitVec.ofNat 64 i) := by
  rw [← UInt8.toBitVec_inj]
  show (readQword mem a).extractLsb' (8 * i) 8 = _
  unfold readQword
  by_cases low : i < 4
  · rw [BitVec.extractLsb'_append_eq_of_add_le (by omega), extract_readDword mem a low]
  · have index : 8 * i - 32 = 8 * (i - 4) := by omega
    have address : a + 4 + BitVec.ofNat 64 (i - 4) = a + BitVec.ofNat 64 i := by bv_omega
    rw [BitVec.extractLsb'_append_eq_of_le (by omega), index,
      extract_readDword mem (a + 4) (by omega), address]

theorem copyWord_eq {i : Nat} (small : i * 8 + 8 ≤ 2 ^ 64) :
    copyWord dst src i mem = copied dst src (i * 8) (i * 8 + 8) mem := by
  funext x
  unfold copyWord writeQword copied
  have offset : (x - (dst + BitVec.ofNat 64 (i * 8))).toNat < 8 ↔
      i * 8 ≤ (x - dst).toNat ∧ (x - dst).toNat < i * 8 + 8 := by bv_omega
  by_cases inside : (x - (dst + BitVec.ofNat 64 (i * 8))).toNat < 8
  · rw [if_pos inside, if_pos (offset.mp inside), byteOf_readQword _ _ inside]
    congr 1
    rw [BitVec.ofNat_toNat, BitVec.setWidth_eq]
    bv_omega
  · rw [if_neg inside, if_neg (mt offset.mpr inside)]

theorem copyByte_eq {k : Nat} (small : k < 2 ^ 64) :
    copyByte dst src k mem = copied dst src k (k + 1) mem := by
  funext x
  unfold copyByte copied
  rw [Function.update_apply]
  have offset : x = dst + BitVec.ofNat 64 k ↔ k ≤ (x - dst).toNat ∧ (x - dst).toNat < k + 1 := by
    bv_omega
  by_cases inside : x = dst + BitVec.ofNat 64 k
  · rw [if_pos inside, if_pos (offset.mp inside)]
    congr 1
    bv_omega
  · rw [if_neg inside, if_neg (mt offset.mpr inside)]

theorem copied_empty : copied dst src lo lo mem = mem := by
  funext x
  exact if_neg (by omega)

/-- Going up, what is read next has not been overwritten: the source is behind the target. -/
theorem copied_up (mem : Memory) (behind : dst < src) (noWrap : src.toNat + hi ≤ 2 ^ 64) (first : lo ≤ mid)
    (second : mid ≤ hi) :
    copied dst src mid hi (copied dst src lo mid mem) = copied dst src lo hi mem := by
  funext x
  unfold copied
  by_cases later : mid ≤ (x - dst).toNat ∧ (x - dst).toNat < hi
  · have kept : ¬ (lo ≤ (src + (x - dst) - dst).toNat ∧
        (src + (x - dst) - dst).toNat < mid) := by bv_omega
    rw [if_pos later, if_neg kept, if_pos ⟨by omega, later.2⟩]
  · rw [if_neg later]
    exact if_congr (by omega) rfl rfl

/-- Going down, it is in front of what has been overwritten. -/
theorem copied_down (mem : Memory) (notBehind : ¬ dst < src) (noWrap : dst.toNat + hi ≤ 2 ^ 64) (first : lo ≤ mid)
    (second : mid ≤ hi) :
    copied dst src lo mid (copied dst src mid hi mem) = copied dst src lo hi mem := by
  funext x
  unfold copied
  by_cases later : lo ≤ (x - dst).toNat ∧ (x - dst).toNat < mid
  · have kept : ¬ (mid ≤ (src + (x - dst) - dst).toNat ∧
        (src + (x - dst) - dst).toNat < hi) := by bv_omega
    rw [if_pos later, if_neg kept, if_pos ⟨later.1, by omega⟩]
  · rw [if_neg later]
    exact if_congr (by omega) rfl rfl

/-! ### The loops -/

theorem copyWordsUp_eq (mem : Memory) (behind : dst < src) (count i : Nat)
    (noWrap : src.toNat + (i + count) * 8 ≤ 2 ^ 64) :
    copyWordsUp dst src count i (copied dst src 0 (i * 8) mem) =
      copied dst src 0 ((i + count) * 8) mem := by
  induction count generalizing i with
  | zero => rfl
  | succ count ih =>
      have step := copied_up mem behind (show src.toNat + (i * 8 + 8) ≤ 2 ^ 64 by omega)
        (Nat.zero_le (i * 8)) (Nat.le_add_right _ 8)
      have next : i * 8 + 8 = (i + 1) * 8 := by omega
      have total : i + (count + 1) = i + 1 + count := by omega
      rw [copyWordsUp, copyWord_eq (by omega), step, next, total]
      exact ih (i + 1) (by omega)

theorem copyBytesUp_eq (mem : Memory) (behind : dst < src) (count k : Nat)
    (noWrap : src.toNat + (k + count) ≤ 2 ^ 64) :
    copyBytesUp dst src count k (copied dst src 0 k mem) = copied dst src 0 (k + count) mem := by
  induction count generalizing k with
  | zero => rfl
  | succ count ih =>
      have source : 0 < src.toNat := Nat.zero_lt_of_lt (BitVec.lt_def.mp behind)
      have step := copied_up mem behind (show src.toNat + (k + 1) ≤ 2 ^ 64 by omega)
        (Nat.zero_le k) (Nat.le_succ k)
      have total : k + (count + 1) = k + 1 + count := by omega
      rw [copyBytesUp, copyByte_eq (by omega), step, total]
      exact ih (k + 1) (by omega)

theorem copyBytesDown_eq (mem : Memory) (notBehind : ¬ dst < src) {count k : Nat} (enough : count ≤ k)
    (atMost : k ≤ n.toNat) (noWrap : dst.toNat + n.toNat ≤ 2 ^ 64) :
    copyBytesDown dst src count k (copied dst src k n.toNat mem) =
      copied dst src (k - count) n.toNat mem := by
  have bound := n.isLt
  induction count generalizing k with
  | zero => rfl
  | succ count ih =>
      have step := copied_down mem notBehind noWrap (Nat.sub_le k 1) atMost
      have here : k - 1 + 1 = k := by omega
      have rest : k - (count + 1) = k - 1 - count := by omega
      rw [copyBytesDown, copyByte_eq (by omega), here, step, rest]
      exact ih (by omega) (by omega)

theorem copyWordsDown_eq (mem : Memory) (notBehind : ¬ dst < src) (i : Nat) (atMost : i * 8 ≤ n.toNat)
    (noWrap : dst.toNat + n.toNat ≤ 2 ^ 64) :
    copyWordsDown dst src i (copied dst src (i * 8) n.toNat mem) = copied dst src 0 n.toNat mem := by
  have bound := n.isLt
  induction i with
  | zero =>
      rw [Nat.zero_mul]
      rfl
  | succ i ih =>
      have step := copied_down mem notBehind noWrap (Nat.le_add_right (i * 8) 8)
        (show i * 8 + 8 ≤ n.toNat by omega)
      have here : (i + 1) * 8 = i * 8 + 8 := by omega
      rw [copyWordsDown, copyWord_eq (by omega), here, step]
      exact ih (by omega)

/-- `memcpy` for a target in front of the source; they may overlap. -/
theorem memcpy_eq (behind : dst < src) (noWrap : src.toNat + n.toNat ≤ 2 ^ 64) :
    memcpy dst src n mem = (dst, copied dst src 0 n.toNat mem) := by
  have words := copyWordsUp_eq mem behind (n.toNat / 8) 0 (by omega)
  rw [Nat.zero_mul, copied_empty, Nat.zero_add] at words
  have bytes := copyBytesUp_eq mem behind (n.toNat % 8) (n.toNat / 8 * 8) (by omega)
  have whole : n.toNat / 8 * 8 + n.toNat % 8 = n.toNat := Nat.div_add_mod' _ _
  rw [whole] at bytes
  unfold memcpy
  dsimp only
  rw [words, bytes]

theorem memmove_eq (source : src.toNat + n.toNat ≤ 2 ^ 64) (target : dst.toNat + n.toNat ≤ 2 ^ 64) :
    memmove dst src n mem = (dst, copied dst src 0 n.toNat mem) := by
  unfold memmove
  by_cases behind : dst < src
  · rw [if_pos behind]
    exact memcpy_eq behind source
  · have bytes := copyBytesDown_eq mem behind (Nat.mod_le n.toNat 8)
      (Nat.le_refl _) target
    have rest : n.toNat - n.toNat % 8 = n.toNat / 8 * 8 := by omega
    rw [copied_empty, rest] at bytes
    have words := copyWordsDown_eq mem behind (n.toNat / 8) (by omega) target
    rw [if_neg behind]
    dsimp only
    rw [bytes, words]

end Copies

/-- `memmove` copies the bytes as they were before, for every overlap, changes nothing else
and returns the target. -/
theorem memmove_spec (dst src n : BitVec 64) (mem : Memory)
    (source : src.toNat + n.toNat ≤ 2 ^ 64) (target : dst.toNat + n.toNat ≤ 2 ^ 64) :
    (memmove dst src n mem).1 = dst ∧
      (∀ i, i < n.toNat → (memmove dst src n mem).2 (dst + BitVec.ofNat 64 i) =
        mem (src + BitVec.ofNat 64 i)) ∧
      ∀ x, ¬ InRange x dst n.toNat → (memmove dst src n mem).2 x = mem x := by
  rw [memmove_eq source target]
  refine ⟨rfl, fun i hi => ?_, fun x outside => if_neg fun inside => outside inside.2⟩
  have bound := n.isLt
  have offset : dst + BitVec.ofNat 64 i - dst = BitVec.ofNat 64 i := by bv_omega
  have value : (BitVec.ofNat 64 i).toNat = i := Nat.mod_eq_of_lt (by omega)
  unfold copied
  dsimp only
  rw [offset, value]
  exact if_pos ⟨Nat.zero_le i, hi⟩

/-- Eleven bytes, moved by two. -/
theorem memmove_spec_overlap :
    (memmove 0x1003 0x1001 11 fun x => UInt8.ofNat x.toNat).1 = 0x1003 ∧
      (∀ i, i < 11 →
        (memmove 0x1003 0x1001 11 fun x => UInt8.ofNat x.toNat).2 (0x1003 + BitVec.ofNat 64 i) =
          UInt8.ofNat (0x1001 + BitVec.ofNat 64 i).toNat) ∧
      ∀ x, ¬ InRange x 0x1003 11 →
        (memmove 0x1003 0x1001 11 fun x => UInt8.ofNat x.toNat).2 x = UInt8.ofNat x.toNat :=
  memmove_spec 0x1003 0x1001 11 _ (by decide) (by decide)

/-! ## `memset` -/

/-- `multiplier_for_broadcast()`. -/
def multiplierForBroadcast : BitVec 64 :=
  (List.range 8).foldl (fun multiplier _ => multiplier <<< 8 ||| 1) 1

def broadcast (c : UInt8) : BitVec 64 := c.toBitVec.setWidth 64 * multiplierForBroadcast

/-- More rounds than a loop can take that counts a `size_t` up to an end. -/
def ROUNDS : Nat := 2 ^ 64 + 1

/-- The wide loop of `memset`, from byte `i` on: where it ends, and memory. -/
def fillWords (dst n wideC : BitVec 64) : Nat → BitVec 64 → Memory → Except Stop (BitVec 64 × Memory)
  | 0, _, _ => .error .hang
  | fuel + 1, i, mem =>
    if i < n then fillWords dst n wideC fuel (i + 8) (writeQword mem (dst + i) wideC) else .ok (i, mem)

/-- The loop of `memset` over the remainder. -/
def fillBytes (dst n : BitVec 64) (c : UInt8) : Nat → BitVec 64 → Memory → Except Stop Memory
  | 0, _, _ => .error .hang
  | fuel + 1, i, mem =>
    if i < n then fillBytes dst n c fuel (i + 1) (Function.update mem (dst + i) c) else .ok mem

/-- The part of `memset` before the remainder. -/
def fillWide (dst n : BitVec 64) (c : UInt8) (mem : Memory) : Except Stop (BitVec 64 × Memory) :=
  if 8 ≤ n.toNat then fillWords dst n (broadcast c) ROUNDS 0 mem else .ok (0, mem)

/-- `static_cast<unsigned char>(c)`. -/
def unsignedChar (c : BitVec 32) : UInt8 := ⟨c.setWidth 8⟩

/-- `memset(dst, c, n)`. -/
def memset (dst : BitVec 64) (c : BitVec 32) (n : BitVec 64) (mem : Memory) :
    Except Stop (BitVec 64 × Memory) := do
  let (i, mem) ← fillWide dst n (unsignedChar c) mem
  let mem ← fillBytes dst n (unsignedChar c) ROUNDS i mem
  return (dst, mem)

/-- The first `count` bytes are `c`. -/
def filled (dst : BitVec 64) (count : Nat) (c : UInt8) (mem : Memory) : Memory := fun x =>
  if (x - dst).toNat < count then c else mem x

/-- The end of the last word that begins in front of the end. -/
def roundUp (n : Nat) : Nat := (n + 7) / 8 * 8

section Fills

variable {dst n : BitVec 64} {c : UInt8} {mem : Memory} {k : Nat}

theorem byteOf_broadcast (c : UInt8) {i : Nat} (hi : i < 8) : byteOf (broadcast c) i = c := by
  have all : ∀ k : Fin 256, ∀ i : Fin 8,
      byteOf (broadcast (UInt8.ofBitVec ⟨k⟩)) i = UInt8.ofBitVec ⟨k⟩ := by
    decide +kernel
  exact all c.toBitVec.toFin ⟨i, hi⟩

theorem filled_empty : filled dst 0 c mem = mem := by
  funext x
  exact if_neg (Nat.not_lt_zero _)

theorem writeWord_filled (small : k + 8 ≤ 2 ^ 64) :
    writeQword (filled dst k c mem) (dst + BitVec.ofNat 64 k) (broadcast c) =
      filled dst (k + 8) c mem := by
  funext x
  unfold writeQword filled
  by_cases inside : (x - (dst + BitVec.ofNat 64 k)).toNat < 8
  · rw [if_pos inside, byteOf_broadcast c inside, if_pos (by bv_omega)]
  · rw [if_neg inside]
    exact if_congr (by bv_omega) rfl rfl

theorem writeByte_filled (small : k < 2 ^ 64) :
    Function.update (filled dst k c mem) (dst + BitVec.ofNat 64 k) c = filled dst (k + 1) c mem := by
  funext x
  rw [Function.update_apply]
  unfold filled
  by_cases here : x = dst + BitVec.ofNat 64 k
  · rw [if_pos here, if_pos (by bv_omega)]
  · rw [if_neg here]
    exact if_congr (by bv_omega) rfl rfl

/-- The wide loop ends behind the end, if there is room for that. -/
theorem fillWords_eq (dst : BitVec 64) (c : UInt8) (mem : Memory) (room : n.toNat ≤ 2 ^ 64 - 8)
    (k fuel : Nat) (whole : k % 8 = 0) (atMost : k ≤ roundUp n.toNat) (enough : roundUp n.toNat < k + 8 * fuel) :
    fillWords dst n (broadcast c) fuel (BitVec.ofNat 64 k) (filled dst k c mem) =
      .ok (BitVec.ofNat 64 (roundUp n.toNat), filled dst (roundUp n.toNat) c mem) := by
  have last : roundUp n.toNat ≤ 2 ^ 64 - 8 := by
    unfold roundUp
    omega
  induction fuel generalizing k with
  | zero => omega
  | succ fuel ih =>
      have value : (BitVec.ofNat 64 k).toNat = k := Nat.mod_eq_of_lt (by omega)
      unfold fillWords
      by_cases goesOn : BitVec.ofNat 64 k < n
      · have below : k < n.toNat := value ▸ BitVec.lt_def.mp goesOn
        have next : BitVec.ofNat 64 k + 8 = BitVec.ofNat 64 (k + 8) := by bv_omega
        have notLast : k + 8 ≤ roundUp n.toNat := by
          unfold roundUp
          omega
        rw [if_pos goesOn, writeWord_filled (by omega), next]
        exact ih (k + 8) (by omega) notLast (by omega)
      · have notBelow : n.toNat ≤ k := by
          rw [BitVec.lt_def, value] at goesOn
          omega
        have atEnd : k = roundUp n.toNat := by
          unfold roundUp at atMost ⊢
          omega
        rw [if_neg goesOn, atEnd]

/-- Otherwise it does not end, whatever the number of rounds. -/
theorem fillWords_hang (noRoom : 2 ^ 64 - 8 < n.toNat) (wideC : BitVec 64) {fuel : Nat}
    {i : BitVec 64} (whole : i.toNat % 8 = 0) : fillWords dst n wideC fuel i mem = .error .hang := by
  induction fuel generalizing i mem with
  | zero => rfl
  | succ fuel ih =>
      have bound := i.isLt
      have goesOn : i < n := by
        rw [BitVec.lt_def]
        omega
      unfold fillWords
      rw [if_pos goesOn]
      exact ih (by bv_omega)

/-- The remainder, if there is one. -/
theorem fillBytes_eq (dst : BitVec 64) (c : UInt8) (mem : Memory) (k fuel : Nat) (small : k < 2 ^ 64) (enough : n.toNat < k + fuel)
    (positive : 0 < fuel) :
    fillBytes dst n c fuel (BitVec.ofNat 64 k) (filled dst k c mem) =
      .ok (filled dst (max k n.toNat) c mem) := by
  have bound := n.isLt
  induction fuel generalizing k with
  | zero => omega
  | succ fuel ih =>
      have value : (BitVec.ofNat 64 k).toNat = k := Nat.mod_eq_of_lt small
      unfold fillBytes
      by_cases goesOn : BitVec.ofNat 64 k < n
      · have below : k < n.toNat := value ▸ BitVec.lt_def.mp goesOn
        have next : BitVec.ofNat 64 k + 1 = BitVec.ofNat 64 (k + 1) := by bv_omega
        have same : max k n.toNat = max (k + 1) n.toNat := by omega
        rw [if_pos goesOn, writeByte_filled small, next, same]
        exact ih (k + 1) (by omega) (by omega) (by omega)
      · have notBelow : n.toNat ≤ k := by
          rw [BitVec.lt_def, value] at goesOn
          omega
        rw [if_neg goesOn, Nat.max_eq_left notBelow]

end Fills

/-- Where `memset` stops filling: at the end, or behind it. -/
def fillEnd (n : Nat) : Nat := if n < 8 then n else roundUp n

theorem memset_eq (dst : BitVec 64) (c : BitVec 32) (n : BitVec 64) (mem : Memory) :
    memset dst c n mem = if n.toNat ≤ 2 ^ 64 - 8 then
      .ok (dst, filled dst (fillEnd n.toNat) (unsignedChar c) mem) else .error .hang := by
  have bound := n.isLt
  obtain ⟨rounds, manyRounds⟩ : ∃ rounds, rounds = ROUNDS := ⟨_, rfl⟩
  have enough : 2 ^ 64 < rounds := manyRounds ▸ Nat.lt_succ_self _
  unfold memset fillWide fillEnd
  rw [← manyRounds]
  by_cases short : n.toNat < 8
  · have bytes := fillBytes_eq (n := n) dst (unsignedChar c) mem 0 rounds (by decide) (by omega)
      (by omega)
    rw [filled_empty, Nat.max_eq_right (Nat.zero_le _)] at bytes
    rw [if_neg (by omega), if_pos (by omega), if_pos short, ok_bind]
    dsimp only
    rw [show (0 : BitVec 64) = BitVec.ofNat 64 0 from rfl, bytes]
    rfl
  · rw [if_pos (by omega), if_neg short]
    by_cases room : n.toNat ≤ 2 ^ 64 - 8
    · have last : roundUp n.toNat ≤ 2 ^ 64 - 8 ∧ n.toNat ≤ roundUp n.toNat := by
        unfold roundUp
        omega
      have words := fillWords_eq dst (unsignedChar c) mem room 0 rounds rfl
        (Nat.zero_le _) (by omega)
      have bytes := fillBytes_eq (n := n) dst (unsignedChar c) mem (roundUp n.toNat) rounds
        (by omega) (by omega) (by omega)
      rw [filled_empty] at words
      rw [Nat.max_eq_left last.2] at bytes
      rw [if_pos room, show (0 : BitVec 64) = BitVec.ofNat 64 0 from rfl, words, ok_bind]
      dsimp only
      rw [bytes]
      rfl
    · rw [if_neg room, fillWords_hang (by omega) _ rfl]
      rfl

/-- What `memset` is for. -/
structure Fills (dst : BitVec 64) (c : UInt8) (n : BitVec 64) (mem mem' : Memory) : Prop where
  bytes : ∀ i, i < n.toNat → mem' (dst + BitVec.ofNat 64 i) = c
  others : ∀ x, ¬ InRange x dst n.toNat → mem' x = mem x

/-- The size is below a word or a whole number of words, or the loop has room to end and the
bytes from the end to the next word have the value already. -/
def Unnoticed (dst : BitVec 64) (c : UInt8) (n : BitVec 64) (mem : Memory) : Prop :=
  n.toNat < 8 ∨ n.toNat % 8 = 0 ∨ n.toNat ≤ 2 ^ 64 - 8 ∧
    ∀ k, n.toNat ≤ k → k < roundUp n.toNat → mem (dst + BitVec.ofNat 64 k) = c

/-- `memset` fills exactly its range just if the write past the end is not noticed. -/
theorem memset_exact_iff (dst : BitVec 64) (c : BitVec 32) (n : BitVec 64) (mem : Memory) :
    (∃ mem', memset dst c n mem = .ok (dst, mem') ∧ Fills dst (unsignedChar c) n mem mem') ↔
      Unnoticed dst (unsignedChar c) n mem := by
  have bound := n.isLt
  have offset : ∀ k, (dst + BitVec.ofNat 64 k - dst).toNat = k % 2 ^ 64 := by
    intro k
    have difference : dst + BitVec.ofNat 64 k - dst = BitVec.ofNat 64 k := by bv_omega
    rw [difference, BitVec.toNat_ofNat]
  rw [memset_eq]
  constructor
  · rintro ⟨mem', result, fills⟩
    by_cases short : n.toNat < 8
    · exact Or.inl short
    · refine Or.inr (Or.inr ?_)
      split at result
      · next room =>
          have filledTo : mem' = filled dst (roundUp n.toNat) (unsignedChar c) mem := by
            rw [fillEnd, if_neg short] at result
            exact (congrArg Prod.snd (Except.ok.inj result)).symm
          refine ⟨room, fun k notBelow below => ?_⟩
          have small : k < 2 ^ 64 := by
            unfold roundUp at below
            omega
          have value : (dst + BitVec.ofNat 64 k - dst).toNat = k := by
            rw [offset, Nat.mod_eq_of_lt small]
          have kept := fills.others (dst + BitVec.ofNat 64 k) (by unfold InRange; omega)
          rw [← kept, filledTo]
          exact if_pos (by rwa [value])
      · cases result
  · intro unnoticed
    have room : n.toNat ≤ 2 ^ 64 - 8 := by
      rcases unnoticed with short | whole | ⟨room, -⟩ <;> omega
    have reaches : n.toNat ≤ fillEnd n.toNat := by
      unfold fillEnd roundUp
      split <;> omega
    rw [if_pos room]
    refine ⟨_, rfl, fun i hi => ?_, fun x outside => ?_⟩
    · refine if_pos ?_
      rw [offset, Nat.mod_eq_of_lt (by omega)]
      omega
    · by_cases past : (x - dst).toNat < fillEnd n.toNat
      · -- the byte has the value already
        have there : dst + BitVec.ofNat 64 (x - dst).toNat = x := by bv_omega
        unfold InRange at outside
        unfold fillEnd roundUp at past
        rcases unnoticed with short | whole | ⟨-, same⟩
        · rw [if_pos short] at past
          omega
        · split at past <;> omega
        · have already := same (x - dst).toNat (by omega) (by unfold roundUp; split at past <;> omega)
          rw [there] at already
          unfold filled
          rw [already]
          exact ite_self _
      · exact if_neg past

/-- Nine bytes: the seven bytes behind them are overwritten. -/
theorem memset_nine_bytes : ¬ ∃ mem', memset 0x1000 1 9 (fun _ => 0) = .ok (0x1000, mem') ∧
    Fills 0x1000 1 9 (fun _ => 0) mem' := by
  rintro ⟨mem', result, fills⟩
  rw [memset_eq, if_pos (by decide)] at result
  cases result
  have kept := fills.others 0x1009 (by unfold InRange; decide)
  exact absurd kept (by decide)

end Tyleros.Libc
