import Tyleros.Basic
import Mathlib.Data.Nat.Bitwise
import Mathlib.Logic.Function.Iterate

/-!
# The kernel image checksum

`kernel/crc32.cpp`: the 256-entry CRC-32 table, the loop over the image bytes
and the comparison `kmain` makes. The update is `ret ^= table[idx]`, without the
shift by eight that a table-driven CRC-32 has, so the state keeps its low byte
and the byte decides the next index again.

The table is linear in exclusive or (`entry_xor`), hence two runs that differ in
one byte keep a difference of the form `entry e`, and every further byte maps
`e` to `residue e = e ^ low byte of entry e` (`crc32Step_xor`). The residue map
is not injective: it sends `0x57` to zero, and `0x9b`, `0xcc` to `0x57`. That
decides exactly which corrupted bytes go unnoticed (`crc32_detects_iff`).
-/

namespace Tyleros.Crc32

/-- `table` of `crc32.cpp`. -/
def table : List (BitVec 32) :=
  [0x00000000, 0x77073096, 0xee0e612c, 0x990951ba, 0x076dc419, 0x706af48f, 0xe963a535, 0x9e6495a3,
   0x0edb8832, 0x79dcb8a4, 0xe0d5e91e, 0x97d2d988, 0x09b64c2b, 0x7eb17cbd, 0xe7b82d07, 0x90bf1d91,
   0x1db71064, 0x6ab020f2, 0xf3b97148, 0x84be41de, 0x1adad47d, 0x6ddde4eb, 0xf4d4b551, 0x83d385c7,
   0x136c9856, 0x646ba8c0, 0xfd62f97a, 0x8a65c9ec, 0x14015c4f, 0x63066cd9, 0xfa0f3d63, 0x8d080df5,
   0x3b6e20c8, 0x4c69105e, 0xd56041e4, 0xa2677172, 0x3c03e4d1, 0x4b04d447, 0xd20d85fd, 0xa50ab56b,
   0x35b5a8fa, 0x42b2986c, 0xdbbbc9d6, 0xacbcf940, 0x32d86ce3, 0x45df5c75, 0xdcd60dcf, 0xabd13d59,
   0x26d930ac, 0x51de003a, 0xc8d75180, 0xbfd06116, 0x21b4f4b5, 0x56b3c423, 0xcfba9599, 0xb8bda50f,
   0x2802b89e, 0x5f058808, 0xc60cd9b2, 0xb10be924, 0x2f6f7c87, 0x58684c11, 0xc1611dab, 0xb6662d3d,
   0x76dc4190, 0x01db7106, 0x98d220bc, 0xefd5102a, 0x71b18589, 0x06b6b51f, 0x9fbfe4a5, 0xe8b8d433,
   0x7807c9a2, 0x0f00f934, 0x9609a88e, 0xe10e9818, 0x7f6a0dbb, 0x086d3d2d, 0x91646c97, 0xe6635c01,
   0x6b6b51f4, 0x1c6c6162, 0x856530d8, 0xf262004e, 0x6c0695ed, 0x1b01a57b, 0x8208f4c1, 0xf50fc457,
   0x65b0d9c6, 0x12b7e950, 0x8bbeb8ea, 0xfcb9887c, 0x62dd1ddf, 0x15da2d49, 0x8cd37cf3, 0xfbd44c65,
   0x4db26158, 0x3ab551ce, 0xa3bc0074, 0xd4bb30e2, 0x4adfa541, 0x3dd895d7, 0xa4d1c46d, 0xd3d6f4fb,
   0x4369e96a, 0x346ed9fc, 0xad678846, 0xda60b8d0, 0x44042d73, 0x33031de5, 0xaa0a4c5f, 0xdd0d7cc9,
   0x5005713c, 0x270241aa, 0xbe0b1010, 0xc90c2086, 0x5768b525, 0x206f85b3, 0xb966d409, 0xce61e49f,
   0x5edef90e, 0x29d9c998, 0xb0d09822, 0xc7d7a8b4, 0x59b33d17, 0x2eb40d81, 0xb7bd5c3b, 0xc0ba6cad,
   0xedb88320, 0x9abfb3b6, 0x03b6e20c, 0x74b1d29a, 0xead54739, 0x9dd277af, 0x04db2615, 0x73dc1683,
   0xe3630b12, 0x94643b84, 0x0d6d6a3e, 0x7a6a5aa8, 0xe40ecf0b, 0x9309ff9d, 0x0a00ae27, 0x7d079eb1,
   0xf00f9344, 0x8708a3d2, 0x1e01f268, 0x6906c2fe, 0xf762575d, 0x806567cb, 0x196c3671, 0x6e6b06e7,
   0xfed41b76, 0x89d32be0, 0x10da7a5a, 0x67dd4acc, 0xf9b9df6f, 0x8ebeeff9, 0x17b7be43, 0x60b08ed5,
   0xd6d6a3e8, 0xa1d1937e, 0x38d8c2c4, 0x4fdff252, 0xd1bb67f1, 0xa6bc5767, 0x3fb506dd, 0x48b2364b,
   0xd80d2bda, 0xaf0a1b4c, 0x36034af6, 0x41047a60, 0xdf60efc3, 0xa867df55, 0x316e8eef, 0x4669be79,
   0xcb61b38c, 0xbc66831a, 0x256fd2a0, 0x5268e236, 0xcc0c7795, 0xbb0b4703, 0x220216b9, 0x5505262f,
   0xc5ba3bbe, 0xb2bd0b28, 0x2bb45a92, 0x5cb36a04, 0xc2d7ffa7, 0xb5d0cf31, 0x2cd99e8b, 0x5bdeae1d,
   0x9b64c2b0, 0xec63f226, 0x756aa39c, 0x026d930a, 0x9c0906a9, 0xeb0e363f, 0x72076785, 0x05005713,
   0x95bf4a82, 0xe2b87a14, 0x7bb12bae, 0x0cb61b38, 0x92d28e9b, 0xe5d5be0d, 0x7cdcefb7, 0x0bdbdf21,
   0x86d3d2d4, 0xf1d4e242, 0x68ddb3f8, 0x1fda836e, 0x81be16cd, 0xf6b9265b, 0x6fb077e1, 0x18b74777,
   0x88085ae6, 0xff0f6a70, 0x66063bca, 0x11010b5c, 0x8f659eff, 0xf862ae69, 0x616bffd3, 0x166ccf45,
   0xa00ae278, 0xd70dd2ee, 0x4e048354, 0x3903b3c2, 0xa7672661, 0xd06016f7, 0x4969474d, 0x3e6e77db,
   0xaed16a4a, 0xd9d65adc, 0x40df0b66, 0x37d83bf0, 0xa9bcae53, 0xdebb9ec5, 0x47b2cf7f, 0x30b5ffe9,
   0xbdbdf21c, 0xcabac28a, 0x53b39330, 0x24b4a3a6, 0xbad03605, 0xcdd70693, 0x54de5729, 0x23d967bf,
   0xb3667a2e, 0xc4614ab8, 0x5d681b02, 0x2a6f2b94, 0xb40bbe37, 0xc30c8ea1, 0x5a05df1b, 0x2d02ef8d]

/-- One iteration of the loop of `crc32`. `data[i]` is a signed `char`, extended
to `int` before the exclusive or. -/
def crc32Step (ret : BitVec 32) (c : BitVec 8) : BitVec 32 :=
  let idx := (c.signExtend 32 ^^^ ret) &&& 0xFF#32
  ret ^^^ table.getD idx.toNat 0

/-- `crc32(data, len)`, the list being the `len` bytes at `data`. -/
def crc32 (data : List (BitVec 8)) : BitVec 32 :=
  data.foldl crc32Step 0xFFFFFFFF

/-- The integrity check of `kmain`: the recomputed checksum of the loaded image
against `boot.kernel_expected_crc32`. -/
def kmainIntegrityCheck (kernelExpectedCrc32 : BitVec 32) (image : List (BitVec 8)) :
    Except Stop Unit :=
  kassert (kernelExpectedCrc32 == crc32 image) "kernel integrity check failed!"

/-! ## Linearity of the table -/

/-- The table word for one byte. -/
def entry (x : BitVec 8) : BitVec 32 := table.getD x.toNat 0

/-- The combination of the eight entries at powers of two selected by the bits
of `x`. -/
def basisSum (x : BitVec 8) : Nat → BitVec 32
  | 0 => 0
  | k + 1 => basisSum x k ^^^ if x.getLsbD k then table.getD (2 ^ k) 0 else 0

theorem entry_eq_basisSum (x : BitVec 8) : entry x = basisSum x 8 := by
  have all : ∀ n < 256, entry (BitVec.ofNat 8 n) = basisSum (BitVec.ofNat 8 n) 8 := by
    decide +kernel
  have here := all x.toNat x.isLt
  rwa [BitVec.ofNat_toNat, BitVec.setWidth_eq] at here

theorem basisSum_xor (x y : BitVec 8) (k : Nat) :
    basisSum (x ^^^ y) k = basisSum x k ^^^ basisSum y k := by
  induction k with
  | zero => exact (BitVec.xor_self (x := (0 : BitVec 32))).symm
  | succ k ih =>
      simp only [basisSum, ih, BitVec.getLsbD_xor]
      generalize table.getD (2 ^ k) 0 = w
      have cancel : w ^^^ w = 0 := BitVec.xor_self
      cases x.getLsbD k <;> cases y.getLsbD k
      · simp
      · simp [BitVec.xor_assoc]
      · simp [BitVec.xor_assoc, BitVec.xor_comm w]
      · rw [show basisSum x k ^^^ (if true then w else 0) ^^^
            (basisSum y k ^^^ if true then w else 0) =
            basisSum x k ^^^ basisSum y k ^^^ (w ^^^ w) by simp only [if_true]; ac_rfl, cancel]
        simp

theorem entry_xor (x y : BitVec 8) : entry (x ^^^ y) = entry x ^^^ entry y := by
  simp only [entry_eq_basisSum, basisSum_xor]

theorem crc32Step_eq (ret : BitVec 32) (c : BitVec 8) :
    crc32Step ret c = ret ^^^ entry (c ^^^ ret.setWidth 8) := by
  have index : (c.signExtend 32 ^^^ ret) &&& 0xFF#32 = (c ^^^ ret.setWidth 8).setWidth 32 := by
    apply BitVec.eq_of_getLsbD_eq
    intro i hi
    have mask : (0xFF#32).getLsbD i = decide (i < 8) := by
      rw [BitVec.getLsbD_ofNat, show (0xFF : Nat) = 2 ^ 8 - 1 by rfl, Nat.testBit_two_pow_sub_one]
      simp [hi]
    simp only [BitVec.getLsbD_and, BitVec.getLsbD_xor, BitVec.getLsbD_signExtend,
      BitVec.getLsbD_setWidth, mask, hi]
    by_cases low : i < 8
    · simp [low]
    · simp [low, BitVec.getLsbD_of_ge c i (by omega)]
  have small : ((c ^^^ ret.setWidth 8).setWidth 32).toNat = (c ^^^ ret.setWidth 8).toNat :=
    BitVec.toNat_setWidth_of_le (by decide)
  simp only [crc32Step, entry, index, small]

/-! ## How a difference travels through the following bytes -/

/-- The byte `e` with difference `entry e` after one more byte has been read. -/
def residue (e : BitVec 8) : BitVec 8 := e ^^^ (entry e).setWidth 8

/-- One byte takes a state difference `entry e` to `entry (residue e)`. -/
theorem crc32Step_xor {s s' : BitVec 32} {e : BitVec 8} (c : BitVec 8)
    (h : s ^^^ s' = entry e) : crc32Step s c ^^^ crc32Step s' c = entry (residue e) := by
  have low : (c ^^^ s.setWidth 8) ^^^ (c ^^^ s'.setWidth 8) = (entry e).setWidth 8 := by
    rw [← h, BitVec.setWidth_xor]
    calc (c ^^^ s.setWidth 8) ^^^ (c ^^^ s'.setWidth 8)
        = (c ^^^ c) ^^^ (s.setWidth 8 ^^^ s'.setWidth 8) := by ac_rfl
      _ = s.setWidth 8 ^^^ s'.setWidth 8 := by simp
  calc crc32Step s c ^^^ crc32Step s' c
      = (s ^^^ s') ^^^ (entry (c ^^^ s.setWidth 8) ^^^ entry (c ^^^ s'.setWidth 8)) := by
        rw [crc32Step_eq, crc32Step_eq]
        ac_rfl
    _ = entry e ^^^ entry ((entry e).setWidth 8) := by rw [h, ← entry_xor, low]
    _ = entry (residue e) := (entry_xor _ _).symm

/-- The state difference after the bytes of `post`. -/
theorem foldl_crc32Step_xor (post : List (BitVec 8)) {s s' : BitVec 32} {e : BitVec 8}
    (h : s ^^^ s' = entry e) :
    post.foldl crc32Step s ^^^ post.foldl crc32Step s' = entry (residue^[post.length] e) := by
  induction post generalizing s s' e with
  | nil => exact h
  | cons c post ih => exact ih (crc32Step_xor c h)

theorem entry_eq_zero_iff (e : BitVec 8) : entry e = 0#32 ↔ e = 0#8 := by
  have all : ∀ n < 256, entry (BitVec.ofNat 8 n) = 0#32 → BitVec.ofNat 8 n = 0#8 := by
    decide +kernel
  constructor
  · intro h
    have here := all e.toNat e.isLt
    rw [BitVec.ofNat_toNat, BitVec.setWidth_eq] at here
    exact here h
  · rintro rfl
    rfl

/-! ## The kernel of the residue map -/

theorem residue_facts (e : BitVec 8) :
    (residue e = 0#8 ↔ e = 0#8 ∨ e = 0x57#8) ∧
      (residue (residue e) = 0#8 ↔ e = 0#8 ∨ e = 0x57#8 ∨ e = 0x9b#8 ∨ e = 0xcc#8) ∧
      (residue (residue (residue e)) = 0#8 → residue (residue e) = 0#8) := by
  have all : ∀ n < 256, let e := BitVec.ofNat 8 n
      (residue e = 0#8 ↔ e = 0#8 ∨ e = 0x57#8) ∧
        (residue (residue e) = 0#8 ↔ e = 0#8 ∨ e = 0x57#8 ∨ e = 0x9b#8 ∨ e = 0xcc#8) ∧
        (residue (residue (residue e)) = 0#8 → residue (residue e) = 0#8) := by
    decide +kernel
  have here := all e.toNat e.isLt
  rwa [BitVec.ofNat_toNat, BitVec.setWidth_eq] at here

theorem residue_zero : residue 0#8 = 0#8 := (residue_facts 0#8).1.mpr (Or.inl rfl)

/-- From the second residue on nothing further is sent to zero. -/
theorem iterate_residue_eq_zero_iff (k : Nat) (e : BitVec 8) :
    residue^[k + 2] e = 0#8 ↔ residue (residue e) = 0#8 := by
  induction k generalizing e with
  | zero => rfl
  | succ k ih =>
      rw [Function.iterate_succ_apply, ih (residue e)]
      exact ⟨(residue_facts e).2.2, fun h => by rw [h, residue_zero]⟩

/-- The difference `e` of one corrupted byte is lost when `following` bytes come
after it: `0x57` needs one of them, `0x9b` and `0xcc` need two. -/
def Undetected (e : BitVec 8) (following : Nat) : Prop :=
  (1 ≤ following ∧ e = 0x57#8) ∨ (2 ≤ following ∧ (e = 0x9b#8 ∨ e = 0xcc#8))

instance (e : BitVec 8) (following : Nat) : Decidable (Undetected e following) :=
  inferInstanceAs (Decidable (_ ∨ _))

theorem iterate_residue_eq_zero_iff_undetected {e : BitVec 8} (ne : e ≠ 0#8) (following : Nat) :
    residue^[following] e = 0#8 ↔ Undetected e following := by
  match following with
  | 0 => simp [Undetected, ne]
  | 1 =>
      rw [Function.iterate_one, (residue_facts e).1]
      simp [Undetected, ne]
  | k + 2 =>
      rw [iterate_residue_eq_zero_iff, (residue_facts e).2.1]
      simp [Undetected, ne]

/-- Two images that agree up to one byte have equal checksums exactly if the
difference of that byte is one the following bytes lose. -/
theorem crc32_eq_iff (pre post : List (BitVec 8)) {b b' : BitVec 8} (ne : b ≠ b') :
    crc32 (pre ++ b :: post) = crc32 (pre ++ b' :: post) ↔
      Undetected (b ^^^ b') post.length := by
  have start : crc32Step (pre.foldl crc32Step 0xFFFFFFFF) b ^^^
      crc32Step (pre.foldl crc32Step 0xFFFFFFFF) b' = entry (b ^^^ b') := by
    generalize pre.foldl crc32Step 0xFFFFFFFF = s
    rw [crc32Step_eq, crc32Step_eq]
    calc s ^^^ entry (b ^^^ s.setWidth 8) ^^^ (s ^^^ entry (b' ^^^ s.setWidth 8))
        = (s ^^^ s) ^^^ (entry (b ^^^ s.setWidth 8) ^^^ entry (b' ^^^ s.setWidth 8)) := by ac_rfl
      _ = entry ((b ^^^ s.setWidth 8) ^^^ (b' ^^^ s.setWidth 8)) := by
          rw [entry_xor (b ^^^ _)]
          simp
      _ = entry ((b ^^^ b') ^^^ (s.setWidth 8 ^^^ s.setWidth 8)) := by congr 1; ac_rfl
      _ = entry (b ^^^ b') := by simp
  have differ : b ^^^ b' ≠ 0#8 := fun h => ne (BitVec.xor_eq_zero_iff.mp h)
  have whole := foldl_crc32Step_xor post start
  simp only [crc32, List.foldl_append, List.foldl_cons]
  rw [← BitVec.xor_eq_zero_iff, whole, entry_eq_zero_iff,
    iterate_residue_eq_zero_iff_undetected differ]

/-! ## Single corrupted bytes -/

/-- `xs` and `ys` have one length and differ in the byte at `i` alone. -/
structure DifferAt (xs ys : List (BitVec 8)) (i : Nat) : Prop where
  length : xs.length = ys.length
  bound : i < xs.length
  differ : xs.getD i 0 ≠ ys.getD i 0
  agree : ∀ j, j ≠ i → xs.getD j 0 = ys.getD j 0

theorem DifferAt.split {xs ys : List (BitVec 8)} {i : Nat} (h : DifferAt xs ys i) :
    xs = xs.take i ++ xs.getD i 0 :: xs.drop (i + 1) ∧
      ys = xs.take i ++ ys.getD i 0 :: xs.drop (i + 1) := by
  have boundY : i < ys.length := h.length ▸ h.bound
  have splitAt : ∀ zs : List (BitVec 8), i < zs.length →
      zs = zs.take i ++ zs.getD i 0 :: zs.drop (i + 1) := by
    intro zs bound
    rw [List.getD_eq_getElem _ _ bound, List.getElem_cons_drop, List.take_append_drop]
  have agree : ∀ (j : Nat) (h₁ : j < xs.length) (h₂ : j < ys.length), j ≠ i →
      ys[j] = xs[j] := by
    intro j h₁ h₂ ne
    have same := h.agree j ne
    rw [List.getD_eq_getElem _ _ h₁, List.getD_eq_getElem _ _ h₂] at same
    exact same.symm
  have front : ys.take i = xs.take i := by
    apply List.ext_getElem
    · simp [h.length]
    · intro j h₁ h₂
      simp only [List.length_take] at h₁ h₂
      simp only [List.getElem_take]
      exact agree j (by omega) (by omega) (by omega)
  have back : ys.drop (i + 1) = xs.drop (i + 1) := by
    apply List.ext_getElem
    · simp [h.length]
    · intro j h₁ h₂
      simp only [List.length_drop] at h₁ h₂
      simp only [List.getElem_drop]
      exact agree (i + 1 + j) (by omega) (by omega) (by omega)
  refine ⟨splitAt xs h.bound, ?_⟩
  conv_lhs => rw [splitAt ys boundY, front, back]

/-- One corrupted byte changes the checksum, and with it makes `kmain` reject
the image, exactly if its difference is not one that the bytes after it lose. -/
theorem crc32_detects_iff (xs ys : List (BitVec 8)) (i : Nat) (h : DifferAt xs ys i) :
    (crc32 xs ≠ crc32 ys ↔
        ¬ Undetected (xs.getD i 0 ^^^ ys.getD i 0) (xs.length - (i + 1))) ∧
      (kmainIntegrityCheck (crc32 xs) ys =
          .error (.assertion "kernel integrity check failed!") ↔
        ¬ Undetected (xs.getD i 0 ^^^ ys.getD i 0) (xs.length - (i + 1))) := by
  have same : crc32 xs = crc32 ys ↔
      Undetected (xs.getD i 0 ^^^ ys.getD i 0) (xs.length - (i + 1)) := by
    obtain ⟨splitX, splitY⟩ := h.split
    have key := crc32_eq_iff (xs.take i) (xs.drop (i + 1)) h.differ
    rwa [← splitX, ← splitY, List.length_drop] at key
  refine ⟨not_congr same, ?_⟩
  rw [← same]
  unfold kmainIntegrityCheck kassert
  by_cases eq : crc32 xs = crc32 ys
  · simp [eq]
  · simp [eq]

/-- A corrupted byte in the middle that is noticed, two bytes before the end. -/
theorem crc32_detects_iff_corrupted_magic :
    DifferAt [0x7F, 0x45, 0x4C, 0x46] [0x7F, 0x44, 0x4C, 0x46] 1 ∧
      crc32 [0x7F, 0x45, 0x4C, 0x46] ≠ crc32 [0x7F, 0x44, 0x4C, 0x46] ∧
      kmainIntegrityCheck (crc32 [0x7F, 0x45, 0x4C, 0x46]) [0x7F, 0x44, 0x4C, 0x46] =
        .error (.assertion "kernel integrity check failed!") := by
  have differ : DifferAt [0x7F, 0x45, 0x4C, 0x46] [0x7F, 0x44, 0x4C, 0x46] 1 :=
    ⟨rfl, by decide, by decide, fun j ne => by
      match j, ne with
      | 0, _ => rfl
      | 1, ne => exact absurd rfl ne
      | j + 2, _ => rfl⟩
  have noticed : ¬ Undetected (0x45 ^^^ 0x44) 2 := by decide
  obtain ⟨checksums, check⟩ := crc32_detects_iff _ _ _ differ
  exact ⟨differ, checksums.mpr noticed, check.mpr noticed⟩

/-- A corrupted byte that is not: `00 00` and `57 00` have one checksum, and the
second image passes the check computed for the first. -/
theorem crc32_misses_corrupted_byte :
    DifferAt [0x00, 0x00] [0x57, 0x00] 0 ∧ crc32 [0x00, 0x00] = crc32 [0x57, 0x00] ∧
      kmainIntegrityCheck (crc32 [0x00, 0x00]) [0x57, 0x00] = .ok () := by
  refine ⟨⟨rfl, by decide, by decide, fun j ne => ?_⟩, by decide, by decide⟩
  cases j with
  | zero => exact absurd rfl ne
  | succ j => rfl

end Tyleros.Crc32
