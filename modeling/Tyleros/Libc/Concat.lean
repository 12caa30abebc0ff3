import Tyleros.Libc.String
import Tyleros.Libc.Stdio

/-!
# Concatenating strings

`strcat` and `strncat` of `libc/string.cpp`. Both look for the end of the target; one copies up
to and with the terminator of the source, the other counts and then writes a terminator of its
own. `concatenations`: for strings that do not overlap they append what they are asked to,
agree where that is the same, and change nothing else.
-/

namespace Tyleros.Libc

open Boot.Elf

/-! ## The functions -/

/-- The loop in front, `for (; *dest != '\\0'; ++dest)`. -/
def skipString (mem : Memory) : Nat → BitVec 64 → Except Stop (BitVec 64)
  | 0, _ => .error .hang
  | fuel + 1, dest => if mem dest ≠ 0 then skipString mem fuel (dest + 1) else .ok dest

/-- The loop of `strcat`. -/
def strcatLoop : Nat → BitVec 64 → BitVec 64 → Memory → Except Stop Memory
  | 0, _, _, _ => .error .hang
  | fuel + 1, dest, src, mem =>
    let mem := Function.update mem dest (mem src)
    if mem src ≠ 0 then strcatLoop fuel (dest + 1) (src + 1) mem else .ok mem

/-- `strcat(dest, src)`. -/
def strcat (dest src : BitVec 64) (mem : Memory) : Except Stop (BitVec 64 × Memory) := do
  let end_ ← skipString mem ROUNDS dest
  let mem ← strcatLoop ROUNDS end_ src mem
  return (dest, mem)

/-- The loop of `strncat`: where it ends, and memory. -/
def strncatLoop (dest src n : BitVec 64) :
    Nat → BitVec 64 → Memory → Except Stop (BitVec 64 × Memory)
  | 0, _, _ => .error .hang
  | fuel + 1, i, mem =>
    if i < n then
      if mem (src + i) = 0 then .ok (i, mem)
      else strncatLoop dest src n fuel (i + 1) (Function.update mem (dest + i) (mem (src + i)))
    else .ok (i, mem)

/-- `strncat(dest, src, n)`. -/
def strncat (dest src n : BitVec 64) (mem : Memory) : Except Stop (BitVec 64 × Memory) := do
  let end_ ← skipString mem ROUNDS dest
  let (i, mem) ← strncatLoop end_ src n ROUNDS 0 mem
  return (dest, Function.update mem (end_ + i) 0)

/-! ## Strings in memory -/

/-- The string and its terminator stand at an address. -/
structure HoldsString (mem : Memory) (address : BitVec 64) (s : CString) : Prop where
  chars : ∀ i (hi : i < s.chars.length), mem (address + BitVec.ofNat 64 i) = s.chars[i]
  terminated : mem (address + BitVec.ofNat 64 s.chars.length) = 0

/-- One string behind another. -/
def CString.append (s t : CString) : CString where
  chars := s.chars ++ t.chars
  noNul mem := (List.mem_append.mp mem).elim s.noNul t.noNul

/-- The first characters of a string. -/
def CString.take (s : CString) (n : Nat) : CString where
  chars := s.chars.take n
  noNul mem := s.noNul (List.mem_of_mem_take mem)

/-- The bytes of the two ranges do not overlap. -/
def Apart (a : BitVec 64) (m : Nat) (b : BitVec 64) (n : Nat) : Prop :=
  ∀ i j, i < m → j < n → a + BitVec.ofNat 64 i ≠ b + BitVec.ofNat 64 j

section Strings

variable {mem : Memory} {a b : BitVec 64} {s t : CString}

theorem HoldsString.ne_zero (h : HoldsString mem a s) {i : Nat} (hi : i < s.chars.length) :
    mem (a + BitVec.ofNat 64 i) ≠ 0 := by
  rw [h.chars i hi]
  exact fun zero => s.noNul (zero ▸ List.getElem_mem hi)

/-- A string is shorter than memory: its terminator is none of its characters. -/
theorem HoldsString.short (h : HoldsString mem a s) : s.chars.length < 2 ^ 64 := by
  by_contra long
  have again : BitVec.ofNat 64 (s.chars.length - 2 ^ 64) = BitVec.ofNat 64 s.chars.length := by
    apply BitVec.eq_of_toNat_eq
    rw [BitVec.toNat_ofNat, BitVec.toNat_ofNat]
    omega
  have notNul := h.ne_zero (show s.chars.length - 2 ^ 64 < s.chars.length by omega)
  rw [again] at notNul
  exact notNul h.terminated

/-- What is apart from something does not cover all of memory. -/
theorem Apart.short {m n : Nat} (apart : Apart a m b n) (nonempty : 0 < n) : m ≤ 2 ^ 64 := by
  by_contra long
  have bound := (b - a).isLt
  refine apart (b - a).toNat 0 (by omega) nonempty ?_
  rw [BitVec.ofNat_toNat, BitVec.setWidth_eq]
  bv_omega

theorem HoldsString.skip (h : HoldsString mem a s) :
    skipString mem ROUNDS a = .ok (a + BitVec.ofNat 64 s.chars.length) := by
  have loop (fuel i : Nat) (inside : i ≤ s.chars.length) (enough : s.chars.length < i + fuel) :
      skipString mem fuel (a + BitVec.ofNat 64 i) =
        .ok (a + BitVec.ofNat 64 s.chars.length) := by
    induction fuel generalizing i with
    | zero => omega
    | succ fuel ih =>
        unfold skipString
        rcases Nat.eq_or_lt_of_le inside with rfl | before
        · rw [if_neg (not_not_intro h.terminated)]
        · have next : a + BitVec.ofNat 64 i + 1 = a + BitVec.ofNat 64 (i + 1) := by bv_omega
          rw [if_pos (h.ne_zero before), next]
          exact ih (i + 1) before (by omega)
  have start := loop ROUNDS 0 (Nat.zero_le _) (by
    have short := h.short
    have rounds : ROUNDS = 2 ^ 64 + 1 := rfl
    omega)
  rw [BitVec.add_zero] at start
  exact start

end Strings

/-! ## The loops -/

section Loops

variable {mem : Memory} {dest src n : BitVec 64} {s : CString} {k m : Nat}

/-- What is copied from elsewhere is still there. -/
theorem copied_source (mem : Memory) (apart : Apart dest m src k) {j : Nat} (hj : j < k) :
    copied dest src 0 m mem (src + BitVec.ofNat 64 j) = mem (src + BitVec.ofNat 64 j) := by
  refine if_neg fun inside => ?_
  refine apart (src + BitVec.ofNat 64 j - dest).toNat j inside.2 hj ?_
  rw [BitVec.ofNat_toNat, BitVec.setWidth_eq]
  bv_omega

theorem Apart.mono {m' k' : Nat} (apart : Apart dest m src k) (le : m' ≤ m) (le' : k' ≤ k) :
    Apart dest m' src k' :=
  fun i j hi hj => apart i j (by omega) (by omega)

/-- One more byte. -/
theorem update_copied (mem : Memory) (apart : Apart dest (m + 1) src (m + 1)) (wide : m < 2 ^ 64) :
    Function.update (copied dest src 0 m mem) (dest + BitVec.ofNat 64 m)
        (mem (src + BitVec.ofNat 64 m)) =
      copied dest src 0 (m + 1) mem := by
  have source : copied dest src 0 m mem (src + BitVec.ofNat 64 m) =
      mem (src + BitVec.ofNat 64 m) :=
    copied_source mem (apart.mono (Nat.le_succ m) (Nat.le_refl _)) (Nat.lt_succ_self m)
  funext x
  rw [Function.update_apply]
  unfold copied
  split
  · next here =>
      have offset : x - dest = BitVec.ofNat 64 m := by
        rw [here]
        bv_omega
      have value : (BitVec.ofNat 64 m).toNat = m := Nat.mod_eq_of_lt wide
      rw [offset, value, if_pos ⟨Nat.zero_le m, Nat.lt_succ_self m⟩]
  · next elsewhere =>
      refine if_congr ?_ rfl rfl
      have other : (x - dest).toNat ≠ m := by
        intro same
        apply elsewhere
        rw [← same, BitVec.ofNat_toNat, BitVec.setWidth_eq]
        bv_omega
      omega

/-- The loop of `strcat` copies the string with its terminator. -/
theorem strcatLoop_eq (holds : HoldsString mem src s)
    (apart : Apart dest (s.chars.length + 1) src (s.chars.length + 1)) {fuel i : Nat}
    (inside : i ≤ s.chars.length) (enough : s.chars.length < i + fuel) :
    strcatLoop fuel (dest + BitVec.ofNat 64 i) (src + BitVec.ofNat 64 i)
        (copied dest src 0 i mem) =
      .ok (copied dest src 0 (s.chars.length + 1) mem) := by
  have short := holds.short
  induction fuel generalizing i with
  | zero => omega
  | succ fuel ih =>
      have source : copied dest src 0 i mem (src + BitVec.ofNat 64 i) =
          mem (src + BitVec.ofNat 64 i) :=
        copied_source mem (apart.mono (by omega) (Nat.le_refl _)) (by omega)
      have source' : copied dest src 0 (i + 1) mem (src + BitVec.ofNat 64 i) =
          mem (src + BitVec.ofNat 64 i) :=
        copied_source mem (apart.mono (by omega) (Nat.le_refl _)) (by omega)
      have step := update_copied mem
        (apart.mono (show i + 1 ≤ _ by omega) (show i + 1 ≤ _ by omega)) (by omega)
      unfold strcatLoop
      dsimp only
      rw [source, step, source']
      rcases Nat.eq_or_lt_of_le inside with rfl | before
      · rw [if_neg (not_not_intro holds.terminated)]
      · have next : dest + BitVec.ofNat 64 i + 1 = dest + BitVec.ofNat 64 (i + 1) := by bv_omega
        have next' : src + BitVec.ofNat 64 i + 1 = src + BitVec.ofNat 64 (i + 1) := by bv_omega
        rw [if_pos (holds.ne_zero before), next, next']
        exact ih before (by omega)

/-- The loop of `strncat` copies characters, no more than `n` and none behind the string. -/
theorem strncatLoop_eq (holds : HoldsString mem src s)
    (apart : Apart dest (min n.toNat s.chars.length + 1) src (s.chars.length + 1)) {fuel i : Nat}
    (inside : i ≤ min n.toNat s.chars.length) (enough : min n.toNat s.chars.length < i + fuel) :
    strncatLoop dest src n fuel (BitVec.ofNat 64 i) (copied dest src 0 i mem) =
      .ok (BitVec.ofNat 64 (min n.toNat s.chars.length),
        copied dest src 0 (min n.toNat s.chars.length) mem) := by
  have short := holds.short
  have bound := n.isLt
  induction fuel generalizing i with
  | zero => omega
  | succ fuel ih =>
      have source : copied dest src 0 i mem (src + BitVec.ofNat 64 i) =
          mem (src + BitVec.ofNat 64 i) :=
        copied_source mem (apart.mono (by omega) (Nat.le_refl _)) (by omega)
      have test : BitVec.ofNat 64 i < n ↔ i < n.toNat := by bv_omega
      unfold strncatLoop
      rw [source]
      rcases Nat.eq_or_lt_of_le inside with last | before
      · rw [last]
        split
        · next goesOn =>
            have all : min n.toNat s.chars.length = s.chars.length := by
              have before := test.mp (last ▸ goesOn)
              omega
            rw [all, if_pos holds.terminated]
        · rfl
      · have step := update_copied mem
          (apart.mono (show i + 1 ≤ _ by omega) (show i + 1 ≤ _ by omega)) (by omega)
        have next : BitVec.ofNat 64 i + 1 = BitVec.ofNat 64 (i + 1) := by bv_omega
        rw [if_pos (test.mpr (by omega)), if_neg (holds.ne_zero (by omega)), step, next]
        exact ih before (by omega)

end Loops

/-! ## What is left in memory -/

/-- The call returns the target, which is the first string with the second behind it, and has
changed nothing but the bytes from the old terminator to the new one. -/
def Concatenates (result : Except Stop (BitVec 64 × Memory)) (mem : Memory) (dest : BitVec 64)
    (d t : CString) : Prop :=
  ∃ mem', result = .ok (dest, mem') ∧ HoldsString mem' dest (d.append t) ∧
    ∀ x, ¬ InRange x (dest + BitVec.ofNat 64 d.chars.length) (t.chars.length + 1) → mem' x = mem x

section Results

variable {mem : Memory} {dest src : BitVec 64} {d s : CString} {m : Nat}

/-- Ranges behind the beginning of one that is apart. -/
theorem Apart.behind {a b : BitVec 64} {l n : Nat} (apart : Apart a (l + m) b n) :
    Apart (a + BitVec.ofNat 64 l) m b n := by
  intro i j hi hj same
  refine apart (l + i) j (by omega) hj ?_
  rw [← same]
  bv_omega

/-- Memory with `m` characters of the source and a terminator behind the target. -/
def appended (mem : Memory) (dest src : BitVec 64) (l m : Nat) : Memory :=
  Function.update (copied (dest + BitVec.ofNat 64 l) src 0 m mem)
    (dest + BitVec.ofNat 64 l + BitVec.ofNat 64 m) 0

theorem appended_of_outside {l : Nat} (wide : l + m < 2 ^ 64) {x : BitVec 64}
    (outside : ¬ InRange x (dest + BitVec.ofNat 64 l) (m + 1)) :
    appended mem dest src l m x = mem x := by
  unfold InRange at outside
  unfold appended
  rw [Function.update_of_ne]
  · exact if_neg fun inside => outside (Nat.lt_succ_of_lt inside.2)
  · intro same
    apply outside
    rw [same]
    bv_omega

theorem appended_of_inside {l : Nat} (wide : l + m < 2 ^ 64) {i : Nat} (hi : i < m) :
    appended mem dest src l m (dest + BitVec.ofNat 64 (l + i)) =
      mem (src + BitVec.ofNat 64 i) := by
  have offset : dest + BitVec.ofNat 64 (l + i) - (dest + BitVec.ofNat 64 l) =
      BitVec.ofNat 64 i := by bv_omega
  have value : (BitVec.ofNat 64 i).toNat = i := Nat.mod_eq_of_lt (by omega)
  unfold appended
  rw [Function.update_of_ne (by bv_omega)]
  unfold copied
  rw [offset, value, if_pos ⟨Nat.zero_le i, hi⟩]

theorem appended_end {l : Nat} :
    appended mem dest src l m (dest + BitVec.ofNat 64 (l + m)) = 0 := by
  have place : dest + BitVec.ofNat 64 (l + m) =
      dest + BitVec.ofNat 64 l + BitVec.ofNat 64 m := by bv_omega
  unfold appended
  rw [place, Function.update_self]

/-- That is what it means to concatenate. -/
theorem concatenates_appended {result : Except Stop (BitVec 64 × Memory)}
    (run : result = .ok (dest, appended mem dest src d.chars.length m))
    (target : HoldsString mem dest d) (source : HoldsString mem src s) (le : m ≤ s.chars.length)
    (wide : d.chars.length + m < 2 ^ 64) :
    Concatenates result mem dest d (s.take m) := by
  have taken : (s.take m).chars.length = m := List.length_take_of_le le
  have whole : (d.append (s.take m)).chars.length = d.chars.length + m := by
    unfold CString.append
    rw [List.length_append, taken]
  refine ⟨_, run, ?_, ?_⟩
  · constructor
    case chars =>
      intro i hi
      have parts : (d.append (s.take m)).chars = d.chars ++ s.chars.take m := rfl
      rw [List.getElem_of_eq parts hi]
      rw [whole] at hi
      rcases Nat.lt_or_ge i d.chars.length with first | second
      · rw [List.getElem_append_left first, ← target.chars i first]
        refine appended_of_outside wide fun inside => ?_
        unfold InRange at inside
        bv_omega
      · obtain ⟨j, rfl⟩ := Nat.exists_eq_add_of_le second
        have inside : j < m := by omega
        have there := source.chars j (by omega)
        rw [appended_of_inside wide inside, there, List.getElem_append_right (by omega)]
        simp only [Nat.add_sub_cancel_left, List.getElem_take]
    case terminated =>
      rw [whole]
      exact appended_end
  · intro x outside
    rw [taken] at outside
    exact appended_of_outside wide outside

theorem strncat_eq (target : HoldsString mem dest d) (source : HoldsString mem src s)
    (n : BitVec 64)
    (apart : Apart dest (d.chars.length + (min n.toNat s.chars.length + 1)) src
      (s.chars.length + 1)) :
    strncat dest src n mem =
      .ok (dest, appended mem dest src d.chars.length (min n.toNat s.chars.length)) := by
  have short := source.short
  have rounds : ROUNDS = 2 ^ 64 + 1 := rfl
  have loop := strncatLoop_eq source apart.behind (Nat.zero_le _)
    (show min n.toNat s.chars.length < 0 + ROUNDS by omega)
  rw [copied_empty] at loop
  unfold strncat
  rw [target.skip, ok_bind]
  have run : strncatLoop (dest + BitVec.ofNat 64 d.chars.length) src n ROUNDS 0 mem = _ := loop
  rw [run]
  rfl

theorem strcat_eq (target : HoldsString mem dest d) (source : HoldsString mem src s)
    (apart : Apart dest (d.chars.length + (s.chars.length + 1)) src (s.chars.length + 1)) :
    strcat dest src mem =
      .ok (dest, appended mem dest src d.chars.length s.chars.length) := by
  have short := source.short
  have rounds : ROUNDS = 2 ^ 64 + 1 := rfl
  have loop := strcatLoop_eq source apart.behind (Nat.zero_le _)
    (show s.chars.length < 0 + ROUNDS by omega)
  rw [copied_empty, BitVec.add_zero, BitVec.add_zero] at loop
  -- the terminator that is copied is the one that `strncat` writes
  have last := update_copied mem (apart.behind.mono (Nat.le_refl _) (Nat.le_refl _)) short
  rw [source.terminated] at last
  unfold strcat
  rw [target.skip, ok_bind, loop, ← last]
  rfl

theorem CString.take_of_le {n : Nat} (enough : s.chars.length ≤ n) : s.take n = s := by
  unfold CString.take
  congr 1
  exact List.take_of_length_le enough

end Results

/-- `strncat` appends the first `n` characters of the source or all of them, `strcat` appends all
of them and does the same as `strncat` for every `n` that is not below their number. Both
return the target and change nothing but the bytes from its old terminator to the new one. -/
theorem concatenations {mem : Memory} {dest src : BitVec 64} {d s : CString}
    (target : HoldsString mem dest d) (source : HoldsString mem src s) :
    (∀ n : BitVec 64,
      Apart dest (d.chars.length + (min n.toNat s.chars.length + 1)) src (s.chars.length + 1) →
        Concatenates (strncat dest src n mem) mem dest d (s.take n.toNat)) ∧
    (Apart dest (d.chars.length + (s.chars.length + 1)) src (s.chars.length + 1) →
      Concatenates (strcat dest src mem) mem dest d s ∧
        ∀ n : BitVec 64, s.chars.length ≤ n.toNat → strcat dest src mem = strncat dest src n mem) := by
  constructor
  · intro n apart
    have wide := apart.short (Nat.succ_pos _)
    have result := concatenates_appended (strncat_eq target source n apart) target source
      (Nat.min_le_right _ _) (by omega)
    have same : s.take (min n.toNat s.chars.length) = s.take n.toNat := by
      unfold CString.take
      congr 1
      exact List.take_eq_take_min.symm
    rw [same] at result
    exact result
  · intro apart
    have wide := apart.short (Nat.succ_pos _)
    have run := strcat_eq target source apart
    have result := concatenates_appended run target source (Nat.le_refl _) (by omega)
    rw [CString.take_of_le (Nat.le_refl _)] at result
    refine ⟨result, fun n enough => ?_⟩
    have all : min n.toNat s.chars.length = s.chars.length := Nat.min_eq_right enough
    have run' := strncat_eq target source n (by rw [all]; exact apart)
    rw [run, run', all]

/-- `"ab"` at `0x1000` and `"cd"` at `0x2000`. -/
def sampleMemory : Memory := fun x =>
  if x = 0x1000 then 0x61 else if x = 0x1001 then 0x62
  else if x = 0x2000 then 0x63 else if x = 0x2001 then 0x64 else 0

/-- `"abc"` for one character, and `"abcd"` for all of them. -/
theorem concatenations_sample :
    Concatenates (strncat 0x1000 0x2000 1 sampleMemory) sampleMemory 0x1000
        ⟨[0x61, 0x62], by decide⟩ ⟨[0x63], by decide⟩ ∧
      Concatenates (strcat 0x1000 0x2000 sampleMemory) sampleMemory 0x1000
        ⟨[0x61, 0x62], by decide⟩ ⟨[0x63, 0x64], by decide⟩ ∧
      strcat 0x1000 0x2000 sampleMemory = strncat 0x1000 0x2000 2 sampleMemory := by
  have target : HoldsString sampleMemory 0x1000 ⟨[0x61, 0x62], by decide⟩ :=
    ⟨by decide, by decide⟩
  have source : HoldsString sampleMemory 0x2000 ⟨[0x63, 0x64], by decide⟩ :=
    ⟨by decide, by decide⟩
  have apart (m : Nat) (small : m ≤ 5) : Apart 0x1000 m 0x2000 3 := by
    intro i j hi hj
    bv_omega
  obtain ⟨some_, all⟩ := concatenations target source
  obtain ⟨whole, same⟩ := all (apart 5 (by decide))
  exact ⟨some_ 1 (apart 4 (by decide)), whole, same 2 (by decide)⟩

end Tyleros.Libc
