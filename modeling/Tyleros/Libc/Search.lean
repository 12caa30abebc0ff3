import Tyleros.Libc.Stdio
import Mathlib.Data.Nat.Find

/-!
# Searching bytes and strings

`memchr`, `memcmp`, `memstr` and `strstr` of `libc/string.cpp`. A pointer is an offset into its
object, which is the list of its bytes, and a read outside of the object is `none`.

`strstr_finds`: `strstr` is right, and it reads both strings up to their terminators only.
`memstr_finds_iff`: `memstr` does not look at the last place in the region on its own, and it
gives `memchr` and `memcmp` more bytes than the region has left.
-/

namespace Tyleros.Libc

/-! ## The functions -/

/-- The bytes of a string, with the terminator. -/
def CString.bytes (s : CString) : List UInt8 := s.chars ++ [0]

/-- The loop of `memchr`, from byte `i` on with `left` rounds left. -/
def memchrLoop (object : List UInt8) (ptr : Nat) (c : UInt8) : Nat → Nat → Option (Option Nat)
  | 0, _ => some none
  | left + 1, i => do
    let hay ← object[ptr + i]?
    if hay = c then some (some (ptr + i)) else memchrLoop object ptr c left (i + 1)

/-- `memchr(ptr, ch, count)`. -/
def memchr (object : List UInt8) (ptr : Nat) (ch : BitVec 32) (count : Nat) :
    Option (Option Nat) :=
  memchrLoop object ptr ⟨ch.setWidth 8⟩ count 0

/-- The loop of `memcmp`, from byte `i` on with `left` rounds left. -/
def memcmpLoop (a : List UInt8) (lhs : Nat) (b : List UInt8) (rhs : Nat) :
    Nat → Nat → Option Int
  | 0, _ => some 0
  | left + 1, i => do
    let x ← a[lhs + i]?
    let y ← b[rhs + i]?
    if x < y then some (-1)
    else if x > y then some 1
    else memcmpLoop a lhs b rhs left (i + 1)

/-- `memcmp(lhs, rhs, count)`. -/
def memcmp (a : List UInt8) (lhs : Nat) (b : List UInt8) (rhs count : Nat) : Option Int :=
  memcmpLoop a lhs b rhs count 0

/-- The loop of `strlen`. Every round reads a byte more, so that the object bounds the rounds. -/
def strlenLoop (src : List UInt8) : Nat → Nat → Option Nat
  | 0, _ => none
  | fuel + 1, len => do
    let c ← src[len]?
    if c ≠ 0 then strlenLoop src fuel (len + 1) else some len

/-- `strlen(src)`. -/
def strlen (src : List UInt8) : Option Nat := strlenLoop src src.length 0

/-- A `char` as an `int`. -/
def promote (c : UInt8) : BitVec 32 := c.toBitVec.signExtend 32

/-- The loop of `memstr`. Every round begins a byte further at least, so that the size of the
region bounds the rounds. -/
def memstrLoop (src needle : List UInt8) (count len : Nat) : Nat → Nat → Option (Option Nat)
  | 0, _ => some none
  | fuel + 1, hay =>
    if hay + len < count then do
      let first ← needle[0]?
      let start ← memchr src hay (promote first) count
      match start with
      | none => some none
      | some start => do
        let order ← memcmp src start needle 0 len
        if order = 0 then some (some start) else memstrLoop src needle count len fuel (start + 1)
    else some none

/-- `memstr(src, needle, count)`. -/
def memstr (src needle : List UInt8) (count : Nat) : Option (Option Nat) := do
  let len ← strlen needle
  memstrLoop src needle count len count 0

/-- The inner loop of `strstr`: whether it gets to the end of the needle. -/
def strstrMatch (str sub : List UInt8) : Nat → Nat → Nat → Option Bool
  | 0, _, _ => none
  | fuel + 1, matchEnd, needle => do
    let c ← sub[needle]?
    if c = 0 then some true
    else
      let hay ← str[matchEnd]?
      if hay = c then strstrMatch str sub fuel (matchEnd + 1) (needle + 1) else some false

/-- The outer loop of `strstr`. -/
def strstrLoop (str sub : List UInt8) : Nat → Nat → Option (Option Nat)
  | 0, _ => none
  | fuel + 1, hay => do
    let found ← strstrMatch str sub sub.length hay 0
    if found then some (some hay)
    else
      let c ← str[hay]?
      if c ≠ 0 then strstrLoop str sub fuel (hay + 1) else some none

/-- `strstr(str, sub)`. -/
def strstr (str sub : List UInt8) : Option (Option Nat) := strstrLoop str sub str.length 0

/-! ## What is searched for -/

/-- The needle occurs at offset `p`. -/
def OccursAt (hay needle : List UInt8) (p : Nat) : Prop :=
  p + needle.length ≤ hay.length ∧ needle <+: hay.drop p

/-- The result is the first place from `start` on at which the needle occurs, or that there is
none. -/
def FindsFirst (hay needle : List UInt8) (start : Nat) : Option Nat → Prop
  | none => ∀ q, start ≤ q → ¬ OccursAt hay needle q
  | some p => start ≤ p ∧ OccursAt hay needle p ∧ ∀ q, start ≤ q → q < p → ¬ OccursAt hay needle q

theorem occursAt_iff {hay needle : List UInt8} {p : Nat} (inside : p ≤ hay.length) :
    OccursAt hay needle p ↔ needle <+: hay.drop p := by
  refine ⟨And.right, fun front => ⟨?_, front⟩⟩
  have short := front.length_le
  rw [List.length_drop] at short
  omega

/-- Without an occurrence up to there the search goes on behind it. -/
theorem FindsFirst.of_le {hay needle : List UInt8} {start later : Nat} {r : Option Nat}
    (le : start ≤ later) (nowhere : ∀ q, start ≤ q → q < later → ¬ OccursAt hay needle q) :
    FindsFirst hay needle later r ↔ FindsFirst hay needle start r := by
  cases r with
  | none =>
      constructor
      · intro behind q hq
        rcases Nat.lt_or_ge q later with before | after
        · exact nowhere q hq before
        · exact behind q after
      · exact fun all q hq => all q (by omega)
  | some p =>
      constructor
      · intro ⟨inside, occurs, behind⟩
        refine ⟨by omega, occurs, fun q hq before => ?_⟩
        rcases Nat.lt_or_ge q later with early | after
        · exact nowhere q hq early
        · exact behind q after before
      · intro ⟨inside, occurs, all⟩
        rcases Nat.lt_or_ge p later with early | after
        · exact absurd occurs (nowhere p inside early)
        · exact ⟨after, occurs, fun q hq before => all q (by omega) before⟩

theorem some_bind {α β : Type} (a : α) (f : α → Option β) : (some a >>= f) = f a := rfl

section Strings

variable {s : CString} {i : Nat}

theorem CString.length_bytes (s : CString) : s.bytes.length = s.chars.length + 1 := by
  unfold CString.bytes
  rw [List.length_append, List.length_singleton]

theorem CString.getElem?_bytes_of_lt (hi : i < s.chars.length) :
    s.bytes[i]? = some s.chars[i] := by
  unfold CString.bytes
  rw [List.getElem?_append_left hi, List.getElem?_eq_getElem hi]

theorem CString.getElem?_bytes_length (s : CString) : s.bytes[s.chars.length]? = some 0 := by
  unfold CString.bytes
  exact List.getElem?_concat_length

theorem CString.getElem_ne_zero (hi : i < s.chars.length) : s.chars[i] ≠ 0 :=
  fun zero => s.noNul (zero ▸ List.getElem_mem hi)

/-- `strlen` gives the length. -/
theorem strlen_bytes (s : CString) : strlen s.bytes = some s.chars.length := by
  have loop (fuel len : Nat) (inside : len ≤ s.chars.length)
      (enough : s.chars.length + 1 ≤ len + fuel) :
      strlenLoop s.bytes fuel len = some s.chars.length := by
    induction fuel generalizing len with
    | zero => omega
    | succ fuel ih =>
        unfold strlenLoop
        rcases Nat.lt_or_ge len s.chars.length with before | atEnd
        · rw [CString.getElem?_bytes_of_lt before, some_bind,
            if_pos (CString.getElem_ne_zero before)]
          exact ih (len + 1) before (by omega)
        · have last : len = s.chars.length := Nat.le_antisymm inside atEnd
          rw [last, CString.getElem?_bytes_length, some_bind,
            if_neg (not_not_intro rfl)]
  unfold strlen
  rw [s.length_bytes]
  exact loop _ 0 (Nat.zero_le _) (by omega)

end Strings

/-! ## `strstr` -/

section Strstr

variable {str sub : CString}

/-- The inner loop compares up to the end of the needle. -/
theorem strstrMatch_eq {fuel e n : Nat} (inside : e ≤ str.chars.length)
    (inside' : n ≤ sub.chars.length) (enough : sub.chars.length < n + fuel) :
    strstrMatch str.bytes sub.bytes fuel e n =
      some (decide (sub.chars.drop n <+: str.chars.drop e)) := by
  induction fuel generalizing e n with
  | zero => omega
  | succ fuel ih =>
      unfold strstrMatch
      rcases Nat.lt_or_ge n sub.chars.length with more | ended
      · have notNul := CString.getElem_ne_zero more
        rw [CString.getElem?_bytes_of_lt more, some_bind,
          if_neg notNul, List.drop_eq_getElem_cons more]
        rcases Nat.lt_or_ge e str.chars.length with here | atEnd
        · rw [CString.getElem?_bytes_of_lt here, some_bind, List.drop_eq_getElem_cons here]
          by_cases same : str.chars[e] = sub.chars[n]
          · rw [if_pos same, ih here more (by omega), same]
            congr 1
            exact decide_eq_decide.mpr (List.prefix_cons_inj _).symm
          · rw [if_neg same]
            congr 1
            refine (decide_eq_false fun front => same ?_).symm
            exact (List.cons_prefix_cons.mp front).1.symm
        · have last : e = str.chars.length := Nat.le_antisymm inside atEnd
          rw [last, str.getElem?_bytes_length, some_bind, if_neg notNul.symm,
            List.drop_length]
          rfl
      · have last : n = sub.chars.length := Nat.le_antisymm inside' ended
        rw [last, sub.getElem?_bytes_length, some_bind, if_pos rfl,
          List.drop_length, decide_eq_true (List.nil_prefix)]

/-- The outer loop tries every place up to the terminator. -/
theorem strstrLoop_finds {fuel hay : Nat} (inside : hay ≤ str.chars.length)
    (enough : str.chars.length < hay + fuel) :
    ∃ r, strstrLoop str.bytes sub.bytes fuel hay = some r ∧
      FindsFirst str.chars sub.chars hay r := by
  induction fuel generalizing hay with
  | zero => omega
  | succ fuel ih =>
      have compared : strstrMatch str.bytes sub.bytes sub.bytes.length hay 0 =
          some (decide (sub.chars.drop 0 <+: str.chars.drop hay)) :=
        strstrMatch_eq inside (Nat.zero_le _) (by rw [sub.length_bytes]; omega)
      unfold strstrLoop
      rw [compared, some_bind]
      by_cases here : sub.chars <+: str.chars.drop hay
      · have found : decide (sub.chars.drop 0 <+: str.chars.drop hay) = true := decide_eq_true here
        rw [if_pos found]
        exact ⟨some hay, rfl, Nat.le_refl _, (occursAt_iff inside).mpr here,
          fun q hq before => absurd hq (by omega)⟩
      · have missed : ¬ decide (sub.chars.drop 0 <+: str.chars.drop hay) = true :=
          fun found => here (of_decide_eq_true found)
        have notHere := mt (occursAt_iff inside).mp here
        rw [if_neg missed]
        rcases Nat.lt_or_ge hay str.chars.length with more | atEnd
        · rw [CString.getElem?_bytes_of_lt more, some_bind,
            if_pos (CString.getElem_ne_zero more)]
          obtain ⟨r, run, first⟩ := ih more (by omega)
          have nowhere (q : Nat) (hq : hay ≤ q) (before : q < hay + 1) :
              ¬ OccursAt str.chars sub.chars q := by
            have same : q = hay := by omega
            exact same ▸ notHere
          exact ⟨r, run, (FindsFirst.of_le (Nat.le_succ hay) nowhere).mp first⟩
        · have last : hay = str.chars.length := Nat.le_antisymm inside atEnd
          rw [last] at notHere ⊢
          rw [str.getElem?_bytes_length, some_bind, if_neg (not_not_intro rfl)]
          refine ⟨none, rfl, fun q hq occurs => ?_⟩
          rcases Nat.eq_or_lt_of_le hq with rfl | behind
          · exact notHere occurs
          · have fits := occurs.1
            omega

/-- `strstr` returns the first place at which `sub` occurs, and null if there is none; it reads
nothing but the strings and their terminators, and ends. -/
theorem strstr_finds (str sub : CString) :
    ∃ r, strstr str.bytes sub.bytes = some r ∧ FindsFirst str.chars sub.chars 0 r := by
  refine strstrLoop_finds (Nat.zero_le _) ?_
  rw [str.length_bytes]
  omega

end Strstr

/-! ## `memchr` and `memcmp` -/

/-- The first place from `ptr` on at which the byte stands. -/
structure FirstByte (object : List UInt8) (c : UInt8) (ptr s : Nat) : Prop where
  behind : ptr ≤ s
  here : object[s]? = some c
  first : ∀ q, ptr ≤ q → q < s → object[q]? ≠ some c

section Memchr

variable {object : List UInt8} {c : UInt8} {ptr left i s : Nat}

theorem FirstByte.unique {s' : Nat} (h : FirstByte object c ptr s) (h' : FirstByte object c ptr s') :
    s = s' := by
  rcases Nat.lt_trichotomy s s' with before | same | behind
  · exact absurd h.here (h'.first s h.behind before)
  · exact same
  · exact absurd h'.here (h.first s' h'.behind behind)

theorem FirstByte.lt_length (h : FirstByte object c ptr s) : s < object.length :=
  (List.getElem?_eq_some_iff.mp h.here).1

/-- Either the byte is found or it is nowhere. -/
theorem firstByte_or_absent (object : List UInt8) (c : UInt8) (ptr : Nat) :
    (∃ s, FirstByte object c ptr s) ∨ ∀ q, ptr ≤ q → object[q]? ≠ some c := by
  by_cases some_ : ∃ s, ptr ≤ s ∧ object[s]? = some c
  · refine Or.inl ⟨Nat.find some_, (Nat.find_spec some_).1, (Nat.find_spec some_).2, ?_⟩
    exact fun q hq before here => Nat.find_min some_ before ⟨hq, here⟩
  · exact Or.inr fun q hq here => some_ ⟨q, hq, here⟩

theorem memchrLoop_found (h : FirstByte object c (ptr + i) s) (inside : s < ptr + i + left) :
    memchrLoop object ptr c left i = some (some s) := by
  induction left generalizing i with
  | zero =>
      have behind := h.behind
      omega
  | succ left ih =>
      have behind := h.behind
      have bound := h.lt_length
      have read : object[ptr + i]? = some object[ptr + i] :=
        List.getElem?_eq_getElem (by omega)
      unfold memchrLoop
      rw [read, some_bind]
      by_cases hit : object[ptr + i] = c
      · have same : s = ptr + i := by
          rcases Nat.eq_or_lt_of_le behind with same | before
          · exact same.symm
          · exact absurd (hit ▸ read) (h.first _ (Nat.le_refl _) before)
        rw [if_pos hit, same]
      · have other : s ≠ ptr + i := by
          intro same
          have here := h.here
          rw [same, read] at here
          exact hit (Option.some.inj here)
        rw [if_neg hit]
        exact ih ⟨by omega, h.here, fun q hq before => h.first q (by omega) before⟩ (by omega)

/-- A byte that is not there is searched for in all of `count` bytes. -/
theorem memchrLoop_absent (absent : ∀ q, ptr + i ≤ q → object[q]? ≠ some c)
    (inside : ptr + i ≤ object.length) :
    memchrLoop object ptr c left i =
      if ptr + i + left ≤ object.length then some none else none := by
  induction left generalizing i with
  | zero => exact (if_pos inside).symm
  | succ left ih =>
      unfold memchrLoop
      rcases Nat.lt_or_ge (ptr + i) object.length with more | ended
      · have read : object[ptr + i]? = some object[ptr + i] := List.getElem?_eq_getElem more
        have miss : object[ptr + i] ≠ c := fun hit => absent _ (Nat.le_refl _) (hit ▸ read)
        have next : ptr + (i + 1) + left = ptr + i + (left + 1) := by omega
        rw [read, some_bind, if_neg miss, ih (fun q hq => absent q (by omega)) (by omega), next]
      · have tooFar : ¬ ptr + i + (left + 1) ≤ object.length := by omega
        rw [List.getElem?_eq_none ended, if_neg tooFar]
        rfl

/-- The byte of a promoted character. -/
theorem ofBitVec_promote (c : UInt8) : (⟨(promote c).setWidth 8⟩ : UInt8) = c := by
  unfold promote
  have same : (c.toBitVec.signExtend 32).setWidth 8 = c.toBitVec := by
    apply BitVec.eq_of_getLsbD_eq
    intro i hi
    have wide : i < 32 := by omega
    rw [BitVec.getLsbD_setWidth, BitVec.getLsbD_signExtend, decide_eq_true hi, decide_eq_true wide,
      if_pos hi, Bool.true_and, Bool.true_and]
  rw [same]

end Memchr

/-- `memcmp` on what is left of the objects: it compares up to the end of the second list, and
reads on if the first one ends before. -/
def compareBytes : List UInt8 → List UInt8 → Option Int
  | _, [] => some 0
  | [], _ :: _ => none
  | x :: a, y :: b => if x < y then some (-1) else if x > y then some 1 else compareBytes a b

theorem memcmpLoop_eq {a b : List UInt8} {lhs rhs left i : Nat}
    (inside : rhs + i + left ≤ b.length) :
    memcmpLoop a lhs b rhs left i =
      compareBytes (a.drop (lhs + i)) ((b.drop (rhs + i)).take left) := by
  induction left generalizing i with
  | zero =>
      rw [List.take_zero]
      cases a.drop (lhs + i) with
      | nil => rfl
      | cons x rest => rfl
  | succ left ih =>
      have more : rhs + i < b.length := by omega
      unfold memcmpLoop
      rw [List.drop_eq_getElem_cons more, List.take_succ_cons]
      rcases Nat.lt_or_ge (lhs + i) a.length with here | ended
      · rw [List.getElem?_eq_getElem here, some_bind, List.getElem?_eq_getElem more, some_bind,
          List.drop_eq_getElem_cons here, compareBytes, ih (by omega)]
        rfl
      · rw [List.getElem?_eq_none ended, List.drop_of_length_le ended]
        rfl

theorem compareBytes_eq_zero_iff {a b : List UInt8} : compareBytes a b = some 0 ↔ b <+: a := by
  induction b generalizing a with
  | nil => exact iff_of_true (by cases a <;> rfl) List.nil_prefix
  | cons y b ih =>
      cases a with
      | nil => exact iff_of_false (fun h => nomatch h) (fun h => nomatch List.prefix_nil.mp h)
      | cons x a =>
          rw [compareBytes, List.cons_prefix_cons]
          split
          · next less =>
              refine iff_of_false (fun h => absurd (Option.some.inj h) (by decide)) ?_
              exact fun h => UInt8.lt_irrefl x (h.1 ▸ less)
          · next notLess =>
              split
              · next greater =>
                  refine iff_of_false (fun h => absurd (Option.some.inj h) (by decide)) ?_
                  exact fun h => UInt8.lt_irrefl x (h.1 ▸ greater)
              · next notGreater =>
                  have same : y = x := UInt8.le_antisymm (UInt8.not_lt.mp notLess)
                    (UInt8.not_lt.mp notGreater)
                  rw [ih]
                  exact ⟨fun h => ⟨same, h⟩, And.right⟩

theorem compareBytes_eq_none_iff {a b : List UInt8} :
    compareBytes a b = none ↔ a <+: b ∧ a.length < b.length := by
  induction b generalizing a with
  | nil =>
      refine iff_of_false (by cases a <;> exact fun h => nomatch h) ?_
      exact fun h => absurd h.2 (Nat.not_lt_zero _)
  | cons y b ih =>
      cases a with
      | nil => exact iff_of_true rfl ⟨List.nil_prefix, Nat.succ_pos _⟩
      | cons x a =>
          rw [compareBytes, List.cons_prefix_cons, List.length_cons, List.length_cons,
            Nat.succ_lt_succ_iff]
          split
          · next less =>
              exact iff_of_false (fun h => nomatch h) fun h => UInt8.lt_irrefl x (h.1.1 ▸ less)
          · next notLess =>
              split
              · next greater =>
                  exact iff_of_false (fun h => nomatch h)
                    fun h => UInt8.lt_irrefl x (h.1.1 ▸ greater)
              · next notGreater =>
                  have same : x = y := UInt8.le_antisymm (UInt8.not_lt.mp notGreater)
                    (UInt8.not_lt.mp notLess)
                  rw [ih]
                  exact ⟨fun h => ⟨⟨same, h.1⟩, h.2⟩, fun h => ⟨h.1.2, h.2⟩⟩

/-! ## `memstr` -/

section Memstr

variable {src : List UInt8} {needle : CString} {c : UInt8} {rest : List UInt8} {hay s : Nat}

theorem memchr_found {count : Nat} (h : FirstByte src c hay s) (inside : s < hay + count) :
    memchr src hay (promote c) count = some (some s) := by
  unfold memchr
  rw [ofBitVec_promote]
  exact memchrLoop_found h inside

theorem memchr_absent (count : Nat) (absent : ∀ q, hay ≤ q → src[q]? ≠ some c)
    (inside : hay ≤ src.length) :
    memchr src hay (promote c) count = if hay + count ≤ src.length then some none else none := by
  unfold memchr
  rw [ofBitVec_promote]
  exact memchrLoop_absent absent inside

theorem memcmp_needle (src : List UInt8) (needle : CString) (s : Nat) :
    memcmp src s needle.bytes 0 needle.chars.length = compareBytes (src.drop s) needle.chars := by
  have whole : (needle.bytes.drop (0 + 0)).take needle.chars.length = needle.chars := by
    unfold CString.bytes
    exact List.take_left
  unfold memcmp
  rw [memcmpLoop_eq (by rw [needle.length_bytes]; omega), whole, Nat.add_zero]

/-- What the last place in the region decides when the search has come to `hay`: it is not looked
at if it is all that is left, or will be after the byte in front of it has been tried; and if
it is, then the first byte there must not be missing, or begin something that the region
cuts off. -/
def EndsWell (src needle : List UInt8) (c : UInt8) (hay : Nat) : Prop :=
  if hay + needle.length = src.length ∨
      hay + needle.length < src.length ∧ src[src.length - needle.length - 1]? = some c then
    ¬ OccursAt src needle (src.length - needle.length)
  else
    (hay = 0 ∧ ∀ q : Nat, src[q]? ≠ some c) ∨
      ∃ s, FirstByte src c (src.length - needle.length) s ∧
        (s = src.length - needle.length ∨ ¬ src.drop s <+: needle)

/-- The regions that `memstr` searches rightly from `hay` on: one that is too short for the
needle, one with an occurrence in front of its last place, and those that end well. -/
def Searchable (src needle : List UInt8) (c : UInt8) (hay : Nat) : Prop :=
  src.length < hay + needle.length ∨
    (∃ p, hay ≤ p ∧ p + needle.length < src.length ∧ OccursAt src needle p) ∨
    hay + needle.length ≤ src.length ∧ EndsWell src needle c hay

/-- The search from `hay` on gets to the first occurrence there, or to null if there is none. -/
def Searches (src : List UInt8) (needle : CString) (fuel hay : Nat) : Prop :=
  ∃ r, memstrLoop src needle.bytes src.length needle.chars.length fuel hay = some r ∧
    FindsFirst src needle.chars hay r

theorem OccursAt.first (starts : needle.chars = c :: rest) {p : Nat}
    (occurs : OccursAt src needle.chars p) : src[p]? = some c := by
  obtain ⟨tail, front⟩ := occurs.2
  rw [starts, List.cons_append] at front
  have head := congrArg List.head? front
  rw [List.head?_cons, List.head?_drop] at head
  exact head.symm

/-- The loop ends when no more than the last place is left. -/
theorem searches_of_ended (fuel : Nat) (ended : ¬ hay + needle.chars.length < src.length) :
    Searches src needle (fuel + 1) hay ↔ Searchable src needle.chars c hay := by
  have stops : memstrLoop src needle.bytes src.length needle.chars.length (fuel + 1) hay =
      some none := by
    unfold memstrLoop
    rw [if_neg ended]
  unfold Searches Searchable
  rw [stops]
  constructor
  · intro ⟨r, run, first⟩
    cases run
    rcases Nat.lt_or_ge src.length (hay + needle.chars.length) with short | fits
    · exact Or.inl short
    · have last : hay + needle.chars.length = src.length := by omega
      refine Or.inr (Or.inr ⟨fits, ?_⟩)
      unfold EndsWell
      rw [if_pos (Or.inl last)]
      exact first _ (by omega)
  · intro searchable
    refine ⟨none, rfl, fun q hq occurs => ?_⟩
    have fits := occurs.1
    rcases searchable with short | ⟨p, hp, before, -⟩ | ⟨fits', ends⟩
    · omega
    · omega
    · have last : hay + needle.chars.length = src.length := by omega
      have place : q = src.length - needle.chars.length := by omega
      unfold EndsWell at ends
      rw [if_pos (Or.inl last)] at ends
      exact ends (place ▸ occurs)

theorem needle_first (starts : needle.chars = c :: rest) : needle.bytes[0]? = some c := by
  unfold CString.bytes
  rw [starts]
  rfl

section Round

variable (starts : needle.chars = c :: rest) (goesOn : hay + needle.chars.length < src.length)
include starts goesOn

/-- A round in which the first byte is nowhere. -/
theorem searches_of_absent (fuel : Nat) (absent : ∀ q, hay ≤ q → src[q]? ≠ some c) :
    Searches src needle (fuel + 1) hay ↔ Searchable src needle.chars c hay := by
  have run : memstrLoop src needle.bytes src.length needle.chars.length (fuel + 1) hay =
      if hay + src.length ≤ src.length then some none else none := by
    unfold memstrLoop
    rw [if_pos goesOn, needle_first starts, some_bind, memchr_absent src.length absent (by omega)]
    split
    · rfl
    · rfl
  have nowhere (q : Nat) (hq : hay ≤ q) : ¬ OccursAt src needle.chars q :=
    fun occurs => absent q hq (occurs.first starts)
  have lastTried : ¬ (hay + needle.chars.length = src.length ∨
      hay + needle.chars.length < src.length ∧
        src[src.length - needle.chars.length - 1]? = some c) := by
    rintro (all | ⟨-, front⟩)
    · omega
    · exact absent _ (by omega) front
  unfold Searches Searchable EndsWell
  rw [run, if_neg lastTried]
  constructor
  · intro ⟨r, run, _⟩
    have start : hay = 0 := by
      by_contra later
      rw [if_neg (by omega)] at run
      cases run
    exact Or.inr (Or.inr ⟨by omega, Or.inl ⟨start, fun q => absent q (by omega)⟩⟩)
  · intro searchable
    rcases searchable with short | ⟨p, hp, -, occurs⟩ | ⟨-, ⟨start, -⟩ | ⟨s, found, -⟩⟩
    · omega
    · exact absurd occurs (nowhere p hp)
    · rw [if_pos (by omega)]
      exact ⟨none, rfl, nowhere⟩
    · have behind := found.behind
      exact absurd found.here (absent s (by omega))

variable (found : FirstByte src c hay s)
include found

/-- The round that compares at the first byte. -/
theorem memstrLoop_found (fuel : Nat) :
    memstrLoop src needle.bytes src.length needle.chars.length (fuel + 1) hay =
      compareBytes (src.drop s) needle.chars >>= fun order =>
        if order = 0 then some (some s)
        else memstrLoop src needle.bytes src.length needle.chars.length fuel (s + 1) := by
  have inside := found.lt_length
  have jump : memchr src hay (promote c) src.length = some (some s) :=
    memchr_found found (by omega)
  rw [memstrLoop]
  rw [if_pos goesOn, needle_first starts, some_bind, jump, some_bind]
  dsimp only
  rw [memcmp_needle]

omit goesOn in
theorem nowhere_before (q : Nat) (hq : hay ≤ q) (before : q < s) :
    ¬ OccursAt src needle.chars q :=
  fun occurs => found.first q hq before (occurs.first starts)

omit starts in
/-- With the first byte in the last place or behind it, nothing is missing of the last place. -/
theorem endsWell_iff_of_late (late : src.length ≤ s + needle.chars.length) :
    EndsWell src needle.chars c hay ↔
      s = src.length - needle.chars.length ∨ ¬ src.drop s <+: needle.chars := by
  have lastTried : ¬ (hay + needle.chars.length = src.length ∨
      hay + needle.chars.length < src.length ∧
        src[src.length - needle.chars.length - 1]? = some c) := by
    rintro (all | ⟨-, front⟩)
    · omega
    · exact found.first _ (by omega) (by omega) front
  have fromLast : FirstByte src c (src.length - needle.chars.length) s :=
    ⟨by omega, found.here, fun q hq before => found.first q (by omega) before⟩
  unfold EndsWell
  rw [if_neg lastTried]
  constructor
  · rintro (⟨-, absent⟩ | ⟨s', found', ends⟩)
    · exact absurd found.here (absent s)
    · rw [found'.unique fromLast] at ends
      exact ends
  · exact fun ends => Or.inr ⟨s, fromLast, ends⟩

/-- The needle is found. -/
theorem searches_of_occurs (fuel : Nat) (occurs : OccursAt src needle.chars s) :
    Searches src needle (fuel + 1) hay ↔ Searchable src needle.chars c hay := by
  have behind := found.behind
  have equal : compareBytes (src.drop s) needle.chars = some 0 :=
    compareBytes_eq_zero_iff.mpr occurs.2
  apply iff_of_true
  · refine ⟨some s, ?_, behind, occurs, nowhere_before starts found⟩
    rw [memstrLoop_found starts goesOn found, equal]
    rfl
  · rcases Nat.lt_or_ge (s + needle.chars.length) src.length with early | late
    · exact Or.inr (Or.inl ⟨s, behind, early, occurs⟩)
    · have last : s = src.length - needle.chars.length := by
        have fits := occurs.1
        omega
      exact Or.inr (Or.inr ⟨by omega, (endsWell_iff_of_late goesOn found late).mpr (Or.inl last)⟩)

/-- The region ends while everything matches. -/
theorem searches_of_cut (fuel : Nat) (cut : compareBytes (src.drop s) needle.chars = none) :
    Searches src needle (fuel + 1) hay ↔ Searchable src needle.chars c hay := by
  obtain ⟨front, short⟩ := compareBytes_eq_none_iff.mp cut
  have inside := found.lt_length
  rw [List.length_drop] at short
  have late : src.length ≤ s + needle.chars.length := by omega
  apply iff_of_false
  · intro ⟨r, run, _⟩
    rw [memstrLoop_found starts goesOn found, cut] at run
    cases run
  · rintro (tooShort | ⟨p, hp, early, occurs⟩ | ⟨-, ends⟩)
    · omega
    · exact nowhere_before starts found p hp (by omega) occurs
    · rcases (endsWell_iff_of_late goesOn found late).mp ends with last | mismatch
      · omega
      · exact mismatch front

/-- The next round, when the needle does not match at the first byte. -/
theorem searches_of_mismatch (fuel : Nat) {order : Int}
    (compared : compareBytes (src.drop s) needle.chars = some order) (differ : order ≠ 0) :
    Searches src needle (fuel + 1) hay ↔ Searches src needle fuel (s + 1) := by
  have notHere : ¬ OccursAt src needle.chars s := by
    intro occurs
    rw [compareBytes_eq_zero_iff.mpr occurs.2] at compared
    exact differ (Option.some.inj compared).symm
  have nowhere (q : Nat) (hq : hay ≤ q) (before : q < s + 1) : ¬ OccursAt src needle.chars q := by
    rcases Nat.eq_or_lt_of_le (Nat.le_of_lt_succ before) with rfl | early
    · exact notHere
    · exact nowhere_before starts found q hq early
  unfold Searches
  rw [memstrLoop_found starts goesOn found, compared, some_bind, if_neg differ]
  refine exists_congr fun r => and_congr_right' ?_
  exact (FindsFirst.of_le (Nat.le_succ_of_le found.behind) nowhere).symm

theorem searchable_of_mismatch (notHere : ¬ OccursAt src needle.chars s)
    (mismatch : src.length < s + needle.chars.length → ¬ src.drop s <+: needle.chars) :
    Searchable src needle.chars c hay ↔ Searchable src needle.chars c (s + 1) := by
  have behind := found.behind
  rcases Nat.lt_or_ge (s + needle.chars.length) src.length with early | late
  · have sameTest : (hay + needle.chars.length = src.length ∨
        hay + needle.chars.length < src.length ∧
          src[src.length - needle.chars.length - 1]? = some c) ↔
        (s + 1 + needle.chars.length = src.length ∨
          s + 1 + needle.chars.length < src.length ∧
            src[src.length - needle.chars.length - 1]? = some c) := by
      constructor
      · rintro (all | ⟨-, front⟩)
        · omega
        · rcases Nat.lt_or_ge (s + 1 + needle.chars.length) src.length with more | last
          · exact Or.inr ⟨more, front⟩
          · exact Or.inl (by omega)
      · rintro (last | ⟨more, front⟩)
        · have place : src.length - needle.chars.length - 1 = s := by omega
          exact Or.inr ⟨goesOn, place.symm ▸ found.here⟩
        · exact Or.inr ⟨goesOn, front⟩
    have sameEnd : EndsWell src needle.chars c hay ↔ EndsWell src needle.chars c (s + 1) := by
      unfold EndsWell
      rw [if_congr sameTest rfl rfl]
      split
      · exact Iff.rfl
      · refine or_congr_left (iff_of_false ?_ ?_)
        · exact fun h => h.2 s found.here
        · exact fun h => h.2 s found.here
    have sameEarly : (∃ p, hay ≤ p ∧ p + needle.chars.length < src.length ∧
        OccursAt src needle.chars p) ↔
        ∃ p, s + 1 ≤ p ∧ p + needle.chars.length < src.length ∧ OccursAt src needle.chars p := by
      constructor
      · intro ⟨p, hp, fits, occurs⟩
        refine ⟨p, ?_, fits, occurs⟩
        by_contra before
        rcases Nat.eq_or_lt_of_le (Nat.le_of_not_lt before) with rfl | less
        · exact notHere occurs
        · exact nowhere_before starts found p hp less occurs
      · exact fun ⟨p, hp, fits, occurs⟩ => ⟨p, by omega, fits, occurs⟩
    unfold Searchable
    rw [sameEnd, sameEarly]
    refine or_congr (iff_of_false (by omega) (by omega)) (or_congr_right (and_congr_left' ?_))
    exact iff_of_true (by omega) (by omega)
  · apply iff_of_true
    · refine Or.inr (Or.inr ⟨by omega, (endsWell_iff_of_late goesOn found late).mpr ?_⟩)
      rcases Nat.eq_or_lt_of_le late with last | beyond
      · exact Or.inl (by omega)
      · exact Or.inr (mismatch beyond)
    · exact Or.inl (by omega)

end Round

/-- From any place on, the loop of `memstr` is right exactly if the region can be searched. -/
theorem searches_iff (starts : needle.chars = c :: rest) {fuel : Nat} (enough : src.length ≤ hay + fuel)
    (inside : hay ≤ src.length) :
    Searches src needle fuel hay ↔ Searchable src needle.chars c hay := by
  have nonempty : 0 < needle.chars.length := by
    rw [starts]
    exact Nat.succ_pos _
  induction fuel generalizing hay with
  | zero =>
      apply iff_of_true
      · refine ⟨none, rfl, fun q hq occurs => ?_⟩
        have fits := occurs.1
        omega
      · exact Or.inl (by omega)
  | succ fuel ih =>
      by_cases goesOn : hay + needle.chars.length < src.length
      · rcases firstByte_or_absent src c hay with ⟨s, found⟩ | absent
        · cases compared : compareBytes (src.drop s) needle.chars with
          | none => exact searches_of_cut starts goesOn found fuel compared
          | some order =>
              by_cases equal : order = 0
              · rw [equal] at compared
                have front := compareBytes_eq_zero_iff.mp compared
                have occurs := (occursAt_iff (Nat.le_of_lt found.lt_length)).mpr front
                exact searches_of_occurs starts goesOn found fuel occurs
              · have behind := found.behind
                refine (searches_of_mismatch starts goesOn found fuel compared equal).trans
                  ((ih (by omega) found.lt_length).trans (Iff.symm ?_))
                apply searchable_of_mismatch starts goesOn found
                · intro occurs
                  rw [compareBytes_eq_zero_iff.mpr occurs.2] at compared
                  exact equal (Option.some.inj compared).symm
                · intro beyond front
                  have cut : compareBytes (src.drop s) needle.chars = none := by
                    refine compareBytes_eq_none_iff.mpr ⟨front, ?_⟩
                    have within := found.lt_length
                    rw [List.length_drop]
                    omega
                  exact nomatch compared.symm.trans cut
        · exact searches_of_absent starts goesOn fuel absent
      · exact searches_of_ended fuel goesOn

end Memstr

/-- `memstr` returns the first place in the region at which the whole needle occurs, or null if
there is none, and reads nothing behind the region. -/
def MemstrFinds (src : List UInt8) (needle : CString) : Prop :=
  ∃ r, memstr src needle.bytes src.length = some r ∧ FindsFirst src needle.chars 0 r

/-- `memstr` is right if and only if the region is shorter than the needle, or has an occurrence
in front of its last place, or ends well. -/
theorem memstr_finds_iff (src : List UInt8) {needle : CString} (nonempty : needle.chars ≠ []) :
    MemstrFinds src needle ↔ Searchable src needle.chars (needle.chars.head nonempty) 0 := by
  have run : memstr src needle.bytes src.length =
      memstrLoop src needle.bytes src.length needle.chars.length src.length 0 := by
    unfold memstr
    rw [strlen_bytes]
    rfl
  unfold MemstrFinds
  rw [run]
  exact searches_iff (List.cons_head_tail nonempty).symm (by omega) (Nat.zero_le _)

/-- `"bar"` in `"foo bar"`, as in the tests. -/
theorem memstr_finds_bar :
    MemstrFinds [0x66, 0x6F, 0x6F, 0x20, 0x62, 0x61, 0x72] ⟨[0x62, 0x61, 0x72], by decide⟩ := by
  refine (memstr_finds_iff _ (by decide)).mpr (Or.inr (Or.inr ⟨by decide, ?_⟩))
  unfold EndsWell
  rw [if_neg (by decide)]
  exact Or.inr ⟨4, ⟨by decide, by decide, fun q hq before => absurd hq (Nat.not_le_of_lt before)⟩,
    Or.inl (by decide)⟩

/-- `"ab"` is not found in `"ab"`, and the search for `"ac"` in `"abcd"` reads a fifth byte. -/
theorem memstr_misses :
    (¬ MemstrFinds [0x61, 0x62] ⟨[0x61, 0x62], by decide⟩) ∧
      ¬ MemstrFinds [0x61, 0x62, 0x63, 0x64] ⟨[0x61, 0x63], by decide⟩ := by
  constructor
  · intro ⟨r, run, first⟩
    have null : memstr [0x61, 0x62] (CString.bytes ⟨[0x61, 0x62], by decide⟩) 2 = some none := rfl
    cases null.symm.trans run
    exact first 0 (Nat.le_refl 0) ⟨by decide, List.prefix_refl _⟩
  · intro ⟨r, run, _⟩
    have overrun : memstr [0x61, 0x62, 0x63, 0x64] (CString.bytes ⟨[0x61, 0x63], by decide⟩) 4 =
      none := rfl
    cases overrun.symm.trans run

end Tyleros.Libc
