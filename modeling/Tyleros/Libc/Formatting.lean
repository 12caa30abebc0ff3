import Tyleros.Libc.Pieces

/-!
# Formatting unsigned numbers, characters and strings

A format of literal text, `%%`, `%s`, `%c`, `%u`, `%x` and `%X` with the length modifiers but
without flags is a list of directives, and `rendered` is what they mean for given arguments:
numbers are reduced to the type of the modifier and written as numerals in base 10 or 16.
`vsnprintf_rendered`: that is what `vsnprintf` writes into a buffer that is larger. Its result
is an `int`, which holds the length of the output only below `2 ^ 31`.
-/

namespace Tyleros.Libc

/-! ## Numerals -/

/-- The bytes of characters. -/
def asciiOf (chars : List Char) : List UInt8 := chars.map Char.toUInt8

theorem digitOf_false {d : Nat} (hd : d < 16) :
    digitOf false d = (Nat.digitChar d).toUInt8 := by
  have all : ∀ d : Fin 16, digitOf false (d : Nat) = (Nat.digitChar d).toUInt8 := by
    decide
  exact all ⟨d, hd⟩

theorem digitOf_true {d : Nat} (hd : d < 16) :
    digitOf true d = (Nat.digitChar d).toUpper.toUInt8 := by
  have all : ∀ d : Fin 16, digitOf true (d : Nat) = (Nat.digitChar d).toUpper.toUInt8 := by
    decide
  exact all ⟨d, hd⟩

/-- Without padding the digits of a number come from its numeral, read backwards. -/
theorem reverse_digitsFrom {base : Nat} (one : 1 < base) {capitalize : Bool} {maxDigits : Nat}
    {byte : Char → UInt8} (digits : ∀ d, d < base → digitOf capitalize d = byte (Nat.digitChar d))
    {fuel value : Nat} (positive : 0 < value) (small : value < base ^ fuel) (numDigits : Nat) :
    (digitsFrom base capitalize false maxDigits fuel value numDigits).reverse =
      (Nat.toDigits base value).map byte := by
  induction fuel generalizing value numDigits with
  | zero =>
      rw [Nat.pow_zero] at small
      omega
  | succ fuel ih =>
      have goesOn : (value : Int) ≠ 0 ∨ false = true ∧ numDigits < maxDigits := Or.inl (by omega)
      have quotient : (value : Int).tdiv base = (value / base : Nat) := Int.ofNat_tdiv value base
      have remainder : (value : Int).tmod base = (value % base : Nat) := Int.ofNat_tmod value base
      rw [digitsFrom, if_pos goesOn, quotient, remainder, List.reverse_cons,
        digits _ (Nat.mod_lt _ (by omega))]
      rcases Nat.lt_or_ge value base with last | more
      · have ended : value / base = 0 := Nat.div_eq_of_lt last
        have none_ : digitsFrom base capitalize false maxDigits fuel ((0 : Nat) : Int)
            (numDigits + 1) = [] := by
          cases fuel with
          | zero => rfl
          | succ fuel => rfl
        rw [ended, none_, Nat.toDigits_of_lt_base last, Nat.mod_eq_of_lt last]
        rfl
      · have below : value / base < base ^ fuel := by
          apply Nat.div_lt_of_lt_mul
          rw [← Nat.pow_succ']
          exact small
        rw [ih (Nat.div_pos more (by omega)) below, Nat.toDigits_of_base_le one more, List.map_append]
        rfl

/-! ## Directives -/

/-- The notations of an unsigned number. -/
inductive Radix where
  | decimal
  | lowerHex
  | upperHex
  deriving DecidableEq, Repr

/-- The conversion character. -/
def Radix.letter : Radix → UInt8
  | decimal => 0x75
  | lowerHex => 0x78
  | upperHex => 0x58

/-- The numeral, without leading zeros. -/
def Radix.numeral : Radix → Nat → List UInt8
  | decimal, v => asciiOf (Nat.toDigits 10 v)
  | lowerHex, v => asciiOf (Nat.toDigits 16 v)
  | upperHex, v => asciiOf ((Nat.toDigits 16 v).map Char.toUpper)

/-- The modifier: none, `l`, `ll`, `h`, `hh` and `z`. -/
def Length.spelling : Length → List UInt8
  | none => []
  | longInt => [0x6C]
  | longLongInt => [0x6C, 0x6C]
  | shortInt => [0x68]
  | charInt => [0x68, 0x68]
  | sizeInt => [0x7A]

inductive Directive where
  | literal (c : UInt8) (notNul : c ≠ 0) (notPercent : c ≠ 0x25)
  /-- `%%`. -/
  | percent
  /-- `%s`. -/
  | string
  /-- `%c`. -/
  | char
  /-- `%u`, `%x` and `%X` with a modifier. -/
  | unsigned (radix : Radix) (l : Length)

namespace Directive

/-- How it stands in the format. -/
def spelling : Directive → List UInt8
  | literal c _ _ => [c]
  | percent => [0x25, 0x25]
  | string => [0x25, 0x73]
  | char => [0x25, 0x63]
  | unsigned radix l => 0x25 :: (l.spelling ++ [radix.letter])

theorem nul_notMem_spelling (d : Directive) : 0 ∉ d.spelling := by
  cases d with
  | literal c notNul notPercent => exact fun mem => notNul (List.mem_singleton.mp mem).symm
  | percent => decide
  | string => decide
  | char => decide
  | unsigned radix l => cases radix <;> cases l <;> decide

end Directive

/-- The format of a list of directives. -/
def formatOf (ds : List Directive) : CString where
  chars := ds.flatMap Directive.spelling
  noNul mem := by
    obtain ⟨d, -, mem⟩ := List.mem_flatMap.mp mem
    exact d.nul_notMem_spelling mem

/-- What the directives mean, if the arguments match them. -/
def rendered : List Directive → List Arg → Option (List UInt8)
  | [], _ => some []
  | .literal c _ _ :: ds, args => (rendered ds args).map ([c] ++ ·)
  | .percent :: ds, args => (rendered ds args).map ([0x25] ++ ·)
  | .string :: ds, .string _ text :: args => (rendered ds args).map (text.chars ++ ·)
  | .char :: ds, .word bits :: args => (rendered ds args).map ([⟨bits.setWidth 8⟩] ++ ·)
  | .unsigned radix l :: ds, .word bits :: args =>
    (rendered ds args).map (radix.numeral (bits.toNat % 2 ^ (8 * l.sizeof)) ++ ·)
  | _, _ => none

/-! ### The pieces of the directives -/

/-- The conversion of a notation. -/
def Radix.conversion : Radix → Conversion
  | decimal => .u
  | lowerHex => .x
  | upperHex => .X

/-- The argument is reduced to the type of the modifier. -/
theorem unsignedIntegerArgOfLength_cons (arg : Arg) (args : List Arg) (l : Length) :
    unsignedIntegerArgOfLength (arg :: args) l =
      .ok (((arg.bits.toNat % 2 ^ (8 * l.sizeof) : Nat) : Int), args) := by
  have whole : arg.bits.toNat % 2 ^ 64 = arg.bits.toNat := Nat.mod_eq_of_lt arg.bits.isLt
  unfold unsignedIntegerArgOfLength
  cases l with
  | none => exact congrArg (fun v : Nat => Except.ok ((v : Int), args)) (BitVec.toNat_setWidth 32 _)
  | longInt => exact congrArg (fun v : Nat => Except.ok ((v : Int), args)) whole.symm
  | longLongInt => exact congrArg (fun v : Nat => Except.ok ((v : Int), args)) whole.symm
  | shortInt => exact congrArg (fun v : Nat => Except.ok ((v : Int), args)) (BitVec.toNat_setWidth 16 _)
  | charInt => exact congrArg (fun v : Nat => Except.ok ((v : Int), args)) (BitVec.toNat_setWidth 8 _)
  | sizeInt => exact congrArg (fun v : Nat => Except.ok ((v : Int), args)) whole.symm

/-- The round of an unsigned number. -/
theorem firstPiece_unsigned (l : Length) (radix : Radix) (rest : List UInt8) (args : List Arg) :
    firstPiece 0x25 (l.spelling ++ radix.letter :: rest) args =
      (converted l false args radix.conversion).map fun (p, args) => (p, rest, args) := by
  cases l <;> cases radix <;> rfl

/-- An unsigned number without padding shows its numeral. -/
theorem shown_integerPiece {base : Nat} (two : 2 ≤ base) {capitalize : Bool}
    {byte : Char → UInt8} (digits : ∀ d, d < base → digitOf capitalize d = byte (Nat.digitChar d))
    (maxDigits : Nat) {value : Nat} (small : value < 2 ^ 64) :
    (integerPiece value base capitalize false maxDigits false).shown =
      (Nat.toDigits base value).map byte := by
  unfold integerPiece
  rcases Nat.eq_zero_or_pos value with rfl | positive
  · have zero : digitOf capitalize ((0 : Nat) : Int) = 0x30 := by
      cases capitalize <;> rfl
    have none_ : ((0 : Nat) : Int) = 0 := rfl
    rw [if_pos none_, Nat.toDigits_of_lt_base (by omega), List.map_singleton,
      ← digits 0 (by omega), zero]
    rfl
  · have fits : value < base ^ MAX_ROUNDS :=
      Nat.lt_of_lt_of_le small (Nat.pow_le_pow_left two 64)
    rw [if_neg (by omega)]
    exact reverse_digitsFrom (by omega) digits positive fits 0

theorem shown_unsigned (radix : Radix) (l : Length) (arg : Arg) (args : List Arg) :
    ∃ p, converted l false (arg :: args) radix.conversion = .ok (p, args) ∧
      p.shown = radix.numeral (arg.bits.toNat % 2 ^ (8 * l.sizeof)) := by
  have small : arg.bits.toNat % 2 ^ (8 * l.sizeof) < 2 ^ 64 :=
    Nat.lt_of_le_of_lt (Nat.mod_le _ _) arg.bits.isLt
  have taken := unsignedIntegerArgOfLength_cons arg args l
  generalize arg.bits.toNat % 2 ^ (8 * l.sizeof) = v at small taken ⊢
  unfold converted Radix.conversion
  cases radix with
  | decimal =>
      refine ⟨integerPiece v 10 false false (lengthToDigits l 10) false, ?_,
        shown_integerPiece (by decide) (fun d hd => digitOf_false (by omega)) _ small⟩
      dsimp only
      rw [taken]
      rfl
  | lowerHex =>
      refine ⟨integerPiece v 16 false false (lengthToDigits l 16) false, ?_,
        shown_integerPiece (by decide) (fun d hd => digitOf_false hd) _ small⟩
      dsimp only
      rw [taken]
      rfl
  | upperHex =>
      refine ⟨integerPiece v 16 true false (lengthToDigits l 16) false, ?_, ?_⟩
      · dsimp only
        rw [taken]
        rfl
      · unfold Radix.numeral asciiOf
        dsimp only
        rw [List.map_map]
        exact shown_integerPiece (by decide) (fun d hd => digitOf_true hd) _ small

/-- One round takes one directive, and its piece shows what the directive means. -/
theorem firstPiece_spelling {d : Directive} {ds : List Directive} {args : List Arg}
    {out : List UInt8} (h : rendered (d :: ds) args = some out) :
    ∃ c tail p args' out', d.spelling = c :: tail ∧ rendered ds args' = some out' ∧
      out = p.shown ++ out' ∧
      ∀ rest, firstPiece c (tail ++ rest) args = .ok (p, rest, args') := by
  cases d with
  | literal c notNul notPercent =>
      obtain ⟨out', rest_, rfl⟩ := Option.map_eq_some_iff.mp h
      exact ⟨c, [], .text [c], args, out', rfl, rest_, rfl, fun rest => if_pos notPercent⟩
  | percent =>
      obtain ⟨out', rest_, rfl⟩ := Option.map_eq_some_iff.mp h
      exact ⟨0x25, [0x25], .text [0x25], args, out', rfl, rest_, rfl, fun rest => rfl⟩
  | string =>
      rcases args with _ | ⟨⟨bits⟩ | ⟨address, text⟩ | ⟨address⟩, args⟩
      · cases h
      · cases h
      · obtain ⟨out', rest_, rfl⟩ := Option.map_eq_some_iff.mp h
        exact ⟨0x25, [0x73], .text text.chars, args, out', rfl, rest_, rfl, fun rest => rfl⟩
      · cases h
  | char =>
      rcases args with _ | ⟨⟨bits⟩ | ⟨address, text⟩ | ⟨address⟩, args⟩
      · cases h
      · obtain ⟨out', rest_, rfl⟩ := Option.map_eq_some_iff.mp h
        exact ⟨0x25, [0x63], .text [⟨bits.setWidth 8⟩], args, out', rfl, rest_, rfl, fun rest => rfl⟩
      · cases h
      · cases h
  | unsigned radix l =>
      rcases args with _ | ⟨⟨bits⟩ | ⟨address, text⟩ | ⟨address⟩, args⟩
      · cases h
      · obtain ⟨out', rest_, rfl⟩ := Option.map_eq_some_iff.mp h
        obtain ⟨p, piece, shown⟩ := shown_unsigned radix l (.word bits) args
        refine ⟨0x25, l.spelling ++ [radix.letter], p, args, out', rfl, rest_, ?_, fun rest => ?_⟩
        · rw [shown]
          rfl
        · rw [List.append_assoc, List.singleton_append, firstPiece_unsigned, piece]
          rfl
      · cases h
      · cases h

/-- The pieces of a format for matching arguments amount to what it means. -/
theorem piecesFrom_formatOf {ds : List Directive} {args : List Arg} {out : List UInt8}
    (h : rendered ds args = some out) {fuel : Nat}
    (enough : (formatOf ds).chars.length ≤ fuel) :
    ∃ ps, piecesFrom fuel (formatOf ds).chars args = .ok ps ∧ complete ps = out := by
  induction ds generalizing args out fuel with
  | nil =>
      cases h
      refine ⟨[], ?_, rfl⟩
      cases fuel with
      | zero => rfl
      | succ fuel => rfl
  | cons d ds ih =>
      obtain ⟨c, tail, p, args', out', spelled, rest, rfl, first⟩ := firstPiece_spelling h
      have split_ : (formatOf (d :: ds)).chars = c :: (tail ++ (formatOf ds).chars) := by
        unfold formatOf
        dsimp only
        rw [List.flatMap_cons, spelled]
        rfl
      rw [split_, List.length_cons, List.length_append] at enough
      obtain ⟨fuel, rfl⟩ := Nat.exists_eq_succ_of_ne_zero (show fuel ≠ 0 by omega)
      obtain ⟨ps, remaining, shown⟩ := ih rest (show (formatOf ds).chars.length ≤ fuel by omega)
      refine ⟨p :: ps, ?_, ?_⟩
      · rw [split_]
        unfold piecesFrom
        rw [first, ok_bind]
        dsimp only
        rw [remaining]
        rfl
      · rw [← shown]
        exact List.flatMap_cons

theorem pieces_formatOf {ds : List Directive} {args : List Arg} {out : List UInt8}
    (h : rendered ds args = some out) :
    ∃ ps, pieces (formatOf ds) args = .ok ps ∧ complete ps = out :=
  piecesFrom_formatOf h (Nat.le_refl _)

/-! ## What `vsnprintf` writes -/

/-- The buffer shows the output with its terminator, and is as it was behind that. -/
structure Shows (buf : Nat → UInt8) (out : List UInt8) (s : Out) : Prop where
  chars : ∀ i (hi : i < out.length), s.buf i = out[i]
  terminated : s.buf out.length = 0
  kept : ∀ i, out.length < i → s.buf i = buf i

theorem shows_of_overlay {buf : Nat → UInt8} {out : List UInt8} {s : Out}
    (h : s.buf = overlay buf 0 (out ++ [0])) : Shows buf out s := by
  have entry (i : Nat) (hi : i < (out ++ [0]).length) : s.buf i = (out ++ [0])[i] := by
    rw [h]
    simpa only [Nat.zero_add] using overlay_getElem buf 0 hi
  have length_ : (out ++ [0]).length = out.length + 1 := by
    rw [List.length_append, List.length_singleton]
  constructor
  case chars =>
    intro i hi
    rw [entry i (by omega), List.getElem_append_left hi]
  case terminated =>
    rw [entry out.length (by omega), List.getElem_concat_length rfl]
  case kept =>
    intro i behind
    rw [h]
    exact overlay_of_le (by omega)

/-- The complete output is what every larger buffer gets. -/
theorem vsnprintf_shows (buf : Nat → UInt8) {bufSize : BitVec 64} {fmt : CString}
    {args : List Arg} {ps : List Piece} (parsed : pieces fmt args = .ok ps)
    (room : (complete ps).length < bufSize.toNat) :
    ∃ s, vsnprintf (some buf) bufSize (some fmt) args =
        .ok ((BitVec.ofNat 32 (complete ps).length).toInt, s) ∧ Shows buf (complete ps) s := by
  obtain ⟨s, run, written⟩ := vsnprintf_fits buf parsed room
  exact ⟨s, run, shows_of_overlay written⟩

/-- `vsprintf` writes the complete output, as long as its length is a `size_t` with a successor. -/
theorem vsprintf_shows (buf : Nat → UInt8) {fmt : CString} {args : List Arg} {ps : List Piece}
    (parsed : pieces fmt args = .ok ps) (short : (complete ps).length < 2 ^ 64 - 1) :
    ∃ s, vsprintf (some buf) (some fmt) args =
        .ok ((BitVec.ofNat 32 (complete ps).length).toInt, s) ∧ Shows buf (complete ps) s := by
  have room : (complete ps).length < (BitVec.allOnes 64).toNat := by
    rw [BitVec.toNat_allOnes]
    exact short
  exact vsnprintf_shows buf parsed room

/-- An `int` holds a length below `2 ^ 31`. -/
theorem toInt_length {n : Nat} (small : n < 2 ^ 31) : (BitVec.ofNat 32 n).toInt = n := by
  have value : (BitVec.ofNat 32 n).toNat = n := Nat.mod_eq_of_lt (by omega)
  rw [BitVec.toInt_eq_toNat_of_lt (by omega), value]

/-- A buffer that is larger than the output gets exactly what the directives mean, and
`vsnprintf` returns its length as an `int`. -/
theorem vsnprintf_rendered (buf : Nat → UInt8) {bufSize : BitVec 64} {ds : List Directive}
    {args : List Arg} {out : List UInt8} (matching : rendered ds args = some out)
    (room : out.length < bufSize.toNat) :
    ∃ ret s, vsnprintf (some buf) bufSize (some (formatOf ds)) args = .ok (ret, s) ∧
      Shows buf out s ∧ ret = (BitVec.ofNat 32 out.length).toInt ∧
      (out.length < 2 ^ 31 → ret = out.length) := by
  obtain ⟨ps, parsed, rfl⟩ := pieces_formatOf matching
  obtain ⟨s, run, shows_⟩ := vsnprintf_shows buf parsed room
  exact ⟨_, s, run, shows_, rfl, toInt_length⟩

/-- `"#%hhu %%%s%c%lX"`. -/
def sampleDirectives : List Directive :=
  [.literal 0x23 (by decide) (by decide), .unsigned .decimal .charInt,
    .literal 0x20 (by decide) (by decide), .percent, .string, .char, .unsigned .upperHex .longInt]

/-- `"#44 %ok!1CAFE"`, for arguments `300`, `"ok"`, `'!'` and `0x1CAFE`. -/
theorem vsnprintf_rendered_sample :
    ∃ ret s, vsnprintf (some fun _ => 0xFF) 16 (some (formatOf sampleDirectives))
        [.word 300, .string 0x1000 ⟨[0x6F, 0x6B], by decide⟩, .word 0x21, .word 0x1CAFE] =
          .ok (ret, s) ∧
      Shows (fun _ => 0xFF)
        [0x23, 0x34, 0x34, 0x20, 0x25, 0x6F, 0x6B, 0x21, 0x31, 0x43, 0x41, 0x46, 0x45] s ∧
      ret = (BitVec.ofNat 32 13).toInt ∧ (13 < 2 ^ 31 → ret = 13) :=
  vsnprintf_rendered (fun _ => 0xFF) (by decide) (by decide)

/-- A string of `2 ^ 31` letters. -/
def longText : CString where
  chars := List.replicate (2 ^ 31) 0x41
  noNul mem := nomatch (List.mem_replicate.mp mem).2

/-- Its length does not come back from `"%s"`, however large the buffer. -/
theorem vsnprintf_length_not_returned :
    rendered [.string] [.string 0x1000 longText] = some longText.chars ∧
      longText.chars.length < (0x100000000#64).toNat ∧
      ¬ ∃ s, vsnprintf (some fun _ => 0) 0x100000000 (some (formatOf [.string]))
        [.string 0x1000 longText] = .ok ((longText.chars.length : Int), s) := by
  have length_ : longText.chars.length = 2 ^ 31 := List.length_replicate
  have matching : rendered [.string] [.string 0x1000 longText] = some longText.chars :=
    congrArg some (List.append_nil longText.chars)
  have room : longText.chars.length < (0x100000000#64).toNat := by
    rw [length_]
    decide
  obtain ⟨ps, parsed, shown⟩ := pieces_formatOf matching
  obtain ⟨s, run, -⟩ := vsnprintf_shows (fun _ => 0) parsed (shown ▸ room)
  refine ⟨matching, room, fun ⟨s', returned⟩ => ?_⟩
  have same := (Prod.mk.inj (Except.ok.inj (run.symm.trans returned))).1
  rw [shown, length_] at same
  exact absurd same (by decide)

end Tyleros.Libc
