import Tyleros.Libc.Formatting

/-!
# Formatting signed numbers

`%d`, `%i` and `%o` take their argument with its sign, negate it if it is negative, and put a
sign behind its digits. The most negative `int64_t` is its own negative, so that its remainders
are negative too, and the octal notation is not that of an unsigned number.
`writesNumeral_iff` says which arguments come out right.
-/

namespace Tyleros.Libc

/-! ## Notations of signed arguments -/

/-- The conversions with a signed argument. -/
inductive SignedConversion where
  | d
  | i
  | o
  deriving DecidableEq, Repr

namespace SignedConversion

/-- The conversion character. -/
def letter : SignedConversion → UInt8
  | d => 0x64
  | i => 0x69
  | o => 0x6F

/-- The case of the `switch`. -/
def conversion : SignedConversion → Conversion
  | d => .d
  | i => .d
  | o => .o

def base : SignedConversion → Nat
  | d => 10
  | i => 10
  | o => 8

end SignedConversion

/-- The argument as a value of the signed type of the modifier. -/
def signedValue (l : Length) (bits : BitVec 64) : Int := (bits.setWidth (8 * l.sizeof)).toInt

/-- The decimal numeral, with a minus sign if the number is negative. -/
def decimalNumeral (value : Int) : List UInt8 :=
  if value < 0 then 0x2D :: asciiOf (Nat.toDigits 10 value.natAbs)
  else asciiOf (Nat.toDigits 10 value.natAbs)

/-- What is to be written: the decimal numeral of the number, or the octal numeral of the
unsigned number with the same bits. -/
def SignedConversion.numeral (signed : SignedConversion) (l : Length) (bits : BitVec 64) :
    List UInt8 :=
  match signed with
  | d => decimalNumeral (signedValue l bits)
  | i => decimalNumeral (signedValue l bits)
  | o => asciiOf (Nat.toDigits 8 (bits.toNat % 2 ^ (8 * l.sizeof)))

/-! ## What is written -/

theorem signedIntegerArgOfLength_cons (arg : Arg) (args : List Arg) (l : Length) :
    signedIntegerArgOfLength (arg :: args) l = .ok (signedValue l arg.bits, args) := by
  have whole : (arg.bits.setWidth 64).toInt = arg.bits.toInt := by rw [BitVec.setWidth_eq]
  unfold signedIntegerArgOfLength signedValue
  cases l with
  | none => rfl
  | longInt => exact congrArg (fun v => Except.ok (v, args)) whole.symm
  | longLongInt => exact congrArg (fun v => Except.ok (v, args)) whole.symm
  | shortInt => rfl
  | charInt => rfl
  | sizeInt => exact congrArg (fun v => Except.ok (v, args)) whole.symm

theorem signedValue_bounds (l : Length) (bits : BitVec 64) :
    -2 ^ 63 ≤ signedValue l bits ∧ signedValue l bits < 2 ^ 63 := by
  have low := BitVec.le_toInt (bits.setWidth (8 * l.sizeof))
  have high := BitVec.toInt_lt (x := bits.setWidth (8 * l.sizeof))
  unfold signedValue
  cases l <;> (dsimp only [Length.sizeof] at low high ⊢; omega)

/-- A number that is not negative has the same bits as the unsigned number. -/
theorem signedValue_of_nonneg {l : Length} {bits : BitVec 64} (nonneg : 0 ≤ signedValue l bits) :
    signedValue l bits = ((bits.toNat % 2 ^ (8 * l.sizeof) : Nat) : Int) := by
  unfold signedValue at nonneg ⊢
  rw [← BitVec.toNat_setWidth, ← BitVec.toInt_eq_toNat_of_lt]
  exact BitVec.toInt_pos_iff.mp nonneg

/-- The piece of a signed argument. -/
def SignedConversion.piece (signed : SignedConversion) (l : Length) (bits : BitVec 64) : Piece :=
  integerPiece (signedValue l bits) signed.base false true (lengthToDigits l signed.base) false

/-- The round of a signed argument. -/
theorem firstPiece_signed (signed : SignedConversion) (l : Length) (bits : BitVec 64)
    (rest : List UInt8) (args : List Arg) :
    firstPiece 0x25 (l.spelling ++ signed.letter :: rest) (.word bits :: args) =
      .ok (signed.piece l bits, rest, args) := by
  have round (args : List Arg) : firstPiece 0x25 (l.spelling ++ signed.letter :: rest) args =
      (converted l false args signed.conversion).map fun piece => (piece.1, rest, piece.2) := by
    cases l <;> cases signed <;> rfl
  have taken := signedIntegerArgOfLength_cons (.word bits) args l
  have result : converted l false (.word bits :: args) signed.conversion =
      .ok (signed.piece l bits, args) := by
    unfold converted SignedConversion.piece
    cases signed with
    | d =>
        dsimp only [SignedConversion.conversion]
        rw [taken]
        rfl
    | i =>
        dsimp only [SignedConversion.conversion]
        rw [taken]
        rfl
    | o =>
        dsimp only [SignedConversion.conversion]
        rw [taken]
        rfl
  rw [round, result]
  rfl

theorem shown_integerPiece_eq (value : Int) (base : Nat) (isSigned : Bool) (maxDigits : Nat) :
    (integerPiece value base false isSigned maxDigits false).shown =
      if value = 0 then [0x30] else (signedDigits value base false isSigned maxDigits false).reverse := by
  unfold integerPiece
  split
  · rfl
  · rfl

/-- A number that is not negative is written as an unsigned one. -/
theorem shown_integerPiece_of_nonneg (value base maxDigits : Nat) :
    (integerPiece (value : Int) base false true maxDigits false).shown =
      (integerPiece (value : Int) base false false maxDigits false).shown := by
  have nonneg : ¬ (value : Int) < 0 := by omega
  have sign : (true && decide ((value : Int) < 0)) = (false && decide ((value : Int) < 0)) := by
    rw [decide_eq_false nonneg]
    rfl
  rw [shown_integerPiece_eq, shown_integerPiece_eq]
  unfold signedDigits
  rw [sign]

/-- The digits of a negative number, with the sign in front. -/
theorem shown_integerPiece_of_neg (base : Nat) {value : Int} (negative : value < 0)
    (maxDigits : Nat) :
    (integerPiece value base false true maxDigits false).shown =
      0x2D :: (digitsFrom base false false maxDigits MAX_ROUNDS (negate value) 0).reverse := by
  have sign : (true && decide (value < 0)) = true := decide_eq_true negative
  rw [shown_integerPiece_eq, if_neg (by omega)]
  unfold signedDigits
  rw [sign]
  exact List.reverse_append

/-- Only the most negative number is its own negative. -/
theorem negate_eq {value : Int} (low : -2 ^ 63 < value) (negative : value < 0) :
    negate value = (value.natAbs : Int) := by
  unfold negate
  rw [Int.bmod_eq_of_le (by omega) (by omega)]
  omega

theorem shown_negative {base : Nat} (two : 2 ≤ base) (ten : base ≤ 10) {value : Int}
    (low : -2 ^ 63 < value) (negative : value < 0) (maxDigits : Nat) :
    (integerPiece value base false true maxDigits false).shown =
      0x2D :: asciiOf (Nat.toDigits base value.natAbs) := by
  have small : value.natAbs < base ^ MAX_ROUNDS := by
    have power : 2 ^ 64 ≤ base ^ 64 := Nat.pow_le_pow_left two 64
    exact Nat.lt_of_lt_of_le (by omega) power
  rw [shown_integerPiece_of_neg base negative, negate_eq low negative,
    reverse_digitsFrom (by omega) (fun d hd => digitOf_false (by omega)) (by omega) small]
  rfl

theorem shown_nonnegative {base : Nat} (two : 2 ≤ base) (ten : base ≤ 10) {value : Nat}
    (small : value < 2 ^ 64) (maxDigits : Nat) :
    (integerPiece (value : Int) base false true maxDigits false).shown =
      asciiOf (Nat.toDigits base value) := by
  rw [shown_integerPiece_of_nonneg]
  exact shown_integerPiece two (fun d hd => digitOf_false (by omega)) maxDigits small

/-! ## When the numeral is right -/

/-- `%d` and `%i` of every number but the most negative `int64_t`, `%o` of a number that is not
negative. -/
def SignedConversion.Covers (signed : SignedConversion) (value : Int) : Prop :=
  match signed with
  | d => value ≠ -2 ^ 63
  | i => value ≠ -2 ^ 63
  | o => 0 ≤ value

instance : (signed : SignedConversion) → (value : Int) → Decidable (signed.Covers value)
  | .d, value => inferInstanceAs (Decidable (value ≠ -2 ^ 63))
  | .i, value => inferInstanceAs (Decidable (value ≠ -2 ^ 63))
  | .o, value => inferInstanceAs (Decidable (0 ≤ value))

theorem shown_piece {signed : SignedConversion} {l : Length} {bits : BitVec 64}
    (covers : signed.Covers (signedValue l bits)) :
    (signed.piece l bits).shown = signed.numeral l bits := by
  obtain ⟨low, high⟩ := signedValue_bounds l bits
  have decimal (notLeast : signedValue l bits ≠ -2 ^ 63) :
      (integerPiece (signedValue l bits) 10 false true (lengthToDigits l 10) false).shown =
        decimalNumeral (signedValue l bits) := by
    unfold decimalNumeral
    generalize signedValue l bits = value at low high notLeast ⊢
    rcases Int.lt_or_le value 0 with negative | nonneg
    · rw [if_pos negative]
      exact shown_negative (by decide) (by decide) (by omega) negative _
    · obtain ⟨n, rfl⟩ := Int.eq_ofNat_of_zero_le nonneg
      rw [if_neg (by omega)]
      exact shown_nonnegative (by decide) (by decide) (by omega) _
  cases signed with
  | d => exact decimal covers
  | i => exact decimal covers
  | o =>
      have value := signedValue_of_nonneg covers
      unfold SignedConversion.piece SignedConversion.numeral
      rw [value] at high ⊢
      exact shown_nonnegative (by decide) (by decide) (by omega) _

theorem minus_notMem_octal (n : Nat) : 0x2D ∉ asciiOf (Nat.toDigits 8 n) := by
  intro mem
  obtain ⟨c, mem, minus⟩ := List.mem_map.mp mem
  have digit := Nat.isDigit_of_mem_toDigits (by decide) (by decide) mem
  have range : 48 ≤ c.toNat ∧ c.toNat ≤ 57 := by
    unfold Char.isDigit at digit
    rw [Bool.and_eq_true, decide_eq_true_iff, decide_eq_true_iff] at digit
    exact ⟨UInt32.le_iff_toNat_le.mp digit.1, UInt32.le_iff_toNat_le.mp digit.2⟩
  have code : c.toNat % 256 = 45 := congrArg UInt8.toNat minus
  omega

/-- Every signed number but the covered ones differs from its numeral in one of the first two
characters. -/
theorem shown_piece_differs {signed : SignedConversion} {l : Length} {bits : BitVec 64}
    (uncovered : ¬ signed.Covers (signedValue l bits)) :
    ∃ i, i < (signed.piece l bits).shown.length ∧ i < (signed.numeral l bits).length ∧
      (signed.piece l bits).shown[i]? ≠ (signed.numeral l bits)[i]? := by
  have least (signed : SignedConversion) (ten : signed = .d ∨ signed = .i)
      (value : ¬ signedValue l bits ≠ -2 ^ 63) :
      ∃ i, i < (signed.piece l bits).shown.length ∧ i < (signed.numeral l bits).length ∧
        (signed.piece l bits).shown[i]? ≠ (signed.numeral l bits)[i]? := by
    have value' : signedValue l bits = -2 ^ 63 := not_not.mp value
    refine ⟨1, ?_⟩
    rcases ten with rfl | rfl
    · unfold SignedConversion.piece SignedConversion.numeral
      dsimp only
      rw [value']
      cases l <;> decide +kernel
    · unfold SignedConversion.piece SignedConversion.numeral
      dsimp only
      rw [value']
      cases l <;> decide +kernel
  cases signed with
  | d => exact least .d (Or.inl rfl) uncovered
  | i => exact least .i (Or.inr rfl) uncovered
  | o =>
      have negative : signedValue l bits < 0 := Int.lt_of_not_ge uncovered
      have shown : (SignedConversion.o.piece l bits).shown = _ :=
        shown_integerPiece_of_neg 8 negative _
      have nonempty : 0 < (SignedConversion.o.numeral l bits).length := by
        have some_ := Nat.length_toDigits_pos (b := 8) (n := bits.toNat % 2 ^ (8 * l.sizeof))
        unfold SignedConversion.numeral asciiOf
        rw [List.length_map]
        exact some_
      refine ⟨0, ?_, nonempty, fun same => ?_⟩
      · rw [shown]
        exact Nat.succ_pos _
      · rw [shown, List.getElem?_cons_zero] at same
        exact minus_notMem_octal _ (List.mem_of_getElem? same.symm)

/-- The format that is a single specification. -/
def SignedConversion.format (signed : SignedConversion) (l : Length) : CString where
  chars := 0x25 :: (l.spelling ++ [signed.letter])
  noNul := by cases signed <;> cases l <;> decide

/-- A signed argument is written as its numeral, wherever the specification stands: a round of
the loop writes it behind what is there, and a format that has nothing else shows it. -/
structure WritesNumeral (signed : SignedConversion) (l : Length) (bits : BitVec 64) : Prop where
  inside : ∀ bufSize buf out stored rest args,
    out.length + (signed.numeral l bits).length < bufSize.toNat →
    ∃ stored', formatStep bufSize 0x25 (l.spelling ++ signed.letter :: rest) (.word bits :: args)
        (showing buf out stored) =
      .ok (rest, args, showing buf (out ++ signed.numeral l bits) stored')
  alone : ∀ bufSize buf args, (signed.numeral l bits).length < bufSize.toNat →
    ∃ s, vsnprintf (some buf) bufSize (some (signed.format l)) (.word bits :: args) =
        .ok ((BitVec.ofNat 32 (signed.numeral l bits).length).toInt, s) ∧
      Shows buf (signed.numeral l bits) s

/-- It has a single piece. -/
theorem pieces_signed (signed : SignedConversion) (l : Length) (bits : BitVec 64)
    (args : List Arg) :
    pieces (signed.format l) (.word bits :: args) = .ok [signed.piece l bits] := by
  have only (fuel : Nat) : piecesFrom fuel [] args = .ok [] := by
    cases fuel with
    | zero => rfl
    | succ fuel => rfl
  unfold pieces SignedConversion.format
  dsimp only
  rw [List.length_cons]
  unfold piecesFrom
  rw [firstPiece_signed, ok_bind]
  dsimp only
  rw [only]
  rfl

theorem complete_singleton (p : Piece) : complete [p] = p.shown := List.append_nil p.shown

theorem Shows.unique {buf : Nat → UInt8} {out out' : List UInt8} {s : Out} (h : Shows buf out s)
    (h' : Shows buf out' s) {i : Nat} (hi : i < out.length) (hi' : i < out'.length) :
    out[i]? = out'[i]? := by
  rw [List.getElem?_eq_getElem hi, List.getElem?_eq_getElem hi', ← h.chars i hi, ← h'.chars i hi']

theorem length_shown_piece_le (signed : SignedConversion) (l : Length) (bits : BitVec 64) :
    (signed.piece l bits).shown.length ≤ 65 := by
  unfold SignedConversion.piece
  rw [shown_integerPiece_eq]
  split
  · decide
  · rw [List.length_reverse]
    exact length_signedDigits_le _ _ _ _ _ _

theorem length_numeral_le (signed : SignedConversion) (l : Length) (bits : BitVec 64) :
    (signed.numeral l bits).length ≤ 65 := by
  obtain ⟨low, high⟩ := signedValue_bounds l bits
  have digits {base n : Nat} (one : 1 < base) (small : n < 2 ^ 64) :
      (asciiOf (Nat.toDigits base n)).length ≤ 64 := by
    unfold asciiOf
    rw [List.length_map, Nat.length_toDigits_le_iff one (by decide)]
    exact Nat.lt_of_lt_of_le small (Nat.pow_le_pow_left one 64)
  have decimal : (decimalNumeral (signedValue l bits)).length ≤ 65 := by
    have short : (asciiOf (Nat.toDigits 10 (signedValue l bits).natAbs)).length ≤ 64 :=
      digits (by decide) (by omega)
    unfold decimalNumeral
    split
    · exact Nat.succ_le_succ short
    · exact Nat.le_succ_of_le short
  cases signed with
  | d => exact decimal
  | i => exact decimal
  | o =>
      exact Nat.le_succ_of_le
        (digits (by decide) (Nat.lt_of_le_of_lt (Nat.mod_le _ _) bits.isLt))

/-- What is written when the notation does not cover the number is not its numeral. -/
theorem not_writesNumeral {signed : SignedConversion} {l : Length} {bits : BitVec 64}
    (uncovered : ¬ signed.Covers (signedValue l bits)) : ¬ WritesNumeral signed l bits := by
  intro writes
  have room : (signed.numeral l bits).length < (100#64).toNat :=
    Nat.lt_of_le_of_lt (length_numeral_le signed l bits) (by decide)
  have room' : (complete [signed.piece l bits]).length < (100#64).toNat := by
    rw [complete_singleton]
    exact Nat.lt_of_le_of_lt (length_shown_piece_le signed l bits) (by decide)
  obtain ⟨s, run, expected⟩ := writes.alone 100 (fun _ => 0) [] room
  obtain ⟨s', run', written⟩ := vsnprintf_shows (fun _ => 0) (pieces_signed signed l bits []) room'
  obtain ⟨-, rfl⟩ := Prod.mk.inj (Except.ok.inj (run.symm.trans run'))
  rw [complete_singleton] at written
  obtain ⟨i, hi, hi', different⟩ := shown_piece_differs uncovered
  exact different (written.unique expected hi hi')

/-- `%d` and `%i` write the decimal numeral of every number but the most negative `int64_t`; `%o`
writes the octal numeral of the unsigned number only if the number is not negative. -/
theorem writesNumeral_iff (signed : SignedConversion) (l : Length) (bits : BitVec 64) :
    WritesNumeral signed l bits ↔ signed.Covers (signedValue l bits) := by
  constructor
  · intro writes
    by_contra uncovered
    exact not_writesNumeral uncovered writes
  · intro covers
    have shown := shown_piece covers
    constructor
    case inside =>
      intro bufSize buf out stored rest args room
      rw [← shown] at room ⊢
      rw [Piece.length_shown] at room
      obtain ⟨stored', written⟩ := emit_showing buf stored (signed.piece l bits) room
      refine ⟨stored', ?_⟩
      rw [formatStep_eq, firstPiece_signed]
      exact congrArg (fun s => Except.ok (rest, args, s)) written
    case alone =>
      intro bufSize buf args room
      have parsed := pieces_signed signed l bits args
      rw [← shown, ← complete_singleton] at room ⊢
      exact vsnprintf_shows buf parsed room

/-- `"%ld"` of the least number of its type, and `"%o"` of `-1`. -/
theorem writesNumeral_fails :
    ¬ WritesNumeral .d .longInt 0x8000000000000000 ∧ ¬ WritesNumeral .o .none 0xFFFFFFFF := by
  constructor
  · exact not_writesNumeral (by decide)
  · exact not_writesNumeral (by decide)

end Tyleros.Libc
