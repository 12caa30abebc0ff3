import Tyleros.Libc.Stdio

/-!
# What a format writes

The pieces of the output depend on the format and the arguments, and on no buffer: `pieces`.
The loop of `vsnprintf` puts them one after the other (`formatLoop_eq`), and as long as there
is room the buffer shows what they amount to (`vsnprintf_fits`): a number is put with its
lowest digit first and then reversed.
-/

namespace Tyleros.Libc

/-- What one round of the loop over the format writes. -/
inductive Piece where
  | text (chars : List UInt8)
  /-- A number, lowest digit first, with the sign at the end. -/
  | number (digits : List UInt8) (short : digits.length ≤ MAX_ROUNDS + 1)
  /-- Addresses and sizes of the counters that `%n` stores. -/
  | counts (targets : List (BitVec 64 × Nat))

namespace Piece

/-- The characters in the order in which they are put. -/
def put : Piece → List UInt8
  | text chars => chars
  | number digits _ => digits
  | counts _ => []

/-- The characters in the order in which they are meant. -/
def shown : Piece → List UInt8
  | text chars => chars
  | number digits _ => digits.reverse
  | counts _ => []

theorem length_shown (p : Piece) : p.shown.length = p.put.length := by
  cases p with
  | text chars => rfl
  | number digits short => exact List.length_reverse
  | counts targets => rfl

end Piece

/-- The complete output. -/
def complete (ps : List Piece) : List UInt8 := ps.flatMap Piece.shown

/-! ## The pieces of a format -/

/-- The digits that `put_integer` puts. -/
def digitsFrom (base : Nat) (capitalize pad0 : Bool) (maxDigits : Nat) :
    Nat → Int → Nat → List UInt8
  | 0, _, _ => []
  | fuel + 1, value, numDigits =>
    if value ≠ 0 ∨ pad0 = true ∧ numDigits < maxDigits then
      digitOf capitalize (value.tmod base) ::
        digitsFrom base capitalize pad0 maxDigits fuel (value.tdiv base) (numDigits + 1)
    else []

theorem length_digitsFrom_le (base : Nat) (capitalize pad0 : Bool) (maxDigits fuel : Nat)
    (value : Int) (numDigits : Nat) :
    (digitsFrom base capitalize pad0 maxDigits fuel value numDigits).length ≤ fuel := by
  induction fuel generalizing value numDigits with
  | zero => exact Nat.le_refl 0
  | succ fuel ih =>
      unfold digitsFrom
      split
      · exact Nat.succ_le_succ (ih _ _)
      · exact Nat.zero_le _

/-- The digits of a number that is not zero, and its sign. -/
def signedDigits (value : Int) (base : Nat) (capitalize isSigned : Bool) (maxDigits : Nat)
    (pad0 : Bool) : List UInt8 :=
  if isSigned && decide (value < 0) then
    digitsFrom base capitalize pad0 maxDigits MAX_ROUNDS (negate value) 0 ++ [0x2D]
  else digitsFrom base capitalize pad0 maxDigits MAX_ROUNDS value 0

theorem length_signedDigits_le (value : Int) (base : Nat) (capitalize isSigned : Bool)
    (maxDigits : Nat) (pad0 : Bool) :
    (signedDigits value base capitalize isSigned maxDigits pad0).length ≤ MAX_ROUNDS + 1 := by
  unfold signedDigits
  split
  · rw [List.length_append]
    exact Nat.succ_le_succ (length_digitsFrom_le _ _ _ _ _ _ _)
  · exact Nat.le_succ_of_le (length_digitsFrom_le _ _ _ _ _ _ _)

/-- What `put_integer` writes. -/
def integerPiece (value : Int) (base : Nat) (capitalize isSigned : Bool) (maxDigits : Nat)
    (pad0 : Bool) : Piece :=
  if value = 0 then .text [0x30]
  else .number (signedDigits value base capitalize isSigned maxDigits pad0)
    (length_signedDigits_le value base capitalize isSigned maxDigits pad0)

/-- The arguments of `%n`. -/
def countTargets : List Nat → List Arg → Except Misuse (List (BitVec 64 × Nat) × List Arg)
  | [], args => .ok ([], args)
  | size :: sizes, args => do
    let (address, args) ← vaArgObject args
    let (targets, args) ← countTargets sizes args
    return ((address, size) :: targets, args)

/-- A case with an integer: its piece and the arguments left. -/
def convertedInteger (integer : Int × List Arg) (base : Nat) (capitalize isSigned : Bool)
    (maxDigits : Nat) (pad0 : Bool) : Piece × List Arg :=
  (integerPiece integer.1 base capitalize isSigned maxDigits pad0, integer.2)

/-- What a conversion writes. -/
def converted (l : Length) (pad0 : Bool) (args : List Arg) :
    Conversion → Except Misuse (Piece × List Arg)
  | .s => do
    let (text, args) ← vaArgString args
    return (.text text.chars, args)
  | .c => do
    let (arg, args) ← vaArg args
    return (.text [⟨arg.bits.setWidth 8⟩], args)
  | .o => do
    let integer ← signedIntegerArgOfLength args l
    return convertedInteger integer 8 false true (lengthToDigits l 8) pad0
  | .d => do
    let integer ← signedIntegerArgOfLength args l
    return convertedInteger integer 10 false true (lengthToDigits l 10) pad0
  | .u => do
    let integer ← unsignedIntegerArgOfLength args l
    return convertedInteger integer 10 false false (lengthToDigits l 10) pad0
  | .X => do
    let integer ← unsignedIntegerArgOfLength args l
    return convertedInteger integer 16 true false (lengthToDigits l 16) pad0
  | .x => do
    let integer ← unsignedIntegerArgOfLength args l
    return convertedInteger integer 16 false false (lengthToDigits l 16) pad0
  | .p => do
    let (arg, args) ← vaArg args
    return convertedInteger (arg.bits.toNat, args) 16 false false 16 true
  | .n => do
    let (targets, args) ← countTargets l.storeSizes args
    return (.counts targets, args)

/-- The piece of a conversion specification behind its `%`, and what is left. -/
def specificationPiece (fmt : List UInt8) (args : List Arg) :
    Except Misuse (Piece × List UInt8 × List Arg) :=
  let (pad0, fmt) := getFlags fmt
  let (l, fmt) := getLength fmt
  match fmt with
  | [] => .error .formatOverrun
  | c :: fmt =>
    match conversionOf c with
    | none => .ok (.text [], fmt, args)
    | some conversion => do
      let (p, args) ← converted l pad0 args conversion
      return (p, fmt, args)

/-- The piece of one round, and what is left. -/
def firstPiece (c : UInt8) (fmt : List UInt8) (args : List Arg) :
    Except Misuse (Piece × List UInt8 × List Arg) :=
  if c ≠ 0x25 then .ok (.text [c], fmt, args)
  else if fmt.head? = some 0x25 then .ok (.text [c], fmt.tail, args)
  else specificationPiece fmt args

def piecesFrom : Nat → List UInt8 → List Arg → Except Misuse (List Piece)
  | 0, _, _ => .ok []
  | _ + 1, [], _ => .ok []
  | fuel + 1, c :: fmt, args => do
    let (p, fmt, args) ← firstPiece c fmt args
    let ps ← piecesFrom fuel fmt args
    return p :: ps

/-- The pieces of a format with its arguments. -/
def pieces (fmt : CString) (args : List Arg) : Except Misuse (List Piece) :=
  piecesFrom fmt.chars.length fmt.chars args

/-! ## The loop puts the pieces -/

/-- `%n` stores one counter. -/
def storeCount (s : Out) (target : BitVec 64 × Nat) : Out :=
  { s with stored := s.stored ++ [⟨target.1, target.2, s.numChars.toNat % 2 ^ target.2⟩] }

/-- One piece is put. -/
def emit (bufSize : BitVec 64) (s : Out) : Piece → Out
  | .text chars => chars.foldl (putChar bufSize) s
  | .number digits _ => reverseDigits s.str s.numChars (digits.foldl (putChar bufSize) s)
  | .counts targets => targets.foldl storeCount s

theorem putDigits_eq (bufSize : BitVec 64) (base : Nat) (capitalize pad0 : Bool)
    (maxDigits fuel : Nat) (value : Int) (numDigits : Nat) (s : Out) :
    putDigits bufSize base capitalize pad0 maxDigits fuel value numDigits s =
      (digitsFrom base capitalize pad0 maxDigits fuel value numDigits).foldl (putChar bufSize) s := by
  induction fuel generalizing value numDigits s with
  | zero => rfl
  | succ fuel ih =>
      unfold putDigits digitsFrom
      split
      · exact ih _ _ _
      · rfl

theorem putInteger_eq (bufSize : BitVec 64) (value : Int) (base : Nat)
    (capitalize isSigned : Bool) (maxDigits : Nat) (pad0 : Bool) (s : Out) :
    putInteger bufSize value base capitalize isSigned maxDigits pad0 s =
      emit bufSize s (integerPiece value base capitalize isSigned maxDigits pad0) := by
  unfold putInteger integerPiece
  by_cases zero : value = 0
  · rw [if_pos zero, if_pos zero]
    rfl
  · rw [if_neg zero, if_neg zero]
    unfold emit signedDigits
    dsimp only
    cases isSigned && decide (value < 0) with
    | false =>
        rw [putDigits_eq]
        rfl
    | true =>
        rw [putDigits_eq, if_pos rfl, if_pos rfl, if_pos rfl, List.foldl_append]
        rfl

theorem storeCounts_eq (sizes : List Nat) (args : List Arg) (s : Out) :
    storeCounts sizes args s =
      (countTargets sizes args).map fun (targets, args) => (args, targets.foldl storeCount s) := by
  induction sizes generalizing args s with
  | nil => rfl
  | cons size sizes ih =>
      unfold storeCounts countTargets
      cases vaArgObject args with
      | error e => rfl
      | ok taken =>
          rw [ok_bind, ok_bind]
          dsimp only
          rw [ih]
          cases countTargets sizes taken.2 with
          | error e => rfl
          | ok rest => rfl

/-- A conversion puts its piece. -/
theorem convert_eq (bufSize : BitVec 64) (l : Length) (pad0 : Bool) (args : List Arg) (s : Out)
    (conversion : Conversion) :
    convert bufSize l pad0 args s conversion =
      (converted l pad0 args conversion).map fun (p, args) => (args, emit bufSize s p) := by
  have integers (integer : Except Misuse (Int × List Arg)) (base : Nat)
      (capitalize isSigned : Bool) (maxDigits : Nat) (pad0 : Bool) :
      (integer >>= fun integer => .ok (convertInteger bufSize integer base capitalize isSigned
        maxDigits pad0 s)) =
      (integer >>= fun integer => .ok (convertedInteger integer base capitalize isSigned
        maxDigits pad0)).map fun (p, args) => (args, emit bufSize s p) := by
    cases integer with
    | error e => rfl
    | ok integer =>
        rw [ok_bind, ok_bind]
        unfold convertInteger
        rw [putInteger_eq]
        rfl
  cases conversion with
  | s =>
      unfold convert converted
      dsimp only
      cases vaArgString args with
      | error e => rfl
      | ok taken => rfl
  | c =>
      unfold convert converted
      dsimp only
      cases vaArg args with
      | error e => rfl
      | ok taken => rfl
  | o => exact integers _ _ _ _ _ _
  | d => exact integers _ _ _ _ _ _
  | u => exact integers _ _ _ _ _ _
  | X => exact integers _ _ _ _ _ _
  | x => exact integers _ _ _ _ _ _
  | p =>
      unfold convert converted
      dsimp only
      cases vaArg args with
      | error e => rfl
      | ok taken => exact integers (.ok (taken.1.bits.toNat, taken.2)) _ _ _ _ _
  | n =>
      unfold convert converted
      dsimp only
      rw [storeCounts_eq]
      cases countTargets l.storeSizes args with
      | error e => rfl
      | ok targets => rfl

theorem convertNext_eq (bufSize : BitVec 64) (fmt : List UInt8) (args : List Arg) (s : Out) :
    convertNext bufSize fmt args s =
      (specificationPiece fmt args).map fun (p, fmt, args) => (fmt, args, emit bufSize s p) := by
  unfold convertNext specificationPiece
  dsimp only
  cases (getLength (getFlags fmt).2).2 with
  | nil => rfl
  | cons c rest =>
      dsimp only
      cases conversionOf c with
      | none => rfl
      | some conversion =>
          dsimp only
          rw [convert_eq]
          cases converted (getLength (getFlags fmt).2).1 (getFlags fmt).1 args conversion with
          | error e => rfl
          | ok taken => rfl

theorem formatStep_eq (bufSize : BitVec 64) (c : UInt8) (fmt : List UInt8) (args : List Arg)
    (s : Out) :
    formatStep bufSize c fmt args s =
      (firstPiece c fmt args).map fun (p, fmt, args) => (fmt, args, emit bufSize s p) := by
  unfold formatStep firstPiece
  split
  · rfl
  · split
    · rfl
    · exact convertNext_eq bufSize fmt args s

/-- The loop puts the pieces of the format, whatever the buffer is. -/
theorem formatLoop_eq (bufSize : BitVec 64) (fuel : Nat) (fmt : List UInt8) (args : List Arg)
    (s : Out) :
    formatLoop bufSize fuel fmt args s =
      (piecesFrom fuel fmt args).map fun ps => ps.foldl (emit bufSize) s := by
  induction fuel generalizing fmt args s with
  | zero => rfl
  | succ fuel ih =>
      cases fmt with
      | nil => rfl
      | cons c fmt =>
          unfold formatLoop piecesFrom
          rw [formatStep_eq]
          cases firstPiece c fmt args with
          | error e => rfl
          | ok first =>
              rw [ok_bind]
              dsimp only [Except.map]
              rw [ok_bind]
              dsimp only
              rw [ih]
              cases piecesFrom fuel first.2.1 first.2.2 with
              | error e => rfl
              | ok ps => rfl

/-! ## The bounds on the rounds -/

/-- More rounds do not change the digits of a number that has no more. -/
theorem digitsFrom_add {base : Nat} (capitalize pad0 : Bool) {maxDigits fuel : Nat}
    (more : Nat) {value : Int} {numDigits : Nat} (small : value.natAbs < base ^ fuel)
    (padded : maxDigits ≤ numDigits + fuel) :
    digitsFrom base capitalize pad0 maxDigits (fuel + more) value numDigits =
      digitsFrom base capitalize pad0 maxDigits fuel value numDigits := by
  induction fuel generalizing value numDigits with
  | zero =>
      have zero : value = 0 := by
        rw [Nat.pow_zero] at small
        omega
      have ended : ¬ (value ≠ 0 ∨ pad0 = true ∧ numDigits < maxDigits) := by
        rw [zero]
        omega
      cases more with
      | zero => rfl
      | succ more =>
          rw [Nat.zero_add]
          exact if_neg ended
  | succ fuel ih =>
      have next : fuel + 1 + more = fuel + more + 1 := by omega
      have smaller : (value.tdiv base).natAbs < base ^ fuel := by
        rw [Int.natAbs_tdiv, Int.natAbs_natCast]
        apply Nat.div_lt_of_lt_mul
        rw [← Nat.pow_succ']
        exact small
      rw [next]
      unfold digitsFrom
      rw [ih smaller (by omega)]

/-- `put_integer` never needs more than `MAX_ROUNDS` rounds. -/
theorem putDigits_rounds (bufSize : BitVec 64) {base : Nat} (two : 2 ≤ base)
    (capitalize pad0 : Bool) {maxDigits : Nat} (few : maxDigits ≤ MAX_ROUNDS) (more : Nat)
    {value : Int} (small : value.natAbs < 2 ^ 64) (s : Out) :
    putDigits bufSize base capitalize pad0 maxDigits (MAX_ROUNDS + more) value 0 s =
      putDigits bufSize base capitalize pad0 maxDigits MAX_ROUNDS value 0 s := by
  have fits : value.natAbs < base ^ MAX_ROUNDS :=
    Nat.lt_of_lt_of_le small (Nat.pow_le_pow_left two 64)
  rw [putDigits_eq, putDigits_eq, digitsFrom_add capitalize pad0 more fits (by omega)]

theorem length_getFlags_le (fmt : List UInt8) : (getFlags fmt).2.length ≤ fmt.length := by
  cases fmt with
  | nil => exact Nat.le_refl 0
  | cons c fmt =>
      rw [getFlags]
      split
      · exact Nat.le_succ _
      · exact Nat.le_refl _

theorem length_getLengthTwice_le (c : UInt8) (once twice : Length) (fmt : List UInt8) :
    (getLengthTwice c once twice fmt).2.length ≤ fmt.length := by
  cases fmt with
  | nil => exact Nat.le_refl 0
  | cons d fmt =>
      rw [getLengthTwice]
      split
      · exact Nat.le_succ _
      · exact Nat.le_refl _

theorem length_getLength_le (fmt : List UInt8) : (getLength fmt).2.length ≤ fmt.length := by
  cases fmt with
  | nil => exact Nat.le_refl 0
  | cons c fmt =>
      rw [getLength]
      split
      · exact Nat.le_succ_of_le (length_getLengthTwice_le _ _ _ _)
      · split
        · exact Nat.le_succ_of_le (length_getLengthTwice_le _ _ _ _)
        · split
          · exact Nat.le_succ _
          · exact Nat.le_refl _

theorem length_specificationPiece_le {fmt fmt' : List UInt8} {args args' : List Arg} {p : Piece}
    (h : specificationPiece fmt args = .ok (p, fmt', args')) : fmt'.length ≤ fmt.length := by
  have rest := Nat.le_trans (length_getLength_le (getFlags fmt).2) (length_getFlags_le fmt)
  unfold specificationPiece at h
  dsimp only at h
  cases left : (getLength (getFlags fmt).2).2 with
  | nil =>
      rw [left] at h
      cases h
  | cons c fmt'' =>
      rw [left, List.length_cons] at rest
      rw [left] at h
      dsimp only at h
      cases kind : conversionOf c with
      | none =>
          rw [kind] at h
          cases h
          omega
      | some conversion =>
          rw [kind] at h
          obtain ⟨_, -, h⟩ := bind_eq_ok h
          cases h
          omega

/-- A round leaves no more of the format than is behind its character. -/
theorem length_firstPiece_le {c : UInt8} {fmt fmt' : List UInt8} {args args' : List Arg}
    {p : Piece} (h : firstPiece c fmt args = .ok (p, fmt', args')) : fmt'.length ≤ fmt.length := by
  unfold firstPiece at h
  split at h
  · cases h
    exact Nat.le_refl _
  · split at h
    · cases h
      rw [List.length_tail]
      exact Nat.sub_le _ _
    · exact length_specificationPiece_le h

/-- The length of the format bounds the rounds. -/
theorem piecesFrom_of_le {fuel : Nat} {fmt : List UInt8} (args : List Arg)
    (enough : fmt.length ≤ fuel) : piecesFrom fuel fmt args = piecesFrom fmt.length fmt args := by
  induction fuel using Nat.strong_induction_on generalizing fmt args with
  | _ fuel ih =>
      cases fmt with
      | nil =>
          cases fuel with
          | zero => rfl
          | succ fuel => rfl
      | cons c fmt =>
          cases fuel with
          | zero => cases enough
          | succ fuel =>
              rw [List.length_cons] at enough
              rw [List.length_cons]
              unfold piecesFrom
              cases first : firstPiece c fmt args with
              | error e => rfl
              | ok taken =>
                  have shorter := length_firstPiece_le first
                  rw [ok_bind, ok_bind]
                  dsimp only
                  rw [ih fuel (Nat.lt_succ_self _) taken.2.2 (by omega),
                    ih fmt.length (by omega) taken.2.2 shorter]

/-! ## As long as there is room -/

/-- The state in which `out` has been written into `buf`, and there is room. -/
def showing (buf : Nat → UInt8) (out : List UInt8) (stored : List Store) : Out where
  str := some out.length
  numChars := BitVec.ofNat 64 out.length
  buf := overlay buf 0 out
  stored := stored

theorem strrevLoop_eq (fuel b e : Nat) (buf : Nat → UInt8) (enough : e ≤ b + fuel) :
    strrevLoop fuel b e buf = mirror buf b e := by
  induction fuel generalizing b e buf with
  | zero =>
      funext i
      unfold mirror
      split
      · have same : b + e - i = i := by omega
        rw [same]
        rfl
      · rfl
  | succ fuel ih =>
      unfold strrevLoop
      split
      · dsimp only
        rw [ih (b + 1) (e - 1) _ (by omega)]
        funext i
        unfold mirror
        simp only [Function.update_apply]
        -- the two ends have been swapped, the rest is the smaller mirror
        rcases Nat.lt_trichotomy i b with before | rfl | behind
        · rw [if_neg (by omega), if_neg (by omega), if_neg (by omega), if_neg (by omega)]
        · have other : i + e - i = e := by omega
          rw [if_neg (by omega), if_pos rfl, if_pos (by omega), other]
        · rcases Nat.lt_trichotomy i e with inside | rfl | outside
          · have index : b + 1 + (e - 1) - i = b + e - i := by omega
            rw [if_pos (by omega), index, if_neg (by omega), if_neg (by omega), if_pos (by omega)]
          · have other : b + i - i = b := by omega
            rw [if_neg (by omega), if_neg (by omega), if_pos rfl, if_pos (by omega), other]
          · rw [if_neg (by omega), if_neg (by omega), if_neg (by omega), if_neg (by omega)]
      · funext i
        unfold mirror
        split
        · have same : b + e - i = i := by omega
          rw [same]
        · rfl

/-- `strrev` reverses what has just been written. -/
theorem strrev_overlay (buf : Nat → UInt8) (p : Nat) (l : List UInt8) :
    strrev p l.length (overlay buf p l) = overlay buf p l.reverse := by
  by_cases empty : l = []
  · rw [empty]
    rfl
  · unfold strrev
    rw [strrevLoop_eq _ _ _ _ (by omega), mirror_overlay buf p empty]

section Room

variable {bufSize : BitVec 64} {buf : Nat → UInt8} {out : List UInt8} {stored : List Store}

theorem putChar_showing (room : out.length + 1 < bufSize.toNat) (c : UInt8) :
    putChar bufSize (showing buf out stored) c = showing buf (out ++ [c]) stored := by
  have next : BitVec.ofNat 64 out.length + 1 = BitVec.ofNat 64 (out ++ [c]).length := by
    rw [List.length_append, List.length_singleton]
    bv_omega
  have notFull : ¬ bufSize ≤ BitVec.ofNat 64 out.length + 1 := by bv_omega
  have written := update_overlay buf 0 out c
  rw [Nat.zero_add] at written
  unfold putChar showing
  dsimp only
  rw [if_neg notFull, written, next, List.length_append, List.length_singleton]

theorem foldl_putChar_showing {chars : List UInt8}
    (room : out.length + chars.length < bufSize.toNat) :
    chars.foldl (putChar bufSize) (showing buf out stored) = showing buf (out ++ chars) stored := by
  induction chars generalizing out with
  | nil =>
      rw [List.append_nil]
      rfl
  | cons c chars ih =>
      rw [List.length_cons] at room
      have rest : (out ++ [c]).length + chars.length < bufSize.toNat := by
        rw [List.length_append, List.length_singleton]
        omega
      rw [List.foldl_cons, putChar_showing (by omega), ih rest, List.append_assoc]
      rfl

/-- The counters that are stored change nothing else. -/
theorem foldl_storeCount (targets : List (BitVec 64 × Nat)) (s : Out) :
    ∃ stored, targets.foldl storeCount s = { s with stored := stored } := by
  induction targets generalizing s with
  | nil => exact ⟨s.stored, rfl⟩
  | cons target targets ih =>
      obtain ⟨stored, rest⟩ := ih (storeCount s target)
      exact ⟨stored, rest⟩

/-- The digits of a number are reversed when all of them have been put. -/
theorem reverseDigits_showing {digits : List UInt8} (short : digits.length < 2 ^ 31) :
    reverseDigits (some out.length) (BitVec.ofNat 64 out.length)
      (showing buf (out ++ digits) stored) = showing buf (out ++ digits.reverse) stored := by
  have count : ((BitVec.ofNat 64 (out ++ digits).length - BitVec.ofNat 64 out.length).setWidth
      32).toInt.toNat = digits.length := by
    have difference : BitVec.ofNat 64 (out.length + digits.length) - BitVec.ofNat 64 out.length =
        BitVec.ofNat 64 digits.length := by bv_omega
    rw [List.length_append, difference, BitVec.toInt_eq_toNat_of_lt]
    · rw [BitVec.toNat_setWidth, BitVec.toNat_ofNat, Int.toNat_natCast]
      omega
    · rw [BitVec.toNat_setWidth, BitVec.toNat_ofNat]
      omega
  have place : overlay buf 0 (out ++ digits) = overlay (overlay buf 0 out) out.length digits := by
    rw [overlay_append, Nat.zero_add]
  have place' : overlay buf 0 (out ++ digits.reverse) =
      overlay (overlay buf 0 out) out.length digits.reverse := by
    rw [overlay_append, Nat.zero_add]
  unfold reverseDigits showing
  dsimp only
  rw [if_neg Bool.false_ne_true, count, place, strrev_overlay, place', List.length_append,
    List.length_append, List.length_reverse]

theorem emit_showing (buf : Nat → UInt8) (stored : List Store) (p : Piece)
    (room : out.length + p.put.length < bufSize.toNat) :
    ∃ stored', emit bufSize (showing buf out stored) p = showing buf (out ++ p.shown) stored' := by
  cases p with
  | text chars => exact ⟨stored, foldl_putChar_showing room⟩
  | number digits short =>
      have digitsPut : digits.foldl (putChar bufSize) (showing buf out stored) =
          showing buf (out ++ digits) stored := foldl_putChar_showing room
      refine ⟨stored, ?_⟩
      unfold emit
      dsimp only
      rw [digitsPut]
      exact reverseDigits_showing (Nat.lt_of_le_of_lt short (by decide))
  | counts targets =>
      obtain ⟨stored', same⟩ := foldl_storeCount targets (showing buf out stored)
      refine ⟨stored', same.trans ?_⟩
      unfold Piece.shown
      dsimp only
      rw [List.append_nil]
      rfl

/-- Pieces for which there is room are shown one behind the other. -/
theorem foldl_emit_showing (buf : Nat → UInt8) (out : List UInt8) (stored : List Store)
    (ps : List Piece)
    (room : out.length + (complete ps).length < bufSize.toNat) :
    ∃ stored', ps.foldl (emit bufSize) (showing buf out stored) =
      showing buf (out ++ complete ps) stored' := by
  induction ps generalizing out stored with
  | nil =>
      refine ⟨stored, ?_⟩
      unfold complete
      rw [List.flatMap_nil, List.append_nil]
      rfl
  | cons p ps ih =>
      have split_ : complete (p :: ps) = p.shown ++ complete ps := List.flatMap_cons
      rw [split_, List.length_append] at room
      have first : out.length + p.put.length < bufSize.toNat := by
        rw [← p.length_shown]
        omega
      obtain ⟨stored₁, shown⟩ := emit_showing buf stored p first
      obtain ⟨stored₂, rest⟩ := ih (out ++ p.shown) stored₁ (by
        rw [List.length_append]
        omega)
      refine ⟨stored₂, ?_⟩
      rw [List.foldl_cons, shown, rest, split_, List.append_assoc]

end Room

/-- A call is undefined exactly if its format has no pieces with these arguments. -/
theorem vsnprintf_error (str : Option (Nat → UInt8)) (bufSize : BitVec 64) {fmt : CString}
    {args : List Arg} {e : Misuse} (h : pieces fmt args = .error e) :
    vsnprintf str bufSize (some fmt) args = .error e := by
  unfold pieces at h
  unfold vsnprintf
  dsimp only
  rw [formatLoop_eq, h]
  rfl

/-- The call puts the pieces into the empty buffer and terminates it. -/
theorem vsnprintf_eq (buf : Nat → UInt8) (bufSize : BitVec 64) {fmt : CString} {args : List Arg}
    {ps : List Piece} (h : pieces fmt args = .ok ps) :
    vsnprintf (some buf) bufSize (some fmt) args =
      .ok ((((ps.foldl (emit bufSize) (showing buf [] [])).numChars).setWidth 32).toInt,
        terminate bufSize (ps.foldl (emit bufSize) (showing buf [] []))) := by
  have start : showing buf [] [] = { str := some 0, buf := buf } := by
    unfold showing
    rw [overlay_nil]
    rfl
  unfold pieces at h
  unfold vsnprintf
  dsimp only [Option.map_some, Option.getD_some]
  rw [formatLoop_eq, h, start]
  rfl

/-- A buffer that is larger than the complete output shows it, with the terminator behind it. -/
theorem vsnprintf_fits (buf : Nat → UInt8) {bufSize : BitVec 64} {fmt : CString} {args : List Arg}
    {ps : List Piece} (h : pieces fmt args = .ok ps)
    (room : (complete ps).length < bufSize.toNat) :
    ∃ s, vsnprintf (some buf) bufSize (some fmt) args =
        .ok ((BitVec.ofNat 32 (complete ps).length).toInt, s) ∧
      s.buf = overlay buf 0 (complete ps ++ [0]) := by
  have fits : ([] : List UInt8).length + (complete ps).length < bufSize.toNat := by
    rw [List.length_nil, Nat.zero_add]
    exact room
  obtain ⟨stored, run⟩ := foldl_emit_showing buf [] [] ps fits
  rw [List.nil_append] at run
  have positive : 0 < bufSize := by bv_omega
  have written := update_overlay buf 0 (complete ps) 0
  rw [Nat.zero_add] at written
  refine ⟨{ showing buf (complete ps) stored with buf := overlay buf 0 (complete ps ++ [0]) }, ?_, rfl⟩
  have ret : (BitVec.ofNat 64 (complete ps).length).setWidth 32 =
      BitVec.ofNat 32 (complete ps).length := by
    bv_omega
  have ended : terminate bufSize (showing buf (complete ps) stored) =
      { showing buf (complete ps) stored with buf := overlay buf 0 (complete ps ++ [0]) } := by
    unfold terminate showing
    dsimp only
    rw [if_pos positive, written]
  rw [vsnprintf_eq buf bufSize h, run, ended]
  unfold showing
  dsimp only
  rw [ret]

end Tyleros.Libc
