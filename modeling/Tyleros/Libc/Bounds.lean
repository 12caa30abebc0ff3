import Tyleros.Libc.Truncation

/-!
# The end of the buffer

`vsnprintf` returns the length of the complete output, whatever the buffer is. It writes a
character if the counter is below the size of the buffer then. The counter is a `size_t`:
behind character `2 ^ 64` it begins again, and so would the writes, behind the buffer.
`vsnprintf_inside_iff` says for which outputs that is so; `vsnprintf_inside` leaves out those
that are too long for any memory to hold.
-/

namespace Tyleros.Libc

/-! ## What is returned -/

section Counting

variable {bufSize : BitVec 64}

theorem putChar_of_full {s : Out} (isFull : bufSize ≤ s.numChars + 1) (c : UInt8) :
    putChar bufSize s c = { s with numChars := s.numChars + 1, bufferFull := true } := by
  unfold putChar
  dsimp only
  rw [if_pos isFull]

theorem putChar_of_room {s : Out} (room : ¬ bufSize ≤ s.numChars + 1) {p : Nat}
    (at_ : s.str = some p) (c : UInt8) :
    putChar bufSize s c =
      { s with numChars := s.numChars + 1, buf := Function.update s.buf p c, str := some (p + 1) } := by
  unfold putChar
  dsimp only
  rw [if_neg room, at_]

theorem putChar_of_null {s : Out} (room : ¬ bufSize ≤ s.numChars + 1) (null : s.str = none)
    (c : UInt8) : putChar bufSize s c = { s with numChars := s.numChars + 1 } := by
  unfold putChar
  dsimp only
  rw [if_neg room, null]

theorem numChars_putChar (s : Out) (c : UInt8) :
    (putChar bufSize s c).numChars = s.numChars + 1 := by
  unfold putChar
  dsimp only
  split
  · rfl
  · cases s.str with
    | none => rfl
    | some p => rfl

theorem numChars_foldl_putChar (chars : List UInt8) (s : Out) :
    (chars.foldl (putChar bufSize) s).numChars = s.numChars + BitVec.ofNat 64 chars.length := by
  induction chars generalizing s with
  | nil => exact (BitVec.add_zero s.numChars).symm
  | cons c chars ih =>
      rw [List.foldl_cons, ih, numChars_putChar, List.length_cons]
      bv_omega

theorem numChars_reverseDigits (digitsStart : Option Nat) (numCharsBefore : BitVec 64) (s : Out) :
    (reverseDigits digitsStart numCharsBefore s).numChars = s.numChars := by
  unfold reverseDigits
  split
  · rfl
  · split
    · rfl
    · rfl

theorem numChars_emit (s : Out) (p : Piece) :
    (emit bufSize s p).numChars = s.numChars + BitVec.ofNat 64 p.put.length := by
  cases p with
  | text chars => exact numChars_foldl_putChar chars s
  | number digits short =>
      exact (numChars_reverseDigits _ _ _).trans (numChars_foldl_putChar digits s)
  | counts targets =>
      obtain ⟨stored, same⟩ := foldl_storeCount targets s
      exact (congrArg Out.numChars same).trans (BitVec.add_zero s.numChars).symm

/-- The counter, whatever the buffer is. -/
theorem numChars_foldl_emit (ps : List Piece) (s : Out) :
    (ps.foldl (emit bufSize) s).numChars = s.numChars + BitVec.ofNat 64 (complete ps).length := by
  induction ps generalizing s with
  | nil => exact (BitVec.add_zero s.numChars).symm
  | cons p ps ih =>
      rw [List.foldl_cons, ih, numChars_emit, complete_cons, List.length_append, p.length_shown]
      bv_omega

end Counting

/-- The state in which the loop over the format begins. -/
def begun (str : Option (Nat → UInt8)) : Out :=
  { str := str.map fun _ => 0, buf := str.getD fun _ => 0 }

theorem begun_some (buf : Nat → UInt8) : begun (some buf) = showing buf [] [] := by
  unfold begun showing
  rw [overlay_nil]
  rfl

/-- Every defined call returns the length of the complete output as an `int`. -/
theorem vsnprintf_run (str : Option (Nat → UInt8)) (bufSize : BitVec 64) {fmt : CString}
    {args : List Arg} {ps : List Piece} (parsed : pieces fmt args = .ok ps) :
    vsnprintf str bufSize (some fmt) args =
      .ok ((BitVec.ofNat 32 (complete ps).length).toInt,
        terminate bufSize (ps.foldl (emit bufSize) (begun str))) := by
  have counted : (ps.foldl (emit bufSize) (begun str)).numChars =
      BitVec.ofNat 64 (complete ps).length :=
    (numChars_foldl_emit ps (begun str)).trans (BitVec.zero_add _)
  have ret : (BitVec.ofNat 64 (complete ps).length).setWidth 32 =
      BitVec.ofNat 32 (complete ps).length := by
    bv_omega
  unfold pieces at parsed
  unfold vsnprintf
  dsimp only
  rw [formatLoop_eq, parsed, ← ret, ← counted]
  rfl

/-! ## No buffer -/

/-- There is no buffer, and memory is as it was. -/
structure Nowhere (buf : Nat → UInt8) (s : Out) : Prop where
  null : s.str = none
  same : s.buf = buf

namespace Nowhere

variable {bufSize : BitVec 64} {buf : Nat → UInt8} {s : Out}

theorem putChar (bufSize : BitVec 64) (h : Nowhere buf s) (c : UInt8) :
    Nowhere buf (putChar bufSize s c) := by
  by_cases isFull : bufSize ≤ s.numChars + 1
  · rw [putChar_of_full isFull]
    exact ⟨h.null, h.same⟩
  · rw [putChar_of_null isFull h.null]
    exact ⟨h.null, h.same⟩

theorem foldl_putChar (bufSize : BitVec 64) (h : Nowhere buf s) (chars : List UInt8) :
    Nowhere buf (chars.foldl (Libc.putChar bufSize) s) := by
  induction chars generalizing s with
  | nil => exact h
  | cons c chars ih => exact ih (h.putChar bufSize c)

theorem emit (bufSize : BitVec 64) (h : Nowhere buf s) (p : Piece) :
    Nowhere buf (emit bufSize s p) := by
  cases p with
  | text chars => exact h.foldl_putChar bufSize chars
  | number digits short =>
      have put := h.foldl_putChar bufSize digits
      unfold Libc.emit
      dsimp only
      unfold reverseDigits
      split
      · exact put
      · rw [put.null]
        exact put
  | counts targets =>
      obtain ⟨stored, same⟩ := foldl_storeCount targets s
      have same' : Libc.emit bufSize s (.counts targets) = { s with stored := stored } := same
      rw [same']
      exact ⟨h.null, h.same⟩

theorem foldl_emit (bufSize : BitVec 64) (h : Nowhere buf s) (ps : List Piece) :
    Nowhere buf (ps.foldl (Libc.emit bufSize) s) := by
  induction ps generalizing s with
  | nil => exact h
  | cons p ps ih => exact ih (h.emit bufSize p)

theorem terminate (bufSize : BitVec 64) (h : Nowhere buf s) :
    Nowhere buf (terminate bufSize s) := by
  unfold Libc.terminate
  rw [h.null]
  cases s.bufferFull with
  | false => exact h
  | true => exact h

end Nowhere

/-! ## A buffer of no size -/

/-- A buffer of size zero is full with the first character. -/
theorem foldl_putChar_zero (chars : List UInt8) (s : Out) :
    (chars.foldl (putChar 0) s).buf = s.buf ∧
      ((chars.foldl (putChar 0) s).bufferFull = true ∨ chars.foldl (putChar 0) s = s) := by
  have first (s : Out) (c : UInt8) :
      putChar 0 s c = { s with numChars := s.numChars + 1, bufferFull := true } := by
    exact putChar_of_full (by bv_omega) c
  cases chars with
  | nil => exact ⟨rfl, Or.inr rfl⟩
  | cons c chars =>
      have kept (s : Out) : (chars.foldl (putChar 0) s).buf = s.buf := by
        induction chars generalizing s with
        | nil => rfl
        | cons d chars ih => rw [List.foldl_cons, ih, first]
      rw [List.foldl_cons, first]
      exact ⟨kept _, Or.inl (bufferFull_foldl rfl chars)⟩

theorem emit_zero (s : Out) (p : Piece) : (emit 0 s p).buf = s.buf := by
  cases p with
  | text chars => exact (foldl_putChar_zero chars s).1
  | number digits short =>
      obtain ⟨same, isFull | nothing⟩ := foldl_putChar_zero digits s
      · have skipped := reverseDigits_full isFull s.str s.numChars
        exact (congrArg Out.buf skipped).trans same
      · -- without a character there are no digits to reverse
        have none_ : ((s.numChars - s.numChars).setWidth 32).toInt.toNat = 0 := by
          rw [BitVec.sub_self]
          rfl
        unfold emit
        dsimp only
        rw [nothing]
        unfold reverseDigits
        split
        · rfl
        · split
          · rw [none_]
            rfl
          · rfl
  | counts targets =>
      obtain ⟨stored, same⟩ := foldl_storeCount targets s
      have same' : emit 0 s (.counts targets) = { s with stored := stored } := same
      rw [same']

theorem foldl_emit_zero (ps : List Piece) (s : Out) : (ps.foldl (emit 0) s).buf = s.buf := by
  induction ps generalizing s with
  | nil => rfl
  | cons p ps ih => rw [List.foldl_cons, ih, emit_zero]

theorem terminate_zero (s : Out) : terminate 0 s = s := by
  unfold terminate
  split
  · exact if_neg (BitVec.lt_irrefl 0)
  · rfl

/-! ## How many characters are written -/

/-- How many of the first `n` characters are written. -/
def written (bufSize : BitVec 64) : Nat → Nat
  | 0 => 0
  | n + 1 =>
    if bufSize ≤ BitVec.ofNat 64 (n + 1) then written bufSize n else written bufSize n + 1

/-- One less than the size, and the size itself when the counter has passed zero. -/
theorem written_eq {bufSize : BitVec 64} (positive : 1 ≤ bufSize.toNat) (n : Nat) :
    written bufSize n =
      n / 2 ^ 64 * bufSize.toNat + min (n % 2 ^ 64) (bufSize.toNat - 1) := by
  have bound := bufSize.isLt
  induction n with
  | zero => rw [written, Nat.zero_div, Nat.zero_mul, Nat.zero_mod, Nat.zero_min]
  | succ n ih =>
      have test : bufSize ≤ BitVec.ofNat 64 (n + 1) ↔ bufSize.toNat ≤ (n + 1) % 2 ^ 64 := by
        rw [BitVec.le_def, BitVec.toNat_ofNat]
      rw [written, ih]
      rcases Nat.lt_or_ge (n % 2 ^ 64 + 1) (2 ^ 64) with inside | last
      · have quotient : (n + 1) / 2 ^ 64 = n / 2 ^ 64 := by omega
        have remainder : (n + 1) % 2 ^ 64 = n % 2 ^ 64 + 1 := by omega
        rw [remainder] at test
        rw [quotient, remainder]
        split
        · next isFull =>
            have behind := test.mp isFull
            omega
        · next room =>
            have before := mt test.mpr room
            omega
      · have quotient : (n + 1) / 2 ^ 64 = n / 2 ^ 64 + 1 := by omega
        have remainder : (n + 1) % 2 ^ 64 = 0 := by omega
        have room : ¬ bufSize ≤ BitVec.ofNat 64 (n + 1) := by
          rw [test, remainder]
          omega
        rw [if_neg room, quotient, remainder, Nat.succ_mul]
        omega

/-- The counter does not come back into the buffer, or only for its last byte. -/
def CountsOn (bufSize : BitVec 64) (length : Nat) : Prop :=
  bufSize = 0 ∨ length ≤ 2 ^ 64 ∨ bufSize = 1 ∧ length < 2 ^ 65

theorem written_le_iff {bufSize : BitVec 64} (positive : 1 ≤ bufSize.toNat) (length : Nat) :
    written bufSize length ≤ bufSize.toNat ↔ CountsOn bufSize length := by
  have bound := bufSize.isLt
  have notZero : ¬ bufSize = 0 := by bv_omega
  have one_ : bufSize = 1 ↔ bufSize.toNat = 1 := by bv_omega
  unfold CountsOn
  rw [written_eq positive, or_iff_right notZero, one_]
  have parts := Nat.div_add_mod length (2 ^ 64)
  generalize length % 2 ^ 64 = r at parts ⊢
  rcases Nat.lt_trichotomy (length / 2 ^ 64) 1 with never | once | often
  · have zero : length / 2 ^ 64 = 0 := Nat.lt_one_iff.mp never
    rw [zero] at parts ⊢
    omega
  · rw [once] at parts ⊢
    omega
  · have twice : 2 * bufSize.toNat ≤ length / 2 ^ 64 * bufSize.toNat :=
      Nat.mul_le_mul_right _ often
    have long : 2 ^ 65 ≤ length := by omega
    omega

/-! ## Behind a full buffer -/

section Wrapping

variable {bufSize : BitVec 64} {buf : Nat → UInt8} {n : Nat} {s t : Out}

/-- After `n` characters: where the next one goes, and that nothing is written behind it. -/
structure Advanced (bufSize : BitVec 64) (buf : Nat → UInt8) (n : Nat) (s : Out) : Prop where
  counted : s.numChars = BitVec.ofNat 64 n
  cursor : s.str = some (written bufSize n)
  kept : ∀ i, written bufSize n ≤ i → s.buf i = buf i

theorem Advanced.putChar (h : Advanced bufSize buf n s) (c : UInt8) :
    Advanced bufSize buf (n + 1) (putChar bufSize s c) := by
  obtain ⟨counted, cursor, kept⟩ := h
  have next : s.numChars + 1 = BitVec.ofNat 64 (n + 1) := by
    rw [counted]
    bv_omega
  by_cases isFull : bufSize ≤ BitVec.ofNat 64 (n + 1)
  · have same : written bufSize (n + 1) = written bufSize n := if_pos isFull
    rw [putChar_of_full (next.symm ▸ isFull)]
    exact ⟨next, cursor.trans (congrArg some same.symm), fun i hi => kept i (same ▸ hi)⟩
  · have further : written bufSize (n + 1) = written bufSize n + 1 := if_neg isFull
    rw [putChar_of_room (next.symm ▸ isFull) cursor]
    refine ⟨next, congrArg some further.symm, fun i hi => ?_⟩
    rw [further] at hi
    exact (Function.update_of_ne (by omega) _ _).trans (kept i (by omega))

theorem Advanced.foldl_putChar (h : Advanced bufSize buf n s) (chars : List UInt8) :
    Advanced bufSize buf (n + chars.length) (chars.foldl (Libc.putChar bufSize) s) := by
  induction chars generalizing n s with
  | nil => exact h
  | cons c chars ih =>
      have rest := ih (h.putChar c)
      rw [Nat.add_assoc, Nat.add_comm 1] at rest
      exact rest

/-- Two runs with the same characters write the same. -/
structure SameWrites (s t : Out) : Prop where
  counted : s.numChars = t.numChars
  cursor : s.str = t.str
  chars : ∀ p, s.str = some p → ∀ i, i < p → s.buf i = t.buf i

theorem SameWrites.putChar (h : SameWrites s t) (c : UInt8) :
    SameWrites (putChar bufSize s c) (putChar bufSize t c) := by
  obtain ⟨counted, cursor, chars⟩ := h
  have next : s.numChars + 1 = t.numChars + 1 := congrArg (· + 1) counted
  by_cases isFull : bufSize ≤ s.numChars + 1
  · rw [putChar_of_full isFull, putChar_of_full (next ▸ isFull)]
    exact ⟨next, cursor, chars⟩
  · cases at_ : s.str with
    | none =>
        rw [putChar_of_null isFull at_, putChar_of_null (next ▸ isFull) (cursor.symm.trans at_)]
        exact ⟨next, cursor, chars⟩
    | some p =>
        rw [putChar_of_room isFull at_, putChar_of_room (next ▸ isFull) (cursor.symm.trans at_)]
        refine ⟨next, rfl, fun q hq i hi => ?_⟩
        cases hq
        dsimp only
        rw [Function.update_apply, Function.update_apply]
        split
        · rfl
        · exact chars p at_ i (by omega)

theorem SameWrites.foldl_putChar (h : SameWrites s t) (chars : List UInt8) :
    SameWrites (chars.foldl (Libc.putChar bufSize) s) (chars.foldl (Libc.putChar bufSize) t) := by
  induction chars generalizing s t with
  | nil => exact h
  | cons c chars ih => exact ih (h.putChar c)

/-- The full buffer as `Advanced` sees it. -/
theorem advanced_overfull (positive : 1 ≤ bufSize.toNat) (stored : List Store) :
    Advanced bufSize buf bufSize.toNat (overfull bufSize buf bufSize.toNat stored) := by
  have bound := bufSize.isLt
  have full : written bufSize bufSize.toNat = bufSize.toNat - 1 := by
    rw [written_eq positive, Nat.div_eq_of_lt bound, Nat.mod_eq_of_lt bound, Nat.zero_mul]
    omega
  unfold overfull
  refine ⟨rfl, ?_, fun i hi => rfl⟩
  rw [full]

end Wrapping

/-! ## What a call writes -/

/-- Nothing is written behind the size, and nothing at all without a buffer. -/
def StaysInside (str : Option (Nat → UInt8)) (bufSize : BitVec 64) (s : Out) : Prop :=
  match str with
  | none => Nowhere (fun _ => 0) s
  | some buf => ∀ i, bufSize.toNat ≤ i → s.buf i = buf i

/-- The call returns the length as an `int` and writes below the size only, whatever the
buffer is. -/
def WritesInside (bufSize : BitVec 64) (fmt : CString) (args : List Arg) (length : Nat) : Prop :=
  ∀ str, ∃ s, vsnprintf str bufSize (some fmt) args =
    .ok ((BitVec.ofNat 32 length).toInt, s) ∧ StaysInside str bufSize s

section Call

variable {bufSize : BitVec 64} {fmt : CString} {args : List Arg} {ps : List Piece}

theorem length_flatMap_put (ps : List Piece) :
    (ps.flatMap Piece.put).length = (complete ps).length := by
  induction ps with
  | nil => rfl
  | cons p ps ih =>
      rw [List.flatMap_cons, complete_cons, List.length_append, List.length_append, ih,
        p.length_shown]

theorem vsnprintf_null_inside (bufSize : BitVec 64) (parsed : pieces fmt args = .ok ps) :
    ∃ s, vsnprintf none bufSize (some fmt) args =
      .ok ((BitVec.ofNat 32 (complete ps).length).toInt, s) ∧ StaysInside none bufSize s := by
  have start : Nowhere (fun _ => 0) (begun none) := ⟨rfl, rfl⟩
  exact ⟨_, vsnprintf_run none bufSize parsed,
    (start.foldl_emit bufSize ps).terminate bufSize⟩

theorem vsnprintf_zero_inside (buf : Nat → UInt8) (parsed : pieces fmt args = .ok ps) :
    ∃ s, vsnprintf (some buf) 0 (some fmt) args =
      .ok ((BitVec.ofNat 32 (complete ps).length).toInt, s) ∧ StaysInside (some buf) 0 s := by
  refine ⟨_, vsnprintf_run (some buf) 0 parsed, fun i hi => ?_⟩
  rw [terminate_zero, foldl_emit_zero]
  rfl

theorem vsnprintf_fits_inside (buf : Nat → UInt8) (parsed : pieces fmt args = .ok ps)
    (room : (complete ps).length < bufSize.toNat) :
    ∃ s, vsnprintf (some buf) bufSize (some fmt) args =
      .ok ((BitVec.ofNat 32 (complete ps).length).toInt, s) ∧
        StaysInside (some buf) bufSize s := by
  obtain ⟨s, run, shows_⟩ := vsnprintf_shows buf parsed room
  exact ⟨s, run, fun i hi => shows_.kept i (by omega)⟩

/-- The state in which a call ends that fills the buffer. -/
theorem vsnprintf_cut (buf : Nat → UInt8) (parsed : pieces fmt args = .ok ps)
    (positive : 1 ≤ bufSize.toNat) (meets : bufSize.toNat ≤ (complete ps).length) :
    ∃ s, vsnprintf (some buf) bufSize (some fmt) args =
        .ok ((BitVec.ofNat 32 (complete ps).length).toInt, s) ∧
      Advanced bufSize (overlay buf 0 (visible (bufSize.toNat - 1) ps)) (complete ps).length s ∧
      SameWrites (cutAt bufSize buf (visible (bufSize.toNat - 1) ps)
        ((ps.flatMap Piece.put).drop bufSize.toNat)) s := by
  have start : ([] : List UInt8).length = 0 := rfl
  have long : bufSize.toNat - 1 < ([] : List UInt8).length + (complete ps).length := by omega
  obtain ⟨stored, cut⟩ := foldl_emit_cut buf [] [] positive (by omega) long
  obtain ⟨isFull, -, -⟩ := foldl_emit_full_buffer buf positive meets
  have run := vsnprintf_run (some buf) bufSize parsed
  rw [begun_some, terminate_of_full isFull, cut, start, Nat.sub_zero, Nat.sub_zero, List.nil_append] at run
  refine ⟨_, run, ?_, ⟨rfl, rfl, fun _ _ _ _ => rfl⟩⟩
  obtain ⟨counted, cursor, kept⟩ :=
    (advanced_overfull positive []).foldl_putChar ((ps.flatMap Piece.put).drop bufSize.toNat)
  have all : bufSize.toNat + ((ps.flatMap Piece.put).drop bufSize.toNat).length =
      (complete ps).length := by
    rw [List.length_drop, length_flatMap_put]
    omega
  rw [all] at counted cursor kept
  exact ⟨counted, cursor, kept⟩

/-- What a full buffer gets does not depend on what it was. -/
theorem sameWrites_cutAt (bufSize : BitVec 64) (buf buf' : Nat → UInt8) {front : List UInt8}
    (length_ : front.length = bufSize.toNat - 1) (behind : List UInt8) :
    SameWrites (cutAt bufSize buf front behind) (cutAt bufSize buf' front behind) := by
  apply SameWrites.foldl_putChar
  refine ⟨rfl, rfl, fun p hp i hi => ?_⟩
  cases hp
  have inside : i < front.length := by omega
  have entry (f : Nat → UInt8) : overlay f 0 front i = front[i] := by
    simpa only [Nat.zero_add] using overlay_getElem f 0 inside
  exact (entry buf).trans (entry buf').symm

/-- When the buffer is too small, the writes stay inside as long as the counter does not come
back. -/
theorem vsnprintf_cut_inside_iff (parsed : pieces fmt args = .ok ps)
    (positive : 1 ≤ bufSize.toNat) (meets : bufSize.toNat ≤ (complete ps).length) :
    (∀ buf, ∃ s, vsnprintf (some buf) bufSize (some fmt) args =
        .ok ((BitVec.ofNat 32 (complete ps).length).toInt, s) ∧
          StaysInside (some buf) bufSize s) ↔
      written bufSize (complete ps).length ≤ bufSize.toNat := by
  have length_ : (visible (bufSize.toNat - 1) ps).length = bufSize.toNat - 1 :=
    length_visible (by omega)
  constructor
  · intro inside
    by_contra beyond
    -- two buffers that differ at the first byte behind the end, and both get the same there
    obtain ⟨s₀, run₀, kept₀⟩ := inside fun _ => 0
    obtain ⟨s₁, run₁, kept₁⟩ := inside fun _ => 1
    obtain ⟨t₀, run₀', advanced₀, same₀⟩ := vsnprintf_cut (fun _ => 0) parsed positive meets
    obtain ⟨t₁, run₁', advanced₁, same₁⟩ := vsnprintf_cut (fun _ => 1) parsed positive meets
    obtain ⟨-, rfl⟩ := Prod.mk.inj (Except.ok.inj (run₀'.symm.trans run₀))
    obtain ⟨-, rfl⟩ := Prod.mk.inj (Except.ok.inj (run₁'.symm.trans run₁))
    have between := sameWrites_cutAt bufSize (fun _ => 0) (fun _ => 1) length_
      ((ps.flatMap Piece.put).drop bufSize.toNat)
    have cursor₀ := same₀.cursor.trans advanced₀.cursor
    have cursor₁ := between.cursor.symm.trans cursor₀
    have below : bufSize.toNat < written bufSize (complete ps).length := Nat.lt_of_not_le beyond
    have zero := (same₀.chars _ cursor₀ _ below).trans (kept₀ bufSize.toNat (Nat.le_refl _))
    have one := (same₁.chars _ cursor₁ _ below).trans (kept₁ bufSize.toNat (Nat.le_refl _))
    have same := between.chars _ cursor₀ _ below
    have different : (0 : UInt8) ≠ 1 := by decide
    exact different (zero.symm.trans (same.trans one))
  · intro short buf
    obtain ⟨s, run, advanced, -⟩ := vsnprintf_cut buf parsed positive meets
    refine ⟨s, run, fun i hi => ?_⟩
    rw [advanced.kept i (by omega), overlay_of_le (by omega)]

/-- The writes of a call stay inside the buffer exactly if its counter does not come back. -/
theorem writesInside_iff (bufSize : BitVec 64) (parsed : pieces fmt args = .ok ps) :
    WritesInside bufSize fmt args (complete ps).length ↔
      CountsOn bufSize (complete ps).length := by
  have without := vsnprintf_null_inside bufSize parsed
  have all : WritesInside bufSize fmt args (complete ps).length ↔
      ∀ buf, ∃ s, vsnprintf (some buf) bufSize (some fmt) args =
        .ok ((BitVec.ofNat 32 (complete ps).length).toInt, s) ∧
          StaysInside (some buf) bufSize s := by
    constructor
    · exact fun inside buf => inside (some buf)
    · intro inside str
      cases str with
      | none => exact without
      | some buf => exact inside buf
  rw [all]
  have bound := bufSize.isLt
  rcases Nat.lt_or_ge (complete ps).length bufSize.toNat with room | meets
  · apply iff_of_true
    · exact fun buf => vsnprintf_fits_inside buf parsed room
    · exact Or.inr (Or.inl (by omega))
  · rcases Nat.eq_zero_or_pos bufSize.toNat with none_ | positive
    · have zero : bufSize = 0 := by bv_omega
      subst zero
      apply iff_of_true
      · exact fun buf => vsnprintf_zero_inside buf parsed
      · exact Or.inl rfl
    · exact (vsnprintf_cut_inside_iff parsed positive meets).trans
        (written_le_iff positive (complete ps).length)

end Call

/-- A defined call returns the length of the complete output as an `int` for every buffer and
every size, and it writes below the size only if and only if its output has at most `2 ^ 64`
characters, or the size is zero, or it is one and the output has less than `2 ^ 65`. -/
theorem vsnprintf_inside_iff {fmt : CString} {args : List Arg} {ps : List Piece}
    (parsed : pieces fmt args = .ok ps) :
    (∀ str bufSize, ∃ s, vsnprintf str bufSize (some fmt) args =
      .ok ((BitVec.ofNat 32 (complete ps).length).toInt, s)) ∧
    ∀ bufSize, WritesInside bufSize fmt args (complete ps).length ↔
      CountsOn bufSize (complete ps).length :=
  ⟨fun str bufSize => ⟨_, vsnprintf_run str bufSize parsed⟩,
    fun bufSize => writesInside_iff bufSize parsed⟩

/-- A defined call with at most `2 ^ 64` characters writes below the size only and returns the
length of the complete output, whatever the buffer and the size are. -/
theorem vsnprintf_inside {fmt : CString} {args : List Arg} {ps : List Piece}
    (parsed : pieces fmt args = .ok ps) (countable : (complete ps).length ≤ 2 ^ 64) :
    ∀ str bufSize, ∃ s, vsnprintf str bufSize (some fmt) args =
      .ok ((BitVec.ofNat 32 (complete ps).length).toInt, s) ∧ StaysInside str bufSize s := by
  obtain ⟨-, inside⟩ := vsnprintf_inside_iff parsed
  intro str bufSize
  exact (inside bufSize).mpr (Or.inr (Or.inl countable)) str

/-- `"%d"` of a negative number in two bytes. -/
theorem vsnprintf_inside_cut : ∃ s,
    vsnprintf (some fun _ => 7) 2 (some ⟨[0x25, 0x64], by decide⟩) [.word 0xFFFFFFF6] =
      .ok (3, s) ∧ StaysInside (some fun _ => 7) 2 s := by
  have parsed : pieces ⟨[0x25, 0x64], by decide⟩ [.word 0xFFFFFFF6] =
      .ok [.number [0x30, 0x31, 0x2D] (by decide)] := rfl
  exact vsnprintf_inside parsed (by decide) (some fun _ => 7) 2

end Tyleros.Libc
