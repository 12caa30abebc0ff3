import Tyleros.Libc.Formatting

/-!
# Output that does not fit

`put_char` stops writing with the last byte of the buffer still free, and marks the buffer as
full; a full buffer is not terminated, and the digits of a number that did not fit are left in
the order in which they were put. `vsnprintf_prefix_iff`: the buffer holds a prefix of the
output with a terminator exactly if there is room, or the last byte was zero before and the cut
does not show in a number.
-/

namespace Tyleros.Libc

/-! ## What a short buffer shows -/

/-- What is to be seen of the pieces when only `room` characters are written. -/
def visible : Nat → List Piece → List UInt8
  | _, [] => []
  | room, p :: ps =>
    if p.put.length ≤ room then p.shown ++ visible (room - p.put.length) ps else p.put.take room

/-- The piece that is cut after `room` characters begins with what is to be seen of it. Only a
number can fail to. -/
def CutsCleanly : Nat → List Piece → Prop
  | _, [] => True
  | room, p :: ps =>
    if p.put.length ≤ room then CutsCleanly (room - p.put.length) ps
    else p.put.take room = p.shown.take room

instance decidableCutsCleanly : ∀ room ps, Decidable (CutsCleanly room ps)
  | _, [] => .isTrue trivial
  | room, p :: ps =>
    letI := decidableCutsCleanly (room - p.put.length) ps
    inferInstanceAs (Decidable (if p.put.length ≤ room then CutsCleanly (room - p.put.length) ps
      else p.put.take room = p.shown.take room))

theorem complete_cons (p : Piece) (ps : List Piece) :
    complete (p :: ps) = p.shown ++ complete ps := List.flatMap_cons

theorem length_visible {room : Nat} {ps : List Piece} (short : room ≤ (complete ps).length) :
    (visible room ps).length = room := by
  induction ps generalizing room with
  | nil =>
      have none_ : room = 0 := Nat.le_zero.mp short
      rw [none_]
      rfl
  | cons p ps ih =>
      have same := p.length_shown
      rw [complete_cons, List.length_append] at short
      rw [visible]
      split
      · rw [List.length_append, ih (by omega)]
        omega
      · rw [List.length_take]
        omega

/-- What is to be seen begins like the output exactly if the cut is clean. -/
theorem visible_eq_take_iff {room : Nat} {ps : List Piece} :
    visible room ps = (complete ps).take room ↔ CutsCleanly room ps := by
  induction ps generalizing room with
  | nil =>
      have nothing : (complete []).take room = [] := List.take_nil
      rw [nothing]
      exact iff_of_true rfl trivial
  | cons p ps ih =>
      have same := p.length_shown
      rw [complete_cons, visible, CutsCleanly]
      split
      · rw [List.take_append, List.take_of_length_le (by omega), List.append_cancel_left_eq, same]
        exact ih
      · have outside : room - p.shown.length = 0 := by omega
        rw [List.take_append, outside, List.take_zero, List.append_nil]

theorem exists_eq_take_append_cons {α : Type*} {l : List α} {k : Nat} (inside : k < l.length) :
    ∃ a l', l = l.take k ++ a :: l' := by
  refine ⟨l[k], l.drop (k + 1), ?_⟩
  rw [List.getElem_cons_drop, List.take_append_drop]

/-! ## A full buffer -/

section Full

variable {bufSize : BitVec 64} {buf : Nat → UInt8} {stored : List Store}

/-- The state in which the buffer is full and `n` characters have been put. -/
def overfull (bufSize : BitVec 64) (buf : Nat → UInt8) (n : Nat) (stored : List Store) : Out where
  str := some (bufSize.toNat - 1)
  bufferFull := true
  numChars := BitVec.ofNat 64 n
  buf := buf
  stored := stored

/-- The character that does not fit. -/
theorem putChar_last (positive : 1 ≤ bufSize.toNat) {out : List UInt8}
    (atEnd : out.length = bufSize.toNat - 1) (c : UInt8) :
    putChar bufSize (showing buf out stored) c =
      overfull bufSize (overlay buf 0 out) bufSize.toNat stored := by
  have next : BitVec.ofNat 64 out.length + 1 = BitVec.ofNat 64 bufSize.toNat := by bv_omega
  have isFull : bufSize ≤ BitVec.ofNat 64 bufSize.toNat := by
    rw [BitVec.ofNat_toNat, BitVec.setWidth_eq]
    exact BitVec.le_refl bufSize
  unfold putChar showing overfull
  dsimp only
  rw [next, if_pos isFull, atEnd]

/-- Later characters are counted, as long as the counter does not wrap around. -/
theorem foldl_putChar_overfull {chars : List UInt8} {n : Nat} (behind : bufSize.toNat ≤ n)
    (noWrap : n + chars.length < 2 ^ 64) :
    chars.foldl (putChar bufSize) (overfull bufSize buf n stored) =
      overfull bufSize buf (n + chars.length) stored := by
  induction chars generalizing n with
  | nil => rfl
  | cons c chars ih =>
      rw [List.length_cons] at noWrap
      have next : BitVec.ofNat 64 n + 1 = BitVec.ofNat 64 (n + 1) := by bv_omega
      have isFull : bufSize ≤ BitVec.ofNat 64 (n + 1) := by bv_omega
      have counted : putChar bufSize (overfull bufSize buf n stored) c =
          overfull bufSize buf (n + 1) stored := by
        unfold putChar overfull
        dsimp only
        rw [next, if_pos isFull]
      rw [List.foldl_cons, counted, ih (by omega) (by omega), List.length_cons]
      congr 1
      omega

/-- The buffer is full and what stands in front of `q` is out of reach. -/
structure Beyond (q : Nat) (buf : Nat → UInt8) (s : Out) : Prop where
  isFull : s.bufferFull = true
  cursor : ∃ p, s.str = some p ∧ q ≤ p
  front : ∀ i, i < q → s.buf i = buf i

theorem Beyond.putChar {q : Nat} {s : Out} (h : Beyond q buf s) (c : UInt8) :
    Beyond q buf (putChar bufSize s c) := by
  obtain ⟨isFull, ⟨p, at_, behind⟩, front⟩ := h
  unfold Libc.putChar
  dsimp only
  split
  · exact ⟨rfl, ⟨p, at_, behind⟩, front⟩
  · rw [at_]
    refine ⟨isFull, ⟨p + 1, rfl, Nat.le_succ_of_le behind⟩, fun i hi => ?_⟩
    dsimp only
    rw [Function.update_of_ne (by omega)]
    exact front i hi

theorem Beyond.foldl_putChar {q : Nat} (chars : List UInt8) {s : Out} (h : Beyond q buf s) :
    Beyond q buf (chars.foldl (Libc.putChar bufSize) s) := by
  induction chars generalizing s with
  | nil => exact h
  | cons c chars ih => exact ih (h.putChar c)

/-- The counter wraps around with character `2 ^ 64`, which goes into the last byte. -/
theorem wrap_overfull (buf : Nat → UInt8) (stored : List Store) (positive : 1 ≤ bufSize.toNat)
    {a : List UInt8} (c : UInt8) (b : List UInt8) {n : Nat} (behind : bufSize.toNat ≤ n) (wraps : n + a.length = 2 ^ 64 - 1) :
    Beyond bufSize.toNat (Function.update buf (bufSize.toNat - 1) c)
      ((a ++ c :: b).foldl (putChar bufSize) (overfull bufSize buf n stored)) := by
  rw [List.foldl_append, foldl_putChar_overfull behind (by omega), wraps, List.foldl_cons]
  apply Beyond.foldl_putChar
  have zero : BitVec.ofNat 64 (2 ^ 64 - 1) + 1 = 0 := by decide
  have room : ¬ bufSize ≤ 0 := by bv_omega
  unfold putChar overfull
  dsimp only
  rw [zero, if_neg room]
  exact ⟨rfl, ⟨_, rfl, by omega⟩, fun i hi => rfl⟩

/-- What a full buffer holds in the end. -/
theorem foldl_putChar_full (buf : Nat → UInt8) (stored : List Store)
    (positive : 1 ≤ bufSize.toNat) (rest : List UInt8) :
    let s := rest.foldl (putChar bufSize) (overfull bufSize buf bufSize.toNat stored)
    s.bufferFull = true ∧ (∀ i, i < bufSize.toNat - 1 → s.buf i = buf i) ∧
      s.buf (bufSize.toNat - 1) =
        rest.getD (2 ^ 64 - 1 - bufSize.toNat) (buf (bufSize.toNat - 1)) := by
  have bound := bufSize.isLt
  dsimp only
  obtain ⟨k, hk⟩ : ∃ k, k = 2 ^ 64 - 1 - bufSize.toNat := ⟨_, rfl⟩
  rw [← hk]
  rcases Nat.lt_or_ge k rest.length with wraps | short
  · have before : (rest.take k).length = k := List.length_take_of_le (Nat.le_of_lt wraps)
    obtain ⟨c, b, parts⟩ := exists_eq_take_append_cons wraps
    generalize rest.take k = a at before parts
    rw [parts]
    obtain ⟨isFull, -, front⟩ := wrap_overfull buf stored positive c b (Nat.le_refl _)
      (show bufSize.toNat + a.length = 2 ^ 64 - 1 by omega)
    refine ⟨isFull, fun i hi => ?_, ?_⟩
    · rw [front i (by omega), Function.update_of_ne (by omega)]
    · rw [front _ (by omega), Function.update_self, ← before, List.getD_append_right _ _ _ _
        (Nat.le_refl _), Nat.sub_self]
      rfl
  · rw [foldl_putChar_overfull (Nat.le_refl _) (by omega), List.getD_eq_default _ _ short]
    exact ⟨rfl, fun i hi => rfl, rfl⟩

/-! ### The pieces in a full buffer -/

theorem putChar_stored (s : Out) (c : UInt8) :
    putChar bufSize { s with stored := stored } c = { putChar bufSize s c with stored := stored } := by
  unfold putChar
  dsimp only
  split
  · rfl
  · cases s.str with
    | none => rfl
    | some p => rfl

theorem foldl_putChar_stored (chars : List UInt8) (s : Out) :
    chars.foldl (putChar bufSize) { s with stored := stored } =
      { chars.foldl (putChar bufSize) s with stored := stored } := by
  induction chars generalizing s with
  | nil => rfl
  | cons c chars ih => rw [List.foldl_cons, putChar_stored, ih, List.foldl_cons]

theorem bufferFull_putChar {s : Out} (isFull : s.bufferFull = true) (c : UInt8) :
    (putChar bufSize s c).bufferFull = true := by
  unfold putChar
  dsimp only
  split
  · rfl
  · cases s.str with
    | none => exact isFull
    | some p => exact isFull

theorem bufferFull_foldl {s : Out} (isFull : s.bufferFull = true) (chars : List UInt8) :
    (chars.foldl (putChar bufSize) s).bufferFull = true := by
  induction chars generalizing s with
  | nil => exact isFull
  | cons c chars ih => exact ih (bufferFull_putChar isFull c)

/-- Nothing is reversed in a full buffer. -/
theorem reverseDigits_full {s : Out} (isFull : s.bufferFull = true) (digitsStart : Option Nat)
    (numCharsBefore : BitVec 64) : reverseDigits digitsStart numCharsBefore s = s := by
  unfold reverseDigits
  rw [if_pos isFull]

/-- A full buffer gets the characters of a piece as they are put. -/
theorem emit_full (bufSize : BitVec 64) {s : Out} (isFull : s.bufferFull = true) (p : Piece) :
    ∃ stored, emit bufSize s p = { p.put.foldl (putChar bufSize) s with stored := stored } := by
  cases p with
  | text chars => exact ⟨_, rfl⟩
  | number digits short => exact ⟨_, reverseDigits_full (bufferFull_foldl isFull digits) _ _⟩
  | counts targets => exact foldl_storeCount targets s

theorem foldl_emit_full (bufSize : BitVec 64) {s : Out} (isFull : s.bufferFull = true) (ps : List Piece) :
    ∃ stored, ps.foldl (emit bufSize) s =
      { (ps.flatMap Piece.put).foldl (putChar bufSize) s with stored := stored } := by
  induction ps generalizing s with
  | nil => exact ⟨s.stored, rfl⟩
  | cons p ps ih =>
      obtain ⟨stored₁, first⟩ := emit_full bufSize isFull p
      have isFull' : (emit bufSize s p).bufferFull = true := by
        rw [first]
        exact bufferFull_foldl isFull p.put
      obtain ⟨stored₂, rest⟩ := ih isFull'
      refine ⟨stored₂, ?_⟩
      rw [List.foldl_cons, rest, first, foldl_putChar_stored, List.flatMap_cons, List.foldl_append]

/-! ### The piece that is cut -/

theorem foldl_putChar_cut (buf : Nat → UInt8) (stored : List Store)
    (positive : 1 ≤ bufSize.toNat) {out a : List UInt8} (atEnd : (out ++ a).length = bufSize.toNat - 1) (c : UInt8) (b : List UInt8) :
    (a ++ c :: b).foldl (putChar bufSize) (showing buf out stored) =
      b.foldl (putChar bufSize) (overfull bufSize (overlay buf 0 (out ++ a)) bufSize.toNat stored) := by
  have fits : out.length + a.length < bufSize.toNat := by
    rw [List.length_append] at atEnd
    omega
  rw [List.foldl_append, foldl_putChar_showing fits, List.foldl_cons, putChar_last positive atEnd]

/-- The piece in which the end of the buffer is met. -/
theorem emit_cut (buf : Nat → UInt8) (stored : List Store) (positive : 1 ≤ bufSize.toNat)
    {out a b : List UInt8} {c : UInt8} {p : Piece} (parts : p.put = a ++ c :: b)
    (atEnd : (out ++ a).length = bufSize.toNat - 1) :
    ∃ stored', emit bufSize (showing buf out stored) p =
      { b.foldl (putChar bufSize)
          (overfull bufSize (overlay buf 0 (out ++ a)) bufSize.toNat stored) with
        stored := stored' } := by
  have put := foldl_putChar_cut buf stored positive atEnd c b
  rw [← parts] at put
  rw [← put]
  cases p with
  | text chars => exact ⟨_, rfl⟩
  | number digits short =>
      have isFull : (digits.foldl (putChar bufSize) (showing buf out stored)).bufferFull = true :=
        (congrArg Out.bufferFull put).trans (bufferFull_foldl rfl b)
      exact ⟨_, reverseDigits_full isFull _ _⟩
  | counts targets => exact foldl_storeCount targets _

/-- The last byte of the buffer when the output does not fit: nothing is written there, except
for character `2 ^ 64`. -/
def lastByte (buf : Nat → UInt8) (bufSize : BitVec 64) (ps : List Piece) : UInt8 :=
  (ps.flatMap Piece.put).getD (2 ^ 64 - 1) (buf (bufSize.toNat - 1))

/-- The state in which the characters behind the end have been put into a full buffer. -/
def cutAt (bufSize : BitVec 64) (buf : Nat → UInt8) (front behind : List UInt8) : Out :=
  behind.foldl (putChar bufSize) (overfull bufSize (overlay buf 0 front) bufSize.toNat [])

theorem foldl_putChar_overfull_stored (chars : List UInt8) (n : Nat) (stored : List Store) :
    chars.foldl (putChar bufSize) (overfull bufSize buf n stored) =
      { chars.foldl (putChar bufSize) (overfull bufSize buf n []) with stored := stored } :=
  foldl_putChar_stored chars (overfull bufSize buf n [])

/-- A piece is cut behind what has been written: the rest of it and the other pieces go to a
full buffer. -/
theorem foldl_emit_cut_cons (buf : Nat → UInt8) {out : List UInt8} (stored : List Store)
    {p : Piece} (ps : List Piece) (positive : 1 ≤ bufSize.toNat)
    (notYet : out.length ≤ bufSize.toNat - 1)
    (cut : bufSize.toNat - 1 - out.length < p.put.length) :
    ∃ stored', ps.foldl (emit bufSize) (emit bufSize (showing buf out stored) p) =
      { cutAt bufSize buf (out ++ p.put.take (bufSize.toNat - 1 - out.length))
          ((p.put ++ ps.flatMap Piece.put).drop (bufSize.toNat - out.length)) with
        stored := stored' } := by
  obtain ⟨c, b, parts⟩ := exists_eq_take_append_cons cut
  have taken : (p.put.take (bufSize.toNat - 1 - out.length)).length =
      bufSize.toNat - 1 - out.length := List.length_take_of_le (Nat.le_of_lt cut)
  generalize p.put.take (bufSize.toNat - 1 - out.length) = a at parts taken ⊢
  have atEnd : (out ++ a).length = bufSize.toNat - 1 := by
    rw [List.length_append, taken]
    omega
  obtain ⟨stored₁, first⟩ := emit_cut buf stored positive parts atEnd
  have isFull : (emit bufSize (showing buf out stored) p).bufferFull = true := by
    rw [first]
    exact bufferFull_foldl rfl b
  obtain ⟨stored₂, others⟩ := foldl_emit_full bufSize isFull ps
  -- the first character for the full buffer is behind `a` and `c`
  have whole : p.put ++ ps.flatMap Piece.put = a ++ [c] ++ (b ++ ps.flatMap Piece.put) := by
    rw [parts, List.append_assoc, List.append_assoc, List.singleton_append, List.cons_append]
  have before : bufSize.toNat - out.length = (a ++ [c]).length := by
    rw [List.length_append, taken, List.length_singleton]
    omega
  refine ⟨stored₂, ?_⟩
  rw [others, first, foldl_putChar_stored, ← List.foldl_append, foldl_putChar_overfull_stored,
    whole, before, List.drop_left]
  rfl

/-- The pieces do not fit any more behind what has been written. -/
theorem foldl_emit_cut (buf : Nat → UInt8) (out : List UInt8) (stored : List Store)
    {ps : List Piece} (positive : 1 ≤ bufSize.toNat) (notYet : out.length ≤ bufSize.toNat - 1)
    (meets : bufSize.toNat - 1 < out.length + (complete ps).length) :
    ∃ stored', ps.foldl (emit bufSize) (showing buf out stored) =
      { cutAt bufSize buf (out ++ visible (bufSize.toNat - 1 - out.length) ps)
          ((ps.flatMap Piece.put).drop (bufSize.toNat - out.length)) with stored := stored' } := by
  induction ps generalizing out stored with
  | nil =>
      have nothing : (complete []).length = 0 := rfl
      omega
  | cons p ps ih =>
      have same := p.length_shown
      rw [complete_cons, List.length_append] at meets
      rw [List.foldl_cons, visible, List.flatMap_cons]
      rcases Nat.lt_or_ge (bufSize.toNat - 1 - out.length) p.put.length with cut | fits
      · rw [if_neg (Nat.not_le_of_lt cut)]
        exact foldl_emit_cut_cons buf stored ps positive notYet cut
      · have room : out.length + p.put.length < bufSize.toNat := by omega
        obtain ⟨stored₁, first⟩ := emit_showing buf stored p room
        have length_ : (out ++ p.shown).length = out.length + p.put.length := by
          rw [List.length_append, same]
        have left : bufSize.toNat - 1 - (out ++ p.shown).length =
            bufSize.toNat - 1 - out.length - p.put.length := by omega
        have index : bufSize.toNat - (out ++ p.shown).length =
            bufSize.toNat - out.length - p.put.length := by omega
        have rest := ih (out ++ p.shown) stored₁ (by omega) (by omega)
        rw [left, index, List.append_assoc] at rest
        rw [first, if_pos fits, List.drop_append, List.drop_of_length_le (by omega), List.nil_append]
        exact rest

/-- What the buffer holds when the output does not fit. -/
theorem foldl_emit_full_buffer (buf : Nat → UInt8) {ps : List Piece}
    (positive : 1 ≤ bufSize.toNat) (meets : bufSize.toNat ≤ (complete ps).length) :
    let s := ps.foldl (emit bufSize) (showing buf [] [])
    s.bufferFull = true ∧
      (∀ i, i < bufSize.toNat - 1 → s.buf i = overlay buf 0 (visible (bufSize.toNat - 1) ps) i) ∧
      s.buf (bufSize.toNat - 1) = lastByte buf bufSize ps := by
  have bound := bufSize.isLt
  have seen : (visible (bufSize.toNat - 1) ps).length = bufSize.toNat - 1 :=
    length_visible (by omega)
  have start : ([] : List UInt8).length = 0 := rfl
  obtain ⟨stored, cut⟩ := foldl_emit_cut buf [] [] positive (by omega)
    (show bufSize.toNat - 1 < _ + (complete ps).length by omega)
  rw [start, Nat.sub_zero, Nat.sub_zero, List.nil_append] at cut
  obtain ⟨isFull, front, last⟩ := foldl_putChar_full
    (overlay buf 0 (visible (bufSize.toNat - 1) ps)) [] positive
    ((ps.flatMap Piece.put).drop bufSize.toNat)
  have index : bufSize.toNat + (2 ^ 64 - 1 - bufSize.toNat) = 2 ^ 64 - 1 := by omega
  rw [List.getD_eq_getElem?_getD, List.getElem?_drop, index, overlay_of_le (by omega),
    ← List.getD_eq_getElem?_getD] at last
  dsimp only
  rw [cut]
  exact ⟨isFull, front, last⟩

/-- A full buffer is not terminated. -/
theorem terminate_of_full {s : Out} (isFull : s.bufferFull = true) : terminate bufSize s = s := by
  unfold terminate
  rw [isFull]

/-- What a call leaves in a buffer that its output does not fit into. -/
theorem vsnprintf_full (buf : Nat → UInt8) {fmt : CString} {args : List Arg} {ps : List Piece}
    (parsed : pieces fmt args = .ok ps) (positive : 1 ≤ bufSize.toNat)
    (meets : bufSize.toNat ≤ (complete ps).length) :
    ∃ ret s, vsnprintf (some buf) bufSize (some fmt) args = .ok (ret, s) ∧
      (∀ i, i < bufSize.toNat - 1 → s.buf i = overlay buf 0 (visible (bufSize.toNat - 1) ps) i) ∧
      s.buf (bufSize.toNat - 1) = lastByte buf bufSize ps := by
  obtain ⟨isFull, front, last⟩ := foldl_emit_full_buffer buf positive meets
  have run := vsnprintf_eq buf bufSize parsed
  rw [terminate_of_full isFull] at run
  exact ⟨_, _, run, front, last⟩

end Full

/-! ## When a prefix is kept -/

/-- The buffer holds as much of the output as there is room for, and the terminator. -/
def HoldsPrefix (out : List UInt8) (bufSize : BitVec 64) (s : Out) : Prop :=
  (∀ i, i < min out.length (bufSize.toNat - 1) → out[i]? = some (s.buf i)) ∧
    s.buf (min out.length (bufSize.toNat - 1)) = 0

theorem Shows.holdsPrefix {buf : Nat → UInt8} {out : List UInt8} {bufSize : BitVec 64} {s : Out}
    (h : Shows buf out s) (room : out.length < bufSize.toNat) : HoldsPrefix out bufSize s := by
  have whole : min out.length (bufSize.toNat - 1) = out.length := by omega
  unfold HoldsPrefix
  rw [whole]
  constructor
  · intro i hi
    rw [h.chars i hi, List.getElem?_eq_getElem hi]
  · exact h.terminated

/-- The first characters are those of the output if they are the same list. -/
theorem holdsPrefix_iff_of_short {buf : Nat → UInt8} {front : List UInt8} (out : List UInt8)
    {bufSize : BitVec 64} {s : Out} (short : bufSize.toNat - 1 ≤ out.length)
    (length_ : front.length = bufSize.toNat - 1)
    (shown : ∀ i, i < bufSize.toNat - 1 → s.buf i = overlay buf 0 front i) :
    HoldsPrefix out bufSize s ↔
      s.buf (bufSize.toNat - 1) = 0 ∧ front = out.take (bufSize.toNat - 1) := by
  have cut : min out.length (bufSize.toNat - 1) = bufSize.toNat - 1 := Nat.min_eq_right short
  have entry (i : Nat) (hi : i < front.length) : s.buf i = front[i] := by
    rw [shown i (by omega)]
    simpa only [Nat.zero_add] using overlay_getElem buf 0 hi
  unfold HoldsPrefix
  rw [cut, and_comm]
  apply and_congr_right'
  constructor
  · intro agrees
    apply List.ext_getElem
    · rw [length_, List.length_take_of_le short]
    · intro i hi hi'
      have here := agrees i (by omega)
      rw [List.getElem?_eq_getElem (by omega), entry i hi] at here
      rw [List.getElem_take]
      exact (Option.some.inj here).symm
  · intro same i hi
    have here : i < front.length := by omega
    have outside : i < out.length := by omega
    rw [entry i here, List.getElem?_eq_getElem outside]
    subst same
    rw [List.getElem_take]

/-- The buffer holds the prefix of the complete output (`vsnprintf_shows`) that there is room
for, with the terminator behind it, if and only if the output fits, or the last byte is zero
without being written and the cut does not show. -/
theorem vsnprintf_prefix_iff (buf : Nat → UInt8) {bufSize : BitVec 64}
    (positive : 1 ≤ bufSize.toNat) {fmt : CString} {args : List Arg} {ps : List Piece}
    (parsed : pieces fmt args = .ok ps) :
    ∃ ret s, vsnprintf (some buf) bufSize (some fmt) args = .ok (ret, s) ∧
      (HoldsPrefix (complete ps) bufSize s ↔
        (complete ps).length < bufSize.toNat ∨
          lastByte buf bufSize ps = 0 ∧ CutsCleanly (bufSize.toNat - 1) ps) := by
  rcases Nat.lt_or_ge (complete ps).length bufSize.toNat with room | short
  · obtain ⟨s, run, shows_⟩ := vsnprintf_shows buf parsed room
    exact ⟨_, s, run, iff_of_true (shows_.holdsPrefix room) (Or.inl room)⟩
  · have noRoom : ¬ (complete ps).length < bufSize.toNat := Nat.not_lt_of_ge short
    obtain ⟨ret, s, run, front, last⟩ := vsnprintf_full buf parsed positive short
    have agrees := holdsPrefix_iff_of_short (complete ps) (by omega)
      (length_visible (by omega)) front
    refine ⟨ret, s, run, ?_⟩
    rw [agrees, or_iff_right noRoom, last]
    exact and_congr_right' visible_eq_take_iff

/-- `"%u"` of `11` in two bytes: what is left of the number reads the same backwards. -/
theorem vsnprintf_prefix_iff_palindrome :
    ∃ ret s, vsnprintf (some fun _ => 0) 2 (some ⟨[0x25, 0x75], by decide⟩) [.word 11] =
        .ok (ret, s) ∧ HoldsPrefix [0x31, 0x31] 2 s := by
  have positive : 1 ≤ (2#64).toNat := by decide
  have parsed : pieces ⟨[0x25, 0x75], by decide⟩ [.word 11] =
      .ok [.number [0x31, 0x31] (by decide)] := rfl
  obtain ⟨ret, s, run, holds⟩ := vsnprintf_prefix_iff (fun _ => 0) positive parsed
  exact ⟨ret, s, run, holds.mpr (Or.inr ⟨rfl, by decide⟩)⟩

/-- `"ab"` in two bytes is not terminated, and `"%u"` of `12` begins with its last digit. -/
theorem vsnprintf_prefix_lost :
    (∃ s, vsnprintf (some fun _ => 0x7E) 2 (some ⟨[0x61, 0x62], by decide⟩) [] = .ok (2, s) ∧
      ¬ HoldsPrefix [0x61, 0x62] 2 s) ∧
    ∃ s, vsnprintf (some fun _ => 0) 2 (some ⟨[0x25, 0x75], by decide⟩) [.word 12] = .ok (2, s) ∧
      ¬ HoldsPrefix [0x31, 0x32] 2 s := by
  constructor
  · exact ⟨_, rfl, fun holds => absurd holds.2 (by decide)⟩
  · exact ⟨_, rfl, fun holds => absurd (holds.1 0 (by decide)) (by decide)⟩

end Tyleros.Libc
