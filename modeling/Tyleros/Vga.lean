import Tyleros.Basic
import Tyleros.Lib.Machine
import Mathlib.Logic.Function.Basic

/-!
# The screen

`kernel/vga.cpp`: a screen of 25 rows with 80 cells, a cursor, and text that is written one
character after the other. When the cursor leaves row 23, the rows from 1 on are moved up by
one.

`wrapped` is what a text is to look like. `advance_one` lets the cursor stand in column 80,
where a character lands in the first cell of the next row, and the cursor goes back to that
cell. So the screen shows the text exactly as long as no line has more than 81 characters,
and none of 81 starts in row 23 (`shows_iff`).
-/

namespace Tyleros.Vga

open Lib

/-! ## The driver -/

/-- `color`, as far as it is used. -/
inductive Color where
  | black
  | white
  deriving DecidableEq, Repr

/-- The value of a `color`. -/
def Color.value : Color → UInt16
  | .black => 0
  | .white => 0xF

def SCREEN_WIDTH : Nat := 80

def SCREEN_HEIGHT : Nat := 25

/-- `cursor`. -/
structure Cursor where
  x : Nat
  y : Nat
  deriving DecidableEq, Repr

/-- `screen`; the buffer is the memory at `VGA_MEMORY`. -/
structure Screen where
  buffer : Nat → UInt16
  position : Cursor

/-- `make_color_char`, where `char` is signed. -/
def makeColorChar (c : UInt8) (fg bg : Color) : UInt16 :=
  ((bg.value <<< 4 ||| fg.value) <<< 8) ||| ⟨c.toBitVec.signExtend 16⟩

/-- `write_color_char_at`. -/
def writeColorCharAt (base : Nat → UInt16) (pos : Cursor) (c : UInt8) (fg bg : Color) :
    Nat → UInt16 :=
  Function.update base (pos.y * SCREEN_WIDTH + pos.x) (makeColorChar c fg bg)

/-- The `memmove` of `advance_one_y`: rows 1 to 24 become rows 0 to 23. -/
def scroll (buffer : Nat → UInt16) : Nat → UInt16 := fun i =>
  if i < SCREEN_WIDTH * (SCREEN_HEIGHT - 1) then buffer (i + SCREEN_WIDTH) else buffer i

/-- `advance_one_y`. -/
def advanceOneY (s : Screen) : Screen :=
  if s.position.y + 1 = SCREEN_HEIGHT - 1 then { s with buffer := scroll s.buffer }
  else { s with position := { s.position with y := s.position.y + 1 } }

/-- `advance_one`. -/
def advanceOne (s : Screen) : Screen :=
  if s.position.x < SCREEN_WIDTH then
    { s with position := { s.position with x := s.position.x + 1 } }
  else advanceOneY { s with position := { s.position with x := 0 } }

namespace Screen

/-- `advance_cursor_to_newline`. -/
def advanceCursorToNewline (s : Screen) : Screen :=
  advanceOneY { s with position := { s.position with x := 0 } }

/-- `print_char`. -/
def printChar (c : UInt8) (fg bg : Color) (s : Screen) : Screen :=
  if c = 0x0A then s.advanceCursorToNewline
  else if c = 0x08 then
    let position :=
      if s.position.x > 0 then { s.position with x := s.position.x - 1 } else s.position
    { buffer := writeColorCharAt s.buffer position 0x20 .black .black, position }
  else advanceOne { s with buffer := writeColorCharAt s.buffer s.position c fg bg }

/-- `clear`: every cell is written, row by row. -/
def clear (s : Screen) : Screen where
  buffer := (List.range SCREEN_HEIGHT).foldl (fun buffer y =>
    (List.range SCREEN_WIDTH).foldl (fun buffer x =>
      writeColorCharAt buffer ⟨x, y⟩ 0x20 .black .black) buffer) s.buffer
  position := ⟨0, 0⟩

end Screen

/-- `string::print`: `write_impl` with the default colors and position. -/
def print (text : List UInt8) (s : Screen) : Screen :=
  text.foldl (fun s c => s.printChar c .white .black) s

/-- `string::puts`. -/
def puts (text : List UInt8) (s : Screen) : Screen := (print text s).advanceCursorToNewline

/-! ## What a text is to look like -/

/-- One more character behind a text that takes up these rows. -/
def addChar (rows : List (List UInt8)) (c : UInt8) : List (List UInt8) :=
  if c = 0x0A then rows ++ [[]]
  else match rows.getLast? with
    | some last =>
      if last.length < SCREEN_WIDTH then rows.dropLast ++ [last ++ [c]] else rows ++ [[c]]
    | none => [[c]]

/-- The rows of a text that is wrapped at 80 columns. The last one is the one that the text
goes on in. -/
def wrapped (text : List UInt8) : List (List UInt8) := text.foldl addChar [[]]

/-- The last 24 of them. -/
def lastRows (text : List UInt8) : List (List UInt8) :=
  (wrapped text).drop ((wrapped text).length - (SCREEN_HEIGHT - 1))

/-- A cell with nothing in it. -/
def blank : UInt16 := makeColorChar 0x20 .black .black

/-- What stands in column `x` of row `y`. -/
def cellAt (rows : List (List UInt8)) (y x : Nat) : UInt16 :=
  match rows[y]?.bind (·[x]?) with
  | some c => makeColorChar c .white .black
  | none => blank

/-- The characters behind the last newline. -/
def lineLength (text : List UInt8) : Nat := (text.reverse.takeWhile (· ≠ 0x0A)).length

/-! ## Runs -/

/-- The screen, and what was printed since it was cleared. -/
structure State where
  screen : Screen
  text : List UInt8

/-- Print a character. -/
def State.step (s : State) (c : UInt8) : State where
  screen := s.screen.printChar c .white .black
  text := s.text ++ [c]

def machine : Machine State UInt8 Stop := ⟨fun s c => .ok (s.step c)⟩

/-- A printable character, or a newline. -/
def IsText (c : UInt8) : Prop := 0x20 ≤ c ∧ c ≤ 0x7E ∨ c = 0x0A

instance (c : UInt8) : Decidable (IsText c) := inferInstanceAs (Decidable (_ ∨ _))

/-- The first 24 rows show the end of the text, and the last row shows nothing. -/
def State.Shows (s : State) : Prop :=
  ∀ i < SCREEN_WIDTH * SCREEN_HEIGHT,
    s.screen.buffer i = cellAt (lastRows s.text) (i / SCREEN_WIDTH) (i % SCREEN_WIDTH)

/-- The character ends the line, or it is one of the first 80 of the line, or it is number 81
and the line is in one of the first 23 rows. -/
def Narrow (text : List UInt8) (c : UInt8) : Prop :=
  c = 0x0A ∨ lineLength text < 80 ∨ lineLength text = 80 ∧ (wrapped text).length ≤ 23

instance (text : List UInt8) (c : UInt8) : Decidable (Narrow text c) :=
  inferInstanceAs (Decidable (_ ∨ _))

/-! ## Rows -/

section Rows

variable {rows front : List (List UInt8)} {last : List UInt8} {c : UInt8} {x y : Nat}

theorem wrapped_concat (text : List UInt8) (c : UInt8) :
    wrapped (text ++ [c]) = addChar (wrapped text) c := List.foldl_concat _ _ _ _

theorem addChar_newline : addChar rows 0x0A = rows ++ [[]] := if_pos rfl

theorem addChar_room (printable : c ≠ 0x0A) (room : last.length < 80) :
    addChar (front ++ [last]) c = front ++ [last ++ [c]] := by
  unfold addChar SCREEN_WIDTH
  rw [if_neg printable, List.getLast?_concat, List.dropLast_concat]
  exact if_pos room

theorem addChar_full (printable : c ≠ 0x0A) (full : ¬ last.length < 80) :
    addChar (front ++ [last]) c = front ++ [last] ++ [[c]] := by
  unfold addChar SCREEN_WIDTH
  rw [if_neg printable, List.getLast?_concat]
  exact if_neg full

theorem lineLength_newline (text : List UInt8) : lineLength (text ++ [0x0A]) = 0 := by
  unfold lineLength
  rw [List.reverse_concat]
  rfl

theorem lineLength_concat (text : List UInt8) (printable : c ≠ 0x0A) :
    lineLength (text ++ [c]) = lineLength text + 1 := by
  unfold lineLength
  rw [List.reverse_concat, List.takeWhile_cons_of_pos (by simpa using printable), List.length_cons]

theorem cellAt_drop (d : Nat) : cellAt (rows.drop d) y x = cellAt rows (d + y) x := by
  unfold cellAt
  rw [List.getElem?_drop]

/-- Below the rows nothing is shown. -/
theorem cellAt_below (below : rows.length ≤ y) : cellAt rows y x = blank := by
  unfold cellAt
  rw [List.getElem?_eq_none below]
  rfl

theorem cellAt_concat_lt (row : List UInt8) (above : y < front.length) :
    cellAt (front ++ [row]) y x = cellAt front y x := by
  unfold cellAt
  rw [List.getElem?_append_left above]

theorem cellAt_concat_self (row : List UInt8) : cellAt (front ++ [row]) front.length x =
    match row[x]? with
    | some c => makeColorChar c .white .black
    | none => blank := by
  unfold cellAt
  rw [List.getElem?_concat_length]
  rfl

/-- A new row without characters shows nothing. -/
theorem cellAt_newRow : cellAt (rows ++ [[]]) y x = cellAt rows y x := by
  rcases Nat.lt_trichotomy y rows.length with above | rfl | below
  · exact cellAt_concat_lt [] above
  · rw [cellAt_concat_self, cellAt_below (Nat.le_refl _)]
    rfl
  · rw [cellAt_below (by rw [List.length_append, List.length_singleton]; exact below),
      cellAt_below (Nat.le_of_lt below)]

/-- One more character in the last row changes one cell. -/
theorem cellAt_addChar : cellAt (front ++ [last ++ [c]]) y x =
    if y = front.length ∧ x = last.length then makeColorChar c .white .black
    else cellAt (front ++ [last]) y x := by
  rcases Nat.lt_trichotomy y front.length with above | rfl | below
  · rw [cellAt_concat_lt _ above, cellAt_concat_lt _ above,
      if_neg (fun here => absurd here.1 (Nat.ne_of_lt above))]
  · rw [cellAt_concat_self, cellAt_concat_self]
    rcases Nat.lt_trichotomy x last.length with before | rfl | behind
    · rw [List.getElem?_append_left before,
        if_neg (fun here => absurd here.2 (Nat.ne_of_lt before))]
    · rw [List.getElem?_concat_length, if_pos ⟨rfl, rfl⟩]
    · rw [List.getElem?_eq_none (by rw [List.length_append, List.length_singleton]; exact behind),
        List.getElem?_eq_none (Nat.le_of_lt behind),
        if_neg (fun here => absurd here.2 (Nat.ne_of_gt behind))]
  · rw [cellAt_below (by rw [List.length_append, List.length_singleton]; exact below),
      cellAt_below (by rw [List.length_append, List.length_singleton]; exact below),
      if_neg (fun here => absurd here.1 (Nat.ne_of_gt below))]

/-- A character is never shown as nothing is. -/
theorem makeColorChar_ne_blank : ∀ c : UInt8, makeColorChar c .white .black ≠ blank :=
  forall_byte (by decide +kernel)

end Rows

/-! ## The buffer -/

section Buffer

variable {buffer : Nat → UInt16} {x y : Nat}

theorem write_at (pos : Cursor) (c : UInt8) (fg bg : Color) (i : Nat) :
    writeColorCharAt buffer pos c fg bg i =
      if i = pos.y * 80 + pos.x then makeColorChar c fg bg else buffer i :=
  Function.update_apply _ _ _ _

theorem scroll_at (inside : x < 80) :
    scroll buffer (y * 80 + x) = if y < 24 then buffer ((y + 1) * 80 + x) else buffer (y * 80 + x) := by
  unfold scroll SCREEN_WIDTH SCREEN_HEIGHT
  by_cases moved : y < 24
  · rw [if_pos (by omega), if_pos moved, show y * 80 + x + 80 = (y + 1) * 80 + x by omega]
  · rw [if_neg (by omega), if_neg moved]

/-- A loop over writes of one value, looked at in one place. -/
theorem foldl_writes {κ : Type} {f : (Nat → UInt16) → κ → Nat → UInt16} {v : UInt16} {i : Nat}
    (Here : κ → Prop) [DecidablePred Here]
    (one : ∀ buffer k, f buffer k i = if Here k then v else buffer i) (ks : List κ)
    (buffer : Nat → UInt16) : ks.foldl f buffer i = if ∃ k ∈ ks, Here k then v else buffer i := by
  induction ks generalizing buffer with
  | nil => exact (if_neg (by rintro ⟨k, ⟨⟩, -⟩)).symm
  | cons k ks ih =>
      rw [List.foldl_cons, ih, one]
      by_cases here : Here k
      · rw [if_pos here, ite_self, if_pos ⟨k, List.mem_cons_self, here⟩]
      · simp only [List.exists_mem_cons_iff, here, false_or, if_false]

theorem write_blank_at (buffer : Nat → UInt16) (y' x' i : Nat) :
    writeColorCharAt buffer ⟨x', y'⟩ 0x20 .black .black i =
      if i = y' * 80 + x' then blank else buffer i :=
  write_at _ _ _ _ _

/-- `clear()` writes every cell. -/
theorem clear_at (s : Screen) (row : y < 25) (column : x < 80) :
    s.clear.buffer (y * 80 + x) = blank := by
  have inRow : ∀ (buffer : Nat → UInt16) (y' : Nat),
      (List.range SCREEN_WIDTH).foldl (fun buffer x =>
        writeColorCharAt buffer ⟨x, y'⟩ 0x20 .black .black) buffer (y * 80 + x) =
        if y = y' then blank else buffer (y * 80 + x) := by
    intro buffer y'
    have here : (∃ x' ∈ List.range SCREEN_WIDTH, y * 80 + x = y' * 80 + x') ↔ y = y' := by
      constructor
      · rintro ⟨x', mem, same⟩
        have inside : x' < 80 := List.mem_range.mp mem
        omega
      · rintro rfl
        exact ⟨x, List.mem_range.mpr column, rfl⟩
    have loop := foldl_writes (fun x' => y * 80 + x = y' * 80 + x')
      (fun buffer x' => write_blank_at buffer y' x' (y * 80 + x)) (List.range SCREEN_WIDTH) buffer
    exact loop.trans (if_congr here rfl rfl)
  have loop := foldl_writes (fun y' => y = y') inRow (List.range SCREEN_HEIGHT) s.buffer
  exact loop.trans (if_pos ⟨y, List.mem_range.mpr row, rfl⟩)

end Buffer

/-! ## One character -/

/-- The screen shows the text, which takes up these rows, and the cursor stands behind it;
or it stands on the one character that a line of 81 has in its last row. -/
structure Stands (s : State) (front : List (List UInt8)) (last : List UInt8) : Prop where
  rows : wrapped s.text = front ++ [last]
  short : last.length ≤ 80
  row : s.screen.position.y = min front.length 23
  column : s.screen.position.x = last.length ∧ lineLength s.text = last.length ∨
    s.screen.position.x = 0 ∧ last.length = 1 ∧ lineLength s.text = 81
  shows_ : s.Shows

section Steps

variable {s : State} {front : List (List UInt8)} {last : List UInt8} {c : UInt8}

/-- The screen by rows and columns. -/
theorem State.shows_cells (rows : wrapped s.text = front ++ [last]) :
    s.Shows ↔ ∀ y < 25, ∀ x < 80, s.screen.buffer (y * 80 + x) =
      cellAt (front ++ [last]) (front.length - 23 + y) x := by
  have first : (front ++ [last]).length - (SCREEN_HEIGHT - 1) = front.length - 23 := by
    rw [List.length_append, List.length_singleton]
    unfold SCREEN_HEIGHT
    omega
  unfold State.Shows lastRows
  rw [rows, first]
  simp only [cellAt_drop, SCREEN_WIDTH, SCREEN_HEIGHT]
  constructor
  · intro shows_ y row x column
    have cell := shows_ (y * 80 + x) (by omega)
    rwa [show (y * 80 + x) / 80 = y by omega, show (y * 80 + x) % 80 = x by omega] at cell
  · intro cells i inside
    have cell := cells (i / 80) (by omega) (i % 80) (by omega)
    rwa [Nat.div_add_mod'] at cell

/-- A newline moves the cursor to an empty row, and all rows up if it has to. -/
theorem Stands.newline (stands : Stands s front last) : Stands (s.step 0x0A) (front ++ [last]) [] := by
  have rows : wrapped (s.step 0x0A).text = front ++ [last] ++ [[]] := by
    show wrapped (s.text ++ [0x0A]) = _
    rw [wrapped_concat, stands.rows, addChar_newline]
  have cells := (State.shows_cells stands.rows).mp stands.shows_
  have row := stands.row
  have length : (front ++ [last]).length = front.length + 1 := by
    rw [List.length_append, List.length_singleton]
  have line : lineLength (s.step 0x0A).text = 0 := lineLength_newline s.text
  have printed : (s.step 0x0A).screen = advanceOneY ⟨s.screen.buffer, ⟨0, s.screen.position.y⟩⟩ := rfl
  unfold advanceOneY SCREEN_HEIGHT at printed
  dsimp only at printed
  by_cases bottom : s.screen.position.y + 1 = 25 - 1
  · rw [if_pos bottom] at printed
    refine ⟨rows, Nat.zero_le _, ?_, Or.inl ⟨by rw [printed]; rfl, line⟩, ?_⟩
    · rw [printed, length]
      show s.screen.position.y = _
      omega
    · rw [State.shows_cells rows]
      intro y inRow x inColumn
      rw [printed]
      dsimp only
      rw [scroll_at inColumn, cellAt_newRow, length]
      split
      · rw [cells (y + 1) (by omega) x inColumn]
        congr 1
        omega
      · -- the row below is empty, and stays so
        rw [cells y inRow x inColumn, cellAt_below (by omega), cellAt_below (by omega)]
  · rw [if_neg bottom] at printed
    refine ⟨rows, Nat.zero_le _, ?_, Or.inl ⟨by rw [printed]; rfl, line⟩, ?_⟩
    · rw [printed, length]
      show s.screen.position.y + 1 = _
      omega
    · rw [State.shows_cells rows]
      intro y inRow x inColumn
      rw [printed]
      dsimp only
      rw [cellAt_newRow, length, cells y inRow x inColumn]
      congr 1
      omega

/-- A character that can be seen, in one of the 80 columns. -/
theorem step_inside (newline : c ≠ 0x0A) (backspace : c ≠ 0x08) (inside : s.screen.position.x < 80) :
    (s.step c).screen = ⟨writeColorCharAt s.screen.buffer s.screen.position c .white .black,
      ⟨s.screen.position.x + 1, s.screen.position.y⟩⟩ := by
  show s.screen.printChar c .white .black = _
  unfold Screen.printChar
  rw [if_neg newline, if_neg backspace]
  exact if_pos inside

/-- A character that can be seen, behind them. -/
theorem step_edge (newline : c ≠ 0x0A) (backspace : c ≠ 0x08)
    (edge : ¬ s.screen.position.x < 80) :
    (s.step c).screen = advanceOneY
      ⟨writeColorCharAt s.screen.buffer s.screen.position c .white .black,
        ⟨0, s.screen.position.y⟩⟩ := by
  show s.screen.printChar c .white .black = _
  unfold Screen.printChar
  rw [if_neg newline, if_neg backspace]
  exact if_neg edge

/-- In a line that is not too long the cursor stands behind the text. -/
theorem Stands.behind (stands : Stands s front last) (narrow : lineLength s.text ≤ 80) :
    s.screen.position.x = last.length ∧ lineLength s.text = last.length := by
  rcases stands.column with here | ⟨-, -, long⟩
  · exact here
  · omega

theorem Stands.rows_room (stands : Stands s front last) (newline : c ≠ 0x0A)
    (room : last.length < 80) : wrapped (s.step c).text = front ++ [last ++ [c]] := by
  show wrapped (s.text ++ [c]) = _
  rw [wrapped_concat, stands.rows, addChar_room newline room]

theorem Stands.rows_full (stands : Stands s front last) (newline : c ≠ 0x0A)
    (full : ¬ last.length < 80) : wrapped (s.step c).text = front ++ [last] ++ [[c]] := by
  show wrapped (s.text ++ [c]) = _
  rw [wrapped_concat, stands.rows, addChar_full newline full]

/-- A character in one of the 80 columns. -/
theorem Stands.room (stands : Stands s front last) (newline : c ≠ 0x0A) (backspace : c ≠ 0x08)
    (room : lineLength s.text < 80) : Stands (s.step c) front (last ++ [c]) := by
  obtain ⟨column, line⟩ := stands.behind (by omega)
  have rows := stands.rows_room newline (by omega)
  have cells := (State.shows_cells stands.rows).mp stands.shows_
  have row := stands.row
  have length : (last ++ [c]).length = last.length + 1 := by
    rw [List.length_append, List.length_singleton]
  have printed := step_inside (s := s) newline backspace (by omega)
  refine ⟨rows, by omega, ?_, Or.inl ⟨?_, ?_⟩, ?_⟩
  · rw [printed]
    exact row
  · rw [printed, length, ← column]
  · rw [length, ← line]
    exact lineLength_concat s.text newline
  · rw [State.shows_cells rows]
    intro y inRow x inColumn
    rw [printed]
    dsimp only
    rw [write_at, cellAt_addChar, row, column]
    by_cases here : y = min front.length 23 ∧ x = last.length
    · rw [if_pos (by omega), if_pos (by omega)]
    · rw [if_neg (by omega), if_neg (by omega)]
      exact cells y inRow x inColumn

/-- Character 81 of a line lands in the first cell of the next row, if there is one. -/
theorem Stands.wrap (stands : Stands s front last) (newline : c ≠ 0x0A) (backspace : c ≠ 0x08)
    (full : lineLength s.text = 80) (above : front.length < 23) :
    Stands (s.step c) (front ++ [last]) [c] := by
  obtain ⟨column, line⟩ := stands.behind (by omega)
  have rows := stands.rows_full newline (by omega)
  have cells := (State.shows_cells stands.rows).mp stands.shows_
  have row := stands.row
  have length : (front ++ [last]).length = front.length + 1 := by
    rw [List.length_append, List.length_singleton]
  have printed := step_edge (s := s) newline backspace (by omega)
  unfold advanceOneY SCREEN_HEIGHT at printed
  dsimp only at printed
  rw [if_neg (by omega)] at printed
  refine ⟨rows, by rw [List.length_singleton]; omega, ?_, Or.inr ⟨?_, rfl, ?_⟩, ?_⟩
  · rw [printed, length]
    show s.screen.position.y + 1 = _
    omega
  · rw [printed]
  · have counted := lineLength_concat s.text newline
    rw [full] at counted
    exact counted
  · rw [State.shows_cells rows]
    intro y inRow x inColumn
    have char : cellAt (front ++ [last] ++ [[] ++ [c]]) (front.length + 1 - 23 + y) x = _ :=
      cellAt_addChar
    rw [List.nil_append, cellAt_newRow, length, List.length_nil] at char
    rw [printed]
    dsimp only
    rw [write_at, row, column, length, char]
    by_cases here : y = front.length + 1 ∧ x = 0
    · rw [if_pos (by omega), if_pos (by omega)]
    · rw [if_neg (by omega), if_neg (by omega), cells y inRow x inColumn]
      congr 1
      omega

/-- From row 23 it lands in the last row, which is not cleared when it is moved up. -/
theorem Stands.stray (stands : Stands s front last) (newline : c ≠ 0x0A) (backspace : c ≠ 0x08)
    (full : lineLength s.text = 80) (bottom : ¬ front.length < 23) : ¬ (s.step c).Shows := by
  intro shows_
  obtain ⟨column, line⟩ := stands.behind (by omega)
  have rows := stands.rows_full newline (by omega)
  have row := stands.row
  have length : (front ++ [last]).length = front.length + 1 := by
    rw [List.length_append, List.length_singleton]
  have printed := step_edge (s := s) newline backspace (by omega)
  unfold advanceOneY SCREEN_HEIGHT at printed
  dsimp only at printed
  rw [if_pos (by omega)] at printed
  have cell := (State.shows_cells rows).mp shows_ 24 (by decide) 0 (by decide)
  rw [printed] at cell
  dsimp only at cell
  rw [scroll_at (by decide), if_neg (by decide), write_at, if_pos (by omega),
    cellAt_below (by rw [List.length_append, length, List.length_singleton]; omega)] at cell
  exact makeColorChar_ne_blank c cell

/-- Character 82 lands on character 81. -/
theorem Stands.overwritten (stands : Stands s front last) (newline : c ≠ 0x0A)
    (backspace : c ≠ 0x08) (long : 80 < lineLength s.text) : ¬ (s.step c).Shows := by
  intro shows_
  obtain ⟨column, one, -⟩ : s.screen.position.x = 0 ∧ last.length = 1 ∧ lineLength s.text = 81 := by
    rcases stands.column with ⟨-, line⟩ | here
    · have short := stands.short
      omega
    · exact here
  have rows := stands.rows_room newline (by omega)
  have row := stands.row
  have printed := step_inside (s := s) newline backspace (by omega)
  -- the cell behind the cursor is not written
  have before := (State.shows_cells stands.rows).mp stands.shows_ (min front.length 23) (by omega) 1
    (by decide)
  have cell := (State.shows_cells rows).mp shows_ (min front.length 23) (by omega) 1 (by decide)
  rw [printed] at cell
  dsimp only at cell
  have here : front.length - 23 + min front.length 23 = front.length := by omega
  rw [write_at, if_neg (by omega), before, here, cellAt_concat_self,
    List.getElem?_eq_none (by omega), cellAt_addChar, if_pos ⟨rfl, one.symm⟩] at cell
  exact makeColorChar_ne_blank c cell.symm

end Steps

/-! ## Every text -/

/-- The cleared screen, with anything in memory before. -/
def cleared (s : Screen) : State := ⟨s.clear, []⟩

theorem stands_cleared (s : Screen) : Stands (cleared s) [] [] := by
  refine ⟨rfl, Nat.zero_le _, rfl, Or.inl ⟨rfl, rfl⟩, ?_⟩
  rw [State.shows_cells (show wrapped (cleared s).text = [] ++ [[]] from rfl)]
  intro y row x column
  have empty : cellAt ([] ++ [[]]) (0 - 23 + y) x = blank := cellAt_newRow
  exact (clear_at s row column).trans empty.symm

variable {s : State} {c : UInt8}

/-- A character of a text that is not a newline is no backspace, either. -/
theorem ne_backspace (text : IsText c) : c ≠ 0x08 := by
  rintro rfl
  exact absurd text (by decide)

theorem shows_step_iff {front : List (List UInt8)} {last : List UInt8}
    (stands : Stands s front last) (text : IsText c) : (s.step c).Shows ↔ Narrow s.text c := by
  have backspace := ne_backspace text
  have rows : (wrapped s.text).length = front.length + 1 := by
    rw [stands.rows, List.length_append, List.length_singleton]
  unfold Narrow
  rw [rows]
  by_cases newline : c = 0x0A
  · rw [newline]
    exact ⟨fun _ => Or.inl rfl, fun _ => stands.newline.shows_⟩
  · rcases Nat.lt_trichotomy (lineLength s.text) 80 with room | full | long
    · exact ⟨fun _ => Or.inr (Or.inl room), fun _ => (stands.room newline backspace room).shows_⟩
    · by_cases above : front.length < 23
      · exact ⟨fun _ => Or.inr (Or.inr ⟨full, by omega⟩),
          fun _ => (stands.wrap newline backspace full above).shows_⟩
      · have stray := stands.stray newline backspace full above
        exact ⟨fun shows_ => absurd shows_ stray,
          fun narrow => absurd (narrow.resolve_left newline) (by omega)⟩
    · have overwritten := stands.overwritten newline backspace long
      exact ⟨fun shows_ => absurd shows_ overwritten,
        fun narrow => absurd (narrow.resolve_left newline) (by omega)⟩

theorem stands_step (stands : ∃ front last, Stands s front last) (text : IsText c)
    (narrow : Narrow s.text c) : ∃ front last, Stands (s.step c) front last := by
  obtain ⟨front, last, stands⟩ := stands
  have backspace := ne_backspace text
  by_cases newline : c = 0x0A
  · rw [newline]
    exact ⟨_, _, stands.newline⟩
  · rcases narrow with end_ | room | ⟨full, above⟩
    · exact absurd end_ newline
    · exact ⟨_, _, stands.room newline backspace room⟩
    · rw [stands.rows, List.length_append, List.length_singleton] at above
      exact ⟨_, _, stands.wrap newline backspace full (by omega)⟩

/-- The characters one by one are what `print` prints. -/
theorem run_text (s : State) (text : List UInt8) :
    machine.run s text = .ok ⟨print text s.screen, s.text ++ text⟩ := by
  induction text generalizing s with
  | nil =>
      rw [List.append_nil]
      rfl
  | cons c text ih =>
      have rest := ih (s.step c)
      show machine.run (s.step c) text = _
      rw [rest]
      show Except.ok (State.mk _ (s.text ++ [c] ++ text)) = _
      rw [List.append_assoc]
      rfl

/-- After every character of a text the screen shows what was printed, exactly if no line of
the text has more than 81 characters and none with 81 starts in row 23. -/
theorem shows_iff (screen : Screen) {text : List UInt8} (legal : ∀ c ∈ text, IsText c) :
    machine.EachStep (fun s c => (s.step c).Shows) (cleared screen) text ↔
      machine.EachStep (fun s c => Narrow s.text c) (cleared screen) text := by
  refine Machine.eachStep_iff (M := machine) (L := fun _ c => IsText c)
    (fun s c s' (stands : ∃ front last, Stands s front last) text narrow step => ?_)
    (fun s c stands text => ?_) ⟨_, _, stands_cleared screen⟩ (Machine.eachStep_of_forall legal)
  · cases step
    exact stands_step stands text narrow
  · obtain ⟨front, last, stands⟩ := stands
    exact shows_step_iff stands text

/-- A screen that is full of letters. -/
def sampleScreen : Screen := ⟨fun _ => 0x0741, ⟨3, 4⟩⟩

/-- Two lines, the second one of 81 characters, and a third one. -/
theorem shows_sample : machine.EachStep (fun s c => (s.step c).Shows) (cleared sampleScreen)
    ([0x48, 0x69, 0x0A] ++ List.replicate 81 0x41 ++ [0x0A, 0x42]) :=
  (shows_iff sampleScreen (by decide +kernel)).mpr (by decide +kernel)

/-- A line of 82 characters. -/
theorem not_shows_long_line : ¬ machine.EachStep (fun s c => (s.step c).Shows)
    (cleared sampleScreen) (List.replicate 81 0x41 ++ 0x42 :: []) := by
  intro shows_
  have last := shows_.of_run (List.replicate 81 0x41) [] (run_text _ _) 81 (by decide)
  have empty : ((State.mk (print (List.replicate 81 0x41) (cleared sampleScreen).screen)
      ((cleared sampleScreen).text ++ List.replicate 81 0x41)).step 0x42).screen.buffer 81 = blank := by
    decide +kernel
  exact absurd (last.symm.trans empty) (by decide +kernel)

end Tyleros.Vga
