import Tyleros.Vga

/-!
# The cells that are touched

`kernel/vga.cpp` with the `int`s of its cursor, and with a list of the cells that were read or
written. The cursor may stand in column 80, where the next cell is the first one of the row
below; as it never stands in the last row, that cell is still one of the screen
(`touched_inside`). On a cursor in bounds this is the driver of `Tyleros.Vga`
(`toVga_printChar`, `toVga_clear`, `toVga_print`).
-/

namespace Tyleros.Vga.Cells

open Lib

/-! ## The driver -/

/-- `cursor`. -/
structure Cursor where
  x : Int
  y : Int
  deriving DecidableEq, Repr

/-- `screen`, and the cells that were read or written, which no code reads. The buffer is
memory on both sides of `VGA_MEMORY`. -/
structure Screen where
  buffer : Int → UInt16
  position : Cursor
  touched : List Int

/-- `make_color_char`; a `color` is an `unsigned char`. -/
def makeColorChar (c fg bg : UInt8) : UInt16 :=
  ((bg.toUInt16 <<< 4 ||| fg.toUInt16) <<< 8) ||| ⟨c.toBitVec.signExtend 16⟩

/-- `color::black`. -/
def black : UInt8 := 0

/-- `write_color_char_at`. -/
def writeColorCharAt (pos : Cursor) (c fg bg : UInt8) (s : Screen) : Screen :=
  let i := pos.y * SCREEN_WIDTH + pos.x
  { s with
    buffer := Function.update s.buffer i (makeColorChar c fg bg)
    touched := i :: s.touched }

/-- One round of `memcpy`: eight bytes, which are four cells, are moved up by a row. -/
def copyWord (s : Screen) (i : Nat) : Screen :=
  { s with
    buffer := fun k => if 4 * i ≤ k ∧ k < 4 * i + 4 then s.buffer (k + SCREEN_WIDTH) else s.buffer k
    touched := (List.range 4).flatMap (fun (j : Nat) =>
      [4 * (i : Int) + j, 4 * (i : Int) + j + SCREEN_WIDTH]) ++ s.touched }

/-- The `memmove` of `advance_one_y`. The target is in front of the source, so that it is
`memcpy`, and the number of bytes is a multiple of eight. -/
def scroll (s : Screen) : Screen :=
  (List.range (SCREEN_WIDTH * (SCREEN_HEIGHT - 1) * 2 / 8)).foldl copyWord s

/-- `advance_one_y`. -/
def advanceOneY (s : Screen) : Screen :=
  if s.position.y + 1 = SCREEN_HEIGHT - 1 then scroll s
  else { s with position := { s.position with y := s.position.y + 1 } }

/-- `advance_one`. -/
def advanceOne (s : Screen) : Screen :=
  if s.position.x < SCREEN_WIDTH then
    { s with position := { s.position with x := s.position.x + 1 } }
  else advanceOneY { s with position := { s.position with x := 0 } }

namespace Screen

/-- `advance_cursor_to_newline`. -/
def advanceCursorToNewline (s : Screen) : Screen :=
  advanceOneY { s with position := { s.position with x := 0 } }

/-- `print_char`. -/
def printChar (c fg bg : UInt8) (s : Screen) : Screen :=
  if c = 0x0A then s.advanceCursorToNewline
  else if c = 0x08 then
    let position :=
      if s.position.x > 0 then { s.position with x := s.position.x - 1 } else s.position
    writeColorCharAt position 0x20 black black { s with position }
  else advanceOne (writeColorCharAt s.position c fg bg s)

/-- The inner loop of `clear`. -/
def clearRow (s : Screen) (y : Nat) : Screen :=
  (List.range SCREEN_WIDTH).foldl (fun s (x : Nat) =>
    writeColorCharAt ⟨x, y⟩ 0x20 black black s) s

/-- `clear`. -/
def clear (s : Screen) : Screen :=
  { (List.range SCREEN_HEIGHT).foldl clearRow s with position := ⟨0, 0⟩ }

end Screen

/-! ## Runs -/

/-- The calls that write to the screen or move the cursor, less those that place it. -/
inductive Op where
  | printChar (c fg bg : UInt8)
  | advanceCursorToNewline
  | clear

def Screen.step (s : Screen) : Op → Screen
  | .printChar c fg bg => s.printChar c fg bg
  | .advanceCursorToNewline => s.advanceCursorToNewline
  | .clear => s.clear

def machine : Machine Screen Op Stop := ⟨fun s o => .ok (s.step o)⟩

/-- A screen with its initial cursor. -/
def start (buffer : Int → UInt16) : Screen := ⟨buffer, ⟨0, 0⟩, []⟩

/-- The cursor is in one of the columns 0 to 80 and one of the rows 0 to 23. -/
structure Cursor.InBounds (pos : Cursor) : Prop where
  left : 0 ≤ pos.x
  right : pos.x ≤ SCREEN_WIDTH
  top : 0 ≤ pos.y
  bottom : pos.y < SCREEN_HEIGHT - 1

theorem inBounds_origin : (⟨0, 0⟩ : Cursor).InBounds :=
  ⟨by decide, by decide, by decide, by decide⟩

/-- Only cells of the screen were read or written. -/
def Screen.Inside (s : Screen) : Prop :=
  ∀ i ∈ s.touched, 0 ≤ i ∧ i < SCREEN_WIDTH * SCREEN_HEIGHT

/-! ## The cells of a call -/

section Touched

variable {s : Screen} {pos : Cursor} {c fg bg : UInt8}

theorem inside_write (inside : s.Inside)
    (cell : 0 ≤ pos.y * 80 + pos.x ∧ pos.y * 80 + pos.x < 2000) :
    (writeColorCharAt pos c fg bg s).Inside := by
  intro i mem
  rcases List.mem_cons.mp mem with rfl | old
  · exact cell
  · exact inside i old

/-- Where the cursor may stand, column 80 included, a cell can be written. -/
theorem inside_write_at (inside : s.Inside) (bounds : pos.InBounds) :
    (writeColorCharAt pos c fg bg s).Inside := by
  have left := bounds.left
  have right := bounds.right
  have top := bounds.top
  have bottom := bounds.bottom
  unfold SCREEN_WIDTH at right
  unfold SCREEN_HEIGHT at bottom
  apply inside_write inside
  omega

theorem inside_copyWord (inside : s.Inside) {i : Nat} (word : i < 480) : (copyWord s i).Inside := by
  intro k mem
  rcases List.mem_append.mp mem with new | old
  · obtain ⟨j, few, here⟩ := List.mem_flatMap.mp new
    have few := List.mem_range.mp few
    unfold SCREEN_WIDTH SCREEN_HEIGHT at *
    rcases List.mem_pair.mp here with rfl | rfl
    · omega
    · omega
  · exact inside k old

/-- What each round of a loop keeps, the loop keeps. -/
theorem foldl_keeps {κ : Type} {P : Screen → Prop} {f : Screen → κ → Screen} (ks : List κ)
    (start : P s) (round : ∀ s, P s → ∀ k ∈ ks, P (f s k)) : P (ks.foldl f s) := by
  induction ks generalizing s with
  | nil => exact start
  | cons k ks ih =>
      apply ih
      · exact round s start k List.mem_cons_self
      · exact fun s here k mem => round s here k (List.mem_cons_of_mem _ mem)

theorem inside_scroll (inside : s.Inside) : (scroll s).Inside :=
  foldl_keeps (P := Screen.Inside) _ inside fun _ here _ mem => inside_copyWord here (List.mem_range.mp mem)

theorem position_scroll : (scroll s).position = s.position :=
  foldl_keeps (P := fun t => t.position = s.position) _ rfl fun _ here _ _ => here

theorem inside_clearRow (inside : s.Inside) {y : Nat} (row : y < 25) : (s.clearRow y).Inside := by
  have cell : ∀ s : Screen, s.Inside → ∀ x ∈ List.range SCREEN_WIDTH,
      (writeColorCharAt ⟨x, y⟩ 0x20 black black s).Inside := by
    intro s here x column
    have column : x < 80 := List.mem_range.mp column
    apply inside_write here
    dsimp only
    omega
  exact foldl_keeps (P := Screen.Inside) _ inside cell

theorem inside_clear (inside : s.Inside) : s.clear.Inside := by
  have written : ((List.range SCREEN_HEIGHT).foldl Screen.clearRow s).Inside :=
    foldl_keeps (P := Screen.Inside) _ inside fun _ here _ row =>
      inside_clearRow here (List.mem_range.mp row)
  intro i mem
  exact written i mem

/-- The cursor in the next row, or in row 23 as before. -/
theorem inside_advanceOneY (inside : s.Inside) (bounds : s.position.InBounds) :
    (advanceOneY s).Inside ∧ (advanceOneY s).position.InBounds := by
  have top := bounds.top
  have bottom := bounds.bottom
  unfold advanceOneY
  split
  · refine ⟨inside_scroll inside, ?_⟩
    rw [position_scroll]
    exact bounds
  · next above =>
      refine ⟨inside, ⟨bounds.left, bounds.right, ?_, ?_⟩⟩
      · dsimp only
        omega
      · dsimp only
        omega

theorem inside_advanceCursorToNewline (inside : s.Inside) (bounds : s.position.InBounds) :
    s.advanceCursorToNewline.Inside ∧ s.advanceCursorToNewline.position.InBounds := by
  have first : (⟨0, s.position.y⟩ : Cursor).InBounds :=
    ⟨Int.le_refl 0, inBounds_origin.right, bounds.top, bounds.bottom⟩
  have moved : (Screen.mk s.buffer ⟨0, s.position.y⟩ s.touched).Inside := inside
  exact inside_advanceOneY moved first

theorem inside_advanceOne (inside : s.Inside) (bounds : s.position.InBounds) :
    (advanceOne s).Inside ∧ (advanceOne s).position.InBounds := by
  have left := bounds.left
  unfold advanceOne
  split
  · next room =>
      refine ⟨inside, ⟨?_, ?_, bounds.top, bounds.bottom⟩⟩
      · dsimp only
        omega
      · dsimp only
        omega
  · exact inside_advanceCursorToNewline inside bounds

theorem inside_printChar (inside : s.Inside) (bounds : s.position.InBounds) :
    (s.printChar c fg bg).Inside ∧ (s.printChar c fg bg).position.InBounds := by
  unfold Screen.printChar
  split
  · exact inside_advanceCursorToNewline inside bounds
  · split
    · have left := bounds.left
      have right := bounds.right
      have back : (if s.position.x > 0 then { s.position with x := s.position.x - 1 }
          else s.position : Cursor).InBounds := by
        split
        · next behind =>
            refine ⟨?_, ?_, bounds.top, bounds.bottom⟩
            · dsimp only
              omega
            · dsimp only
              omega
        · exact bounds
      exact ⟨inside_write_at inside back, back⟩
    · exact inside_advanceOne (inside_write_at inside bounds) bounds

theorem inside_step (inside : s.Inside) (bounds : s.position.InBounds) (o : Op) :
    (s.step o).Inside ∧ (s.step o).position.InBounds := by
  cases o with
  | printChar c fg bg => exact inside_printChar inside bounds
  | advanceCursorToNewline => exact inside_advanceCursorToNewline inside bounds
  | clear => exact ⟨inside_clear inside, inBounds_origin⟩

end Touched

/-- In every run from the initial cursor all cells that are read or written are cells of the
screen, and the cursor stays in the columns 0 to 80 of the first 24 rows. -/
theorem touched_inside (buffer : Int → UInt16) (ops : List Op) :
    machine.Always (fun s => s.Inside ∧ s.position.InBounds) (start buffer) ops := by
  have initial : (start buffer).Inside ∧ (start buffer).position.InBounds :=
    ⟨by rintro i ⟨⟩, inBounds_origin⟩
  refine Machine.always_of_inv (G := fun _ _ => True) (fun s o s' inv _ step => ?_)
    (fun _ inv => inv) initial Machine.eachStep_true
  cases step
  exact inside_step inv.1 inv.2 o

/-! ## The driver on natural numbers -/

/-- The screen from its first cell on. -/
def Screen.toVga (s : Screen) : Vga.Screen :=
  ⟨fun i => s.buffer i, ⟨s.position.x.toNat, s.position.y.toNat⟩⟩

section Refinement

variable {s : Screen}

theorem makeColorChar_value (c : UInt8) (fg bg : Color) :
    makeColorChar c fg.value.toUInt8 bg.value.toUInt8 = Vga.makeColorChar c fg bg := by
  cases fg <;> cases bg <;> rfl

/-- A character in a cell that is not in front of the screen. -/
theorem toVga_writeColorCharAt {pos : Cursor} (left : 0 ≤ pos.x) (top : 0 ≤ pos.y) (c : UInt8)
    (fg bg : Color) : (writeColorCharAt pos c fg.value.toUInt8 bg.value.toUInt8 s).toVga =
      { s.toVga with
        buffer := Vga.writeColorCharAt s.toVga.buffer ⟨pos.x.toNat, pos.y.toNat⟩ c fg bg } := by
  have cell (k : Nat) : (k : Int) = pos.y * SCREEN_WIDTH + pos.x ↔
      k = pos.y.toNat * SCREEN_WIDTH + pos.x.toNat := by
    unfold SCREEN_WIDTH
    omega
  unfold writeColorCharAt Vga.writeColorCharAt Screen.toVga
  dsimp only
  congr 1
  funext k
  rw [Function.update_apply, Function.update_apply, makeColorChar_value]
  exact if_congr (cell k) rfl rfl

/-- After `m` rounds of the copy. -/
theorem buffer_foldl_copyWord (m : Nat) (k : Int) :
    ((List.range m).foldl copyWord s).buffer k =
      if 0 ≤ k ∧ k < 4 * m then s.buffer (k + 80) else s.buffer k := by
  induction m generalizing k with
  | zero =>
      rw [if_neg (by omega)]
      rfl
  | succ m ih =>
      rw [List.range_succ, List.foldl_concat]
      show (if 4 * (m : Int) ≤ k ∧ k < 4 * m + 4 then _ else _) = _
      rw [ih, ih]
      unfold SCREEN_WIDTH
      by_cases here : 4 * (m : Int) ≤ k ∧ k < 4 * m + 4
      · -- the source of this round is behind all targets so far
        rw [if_pos here, if_neg (by omega), if_pos (by omega)]
        rfl
      · rw [if_neg here]
        exact if_congr (by omega) rfl rfl

theorem toVga_scroll : (scroll s).toVga = { s.toVga with buffer := Vga.scroll s.toVga.buffer } := by
  unfold Screen.toVga
  rw [position_scroll]
  congr 1
  funext k
  have moved := buffer_foldl_copyWord (s := s) 480 k
  have cell : (0 ≤ (k : Int) ∧ (k : Int) < 4 * (480 : Nat)) ↔
      k < SCREEN_WIDTH * (SCREEN_HEIGHT - 1) := by
    unfold SCREEN_WIDTH SCREEN_HEIGHT
    omega
  exact moved.trans (if_congr cell rfl rfl)

theorem toVga_advanceOneY (top : 0 ≤ s.position.y) :
    (advanceOneY s).toVga = Vga.advanceOneY s.toVga := by
  have row : s.position.y + 1 = SCREEN_HEIGHT - 1 ↔
      s.toVga.position.y + 1 = SCREEN_HEIGHT - 1 := by
    show _ ↔ s.position.y.toNat + 1 = SCREEN_HEIGHT - 1
    unfold SCREEN_HEIGHT
    omega
  unfold advanceOneY Vga.advanceOneY
  by_cases last : s.position.y + 1 = SCREEN_HEIGHT - 1
  · rw [if_pos last, if_pos (row.mp last)]
    exact toVga_scroll
  · rw [if_neg last, if_neg (mt row.mpr last)]
    have next : (s.position.y + 1).toNat = s.position.y.toNat + 1 := by omega
    unfold Screen.toVga
    dsimp only
    rw [next]

theorem toVga_advanceCursorToNewline (bounds : s.position.InBounds) :
    s.advanceCursorToNewline.toVga = s.toVga.advanceCursorToNewline := by
  exact toVga_advanceOneY (s := ⟨s.buffer, ⟨0, s.position.y⟩, s.touched⟩) bounds.top

theorem toVga_advanceOne (bounds : s.position.InBounds) :
    (advanceOne s).toVga = Vga.advanceOne s.toVga := by
  have left := bounds.left
  have column : s.position.x < SCREEN_WIDTH ↔ s.toVga.position.x < SCREEN_WIDTH := by
    show _ ↔ s.position.x.toNat < SCREEN_WIDTH
    omega
  unfold advanceOne Vga.advanceOne
  by_cases room : s.position.x < SCREEN_WIDTH
  · rw [if_pos room, if_pos (column.mp room)]
    have next : (s.position.x + 1).toNat = s.position.x.toNat + 1 := by omega
    unfold Screen.toVga
    dsimp only
    rw [next]
  · rw [if_neg room, if_neg (mt column.mpr room)]
    exact toVga_advanceCursorToNewline bounds

theorem toVga_printChar (bounds : s.position.InBounds) (c : UInt8) (fg bg : Color) :
    (s.printChar c fg.value.toUInt8 bg.value.toUInt8).toVga = s.toVga.printChar c fg bg := by
  have left := bounds.left
  unfold Screen.printChar Vga.Screen.printChar
  by_cases newline : c = 0x0A
  · rw [if_pos newline, if_pos newline]
    exact toVga_advanceCursorToNewline bounds
  · rw [if_neg newline, if_neg newline]
    by_cases backspace : c = 0x08
    · rw [if_pos backspace, if_pos backspace]
      have written (pos : Cursor) (left : 0 ≤ pos.x) (top : 0 ≤ pos.y) :=
        toVga_writeColorCharAt (s := { s with position := pos }) left top 0x20 .black .black
      by_cases behind : s.position.x > 0
      · have back : (s.position.x - 1).toNat = s.position.x.toNat - 1 := by omega
        have column : s.toVga.position.x > 0 := by
          show s.position.x.toNat > 0
          omega
        have previous := written ⟨s.position.x - 1, s.position.y⟩ (by dsimp only; omega) bounds.top
        unfold Screen.toVga at previous column ⊢
        dsimp only at previous column ⊢
        rw [back] at previous
        rw [if_pos behind, if_pos column]
        exact previous
      · have column : ¬ s.toVga.position.x > 0 := by
          show ¬ s.position.x.toNat > 0
          omega
        dsimp only
        rw [if_neg behind, if_neg column]
        exact written s.position left bounds.top
    · rw [if_neg backspace, if_neg backspace]
      have moved := toVga_advanceOne
        (s := writeColorCharAt s.position c fg.value.toUInt8 bg.value.toUInt8 s) bounds
      rw [moved, toVga_writeColorCharAt left bounds.top]
      rfl

/-- A loop that changes only the buffer. -/
theorem toVga_foldl {κ : Type} (f : Screen → κ → Screen) (g : (Nat → UInt16) → κ → Nat → UInt16)
    (round : ∀ s k, (f s k).toVga.buffer = g s.toVga.buffer k) (ks : List κ) (s : Screen) :
    (ks.foldl f s).toVga.buffer = ks.foldl g s.toVga.buffer := by
  induction ks generalizing s with
  | nil => rfl
  | cons k ks ih => rw [List.foldl_cons, List.foldl_cons, ih, round]

theorem toVga_clear : s.clear.toVga = s.toVga.clear := by
  have cell (y : Nat) (s : Screen) (x : Nat) :
      (writeColorCharAt ⟨x, y⟩ 0x20 black black s).toVga.buffer =
        Vga.writeColorCharAt s.toVga.buffer ⟨x, y⟩ 0x20 .black .black :=
    congrArg Vga.Screen.buffer
      (toVga_writeColorCharAt (Int.natCast_nonneg x) (Int.natCast_nonneg y) 0x20 .black .black)
  have row (s : Screen) (y : Nat) :=
    toVga_foldl (fun s (x : Nat) => writeColorCharAt ⟨x, y⟩ 0x20 black black s)
      (fun buffer (x : Nat) => Vga.writeColorCharAt buffer ⟨x, y⟩ 0x20 .black .black)
      (cell y) (List.range SCREEN_WIDTH) s
  have all := toVga_foldl Screen.clearRow
    (fun buffer y => (List.range SCREEN_WIDTH).foldl (fun buffer x =>
      Vga.writeColorCharAt buffer ⟨x, y⟩ 0x20 .black .black) buffer)
    row (List.range SCREEN_HEIGHT) s
  exact congrArg (fun buffer => Vga.Screen.mk buffer ⟨0, 0⟩) all

/-- Text is printed as by the driver on natural numbers. -/
theorem toVga_print (inside : s.Inside) (bounds : s.position.InBounds) (text : List UInt8) :
    (text.foldl (fun s c => s.printChar c Color.white.value.toUInt8 Color.black.value.toUInt8) s).toVga =
      print text s.toVga := by
  induction text generalizing s with
  | nil => rfl
  | cons c text ih =>
      have next := inside_step inside bounds
        (.printChar c Color.white.value.toUInt8 Color.black.value.toUInt8)
      rw [List.foldl_cons]
      have rest := ih next.1 next.2
      unfold Screen.step at rest
      dsimp only at rest
      rw [rest, toVga_printChar bounds]
      rfl

end Refinement

end Tyleros.Vga.Cells
