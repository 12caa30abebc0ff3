import Tyleros.Keyboard.Model
import Tyleros.Libc.Compare
import Tyleros.Libc.Formatting
import Tyleros.Vga

/-!
# The shell

`handle_key_event` of `kernel/minishell.cpp`, which the dispatcher of the keyboard calls with
every event. It collects a line in `command_buffer`, and with Enter it terminates the line and
compares it with the commands.

`lines_iff`: backspace writes a NUL behind the last character, and behind the buffer when that
is full. As long as nobody presses it then, every access is inside, and what Enter compares is
the line, cut to 255 characters.
-/

namespace Tyleros.Minishell

open Lib Libc
open Keyboard (Event)
open Vga (Screen)

/-! ## The shell -/

/-- `UPPERS`. -/
def UPPERS : List UInt8 :=
  [0x00, 0x01, 0x02, 0x03, 0x04, 0x05, 0x06, 0x07, 0x08, 0x09, 0x0A, 0x0B,
    0x0C, 0x0D, 0x0E, 0x0F, 0x10, 0x11, 0x12, 0x13, 0x14, 0x15, 0x16, 0x17,
    0x18, 0x19, 0x1A, 0x1B, 0x1C, 0x1D, 0x1E, 0x1F, 0x20, 0x21, 0x22, 0x23,
    0x24, 0x25, 0x26, 0x22, 0x28, 0x29, 0x2A, 0x2B, 0x3C, 0x5F, 0x3E, 0x3F,
    0x29, 0x21, 0x40, 0x23, 0x24, 0x25, 0x5E, 0x26, 0x2A, 0x28, 0x3A, 0x3A,
    0x3C, 0x2B, 0x3E, 0x3F, 0x40, 0x41, 0x42, 0x43, 0x44, 0x45, 0x46, 0x47,
    0x48, 0x49, 0x4A, 0x4B, 0x4C, 0x4D, 0x4E, 0x4F, 0x50, 0x51, 0x52, 0x53,
    0x54, 0x55, 0x56, 0x57, 0x58, 0x59, 0x5A, 0x7B, 0x7C, 0x7D, 0x5E, 0x5F,
    0x7E, 0x41, 0x42, 0x43, 0x44, 0x45, 0x46, 0x47, 0x48, 0x49, 0x4A, 0x4B,
    0x4C, 0x4D, 0x4E, 0x4F, 0x50, 0x51, 0x52, 0x53, 0x54, 0x55, 0x56, 0x57,
    0x58, 0x59, 0x5A, 0x7B, 0x7C, 0x7D, 0x7E, 0x7F, 0x80, 0x81, 0x82, 0x83,
    0x84, 0x85, 0x86, 0x87, 0x88, 0x89, 0x8A, 0x8B, 0x8C, 0x8D, 0x8E, 0x8F,
    0x90, 0x91, 0x92, 0x93, 0x94, 0x95, 0x96, 0x97, 0x98, 0x99, 0x9A, 0x9B,
    0x9C, 0x9D, 0x9E, 0x9F, 0xA0, 0xA1, 0xA2, 0xA3, 0xA4, 0xA5, 0xA6, 0xA7,
    0xA8, 0xA9, 0xAA, 0xAB, 0xAC, 0xAD, 0xAE, 0xAF, 0xB0, 0xB1, 0xB2, 0xB3,
    0xB4, 0xB5, 0xB6, 0xB7, 0xB8, 0xB9, 0xBA, 0xBB, 0xBC, 0xBD, 0xBE, 0xBF,
    0xC0, 0xC1, 0xC2, 0xC3, 0xC4, 0xC5, 0xC6, 0xC7, 0xC8, 0xC9, 0xCA, 0xCB,
    0xCC, 0xCD, 0xCE, 0xCF, 0xD0, 0xD1, 0xD2, 0xD3, 0xD4, 0xD5, 0xD6, 0xD7,
    0xD8, 0xD9, 0xDA, 0xDB, 0xDC, 0xDD, 0xDE, 0xDF, 0xE0, 0xE1, 0xE2, 0xE3,
    0xE4, 0xE5, 0xE6, 0xE7, 0xE8, 0xE9, 0xEA, 0xEB, 0xEC, 0xED, 0xEE, 0xEF,
    0xF0, 0xF1, 0xF2, 0xF3, 0xF4, 0xF5, 0xF6, 0xF7, 0xF8, 0xF9, 0xFA, 0xFB,
    0xFC, 0xFD, 0xFE, 0xFF]

/-- `isprint`, where `char` is signed. -/
def isprint (c : UInt8) : Bool := 0x20 ≤ c && c ≤ 0x7E

/-- The bytes of a literal. -/
def literal (text : String) (noNul : 0 ∉ asciiOf text.toList := by decide) : CString :=
  ⟨asciiOf text.toList, noNul⟩

/-- The screen, and everything else outside of the shell. -/
structure World (ω : Type) where
  screen : Screen
  rest : ω

/-- What the commands call; every call may stop the kernel. -/
structure Environment (ω : Type) where
  /-- `kernel_page_tables.dump_to_file(stdout)`. -/
  dumpToFile : World ω → Except Stop (World ω)
  /-- `fs::dump_dir`. -/
  dumpDir : List UInt8 → World ω → Except Stop (World ω)
  /-- `fs::read_file`; `none` is the null pointer. -/
  readFile : List UInt8 → World ω → Except Stop (Option (List UInt8) × World ω)
  /-- `printf` with a format and a string. -/
  printf : List UInt8 → List UInt8 → World ω → Except Stop (World ω)
  /-- `schedule_user_task`, with the task that prints a text. -/
  scheduleUserTask : List UInt8 → World ω → Except Stop (World ω)

/-- Why `handle_key_event` does not return. -/
inductive Halt where
  /-- It accesses `command_buffer` behind its end. -/
  | outOfBounds (index : Nat)
  /-- The kernel is stopped by what it calls, or by `SPIN_FOREVER`. -/
  | stopped (reason : Stop)
  deriving DecidableEq, Repr

structure Shell (ω : Type) where
  commandBuffer : Vector UInt8 0x100
  bufferCount : Nat
  shiftHeld : Bool
  world : World ω

/-- The branches of `handle_key_event` behind Enter. -/
inductive Command where
  | help
  | clear
  | pages
  | ls
  | cat (path : List UInt8)
  | shutdown
  | test
  | unknown (line : List UInt8)
  deriving DecidableEq, Repr

variable {ω : Type}

/-- A call that changes the screen only. -/
def World.onScreen (w : World ω) (f : Screen → Screen) : World ω := { w with screen := f w.screen }

/-- The body of a branch. -/
def Command.execute (env : Environment ω) (w : World ω) : Command → Except Stop (World ω)
  | .help =>
    .ok (w.onScreen (Vga.puts (literal "commands: help, clear, pages, ls, shutdown(q)").chars))
  | .clear => .ok (w.onScreen Screen.clear)
  | .pages => env.dumpToFile w
  | .ls => env.dumpDir (literal "/").chars w
  | .cat path => do
    match ← env.readFile path w with
    | (none, w) => env.printf (literal "Can't find file with path: `%s`\n").chars path w
    | (some contents, w) => .ok (w.onScreen (Vga.puts contents))
  | .shutdown => .error .hang
  | .test => env.scheduleUserTask (literal "I'm a user!").chars w
  | .unknown line =>
    .ok (w.onScreen fun screen =>
      Vga.puts (literal "`: command not recognized").chars
        (Vga.print line (Vga.print (literal "error: `").chars screen)))

namespace Shell

/-- `command_buffer[index] = c`. -/
def write (s : Shell ω) (index : Nat) (c : UInt8) : Except Halt (Shell ω) :=
  if inside : index < 0x100 then
    .ok { s with commandBuffer := s.commandBuffer.set index c inside }
  else .error (.outOfBounds index)

/-- `string::print_char`. -/
def printChar (s : Shell ω) (c : UInt8) : Shell ω :=
  { s with world := s.world.onScreen (Screen.printChar c .white .black) }

/-- The first part of `handle_key_event`, with `enter_pressed`. -/
def typeKey (s : Shell ω) (e : Event) : Except Halt (Bool × Shell ω) :=
  if e.code = 0x1 then .ok (false, { s with shiftHeld := e.pressed })
  else if e.pressed then
    if e.code = 0x0A then .ok (true, s)
    else if isprint e.code then do
      let code := if s.shiftHeld then UPPERS.getD e.code.toNat 0 else e.code
      if s.bufferCount < 0x100 then
        let s ← s.write s.bufferCount code
        return (false, { s with bufferCount := s.bufferCount + 1 }.printChar code)
      else return (false, s)
    else if e.code = 0x08 then do
      if s.bufferCount > 0 then
        let s ← s.write s.bufferCount 0
        return (false, { s with bufferCount := s.bufferCount - 1 }.printChar e.code)
      else return (false, s)
    else .ok (false, s)
  else .ok (false, s)

/-- The string that begins at an index. It is read up to its terminator. -/
def stringAt (s : Shell ω) (index : Nat) : Except Halt (List UInt8) :=
  if 0 ∈ s.commandBuffer.toList.drop index then
    .ok ((s.commandBuffer.toList.drop index).takeWhile (· ≠ 0))
  else .error (.outOfBounds 0x100)

/-- Whether a comparison with the buffer gives zero; it may read behind the end. -/
def isZero : Option Int → Except Halt Bool
  | some r => .ok (r = 0)
  | none => .error (.outOfBounds 0x100)

/-- `strcmp(command_buffer, text) == 0`. -/
def isCommand (s : Shell ω) (text : CString) : Except Halt Bool :=
  isZero (strcmp s.commandBuffer.toList text.bytes)

/-- `strncmp(command_buffer, text, strlen(text)) == 0`. -/
def beginsWith (s : Shell ω) (text : CString) : Except Halt Bool :=
  isZero (strncmp s.commandBuffer.toList text.bytes text.chars.length)

/-- The branch that is taken, with the string that it passes on. -/
def command (s : Shell ω) : Except Halt Command := do
  if ← s.isCommand (literal "help") then return .help
  else if ← s.isCommand (literal "clear") then return .clear
  else if ← s.isCommand (literal "pages") then return .pages
  else if ← s.isCommand (literal "ls") then return .ls
  else if ← s.beginsWith (literal "cat ") then return .cat (← s.stringAt 4)
  else if ← s.isCommand (literal "shutdown") then return .shutdown
  else if ← s.isCommand (literal "q") then return .shutdown
  else if ← s.isCommand (literal "test") then return .test
  else return .unknown (← s.stringAt 0)

/-- The line gets its terminator. -/
def terminate (s : Shell ω) : Except Halt (Shell ω) :=
  { s with world := s.world.onScreen Screen.advanceCursorToNewline }.write
    (min s.bufferCount 0xFF) 0

/-- `handle_key_event`. -/
def handleKeyEvent (env : Environment ω) (s : Shell ω) (e : Event) : Except Halt (Shell ω) := do
  let (enterPressed, s) ← s.typeKey e
  if !enterPressed then return s
  let s ← s.terminate
  let world ← ((← s.command).execute env s.world).mapError .stopped
  return { s with
    commandBuffer := Vector.replicate 0x100 0
    bufferCount := 0
    world := world.onScreen (Vga.print (literal "> ").chars) }

/-- The string that Enter compares with the commands. -/
def compared (s : Shell ω) : Except Halt (List UInt8) := do (← s.terminate).stringAt 0

end Shell

/-! ## The line -/

/-- Enter is pressed. -/
def ENTER : Event := ⟨0x0A, true⟩

/-- Backspace is pressed. -/
def BACKSPACE : Event := ⟨0x08, true⟩

/-- The line that is typed, without a limit to what is compared. -/
structure Line where
  chars : List UInt8
  shift : Bool
  deriving DecidableEq, Repr

/-- The line after an event: a character is appended while there are fewer than `0x100`, and
backspace deletes the last one. -/
def Line.next (l : Line) (e : Event) : Line :=
  if e.code = 0x1 then { l with shift := e.pressed }
  else if e = ENTER then { l with chars := [] }
  else if e = BACKSPACE then { l with chars := l.chars.dropLast }
  else if e.pressed ∧ isprint e.code ∧ l.chars.length < 0x100 then
    { l with chars := l.chars ++ [if l.shift then UPPERS.getD e.code.toNat 0 else e.code] }
  else l

/-- The command that a line is. -/
def Command.ofLine (line : List UInt8) : Command :=
  if line = (literal "help").chars then .help
  else if line = (literal "clear").chars then .clear
  else if line = (literal "pages").chars then .pages
  else if line = (literal "ls").chars then .ls
  else if (literal "cat ").chars <+: line then .cat (line.drop 4)
  else if line = (literal "shutdown").chars then .shutdown
  else if line = (literal "q").chars then .shutdown
  else if line = (literal "test").chars then .test
  else .unknown line

/-! ## Runs -/

/-- The shell, and the line as it should be. -/
structure State (ω : Type) where
  shell : Shell ω
  line : Line

def machine (env : Environment ω) : Machine (State ω) Event Halt where
  step s e := do return ⟨← s.shell.handleKeyEvent env e, s.line.next e⟩

/-- Nothing is typed. -/
def initial (w : World ω) : State ω := ⟨⟨Vector.replicate 0x100 0, 0, false, w⟩, ⟨[], false⟩⟩

/-- No access to the buffer is behind its end, and Enter compares the line. -/
structure State.Right (env : Environment ω) (s : State ω) (e : Event) : Prop where
  inBounds : ∀ index, s.shell.handleKeyEvent env e ≠ .error (.outOfBounds index)
  compares : e = ENTER → s.shell.compared = .ok (s.line.chars.take 255)

/-- Backspace is pressed behind a line that fills the buffer. -/
def State.Overruns (s : State ω) (e : Event) : Prop := s.line.chars.length = 0x100 ∧ e = BACKSPACE

instance (s : State ω) (e : Event) : Decidable (s.Overruns e) := inferInstanceAs (Decidable (_ ∧ _))

/-! ## The buffer -/

section Buffer

variable {front buffer : List UInt8}

/-- A write behind a line that stands at the front. -/
theorem set_behind (holds : front <+: buffer) (room : front.length < buffer.length) (c : UInt8) :
    ∃ rest, buffer.set front.length c = front ++ c :: rest := by
  obtain ⟨rest, rfl⟩ := holds
  cases rest with
  | nil =>
      rw [List.append_nil] at room
      exact absurd room (Nat.lt_irrefl _)
  | cons x rest =>
      refine ⟨rest, ?_⟩
      rw [List.set_append_right _ _ (Nat.le_refl _), Nat.sub_self, List.set_cons_zero]

/-- Without a NUL in it, a line is read up to the terminator behind it. -/
theorem takeWhile_terminated (noNul : 0 ∉ front) (rest : List UInt8) :
    (front ++ 0 :: rest).takeWhile (· ≠ 0) = front := by
  have all : ∀ c ∈ front, decide (c ≠ 0) = true :=
    fun c mem => decide_eq_true fun zero => noNul (zero ▸ mem)
  rw [List.takeWhile_append_of_pos all, List.takeWhile_cons_of_neg (by decide), List.append_nil]

end Buffer

namespace Shell

variable {s : Shell ω} {index : Nat} {c : UInt8}

theorem write_inside (inside : index < 0x100) :
    s.write index c = .ok { s with commandBuffer := s.commandBuffer.set index c inside } :=
  dif_pos inside

theorem write_outside (outside : ¬ index < 0x100) : s.write index c = .error (.outOfBounds index) :=
  dif_neg outside

/-- The line that the buffer holds, and the terminator behind it. -/
def Terminated (s : Shell ω) (line : CString) : Prop :=
  ∃ rest, s.commandBuffer.toList = line.bytes ++ rest

section Compare

variable {line : CString}

theorem Terminated.short (terminated : s.Terminated line) : line.chars.length < 0x100 := by
  obtain ⟨rest, holds⟩ := terminated
  have length := congrArg List.length holds
  rw [Vector.length_toList, List.length_append, line.length_bytes] at length
  omega

theorem Terminated.stringAt (terminated : s.Terminated line) (inside : index ≤ line.chars.length) :
    s.stringAt index = .ok (line.chars.drop index) := by
  obtain ⟨rest, holds⟩ := terminated
  have behind : s.commandBuffer.toList.drop index = line.chars.drop index ++ 0 :: rest := by
    rw [holds]
    unfold CString.bytes
    rw [List.append_assoc, List.drop_append_of_le_length inside]
    rfl
  have noNul : 0 ∉ line.chars.drop index := fun mem => line.noNul (List.mem_of_mem_drop mem)
  unfold Shell.stringAt
  rw [behind, takeWhile_terminated noNul, if_pos (by simp)]

theorem isZero_some {r : Option Int} {P : Prop} [Decidable P] (some_ : ∃ v, r = some v ∧ (v = 0 ↔ P)) :
    isZero r = .ok (decide P) := by
  obtain ⟨v, rfl, zero⟩ := some_
  exact congrArg Except.ok (decide_eq_decide.mpr zero)

theorem Terminated.isCommand (terminated : s.Terminated line) (text : CString) :
    s.isCommand text = .ok (decide (line.chars = text.chars)) := by
  have short := terminated.short
  obtain ⟨rest, holds⟩ := terminated
  have fits : min line.chars.length text.chars.length < SIZE_MAX := by
    unfold SIZE_MAX
    omega
  exact isZero_some (strcmp_buffer holds fits)

theorem Terminated.beginsWith (terminated : s.Terminated line) (text : CString) :
    s.beginsWith text = .ok (decide (text.chars <+: line.chars)) := by
  obtain ⟨rest, holds⟩ := terminated
  exact isZero_some (strncmp_buffer holds)

/-- The comparisons find the command that the line is. -/
theorem Terminated.command (terminated : s.Terminated line) :
    s.command = .ok (Command.ofLine line.chars) := by
  have whole : s.stringAt 0 = .ok line.chars := terminated.stringAt (Nat.zero_le _)
  unfold Shell.command Command.ofLine
  simp only [terminated.isCommand, terminated.beginsWith, ok_bind, decide_eq_true_eq, whole]
  by_cases cat : (literal "cat ").chars <+: line.chars
  · have inside : 4 ≤ line.chars.length := cat.length_le
    rw [terminated.stringAt inside]
    split_ifs <;> rfl
  · split_ifs <;> rfl

end Compare

end Shell

/-! ## One event -/

/-- The buffer holds the line, and behind it anything. -/
structure State.Holds (s : State ω) : Prop where
  count : s.shell.bufferCount = s.line.chars.length
  room : s.line.chars.length ≤ 0x100
  front : s.line.chars <+: s.shell.commandBuffer.toList
  noNul : 0 ∉ s.line.chars
  shift : s.shell.shiftHeld = s.line.shift

/-- No key types a NUL, with or without shift. -/
theorem typed_ne_zero {c : UInt8} (printable : isprint c = true) (shift : Bool) :
    (if shift then UPPERS.getD c.toNat 0 else c) ≠ 0 := by
  have all : ∀ c : UInt8, isprint c = true → UPPERS.getD c.toNat 0 ≠ 0 ∧ c ≠ 0 :=
    forall_byte (by decide +kernel)
  obtain ⟨upper, lower⟩ := all c printable
  cases shift with
  | true => exact upper
  | false => exact lower

section Steps

variable {s : State ω} {e : Event}

/-- A line that is not full is written on. -/
theorem State.Holds.write_behind (holds : s.Holds) (room : s.line.chars.length < 0x100) (c : UInt8) :
    ∃ buffer rest, s.shell.write s.shell.bufferCount c =
        .ok { s.shell with commandBuffer := buffer } ∧
      buffer.toList = s.line.chars ++ c :: rest := by
  have inside : s.shell.bufferCount < 0x100 := by
    rw [holds.count]
    exact room
  have length : s.line.chars.length < s.shell.commandBuffer.toList.length := by
    rw [Vector.length_toList]
    exact room
  obtain ⟨rest, written⟩ := set_behind holds.front length c
  refine ⟨_, rest, Shell.write_inside inside, ?_⟩
  rw [Vector.toList_set, holds.count]
  exact written

theorem State.Holds.terminate (holds : s.Holds) (noNul : 0 ∉ s.line.chars.take 255) :
    ∃ shell, s.shell.terminate = .ok shell ∧ shell.Terminated ⟨s.line.chars.take 255, noNul⟩ := by
  have count := holds.count
  have cut : (s.line.chars.take 255).length = min s.shell.bufferCount 0xFF := by
    rw [List.length_take, count, Nat.min_comm]
  have inside : min s.shell.bufferCount 0xFF < 0x100 := by omega
  have length : (s.line.chars.take 255).length < s.shell.commandBuffer.toList.length := by
    rw [cut, Vector.length_toList]
    exact inside
  obtain ⟨rest, written⟩ := set_behind ((List.take_prefix 255 _).trans holds.front) length 0
  refine ⟨_, Shell.write_inside inside, rest, ?_⟩
  rw [Vector.toList_set, ← cut]
  dsimp only
  rw [written]
  unfold CString.bytes
  rw [List.append_assoc]
  rfl

theorem typeKey_enter (shell : Shell ω) : shell.typeKey ENTER = .ok (true, shell) := rfl

/-- Backspace writes behind the full buffer. -/
theorem typeKey_overrun {shell : Shell ω} (full : shell.bufferCount = 0x100) :
    shell.typeKey BACKSPACE = .error (.outOfBounds 0x100) := by
  have write : shell.write shell.bufferCount 0 = .error (.outOfBounds 0x100) := by
    rw [full]
    exact Shell.write_outside (Nat.lt_irrefl _)
  show (if shell.bufferCount > 0 then _ else _) = _
  rw [if_pos (by omega), write]
  rfl

theorem isprint_ne {c other : UInt8} (printable : isprint c = true) (control : isprint other = false) :
    c ≠ other := by
  rintro rfl
  rw [printable] at control
  exact Bool.noConfusion control

/-- A character is appended, unless the buffer is full. -/
theorem State.Holds.character {c : UInt8} (holds : s.Holds) (printable : isprint c = true) :
    ∃ shell, s.shell.typeKey ⟨c, true⟩ = .ok (false, shell) ∧
      State.Holds ⟨shell, s.line.next ⟨c, true⟩⟩ := by
  have count := holds.count
  have notShift : c ≠ 0x1 := isprint_ne printable (by decide)
  have notNewline : c ≠ 0x0A := isprint_ne printable (by decide)
  have notEnter : Event.mk c true ≠ ENTER := fun event => notNewline (congrArg Event.code event)
  have notBackspace : Event.mk c true ≠ BACKSPACE :=
    fun event => isprint_ne printable (by decide) (congrArg Event.code event)
  unfold Shell.typeKey Line.next
  rw [if_neg notShift, if_neg notShift, if_neg notEnter, if_neg notBackspace, if_pos rfl,
    if_neg notNewline, if_pos printable, ← holds.shift]
  dsimp only
  by_cases room : s.line.chars.length < 0x100
  · have typed := typed_ne_zero printable s.shell.shiftHeld
    revert typed
    generalize (if s.shell.shiftHeld = true then UPPERS.getD c.toNat 0 else c) = code
    intro typed
    obtain ⟨buffer, rest, written, shows_⟩ := holds.write_behind room code
    rw [count, if_pos room, if_pos ⟨rfl, printable, room⟩, ← count, written]
    refine ⟨_, rfl, ?_, ?_, ⟨rest, ?_⟩, ?_, rfl⟩
    · rw [List.length_append, List.length_singleton, ← count]
      rfl
    · rw [List.length_append, List.length_singleton]
      exact room
    · rw [List.append_assoc]
      exact shows_.symm
    · rw [List.mem_append, List.mem_singleton]
      rintro (mem | zero)
      · exact holds.noNul mem
      · exact typed zero.symm
  · rw [count, if_neg room, if_neg (fun all => room all.2.2)]
    exact ⟨_, rfl, holds⟩

/-- The last character is deleted: it is behind the line then. -/
theorem State.Holds.backspace (holds : s.Holds) (room : s.line.chars.length < 0x100) :
    ∃ shell, s.shell.typeKey BACKSPACE = .ok (false, shell) ∧
      State.Holds ⟨shell, s.line.next BACKSPACE⟩ := by
  have count := holds.count
  have noNul : 0 ∉ s.line.chars.dropLast := fun mem => holds.noNul (List.mem_of_mem_dropLast mem)
  have length : s.line.chars.dropLast.length = s.shell.bufferCount - 1 := by
    rw [List.length_dropLast, count]
  have small : s.line.chars.dropLast.length ≤ 0x100 := by omega
  show ∃ shell, (if s.shell.bufferCount > 0 then _ else _) = _ ∧ _
  by_cases some_ : s.shell.bufferCount > 0
  · obtain ⟨buffer, rest, written, shows_⟩ := holds.write_behind room 0
    have inside : s.line.chars <+: buffer.toList := ⟨0 :: rest, shows_.symm⟩
    rw [if_pos some_, written]
    exact ⟨_, rfl, length.symm, small, (List.dropLast_prefix _).trans inside, noNul, holds.shift⟩
  · have front := (List.dropLast_prefix _).trans holds.front
    have count' : s.shell.bufferCount = s.line.chars.dropLast.length := by omega
    rw [if_neg some_]
    exact ⟨_, rfl, count', small, front, noNul, holds.shift⟩

/-- Every key but Enter leaves a buffer that holds the next line. -/
theorem State.Holds.typeKey (holds : s.Holds) (fits : ¬ s.Overruns e) (notEnter : e ≠ ENTER) :
    ∃ shell, s.shell.typeKey e = .ok (false, shell) ∧ State.Holds ⟨shell, s.line.next e⟩ := by
  obtain ⟨code, pressed⟩ := e
  by_cases shift : code = 0x1
  · unfold Shell.typeKey Line.next
    rw [if_pos shift, if_pos shift]
    exact ⟨_, rfl, holds.count, holds.room, holds.front, holds.noNul, rfl⟩
  cases pressed with
  | false =>
      have released : s.line.next ⟨code, false⟩ = s.line := by
        unfold Line.next
        rw [if_neg shift, if_neg notEnter, if_neg (by rintro ⟨⟩), if_neg (by rintro ⟨⟨⟩, -⟩)]
      unfold Shell.typeKey
      rw [if_neg shift, released]
      exact ⟨_, rfl, holds⟩
  | true =>
      by_cases printable : isprint code = true
      · exact holds.character printable
      by_cases backspace : code = 0x08
      · cases backspace
        have room := holds.room
        have notFull : s.line.chars.length ≠ 0x100 := fun full => fits ⟨full, rfl⟩
        exact holds.backspace (by omega)
      · have notNewline : code ≠ 0x0A := fun newline => notEnter (by rw [newline]; rfl)
        have notBackspace : Event.mk code true ≠ BACKSPACE :=
          fun event => backspace (congrArg Event.code event)
        have ignored : s.line.next ⟨code, true⟩ = s.line := by
          unfold Line.next
          rw [if_neg shift, if_neg notEnter, if_neg notBackspace,
            if_neg (fun all => printable all.2.1)]
        unfold Shell.typeKey
        rw [if_neg shift, if_pos rfl, if_neg notNewline, if_neg printable, if_neg backspace, ignored]
        exact ⟨_, rfl, holds⟩

theorem State.Holds.noNul_take (holds : s.Holds) (n : Nat) : 0 ∉ s.line.chars.take n :=
  fun mem => holds.noNul (List.mem_of_mem_take mem)

theorem Shell.handleKeyEvent_key {env : Environment ω} {shell shell' : Shell ω}
    (typed : shell.typeKey e = .ok (false, shell')) : shell.handleKeyEvent env e = .ok shell' := by
  unfold Shell.handleKeyEvent
  rw [typed]
  rfl

section Finish

variable {result : Except Stop (World ω)} {finish : World ω → Shell ω}

/-- What a command calls does not access the buffer. -/
theorem finish_ne_outOfBounds {index : Nat} :
    (result.mapError Halt.stopped).map finish ≠ .error (.outOfBounds index) := by
  intro stops
  cases result with
  | ok world => cases stops
  | error reason => cases stops

theorem finish_ok {shell : Shell ω} (returned : (result.mapError Halt.stopped).map finish = .ok shell) :
    ∃ world, finish world = shell := by
  cases result with
  | ok world => exact ⟨world, Except.ok.inj returned⟩
  | error reason => cases returned

end Finish

/-- Enter executes the command that the line is, cut to 255 characters, and begins a new line. -/
theorem State.Holds.enter (holds : s.Holds) (env : Environment ω) :
    ∃ shell, s.shell.terminate = .ok shell ∧ shell.Terminated ⟨_, holds.noNul_take 255⟩ ∧
      s.shell.handleKeyEvent env ENTER =
        (((Command.ofLine (s.line.chars.take 255)).execute env shell.world).mapError .stopped).map
          fun world => ⟨Vector.replicate 0x100 0, 0, shell.shiftHeld,
            world.onScreen (Vga.print (literal "> ").chars)⟩ := by
  obtain ⟨shell, terminate, terminated⟩ := holds.terminate (holds.noNul_take 255)
  refine ⟨shell, terminate, terminated, ?_⟩
  unfold Shell.handleKeyEvent
  rw [typeKey_enter, ok_bind]
  dsimp only
  rw [if_neg (by decide), terminate, ok_bind, terminated.command, ok_bind]
  cases (Command.ofLine (s.line.chars.take 255)).execute env shell.world <;> rfl

theorem Shell.terminate_shiftHeld {shell shell' : Shell ω} (terminate : shell.terminate = .ok shell') :
    shell'.shiftHeld = shell.shiftHeld := by
  unfold Shell.terminate at terminate
  rw [Shell.write_inside (by omega)] at terminate
  cases terminate
  rfl

/-- An event that does not overrun the buffer keeps to it, and Enter compares the line. -/
theorem State.Holds.right (holds : s.Holds) (env : Environment ω) (fits : ¬ s.Overruns e) :
    s.Right env e := by
  by_cases enter : e = ENTER
  · subst enter
    obtain ⟨shell, terminate, terminated, handled⟩ := holds.enter env
    constructor
    · intro index stops
      exact finish_ne_outOfBounds (handled.symm.trans stops)
    · intro _
      unfold Shell.compared
      rw [terminate]
      exact terminated.stringAt (Nat.zero_le _)
  · obtain ⟨shell, typed, -⟩ := holds.typeKey fits enter
    constructor
    · intro index stops
      rw [Shell.handleKeyEvent_key typed] at stops
      cases stops
    · exact fun isEnter => absurd isEnter enter

theorem State.not_right {env : Environment ω} (full : s.shell.bufferCount = 0x100) :
    ¬ s.Right env BACKSPACE := by
  intro right
  refine right.inBounds 0x100 ?_
  unfold Shell.handleKeyEvent
  rw [typeKey_overrun full]
  rfl

/-- The buffer holds the next line. -/
theorem State.Holds.step {env : Environment ω} {s' : State ω} (holds : s.Holds)
    (fits : ¬ s.Overruns e) (step : (machine env).step s e = .ok s') : s'.Holds := by
  obtain ⟨shell', handled, next⟩ := bind_eq_ok step
  cases next
  by_cases enter : e = ENTER
  · subst enter
    obtain ⟨shell, terminate, -, handled'⟩ := holds.enter env
    obtain ⟨world, rfl⟩ := finish_ok (handled'.symm.trans handled)
    have shift := (Shell.terminate_shiftHeld terminate).trans holds.shift
    exact ⟨rfl, Nat.zero_le _, List.nil_prefix, List.not_mem_nil, shift⟩
  · obtain ⟨shell, typed, held⟩ := holds.typeKey fits enter
    rw [Shell.handleKeyEvent_key typed] at handled
    cases handled
    exact held

end Steps

/-! ## Every sequence of events -/

theorem holds_initial (w : World ω) : (initial w).Holds :=
  ⟨rfl, Nat.zero_le _, List.nil_prefix, List.not_mem_nil, rfl⟩

/-- Every access to the buffer is inside and every Enter compares the line, cut to 255
characters, exactly if backspace is never pressed behind a line of `0x100` characters. -/
theorem lines_iff (env : Environment ω) (w : World ω) (events : List Event) :
    (machine env).EachStep (fun s e => s.Right env e) (initial w) events ↔
      (machine env).EachStep (fun s e => ¬ s.Overruns e) (initial w) events :=
  Machine.eachStep_iff (L := fun _ _ => True)
    (fun _ _ _ (holds : State.Holds _) _ fits step => holds.step fits step)
    (fun s e holds _ => by
      constructor
      · rintro right ⟨full, rfl⟩
        exact State.not_right (holds.count.trans full) right
      · exact holds.right env)
    (holds_initial w) Machine.eachStep_true

/-- Nothing outside of the shell does anything. -/
def sampleEnvironment : Environment Unit :=
  ⟨.ok, fun _ => .ok, fun _ w => .ok (none, w), fun _ _ => .ok, fun _ => .ok⟩

/-- A screen without anything on it. -/
def sampleWorld : World Unit := ⟨⟨fun _ => 0, ⟨0, 0⟩⟩, ()⟩

/-- `q`, typed until the buffer is full, and backspace. -/
theorem not_lines_full : ¬ (machine sampleEnvironment).EachStep
    (fun s e => s.Right sampleEnvironment e) (initial sampleWorld)
    (List.replicate 0x100 ⟨0x71, true⟩ ++ [BACKSPACE]) := by
  intro right
  have room : (machine sampleEnvironment).EachStep
      (fun s e => ¬ (s.shell.bufferCount = 0x100 ∧ e = BACKSPACE)) (initial sampleWorld)
      (List.replicate 0x100 ⟨0x71, true⟩ ++ [BACKSPACE]) := by
    refine Machine.eachStep_of_inv (fun _ _ _ (_ : True) _ _ => trivial) ?_ trivial right
    rintro s e - here ⟨full, rfl⟩
    exact State.not_right full here
  exact absurd room (by decide +kernel)

end Tyleros.Minishell
