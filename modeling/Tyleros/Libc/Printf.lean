import Tyleros.Libc.Bounds
import Tyleros.Lib.Machine
import Mathlib.Data.Nat.Find

/-!
# `printf` in the kernel

`vfprintf` formats into the static `printf_buffer` and hands it to `vga_print` and
`debug_print`, which read up to the first NUL. A call that fills the buffer does not terminate
it: that rests on the last byte, which is zero from the beginning and is not written as long as
the counter of `vsnprintf` does not wrap around. `printf_runs`: then every text that is handed
over ends inside the buffer and is the output of its own call.
-/

namespace Tyleros.Libc

open Lib

/-! ## The calls -/

/-- The size of `printf_buffer`. -/
def PRINTF_BUFFER_SIZE : BitVec 64 := 0x200

/-- The index of `stdout` in `files`. -/
def stdout : Nat := 0

/-- The index of `stderr` in `files`. -/
def stderr : Nat := 1

/-- A text handed over, as the bytes from its address on. -/
inductive Print where
  | vga (text : Nat → UInt8)
  | debug (text : Nat → UInt8)

/-- The text. -/
def Print.text : Print → (Nat → UInt8)
  | vga text => text
  | debug text => text

structure Console where
  /-- The bytes from `printf_buffer` on. -/
  printfBuffer : Nat → UInt8
  /-- What has been handed to `vga_print` and `debug_print`. -/
  prints : List Print

/-- Static storage is zero in the beginning. -/
def Console.initial : Console where
  printfBuffer := fun _ => 0
  prints := []

/-- How a call ends that does not return. -/
inductive Crash where
  | abort
  | misuse (m : Misuse)
  deriving DecidableEq, Repr

/-- What `vfprintf` does behind `vsnprintf`. -/
def Console.print (f : Nat) (c : Console) : Except Crash Console :=
  if f = stdout then
    .ok { c with prints := c.prints ++ [.vga c.printfBuffer, .debug c.printfBuffer] }
  else if f = stderr then .ok { c with prints := c.prints ++ [.debug c.printfBuffer] }
  else .error .abort

/-- `vfprintf(f, msg, args)` in the kernel, which returns zero. -/
def vfprintf (f : Nat) (msg : Option CString) (args : List Arg) (c : Console) :
    Except Crash Console :=
  match vsnprintf (some c.printfBuffer) PRINTF_BUFFER_SIZE msg args with
  | .error m => .error (.misuse m)
  | .ok (_, s) => { c with printfBuffer := s.buf }.print f

/-- `vprintf(msg, args)`. -/
def vprintf (msg : Option CString) (args : List Arg) (c : Console) : Except Crash Console :=
  vfprintf stdout msg args c

/-- A call from the kernel. -/
inductive PrintCall where
  | printf (msg : Option CString) (args : List Arg)
  | fprintf (f : Nat) (msg : Option CString) (args : List Arg)

namespace PrintCall

def file : PrintCall → Nat
  | printf _ _ => stdout
  | fprintf f _ _ => f

def msg : PrintCall → Option CString
  | printf msg _ => msg
  | fprintf _ msg _ => msg

def args : PrintCall → List Arg
  | printf _ args => args
  | fprintf _ _ args => args

/-- `printf(msg, ...)` and `fprintf(f, msg, ...)`. -/
def run (call : PrintCall) (c : Console) : Except Crash Console :=
  match call with
  | printf msg args => vprintf msg args c
  | fprintf f msg args => vfprintf f msg args c

/-- The format is not null, and its pieces are these. -/
def Puts (call : PrintCall) (ps : List Piece) : Prop :=
  ∃ fmt, call.msg = some fmt ∧ pieces fmt call.args = .ok ps

end PrintCall

/-- The kernel calling `printf` and `fprintf`. -/
def printing : Machine Console PrintCall Crash where
  step c call := call.run c

/-! ## The text of a call -/

/-- The characters of the output that come into the buffer, in their order there. -/
def seen (ps : List Piece) : List UInt8 :=
  if (complete ps).length < PRINTF_BUFFER_SIZE.toNat then complete ps
  else visible (PRINTF_BUFFER_SIZE.toNat - 1) ps

/-- The text ends inside the buffer, and up to there it is what comes into the buffer of the
output with these pieces. -/
structure IsOutput (ps : List Piece) (text : Nat → UInt8) : Prop where
  ends : ∃ k, k < PRINTF_BUFFER_SIZE.toNat ∧ text k = 0 ∧
    ∀ i, i < k → text i ≠ 0 ∧ (seen ps)[i]? = some (text i)
  own : ∀ c ∈ seen ps, c ∈ complete ps

/-- What a call is to do: everything it hands over is its own output. -/
def PrintsOwnOutput (c : Console) (call : PrintCall) : Prop :=
  ∃ ps text, call.Puts ps ∧ IsOutput ps text ∧
    printing.step c call = Console.print call.file { c with printfBuffer := text }

theorem mem_shown_iff (p : Piece) (c : UInt8) : c ∈ p.shown ↔ c ∈ p.put := by
  cases p with
  | text chars => exact Iff.rfl
  | number digits short => exact List.mem_reverse
  | counts targets => exact Iff.rfl

theorem mem_complete_iff (ps : List Piece) (c : UInt8) :
    c ∈ complete ps ↔ c ∈ ps.flatMap Piece.put := by
  unfold complete
  rw [List.mem_flatMap, List.mem_flatMap]
  exact exists_congr fun p => and_congr_right' (mem_shown_iff p c)

theorem mem_complete_of_visible {room : Nat} {ps : List Piece} {c : UInt8}
    (mem : c ∈ visible room ps) : c ∈ complete ps := by
  induction ps generalizing room with
  | nil => exact mem
  | cons p ps ih =>
      rw [visible] at mem
      rw [complete_cons, List.mem_append]
      split at mem
      · rcases List.mem_append.mp mem with here | later
        · exact Or.inl here
        · exact Or.inr (ih later)
      · exact Or.inl ((mem_shown_iff p c).mpr (List.mem_of_mem_take mem))

theorem mem_complete_of_seen {ps : List Piece} {c : UInt8} (mem : c ∈ seen ps) :
    c ∈ complete ps := by
  unfold seen at mem
  split at mem
  · exact mem
  · exact mem_complete_of_visible mem

/-- A text that agrees with the output up to a zero byte in the buffer. -/
theorem isOutput_of_prefix {ps : List Piece} {text : Nat → UInt8} {m : Nat}
    (inside : m < PRINTF_BUFFER_SIZE.toNat) (zero : text m = 0)
    (agrees : ∀ i, i < m → (seen ps)[i]? = some (text i)) : IsOutput ps text := by
  have some_ : ∃ k, text k = 0 := ⟨m, zero⟩
  have first : Nat.find some_ ≤ m := Nat.find_min' some_ zero
  constructor
  case ends =>
    refine ⟨Nat.find some_, by omega, Nat.find_spec some_, fun i hi => ?_⟩
    exact ⟨Nat.find_min some_ hi, agrees i (by omega)⟩
  case own => exact fun c => mem_complete_of_seen

/-! ## The last byte of the buffer -/

section Buffer

variable {buf : Nat → UInt8} {fmt : CString} {args : List Arg} {ps : List Piece}

/-- What one call of `vsnprintf` leaves in the buffer: its own output, and the last byte zero. -/
theorem vsnprintf_printfBuffer (lastZero : buf (PRINTF_BUFFER_SIZE.toNat - 1) = 0)
    (parsed : pieces fmt args = .ok ps) (counted : (complete ps).length < 2 ^ 64) :
    ∃ ret s, vsnprintf (some buf) PRINTF_BUFFER_SIZE (some fmt) args = .ok (ret, s) ∧
      s.buf (PRINTF_BUFFER_SIZE.toNat - 1) = 0 ∧ IsOutput ps s.buf := by
  have size : PRINTF_BUFFER_SIZE.toNat = 512 := rfl
  rcases Nat.lt_or_ge (complete ps).length PRINTF_BUFFER_SIZE.toNat with room | meets
  · obtain ⟨s, run, chars, terminated, kept⟩ := vsnprintf_shows buf parsed room
    have whole : seen ps = complete ps := if_pos room
    refine ⟨_, s, run, ?_, isOutput_of_prefix room terminated fun i hi => ?_⟩
    · rcases Nat.lt_or_ge (complete ps).length (PRINTF_BUFFER_SIZE.toNat - 1) with short | exact_
      · rw [kept _ short, lastZero]
      · have last : PRINTF_BUFFER_SIZE.toNat - 1 = (complete ps).length := by omega
        rw [last, terminated]
    · rw [whole, List.getElem?_eq_getElem hi, chars i hi]
  · obtain ⟨ret, s, run, front, last⟩ := vsnprintf_full buf parsed (by decide) meets
    have cut : seen ps = visible (PRINTF_BUFFER_SIZE.toNat - 1) ps := if_neg (by omega)
    have length_ : (visible (PRINTF_BUFFER_SIZE.toNat - 1) ps).length =
        PRINTF_BUFFER_SIZE.toNat - 1 := length_visible (by omega)
    have unwritten : lastByte buf PRINTF_BUFFER_SIZE ps = 0 := by
      unfold lastByte
      rw [List.getD_eq_default _ _ (by rw [length_flatMap_put]; omega), lastZero]
    have zero := last.trans unwritten
    refine ⟨ret, s, run, zero, isOutput_of_prefix (by decide) zero fun i hi => ?_⟩
    have inside : i < (visible (PRINTF_BUFFER_SIZE.toNat - 1) ps).length := by omega
    rw [cut, front i hi, List.getElem?_eq_getElem inside]
    congr 1
    simpa only [Nat.zero_add] using (overlay_getElem buf 0 inside).symm

/-- An output of `2 ^ 64` characters fills the buffer to its last byte. -/
theorem vsnprintf_wrapped (buf : Nat → UInt8) (parsed : pieces fmt args = .ok ps)
    (wraps : 2 ^ 64 ≤ (complete ps).length) :
    ∃ ret s, vsnprintf (some buf) PRINTF_BUFFER_SIZE (some fmt) args = .ok (ret, s) ∧
      ∀ k < PRINTF_BUFFER_SIZE.toNat, s.buf k ∈ complete ps := by
  have size : PRINTF_BUFFER_SIZE.toNat = 512 := rfl
  obtain ⟨ret, s, run, front, last⟩ := vsnprintf_full buf parsed (by decide)
    (show PRINTF_BUFFER_SIZE.toNat ≤ (complete ps).length by omega)
  refine ⟨ret, s, run, fun k inside => ?_⟩
  rcases Nat.lt_or_ge k (PRINTF_BUFFER_SIZE.toNat - 1) with before | atEnd
  · have here : k < (visible (PRINTF_BUFFER_SIZE.toNat - 1) ps).length := by
      rw [length_visible (by omega)]
      exact before
    have entry : s.buf k = (visible (PRINTF_BUFFER_SIZE.toNat - 1) ps)[k] := by
      rw [front k before]
      simpa only [Nat.zero_add] using overlay_getElem buf 0 here
    rw [entry]
    exact mem_complete_of_visible (List.getElem_mem here)
  · have here : 2 ^ 64 - 1 < (ps.flatMap Piece.put).length := by
      rw [length_flatMap_put]
      omega
    have final : k = PRINTF_BUFFER_SIZE.toNat - 1 := by omega
    rw [final, last, mem_complete_iff]
    unfold lastByte
    rw [List.getD_eq_getElem _ _ here]
    exact List.getElem_mem here

end Buffer

/-! ## Runs -/

/-- The last byte of `printf_buffer` is zero. -/
def LastByteZero (c : Console) : Prop := c.printfBuffer (PRINTF_BUFFER_SIZE.toNat - 1) = 0

/-- The format is not null, its conversions are complete and match the arguments, and the output
has less than `2 ^ 64` characters. -/
def PrintCall.Countable (call : PrintCall) : Prop :=
  ∃ ps, call.Puts ps ∧ (complete ps).length < 2 ^ 64

theorem PrintCall.run_eq (call : PrintCall) (c : Console) :
    call.run c = vfprintf call.file call.msg call.args c := by
  cases call with
  | printf msg args => rfl
  | fprintf f msg args => rfl

theorem Console.printfBuffer_print {f : Nat} {c c' : Console} (h : Console.print f c = .ok c') :
    c'.printfBuffer = c.printfBuffer := by
  unfold Console.print at h
  split at h
  · cases h
    rfl
  · split at h
    · cases h
      rfl
    · cases h

/-- A call hands over what `vsnprintf` leaves in the buffer. -/
theorem printing_step_eq (c : Console) {call : PrintCall} {fmt : CString} {ret : Int} {s : Out}
    (format : call.msg = some fmt)
    (run : vsnprintf (some c.printfBuffer) PRINTF_BUFFER_SIZE (some fmt) call.args =
      .ok (ret, s)) :
    printing.step c call = Console.print call.file { c with printfBuffer := s.buf } := by
  refine (call.run_eq c).trans ?_
  unfold vfprintf
  rw [format, run]

/-- One call: it prints its own output, and leaves the last byte zero. -/
theorem printing_step {c : Console} (lastZero : LastByteZero c) {call : PrintCall}
    (countable : call.Countable) :
    PrintsOwnOutput c call ∧ ∀ c', printing.step c call = .ok c' → LastByteZero c' := by
  obtain ⟨ps, ⟨fmt, format, parsed⟩, counted⟩ := countable
  obtain ⟨ret, s, run, zero, output⟩ := vsnprintf_printfBuffer lastZero parsed counted
  have step := printing_step_eq c format run
  refine ⟨⟨ps, s.buf, ⟨fmt, format, parsed⟩, output, step⟩, fun c' h => ?_⟩
  unfold LastByteZero
  rw [Console.printfBuffer_print (step.symm.trans h)]
  exact zero

/-- In every run of calls of `printf` and `fprintf` with outputs of less than `2 ^ 64`
characters, each call hands over nothing but its own output, which ends inside the buffer. -/
theorem printf_runs {calls : List PrintCall} (countable : ∀ call ∈ calls, call.Countable) :
    printing.EachStep PrintsOwnOutput Console.initial calls := by
  have start : LastByteZero Console.initial := rfl
  have keeps (c : Console) (call : PrintCall) (c' : Console) (lastZero : LastByteZero c)
      (countable : call.Countable) (step : printing.step c call = .ok c') : LastByteZero c' :=
    (printing_step lastZero countable).2 c' step
  refine Machine.eachStep_of_inv keeps ?_ start (Machine.eachStep_of_forall countable)
  exact fun c call lastZero countable => (printing_step lastZero countable).1

/-- `"%d\n"` of `7` on `stderr`, and then `"ok"`. -/
theorem printf_runs_sample :
    printing.EachStep PrintsOwnOutput Console.initial
      [.fprintf stderr (some ⟨[0x25, 0x64, 0x0A], by decide⟩) [.word 7],
        .printf (some ⟨[0x6F, 0x6B], by decide⟩) []] := by
  apply printf_runs
  intro call mem
  rcases List.mem_pair.mp mem with rfl | rfl
  · exact ⟨[.number [0x37] (by decide), .text [0x0A]], ⟨_, rfl, rfl⟩, by decide⟩
  · exact ⟨[.text [0x6F], .text [0x6B]], ⟨_, rfl, rfl⟩, by decide⟩

/-- A call that prints `2 ^ 64` characters, none of them NUL, does not end its text. -/
theorem not_printsOwnOutput {c c' : Console} {call : PrintCall} {ps : List Piece}
    (puts : call.Puts ps) (wraps : 2 ^ 64 ≤ (complete ps).length) (noNul : 0 ∉ complete ps)
    (step : printing.step c call = .ok c') : ¬ PrintsOwnOutput c call := by
  obtain ⟨fmt, format, parsed⟩ := puts
  obtain ⟨ret, s, run, own⟩ := vsnprintf_wrapped c.printfBuffer parsed wraps
  intro ⟨ps', text, _, output, handsOver⟩
  have left := Console.printfBuffer_print ((printing_step_eq c format run).symm.trans step)
  have left' := Console.printfBuffer_print (handsOver.symm.trans step)
  have same : s.buf = text := left.symm.trans left'
  obtain ⟨k, inside, zero, -⟩ := output.ends
  have mem := own k inside
  rw [same, zero] at mem
  exact noNul mem

end Tyleros.Libc
