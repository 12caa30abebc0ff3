import Tyleros.Basic
import Tyleros.Lib.Overlay

/-!
# `vsnprintf`

`libc/stdio.cpp` with the `strrev` of `libc/string.cpp`. An argument is its 64-bit slot of the
`va_list`, with the string or the object behind it if it is a pointer to one; the strings and
what `%n` stores into do not overlap the buffer. The buffer is a function of the offset, and
`str` is an offset into it. Sizes and counters are 64-bit words, which wrap around.
-/

namespace Tyleros.Libc

/-! ## Strings and arguments -/

/-- The characters in front of the terminator. -/
structure CString where
  chars : List UInt8
  noNul : 0 ∉ chars
  deriving DecidableEq

/-- An argument of a variadic function. -/
inductive Arg where
  /-- An integer, or a pointer that is not followed. -/
  | word (bits : BitVec 64)
  | string (address : BitVec 64) (text : CString)
  | object (address : BitVec 64)
  deriving DecidableEq

/-- Its slot. -/
def Arg.bits : Arg → BitVec 64
  | .word bits => bits
  | .string address _ => address
  | .object address => address

/-- What makes a call undefined. -/
inductive Misuse where
  /-- The format is read behind its terminator. -/
  | formatOverrun
  /-- `va_arg` without an argument left. -/
  | noArgument
  | notAString
  | notAnObject
  deriving DecidableEq, Repr

/-- `va_arg`. -/
def vaArg : List Arg → Except Misuse (Arg × List Arg)
  | [] => .error .noArgument
  | arg :: args => .ok (arg, args)

/-- `va_arg(args, const char *)`, for a string that is read. -/
def vaArgString (args : List Arg) : Except Misuse (CString × List Arg) := do
  let (arg, args) ← vaArg args
  match arg with
  | .string _ text => .ok (text, args)
  | _ => .error .notAString

/-- `va_arg` with a pointer that is written through. -/
def vaArgObject (args : List Arg) : Except Misuse (BitVec 64 × List Arg) := do
  let (arg, args) ← vaArg args
  match arg with
  | .object address => .ok (address, args)
  | _ => .error .notAnObject

/-! ## `strrev` -/

/-- The loop of `strrev`; it ends after half of the length. -/
def strrevLoop : Nat → Nat → Nat → (Nat → UInt8) → (Nat → UInt8)
  | 0, _, _, buf => buf
  | fuel + 1, begin_, end_, buf =>
    if begin_ < end_ then
      let tmp := buf end_
      let buf := Function.update buf end_ (buf begin_)
      strrevLoop fuel (begin_ + 1) (end_ - 1) (Function.update buf begin_ tmp)
    else buf

/-- `strrev(src, len)` for a pointer that is not null. -/
def strrev (src len : Nat) (buf : Nat → UInt8) : Nat → UInt8 :=
  strrevLoop len src (src + len - 1) buf

/-! ## Output -/

/-- `%n` stores the lowest `size` bits of a counter. -/
structure Store where
  address : BitVec 64
  size : Nat
  value : Nat
  deriving DecidableEq

/-- The variables of `vsnprintf` that its lambdas share, and the memory it writes. -/
structure Out where
  /-- `none` is the null pointer. -/
  str : Option Nat
  bufferFull : Bool := false
  numChars : BitVec 64 := 0
  buf : Nat → UInt8
  stored : List Store := []

/-- `put_char`. -/
def putChar (bufSize : BitVec 64) (s : Out) (c : UInt8) : Out :=
  let s := { s with numChars := s.numChars + 1 }
  if bufSize ≤ s.numChars then { s with bufferFull := true }
  else
    match s.str with
    | none => s
    | some p => { s with buf := Function.update s.buf p c, str := some (p + 1) }

/-- The digit for a remainder, which is negative for the most negative number. -/
def digitOf (capitalize : Bool) (rem : Int) : UInt8 :=
  let startHexDigit : Nat := if capitalize then 0x41 else 0x61
  if rem > 9 then UInt8.ofInt (rem - 10 + startHexDigit) else UInt8.ofInt (rem + 0x30)

/-- The loop of `put_integer`. -/
def putDigits (bufSize : BitVec 64) (base : Nat) (capitalize pad0 : Bool) (maxDigits : Nat) :
    Nat → Int → Nat → Out → Out
  | 0, _, _, s => s
  | fuel + 1, value, numDigits, s =>
    if value ≠ 0 ∨ pad0 = true ∧ numDigits < maxDigits then
      putDigits bufSize base capitalize pad0 maxDigits fuel (value.tdiv base) (numDigits + 1)
        (putChar bufSize s (digitOf capitalize (value.tmod base)))
    else s

/-- At least as many rounds as a number has digits. -/
def MAX_ROUNDS : Nat := 64

/-- `-value` for an `int64_t`. -/
def negate (value : Int) : Int := (-value).bmod (2 ^ 64)

/-- The end of `put_integer`: the digits come with the lowest one first. -/
def reverseDigits (digitsStart : Option Nat) (numCharsBefore : BitVec 64) (s : Out) : Out :=
  if s.bufferFull then s
  else
    match s.str, digitsStart with
    | some _, some start =>
      { s with buf := strrev start ((s.numChars - numCharsBefore).setWidth 32).toInt.toNat s.buf }
    | _, _ => s

/-- `put_integer`. -/
def putInteger (bufSize : BitVec 64) (value : Int) (base : Nat) (capitalize isSigned : Bool)
    (maxDigits : Nat) (pad0 : Bool) (s : Out) : Out :=
  if value = 0 then putChar bufSize s 0x30
  else
    let isNegative := isSigned && decide (value < 0)
    let magnitude := if isNegative then negate value else value
    let t := putDigits bufSize base capitalize pad0 maxDigits MAX_ROUNDS magnitude 0 s
    let t := if isNegative then putChar bufSize t 0x2D else t
    reverseDigits s.str s.numChars t

/-! ## Conversion specifications -/

/-- `enum length`. -/
inductive Length where
  | none
  | longInt
  | longLongInt
  | shortInt
  | charInt
  | sizeInt
  deriving DecidableEq, Repr

/-- `signed_integer_arg_of_length`. -/
def signedIntegerArgOfLength (args : List Arg) (l : Length) : Except Misuse (Int × List Arg) := do
  let (arg, args) ← vaArg args
  match l with
  | .longLongInt | .longInt | .sizeInt => .ok (arg.bits.toInt, args)
  | .shortInt => .ok ((arg.bits.setWidth 16).toInt, args)
  | .charInt => .ok ((arg.bits.setWidth 8).toInt, args)
  | .none => .ok ((arg.bits.setWidth 32).toInt, args)

/-- `unsigned_integer_arg_of_length`. -/
def unsignedIntegerArgOfLength (args : List Arg) (l : Length) : Except Misuse (Int × List Arg) := do
  let (arg, args) ← vaArg args
  match l with
  | .longLongInt | .longInt | .sizeInt => .ok (arg.bits.toNat, args)
  | .shortInt => .ok ((arg.bits.setWidth 16).toNat, args)
  | .charInt => .ok ((arg.bits.setWidth 8).toNat, args)
  | .none => .ok ((arg.bits.setWidth 32).toNat, args)

/-- `std::numeric_limits<T>::digits10` of the type. -/
def Length.digits10 : Length → Nat
  | .none => 9
  | .longInt | .longLongInt => 18
  | .shortInt => 4
  | .charInt => 2
  | .sizeInt => 19

/-- Its `sizeof`. -/
def Length.sizeof : Length → Nat
  | .none => 4
  | .longInt | .longLongInt | .sizeInt => 8
  | .shortInt => 2
  | .charInt => 1

/-- `length_to_digits`. -/
def lengthToDigits (l : Length) (base : Nat) : Nat :=
  if base = 10 then l.digits10
  else if base = 16 then l.sizeof * 2
  else if base = 8 then l.sizeof * 4
  else 2 ^ 32 - 1

/-- `get_flags`: whether `pad0` is set, and the rest of the format. -/
def getFlags : List UInt8 → Bool × List UInt8
  | [] => (false, [])
  | c :: fmt => if c = 0x30 then (true, fmt) else (false, c :: fmt)

/-- The second character of a length: `twice` if it is the first one again. -/
def getLengthTwice (c : UInt8) (once twice : Length) : List UInt8 → Length × List UInt8
  | [] => (once, [])
  | d :: fmt => if d = c then (twice, fmt) else (once, d :: fmt)

/-- `get_length`. -/
def getLength : List UInt8 → Length × List UInt8
  | [] => (.none, [])
  | c :: fmt =>
    if c = 0x6C then getLengthTwice c .longInt .longLongInt fmt
    else if c = 0x68 then getLengthTwice c .shortInt .charInt fmt
    else if c = 0x7A then (.sizeInt, fmt)
    else (.none, c :: fmt)

/-- The cases that `%n` falls through from a length on, by the sizes they store. -/
def Length.storeSizes : Length → List Nat
  | .charInt => [8, 16, 64, 64, 64, 32]
  | .shortInt => [16, 64, 64, 64, 32]
  | .longInt => [64, 64, 64, 32]
  | .longLongInt => [64, 64, 32]
  | .sizeInt => [64, 32]
  | .none => [32]

/-- `%n`. -/
def storeCounts : List Nat → List Arg → Out → Except Misuse (List Arg × Out)
  | [], args, s => .ok (args, s)
  | size :: sizes, args, s => do
    let (address, args) ← vaArgObject args
    storeCounts sizes args
      { s with stored := s.stored ++ [⟨address, size, s.numChars.toNat % 2 ^ size⟩] }

/-- The cases of the `switch` over the conversion character. -/
inductive Conversion where
  | s | c | o | d | u | X | x | p | n
  deriving DecidableEq, Repr

def conversionOf (c : UInt8) : Option Conversion :=
  if c = 0x73 then some .s
  else if c = 0x63 then some .c
  else if c = 0x6F then some .o
  else if c = 0x69 ∨ c = 0x64 then some .d
  else if c = 0x75 then some .u
  else if c = 0x58 then some .X
  else if c = 0x78 then some .x
  else if c = 0x70 then some .p
  else if c = 0x6E then some .n
  else none

/-- A `case` with a call of `put_integer`. -/
def convertInteger (bufSize : BitVec 64) (integer : Int × List Arg) (base : Nat)
    (capitalize isSigned : Bool) (maxDigits : Nat) (pad0 : Bool) (s : Out) : List Arg × Out :=
  (integer.2, putInteger bufSize integer.1 base capitalize isSigned maxDigits pad0 s)

/-- The `switch` over the conversion character. -/
def convert (bufSize : BitVec 64) (l : Length) (pad0 : Bool) (args : List Arg) (s : Out) :
    Conversion → Except Misuse (List Arg × Out)
  | .s => do
    let (text, args) ← vaArgString args
    return (args, text.chars.foldl (putChar bufSize) s)
  | .c => do
    let (arg, args) ← vaArg args
    return (args, putChar bufSize s ⟨arg.bits.setWidth 8⟩)
  | .o => do
    let integer ← signedIntegerArgOfLength args l
    return convertInteger bufSize integer 8 false true (lengthToDigits l 8) pad0 s
  | .d => do
    let integer ← signedIntegerArgOfLength args l
    return convertInteger bufSize integer 10 false true (lengthToDigits l 10) pad0 s
  | .u => do
    let integer ← unsignedIntegerArgOfLength args l
    return convertInteger bufSize integer 10 false false (lengthToDigits l 10) pad0 s
  | .X => do
    let integer ← unsignedIntegerArgOfLength args l
    return convertInteger bufSize integer 16 true false (lengthToDigits l 16) pad0 s
  | .x => do
    let integer ← unsignedIntegerArgOfLength args l
    return convertInteger bufSize integer 16 false false (lengthToDigits l 16) pad0 s
  | .p => do
    let (arg, args) ← vaArg args
    return convertInteger bufSize (arg.bits.toNat, args) 16 false false 16 true s
  | .n => storeCounts l.storeSizes args s

/-! ## The loop over the format -/

/-- A conversion specification behind its `%`: the rest of the format, the arguments left
and the output. An unknown conversion character is skipped, the terminator is not. -/
def convertNext (bufSize : BitVec 64) (fmt : List UInt8) (args : List Arg) (s : Out) :
    Except Misuse (List UInt8 × List Arg × Out) :=
  let (pad0, fmt) := getFlags fmt
  let (l, fmt) := getLength fmt
  match fmt with
  | [] => .error .formatOverrun
  | c :: fmt =>
    match conversionOf c with
    | none => .ok (fmt, args, s)
    | some conversion => do
      let (args, s) ← convert bufSize l pad0 args s conversion
      return (fmt, args, s)

/-- One round for a character that is not the terminator. -/
def formatStep (bufSize : BitVec 64) (c : UInt8) (fmt : List UInt8) (args : List Arg) (s : Out) :
    Except Misuse (List UInt8 × List Arg × Out) :=
  if c ≠ 0x25 then .ok (fmt, args, putChar bufSize s c)
  else if fmt.head? = some 0x25 then .ok (fmt.tail, args, putChar bufSize s c)
  else convertNext bufSize fmt args s

/-- The loop. Every round takes a character at least, so that the length of the format bounds
the rounds. -/
def formatLoop (bufSize : BitVec 64) : Nat → List UInt8 → List Arg → Out → Except Misuse Out
  | 0, _, _, s => .ok s
  | _ + 1, [], _, s => .ok s
  | fuel + 1, c :: fmt, args, s => do
    let (fmt, args, s) ← formatStep bufSize c fmt args s
    formatLoop bufSize fuel fmt args s

/-- The end of `vsnprintf`. -/
def terminate (bufSize : BitVec 64) (s : Out) : Out :=
  match s.bufferFull, s.str with
  | false, some p => if 0 < bufSize then { s with buf := Function.update s.buf p 0 } else s
  | _, _ => s

/-- `vsnprintf(str, buf_size, fmt, args)`: what it returns, and memory. The bytes at `str`
are given, `none` for the null pointer. -/
def vsnprintf (str : Option (Nat → UInt8)) (bufSize : BitVec 64) (fmt : Option CString)
    (args : List Arg) : Except Misuse (Int × Out) :=
  let s : Out := { str := str.map fun _ => 0, buf := str.getD fun _ => 0 }
  match fmt with
  | none => .ok (-1, s)
  | some fmt => do
    let s ← formatLoop bufSize fmt.chars.length fmt.chars args s
    return ((s.numChars.setWidth 32).toInt, terminate bufSize s)

/-- `vsprintf(str, fmt, args)`. -/
def vsprintf (str : Option (Nat → UInt8)) (fmt : Option CString) (args : List Arg) :
    Except Misuse (Int × Out) :=
  vsnprintf str (BitVec.allOnes 64) fmt args

end Tyleros.Libc
