import Tyleros.Basic
import Mathlib.Logic.Function.Basic

/-!
# The intrusive bitmap

`libadt/intrusive_bitmap.h`. `limbs` is the flexible array behind the header; its
first `numLimbs` elements belong to the bitmap. Indices and counters of type
`unsigned` and `uint32_t` are natural numbers below `2 ^ 32`, with the truncations
written out, and `int` results are integers.

The bound of `find_first_n` is `size()`, the size of the limbs in bytes, used as a
number of bits.
-/

namespace Tyleros.Pma

def BITS_PER_LIMB : Nat := 64

/-- `adt::bitmap`. -/
structure Bitmap where
  numLimbs : Nat
  totalSize : Nat
  limbs : Nat → BitVec 64

/-- An `unsigned` or `size_t` value converted to `int`. -/
def toInt (x : Nat) : Int := (BitVec.ofNat 32 x).toInt

/-- An `int` or 64-bit value converted to `unsigned`. -/
def toUnsigned (x : Int) : Nat := (x % 2 ^ 32).toNat

namespace Bitmap

/-- `make(out, num_bits)`, where the limbs hold `memory` before. -/
def make (memory : Nat → BitVec 64) (numBits : Nat) : Bitmap :=
  let numLimbs := divCeil numBits BITS_PER_LIMB % 2 ^ 32
  { numLimbs
    totalSize := numLimbs * 8 % 2 ^ 32
    limbs := fun i => if i < numLimbs then 0#64 else memory i }

/-- `size_required(num_bits)`. -/
def sizeRequired (numBits : Nat) : Nat := divCeil numBits BITS_PER_LIMB * 8 % 2 ^ 64

/-- The mask `1ULL << (idx % BITS_PER_LIMB)`. -/
def bitMask (idx : Nat) : BitVec 64 := 1#64 <<< (idx % BITS_PER_LIMB)

/-- `test(idx)`. -/
def test (b : Bitmap) (idx : Nat) : Bool :=
  b.limbs (idx / BITS_PER_LIMB) &&& bitMask idx != 0#64

/-- `set(idx)`. -/
def set (b : Bitmap) (idx : Nat) : Bitmap :=
  { b with
    limbs := Function.update b.limbs (idx / BITS_PER_LIMB)
      (b.limbs (idx / BITS_PER_LIMB) ||| bitMask idx) }

/-- `reset(idx)`. -/
def reset (b : Bitmap) (idx : Nat) : Bitmap :=
  { b with
    limbs := Function.update b.limbs (idx / BITS_PER_LIMB)
      (b.limbs (idx / BITS_PER_LIMB) &&& ~~~ bitMask idx) }

/-- The limb without a bit equal to `v`. -/
def emptyLimb (v : Bool) : BitVec 64 := if v then 0#64 else BitVec.allOnes 64

/-! ## `find_first` -/

/-- `1 << bit`: a shift of a 32-bit `int`, whose count the processor takes modulo
32, sign-extended to a limb. -/
def intMask (bit : Nat) : BitVec 64 := (1#32 <<< (bit % 32)).signExtend 64

/-- The first bit of a limb the inner loop of `find_first` stops at. -/
def firstBit (limb : BitVec 64) (v : Bool) : Option Nat :=
  (List.range BITS_PER_LIMB).find? fun bit => (limb &&& intMask bit != 0#64) == v

/-- The outer loop of `find_first` over the limbs still to visit. -/
def findFirstFrom (b : Bitmap) (v : Bool) : List Nat → Int
  | [] => -1
  | i :: rest =>
    if b.limbs i = emptyLimb v then findFirstFrom b v rest
    else match firstBit (b.limbs i) v with
      | some bit => toInt (BITS_PER_LIMB * i + bit)
      | none => findFirstFrom b v rest

/-- `find_first(v)`. -/
def findFirst (b : Bitmap) (v : Bool) : Int := findFirstFrom b v (List.range b.numLimbs)

/-! ## `find_first_n` -/

/-- The locals `num_contiguous` and `start_idx` of `find_first_n`. -/
structure Scan where
  numContiguous : Nat
  startIdx : Int
  deriving DecidableEq, Repr

/-- The inner loop of `find_first_n`, with `fuel` values of `j` left: the result
it returns, or the locals when it ends. -/
def scanBits (b : Bitmap) (v : Bool) (n i : Nat) : Nat → Nat → Scan → Int ⊕ Scan
  | 0, _, scan => .inr scan
  | fuel + 1, j, scan =>
    if i + j < b.totalSize then
      if b.test (i + j) != v then scanBits b v n i fuel (j + 1) ⟨0, -1⟩
      else
        let numContiguous := (scan.numContiguous + 1) % 2 ^ 32
        let startIdx := if scan.startIdx = -1 then toInt (i + j) else scan.startIdx
        if n ≤ numContiguous then .inl startIdx
        else scanBits b v n i fuel (j + 1) ⟨numContiguous, startIdx⟩
    else .inr scan

/-- The outer loop of `find_first_n`, which goes on for ever if it does not end
within `fuel` rounds. -/
def scanLimbs (b : Bitmap) (v : Bool) (n : Nat) : Nat → Nat → Scan → Except Stop Int
  | 0, _, _ => .error .hang
  | fuel + 1, i, scan =>
    if i < b.totalSize then
      if n ≤ scan.numContiguous then .ok scan.startIdx
      else if b.limbs (i / BITS_PER_LIMB) = emptyLimb v then
        scanLimbs b v n fuel ((i + BITS_PER_LIMB) % 2 ^ 32) ⟨0, -1⟩
      else if b.limbs (i / BITS_PER_LIMB) = ~~~ emptyLimb v then
        let last := i + (BITS_PER_LIMB - 1)
        scanLimbs b v n fuel ((i + BITS_PER_LIMB) % 2 ^ 32)
          ⟨(scan.numContiguous + BITS_PER_LIMB) % 2 ^ 32,
            if scan.startIdx = -1 then toInt last else scan.startIdx⟩
      else
        let j := i % BITS_PER_LIMB
        match scanBits b v n i (BITS_PER_LIMB - j) j scan with
        | .inl startIdx => .ok startIdx
        | .inr scan => scanLimbs b v n fuel ((i + (BITS_PER_LIMB - j)) % 2 ^ 32) scan
    else .ok (-1)

/-- `find_first_n(v, n)`. The search passes all limbs many times before it is taken
to go on for ever. -/
def findFirstN (b : Bitmap) (v : Bool) (n : Nat) : Except Stop Int :=
  scanLimbs b v (n % 2 ^ 32) (2 ^ 32) 0 ⟨0, -1⟩

end Bitmap

end Tyleros.Pma
