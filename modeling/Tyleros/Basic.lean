import Mathlib.Algebra.Group.Int.Defs
import Mathlib.Algebra.Group.Nat.Defs
import Mathlib.Data.Nat.Basic

/-!
# Kernel outcomes and machine words

The kernel never throws: code that cannot go on calls `kstd::panic`, fails an
`assert` (whose handler calls `kstd::panic`), takes a processor exception, or
loops for ever. `Stop` names these ends, and a modelled function returns
`Except Stop α`.

Addresses and sizes are natural numbers below `2 ^ 64`; `add64` and `sub64` are
the wrapping operations of `uintptr_t` and `size_t`. The helpers of
`kernel/util.h` and the constants of `kernel/memory.h` follow.
-/

namespace Tyleros

/-- The ways in which kernel code ends without returning. -/
inductive Stop where
  /-- `assert` failed with this message. -/
  | assertion (message : String)
  /-- `kstd::panic` was called with this format string. -/
  | panic (message : String)
  /-- A processor exception, for example a division by zero. -/
  | fault (message : String)
  /-- A loop that never ends. -/
  | hang
  deriving DecidableEq, Repr

/-- `assert(condition && message)`. -/
def kassert (condition : Bool) (message : String) : Except Stop Unit :=
  if condition then .ok () else .error (.assertion message)

theorem kassert_true (message : String) : kassert true message = .ok () := rfl

theorem kassert_eq_ok {condition : Bool} {message : String} {u : Unit}
    (h : kassert condition message = .ok u) : condition = true := by
  cases condition with
  | true => rfl
  | false => cases h

/-- A bind that completes had a first part that completed. -/
theorem bind_eq_ok {ε α β : Type} {x : Except ε α} {f : α → Except ε β} {b : β}
    (h : x >>= f = .ok b) : ∃ a, x = .ok a ∧ f a = .ok b := by
  cases x with
  | error e => cases h
  | ok a => exact ⟨a, rfl, h⟩

/-- A bind does not end in an error in which neither of its parts ends. -/
theorem bind_ne_error {ε α β : Type} {x : Except ε α} {f : α → Except ε β} {e : ε}
    (first : x ≠ .error e) (rest : ∀ a, f a ≠ .error e) : (x >>= f) ≠ .error e := by
  cases x with
  | error e' => exact fun h => first (congrArg Except.error (Except.error.inj h))
  | ok a => exact rest a

theorem kassert_ne_error {condition : Bool} {message : String} {e : Stop}
    (other : e ≠ .assertion message) : kassert condition message ≠ .error e := by
  cases condition with
  | true => exact fun h => nomatch h
  | false => exact fun h => other (Except.error.inj h).symm

theorem ok_bind {ε α β : Type} (a : α) (f : α → Except ε β) : (.ok a >>= f) = f a := rfl

/-- The computation completes with a value that passes the test. -/
def completesWith {α : Type} (x : Except Stop α) (test : α → Bool) : Bool :=
  match x with
  | .ok a => test a
  | .error _ => false

theorem exists_of_completesWith {α : Type} {x : Except Stop α} {test : α → Bool}
    (h : completesWith x test = true) : ∃ a, x = .ok a ∧ test a = true := by
  cases x with
  | ok a => exact ⟨a, rfl, h⟩
  | error e => cases h

/-! ## Bytes -/

/-- What holds of the 256 bytes, one by one, holds of every byte. -/
theorem forall_byte {P : UInt8 → Prop} (all : ∀ n : Fin 256, P (UInt8.ofNat n)) (c : UInt8) :
    P c := by
  have here := all ⟨c.toNat, c.toNat_lt⟩
  rwa [UInt8.ofNat_toNat] at here

/-! ## 64-bit words -/

/-- `a + b` in `uintptr_t`. -/
def add64 (a b : Nat) : Nat := (a + b) % 2 ^ 64

/-- `a - b` in `uintptr_t`, for `b` below `2 ^ 64`. -/
def sub64 (a b : Nat) : Nat := (a + (2 ^ 64 - b)) % 2 ^ 64

theorem add64_lt (a b : Nat) : add64 a b < 2 ^ 64 := Nat.mod_lt _ (by decide)

theorem sub64_lt (a b : Nat) : sub64 a b < 2 ^ 64 := Nat.mod_lt _ (by decide)

theorem add64_eq {a b : Nat} (h : a + b < 2 ^ 64) : add64 a b = a + b := Nat.mod_eq_of_lt h

theorem sub64_eq {a b : Nat} (ha : a < 2 ^ 64) (h : b ≤ a) : sub64 a b = a - b := by
  unfold sub64
  omega

/-! ## `kernel/util.h` -/

/-- `kstd::align_to` for a nonzero alignment. -/
def alignTo (val align : Nat) : Nat := sub64 (add64 val align) 1 / align * align

/-- `kstd::div_ceil`. -/
def divCeil (a b : Nat) : Nat := a / b + if a % b ≠ 0 then 1 else 0

/-! ## `kernel/memory.h` -/

/-- `memory::PAGE_SIZE`. -/
def PAGE_SIZE : Nat := 0x1000

/-- `memory::KERNEL_VMA_OFFSET`. -/
def KERNEL_VMA_OFFSET : Nat := 0xFFFFFFFF80000000

/-- `memory::KERNEL_VMA_START`. -/
def KERNEL_VMA_START : Nat := 0xFFFFFFFF80100000

/-- `memory::KERNEL_VMA_END`. -/
def KERNEL_VMA_END : Nat := 0xFFFFFFFF80200000

end Tyleros
