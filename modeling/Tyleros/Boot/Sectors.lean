import Tyleros.Boot.Loader

/-!
# Cylinders, heads and sectors

The boot loader translates the number of a sector in registers (`toChs`) and packs the
cylinder into two bytes, the kernel does it with integers (`lba_to_chs` of
`kernel/floppy.cpp`). `translate_spec` shows that the arithmetic of the loader is right as
long as the parts fit into their registers; but the loader clears the upper byte of the
number before it starts, so it reads sector `n` modulo 256 (`denotesSector_iff`).
-/

namespace Tyleros.Boot

/-! ## The loader -/

/-- The cylinder in `ch` and the two upper bits of `cl`. -/
def Chs.cylinder (r : Chs) : Nat := r.ch.toNat + r.cl.toNat / 64 * 256

/-- The sector in the lower bits of `cl`, counted from 1. -/
def Chs.sector (r : Chs) : Nat := r.cl.toNat % 64

/-- The number of the sector that the registers denote on a disk with this geometry. -/
def Chs.linear (r : Chs) (sectorsPerTrack heads : UInt16) : Nat :=
  (r.cylinder * heads.toNat + r.dh.toNat) * sectorsPerTrack.toNat + r.sector - 1

/-- The part of `toChs` behind `xor ch, ch`. -/
def translate (ax si di : UInt16) : Chs where
  ch := (ax / si / di).toUInt8
  cl := (((ax / si / di) >>> 2).toUInt8 &&& 0xC0) ||| (ax % si + 1).toUInt8
  dh := (ax / si % di).toUInt8

theorem toChs_eq (cx : UInt16) {si di : UInt16} (sectors : si ≠ 0) (heads : di ≠ 0) :
    toChs cx si di = .ok (translate (cx &&& 0xFF) si di) := by
  have divides : ¬ (si = 0 ∨ di = 0) := fun zero => zero.elim sectors heads
  unfold toChs
  dsimp only
  rw [if_neg divides]
  rfl

/-- The two upper bits of a cylinder and the sector share a byte. -/
theorem pack_cl {cylinder : UInt16} {sector : UInt8} (fits : cylinder.toNat < 1024)
    (small : sector.toNat < 64) :
    (((cylinder >>> 2).toUInt8 &&& 0xC0) ||| sector).toNat =
      cylinder.toNat / 256 * 64 + sector.toNat := by
  have upper : ∀ x : Fin 256, x.val &&& 0xC0 = 2 ^ 6 * (x.val / 64) := by decide +kernel
  have shifted : (cylinder >>> 2).toUInt8.toNat = cylinder.toNat / 4 := by
    rw [UInt16.toNat_toUInt8, UInt16.toNat_shiftRight]
    show cylinder.toNat >>> 2 % 256 = _
    rw [Nat.shiftRight_eq_div_pow]
    omega
  rw [UInt8.toNat_or, UInt8.toNat_and, shifted]
  have bits : cylinder.toNat / 4 &&& 0xC0 = 2 ^ 6 * (cylinder.toNat / 4 / 64) :=
    upper ⟨cylinder.toNat / 4, by omega⟩
  rw [show (0xC0 : UInt8).toNat = 0xC0 from rfl, bits, ← Nat.two_pow_add_eq_or_of_lt small]
  omega

/-- The translation is right wherever the head and the cylinder fit into the registers. -/
theorem translate_spec {ax si di : UInt16} (sectors : 1 ≤ si.toNat ∧ si.toNat ≤ 63)
    (head : ax.toNat / si.toNat % di.toNat < 256) (cylinder : ax.toNat / si.toNat / di.toNat < 1024) :
    (translate ax si di).cylinder = ax.toNat / si.toNat / di.toNat ∧
      (translate ax si di).dh.toNat = ax.toNat / si.toNat % di.toNat ∧
      (translate ax si di).sector = ax.toNat % si.toNat + 1 := by
  have rest : ax.toNat % si.toNat < si.toNat := Nat.mod_lt _ sectors.1
  have sector : (ax % si + 1).toUInt8.toNat = ax.toNat % si.toNat + 1 := by
    rw [UInt16.toNat_toUInt8, UInt16.toNat_add, UInt16.toNat_mod]
    show (ax.toNat % si.toNat + 1) % 65536 % 256 = _
    omega
  have quotient : (ax / si / di).toNat = ax.toNat / si.toNat / di.toNat := by
    rw [UInt16.toNat_div, UInt16.toNat_div]
  have packed : (translate ax si di).cl.toNat =
      (ax / si / di).toNat / 256 * 64 + (ax % si + 1).toUInt8.toNat :=
    pack_cl (by rw [quotient]; exact cylinder) (by rw [sector]; omega)
  rw [quotient, sector] at packed
  refine ⟨?_, ?_, ?_⟩
  · show (ax / si / di).toUInt8.toNat + _ / 64 * 256 = _
    rw [packed, UInt16.toNat_toUInt8, quotient]
    have small : ax.toNat % si.toNat + 1 < 64 := by omega
    omega
  · show (ax / si % di).toUInt8.toNat = _
    rw [UInt16.toNat_toUInt8, UInt16.toNat_mod, UInt16.toNat_div]
    exact Nat.mod_eq_of_lt head
  · show _ % 64 = _
    rw [packed]
    omega

/-- What is left of the number of the sector behind `xor ch, ch`. -/
theorem low_byte (cx : UInt16) : (cx &&& 0xFF).toNat = cx.toNat % 256 := by
  rw [UInt16.toNat_and]
  exact Nat.and_two_pow_sub_one_eq_mod cx.toNat 8

/-- The registers for a geometry: they are those of the number modulo 256. -/
theorem toChs_parts (cx : UInt16) {si di : UInt16} (sectors : 1 ≤ si.toNat ∧ si.toNat ≤ 63)
    (heads : 1 ≤ di.toNat) : ∃ r, toChs cx si di = .ok r ∧
      r.cylinder = cx.toNat % 256 / si.toNat / di.toNat ∧
      r.dh.toNat = cx.toNat % 256 / si.toNat % di.toNat ∧
      r.sector = cx.toNat % 256 % si.toNat + 1 := by
  have track : (cx &&& 0xFF).toNat / si.toNat < 256 := by
    rw [low_byte]
    exact Nat.lt_of_le_of_lt (Nat.div_le_self _ _) (Nat.mod_lt _ (by decide))
  have head := Nat.lt_of_le_of_lt (Nat.mod_le ((cx &&& 0xFF).toNat / si.toNat) di.toNat) track
  have cylinder := Nat.lt_of_le_of_lt (Nat.div_le_self ((cx &&& 0xFF).toNat / si.toNat) di.toNat) track
  refine ⟨_, toChs_eq cx ?_ ?_, ?_⟩
  · rintro rfl
    exact absurd sectors.1 (by decide)
  · rintro rfl
    exact absurd heads (by decide)
  · have parts := translate_spec sectors head (by omega)
    rwa [low_byte] at parts

/-- A quotient and a remainder, taken apart twice, give the number back. -/
theorem linear_parts (n s h : Nat) : (n / s / h * h + n / s % h) * s + (n % s + 1) - 1 = n := by
  rw [Nat.div_add_mod' (n / s) h, ← Nat.add_assoc, Nat.add_sub_cancel]
  exact Nat.div_add_mod' n s

/-! ## The kernel -/

def SECTORS_PER_HEAD : Int := 18

def HEADS : Int := 2

def SECTORS_PER_CYLINDER : Int := SECTORS_PER_HEAD * HEADS

/-- `CHS`. -/
structure KernelChs where
  cylinder : Int
  head : Int
  sector : Int
  deriving DecidableEq, Repr

/-- `lba_to_chs`, with the division of C++. -/
def lbaToChs (sector : Int) : KernelChs where
  cylinder := sector.tdiv SECTORS_PER_CYLINDER
  head := (sector.tmod SECTORS_PER_CYLINDER).tdiv SECTORS_PER_HEAD
  sector := (sector.tmod SECTORS_PER_CYLINDER).tmod SECTORS_PER_HEAD + 1

/-- The registers of the loader as the kernel has them. -/
def Chs.triple (r : Chs) : KernelChs := ⟨r.cylinder, r.dh.toNat, r.sector⟩

theorem lbaToChs_natCast (n : Nat) :
    lbaToChs n = ⟨(n / 36 : Nat), (n % 36 / 18 : Nat), (n % 36 % 18 + 1 : Nat)⟩ := rfl

/-- The kernel divides by a cylinder first, the loader by a track. -/
theorem lbaToChs_eq (n : Nat) : lbaToChs n = ⟨(n / 18 / 2 : Nat), (n / 18 % 2 : Nat), (n % 18 + 1 : Nat)⟩ := by
  have cylinder : n / 36 = n / 18 / 2 := by omega
  have head : n % 36 / 18 = n / 18 % 2 := by omega
  have sector : n % 36 % 18 = n % 18 := by omega
  rw [lbaToChs_natCast, cylinder, head, sector]

/-! ## Which sectors the loader reads -/

/-- The registers that are programmed for sector `cx` denote it, and on a floppy disk they
are the triple of the kernel. -/
def DenotesSector (cx si di : UInt16) : Prop :=
  ∃ r, toChs cx si di = .ok r ∧ r.linear si di = cx.toNat ∧
    (si = 18 → di = 2 → r.triple = lbaToChs cx.toNat)

/-- The loader programs the sector it is asked for exactly if its number fits in a byte,
with every geometry. -/
theorem denotesSector_iff (cx : UInt16) {si di : UInt16}
    (sectors : 1 ≤ si.toNat ∧ si.toNat ≤ 63) (heads : 1 ≤ di.toNat) :
    DenotesSector cx si di ↔ cx.toNat < 256 := by
  obtain ⟨r, programmed, cylinder, head, sector⟩ := toChs_parts cx sectors heads
  have linear : r.linear si di = cx.toNat % 256 := by
    unfold Chs.linear
    rw [cylinder, head, sector]
    exact linear_parts _ _ _
  constructor
  · rintro ⟨r', programmed', denotes, -⟩
    obtain rfl := Except.ok.inj (programmed.symm.trans programmed')
    rw [linear] at denotes
    omega
  · intro small
    have whole : cx.toNat % 256 = cx.toNat := Nat.mod_eq_of_lt small
    refine ⟨r, programmed, linear.trans whole, ?_⟩
    rintro rfl rfl
    rw [whole] at cylinder head sector
    unfold Chs.triple
    rw [cylinder, head, sector, lbaToChs_eq]
    rfl

/-- The last sector whose number fits in a byte, on a floppy disk. -/
theorem denotesSector_last : DenotesSector 255 18 2 :=
  (denotesSector_iff 255 (by decide) (by decide)).mpr (by decide)

/-- For sector 256 the registers are those of sector 0. -/
theorem denotesSector_fails : ¬ DenotesSector 256 18 2 ∧ toChs 256 18 2 = toChs 0 18 2 := by
  constructor
  · rintro ⟨r, programmed, denotes, -⟩
    obtain rfl : (⟨0, 1, 0⟩ : Chs) = r := Except.ok.inj programmed
    exact absurd denotes (by decide)
  · rfl

end Tyleros.Boot
