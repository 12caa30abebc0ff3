import Tyleros.Boot.Loader
import Tyleros.Lib.Overlay
import Tyleros.MemoryMap

/-!
# What the second stage asks of the machine

`boot/memory_map.asm` and `boot/a20.asm`. The BIOS is a parameter: what it answers to `int 0x12`,
and to each call of `int 0x15` with `ax = 0xE820`. `Reports` says which answers describe a list of
entries, and `buildMemoryMapEntry_spec` that `build_memory_map` then leaves this list in memory,
where `entryAt` reads it as `memory::early_init` does. `checkA20_spec` is about the test of the
address line A20, which writes to memory and restores it.
-/

namespace Tyleros.Boot

open Fat (readU32)
open MemoryMap (Entry)

/-! ## The BIOS -/

/-- An answer to `ax = 0xE820`, with the bytes that are written from `es:di` on. -/
structure E820 where
  carry : Bool
  eax : UInt32
  ebx : UInt32
  bytes : List UInt8

structure Bios where
  /-- `ax` after `int 0x12`, unless the carry flag is set. -/
  lowMemory : Option UInt16
  /-- The answer to a call, given how many there were before, and the value in `ebx`. -/
  e820 : UInt32 → UInt32 → E820

/-! ## `boot/memory_map.asm` -/

/-- `detect_low_memory`. -/
def detectLowMemory (bios : Bios) : Except Stop UInt32 :=
  match bios.lowMemory with
  | some ax => .ok (ax.toUInt32 <<< 10)
  | none => .error .hang

def SIZE_OF_MEMORY_MAP_ENTRY : UInt16 := 24

/-- `'PAMS'`. -/
def MEMORY_MAP_MAGIC : UInt32 := 0x534D4150

/-- The loop `.entry`, for at most `fuel` entries. -/
def buildMemoryMapEntry (bios : Bios) : Nat → UInt32 → UInt32 → UInt16 → Memory →
    Except Stop (UInt32 × Memory)
  | 0, _, _, _, _ => .error .hang
  | fuel + 1, ebp, ebx, di, mem =>
    let answer := bios.e820 ebp ebx
    let mem := overlay mem di.toNat answer.bytes
    if answer.carry then .error .hang
    else if answer.eax ≠ MEMORY_MAP_MAGIC then .error .hang
    else if answer.ebx = 0 then .ok (ebp + 1, mem)
    else buildMemoryMapEntry bios fuel (ebp + 1) answer.ebx (di + SIZE_OF_MEMORY_MAP_ENTRY) mem

/-- `build_memory_map`: the number of entries, and memory. -/
def buildMemoryMap (bios : Bios) (fuel : Nat) (ax : UInt16) (mem : Memory) :
    Except Stop (UInt32 × Memory) :=
  buildMemoryMapEntry bios fuel 0 0 ax mem

/-! ## `boot/a20.asm` -/

/-- `check_a20`, where `0xFFFF:0x0510` is one megabyte above `0x0000:0x0500`, or the same byte if
the address line is disabled. -/
def checkA20 (enabled : Bool) (mem : Memory) : Bool × Memory :=
  let di := 0x500
  let si := if enabled then 0x100500 else 0x500
  let first := mem di
  let second := mem si
  let mem := Function.update mem di 0x00
  let mem := Function.update mem si 0xFF
  let wrapped := mem di == 0xFF
  let mem := Function.update mem si second
  let mem := Function.update mem di first
  (!wrapped, mem)

/-- The test tells whether the line is enabled, and leaves memory as it was. -/
theorem checkA20_spec (enabled : Bool) (mem : Memory) : checkA20 enabled mem = (enabled, mem) := by
  unfold checkA20
  cases enabled with
  | false =>
      refine Prod.ext rfl (funext fun x => ?_)
      simp only [Function.update_apply]
      by_cases here : x = 0x500
      · rw [if_pos here, here]
      · rw [if_neg here]
        simp [here]
  | true =>
      refine Prod.ext rfl (funext fun x => ?_)
      simp only [Function.update_apply]
      by_cases here : x = 0x500
      · rw [if_pos here, here]
      · by_cases far : x = 0x100500
        · simp [far]
        · simp [here, far]

/-! ## The memory map -/

def readU64 (mem : Memory) (p : Nat) : UInt64 :=
  UInt64.ofNat ((readU32 mem p).toNat + 2 ^ 32 * (readU32 mem (p + 4)).toNat)

/-- The `memory_map_entry` at an address. -/
def entryAt (mem : Memory) (p : Nat) : Entry := ⟨readU64 mem p, readU64 mem (p + 8), readU32 mem (p + 16)⟩

/-- The bytes of an answer are an entry, maybe with its attributes. -/
structure Describes (bytes : List UInt8) (e : Entry) : Prop where
  length : 20 ≤ bytes.length ∧ bytes.length ≤ 24
  entry : entryAt (fun i => bytes.getD i 0) 0 = e

/-- From a call on, the answers report these entries, up to the last one. -/
def Reports (bios : Bios) : UInt32 → UInt32 → List Entry → Prop
  | _, _, [] => False
  | ebp, ebx, e :: rest =>
    (bios.e820 ebp ebx).carry = false ∧ (bios.e820 ebp ebx).eax = MEMORY_MAP_MAGIC ∧
      Describes (bios.e820 ebp ebx).bytes e ∧
      (rest = [] ∧ (bios.e820 ebp ebx).ebx = 0 ∨
        (bios.e820 ebp ebx).ebx ≠ 0 ∧ Reports bios (ebp + 1) (bios.e820 ebp ebx).ebx rest)

section Entries

variable {mem mem' : Memory} {p q : Nat}

theorem readU32_shift (same : ∀ i, i < 4 → mem' (q + i) = mem (p + i)) :
    readU32 mem' q = readU32 mem p := by
  unfold readU32 Fat.readU16
  have zero := same 0 (by decide)
  have three := same 3 (by decide)
  rw [Nat.add_zero, Nat.add_zero] at zero
  rw [zero, same 1 (by decide), same 2 (by decide), Nat.add_assoc, Nat.add_assoc]
  rw [show q + (2 + 1) = q + 3 from rfl, three]

/-- An entry is its 20 bytes, wherever they are. -/
theorem entryAt_shift (same : ∀ i, i < 20 → mem' (q + i) = mem (p + i)) :
    entryAt mem' q = entryAt mem p := by
  have word (o : Nat) (small : o + 4 ≤ 20) : readU32 mem' (q + o) = readU32 mem (p + o) := by
    apply readU32_shift
    intro i less
    rw [Nat.add_assoc, Nat.add_assoc]
    exact same (o + i) (by omega)
  have first := word 0 (by decide)
  rw [Nat.add_zero, Nat.add_zero] at first
  unfold entryAt readU64
  rw [first, word 4 (by decide), word 8 (by decide), word 16 (by decide), Nat.add_assoc q 8 4,
    word 12 (by decide), Nat.add_assoc p 8 4]

theorem entryAt_overlay (mem : Memory) {bytes : List UInt8} {e : Entry}
    (describes : Describes bytes e) : entryAt (overlay mem p bytes) p = e := by
  rw [← describes.entry]
  apply entryAt_shift
  intro i less
  have inside : i < bytes.length := by
    have := describes.length.1
    omega
  rw [overlay_getElem mem p inside, Nat.zero_add, List.getD_eq_getElem _ _ inside]

variable {bios : Bios} {entries : List Entry} {fuel : Nat} {ebp ebx : UInt32} {di : UInt16}

/-- The loop leaves the entries that are reported, one behind the other, and other memory as it
was. -/
theorem buildMemoryMapEntry_spec (reports : Reports bios ebp ebx entries)
    (room : di.toNat + 24 * entries.length ≤ 2 ^ 16) (enough : entries.length ≤ fuel)
    (mem : Memory) :
    ∃ mem', buildMemoryMapEntry bios fuel ebp ebx di mem =
        .ok (ebp + UInt32.ofNat entries.length, mem') ∧
      (∀ i e, entries[i]? = some e → entryAt mem' (di.toNat + 24 * i) = e) ∧
      ∀ x, x < di.toNat ∨ di.toNat + 24 * entries.length ≤ x → mem' x = mem x := by
  induction entries generalizing ebp ebx di mem fuel with
  | nil => cases reports
  | cons e rest ih =>
      obtain ⟨carry, magic, describes, next⟩ := reports
      have short := describes.length.2
      have here := entryAt_overlay (p := di.toNat) mem describes
      rw [List.length_cons] at room enough
      cases fuel with
      | zero => omega
      | succ fuel =>
          unfold buildMemoryMapEntry
          dsimp only
          rw [if_neg (by rw [carry]; decide), if_neg (not_not.mpr magic)]
          rcases next with ⟨rfl, last⟩ | ⟨more, reports⟩
          · rw [if_pos last]
            refine ⟨_, rfl, fun i e' found => ?_, fun x outside => ?_⟩
            · cases i with
              | zero =>
                  cases found
                  exact here
              | succ i => cases found
            · rw [List.length_singleton] at outside
              rcases outside with before | behind
              · exact overlay_of_lt before
              · exact overlay_of_le (by omega)
          · have nonempty : rest ≠ [] := by
              rintro rfl
              exact reports
            have some_ := List.length_pos_iff.mpr nonempty
            have step : (di + SIZE_OF_MEMORY_MAP_ENTRY).toNat = di.toNat + 24 := by
              rw [UInt16.toNat_add]
              show (di.toNat + 24) % 2 ^ 16 = _
              omega
            have room' : (di + SIZE_OF_MEMORY_MAP_ENTRY).toNat + 24 * rest.length ≤ 2 ^ 16 := by omega
            obtain ⟨mem', done, others, kept⟩ := ih reports room' (Nat.le_of_succ_le_succ enough)
              (overlay mem di.toNat (bios.e820 ebp ebx).bytes)
            rw [step] at others kept
            rw [if_neg more, done]
            refine ⟨mem', ?_, fun i e' found => ?_, fun x outside => ?_⟩
            · rw [List.length_cons, Nat.add_comm rest.length, UInt32.ofNat_add, UInt32.add_assoc]
              rfl
            · cases i with
              | zero =>
                  cases found
                  rw [Nat.mul_zero, Nat.add_zero, ← here]
                  apply entryAt_shift
                  intro i less
                  exact kept _ (Or.inl (by omega))
              | succ i =>
                  rw [← others i e' found]
                  congr 1
                  omega
            · rw [List.length_cons] at outside
              rw [kept x (by omega)]
              rcases outside with before | behind
              · exact overlay_of_lt before
              · exact overlay_of_le (by omega)

end Entries

end Tyleros.Boot
