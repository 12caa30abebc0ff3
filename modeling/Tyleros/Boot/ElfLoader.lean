import Tyleros.Basic
import Mathlib.Logic.Function.Basic

/-!
# The boot loader's ELF loader

`boot/elf_loader.asm`. Registers are words of their width, and memory is indexed by 64-bit
addresses, which wrap around. The direction flag is clear. The code of the loader and the
page tables are apart from the memory that is modelled; its stack is part of it.

The type of a program header is a `uint32_t`, of which the loader compares the lower half.
`loads_iff` says what that means for the memory it leaves behind.
-/

namespace Tyleros.Boot.Elf

abbrev Memory := BitVec 64 → UInt8

/-! ## Operands in memory -/

/-- `word [address]`. -/
def readWord (mem : Memory) (address : BitVec 64) : BitVec 16 :=
  (mem (address + 1)).toBitVec ++ (mem address).toBitVec

/-- `dword [address]`. -/
def readDword (mem : Memory) (address : BitVec 64) : BitVec 32 :=
  readWord mem (address + 2) ++ readWord mem address

/-- `qword [address]`. -/
def readQword (mem : Memory) (address : BitVec 64) : BitVec 64 :=
  readDword mem (address + 4) ++ readDword mem address

/-- Byte `i` of a quadword. -/
def byteOf (value : BitVec 64) (i : Nat) : UInt8 := ⟨value.extractLsb' (8 * i) 8⟩

/-- `mov qword [address], value`. -/
def writeQword (mem : Memory) (address value : BitVec 64) : Memory :=
  fun x => if (x - address).toNat < 8 then byteOf value (x - address).toNat else mem x

/-- `rep stosb` with `al` in a byte and `rcx` rounds left. -/
def repStosb (al : UInt8) : Nat → BitVec 64 → Memory → Memory
  | 0, _, mem => mem
  | rcx + 1, rdi, mem => repStosb al rcx (rdi + 1) (Function.update mem rdi al)

/-- `rep movsb` with `rcx` rounds left. -/
def repMovsb : Nat → BitVec 64 → BitVec 64 → Memory → Memory
  | 0, _, _, mem => mem
  | rcx + 1, rsi, rdi, mem => repMovsb rcx (rsi + 1) (rdi + 1) (Function.update mem rdi (mem rsi))

/-! ## `load_elf_binary` -/

/-- `ELF_MAGIC`. -/
def ELF_MAGIC : BitVec 32 := 0x464C457F

/-- The body of `.load_program_header`, with the program header at `rbp`. -/
def loadProgramHeader (rsp rbp : BitVec 64) (mem : Memory) : Memory :=
  let ax := readWord mem rbp
  if ax ≠ 1 then mem
  else
    let r11 := readQword mem (rbp + 8)
    let r12 := readQword mem (rbp + 16)
    let r13 := readQword mem (rbp + 32)
    let r14 := readQword mem (rbp + 40)
    let mem := repStosb 0 r14.toNat r12 mem
    let r15 := readQword mem rsp + r11
    repMovsb r13.toNat r15 r12 mem

/-- The loop `.load_program_header`, with the rounds that are left. -/
def loadProgramHeaders (rsp r8 : BitVec 64) : Nat → BitVec 64 → Memory → Memory
  | 0, _, mem => mem
  | dx + 1, rbp, mem => loadProgramHeaders rsp r8 dx (rbp + r8) (loadProgramHeader rsp rbp mem)

/-- `dec dx` and `jnz` at the end of the loop. -/
def rounds (dx : BitVec 16) : Nat := if dx = 0 then 2 ^ 16 else dx.toNat

/-- `load_elf_binary`: the entry point in `rax`, and memory. Without the magic number it
halts for ever. -/
def loadElfBinary (rsi rsp : BitVec 64) (mem : Memory) : Except Stop (BitVec 64 × Memory) :=
  if readDword mem rsi ≠ ELF_MAGIC then .error .hang
  else
    let rsp := rsp - 8
    let mem := writeQword mem rsp rsi
    let rbp := rsi + readQword mem (rsi + 32)
    let r8 := (readWord mem (rsi + 54)).setWidth 64
    let mem := loadProgramHeaders rsp r8 (rounds (readWord mem (rsi + 56))) rbp mem
    let rsi := readQword mem rsp
    .ok (readQword mem (rsi + 0x18), mem)

/-! ## The fields of the image -/

/-- `x` is one of the `count` bytes from `start` on. -/
def InRange (x start : BitVec 64) (count : Nat) : Prop := (x - start).toNat < count

section Fields

variable (mem : Memory) (base : BitVec 64)

def e_entry : BitVec 64 := readQword mem (base + 0x18)
def e_phoff : BitVec 64 := readQword mem (base + 32)
def e_phentsize : Nat := (readWord mem (base + 54)).toNat
def e_phnum : Nat := (readWord mem (base + 56)).toNat

/-- Program header `k`. -/
def programHeader (k : Nat) : BitVec 64 :=
  base + e_phoff mem base + BitVec.ofNat 64 (k * e_phentsize mem base)

def p_type (k : Nat) : BitVec 32 := readDword mem (programHeader mem base k)
def p_offset (k : Nat) : BitVec 64 := readQword mem (programHeader mem base k + 8)
def p_vaddr (k : Nat) : BitVec 64 := readQword mem (programHeader mem base k + 16)
def p_filesz (k : Nat) : Nat := (readQword mem (programHeader mem base k + 32)).toNat
def p_memsz (k : Nat) : Nat := (readQword mem (programHeader mem base k + 40)).toNat

/-- Header `k` is one of a segment to load. -/
def PtLoad (k : Nat) : Prop := k < e_phnum mem base ∧ p_type mem base k = 1

/-- The loader takes header `k` for one of a segment to load. -/
def Taken (k : Nat) : Prop := k < e_phnum mem base ∧ readWord mem (programHeader mem base k) = 1

/-- The lower half of the type is 1, but not the type. -/
def Mistyped (k : Nat) : Prop := Taken mem base k ∧ p_type mem base k ≠ 1

/-- Byte `i` of segment `k`: of the file, or zero. -/
def content (k i : Nat) : UInt8 :=
  if i < p_filesz mem base k then mem (base + p_offset mem base k + BitVec.ofNat 64 i) else 0

end Fields

/-- An image of `size` bytes at `base`: its magic number, its program headers, of which
there is one at least, and the slot below `rsp`, which is not in the image. -/
structure Image (mem : Memory) (base rsp : BitVec 64) (size : Nat) : Prop where
  magic : readDword mem base = ELF_MAGIC
  nonempty : 0 < e_phnum mem base
  header : 64 ≤ size
  table : ∀ k, k < e_phnum mem base →
    (e_phoff mem base).toNat + k * e_phentsize mem base + 56 ≤ size
  stack : ∀ x, InRange x (rsp - 8) 8 → ¬ InRange x base size

/-- The segments of these headers lie in the image, and their targets apart from it, from
each other and from the slot below `rsp`. -/
structure Segments (mem : Memory) (base rsp : BitVec 64) (size : Nat) (S : Nat → Prop) : Prop where
  sizes : ∀ k, S k → p_filesz mem base k ≤ p_memsz mem base k
  source : ∀ k, S k → (p_offset mem base k).toNat + p_filesz mem base k ≤ size
  image : ∀ k, S k → ∀ x, InRange x (p_vaddr mem base k) (p_memsz mem base k) → ¬ InRange x base size
  stack : ∀ k, S k → ∀ x, InRange x (p_vaddr mem base k) (p_memsz mem base k) →
    ¬ InRange x (rsp - 8) 8
  disjoint : ∀ k l, S k → S l → k ≠ l → ∀ x, InRange x (p_vaddr mem base k) (p_memsz mem base k) →
    ¬ InRange x (p_vaddr mem base l) (p_memsz mem base l)

/-- What the loader is for: every segment to load is in its place, all other memory but the
slot below `rsp` is unchanged, and the entry point is returned. -/
structure Loads (mem : Memory) (base rsp : BitVec 64) (entry : BitVec 64) (mem' : Memory) : Prop where
  completes : loadElfBinary base rsp mem = .ok (entry, mem')
  loaded : ∀ k, PtLoad mem base k → ∀ i, i < p_memsz mem base k →
    mem' (p_vaddr mem base k + BitVec.ofNat 64 i) = content mem base k i
  frame : ∀ x, (∀ k, PtLoad mem base k → ¬ InRange x (p_vaddr mem base k) (p_memsz mem base k)) →
    ¬ InRange x (rsp - 8) 8 → mem' x = mem x
  entryPoint : entry = e_entry mem base

/-! ## The string instructions -/

theorem repStosb_apply (al : UInt8) {rcx : Nat} (bound : rcx ≤ 2 ^ 64) (rdi : BitVec 64)
    (mem : Memory) (x : BitVec 64) :
    repStosb al rcx rdi mem x = if (x - rdi).toNat < rcx then al else mem x := by
  induction rcx generalizing rdi mem with
  | zero => rfl
  | succ rcx ih =>
      rw [repStosb, ih (by omega), Function.update_apply]
      by_cases first : x = rdi
      · subst first
        rw [if_pos rfl, ite_self, if_pos (by bv_omega)]
      · have next : (x - (rdi + 1)).toNat < rcx ↔ (x - rdi).toNat < rcx + 1 := by bv_omega
        rw [if_neg first]
        exact if_congr next rfl rfl

/-- Bytes that are not overwritten on the way are copied. -/
theorem repMovsb_apply {rcx : Nat} (bound : rcx ≤ 2 ^ 64) (rsi rdi : BitVec 64) (mem : Memory)
    (apart : ∀ i, i < rcx → ¬ InRange (rsi + BitVec.ofNat 64 i) rdi rcx) (x : BitVec 64) :
    repMovsb rcx rsi rdi mem x =
      if (x - rdi).toNat < rcx then mem (rsi + (x - rdi)) else mem x := by
  induction rcx generalizing rsi rdi mem with
  | zero => rfl
  | succ rcx ih =>
      have apart' : ∀ i, i < rcx → ¬ InRange (rsi + 1 + BitVec.ofNat 64 i) (rdi + 1) rcx := by
        intro i hi inside
        refine apart (i + 1) (by omega) ?_
        unfold InRange at *
        bv_omega
      have source : rsi + 1 + (x - (rdi + 1)) = rsi + (x - rdi) := by bv_omega
      rw [repMovsb, ih (by omega) _ _ _ apart', Function.update_apply, Function.update_apply, source]
      by_cases first : x = rdi
      · subst first
        rw [if_pos rfl, if_neg (by bv_omega), if_pos (by bv_omega), BitVec.sub_self, BitVec.add_zero]
      · have next : (x - (rdi + 1)).toNat < rcx ↔ (x - rdi).toNat < rcx + 1 := by bv_omega
        rw [if_neg first]
        refine ite_congr (propext next) (fun inside => if_neg fun overwritten => ?_) fun _ => rfl
        refine apart (x - rdi).toNat inside ?_
        unfold InRange
        rw [BitVec.ofNat_toNat, BitVec.setWidth_eq, overwritten]
        bv_omega

/-- Both together load a segment whose bytes are apart from its target. -/
theorem load_apply {filesz memsz : Nat} (word : memsz ≤ 2 ^ 64) (sizes : filesz ≤ memsz)
    (source target : BitVec 64) (mem : Memory)
    (apart : ∀ i, i < filesz → ¬ InRange (source + BitVec.ofNat 64 i) target memsz) (x : BitVec 64) :
    repMovsb filesz source target (repStosb 0 memsz target mem) x =
      if (x - target).toNat < memsz then
        if (x - target).toNat < filesz then mem (source + (x - target)) else 0
      else mem x := by
  have cleared := repStosb_apply 0 word target mem
  rw [repMovsb_apply (Nat.le_trans sizes word) source target _
    fun i hi inside => apart i hi (Nat.lt_of_lt_of_le inside sizes)]
  by_cases inFile : (x - target).toNat < filesz
  · have other := apart _ inFile
    rw [BitVec.ofNat_toNat, BitVec.setWidth_eq] at other
    rw [if_pos inFile, if_pos inFile, if_pos (Nat.lt_of_lt_of_le inFile sizes), cleared]
    exact if_neg other
  · rw [if_neg inFile, if_neg inFile, cleared]

theorem readWord_congr {mem mem' : Memory} {a : BitVec 64}
    (same : ∀ x, InRange x a 2 → mem' x = mem x) : readWord mem' a = readWord mem a := by
  unfold readWord
  rw [same a (by unfold InRange; bv_omega), same (a + 1) (by unfold InRange; bv_omega)]

theorem readDword_congr {mem mem' : Memory} {a : BitVec 64}
    (same : ∀ x, InRange x a 4 → mem' x = mem x) : readDword mem' a = readDword mem a := by
  have low : ∀ x, InRange x a 2 → InRange x a 4 := by
    unfold InRange
    omega
  have high : ∀ x, InRange x (a + 2) 2 → InRange x a 4 := by
    unfold InRange
    bv_omega
  unfold readDword
  rw [readWord_congr fun x inside => same x (low x inside),
    readWord_congr fun x inside => same x (high x inside)]

theorem readQword_congr {mem mem' : Memory} {a : BitVec 64}
    (same : ∀ x, InRange x a 8 → mem' x = mem x) : readQword mem' a = readQword mem a := by
  have low : ∀ x, InRange x a 4 → InRange x a 8 := by
    unfold InRange
    omega
  have high : ∀ x, InRange x (a + 4) 4 → InRange x a 8 := by
    unfold InRange
    bv_omega
  unfold readQword
  rw [readDword_congr fun x inside => same x (low x inside),
    readDword_congr fun x inside => same x (high x inside)]

/-- What was pushed is read back. -/
theorem readQword_writeQword (mem : Memory) (a v : BitVec 64) :
    readQword (writeQword mem a v) a = v := by
  have byte : ∀ o, o < 8 → writeQword mem a v (a + BitVec.ofNat 64 o) = byteOf v o := by
    intro o small
    have offset : (a + BitVec.ofNat 64 o - a).toNat = o := by bv_omega
    unfold writeQword
    rw [offset, if_pos small]
  have zero : writeQword mem a v a = byteOf v 0 := by simpa using byte 0 (by decide)
  have two : writeQword mem a v (a + 2) = byteOf v 2 := byte 2 (by decide)
  have four : writeQword mem a v (a + 4) = byteOf v 4 := byte 4 (by decide)
  have one : writeQword mem a v (a + 1) = byteOf v 1 := byte 1 (by decide)
  have three : writeQword mem a v (a + (2 + 1)) = byteOf v 3 := byte 3 (by decide)
  have five : writeQword mem a v (a + (4 + 1)) = byteOf v 5 := byte 5 (by decide)
  have six : writeQword mem a v (a + (4 + 2)) = byteOf v 6 := byte 6 (by decide)
  have seven : writeQword mem a v (a + (4 + (2 + 1))) = byteOf v 7 := byte 7 (by decide)
  unfold readQword readDword readWord
  simp only [BitVec.add_assoc]
  rw [zero, one, two, three, four, five, six, seven]
  unfold byteOf
  apply BitVec.eq_of_getLsbD_eq
  intro i hi
  -- bit `i` is bit `i % 8` of byte `i / 8`
  have bit : ∀ o j, j < 8 → 8 * o + j = i →
      (decide (j < 8) && v.getLsbD (8 * o + j)) = v.getLsbD i := by
    intro o j small index
    rw [decide_eq_true small, Bool.true_and, index]
  simp only [BitVec.getLsbD_append, BitVec.getLsbD_extractLsb']
  repeat' split
  all_goals exact bit _ _ (by omega) (by omega)

/-! ## One program header -/

section Run

variable {mem mem' : Memory} {base rsp : BitVec 64} {size : Nat}

/-- Memory after the first `m` program headers: the image and the slot are as they were, and
the segments taken so far are loaded. -/
structure Loaded (mem : Memory) (base rsp : BitVec 64) (size m : Nat) (mem' : Memory) : Prop where
  image : ∀ x, InRange x base size → mem' x = mem x
  slot : readQword mem' (rsp - 8) = base
  taken : ∀ k, Taken mem base k → k < m → ∀ i, i < p_memsz mem base k →
    mem' (p_vaddr mem base k + BitVec.ofNat 64 i) = content mem base k i
  frame : ∀ x, (∀ k, Taken mem base k → k < m →
    ¬ InRange x (p_vaddr mem base k) (p_memsz mem base k)) → ¬ InRange x (rsp - 8) 8 → mem' x = mem x

/-- Fields of the image are read from the image. -/
theorem inRange_image {o : BitVec 64} {count : Nat} (inside : o.toNat + count ≤ size)
    {x : BitVec 64} (mem : InRange x (base + o) count) : InRange x base size := by
  unfold InRange at *
  bv_omega

/-- The fields of a program header lie in the image. -/
theorem Image.field (image : Image mem base rsp size) {k : Nat} (hk : k < e_phnum mem base)
    {o : BitVec 64} {count : Nat} (small : o.toNat + count ≤ 56) {x : BitVec 64}
    (inside : InRange x (programHeader mem base k + o) count) : InRange x base size := by
  have table := image.table k hk
  have address : programHeader mem base k + o =
      base + BitVec.ofNat 64 ((e_phoff mem base).toNat + k * e_phentsize mem base + o.toNat) := by
    unfold programHeader
    rw [BitVec.ofNat_add, BitVec.ofNat_add, BitVec.ofNat_toNat, BitVec.ofNat_toNat,
      BitVec.setWidth_eq, BitVec.setWidth_eq, BitVec.add_assoc, BitVec.add_assoc, BitVec.add_assoc]
  rw [address] at inside
  refine inRange_image ?_ inside
  rw [BitVec.toNat_ofNat]
  have := Nat.mod_le ((e_phoff mem base).toNat + k * e_phentsize mem base + o.toNat) (2 ^ 64)
  omega

/-- While the image is unchanged the loader reads its fields. -/
theorem Image.fields (image : Image mem base rsp size)
    (same : ∀ x, InRange x base size → mem' x = mem x) {k : Nat} (hk : k < e_phnum mem base) :
    readWord mem' (programHeader mem base k) = readWord mem (programHeader mem base k) ∧
      ∀ o : BitVec 64, o.toNat + 8 ≤ 56 → readQword mem' (programHeader mem base k + o) =
        readQword mem (programHeader mem base k + o) := by
  constructor
  · have small : (0 : BitVec 64).toNat + 2 ≤ 56 := by decide
    refine readWord_congr fun x inside => same x (image.field hk small ?_)
    rwa [show programHeader mem base k + 0 = programHeader mem base k from BitVec.add_zero _]
  · exact fun o small => readQword_congr fun x inside => same x (image.field hk small inside)

/-- What the body does to memory for a header that is taken. -/
theorem loadProgramHeader_apply {m : Nat} (image : Image mem base rsp size)
    (segments : Segments mem base rsp size (Taken mem base)) (loaded : Loaded mem base rsp size m mem')
    (taken : Taken mem base m) (x : BitVec 64) :
    loadProgramHeader (rsp - 8) (programHeader mem base m) mem' x =
      if (x - p_vaddr mem base m).toNat < p_memsz mem base m then
        content mem base m (x - p_vaddr mem base m).toNat
      else mem' x := by
  obtain ⟨type, fields⟩ := image.fields loaded.image taken.1
  have word : p_memsz mem base m ≤ 2 ^ 64 := Nat.le_of_lt (BitVec.isLt _)
  have sizes := segments.sizes m taken
  have inImage : ∀ i, i < p_filesz mem base m →
      InRange (base + p_offset mem base m + BitVec.ofNat 64 i) base size := by
    intro i hi
    refine inRange_image (o := p_offset mem base m) (segments.source m taken) ?_
    unfold InRange
    bv_omega
  -- the start of the file is still in its slot
  have start : readQword (repStosb 0 (p_memsz mem base m) (p_vaddr mem base m) mem') (rsp - 8) =
      base := by
    refine (readQword_congr fun x inside => ?_).trans loaded.slot
    rw [repStosb_apply 0 word]
    exact if_neg fun overwritten => segments.stack m taken x overwritten inside
  have body : loadProgramHeader (rsp - 8) (programHeader mem base m) mem' =
      repMovsb (p_filesz mem base m) (base + p_offset mem base m) (p_vaddr mem base m)
        (repStosb 0 (p_memsz mem base m) (p_vaddr mem base m) mem') := by
    unfold loadProgramHeader
    rw [type, taken.2, fields 8 (by decide), fields 16 (by decide), fields 32 (by decide),
      fields 40 (by decide)]
    unfold p_filesz p_offset p_vaddr p_memsz at *
    dsimp only
    rw [if_neg (not_not.mpr rfl), start]
  rw [body, load_apply word sizes _ _ _ fun i hi inside =>
    segments.image m taken _ inside (inImage i hi)]
  refine if_congr Iff.rfl ?_ rfl
  unfold content
  refine ite_congr rfl (fun inFile => ?_) fun _ => rfl
  have inside := inImage _ inFile
  rw [BitVec.ofNat_toNat, BitVec.setWidth_eq] at inside ⊢
  exact loaded.image _ inside

/-- A program header that is not taken is skipped, and a segment is loaded. -/
theorem Loaded.step {m : Nat} (image : Image mem base rsp size)
    (segments : Segments mem base rsp size (Taken mem base)) (loaded : Loaded mem base rsp size m mem')
    (hm : m < e_phnum mem base) :
    Loaded mem base rsp size (m + 1)
      (loadProgramHeader (rsp - 8) (programHeader mem base m) mem') := by
  by_cases taken : Taken mem base m
  · have after := loadProgramHeader_apply image segments loaded taken
    have outside : ∀ x, ¬ InRange x (p_vaddr mem base m) (p_memsz mem base m) →
        loadProgramHeader (rsp - 8) (programHeader mem base m) mem' x = mem' x := fun x other =>
      (after x).trans (if_neg other)
    refine ⟨fun x inside => ?_, ?_, fun k taken' hk i hi => ?_, fun x other slot => ?_⟩
    · rw [outside x fun overwritten => segments.image m taken x overwritten inside]
      exact loaded.image x inside
    · refine (readQword_congr fun x inside => ?_).trans loaded.slot
      exact outside x fun overwritten => segments.stack m taken x overwritten inside
    · have word : p_memsz mem base k < 2 ^ 64 := BitVec.isLt _
      have index : (p_vaddr mem base k + BitVec.ofNat 64 i - p_vaddr mem base k).toNat = i := by
        bv_omega
      by_cases same : k = m
      · subst same
        rw [after, index, if_pos hi]
      · have inside : InRange (p_vaddr mem base k + BitVec.ofNat 64 i) (p_vaddr mem base k)
            (p_memsz mem base k) := by
          unfold InRange
          rwa [index]
        rw [outside _ (segments.disjoint k m taken' taken same _ inside)]
        exact loaded.taken k taken' (by omega) i hi
    · rw [outside x (other m taken (Nat.lt_succ_self m))]
      exact loaded.frame x (fun k taken' hk => other k taken' (Nat.lt_succ_of_lt hk)) slot
  · have type := (image.fields loaded.image hm).1
    have skipped : loadProgramHeader (rsp - 8) (programHeader mem base m) mem' = mem' := by
      unfold loadProgramHeader
      dsimp only
      rw [type]
      exact if_pos fun one => taken ⟨hm, one⟩
    have before : ∀ k, Taken mem base k → k < m + 1 → k < m := by
      intro k taken' hk
      refine Nat.lt_of_le_of_ne (Nat.le_of_lt_succ hk) ?_
      rintro rfl
      exact taken taken'
    rw [skipped]
    exact ⟨loaded.image, loaded.slot, fun k taken' hk => loaded.taken k taken' (before k taken' hk),
      fun x outside => loaded.frame x fun k taken' hk => outside k taken' (Nat.lt_succ_of_lt hk)⟩

/-- The loop loads the segments of the headers that are left. -/
theorem Loaded.run {n m : Nat} (image : Image mem base rsp size)
    (segments : Segments mem base rsp size (Taken mem base)) (loaded : Loaded mem base rsp size m mem')
    (all : m + n = e_phnum mem base) :
    Loaded mem base rsp size (m + n) (loadProgramHeaders (rsp - 8)
      ((readWord mem (base + 54)).setWidth 64) n (programHeader mem base m) mem') := by
  induction n generalizing m mem' with
  | zero => exact loaded
  | succ n ih =>
      have next : programHeader mem base m + (readWord mem (base + 54)).setWidth 64 =
          programHeader mem base (m + 1) := by
        unfold programHeader
        rw [Nat.add_mul, Nat.one_mul, BitVec.ofNat_add, BitVec.add_assoc]
        unfold e_phentsize
        rw [BitVec.ofNat_toNat]
      rw [loadProgramHeaders, next, ← Nat.succ_add_eq_add_succ]
      exact ih (loaded.step image segments (by omega)) (by omega)

/-- `load_elf_binary` loads everything that it takes for a segment. -/
theorem loadElfBinary_loaded (image : Image mem base rsp size)
    (segments : Segments mem base rsp size (Taken mem base)) :
    ∃ mem', loadElfBinary base rsp mem = .ok (e_entry mem base, mem') ∧
      Loaded mem base rsp size (e_phnum mem base) mem' := by
  have pushed : Loaded mem base rsp size 0 (writeQword mem (rsp - 8) base) := by
    refine ⟨fun x inside => ?_, readQword_writeQword mem (rsp - 8) base, fun k _ hk => by omega,
      fun x _ other => if_neg other⟩
    exact if_neg fun slot => image.stack x slot inside
  have header : ∀ {mem'' : Memory}, (∀ x, InRange x base size → mem'' x = mem x) →
      ∀ o : BitVec 64, o.toNat + 8 ≤ 64 → readQword mem'' (base + o) = readQword mem (base + o) :=
    fun same o small => readQword_congr fun x inside =>
      same x (inRange_image (Nat.le_trans small image.header) inside)
  have header' : ∀ o : BitVec 64, o.toNat + 2 ≤ 64 →
      readWord (writeQword mem (rsp - 8) base) (base + o) = readWord mem (base + o) :=
    fun o small => readWord_congr fun x inside =>
      pushed.image x (inRange_image (Nat.le_trans small image.header) inside)
  have count : rounds (readWord mem (base + 56)) = e_phnum mem base := by
    have nonempty := image.nonempty
    unfold e_phnum at nonempty
    refine if_neg fun zero => ?_
    rw [zero] at nonempty
    exact absurd nonempty (by decide)
  have first : programHeader mem base 0 = base + readQword mem (base + 32) := by
    unfold programHeader
    rw [Nat.zero_mul]
    exact BitVec.add_zero _
  have loaded := pushed.run image segments (Nat.zero_add _)
  rw [Nat.zero_add, first] at loaded
  refine ⟨_, ?_, loaded⟩
  unfold loadElfBinary
  rw [if_neg (not_not.mpr image.magic)]
  dsimp only
  rw [header pushed.image 32 (by decide), header' 54 (by decide), header' 56 (by decide), count,
    loaded.slot, header loaded.image 0x18 (by decide)]
  rfl

/-- The lower half of the type of a segment to load. -/
theorem PtLoad.taken {k : Nat} (load : PtLoad mem base k) : Taken mem base k := by
  refine ⟨load.1, ?_⟩
  have type := load.2
  unfold p_type readDword at type
  apply BitVec.eq_of_getLsbD_eq
  intro i hi
  have bit := congrArg (fun w => BitVec.getLsbD w i) type
  rw [BitVec.getLsbD_append, if_pos hi] at bit
  have same : ∀ i : Fin 16, (1#32).getLsbD i = (1#16).getLsbD i := by decide
  rw [bit]
  exact same ⟨i, hi⟩

/-- Only the targets of headers with another type decide whether the loader does its work:
they must hold already what it loads there. -/
theorem loads_of_taken (image : Image mem base rsp size)
    (segments : Segments mem base rsp size (Taken mem base)) :
    (∃ entry mem', Loads mem base rsp entry mem') ↔
      ∀ k, Mistyped mem base k → ∀ i, i < p_memsz mem base k →
        mem (p_vaddr mem base k + BitVec.ofNat 64 i) = content mem base k i := by
  obtain ⟨mem', completes, loaded⟩ := loadElfBinary_loaded image segments
  constructor
  · rintro ⟨entry, mem'', completes', -, frame, -⟩ k ⟨taken, other⟩ i hi
    obtain rfl : mem'' = mem' := by
      rw [completes] at completes'
      exact ((Prod.mk.inj (Except.ok.inj completes')).2).symm
    have inside : InRange (p_vaddr mem base k + BitVec.ofNat 64 i) (p_vaddr mem base k)
        (p_memsz mem base k) := by
      have word : p_memsz mem base k < 2 ^ 64 := BitVec.isLt _
      unfold InRange
      bv_omega
    rw [← loaded.taken k taken taken.1 i hi]
    refine (frame _ (fun l load => ?_) (segments.stack k taken _ inside)).symm
    have different : k ≠ l := by
      rintro rfl
      exact other load.2
    exact segments.disjoint k l taken load.taken different _ inside
  · intro already
    refine ⟨_, mem', completes, fun k load => loaded.taken k load.taken load.1,
      fun x outside slot => ?_, rfl⟩
    by_cases target : ∃ k, Taken mem base k ∧ InRange x (p_vaddr mem base k) (p_memsz mem base k)
    · obtain ⟨k, taken, inside⟩ := target
      have mistyped : Mistyped mem base k := ⟨taken, fun type => outside k ⟨taken.1, type⟩ inside⟩
      have address : p_vaddr mem base k + BitVec.ofNat 64 (x - p_vaddr mem base k).toNat = x := by
        bv_omega
      have before := already k mistyped _ inside
      have after := loaded.taken k taken taken.1 _ inside
      rw [address] at before after
      exact after.trans before.symm
    · exact loaded.frame x (fun k taken _ inside => target ⟨k, taken, inside⟩) slot

end Run

/-- Without a mistyped header the loader does its work. With mistyped headers whose targets
are as those of segments should be, it does so exactly if they are loaded already. -/
theorem loads_iff (mem : Memory) (base rsp : BitVec 64) (size : Nat) (image : Image mem base rsp size)
    (segments : Segments mem base rsp size (PtLoad mem base)) :
    ((∀ k, ¬ Mistyped mem base k) → ∃ entry mem', Loads mem base rsp entry mem') ∧
      (Segments mem base rsp size (Taken mem base) →
        ((∃ entry mem', Loads mem base rsp entry mem') ↔
          ∀ k, Mistyped mem base k → ∀ i, i < p_memsz mem base k →
            mem (p_vaddr mem base k + BitVec.ofNat 64 i) = content mem base k i)) := by
  refine ⟨fun typed => ?_, loads_of_taken image⟩
  have load : ∀ k, Taken mem base k → PtLoad mem base k := fun k taken =>
    ⟨taken.1, by_contra fun other => typed k ⟨taken, other⟩⟩
  have taken : Segments mem base rsp size (Taken mem base) :=
    ⟨fun k h => segments.sizes k (load k h), fun k h => segments.source k (load k h),
      fun k h => segments.image k (load k h), fun k h => segments.stack k (load k h),
      fun k l h h' => segments.disjoint k l (load k h) (load l h')⟩
  exact (loads_of_taken image taken).mpr fun k mistyped => absurd mistyped (typed k)

/-- Memory with an image at `0x1000`: one program header with a segment of two bytes for
`0x5000`, one of which is the last byte of the file. Its type is 1, or `0x10001`. -/
def sampleMemory (mistyped : Bool) : Memory := fun x =>
  let file : List UInt8 :=
    -- magic number, entry point 0x5000, program header at 64, one of 56 bytes
    [0x7F, 0x45, 0x4C, 0x46, 2, 1, 1, 0, 0, 0, 0, 0, 0, 0, 0, 0, 2, 0, 0x3E, 0, 1, 0, 0, 0,
      0, 0x50, 0, 0, 0, 0, 0, 0, 64, 0, 0, 0, 0, 0, 0, 0, 0, 0, 0, 0, 0, 0, 0, 0,
      0, 0, 0, 0, 64, 0, 56, 0, 1, 0, 0, 0, 0, 0, 0, 0,
      -- type, flags, offset 120, addresses 0x5000, sizes 1 and 2, alignment
      1, 0, if mistyped then 1 else 0, 0, 5, 0, 0, 0, 120, 0, 0, 0, 0, 0, 0, 0, 0, 0x50, 0, 0, 0, 0, 0, 0,
      0, 0x50, 0, 0, 0, 0, 0, 0, 1, 0, 0, 0, 0, 0, 0, 0, 2, 0, 0, 0, 0, 0, 0, 0, 1, 0, 0, 0, 0, 0, 0, 0,
      0xF4]
  file.getD (x - 0x1000).toNat 0xFF

/-- The fields of the image, but the type. -/
theorem sampleMemory_fields (mistyped : Bool) :
    e_phnum (sampleMemory mistyped) 0x1000 = 1 ∧ e_phoff (sampleMemory mistyped) 0x1000 = 64 ∧
      p_vaddr (sampleMemory mistyped) 0x1000 0 = 0x5000 ∧ p_offset (sampleMemory mistyped) 0x1000 0 = 120 ∧
      p_filesz (sampleMemory mistyped) 0x1000 0 = 1 ∧ p_memsz (sampleMemory mistyped) 0x1000 0 = 2 := by
  cases mistyped <;> decide +kernel

theorem sampleMemory_image (mistyped : Bool) : Image (sampleMemory mistyped) 0x1000 0x8000 121 := by
  obtain ⟨phnum, phoff, -⟩ := sampleMemory_fields mistyped
  refine ⟨by cases mistyped <;> decide +kernel, by omega, by decide, fun k hk => ?_, fun x => ?_⟩
  · obtain rfl : k = 0 := by omega
    rw [phoff, Nat.zero_mul]
    decide
  · unfold InRange
    bv_omega

theorem sampleMemory_segments (mistyped : Bool) {S : Nat → Prop} (only : ∀ k, S k → k = 0) :
    Segments (sampleMemory mistyped) 0x1000 0x8000 121 S := by
  obtain ⟨-, -, vaddr, offset, filesz, memsz⟩ := sampleMemory_fields mistyped
  refine ⟨fun k h => ?_, fun k h => ?_, fun k h x => ?_, fun k h x => ?_, fun k l h h' different => ?_⟩
  · rw [only k h, filesz, memsz]
    decide
  · rw [only k h, filesz, offset]
    decide
  · rw [only k h, vaddr, memsz]
    unfold InRange
    bv_omega
  · rw [only k h, vaddr, memsz]
    unfold InRange
    bv_omega
  · exact absurd ((only k h).trans (only l h').symm) different

/-- With the type 1 the segment is loaded. -/
theorem sample_loads : ∃ entry mem', Loads (sampleMemory false) 0x1000 0x8000 entry mem' := by
  have only : ∀ k, k < e_phnum (sampleMemory false) 0x1000 → k = 0 := fun k hk => by
    rw [(sampleMemory_fields false).1] at hk
    omega
  refine (loads_iff _ _ _ 121 (sampleMemory_image false)
    (sampleMemory_segments false fun k load => only k load.1)).1 fun k mistyped => mistyped.2 ?_
  rw [only k mistyped.1.1]
  decide +kernel

/-- With the type `0x10001` it is loaded, too, over memory that belongs to no segment. -/
theorem sample_overwritten :
    Image (sampleMemory true) 0x1000 0x8000 121 ∧
      Segments (sampleMemory true) 0x1000 0x8000 121 (PtLoad (sampleMemory true) 0x1000) ∧
        ¬ ∃ entry mem', Loads (sampleMemory true) 0x1000 0x8000 entry mem' := by
  have only : ∀ k, k < e_phnum (sampleMemory true) 0x1000 → k = 0 := fun k hk => by
    rw [(sampleMemory_fields true).1] at hk
    omega
  refine ⟨sampleMemory_image true, sampleMemory_segments true fun k load => only k load.1, ?_⟩
  rintro ⟨entry, mem', completes, -, frame, -⟩
  have unchanged := frame 0x5001 (fun k load _ => ?_) (by unfold InRange; decide)
  · have zero : completesWith (loadElfBinary 0x1000 0x8000 (sampleMemory true))
        (fun r => r.2 0x5001 == 0) = true := by decide +kernel
    rw [completes, completesWith, beq_iff_eq] at zero
    have before : sampleMemory true 0x5001 ≠ 0 := by decide +kernel
    exact before (unchanged.symm.trans zero)
  · have type := load.2
    rw [only k load.1] at type
    exact absurd type (by decide +kernel)

end Tyleros.Boot.Elf
