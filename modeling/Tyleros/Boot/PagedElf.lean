import Tyleros.Boot.ElfLoader
import Tyleros.Boot.MappedRanges
import Tyleros.Lib.AddressSpace

/-!
# The ELF loader behind the page tables

`load_elf_binary` runs in long mode: every byte it reads or writes goes through the page tables
that `map_contiguous_pages` has built, and these are in the memory it writes to. `Code` has its
instructions as loads and stores.

* `run_loadElfBinary`: in flat memory the instructions do what `loadElfBinary` says.
* `within_loadElfBinary`: they touch the image, the slot on the stack and the targets of the
  segments, and nothing else.
* `loadElfBinary_translated`: so, through any translation that is one-to-one there and keeps its
  tables elsewhere, the segments arrive in their places.
-/

namespace Tyleros.Boot.Elf

open Lib (MemProgram flatBus translatedBus Placed Shows)

/-! ## The instructions -/

/-- Code in long mode. -/
abbrev Code (α : Type) := MemProgram (BitVec 64) UInt8 Stop α

namespace Code

def loadByte (address : BitVec 64) : Code UInt8 := .load address .ret

def storeByte (address : BitVec 64) (value : UInt8) : Code Unit := .store address value (.ret ())

/-- `word [address]`. -/
def readWord (address : BitVec 64) : Code (BitVec 16) := do
  let low ← loadByte address
  let high ← loadByte (address + 1)
  return high.toBitVec ++ low.toBitVec

/-- `dword [address]`. -/
def readDword (address : BitVec 64) : Code (BitVec 32) := do
  let low ← readWord address
  let high ← readWord (address + 2)
  return high ++ low

/-- `qword [address]`. -/
def readQword (address : BitVec 64) : Code (BitVec 64) := do
  let low ← readDword address
  let high ← readDword (address + 4)
  return high ++ low

/-- The first `count` bytes of `mov qword [address], value`. -/
def writeBytes (address value : BitVec 64) : Nat → Code Unit
  | 0 => return ()
  | count + 1 => do
    writeBytes address value count
    storeByte (address + BitVec.ofNat 64 count) (byteOf value count)

/-- `rep stosb` with `rcx` rounds left. -/
def repStosb (al : UInt8) : Nat → BitVec 64 → Code Unit
  | 0, _ => return ()
  | rcx + 1, rdi => do
    storeByte rdi al
    repStosb al rcx (rdi + 1)

/-- `rep movsb` with `rcx` rounds left. -/
def repMovsb : Nat → BitVec 64 → BitVec 64 → Code Unit
  | 0, _, _ => return ()
  | rcx + 1, rsi, rdi => do
    let byte ← loadByte rsi
    storeByte rdi byte
    repMovsb rcx (rsi + 1) (rdi + 1)

/-- The body of `.load_program_header`. -/
def loadProgramHeader (rsp rbp : BitVec 64) : Code Unit := do
  let ax ← readWord rbp
  if ax ≠ 1 then return ()
  else do
    let r11 ← readQword (rbp + 8)
    let r12 ← readQword (rbp + 16)
    let r13 ← readQword (rbp + 32)
    let r14 ← readQword (rbp + 40)
    repStosb 0 r14.toNat r12
    let start ← readQword rsp
    repMovsb r13.toNat (start + r11) r12

/-- The loop `.load_program_header`. -/
def loadProgramHeaders (rsp r8 : BitVec 64) : Nat → BitVec 64 → Code Unit
  | 0, _ => return ()
  | dx + 1, rbp => do
    loadProgramHeader rsp rbp
    loadProgramHeaders rsp r8 dx (rbp + r8)

/-- `load_elf_binary`. -/
def loadElfBinary (rsi rsp : BitVec 64) : Code (BitVec 64) := do
  let eax ← readDword rsi
  if eax ≠ ELF_MAGIC then .stop .hang
  else do
    let rsp := rsp - 8
    writeBytes rsp rsi 8
    let offset ← readQword (rsi + 32)
    let r8 ← readWord (rsi + 54)
    let dx ← readWord (rsi + 56)
    loadProgramHeaders rsp (r8.setWidth 64) (rounds dx) (rsi + offset)
    let rsi ← readQword rsp
    readQword (rsi + 0x18)

end Code

/-! ## In flat memory -/

section Flat

variable (mem : Memory)

theorem run_readWord (a : BitVec 64) :
    (Code.readWord a).run flatBus mem = .ok (readWord mem a, mem) := rfl

theorem run_readDword (a : BitVec 64) :
    (Code.readDword a).run flatBus mem = .ok (readDword mem a, mem) := rfl

theorem run_readQword (a : BitVec 64) :
    (Code.readQword a).run flatBus mem = .ok (readQword mem a, mem) := rfl

theorem run_writeBytes (a value : BitVec 64) {count : Nat} (few : count ≤ 8) :
    (Code.writeBytes a value count).run flatBus mem = .ok ((), fun x =>
      if (x - a).toNat < count then byteOf value (x - a).toNat else mem x) := by
  induction count with
  | zero => rfl
  | succ count ih =>
      unfold Code.writeBytes
      rw [MemProgram.run_bind_of_ok _ (ih (by omega))]
      refine congrArg Except.ok (congrArg (Prod.mk ()) (funext fun x => ?_))
      rw [Function.update_apply]
      by_cases here : x = a + BitVec.ofNat 64 count
      · have offset : (x - a).toNat = count := by bv_omega
        rw [if_pos here, if_pos (by omega), offset]
      · have other : (x - a).toNat ≠ count := by bv_omega
        rw [if_neg here]
        exact if_congr (by omega) rfl rfl

theorem run_writeQword (a value : BitVec 64) :
    (Code.writeBytes a value 8).run flatBus mem = .ok ((), writeQword mem a value) :=
  run_writeBytes mem a value (Nat.le_refl 8)

theorem run_repStosb (al : UInt8) (rcx : Nat) (rdi : BitVec 64) :
    (Code.repStosb al rcx rdi).run flatBus mem = .ok ((), repStosb al rcx rdi mem) := by
  induction rcx generalizing rdi mem with
  | zero => rfl
  | succ rcx ih => exact ih _ _

theorem run_repMovsb (rcx : Nat) (rsi rdi : BitVec 64) :
    (Code.repMovsb rcx rsi rdi).run flatBus mem = .ok ((), repMovsb rcx rsi rdi mem) := by
  induction rcx generalizing rsi rdi mem with
  | zero => rfl
  | succ rcx ih => exact ih _ _ _

theorem run_loadProgramHeader (rsp rbp : BitVec 64) :
    (Code.loadProgramHeader rsp rbp).run flatBus mem = .ok ((), loadProgramHeader rsp rbp mem) := by
  unfold Code.loadProgramHeader loadProgramHeader
  rw [MemProgram.run_bind_of_ok _ (run_readWord mem rbp)]
  dsimp only
  split
  · rfl
  · rw [MemProgram.run_bind_of_ok _ (run_readQword mem _),
      MemProgram.run_bind_of_ok _ (run_readQword mem _),
      MemProgram.run_bind_of_ok _ (run_readQword mem _),
      MemProgram.run_bind_of_ok _ (run_readQword mem _),
      MemProgram.run_bind_of_ok _ (run_repStosb mem _ _ _),
      MemProgram.run_bind_of_ok _ (run_readQword _ _)]
    exact run_repMovsb _ _ _ _

theorem run_loadProgramHeaders (rsp r8 : BitVec 64) (dx : Nat) (rbp : BitVec 64) :
    (Code.loadProgramHeaders rsp r8 dx rbp).run flatBus mem =
      .ok ((), loadProgramHeaders rsp r8 dx rbp mem) := by
  induction dx generalizing rbp mem with
  | zero => rfl
  | succ dx ih =>
      unfold Code.loadProgramHeaders loadProgramHeaders
      rw [MemProgram.run_bind_of_ok _ (run_loadProgramHeader mem rsp rbp)]
      exact ih _ _

/-- In flat memory the instructions are the function. -/
theorem run_loadElfBinary (rsi rsp : BitVec 64) :
    (Code.loadElfBinary rsi rsp).run flatBus mem = loadElfBinary rsi rsp mem := by
  unfold Code.loadElfBinary loadElfBinary
  rw [MemProgram.run_bind_of_ok _ (run_readDword mem rsi)]
  split
  · rfl
  · dsimp only
    rw [MemProgram.run_bind_of_ok _ (run_writeQword mem _ _),
      MemProgram.run_bind_of_ok _ (run_readQword _ _),
      MemProgram.run_bind_of_ok _ (run_readWord _ _),
      MemProgram.run_bind_of_ok _ (run_readWord _ _),
      MemProgram.run_bind_of_ok _ (run_loadProgramHeaders _ _ _ _ _),
      MemProgram.run_bind_of_ok _ (run_readQword _ _)]
    exact run_readQword _ _

end Flat

/-! ## What the instructions touch -/

/-- The image, the slot below `rsp`, and the targets of the headers that the loader takes. -/
def Footprint (mem : Memory) (base rsp : BitVec 64) (size : Nat) (x : BitVec 64) : Prop :=
  InRange x base size ∨ InRange x (rsp - 8) 8 ∨
    ∃ k, Taken mem base k ∧ InRange x (p_vaddr mem base k) (p_memsz mem base k)

section Within

variable {mem mem' : Memory} {D : BitVec 64 → Prop} {a : BitVec 64}

theorem within_loadByte (here : D a) : (Code.loadByte a).Within flatBus D mem :=
  ⟨here, fun _ _ => trivial⟩

theorem within_storeByte {value : UInt8} (here : D a) :
    (Code.storeByte a value).Within flatBus D mem :=
  ⟨here, fun _ _ => trivial⟩

theorem within_readWord (inside : ∀ x, InRange x a 2 → D x) :
    (Code.readWord a).Within flatBus D mem := by
  apply MemProgram.within_bind (within_loadByte (inside a (by unfold InRange; bv_omega)))
  intro low m _
  apply MemProgram.within_bind (within_loadByte (inside (a + 1) (by unfold InRange; bv_omega)))
  intro high m _
  exact MemProgram.within_pure _ _

theorem within_readDword (inside : ∀ x, InRange x a 4 → D x) :
    (Code.readDword a).Within flatBus D mem := by
  apply MemProgram.within_bind (within_readWord fun x here => inside x ?_)
  · intro low m _
    apply MemProgram.within_bind (within_readWord fun x here => inside x ?_)
    · intro high m _
      exact MemProgram.within_pure _ _
    · unfold InRange at *
      bv_omega
  · unfold InRange at *
    omega

theorem within_readQword (inside : ∀ x, InRange x a 8 → D x) :
    (Code.readQword a).Within flatBus D mem := by
  apply MemProgram.within_bind (within_readDword fun x here => inside x ?_)
  · intro low m _
    apply MemProgram.within_bind (within_readDword fun x here => inside x ?_)
    · intro high m _
      exact MemProgram.within_pure _ _
    · unfold InRange at *
      bv_omega
  · unfold InRange at *
    omega

theorem within_writeBytes {value : BitVec 64} {count : Nat} (few : count ≤ 8)
    (inside : ∀ x, InRange x a 8 → D x) : (Code.writeBytes a value count).Within flatBus D mem := by
  induction count with
  | zero => exact MemProgram.within_pure _ _
  | succ count ih =>
      apply MemProgram.within_bind (ih (by omega))
      intro _ m _
      apply within_storeByte
      apply inside
      unfold InRange
      bv_omega

theorem within_repStosb {al : UInt8} {rcx : Nat} (bound : rcx ≤ 2 ^ 64) {rdi : BitVec 64}
    (inside : ∀ x, InRange x rdi rcx → D x) : (Code.repStosb al rcx rdi).Within flatBus D mem := by
  induction rcx generalizing rdi mem with
  | zero => exact MemProgram.within_pure _ _
  | succ rcx ih =>
      apply MemProgram.within_bind (within_storeByte (inside rdi ?_))
      · intro _ m _
        apply ih (by omega)
        intro x here
        apply inside
        unfold InRange at *
        bv_omega
      · unfold InRange
        bv_omega

theorem within_repMovsb {rcx : Nat} (bound : rcx ≤ 2 ^ 64) {rsi rdi : BitVec 64}
    (source : ∀ i, i < rcx → D (rsi + BitVec.ofNat 64 i))
    (inside : ∀ x, InRange x rdi rcx → D x) : (Code.repMovsb rcx rsi rdi).Within flatBus D mem := by
  induction rcx generalizing rsi rdi mem with
  | zero => exact MemProgram.within_pure _ _
  | succ rcx ih =>
      have first := source 0 (Nat.succ_pos rcx)
      rw [BitVec.add_zero] at first
      apply MemProgram.within_bind (within_loadByte first)
      intro byte m _
      apply MemProgram.within_bind (within_storeByte (inside rdi ?_))
      · intro _ m _
        apply ih (by omega)
        · intro i less
          have next : rsi + 1 + BitVec.ofNat 64 i = rsi + BitVec.ofNat 64 (i + 1) := by bv_omega
          rw [next]
          exact source (i + 1) (by omega)
        · intro x here
          apply inside
          unfold InRange at *
          bv_omega
      · unfold InRange
        bv_omega

end Within

section Footprint

variable {mem mem' : Memory} {base rsp : BitVec 64} {size m : Nat}

theorem footprint_slot (x : BitVec 64) (inside : InRange x (rsp - 8) 8) :
    Footprint mem base rsp size x := Or.inr (Or.inl inside)

/-- Fields of the image are part of it. -/
theorem footprint_image {o : BitVec 64} {count : Nat} (small : o.toNat + count ≤ size)
    (x : BitVec 64) (inside : InRange x (base + o) count) : Footprint mem base rsp size x :=
  Or.inl (inRange_image small inside)

theorem Image.footprint (image : Image mem base rsp size) (hm : m < e_phnum mem base)
    {o : BitVec 64} {count : Nat} (small : o.toNat + count ≤ 56) (x : BitVec 64)
    (inside : InRange x (programHeader mem base m + o) count) : Footprint mem base rsp size x :=
  Or.inl (image.field hm small inside)

/-- While a target is cleared, the start of the file stays in its slot. -/
theorem Loaded.slot_cleared (segments : Segments mem base rsp size (Taken mem base))
    (loaded : Loaded mem base rsp size m mem') (taken : Taken mem base m) :
    readQword (repStosb 0 (p_memsz mem base m) (p_vaddr mem base m) mem') (rsp - 8) = base := by
  have word : p_memsz mem base m ≤ 2 ^ 64 := Nat.le_of_lt (BitVec.isLt _)
  refine (readQword_congr fun x inside => ?_).trans loaded.slot
  rw [repStosb_apply 0 word]
  exact if_neg fun overwritten => segments.stack m taken x overwritten inside

theorem within_loadProgramHeader (image : Image mem base rsp size)
    (segments : Segments mem base rsp size (Taken mem base))
    (loaded : Loaded mem base rsp size m mem') (hm : m < e_phnum mem base) :
    (Code.loadProgramHeader (rsp - 8) (programHeader mem base m)).Within flatBus
      (Footprint mem base rsp size) mem' := by
  obtain ⟨type, fields⟩ := image.fields loaded.image hm
  have field (o : BitVec 64) (small : o.toNat + 8 ≤ 56) :
      (Code.readQword (programHeader mem base m + o)).Within flatBus
        (Footprint mem base rsp size) mem' := within_readQword (image.footprint hm small)
  unfold Code.loadProgramHeader
  refine MemProgram.within_bind_of_ok (within_readWord fun x inside => ?_) (run_readWord _ _) ?_
  · have small : (0 : BitVec 64).toNat + 2 ≤ 56 := by decide
    apply image.footprint hm small x
    rwa [show programHeader mem base m + 0 = programHeader mem base m from BitVec.add_zero _]
  · rw [type]
    split
    · exact MemProgram.within_pure _ _
    · next one =>
        have taken : Taken mem base m := ⟨hm, not_not.mp one⟩
        have target (x : BitVec 64) (inside : InRange x (p_vaddr mem base m) (p_memsz mem base m)) :
            Footprint mem base rsp size x := Or.inr (Or.inr ⟨m, taken, inside⟩)
        have sizes := segments.sizes m taken
        have word : p_memsz mem base m ≤ 2 ^ 64 := Nat.le_of_lt (BitVec.isLt _)
        refine MemProgram.within_bind_of_ok (field 8 (by decide)) (run_readQword _ _) ?_
        refine MemProgram.within_bind_of_ok (field 16 (by decide)) (run_readQword _ _) ?_
        refine MemProgram.within_bind_of_ok (field 32 (by decide)) (run_readQword _ _) ?_
        refine MemProgram.within_bind_of_ok (field 40 (by decide)) (run_readQword _ _) ?_
        rw [fields 8 (by decide), fields 16 (by decide), fields 32 (by decide),
          fields 40 (by decide)]
        refine MemProgram.within_bind_of_ok (within_repStosb word target) (run_repStosb _ _ _ _) ?_
        refine MemProgram.within_bind_of_ok (within_readQword footprint_slot) (run_readQword _ _) ?_
        have start := loaded.slot_cleared segments taken
        unfold p_memsz p_vaddr at start
        rw [start]
        apply within_repMovsb (sizes.trans word)
        · intro i less
          apply footprint_image (segments.source m taken)
          unfold InRange
          unfold p_offset
          bv_omega
        · exact fun x inside => target x (lt_of_lt_of_le inside sizes)

/-- The loop stays in the footprint from any header on. -/
theorem within_loadProgramHeaders {n : Nat} (image : Image mem base rsp size)
    (segments : Segments mem base rsp size (Taken mem base))
    (loaded : Loaded mem base rsp size m mem') (all : m + n = e_phnum mem base) :
    (Code.loadProgramHeaders (rsp - 8) ((readWord mem (base + 54)).setWidth 64) n
      (programHeader mem base m)).Within flatBus (Footprint mem base rsp size) mem' := by
  induction n generalizing m mem' with
  | zero => exact MemProgram.within_pure _ _
  | succ n ih =>
      have next : programHeader mem base m + (readWord mem (base + 54)).setWidth 64 =
          programHeader mem base (m + 1) := by
        unfold programHeader
        rw [Nat.add_mul, Nat.one_mul, BitVec.ofNat_add, BitVec.add_assoc]
        unfold e_phentsize
        rw [BitVec.ofNat_toNat]
      unfold Code.loadProgramHeaders
      refine MemProgram.within_bind_of_ok
        (within_loadProgramHeader image segments loaded (by omega)) (run_loadProgramHeader _ _ _) ?_
      rw [next]
      exact ih (loaded.step image segments (by omega)) (by omega)

/-- The loader stays in its footprint. -/
theorem within_loadElfBinary (image : Image mem base rsp size)
    (segments : Segments mem base rsp size (Taken mem base)) :
    (Code.loadElfBinary base rsp).Within flatBus (Footprint mem base rsp size) mem := by
  have pushed : Loaded mem base rsp size 0 (writeQword mem (rsp - 8) base) := by
    refine ⟨fun x inside => ?_, readQword_writeQword mem (rsp - 8) base, fun k _ hk => by omega,
      fun x _ other => if_neg other⟩
    exact if_neg fun slot => image.stack x slot inside
  have header := image.header
  have field (o : BitVec 64) (count : Nat) (small : o.toNat + count ≤ 64) (x : BitVec 64)
      (inside : InRange x (base + o) count) : Footprint mem base rsp size x :=
    footprint_image (small.trans header) x inside
  have word (o : BitVec 64) (small : o.toNat + 2 ≤ 64) :
      readWord (writeQword mem (rsp - 8) base) (base + o) = readWord mem (base + o) :=
    readWord_congr fun x inside => pushed.image x (inRange_image (small.trans header) inside)
  have table : readQword (writeQword mem (rsp - 8) base) (base + 32) = readQword mem (base + 32) :=
    readQword_congr fun x inside =>
      pushed.image x (inRange_image (Nat.le_trans (by decide) header) inside)
  have count : rounds (readWord mem (base + 56)) = e_phnum mem base := by
    have nonempty := image.nonempty
    unfold e_phnum at nonempty
    refine if_neg fun zero => ?_
    rw [zero] at nonempty
    exact absurd nonempty (by decide)
  have first : base + readQword mem (base + 32) = programHeader mem base 0 := by
    unfold programHeader
    rw [Nat.zero_mul]
    exact (BitVec.add_zero _).symm
  have loaded := pushed.run image segments (Nat.zero_add _)
  rw [Nat.zero_add] at loaded
  unfold Code.loadElfBinary
  refine MemProgram.within_bind_of_ok (within_readDword fun x inside => ?_) (run_readDword _ _) ?_
  · apply field 0 4 (by decide)
    rwa [show base + 0 = base from BitVec.add_zero _]
  · rw [if_neg (not_not.mpr image.magic)]
    dsimp only
    refine MemProgram.within_bind_of_ok (within_writeBytes (Nat.le_refl 8) footprint_slot)
      (run_writeQword _ _ _) ?_
    refine MemProgram.within_bind_of_ok (within_readQword (field 32 8 (by decide)))
      (run_readQword _ _) ?_
    refine MemProgram.within_bind_of_ok (within_readWord (field 54 2 (by decide)))
      (run_readWord _ _) ?_
    refine MemProgram.within_bind_of_ok (within_readWord (field 56 2 (by decide)))
      (run_readWord _ _) ?_
    rw [table, word 54 (by decide), word 56 (by decide), count, first]
    refine MemProgram.within_bind_of_ok
      (within_loadProgramHeaders image segments pushed (Nat.zero_add _))
      (run_loadProgramHeaders _ _ _ _ _) ?_
    refine MemProgram.within_bind_of_ok (within_readQword footprint_slot) (run_readQword _ _) ?_
    rw [loaded.slot]
    exact within_readQword (field 0x18 8 (by decide))

end Footprint

/-! ## Behind a translation -/

section Translated

variable {mem : Memory} {base rsp : BitVec 64} {size : Nat} {place : BitVec 64 → Nat}
  {translate : (Nat → UInt8) → BitVec 64 → Option Nat} {kept : Nat → Prop} {m₀ : Nat → UInt8}

/-- Through a translation that places the footprint one-to-one outside of its own tables, every
header that is taken is loaded, and no other place in memory is written to but the slot. -/
theorem loadElfBinary_translated (fault : BitVec 64 → Stop) (image : Image mem base rsp size)
    (segments : Segments mem base rsp size (Taken mem base))
    (placed : Placed translate (Footprint mem base rsp size) place kept m₀)
    (start : ∀ x, Footprint mem base rsp size x → m₀ (place x) = mem x) :
    ∃ m, (Code.loadElfBinary base rsp).run (translatedBus translate fault) m₀ =
        .ok (e_entry mem base, m) ∧
      (∀ k, Taken mem base k → ∀ i, i < p_memsz mem base k →
        m (place (p_vaddr mem base k + BitVec.ofNat 64 i)) = content mem base k i) ∧
      ∀ p, (∀ k, Taken mem base k → ∀ x, InRange x (p_vaddr mem base k) (p_memsz mem base k) →
          place x ≠ p) →
        (∀ x, InRange x (rsp - 8) 8 → place x ≠ p) → m p = m₀ p := by
  obtain ⟨mem', completes, loaded⟩ := loadElfBinary_loaded image segments
  obtain ⟨m, done, shows_⟩ := Lib.run_translated fault placed
    (within_loadElfBinary image segments) start ((run_loadElfBinary mem base rsp).trans completes)
  refine ⟨m, done, fun k taken i hi => ?_, fun p target slot => ?_⟩
  · have word : p_memsz mem base k < 2 ^ 64 := BitVec.isLt _
    have inside : InRange (p_vaddr mem base k + BitVec.ofNat 64 i) (p_vaddr mem base k)
        (p_memsz mem base k) := by
      unfold InRange
      bv_omega
    rw [shows_.same _ (Or.inr (Or.inr ⟨k, taken, inside⟩))]
    exact loaded.taken k taken taken.1 i hi
  · by_cases inImage : ∃ x, InRange x base size ∧ place x = p
    · obtain ⟨x, inside, rfl⟩ := inImage
      have here : Footprint mem base rsp size x := Or.inl inside
      rw [shows_.same x here, start x here]
      exact loaded.image x inside
    · apply shows_.frame
      rintro x (inside | inside | ⟨k, taken, inside⟩) same
      · exact inImage ⟨x, inside, same⟩
      · exact slot x inside same
      · exact target k taken x inside same

end Translated

end Tyleros.Boot.Elf
