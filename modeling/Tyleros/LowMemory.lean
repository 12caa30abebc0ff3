import Tyleros.Lib.Machine
import Tyleros.Libc.String

/-!
# The low memory allocator

`kernel/low_memory_allocator.cpp`: an arena from which blocks are taken one behind the
other. `allocate` rounds the start of what is left up to the alignment, sets the block to
zero and moves the start behind it.

The test for room is `aligned_start >= avail_low_mem_end - size`, on words that wrap
around, and so is `align_to`. `Regular` says for which calls that is harmless: the block
ends in front of the end of the arena, or it does not fit in a way that the test sees. Runs of
regular calls hand out blocks as they should, and where the arena does not start at address 0
only those do (`serves_run`).
-/

namespace Tyleros.LowMemory

open Lib Libc Boot.Elf

/-- `avail_low_mem_start` and `avail_low_mem_end`, and memory. -/
structure Arena where
  availLowMemStart : BitVec 64
  availLowMemEnd : BitVec 64
  memory : Memory

/-- `low_memory::init`. -/
def init (lowMemStart lowMemEnd : BitVec 64) (memory : Memory) : Except Stop Arena := do
  kassert (lowMemStart < lowMemEnd) "avail_low_mem_start < avail_low_mem_end"
  return ⟨lowMemStart, lowMemEnd, memory⟩

/-- `low_memory::allocate`: the block, and the arena behind it. -/
def allocate (size align : BitVec 64) (s : Arena) : Except Stop (BitVec 64 × Arena) :=
  if align = 0#64 then .error (.fault "divide error")
  else
    let alignedStart := BitVec.ofNat 64 (alignTo s.availLowMemStart.toNat align.toNat)
    if alignedStart ≥ s.availLowMemEnd - size then .error (.panic "Ran out of low memory!")
    else do
      let (base, memory) ← memset alignedStart 0#32 size s.memory
      return (base, { s with availLowMemStart := alignedStart + size, memory })

/-! ## Runs -/

/-- A block that was handed out. -/
structure Block where
  base : Nat
  size : Nat
  deriving DecidableEq, Repr

def Block.Contains (b : Block) (x : Nat) : Prop := b.base ≤ x ∧ x < b.base + b.size

/-- The arena, and the blocks that were handed out; no code reads those. -/
structure State where
  arena : Arena
  blocks : List Block

inductive Op where
  | allocate (size align : BitVec 64)
  /-- Other code leaves this in memory. -/
  | code (memory : Memory)

def State.step (s : State) : Op → Except Stop State
  | .allocate size align => do
    let (base, arena) ← allocate size align s.arena
    return ⟨arena, ⟨base.toNat, size.toNat⟩ :: s.blocks⟩
  | .code memory => .ok { s with arena := { s.arena with memory } }

def machine : Machine State Op Stop := ⟨State.step⟩

/-! ## What a call is to do -/

/-- The first multiple of the alignment that is not below the start. -/
def roundUp (start align : Nat) : Nat := (start + align - 1) / align * align

/-- The block that is wanted lies in what is left. -/
def Arena.Fits (s : Arena) (size align : BitVec 64) : Prop :=
  roundUp s.availLowMemStart.toNat align.toNat + size.toNat ≤ s.availLowMemEnd.toNat

/-- A block was handed out as it should be, from an arena that starts at `lo`. -/
structure Granted (lo : Nat) (s : State) (size align base : BitVec 64) (arena : Arena) : Prop where
  aligned : base.toNat % align.toNat = 0
  inside : lo ≤ base.toNat ∧ base.toNat + size.toNat ≤ s.arena.availLowMemEnd.toNat
  disjoint : ∀ b ∈ s.blocks, ∀ x, b.Contains x → ¬ (⟨base.toNat, size.toNat⟩ : Block).Contains x
  zeroed : Fills base 0 size s.arena.memory arena.memory

/-- A call returns a block if it fits, and panics if it does not. -/
def Serves (lo : Nat) (s : State) : Op → Prop
  | .allocate size align =>
    (s.arena.Fits size align →
      ∃ base arena, allocate size align s.arena = .ok (base, arena) ∧
        Granted lo s size align base arena) ∧
    (¬ s.arena.Fits size align →
      allocate size align s.arena = .error (.panic "Ran out of low memory!"))
  | .code _ => True

/-! ## Regular calls -/

/-- The block ends in front of the end of the arena, rounding up does not wrap around, and
`memset` stays in the block. -/
structure Arena.Roomy (s : Arena) (size align : BitVec 64) : Prop where
  ends : roundUp s.availLowMemStart.toNat align.toNat + size.toNat < s.availLowMemEnd.toNat
  rounds : s.availLowMemStart.toNat + align.toNat ≤ 2 ^ 64
  fills : Unnoticed (BitVec.ofNat 64 (roundUp s.availLowMemStart.toNat align.toNat)) 0 size s.memory

/-- The block does not fit, and the test for room says so. -/
structure Arena.Exceeded (s : Arena) (size align : BitVec 64) : Prop where
  ends : s.availLowMemEnd.toNat < roundUp s.availLowMemStart.toNat align.toNat + size.toNat
  seen : s.availLowMemStart.toNat + align.toNat ≤ 2 ^ 64 ∧
      (size.toNat ≤ s.availLowMemEnd.toNat ∨ 2 ^ 64 + s.availLowMemEnd.toNat ≤
        roundUp s.availLowMemStart.toNat align.toNat + size.toNat) ∨
    size = s.availLowMemEnd

/-- The calls for which the allocator is right. -/
def Regular (s : State) : Op → Prop
  | .allocate size align => s.arena.Roomy size align ∨ s.arena.Exceeded size align
  | .code _ => True

/-- The alignment is not 0. -/
def Legal : Op → Prop
  | .allocate _ align => align ≠ 0#64
  | .code _ => True

/-! ## Rounding up -/

variable {start align : Nat}

theorem roundUp_spec (start : Nat) (positive : 1 ≤ align) :
    roundUp start align % align = 0 ∧ start ≤ roundUp start align ∧
      roundUp start align ≤ start + align - 1 := by
  have split_ := Nat.div_add_mod' (start + align - 1) align
  have rest := Nat.mod_lt (start + align - 1) positive
  unfold roundUp
  refine ⟨Nat.mul_mod_left _ _, ?_, ?_⟩ <;> omega

/-- `align_to` rounds up, or wraps around to 0. -/
theorem alignTo_eq (positive : 1 ≤ align) (fits : start < 2 ^ 64) (word : align < 2 ^ 64) :
    alignTo start align = if start + align ≤ 2 ^ 64 then roundUp start align else 0 := by
  unfold alignTo roundUp
  split
  · next small =>
      have sum : sub64 (add64 start align) 1 = start + align - 1 := by
        unfold sub64 add64
        omega
      rw [sum]
  · next large =>
      have sum : sub64 (add64 start align) 1 = start + align - 1 - 2 ^ 64 := by
        unfold sub64 add64
        omega
      rw [sum, Nat.div_eq_of_lt (by omega), Nat.zero_mul]

theorem toNat_alignedStart (positive : 1 ≤ align) (fits : start < 2 ^ 64) (word : align < 2 ^ 64) :
    (BitVec.ofNat 64 (alignTo start align)).toNat =
      if start + align ≤ 2 ^ 64 then roundUp start align else 0 := by
  have bounds := roundUp_spec start positive
  rw [alignTo_eq positive fits word, BitVec.toNat_ofNat]
  split
  · exact Nat.mod_eq_of_lt (by omega)
  · rfl

/-! ## One call -/

section Calls

variable {s : Arena} {size align : BitVec 64}

theorem one_le_of_ne_zero (legal : align ≠ 0#64) : 1 ≤ align.toNat :=
  Nat.pos_of_ne_zero fun zero => legal (BitVec.eq_of_toNat_eq zero)

/-- The first multiple of `align` in the arena, as the word that is returned. -/
theorem alignedStart_toNat (legal : align ≠ 0#64) :
    (BitVec.ofNat 64 (alignTo s.availLowMemStart.toNat align.toNat)).toNat =
      if s.availLowMemStart.toNat + align.toNat ≤ 2 ^ 64 then
        roundUp s.availLowMemStart.toNat align.toNat else 0 :=
  toNat_alignedStart (one_le_of_ne_zero legal) s.availLowMemStart.isLt align.isLt

/-- The test for room, in numbers. -/
theorem refuses_iff (legal : align ≠ 0#64) :
    BitVec.ofNat 64 (alignTo s.availLowMemStart.toNat align.toNat) ≥ s.availLowMemEnd - size ↔
      (2 ^ 64 - size.toNat + s.availLowMemEnd.toNat) % 2 ^ 64 ≤
        if s.availLowMemStart.toNat + align.toNat ≤ 2 ^ 64 then
          roundUp s.availLowMemStart.toNat align.toNat else 0 := by
  rw [ge_iff_le, BitVec.le_def, alignedStart_toNat legal, BitVec.toNat_sub]

theorem allocate_exceeded (legal : align ≠ 0#64) (exceeded : s.Exceeded size align) :
    allocate size align s = .error (.panic "Ran out of low memory!") := by
  have sizeFits := size.isLt
  have endFits := s.availLowMemEnd.isLt
  have refuses : BitVec.ofNat 64 (alignTo s.availLowMemStart.toNat align.toNat) ≥
      s.availLowMemEnd - size := by
    rw [refuses_iff legal]
    obtain ⟨ends, ⟨rounds, inside | outside⟩ | same⟩ := exceeded
    · rw [if_pos rounds]
      omega
    · rw [if_pos rounds]
      omega
    · rw [same, Nat.sub_add_cancel endFits.le, Nat.mod_self]
      exact Nat.zero_le _
  unfold allocate
  dsimp only
  rw [if_neg legal, if_pos refuses]

theorem allocate_roomy (legal : align ≠ 0#64) (roomy : s.Roomy size align) :
    ∃ base memory, allocate size align s =
        .ok (base, { s with availLowMemStart := base + size, memory }) ∧
      base.toNat = roundUp s.availLowMemStart.toNat align.toNat ∧
      Fills base 0 size s.memory memory := by
  have sizeFits := size.isLt
  have endFits := s.availLowMemEnd.isLt
  have ends := roomy.ends
  have accepts : ¬ BitVec.ofNat 64 (alignTo s.availLowMemStart.toNat align.toNat) ≥
      s.availLowMemEnd - size := by
    rw [refuses_iff legal, if_pos roomy.rounds]
    omega
  have start := alignedStart_toNat (s := s) legal
  rw [if_pos roomy.rounds] at start
  have word : BitVec.ofNat 64 (alignTo s.availLowMemStart.toNat align.toNat) =
      BitVec.ofNat 64 (roundUp s.availLowMemStart.toNat align.toNat) := by
    rw [← start, BitVec.ofNat_toNat, BitVec.setWidth_eq]
  obtain ⟨memory, done, fills⟩ := (memset_exact_iff _ 0#32 size s.memory).mpr roomy.fills
  refine ⟨_, memory, ?_, start, ?_⟩
  · unfold allocate
    dsimp only
    rw [if_neg legal, if_neg accepts, word, done]
    rfl
  · rw [word]
    exact fills

/-- A call that returns has set the block to zero with `memset`. -/
theorem allocate_ok (legal : align ≠ 0#64) {base : BitVec 64} {arena : Arena}
    (done : allocate size align s = .ok (base, arena)) :
    ¬ BitVec.ofNat 64 (alignTo s.availLowMemStart.toNat align.toNat) ≥ s.availLowMemEnd - size ∧
      base = BitVec.ofNat 64 (alignTo s.availLowMemStart.toNat align.toNat) ∧
      memset base 0#32 size s.memory = .ok (base, arena.memory) := by
  unfold allocate at done
  dsimp only at done
  rw [if_neg legal] at done
  split at done
  · cases done
  · next accepts =>
      obtain ⟨⟨base', memory⟩, filled, returned⟩ := bind_eq_ok done
      have same : base' = BitVec.ofNat 64 (alignTo s.availLowMemStart.toNat align.toNat) := by
        rw [memset_eq] at filled
        split at filled
        · exact (congrArg Prod.fst (Except.ok.inj filled)).symm
        · cases filled
      cases returned
      subst same
      exact ⟨accepts, rfl, filled⟩

theorem allocate_panics (legal : align ≠ 0#64)
    (panics : allocate size align s = .error (.panic "Ran out of low memory!")) :
    BitVec.ofNat 64 (alignTo s.availLowMemStart.toNat align.toNat) ≥ s.availLowMemEnd - size := by
  unfold allocate at panics
  dsimp only at panics
  rw [if_neg legal] at panics
  split at panics
  · next refuses => exact refuses
  · rw [memset_eq] at panics
    split at panics <;> cases panics

end Calls

/-! ## Every run -/

/-- What is left is the end of the arena, and the blocks lie in front of it. -/
structure Inv (lo : Nat) (s : State) : Prop where
  start : lo ≤ s.arena.availLowMemStart.toNat
  left : s.arena.availLowMemStart.toNat ≤ s.arena.availLowMemEnd.toNat
  blocks : ∀ b ∈ s.blocks, b.base + b.size ≤ s.arena.availLowMemStart.toNat

variable {lo : Nat} {s s' : State} {o : Op}

/-- A regular call is served. -/
theorem serves_of_regular (inv : Inv lo s) (legal : Legal o) (regular : Regular s o) :
    Serves lo s o := by
  cases o with
  | code memory => trivial
  | allocate size align =>
      have bounds := roundUp_spec s.arena.availLowMemStart.toNat (one_le_of_ne_zero legal)
      have start := inv.start
      unfold Serves Arena.Fits
      rcases regular with roomy | exceeded
      · have ends := roomy.ends
        obtain ⟨base, memory, done, place, fills⟩ := allocate_roomy legal roomy
        refine ⟨fun _ => ⟨base, _, done, ?_⟩, fun none_ => absurd ends.le none_⟩
        refine ⟨place ▸ bounds.1, ⟨by omega, by omega⟩, fun b mem x old new => ?_, fills⟩
        have before := inv.blocks b mem
        have last : x < b.base + b.size := old.2
        have first : base.toNat ≤ x := new.1
        omega
      · have ends := exceeded.ends
        exact ⟨fun fits => absurd fits (by omega), fun _ => allocate_exceeded legal exceeded⟩

/-- The blocks lie in front of what is left after a regular call, too. -/
theorem inv_step (inv : Inv lo s) (legal : Legal o) (regular : Regular s o)
    (step : machine.step s o = .ok s') : Inv lo s' := by
  cases o with
  | code memory =>
      cases step
      exact ⟨inv.start, inv.left, inv.blocks⟩
  | allocate size align =>
      have bounds := roundUp_spec s.arena.availLowMemStart.toNat (one_le_of_ne_zero legal)
      have start := inv.start
      obtain ⟨⟨base, arena⟩, called, returned⟩ := bind_eq_ok step
      cases returned
      rcases regular with roomy | exceeded
      · have ends := roomy.ends
        have endFits := s.arena.availLowMemEnd.isLt
        obtain ⟨base', memory, done, place, -⟩ := allocate_roomy legal roomy
        cases called.symm.trans done
        have next : (base + size).toNat = base.toNat + size.toNat := by
          rw [BitVec.toNat_add]
          exact Nat.mod_eq_of_lt (by omega)
        refine ⟨?_, ?_, fun b mem => ?_⟩
        · show lo ≤ (base + size).toNat
          omega
        · show (base + size).toNat ≤ s.arena.availLowMemEnd.toNat
          omega
        · show _ ≤ (base + size).toNat
          rcases List.mem_cons.mp mem with rfl | old
          · exact next.ge
          · have before := inv.blocks b old
            omega
      · rw [allocate_exceeded legal exceeded] at called
        cases called

/-- In an arena that does not start at address 0, a call that is served is regular. -/
theorem regular_of_serves (legal : Legal o) (notNull : 0 < lo)
    (serves : Serves lo s o) : Regular s o := by
  cases o with
  | code memory => trivial
  | allocate size align =>
      have sizeFits := size.isLt
      have endFits := s.arena.availLowMemEnd.isLt
      by_cases fits : s.arena.Fits size align
      · obtain ⟨base, arena, done, granted⟩ := serves.1 fits
        obtain ⟨accepts, same, filled⟩ := allocate_ok legal done
        have place := alignedStart_toNat (s := s.arena) legal
        rw [← same] at place
        have above := granted.inside.1
        have rounds : s.arena.availLowMemStart.toNat + align.toNat ≤ 2 ^ 64 := by
          by_contra wraps
          rw [if_neg wraps] at place
          omega
        rw [if_pos rounds] at place
        have word : base = BitVec.ofNat 64 (roundUp s.arena.availLowMemStart.toNat align.toNat) := by
          rw [← place, BitVec.ofNat_toNat, BitVec.setWidth_eq]
        rw [refuses_iff legal, if_pos rounds] at accepts
        unfold Arena.Fits at fits
        refine Or.inl ⟨by omega, rounds, ?_⟩
        rw [← word]
        exact (memset_exact_iff base 0#32 size s.arena.memory).mp ⟨_, filled, granted.zeroed⟩
      · have refuses := allocate_panics legal (serves.2 fits)
        rw [refuses_iff legal] at refuses
        unfold Arena.Fits at fits
        refine Or.inr ⟨by omega, ?_⟩
        by_cases rounds : s.arena.availLowMemStart.toNat + align.toNat ≤ 2 ^ 64
        · rw [if_pos rounds] at refuses
          exact Or.inl ⟨rounds, by omega⟩
        · rw [if_neg rounds] at refuses
          exact Or.inr (BitVec.eq_of_toNat_eq (by omega))

/-- In every run of an initialised arena, whatever other code leaves in memory, every call is
served as long as all calls are regular; and if the arena does not start at address 0, all
calls of a run are served only if they are regular. -/
theorem serves_run {lowMemStart lowMemEnd : BitVec 64} {memory : Memory} {arena : Arena}
    (initialised : init lowMemStart lowMemEnd memory = .ok arena) {ops : List Op}
    (legal : ∀ o ∈ ops, Legal o) :
    (machine.EachStep Regular ⟨arena, []⟩ ops →
      machine.EachStep (Serves lowMemStart.toNat) ⟨arena, []⟩ ops) ∧
    (0 < lowMemStart.toNat → machine.EachStep (Serves lowMemStart.toNat) ⟨arena, []⟩ ops →
      machine.EachStep Regular ⟨arena, []⟩ ops) := by
  obtain ⟨_, before, returned⟩ := bind_eq_ok initialised
  cases returned
  have before := of_decide_eq_true (kassert_eq_ok before)
  have inv : Inv lowMemStart.toNat ⟨⟨lowMemStart, lowMemEnd, memory⟩, []⟩ :=
    ⟨Nat.le_refl _, Nat.le_of_lt before, by rintro b ⟨⟩⟩
  have legal := Machine.eachStep_of_forall (M := machine)
    (s := ⟨⟨lowMemStart, lowMemEnd, memory⟩, []⟩) legal
  constructor
  · intro regular
    have guard := Machine.eachStep_and legal regular
    exact Machine.eachStep_of_inv (fun s o s' inv both => inv_step inv both.1 both.2)
      (fun s o inv both => serves_of_regular inv both.1 both.2) inv guard
  · intro notNull serves
    have agree := Machine.eachStep_iff (M := machine)
      (fun s o s' (inv : Inv lowMemStart.toNat s) legal regular => inv_step inv legal regular)
      (fun s o inv legal => ⟨regular_of_serves legal notNull, serves_of_regular inv legal⟩)
      inv legal
    exact agree.mp serves

/-- A page of low memory. -/
def sampleArena : Arena := ⟨0x1000#64, 0x2000#64, fun _ => 0xCC⟩

/-- A block of 16 bytes, and then one that is larger than the arena. -/
theorem serves_run_sample : init 0x1000#64 0x2000#64 (fun _ => 0xCC) = .ok sampleArena ∧
    machine.EachStep (Serves 0x1000) ⟨sampleArena, []⟩
      [.allocate 0x10#64 0x8#64, .allocate 0x1800#64 0x8#64] := by
  have roomy : sampleArena.Roomy 0x10#64 0x8#64 := ⟨by decide, by decide, Or.inr (Or.inl rfl)⟩
  have legal : ∀ o ∈ [Op.allocate 0x10#64 0x8#64, .allocate 0x1800#64 0x8#64], Legal o := by
    intro o mem
    rcases List.mem_pair.mp mem with rfl | rfl <;> exact fun zero => absurd zero (by decide)
  have run := serves_run (show init 0x1000#64 0x2000#64 (fun _ => 0xCC) = .ok sampleArena from rfl)
    legal
  refine ⟨rfl, run.1 ⟨Or.inl roomy, fun s' step => ⟨Or.inr ?_, fun _ _ => trivial⟩⟩⟩
  obtain ⟨⟨base, arena⟩, called, returned⟩ := bind_eq_ok step
  cases returned
  obtain ⟨base', memory, done, place, -⟩ := allocate_roomy (by decide) roomy
  obtain rfl : base' = 0x1000#64 := BitVec.eq_of_toNat_eq place
  cases called.symm.trans done
  exact ⟨show 0x2000 < roundUp (0x1000#64 + 0x10#64).toNat 0x8 + 0x1800 by decide,
    Or.inl ⟨show (0x1000#64 + 0x10#64).toNat + 0x8 ≤ 2 ^ 64 by decide, Or.inl (show 0x1800 ≤ 0x2000 by decide)⟩⟩

/-- A block that fills the arena is refused, one that is larger than the end address of the
arena is handed out, and seven bytes behind a block of nine are set to zero with it. -/
theorem serves_run_fails :
    ¬ machine.EachStep (Serves 0x1000) ⟨sampleArena, []⟩ [.allocate 0x1000#64 0x1#64] ∧
      ¬ machine.EachStep (Serves 0x1000) ⟨sampleArena, []⟩ [.allocate 0x3000#64 0x1#64] ∧
      ¬ machine.EachStep (Serves 0x1000) ⟨sampleArena, []⟩ [.allocate 0x9#64 0x1#64] := by
  refine ⟨?_, ?_, ?_⟩
  · intro serves
    obtain ⟨base, arena, done, -⟩ := serves.1.1 (show 0x1000 + 0x1000 ≤ 0x2000 by decide)
    cases done
  · intro serves
    have panics := serves.1.2 (show ¬ 0x1000 + 0x3000 ≤ 0x2000 by decide)
    exact absurd (allocate_panics (by decide) panics) (by decide)
  · intro serves
    obtain ⟨base, arena, done, granted⟩ := serves.1.1 (show 0x1000 + 0x9 ≤ 0x2000 by decide)
    obtain ⟨-, same, filled⟩ := allocate_ok (by decide) done
    obtain rfl : base = 0x1000#64 := same
    have unnoticed := (memset_exact_iff _ 0#32 0x9#64 sampleArena.memory).mp
      ⟨_, filled, granted.zeroed⟩
    rcases unnoticed with short | whole | ⟨-, behind⟩
    · exact absurd short (by decide)
    · exact absurd whole (by decide)
    · exact absurd (behind 9 (by decide) (by decide)) (by decide)

end Tyleros.LowMemory
