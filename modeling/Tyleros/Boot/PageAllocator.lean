import Tyleros.Lib.Machine
import Tyleros.Boot.Loader

/-!
# The blocks of the boot loader's allocator

`boot/allocator.asm`, over any sequence of calls. `allocate_pages` compares only the start of
a block with the end of memory, as signed numbers, and sets the block to zero through a 16-bit
offset in the segment that the start lies in. So a block may reach over the end, and what lies
behind the 64 KiB of the segment is not set to zero; of a start from 1 MiB on, the segment
is not even the right one.

`Regular` says which calls are not affected, and `allocates_iff` that these are the ones that
are served as they should be.
-/

namespace Tyleros.Boot

open Lib

/-! ## Runs -/

/-- A block that was handed out. -/
structure Block where
  base : Nat
  size : Nat
  deriving DecidableEq, Repr

def Block.Contains (b : Block) (x : Nat) : Prop := b.base ≤ x ∧ x < b.base + b.size

/-- The arena, and the blocks that were handed out; no code reads those. -/
structure Loaded where
  arena : Arena
  blocks : List Block

inductive Op where
  | allocatePages (cx : UInt16)
  /-- Other code leaves this in memory. -/
  | code (mem : Memory)

def Loaded.step (s : Loaded) : Op → Except Stop Loaded
  | .allocatePages cx => do
    let (eax, arena) ← allocatePages cx s.arena
    return ⟨arena, ⟨eax.toNat, cx.toNat * PAGE_SIZE⟩ :: s.blocks⟩
  | .code mem => .ok { s with arena := { s.arena with mem } }

def loader : Machine Loaded Op Stop := ⟨Loaded.step⟩

/-! ## What a call is to do -/

/-- The block that `cx` pages from the start on are. -/
def Arena.next (a : Arena) (cx : UInt16) : Block := ⟨a.availMemStart.toNat, cx.toNat * PAGE_SIZE⟩

/-- A block was handed out as it should be. -/
structure Granted (s : Loaded) (cx : UInt16) (eax : UInt32) (arena : Arena) : Prop where
  start : eax = s.arena.availMemStart
  zeroed : ∀ x, (s.arena.next cx).Contains x → arena.mem x = 0
  below : (s.arena.next cx).base + (s.arena.next cx).size ≤ s.arena.availMemEnd.toNat
  disjoint : ∀ b ∈ s.blocks, ∀ x, b.Contains x → ¬ (s.arena.next cx).Contains x
  advanced : arena.availMemStart.toNat = s.arena.availMemStart.toNat + cx.toNat * PAGE_SIZE

/-- A call fails, or it hands out a block. -/
def Serves (s : Loaded) : Op → Prop
  | .allocatePages cx =>
    allocatePages cx s.arena = .error (.fault "int 3") ∨
      ∃ eax arena, allocatePages cx s.arena = .ok (eax, arena) ∧ Granted s cx eax arena
  | .code _ => True

/-! ## Regular calls -/

/-- `jge` behind the comparison of the start with the end. -/
def Arena.Exhausted (a : Arena) : Prop := a.availMemEnd.toInt32 ≤ a.availMemStart.toInt32

instance (a : Arena) : Decidable a.Exhausted := inferInstanceAs (Decidable (_ ≤ _))

/-- Where the segment of the start ends; what begins at 1 MiB or above has none. -/
def Arena.segmentEnd (a : Arena) : Nat :=
  if a.availMemStart.toNat < 2 ^ 20 then a.availMemStart.toNat / 16 * 16 + 2 ^ 16 else 0

/-- The block ends in memory, and what lies behind the end of the segment is zero already. -/
structure Arena.Roomy (a : Arena) (cx : UInt16) : Prop where
  ends : a.availMemStart.toNat + cx.toNat * PAGE_SIZE ≤ a.availMemEnd.toNat
  behind : ∀ x, a.segmentEnd ≤ x → (a.next cx).Contains x → a.mem x = 0

/-- The calls for which the allocator is right. -/
def Regular (s : Loaded) : Op → Prop
  | .allocatePages cx => s.arena.Exhausted ∨ s.arena.Roomy cx
  | .code _ => True

/-- The number of pages is not 0. -/
def Legal : Op → Prop
  | .allocatePages cx => cx ≠ 0
  | .code _ => True

instance : DecidablePred Legal
  | .allocatePages cx => inferInstanceAs (Decidable (cx ≠ 0))
  | .code _ => isTrue trivial

/-! ## One call -/

section Calls

variable {a : Arena} {cx : UInt16} {x : Nat}

/-- Of the block, the bytes in front of the end of the segment are set to zero. -/
theorem zeroed_iff (legal : cx ≠ 0) (inside : (a.next cx).Contains x) :
    (segmentAndBase a.availMemStart - (a.availMemStart &&& 0xF).toNat ≤ x ∧
      x < segmentAndBase a.availMemStart - (a.availMemStart &&& 0xF).toNat + 2 ^ 16 ∧
      (x - (segmentAndBase a.availMemStart - (a.availMemStart &&& 0xF).toNat) + 2 ^ 16 -
        (a.availMemStart &&& 0xF).toNat) % 2 ^ 16 < rounds cx * PAGE_SIZE) ↔ x < a.segmentEnd := by
  obtain ⟨segment, offset⟩ := toNat_segment_base a.availMemStart
  have bound := a.availMemStart.toNat_lt
  have first : a.availMemStart.toNat ≤ x := inside.1
  have last : x < a.availMemStart.toNat + cx.toNat * PAGE_SIZE := inside.2
  rw [segmentAndBase, Nat.add_sub_cancel, segment, offset]
  unfold rounds Arena.segmentEnd
  rw [if_neg legal]
  unfold PAGE_SIZE at *
  split
  · omega
  · omega

/-- A call that does not fail returns the start, and moves it. -/
theorem allocatePages_ok (cx : UInt16) (goes : ¬ a.Exhausted) :
    ∃ arena, allocatePages cx a = .ok (a.availMemStart, arena) ∧
      arena.availMemStart = a.availMemStart + UInt32.ofNat (rounds cx * PAGE_SIZE) ∧
      arena.availMemEnd = a.availMemEnd ∧
      (cx ≠ 0 → ∀ x, (a.next cx).Contains x →
        arena.mem x = if x < a.segmentEnd then 0 else a.mem x) := by
  unfold allocatePages
  dsimp only
  rw [if_neg (show ¬ a.availMemEnd.toInt32 ≤ a.availMemStart.toInt32 from goes)]
  refine ⟨_, rfl, rfl, rfl, fun legal x inside => ?_⟩
  exact if_congr (zeroed_iff legal inside) rfl rfl

theorem allocatePages_exhausted (exhausted : a.Exhausted) :
    allocatePages cx a = .error (.fault "int 3") := if_pos exhausted

/-- The start behind a block that ends in memory. -/
theorem toNat_next_start (legal : cx ≠ 0)
    (ends : a.availMemStart.toNat + cx.toNat * PAGE_SIZE ≤ a.availMemEnd.toNat) :
    (a.availMemStart + UInt32.ofNat (rounds cx * PAGE_SIZE)).toNat =
      a.availMemStart.toNat + cx.toNat * PAGE_SIZE := by
  have bound := a.availMemEnd.toNat_lt
  unfold rounds
  rw [if_neg legal, UInt32.toNat_add, UInt32.toNat_ofNat']
  omega

end Calls

/-! ## Every run -/

/-- The blocks lie in front of what is left. -/
def Inv (s : Loaded) : Prop := ∀ b ∈ s.blocks, b.base + b.size ≤ s.arena.availMemStart.toNat

variable {s s' : Loaded} {o : Op}

/-- A regular call is served. -/
theorem serves_of_regular (inv : Inv s) (legal : Legal o) (regular : Regular s o) :
    Serves s o := by
  cases o with
  | code mem => trivial
  | allocatePages cx =>
      by_cases exhausted : s.arena.Exhausted
      · exact Or.inl (allocatePages_exhausted exhausted)
      · have roomy := regular.resolve_left exhausted
        obtain ⟨arena, done, start, -, mem⟩ := allocatePages_ok cx exhausted
        refine Or.inr ⟨_, arena, done, rfl, fun x inside => ?_, roomy.ends, ?_, ?_⟩
        · rw [mem legal x inside]
          split
          · rfl
          · next beyond => exact roomy.behind x (Nat.le_of_not_lt beyond) inside
        · intro b old x before inside
          have last := inv b old
          have front : x < b.base + b.size := before.2
          have first : s.arena.availMemStart.toNat ≤ x := inside.1
          omega
        · rw [start]
          exact toNat_next_start legal roomy.ends

/-- A call that is served is regular. -/
theorem regular_of_serves (legal : Legal o) (serves : Serves s o) : Regular s o := by
  cases o with
  | code mem => trivial
  | allocatePages cx =>
      by_cases exhausted : s.arena.Exhausted
      · exact Or.inl exhausted
      · obtain ⟨arena, done, -, -, mem⟩ := allocatePages_ok cx exhausted
        rcases serves with fails | ⟨eax, arena', done', granted⟩
        · cases done.symm.trans fails
        · cases done.symm.trans done'
          refine Or.inr ⟨granted.below, fun x beyond inside => ?_⟩
          rw [← granted.zeroed x inside, mem legal x inside, if_neg (Nat.not_lt.mpr beyond)]

theorem inv_step (inv : Inv s) (legal : Legal o) (regular : Regular s o)
    (step : loader.step s o = .ok s') : Inv s' := by
  cases o with
  | code mem =>
      cases step
      exact inv
  | allocatePages cx =>
      obtain ⟨⟨eax, arena⟩, called, returned⟩ := bind_eq_ok step
      cases returned
      rcases regular with exhausted | roomy
      · cases (allocatePages_exhausted exhausted).symm.trans called
      · have goes : ¬ s.arena.Exhausted := by
          intro exhausted
          cases (allocatePages_exhausted exhausted).symm.trans called
        obtain ⟨arena', done, start, -, -⟩ := allocatePages_ok cx goes
        cases done.symm.trans called
        have moved := toNat_next_start legal roomy.ends
        rw [← start] at moved
        intro b mem
        show _ ≤ arena.availMemStart.toNat
        rw [moved]
        rcases List.mem_cons.mp mem with rfl | old
        · exact Nat.le_refl _
        · exact (inv b old).trans (Nat.le_add_right _ _)

/-- In every run, whatever arena it starts with and whatever other code leaves in memory, all
calls are served exactly if all of them are regular. -/
theorem allocates_iff (a : Arena) (ops : List Op) (legal : ∀ o ∈ ops, Legal o) :
    loader.EachStep Serves ⟨a, []⟩ ops ↔ loader.EachStep Regular ⟨a, []⟩ ops := by
  have nothing : Inv ⟨a, []⟩ := fun b mem => nomatch mem
  exact Machine.eachStep_iff (fun s o s' inv legal regular => inv_step inv legal regular)
    (fun s o inv legal => ⟨regular_of_serves legal, serves_of_regular inv legal⟩) nothing
    (Machine.eachStep_of_forall legal)

/-- Memory from 64 KiB to 512 KiB. -/
def roomArena : Arena := ⟨fun _ => 0xCC, 0x10000, 0x80000⟩

theorem roomArena_goes : ¬ roomArena.Exhausted := by decide

/-- The tables and the image of a kernel of at most 15 pages. -/
theorem allocates_fifteen_pages :
    loader.EachStep Serves ⟨roomArena, []⟩ [.allocatePages 15] := by
  have legal : ∀ o ∈ [Op.allocatePages 15], Legal o := by
    intro o mem
    rcases List.mem_singleton.mp mem with rfl
    exact fun zero => absurd zero (by decide)
  apply (allocates_iff roomArena [.allocatePages 15] legal).mpr
  refine ⟨Or.inr ⟨by decide, fun x beyond inside => ?_⟩, fun _ _ => trivial⟩
  have first : 0x20000 ≤ x := beyond
  have last : x < 0x10000 + 15 * 0x1000 := inside.2
  omega

/-- Of 17 pages the last one is not set to zero, and with one page left two are handed out. -/
theorem not_allocates_pages :
    ¬ loader.EachStep Serves ⟨roomArena, []⟩ [.allocatePages 17] ∧
      ¬ loader.EachStep Serves ⟨⟨fun _ => 0, 0x7F000, 0x80000⟩, []⟩ [.allocatePages 2] := by
  constructor
  · intro serves
    have regular := regular_of_serves (by decide : Legal (.allocatePages 17)) serves.1
    rcases regular with exhausted | roomy
    · exact roomArena_goes exhausted
    · have zero := roomy.behind 0x20000 (by decide) ⟨by decide, by decide⟩
      exact absurd zero (by decide)
  · intro serves
    have regular := regular_of_serves (by decide : Legal (.allocatePages 2)) serves.1
    rcases regular with exhausted | roomy
    · exact absurd exhausted (by decide)
    · exact absurd roomy.ends (by decide)

end Tyleros.Boot
