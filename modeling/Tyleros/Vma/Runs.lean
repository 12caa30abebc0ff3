import Tyleros.Vma.FreeList
import Tyleros.Lib.Machine
import Mathlib.Data.List.Pairwise

/-!
# Runs of the virtual memory allocator

`Held` is the allocator together with the regions it has handed out and not got
back. The list invariant survives every run of `get_virtual_pages` and
`free_virtual_pages` (`separated_run`): nodes and outstanding regions never
overlap, whatever is merged, emptied, reused or cut off.

What does not survive is the free space itself. An empty node that is reused
becomes the end of the list, so the nodes behind it are lost; and
`remove_from_free_list` takes an emptied node with base 0, whose end wraps to the
top of the address space, for one that covers everything. `nothing_lost_run`
shows that these two are the only ways.
-/

namespace Tyleros.Vma

open Tyleros.Lib

/-! ## Initialisation -/

/-- Adding a nonempty range to a list without empty nodes leaves none. -/
theorem add_full {s s' : State} {k base size : Nat} (inv : ListInv s k) (area : Fits base size)
    (pos : 0 < size)
    (apart : ∀ i, i < k → Disjoint (s.nodes i).range (Set.Ico base (base + size)))
    (full : ∀ i, i < k → (s.nodes i).size ≠ 0) (h : addNodeToFreeList base size s = .ok s') :
    ∃ k', ListInv s' k' ∧ (∀ i, i < k' → (s'.nodes i).size ≠ 0) ∧
      s'.free = s.free ∪ Set.Ico base (base + size) := by
  rcases addNodeToFreeList_cases h with
    ⟨i, mem, n, merges, rfl⟩ | ⟨-, e, first, rfl⟩ | ⟨-, room, rfl⟩
  · have bound := inv.mem_listed.mp mem
    obtain ⟨inv', free⟩ := inv.merge area apart bound merges
    refine ⟨k, inv', fun j hj => ?_, free⟩
    rw [State.nodes_setNode]
    split
    · have range := (merges.range (inv.fits i bound) area).1
      have inside : base ∈ n.range := by
        rw [range]
        exact Or.inr (Set.mem_Ico.mpr ⟨Nat.le_refl base, by omega⟩)
      intro zero
      rw [FreeNode.range, Set.mem_Ico, zero] at inside
      omega
    · exact full j hj
  · obtain ⟨bound, empty, -⟩ := inv.firstEmpty_some first
    exact absurd empty (full e bound)
  · rw [inv.last_eq]
    obtain ⟨inv', free⟩ := inv.append area apart room
    refine ⟨k + 1, inv', fun j hj => ?_, free⟩
    rw [State.nodes_setNode]
    split
    · exact Nat.pos_iff_ne_zero.mp pos
    · next ne =>
        have := inv.pos
        rw [State.nodes_setNode]
        split
        · exact full (k - 1) (by omega)
        · exact full j (by omega)

theorem ListInv.apart {s : State} {k : Nat} (inv : ListInv s k) {area : Set Nat}
    (disjoint : Disjoint s.free area) : ∀ i, i < k → Disjoint (s.nodes i).range area := by
  intro i bound
  exact disjoint.mono_left fun x mem => inv.mem_free.mpr ⟨i, bound, mem⟩

/-- The list before any range is marked free: the initial null entry. -/
def nullEntry (memory : Nat → FreeNode) : State :=
  ⟨Function.update memory 0 ⟨0, 0, none⟩, 0, NODES_PER_PAGE⟩

theorem nullEntry_node (memory : Nat → FreeNode) :
    (nullEntry memory).nodes 0 = ⟨0, 0, none⟩ := by simp only [nullEntry, Function.update_self]

theorem nullEntry_inv (memory : Nat → FreeNode) : ListInv (nullEntry memory) 1 := by
  have entry := nullEntry_node memory
  refine ⟨Nat.one_pos, fun i hi => ?_, Nat.le_refl 1, ?_, rfl, fun i hi => ?_,
    fun i j hi hj ne => by omega⟩
  · obtain rfl : i = 0 := by omega
    rw [entry]
    rfl
  · show 0 < NODES_PER_PAGE
    decide
  · obtain rfl : i = 0 := by omega
    rw [entry]
    exact ⟨by decide, by decide, fun pos => pos⟩

/-- The first range takes the place of the initial null entry. -/
theorem nullEntry_add {memory : Nat → FreeNode} {base size : Nat} {s : State}
    (area : Fits base size) (h : addNodeToFreeList base size (nullEntry memory) = .ok s) :
    s = (nullEntry memory).setNode 0 ⟨base, size, none⟩ ∧ ListInv s 1 ∧
      s.free = Set.Ico base (base + size) := by
  have start := nullEntry_inv memory
  have entry := nullEntry_node memory
  have walk : addWalk (nullEntry memory) base size [0] 0 none = .unmerged 0 (some 0) := by
    simp [addWalk, entry]
  rw [addNodeToFreeList, start.listed_eq, show List.range 1 = [0] from rfl, walk] at h
  cases h
  have apart : ∀ i, i < 1 → Disjoint ((nullEntry memory).nodes i).range
      (Set.Ico base (base + size)) := by
    intro i hi
    obtain rfl : i = 0 := by omega
    simp [entry, FreeNode.range]
  obtain ⟨inv, free⟩ := start.reuse area apart (e := 0) (by omega)
  refine ⟨rfl, inv, Set.ext fun x => ?_⟩
  rw [free x]
  constructor
  · rintro (new | ⟨j, hj, -⟩)
    · exact new
    · exact absurd hj (Nat.not_lt_zero j)
  · exact Or.inl

/-- After the three calls of `mark_free_range` the list holds the two halves of
the address space `vma` manages, without the kernel image and the identity map,
and no empty node. -/
theorem markFree_spec {memory : Nat → FreeNode} {s : State} (h : markFree memory = .ok s) :
    ∃ k, ListInv s k ∧ (∀ i, i < k → (s.nodes i).size ≠ 0) ∧
      s.free = Set.Ico 0x200000 (2 ^ 42) ∪ Set.Ico (2 ^ 64 - 2 ^ 42) KERNEL_VMA_START ∪
        Set.Ico KERNEL_VMA_END (2 ^ 64) := by
  obtain ⟨s₁, h₁, h⟩ := bind_eq_ok h
  obtain ⟨s₂, h₂, h₃⟩ := bind_eq_ok h
  have h₁ : addNodeToFreeList 0x200000 (2 ^ 42 - 0x200000) (nullEntry memory) = .ok s₁ := h₁
  have h₂ : addNodeToFreeList (2 ^ 64 - 2 ^ 42) (KERNEL_VMA_START - (2 ^ 64 - 2 ^ 42)) s₁ =
      .ok s₂ := h₂
  have h₃ : addNodeToFreeList KERNEL_VMA_END (2 ^ 64 - KERNEL_VMA_END) s₂ = .ok s := h₃
  obtain ⟨eq, inv₁, free₁⟩ := nullEntry_add ⟨by decide, by decide, by decide⟩ h₁
  have full₁ : ∀ i, i < 1 → (s₁.nodes i).size ≠ 0 := by
    intro i hi
    obtain rfl : i = 0 := by omega
    rw [eq, State.nodes_setNode_self]
    decide
  have apart₂ : Disjoint s₁.free (Set.Ico (2 ^ 64 - 2 ^ 42)
      (2 ^ 64 - 2 ^ 42 + (KERNEL_VMA_START - (2 ^ 64 - 2 ^ 42)))) := by
    rw [free₁, Set.disjoint_left]
    intro x low high
    rw [Set.mem_Ico] at low high
    omega
  obtain ⟨k₂, inv₂, full₂, free₂⟩ := add_full inv₁ ⟨by decide, by decide, by decide⟩ (by decide)
    (inv₁.apart apart₂) full₁ h₂
  have apart₃ : Disjoint s₂.free (Set.Ico KERNEL_VMA_END
      (KERNEL_VMA_END + (2 ^ 64 - KERNEL_VMA_END))) := by
    rw [free₂, free₁, Set.disjoint_left]
    intro x low high
    rw [Set.mem_union, Set.mem_Ico, Set.mem_Ico] at low
    rw [Set.mem_Ico] at high
    unfold KERNEL_VMA_START at low
    unfold KERNEL_VMA_END at high
    omega
  obtain ⟨k₃, inv₃, full₃, free₃⟩ := add_full inv₂ ⟨by decide, by decide, by decide⟩ (by decide)
    (inv₂.apart apart₃) full₂ h₃
  refine ⟨k₃, inv₃, full₃, ?_⟩
  rw [free₃, free₂, free₁]
  rfl

/-- A completed `init` leaves a well-formed list. -/
theorem init_spec {memory : Nat → FreeNode} {physicalPage : Nat} {s : State}
    (h : init memory physicalPage = .ok s) : ∃ k, ListInv s k := by
  obtain ⟨_, aligned, h⟩ := bind_eq_ok h
  obtain ⟨_, -, h⟩ := bind_eq_ok h
  obtain ⟨marked, hmark, h⟩ := bind_eq_ok h
  obtain ⟨k, inv, full, -⟩ := markFree_spec hmark
  have aligned : add64 physicalPage KERNEL_VMA_OFFSET % 4096 = 0 := by
    simpa [PAGE_SIZE] using kassert_eq_ok aligned
  have below := add64_lt physicalPage KERNEL_VMA_OFFSET
  have page : alignTo PAGE_SIZE PAGE_SIZE = 4096 := by decide
  have nonzero : ∀ i, marked.areaNode (add64 physicalPage KERNEL_VMA_OFFSET)
      (alignTo PAGE_SIZE PAGE_SIZE) = some i → (marked.nodes i).base ≠ 0 := by
    intro i found
    have bound := inv.mem_listed.mp (List.mem_of_find?_eq_some found)
    have := (inv.fits i bound).pos (Nat.pos_of_ne_zero (full i bound))
    omega
  obtain ⟨k', inv', -⟩ := remove_spec inv below (by omega) nonzero h
  exact ⟨k', inv'⟩

/-! ## The allocator with its outstanding regions -/

/-- A region given by its address and size. -/
def region (r : Nat × Nat) : Set Nat := Set.Ico r.1 (r.1 + r.2)

/-- The allocator and the regions `get_virtual_pages` returned that have not been
freed, the latest one first. -/
structure Held where
  vma : State
  outstanding : List (Nat × Nat)

/-- The calls the rest of the kernel makes. -/
inductive Op where
  | get (size : Nat)
  | free (address size : Nat)
  | remove (base size : Nat)
  deriving DecidableEq, Repr

def Held.step (h : Held) : Op → Except Stop Held
  | .get size => do
    let (address, vma) ← getVirtualPages size h.vma
    return ⟨vma, (address, size) :: h.outstanding⟩
  | .free address size => do
    let vma ← freeVirtualPages address size h.vma
    return ⟨vma, h.outstanding.erase (address, size)⟩
  | .remove base size => do
    let vma ← removeFromFreeList base size h.vma
    return ⟨vma, h.outstanding⟩

/-- Runs of `get_virtual_pages`, `free_virtual_pages` and `remove_from_free_list`. -/
def machine : Machine Held Op Stop := ⟨Held.step⟩

/-- What is freed is outstanding, and what is removed lies inside a free node. -/
def Legal (h : Held) : Op → Prop
  | .get _ => True
  | .free address size => (address, size) ∈ h.outstanding
  | .remove base size => base < 2 ^ 64 ∧ ∃ i ∈ h.vma.listed, (h.vma.nodes i).base ≤ base ∧
      base + alignTo size PAGE_SIZE ≤ (h.vma.nodes i).base + (h.vma.nodes i).size

/-- The calls that only hand out regions and take them back. -/
def HandsOut (h : Held) : Op → Prop
  | .get _ => True
  | .free address size => (address, size) ∈ h.outstanding
  | .remove _ _ => False

/-- The list is well formed, and the outstanding regions lie outside of it and
apart from each other. -/
structure HeldInv (h : Held) (k : Nat) : Prop where
  list : ListInv h.vma k
  fits : ∀ r ∈ h.outstanding, Fits r.1 r.2
  taken : ∀ r ∈ h.outstanding, Disjoint h.vma.free (region r)
  apart : h.outstanding.Pairwise fun r r' => Disjoint (region r) (region r')

section Steps

variable {h h' : Held} {k : Nat}

theorem HeldInv.get {size : Nat} (inv : HeldInv h k) (hs : h.step (.get size) = .ok h') :
    HeldInv h' k ∧ ∃ address, h'.outstanding = (address, size) :: h.outstanding := by
  obtain ⟨⟨address, vma⟩, got, hs⟩ := bind_eq_ok hs
  cases hs
  obtain ⟨list, fits, -, inside, free⟩ := get_spec inv.list got
  refine ⟨⟨list, ?_, ?_, ?_⟩, address, rfl⟩
  · exact List.forall_mem_cons.mpr ⟨fits, inv.fits⟩
  · refine List.forall_mem_cons.mpr ⟨?_, fun r mem => ?_⟩
    · rw [free]
      exact Set.disjoint_sdiff_left
    · rw [free]
      exact (inv.taken r mem).mono_left Set.sdiff_subset
  · refine List.pairwise_cons.mpr ⟨fun r mem => ?_, inv.apart⟩
    exact (inv.taken r mem).mono_left inside

theorem HeldInv.free {address size : Nat} (inv : HeldInv h k)
    (mem : (address, size) ∈ h.outstanding) (hs : h.step (.free address size) = .ok h') :
    ∃ k', HeldInv h' k' ∧ (h.vma.AddKeeps address size →
      h'.vma.free = h.vma.free ∪ Set.Ico address (address + size)) := by
  obtain ⟨vma, freed, hs⟩ := bind_eq_ok hs
  cases hs
  obtain ⟨_, -, freed⟩ := bind_eq_ok freed
  obtain ⟨_, -, freed⟩ := bind_eq_ok freed
  obtain ⟨k', list, grows, keeps⟩ :=
    add_spec inv.list (inv.fits _ mem) (inv.list.apart (inv.taken _ mem)) freed
  have symm : ∀ {r r' : Nat × Nat}, Disjoint (region r) (region r') →
      Disjoint (region r') (region r) := fun disjoint => disjoint.symm
  obtain ⟨others, rest⟩ := List.pairwise_cons.mp
    (((List.perm_cons_erase mem).pairwise_iff symm).mp inv.apart)
  refine ⟨k', ⟨list, fun r left => inv.fits r (List.mem_of_mem_erase left), fun r left => ?_,
    rest⟩, keeps⟩
  refine Disjoint.mono_left grows (Set.disjoint_union_left.mpr ⟨?_, others r left⟩)
  exact inv.taken r (List.mem_of_mem_erase left)

theorem HeldInv.remove {base size : Nat} (inv : HeldInv h k) (legal : Legal h (.remove base size))
    (nonzero : ∀ i, h.vma.areaNode base (alignTo size PAGE_SIZE) = some i →
      (h.vma.nodes i).base ≠ 0)
    (hs : h.step (.remove base size) = .ok h') :
    ∃ k', HeldInv h' k' ∧ (h.vma.RemoveKeeps base size →
      h'.vma.free = h.vma.free \ Set.Ico base (base + alignTo size PAGE_SIZE)) := by
  obtain ⟨vma, removed, hs⟩ := bind_eq_ok hs
  cases hs
  obtain ⟨areaLt, i, listed, -, inside⟩ := legal
  have endLe := (inv.list.fits i (inv.list.mem_listed.mp listed)).end_le
  obtain ⟨k', list, shrinks, keeps⟩ := remove_spec inv.list areaLt (by omega) nonzero removed
  refine ⟨k', ⟨list, inv.fits, fun r mem => ?_, inv.apart⟩, keeps⟩
  exact (inv.taken r mem).mono_left (shrinks.trans Set.sdiff_subset)

end Steps

/-! ## Nothing overlaps -/

/-- The list fills the start of the node array, ends inside its page, and no two
of its nodes and the outstanding regions overlap. -/
structure Separated (h : Held) : Prop where
  contiguous : ∃ k, 0 < k ∧ k ≤ NODES_PER_PAGE ∧ h.vma.listed = List.range k ∧
    (h.vma.nodes (k - 1)).next = none
  below : ∀ i ∈ h.vma.listed, (h.vma.nodes i).base + (h.vma.nodes i).size ≤ 2 ^ 64
  nodes : ∀ i ∈ h.vma.listed, ∀ j ∈ h.vma.listed, i ≠ j →
    Disjoint (h.vma.nodes i).range (h.vma.nodes j).range
  taken : ∀ i ∈ h.vma.listed, ∀ r ∈ h.outstanding, Disjoint (h.vma.nodes i).range (region r)
  outstanding : h.outstanding.Pairwise fun r r' => Disjoint (region r) (region r')

/-- A region that `get_virtual_pages` returns overlaps no outstanding one. -/
def ReturnsFresh (h : Held) (o : Op) : Prop :=
  ∀ size address vma, o = .get size → getVirtualPages size h.vma = .ok (address, vma) →
    ∀ r ∈ h.outstanding, Disjoint (region (address, size)) (region r)

theorem HeldInv.separated {h : Held} {k : Nat} (inv : HeldInv h k) : Separated h := by
  have pos := inv.list.pos
  have room := inv.list.room
  have limit := inv.list.limit
  refine ⟨⟨k, pos, by omega, inv.list.listed_eq, ?_⟩, fun i mem => ?_, fun i mi j mj ne => ?_,
    fun i mem r out => ?_, inv.apart⟩
  · rw [inv.list.chain (k - 1) (by omega), if_neg (by omega)]
  · exact (inv.list.fits i (inv.list.mem_listed.mp mem)).end_le
  · exact inv.list.disjoint i j (inv.list.mem_listed.mp mi) (inv.list.mem_listed.mp mj) ne
  · exact inv.list.apart (inv.taken r out) i (inv.list.mem_listed.mp mem)

theorem HeldInv.returnsFresh {h : Held} {k : Nat} (inv : HeldInv h k) (o : Op) :
    ReturnsFresh h o := by
  rintro size address vma rfl got r mem
  have inside := (get_spec inv.list got).2.2.2.1
  exact (inv.taken r mem).mono_left inside

theorem init_heldInv {memory : Nat → FreeNode} {physicalPage : Nat} {s : State}
    (h : init memory physicalPage = .ok s) : ∃ k, HeldInv ⟨s, []⟩ k := by
  obtain ⟨k, list⟩ := init_spec h
  exact ⟨k, list, fun r mem => absurd mem List.not_mem_nil,
    fun r mem => absurd mem List.not_mem_nil, List.Pairwise.nil⟩

theorem HeldInv.handsOut_step {h h' : Held} {o : Op} (inv : ∃ k, HeldInv h k)
    (legal : HandsOut h o) (hs : machine.step h o = .ok h') : ∃ k, HeldInv h' k := by
  obtain ⟨k, inv⟩ := inv
  cases o with
  | get size => exact ⟨k, (inv.get hs).1⟩
  | free address size =>
      obtain ⟨k', inv', -⟩ := inv.free legal hs
      exact ⟨k', inv'⟩
  | remove base size => exact legal.elim

/-- However `get_virtual_pages` and `free_virtual_pages` are called after `init`,
as long as only outstanding regions are freed: free nodes and outstanding regions
never overlap, the list stays inside its page, and every region returned is apart
from the outstanding ones. -/
theorem separated_run {memory : Nat → FreeNode} {physicalPage : Nat} {s : State} {ops : List Op}
    (hinit : init memory physicalPage = .ok s) (legal : machine.EachStep HandsOut ⟨s, []⟩ ops) :
    machine.Always Separated ⟨s, []⟩ ops ∧ machine.EachStep ReturnsFresh ⟨s, []⟩ ops := by
  have start := init_heldInv hinit
  constructor
  · refine Machine.always_of_inv (fun _ _ _ inv => HeldInv.handsOut_step inv) ?_ start legal
    rintro h ⟨k, inv⟩
    exact inv.separated
  · refine Machine.eachStep_of_inv (fun _ _ _ inv => HeldInv.handsOut_step inv) ?_ start legal
    rintro h o ⟨k, inv⟩ -
    exact inv.returnsFresh o

instance (h : Held) : (o : Op) → Decidable (HandsOut h o)
  | .get _ => isTrue trivial
  | .free address size => inferInstanceAs (Decidable ((address, size) ∈ h.outstanding))
  | .remove _ _ => isFalse id

theorem separated_run_reuse : ∃ s, init (fun _ => ⟨0, 0, none⟩) 0x300000 = .ok s ∧
    machine.EachStep HandsOut ⟨s, []⟩
      [.get (2 ^ 42 - 0x200000), .get 4096, .get 4096, .free (2 ^ 64 - 2 ^ 42) 4096] ∧
    machine.Always Separated ⟨s, []⟩
      [.get (2 ^ 42 - 0x200000), .get 4096, .get 4096, .free (2 ^ 64 - 2 ^ 42) 4096] := by
  have evaluated : completesWith (init (fun _ => ⟨0, 0, none⟩) 0x300000) (fun s =>
      decide (machine.EachStep HandsOut ⟨s, []⟩
        [.get (2 ^ 42 - 0x200000), .get 4096, .get 4096, .free (2 ^ 64 - 2 ^ 42) 4096])) = true := by
    decide +kernel
  obtain ⟨s, hinit, legal⟩ := exists_of_completesWith evaluated
  exact ⟨s, hinit, of_decide_eq_true legal, (separated_run hinit (of_decide_eq_true legal)).1⟩

/-! ## Nothing is lost -/

/-- A free adds its region to the free addresses and loses none, and a remove
takes out its area and nothing else. -/
def NothingLost (h : Held) (o : Op) : Prop :=
  ∀ h', h.step o = .ok h' →
    match o with
    | .get _ => True
    | .free address size => h.vma.free ∪ Set.Ico address (address + size) ⊆ h'.vma.free
    | .remove base size => h'.vma.free = h.vma.free \ Set.Ico base (base + alignTo size PAGE_SIZE)

/-- No call rewrites the `next` of an empty node in front of nodes with addresses,
and no emptied node with base 0 is taken for the one that covers an area. -/
def Keeps (h : Held) : Op → Prop
  | .get _ => True
  | .free address size => h.vma.AddKeeps address size
  | .remove base size => h.vma.RemoveKeeps base size

theorem HeldInv.step {h h' : Held} {o : Op} (inv : ∃ k, HeldInv h k)
    (ok : Legal h o ∧ Keeps h o) (hs : machine.step h o = .ok h') : ∃ k, HeldInv h' k := by
  obtain ⟨k, inv⟩ := inv
  obtain ⟨legal, keeps⟩ := ok
  cases o with
  | get size => exact ⟨k, (inv.get hs).1⟩
  | free address size =>
      obtain ⟨k', inv', -⟩ := inv.free legal hs
      exact ⟨k', inv'⟩
  | remove base size =>
      obtain ⟨k', inv', -⟩ := inv.remove legal (fun i found => (keeps i found).1) hs
      exact ⟨k', inv'⟩

theorem HeldInv.nothingLost {h : Held} {o : Op} {k : Nat} (inv : HeldInv h k)
    (legal : Legal h o) (keeps : Keeps h o) : NothingLost h o := by
  intro h' hs
  cases o with
  | get size => trivial
  | free address size =>
      obtain ⟨k', -, free⟩ := inv.free legal hs
      exact (free keeps).ge
  | remove base size =>
      obtain ⟨k', -, free⟩ := inv.remove legal (fun i found => (keeps i found).1) hs
      exact free keeps

/-- In a run after `init` whose calls all meet `Keeps`, no address is lost. -/
theorem nothing_lost_run {memory : Nat → FreeNode} {physicalPage : Nat} {s : State} {ops : List Op}
    (hinit : init memory physicalPage = .ok s) (legal : machine.EachStep Legal ⟨s, []⟩ ops)
    (keeps : machine.EachStep Keeps ⟨s, []⟩ ops) : machine.EachStep NothingLost ⟨s, []⟩ ops := by
  refine Machine.eachStep_of_inv (fun _ _ _ inv => HeldInv.step inv) ?_ (init_heldInv hinit)
    (Machine.eachStep_and legal keeps)
  rintro h o ⟨k, inv⟩ ⟨legal, keeps⟩
  exact inv.nothingLost legal keeps

instance (h : Held) : (o : Op) → Decidable (Legal h o)
  | .get _ => isTrue trivial
  | .free address size => inferInstanceAs (Decidable ((address, size) ∈ h.outstanding))
  | .remove base _ => inferInstanceAs (Decidable (base < 2 ^ 64 ∧ ∃ i ∈ h.vma.listed, _))

instance (h : Held) : (o : Op) → Decidable (Keeps h o)
  | .get _ => isTrue trivial
  | .free address size => inferInstanceAs (Decidable (h.vma.AddKeeps address size))
  | .remove base size => inferInstanceAs (Decidable (h.vma.RemoveKeeps base size))

theorem nothing_lost_run_append : ∃ s, init (fun _ => ⟨0, 0, none⟩) 0x300000 = .ok s ∧
    machine.EachStep NothingLost ⟨s, []⟩
      [.get 4096, .get 4096, .free 0x200000 4096, .remove 0x300000 4096] := by
  have evaluated : completesWith (init (fun _ => ⟨0, 0, none⟩) 0x300000) (fun s =>
      decide (machine.EachStep Legal ⟨s, []⟩
          [.get 4096, .get 4096, .free 0x200000 4096, .remove 0x300000 4096] ∧
        machine.EachStep Keeps ⟨s, []⟩
          [.get 4096, .get 4096, .free 0x200000 4096, .remove 0x300000 4096])) = true := by
    decide +kernel
  obtain ⟨s, hinit, guards⟩ := exists_of_completesWith evaluated
  obtain ⟨legal, keeps⟩ := of_decide_eq_true guards
  exact ⟨s, hinit, nothing_lost_run hinit legal keeps⟩

instance (s : State) (x : Nat) : Decidable (x ∈ s.free) :=
  inferInstanceAs (Decidable (∃ i ∈ s.listed, (s.nodes i).base ≤ x ∧
    x < (s.nodes i).base + (s.nodes i).size))

/-- The positive half is handed out, which empties the first node; two pages of
the negative half are handed out and the first of them comes back. It takes over
the first node and cuts off all others. -/
theorem addresses_lost : ∃ s, init (fun _ => ⟨0, 0, none⟩) 0x300000 = .ok s ∧
    machine.EachStep Legal ⟨s, []⟩
      [.get (2 ^ 42 - 0x200000), .get 4096, .get 4096, .free (2 ^ 64 - 2 ^ 42) 4096] ∧
    ¬ machine.EachStep NothingLost ⟨s, []⟩
      [.get (2 ^ 42 - 0x200000), .get 4096, .get 4096, .free (2 ^ 64 - 2 ^ 42) 4096] := by
  have evaluated : completesWith (init (fun _ => ⟨0, 0, none⟩) 0x300000) (fun s =>
      decide (machine.EachStep Legal ⟨s, []⟩
        [.get (2 ^ 42 - 0x200000), .get 4096, .get 4096, .free (2 ^ 64 - 2 ^ 42) 4096]) &&
      completesWith (machine.run ⟨s, []⟩ [.get (2 ^ 42 - 0x200000), .get 4096, .get 4096])
        (fun h => decide (KERNEL_VMA_END ∈ h.vma.free) &&
          completesWith (h.step (.free (2 ^ 64 - 2 ^ 42) 4096))
            (fun h' => decide (KERNEL_VMA_END ∉ h'.vma.free)))) = true := by
    decide +kernel
  obtain ⟨s, hinit, rest⟩ := exists_of_completesWith evaluated
  obtain ⟨legal, rest⟩ := Bool.and_eq_true_iff.mp rest
  obtain ⟨h, hrun, rest⟩ := exists_of_completesWith rest
  obtain ⟨before, rest⟩ := Bool.and_eq_true_iff.mp rest
  obtain ⟨h', hstep, after⟩ := exists_of_completesWith rest
  refine ⟨s, hinit, of_decide_eq_true legal, fun lost => ?_⟩
  have last : NothingLost h (.free (2 ^ 64 - 2 ^ 42) 4096) :=
    Machine.EachStep.of_run [.get (2 ^ 42 - 0x200000), .get 4096, .get 4096] [] lost hrun
  exact of_decide_eq_true after (last h' hstep (Or.inl (of_decide_eq_true before)))

end Tyleros.Vma
