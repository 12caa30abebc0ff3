import Tyleros.Vma.Model
import Mathlib.Data.Set.BooleanAlgebra
import Mathlib.Order.CompletePartialOrder

/-!
# The free list

`ListInv s k` is the invariant of the list: it occupies the first `k` nodes of
the array, in order, and the ranges of these nodes lie below `2 ^ 64`, do not
contain address 0 and are pairwise disjoint. An emptied node may have any base,
in particular 0 when it ended at the top of the address space.

Each operation has one specification lemma over it: `add_spec`, `get_spec` and
`remove_spec`. Adding a range never frees more than that range; it loses no
address exactly when the range merges with a node or when no node with addresses
sits behind the empty node that is reused (`AddKeeps`).
-/

namespace Tyleros.Vma

/-! ## What a completed call does -/

/-- The first empty node of the list, which the walk sets aside for reuse. -/
def State.firstEmpty (s : State) : Option Nat := s.listed.find? fun i => (s.nodes i).size = 0

/-- The range touches the node on either side. -/
def touches (n : FreeNode) (base size : Nat) : Bool :=
  endsBefore n base size || startsBehind n base

/-- `n'` is `n` extended by the range on the side where they touch. -/
def MergesInto (n : FreeNode) (base size : Nat) (n' : FreeNode) : Prop :=
  (endsBefore n base size = true ∧
      n' = { n with base := base, size := add64 n.size size }) ∨
    (startsBehind n base = true ∧ n' = { n with size := add64 n.size size })

/-- The range merges with a node of the list. The first empty node is set aside
and not looked at. -/
def State.Merges (s : State) (base size : Nat) : Prop :=
  ∃ i ∈ s.listed, some i ≠ s.firstEmpty ∧ touches (s.nodes i) base size = true

instance (s : State) (base size : Nat) : Decidable (s.Merges base size) :=
  inferInstanceAs (Decidable (∃ i ∈ s.listed, _))

/-- Adding the range keeps every free address: it merges with a node, or no node
with addresses comes behind an empty one. -/
def State.AddKeeps (s : State) (base size : Nat) : Prop :=
  s.Merges base size ∨
    ∀ i ∈ s.listed, ∀ j ∈ s.listed, i < j → (s.nodes i).size = 0 → (s.nodes j).size = 0

instance (s : State) (base size : Nat) : Decidable (s.AddKeeps base size) :=
  inferInstanceAs (Decidable (_ ∨ ∀ i ∈ s.listed, ∀ j ∈ s.listed, _))

theorem addWalk_cases (s : State) (base size : Nat) (l : List Nat) (last : Nat)
    (emptyNode : Option Nat) :
    (∃ i ∈ l, ∃ n, MergesInto (s.nodes i) base size n ∧
        addWalk s base size l last emptyNode = .merged i n) ∨
      ((∀ i ∈ l, some i ≠ (emptyNode <|> l.find? fun i => (s.nodes i).size = 0) →
          touches (s.nodes i) base size = false) ∧
        addWalk s base size l last emptyNode =
          .unmerged (l.getLast?.getD last)
            (emptyNode <|> l.find? fun i => (s.nodes i).size = 0)) := by
  induction l generalizing last emptyNode with
  | nil =>
      refine Or.inr ⟨fun i mem => absurd mem List.not_mem_nil, ?_⟩
      simp [addWalk]
  | cons i rest ih =>
      have behind : ((i :: rest).getLast?).getD last = (rest.getLast?).getD i := by
        rw [List.getLast?_cons, Option.getD_some]
      simp only [addWalk]
      split
      · next here =>
          obtain ⟨rfl, empty⟩ := here
          have found : (none <|> (i :: rest).find? fun i => (s.nodes i).size = 0) = some i := by
            simp [empty]
          have skipped : (some i <|> rest.find? fun i => (s.nodes i).size = 0) = some i := rfl
          rw [found, behind]
          have rest_ := ih i (some i)
          rw [skipped] at rest_
          rcases rest_ with ⟨j, mem, n, merges, result⟩ | ⟨untouched, result⟩
          · exact Or.inl ⟨j, List.mem_cons_of_mem i mem, n, merges, result⟩
          · refine Or.inr ⟨fun j mem ne => ?_, result⟩
            rcases List.mem_cons.mp mem with rfl | later
            · exact absurd rfl ne
            · exact untouched j later ne
      · next notFirst =>
          have found : (emptyNode <|> (i :: rest).find? fun i => (s.nodes i).size = 0) =
              (emptyNode <|> rest.find? fun i => (s.nodes i).size = 0) := by
            cases emptyNode with
            | some e => rfl
            | none =>
                have full : (s.nodes i).size ≠ 0 := fun empty => notFirst ⟨rfl, empty⟩
                simp [full]
          split
          · next before => exact Or.inl ⟨i, List.mem_cons_self, _, Or.inl ⟨before, rfl⟩, rfl⟩
          · next notBefore =>
              split
              · next behindIt =>
                  exact Or.inl ⟨i, List.mem_cons_self, _, Or.inr ⟨behindIt, rfl⟩, rfl⟩
              · next notBehind =>
                  rw [found, behind]
                  rcases ih i emptyNode with ⟨j, mem, n, merges, result⟩ | ⟨untouched, result⟩
                  · exact Or.inl ⟨j, List.mem_cons_of_mem i mem, n, merges, result⟩
                  · refine Or.inr ⟨fun j mem ne => ?_, result⟩
                    rcases List.mem_cons.mp mem with rfl | later
                    · simp [touches, notBefore, notBehind]
                    · exact untouched j later ne

/-- A completed `add_node_to_free_list` merges the range into a node, or reuses
the first empty node as the end of the list, or appends a node. -/
theorem addNodeToFreeList_cases {s s' : State} {base size : Nat}
    (h : addNodeToFreeList base size s = .ok s') :
    (∃ i ∈ s.listed, ∃ n, MergesInto (s.nodes i) base size n ∧ s' = s.setNode i n) ∨
      (¬ s.Merges base size ∧ ∃ e, s.firstEmpty = some e ∧ s' = s.setNode e ⟨base, size, none⟩) ∨
      (s.firstEmpty = none ∧ s.freeListSize + 1 ≠ s.maxFreeListSize ∧
        s' = ({ s with freeListSize := s.freeListSize + 1 }.setNode (s.listed.getLast?.getD 0)
          { s.nodes (s.listed.getLast?.getD 0) with
            next := some (s.listed.getLast?.getD 0 + 1) }).setNode
          (s.listed.getLast?.getD 0 + 1) ⟨base, size, none⟩) := by
  unfold addNodeToFreeList at h
  rcases addWalk_cases s base size s.listed 0 none with
    ⟨i, mem, n, merges, result⟩ | ⟨untouched, result⟩
  · rw [result] at h
    cases h
    exact Or.inl ⟨i, mem, n, merges, rfl⟩
  · have unmerged : ¬ s.Merges base size := by
      rintro ⟨i, mem, ne, touch⟩
      have := untouched i mem ne
      rw [touch] at this
      cases this
    have result : addWalk s base size s.listed 0 none =
        .unmerged (s.listed.getLast?.getD 0) s.firstEmpty := result
    rw [result] at h
    cases first : s.firstEmpty with
    | some e =>
        rw [first] at h
        cases h
        exact Or.inr (Or.inl ⟨unmerged, e, rfl, rfl⟩)
    | none =>
        rw [first] at h
        obtain ⟨_, room, h⟩ := bind_eq_ok h
        have room := kassert_eq_ok room
        cases h
        refine Or.inr (Or.inr ⟨rfl, ?_, rfl⟩)
        simpa [State.setNode] using room

/-! ## Ranges below the top of the address space -/

/-- A range that does not wrap around and does not contain address 0. -/
structure Fits (base size : Nat) : Prop where
  base_lt : base < 2 ^ 64
  end_le : base + size ≤ 2 ^ 64
  pos : 0 < size → 0 < base

/-- Where a node and a range touch, the merged node holds exactly the addresses
of both, also at the top of the address space. -/
theorem MergesInto.range {n n' : FreeNode} {base size : Nat} (h : MergesInto n base size n')
    (node : Fits n.base n.size) (area : Fits base size) :
    n'.range = n.range ∪ Set.Ico base (base + size) ∧ Fits n'.base n'.size ∧ n'.next = n.next := by
  obtain ⟨baseLt, endLe, pos⟩ := node
  obtain ⟨baseLt', endLe', pos'⟩ := area
  rcases h with ⟨touch, rfl⟩ | ⟨touch, rfl⟩
  · simp only [endsBefore, lastAddress, sub64, add64, beq_iff_eq] at touch
    have total : add64 n.size size = n.size + size := by
      unfold add64
      omega
    refine ⟨?_, ⟨baseLt', ?_, ?_⟩, rfl⟩
    · ext x
      simp only [FreeNode.range, total, Set.mem_union, Set.mem_Ico]
      omega
    · simp only [total]
      omega
    · simp only [total]
      omega
  · simp only [startsBehind, lastAddress, sub64, add64, beq_iff_eq] at touch
    have total : add64 n.size size = n.size + size := by
      unfold add64
      omega
    refine ⟨?_, ⟨baseLt, ?_, ?_⟩, rfl⟩
    · ext x
      simp only [FreeNode.range, total, Set.mem_union, Set.mem_Ico]
      omega
    · simp only [total]
      omega
    · simp only [total]
      omega

/-! ## The list invariant -/

/-- The list is made of the first `k` nodes of the array, in order; their ranges
fit the address space and are pairwise disjoint. -/
structure ListInv (s : State) (k : Nat) : Prop where
  pos : 0 < k
  chain : ∀ i, i < k → (s.nodes i).next = if i + 1 < k then some (i + 1) else none
  room : k ≤ s.freeListSize + 1
  limit : s.freeListSize < NODES_PER_PAGE
  max : s.maxFreeListSize = NODES_PER_PAGE
  fits : ∀ i, i < k → Fits (s.nodes i).base (s.nodes i).size
  disjoint : ∀ i j, i < k → j < k → i ≠ j → Disjoint (s.nodes i).range (s.nodes j).range

theorem ListInv.listedFrom_eq {s : State} {k : Nat} (inv : ListInv s k) (fuel i : Nat)
    (le : i ≤ k) (enough : k - i ≤ fuel) :
    s.listedFrom fuel (if i < k then some i else none) = List.range' i (k - i) := by
  induction fuel generalizing i with
  | zero =>
      have done : k - i = 0 := by omega
      rw [done]
      rfl
  | succ fuel ih =>
      by_cases more : i < k
      · rw [if_pos more, State.listedFrom, inv.chain i more, ih (i + 1) (by omega) (by omega),
          show k - i = k - (i + 1) + 1 by omega, List.range'_succ]
      · rw [if_neg more, show k - i = 0 by omega]
        rfl

/-- In a state with the invariant the walk is complete. -/
theorem ListInv.listed_eq {s : State} {k : Nat} (inv : ListInv s k) :
    s.listed = List.range k := by
  have le : k ≤ NODES_PER_PAGE := by
    have := inv.room
    have := inv.limit
    omega
  have walk := inv.listedFrom_eq NODES_PER_PAGE 0 (Nat.zero_le k) (by omega)
  rw [if_pos inv.pos] at walk
  rw [State.listed, walk, Nat.sub_zero, List.range_eq_range']

theorem ListInv.mem_listed {s : State} {k : Nat} (inv : ListInv s k) {i : Nat} :
    i ∈ s.listed ↔ i < k := by rw [inv.listed_eq, List.mem_range]

theorem ListInv.mem_free {s : State} {k : Nat} (inv : ListInv s k) {x : Nat} :
    x ∈ s.free ↔ ∃ i, i < k ∧ x ∈ (s.nodes i).range := by
  simp only [State.free, Set.mem_ofPred_eq, inv.mem_listed]

theorem ListInv.last_eq {s : State} {k : Nat} (inv : ListInv s k) :
    s.listed.getLast?.getD 0 = k - 1 := by
  have := inv.pos
  rw [inv.listed_eq, List.getLast?_range, if_neg (by omega)]
  rfl

theorem ListInv.firstEmpty_some {s : State} {k e : Nat} (inv : ListInv s k)
    (h : s.firstEmpty = some e) :
    e < k ∧ (s.nodes e).size = 0 ∧ ∀ i, i < e → (s.nodes i).size ≠ 0 := by
  have member := inv.mem_listed.mp (List.mem_of_find?_eq_some h)
  have empty := List.find?_some h
  refine ⟨member, by simpa using empty, fun i before size => ?_⟩
  rw [State.firstEmpty, inv.listed_eq, List.find?_range_eq_some] at h
  simpa [size] using h.2.2 i before

/-- Changing one node, without relinking it, to one whose range stays clear of
the other nodes keeps the invariant. -/
theorem ListInv.setNode {s : State} {k i : Nat} {n : FreeNode} (inv : ListInv s k) (bound : i < k)
    (next : n.next = (s.nodes i).next) (fits : Fits n.base n.size)
    (apart : ∀ j, j < k → j ≠ i → Disjoint n.range (s.nodes j).range) :
    ListInv (s.setNode i n) k := by
  have at_ := fun j => s.nodes_setNode i j n
  refine ⟨inv.pos, fun j hj => ?_, inv.room, inv.limit, inv.max, fun j hj => ?_,
    fun a b ha hb ne => ?_⟩
  · rw [at_]
    split
    · next eq => rw [next, eq]; exact inv.chain i bound
    · exact inv.chain j hj
  · rw [at_]
    split
    · exact fits
    · exact inv.fits j hj
  · rw [at_, at_]
    split <;> split
    · next eqA eqB => exact absurd (eqA.trans eqB.symm) ne
    · next eqB => exact apart b hb eqB
    · next eqA _ => exact (apart a ha eqA).symm
    · exact inv.disjoint a b ha hb ne

/-- The free addresses after one node was changed. -/
theorem ListInv.mem_free_setNode {s : State} {k i : Nat} {n : FreeNode}
    (inv : ListInv (s.setNode i n) k) (bound : i < k) {x : Nat} :
    x ∈ (s.setNode i n).free ↔ x ∈ n.range ∨ ∃ j, j < k ∧ j ≠ i ∧ x ∈ (s.nodes j).range := by
  rw [inv.mem_free]
  constructor
  · rintro ⟨j, hj, mem⟩
    by_cases eq : j = i
    · subst eq
      rw [State.nodes_setNode_self] at mem
      exact Or.inl mem
    · rw [s.nodes_setNode_of_ne eq] at mem
      exact Or.inr ⟨j, hj, eq, mem⟩
  · rintro (mem | ⟨j, hj, ne, mem⟩)
    · refine ⟨i, bound, ?_⟩
      rwa [State.nodes_setNode_self]
    · refine ⟨j, hj, ?_⟩
      rwa [s.nodes_setNode_of_ne ne]

/-! ## Adding a range -/

section Add

variable {s : State} {k base size : Nat}

theorem ListInv.merge {i : Nat} {n : FreeNode} (inv : ListInv s k) (area : Fits base size)
    (apart : ∀ i, i < k → Disjoint (s.nodes i).range (Set.Ico base (base + size)))
    (bound : i < k) (merges : MergesInto (s.nodes i) base size n) :
    ListInv (s.setNode i n) k ∧
      (s.setNode i n).free = s.free ∪ Set.Ico base (base + size) := by
  obtain ⟨range, fits, next⟩ := merges.range (inv.fits i bound) area
  have inv' : ListInv (s.setNode i n) k := by
    refine inv.setNode bound next fits fun j hj ne => ?_
    rw [range, Set.disjoint_union_left]
    exact ⟨inv.disjoint i j bound hj ne.symm, (apart j hj).symm⟩
  refine ⟨inv', Set.ext fun x => ?_⟩
  rw [inv'.mem_free_setNode bound, range, Set.mem_union, Set.mem_union, inv.mem_free]
  constructor
  · rintro ((here | new) | ⟨j, hj, -, there⟩)
    · exact Or.inl ⟨i, bound, here⟩
    · exact Or.inr new
    · exact Or.inl ⟨j, hj, there⟩
  · rintro (⟨j, hj, mem⟩ | new)
    · by_cases eq : j = i
      · exact Or.inl (Or.inl (eq ▸ mem))
      · exact Or.inr ⟨j, hj, eq, mem⟩
    · exact Or.inl (Or.inr new)

/-- Reusing the first empty node makes it the end of the list. -/
theorem ListInv.reuse {e : Nat} (inv : ListInv s k) (area : Fits base size)
    (apart : ∀ i, i < k → Disjoint (s.nodes i).range (Set.Ico base (base + size)))
    (bound : e < k) :
    ListInv (s.setNode e ⟨base, size, none⟩) (e + 1) ∧
      ∀ x, x ∈ (s.setNode e ⟨base, size, none⟩).free ↔
        x ∈ Set.Ico base (base + size) ∨ ∃ j, j < e ∧ x ∈ (s.nodes j).range := by
  have at_ := fun j => s.nodes_setNode e j ⟨base, size, none⟩
  have inv' : ListInv (s.setNode e ⟨base, size, none⟩) (e + 1) := by
    refine ⟨Nat.succ_pos e, fun j hj => ?_, by have := inv.room; simp only [State.setNode]; omega,
      inv.limit, inv.max, fun j hj => ?_, fun a b ha hb ne => ?_⟩
    · rw [at_]
      split
      · next eq => rw [if_neg (by omega)]
      · next ne => rw [inv.chain j (by omega), if_pos (by omega), if_pos (by omega)]
    · rw [at_]
      split
      · exact area
      · exact inv.fits j (by omega)
    · rw [at_, at_]
      split <;> split
      · next eqA eqB => exact absurd (eqA.trans eqB.symm) ne
      · exact (apart b (by omega)).symm
      · exact apart a (by omega)
      · exact inv.disjoint a b (by omega) (by omega) ne
  refine ⟨inv', fun x => ?_⟩
  rw [inv'.mem_free]
  constructor
  · rintro ⟨j, hj, mem⟩
    rw [at_] at mem
    split at mem
    · exact Or.inl mem
    · exact Or.inr ⟨j, by omega, mem⟩
  · rintro (new | ⟨j, hj, mem⟩)
    · exact ⟨e, by omega, by rw [at_, if_pos rfl]; exact new⟩
    · exact ⟨j, by omega, by rw [at_, if_neg (by omega)]; exact mem⟩

/-- Appending a node behind the last one. -/
theorem ListInv.append (inv : ListInv s k) (area : Fits base size)
    (apart : ∀ i, i < k → Disjoint (s.nodes i).range (Set.Ico base (base + size)))
    (room : s.freeListSize + 1 ≠ s.maxFreeListSize) :
    let s' := ({ s with freeListSize := s.freeListSize + 1 }.setNode (k - 1)
      { s.nodes (k - 1) with next := some (k - 1 + 1) }).setNode (k - 1 + 1) ⟨base, size, none⟩
    ListInv s' (k + 1) ∧ s'.free = s.free ∪ Set.Ico base (base + size) := by
  intro s'
  have pos := inv.pos
  have last : k - 1 + 1 = k := by omega
  have at_ : ∀ j, s'.nodes j = if j = k then ⟨base, size, none⟩
      else if j = k - 1 then { s.nodes (k - 1) with next := some k } else s.nodes j := by
    intro j
    simp only [s', State.nodes_setNode, last]
  have old : ∀ j, j < k → (s'.nodes j).range = (s.nodes j).range ∧
      (s'.nodes j).base = (s.nodes j).base ∧ (s'.nodes j).size = (s.nodes j).size := by
    intro j hj
    rw [at_, if_neg (by omega)]
    split
    · next eq => subst eq; exact ⟨rfl, rfl, rfl⟩
    · exact ⟨rfl, rfl, rfl⟩
  have new : (s'.nodes k).range = Set.Ico base (base + size) := by
    rw [at_, if_pos rfl]
    rfl
  have inv' : ListInv s' (k + 1) := by
    refine ⟨Nat.succ_pos k, fun j hj => ?_, Nat.succ_le_succ inv.room, ?_, inv.max,
      fun j hj => ?_, fun a b ha hb ne => ?_⟩
    · rw [at_]
      split
      · next eq => rw [if_neg (by omega)]
      · split
        · next eq => rw [if_pos (by omega), eq, last]
        · rw [inv.chain j (by omega), if_pos (by omega), if_pos (by omega)]
    · have limit := inv.limit
      have max := inv.max
      show s.freeListSize + 1 < NODES_PER_PAGE
      omega
    · by_cases eq : j = k
      · rw [at_, if_pos eq]
        exact area
      · obtain ⟨-, sameBase, sameSize⟩ := old j (by omega)
        rw [sameBase, sameSize]
        exact inv.fits j (by omega)
    · by_cases eqA : a = k <;> by_cases eqB : b = k
      · exact absurd (eqA.trans eqB.symm) ne
      · rw [eqA, new, (old b (by omega)).1]
        exact (apart b (by omega)).symm
      · rw [eqB, new, (old a (by omega)).1]
        exact apart a (by omega)
      · rw [(old a (by omega)).1, (old b (by omega)).1]
        exact inv.disjoint a b (by omega) (by omega) ne
  refine ⟨inv', Set.ext fun x => ?_⟩
  rw [inv'.mem_free, Set.mem_union, inv.mem_free]
  constructor
  · rintro ⟨j, hj, mem⟩
    by_cases eq : j = k
    · rw [eq, new] at mem
      exact Or.inr mem
    · rw [(old j (by omega)).1] at mem
      exact Or.inl ⟨j, by omega, mem⟩
  · rintro (⟨j, hj, mem⟩ | mem)
    · exact ⟨j, by omega, by rw [(old j hj).1]; exact mem⟩
    · exact ⟨k, by omega, by rw [new]; exact mem⟩

/-- Adding a range keeps the invariant and frees nothing outside the range; if
`AddKeeps` holds it frees exactly the range. -/
theorem add_spec {s' : State} (inv : ListInv s k) (area : Fits base size)
    (apart : ∀ i, i < k → Disjoint (s.nodes i).range (Set.Ico base (base + size)))
    (h : addNodeToFreeList base size s = .ok s') :
    ∃ k', ListInv s' k' ∧ s'.free ⊆ s.free ∪ Set.Ico base (base + size) ∧
      (s.AddKeeps base size → s'.free = s.free ∪ Set.Ico base (base + size)) := by
  rcases addNodeToFreeList_cases h with
    ⟨i, mem, n, merges, rfl⟩ | ⟨unmerged, e, first, rfl⟩ | ⟨first, room, rfl⟩
  · obtain ⟨inv', free⟩ := inv.merge area apart (inv.mem_listed.mp mem) merges
    exact ⟨k, inv', free.le, fun _ => free⟩
  · obtain ⟨bound, empty, -⟩ := inv.firstEmpty_some first
    obtain ⟨inv', free⟩ := inv.reuse area apart bound
    have grows : (s.setNode e ⟨base, size, none⟩).free ⊆ s.free ∪ Set.Ico base (base + size) := by
      intro x mem
      rcases (free x).mp mem with new | ⟨j, hj, old⟩
      · exact Or.inr new
      · exact Or.inl (inv.mem_free.mpr ⟨j, by omega, old⟩)
    refine ⟨e + 1, inv', grows, fun keeps => Set.Subset.antisymm grows ?_⟩
    -- nothing sits behind the reused node, so cutting the list there loses nothing
    have behind := keeps.resolve_left unmerged
    rintro x (old | new)
    · obtain ⟨j, hj, mem⟩ := inv.mem_free.mp old
      have full : (s.nodes j).size ≠ 0 := by
        intro zero
        rw [FreeNode.range, Set.mem_Ico, zero] at mem
        omega
      have before : j < e := by
        by_contra notBefore
        have ne : j ≠ e := fun eq => full (eq ▸ empty)
        exact full (behind e (inv.mem_listed.mpr bound) j (inv.mem_listed.mpr hj) (by omega) empty)
      exact (free x).mpr (Or.inr ⟨j, before, mem⟩)
    · exact (free x).mpr (Or.inl new)
  · rw [inv.last_eq]
    obtain ⟨inv', free⟩ := inv.append area apart room
    exact ⟨k + 1, inv', free.le, fun _ => free⟩

end Add

/-! ## Taking ranges out -/

/-- Cutting a node down to part of its range. -/
theorem ListInv.shrink {s : State} {k i : Nat} {n : FreeNode} (inv : ListInv s k) (bound : i < k)
    (next : n.next = (s.nodes i).next) (fits : Fits n.base n.size)
    (part : n.range ⊆ (s.nodes i).range) :
    ListInv (s.setNode i n) k ∧
      (s.setNode i n).free = s.free \ ((s.nodes i).range \ n.range) := by
  have inv' : ListInv (s.setNode i n) k :=
    inv.setNode bound next fits fun j hj ne =>
      (inv.disjoint i j bound hj ne.symm).mono_left part
  refine ⟨inv', Set.ext fun x => ?_⟩
  rw [inv'.mem_free_setNode bound, Set.mem_sdiff, inv.mem_free, Set.mem_sdiff]
  constructor
  · rintro (here | ⟨j, hj, ne, there⟩)
    · exact ⟨⟨i, bound, part here⟩, fun cut => cut.2 here⟩
    · refine ⟨⟨j, hj, there⟩, fun cut => ?_⟩
      exact Set.disjoint_left.mp (inv.disjoint j i hj bound ne) there cut.1
  · rintro ⟨⟨j, hj, mem⟩, notCut⟩
    by_cases eq : j = i
    · subst eq
      exact Or.inl (by_contra fun out => notCut ⟨mem, out⟩)
    · exact Or.inr ⟨j, hj, eq, mem⟩

/-- `get_virtual_pages` takes the start of one node. -/
theorem get_spec {s s' : State} {k size address : Nat} (inv : ListInv s k)
    (h : getVirtualPages size s = .ok (address, s')) :
    ListInv s' k ∧ Fits address size ∧ 0 < size ∧
      Set.Ico address (address + size) ⊆ s.free ∧
      s'.free = s.free \ Set.Ico address (address + size) := by
  unfold getVirtualPages at h
  obtain ⟨_, nonzero, h⟩ := bind_eq_ok h
  obtain ⟨_, -, h⟩ := bind_eq_ok h
  have nonzero : size ≠ 0 := by simpa using kassert_eq_ok nonzero
  split at h
  · cases h
  · next i found =>
      have bound := inv.mem_listed.mp (List.mem_of_find?_eq_some found)
      have enough : size ≤ (s.nodes i).size := by simpa using List.find?_some found
      cases h
      obtain ⟨baseLt, endLe, pos⟩ := inv.fits i bound
      have fits' : Fits (add64 (s.nodes i).base size) (sub64 (s.nodes i).size size) := by
        refine ⟨add64_lt _ _, ?_, ?_⟩
        · unfold add64 sub64
          omega
        · unfold add64 sub64
          omega
      have range' : ∀ x, x ∈ Set.Ico (add64 (s.nodes i).base size)
          (add64 (s.nodes i).base size + sub64 (s.nodes i).size size) ↔
          (s.nodes i).base + size ≤ x ∧ x < (s.nodes i).base + (s.nodes i).size := by
        intro x
        rw [Set.mem_Ico]
        unfold add64 sub64
        omega
      have part : Set.Ico (s.nodes i).base ((s.nodes i).base + size) ⊆ s.free := by
        intro x mem
        rw [Set.mem_Ico] at mem
        exact inv.mem_free.mpr ⟨i, bound, Set.mem_Ico.mpr ⟨mem.1, by omega⟩⟩
      obtain ⟨inv', free⟩ := inv.shrink (n := { s.nodes i with
          base := add64 (s.nodes i).base size, size := sub64 (s.nodes i).size size })
        bound rfl fits' (by
          intro x mem
          have := (range' x).mp mem
          exact Set.mem_Ico.mpr ⟨by omega, this.2⟩)
      refine ⟨inv', ⟨baseLt, by omega, fun _ => pos (by omega)⟩, by omega, part, ?_⟩
      rw [free]
      congr 1
      ext x
      simp only [FreeNode.range, Set.mem_sdiff]
      rw [range' x, Set.mem_Ico, Set.mem_Ico]
      omega

/-- The node `remove_from_free_list` splits. -/
def State.areaNode (s : State) (base size : Nat) : Option Nat :=
  s.listed.find? fun i => coversArea (s.nodes i) base size

/-- Node `i` cut down to the part in front of `base`. -/
def State.cutFront (s : State) (i base : Nat) : State :=
  s.setNode i { s.nodes i with size := sub64 base (s.nodes i).base }

/-- Where the part of a node behind an area starts, and how long it is. -/
def restBase (base size : Nat) : Nat := add64 (lastAddress base size) 1

def restSize (n : FreeNode) (base size : Nat) : Nat :=
  sub64 (lastAddress n.base n.size) (lastAddress base size)

/-- An area inside a node splits it in three, unless the node is an emptied one
with base 0. -/
theorem area_split {n : FreeNode} {base size : Nat} (node : Fits n.base n.size)
    (nonzero : n.base ≠ 0) (areaLt : base < 2 ^ 64) (endLe : base + size ≤ 2 ^ 64)
    (covers : coversArea n base size = true) :
    n.base ≤ base ∧ base + size ≤ n.base + n.size ∧ sub64 base n.base = base - n.base ∧
      Fits (restBase base size) (restSize n base size) ∧
      Set.Ico (restBase base size) (restBase base size + restSize n base size) =
        Set.Ico (base + size) (n.base + n.size) := by
  obtain ⟨baseLt, nodeEnd, nodePos⟩ := node
  obtain ⟨front, back⟩ := Bool.and_eq_true_iff.mp covers
  have front : n.base ≤ base := of_decide_eq_true front
  have back : lastAddress base size ≤ lastAddress n.base n.size := of_decide_eq_true back
  unfold lastAddress add64 sub64 at back
  have inside : base + size ≤ n.base + n.size := by omega
  have restBase_eq : restBase base size = (base + size) % 2 ^ 64 := by
    unfold restBase lastAddress add64 sub64
    omega
  have restSize_eq : restSize n base size = n.base + n.size - (base + size) := by
    unfold restSize lastAddress add64 sub64
    omega
  refine ⟨front, inside, by unfold sub64; omega, ⟨?_, ?_, ?_⟩, ?_⟩
  · omega
  · omega
  · omega
  · rw [restBase_eq, restSize_eq]
    ext x
    rw [Set.mem_Ico, Set.mem_Ico]
    omega

/-- Taking the area out keeps the rest free: the node picked is not an emptied one
with base 0, whose end wraps around to the top of the address space, and adding
the part behind the area back loses nothing. -/
def State.RemoveKeeps (s : State) (base size : Nat) : Prop :=
  ∀ i, s.areaNode base (alignTo size PAGE_SIZE) = some i →
    (s.nodes i).base ≠ 0 ∧
      (s.cutFront i base).AddKeeps (restBase base (alignTo size PAGE_SIZE))
        (restSize (s.nodes i) base (alignTo size PAGE_SIZE))

instance (s : State) (base size : Nat) : Decidable (s.RemoveKeeps base size) :=
  inferInstanceAs (Decidable (∀ i ∈ s.areaNode base (alignTo size PAGE_SIZE), _))

/-- Cutting an area out of a node leaves the part in front of it in the node; the part
behind it is apart from all nodes. -/
theorem ListInv.cutFront {s : State} {k i base size : Nat} (inv : ListInv s k) (bound : i < k)
    (nonzero : (s.nodes i).base ≠ 0) (areaLt : base < 2 ^ 64) (endLe : base + size ≤ 2 ^ 64)
    (covers : coversArea (s.nodes i) base size = true) :
    ListInv (s.cutFront i base) k ∧
      (∀ j, j < k → Disjoint ((s.cutFront i base).nodes j).range
        (Set.Ico (restBase base size) (restBase base size + restSize (s.nodes i) base size))) ∧
      (s.cutFront i base).free ∪
          Set.Ico (restBase base size) (restBase base size + restSize (s.nodes i) base size) =
        s.free \ Set.Ico base (base + size) := by
  obtain ⟨front, inside, cutSize, -, restRange⟩ :=
    area_split (inv.fits i bound) nonzero areaLt endLe covers
  obtain ⟨baseLt, nodeEnd, nodePos⟩ := inv.fits i bound
  have cutRange : ∀ x, x ∈ FreeNode.range { s.nodes i with
      size := sub64 base (s.nodes i).base } ↔ (s.nodes i).base ≤ x ∧ x < base := by
    intro x
    rw [FreeNode.range, Set.mem_Ico]
    simp only [cutSize]
    omega
  obtain ⟨cutInv, cutFree⟩ : ListInv (s.cutFront i base) k ∧ (s.cutFront i base).free =
      s.free \ ((s.nodes i).range \ FreeNode.range { s.nodes i with
        size := sub64 base (s.nodes i).base }) := by
    refine inv.shrink bound rfl ⟨baseLt, ?_, ?_⟩ fun x mem => ?_
    · simp only [cutSize]
      omega
    · simp only [cutSize]
      omega
    · have := (cutRange x).mp mem
      exact Set.mem_Ico.mpr ⟨this.1, by omega⟩
  refine ⟨cutInv, fun j hj => ?_, ?_⟩
  · rw [restRange, State.cutFront, State.nodes_setNode, Set.disjoint_left]
    intro x mem behind
    rw [Set.mem_Ico] at behind
    split at mem
    · have := (cutRange x).mp mem
      omega
    · next ne =>
        refine Set.disjoint_left.mp (inv.disjoint j i hj bound ne) mem ?_
        exact Set.mem_Ico.mpr ⟨by omega, behind.2⟩
  · -- what is left in front and what is added back behind make up the complement
    ext x
    rw [Set.mem_union, cutFree, restRange, Set.mem_sdiff, Set.mem_sdiff, Set.mem_sdiff,
      cutRange, FreeNode.range, Set.mem_Ico, Set.mem_Ico, Set.mem_Ico]
    constructor
    · rintro (⟨old, notCut⟩ | behind)
      · exact ⟨old, by omega⟩
      · refine ⟨inv.mem_free.mpr ⟨i, bound, Set.mem_Ico.mpr ⟨by omega, behind.2⟩⟩, by omega⟩
    · rintro ⟨old, notArea⟩
      by_cases behind : base + size ≤ x ∧ x < (s.nodes i).base + (s.nodes i).size
      · exact Or.inr behind
      · exact Or.inl ⟨old, by omega⟩

/-- `remove_from_free_list` picks the first node around the area, and adds what is behind
the area back. -/
theorem removeFromFreeList_cases {s s' : State} {base size : Nat}
    (h : removeFromFreeList base size s = .ok s') :
    ∃ i, s.areaNode base (alignTo size PAGE_SIZE) = some i ∧ i ∈ s.listed ∧
      coversArea (s.nodes i) base (alignTo size PAGE_SIZE) = true ∧
      addNodeToFreeList (restBase base (alignTo size PAGE_SIZE))
        (restSize (s.nodes i) base (alignTo size PAGE_SIZE)) (s.cutFront i base) = .ok s' := by
  unfold removeFromFreeList at h
  dsimp only at h
  split at h
  · cases h
  · next i found =>
      exact ⟨i, found, List.mem_of_find?_eq_some found, by simpa using List.find?_some found, h⟩

/-- If the node it picks has a base other than 0, `remove_from_free_list` keeps the
invariant and leaves nothing of the area free; under `RemoveKeeps` it takes out
the area and nothing else. -/
theorem remove_spec {s s' : State} {k base size : Nat} (inv : ListInv s k)
    (areaLt : base < 2 ^ 64) (endLe : base + alignTo size PAGE_SIZE ≤ 2 ^ 64)
    (nonzero : ∀ i, s.areaNode base (alignTo size PAGE_SIZE) = some i → (s.nodes i).base ≠ 0)
    (h : removeFromFreeList base size s = .ok s') :
    ∃ k', ListInv s' k' ∧
      s'.free ⊆ s.free \ Set.Ico base (base + alignTo size PAGE_SIZE) ∧
      (s.RemoveKeeps base size →
        s'.free = s.free \ Set.Ico base (base + alignTo size PAGE_SIZE)) := by
  obtain ⟨i, found, listed, covers, h⟩ := removeFromFreeList_cases h
  have bound := inv.mem_listed.mp listed
  have rest := (area_split (inv.fits i bound) (nonzero i found) areaLt endLe covers).2.2.2.1
  obtain ⟨cutInv, apart, whole⟩ := inv.cutFront bound (nonzero i found) areaLt endLe covers
  obtain ⟨k', inv', grows, keeps⟩ := add_spec cutInv rest apart h
  rw [whole] at grows keeps
  exact ⟨k', inv', grows, fun removeKeeps => keeps (removeKeeps i found).2⟩

end Tyleros.Vma
