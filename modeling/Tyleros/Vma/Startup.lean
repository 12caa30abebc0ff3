import Tyleros.Vma.Runs

/-!
# The free list at startup

`init` fills the list with three ranges and takes the page of the list itself out of one
of them; the part behind that page becomes a fourth node. As long as the page is not at
the start of a range, no node is empty that has others behind it, and nothing is lost
(`init_list`). The same goes for what `kmain` takes out of the list after that
(`StartList.remove`).
-/

namespace Tyleros.Vma

/-! ## Adding to a list without empty nodes -/

section Adding

variable {s s' : State} {k base size : Nat}

/-- A range that touches no node gets a node of its own. -/
theorem add_appends (inv : ListInv s k) (area : Fits base size)
    (apart : ∀ i, i < k → Disjoint (s.nodes i).range (Set.Ico base (base + size)))
    (full : ∀ i, i < k → (s.nodes i).size ≠ 0)
    (untouched : ∀ i, i < k → touches (s.nodes i) base size = false)
    (h : addNodeToFreeList base size s = .ok s') :
    ListInv s' (k + 1) ∧ s'.free = s.free ∪ Set.Ico base (base + size) ∧
      (∀ i, i < k → (s'.nodes i).base = (s.nodes i).base ∧ (s'.nodes i).size = (s.nodes i).size) ∧
      (s'.nodes k).base = base ∧ (s'.nodes k).size = size := by
  have pos := inv.pos
  rcases addNodeToFreeList_cases h with
    ⟨i, mem, n, merges, -⟩ | ⟨-, e, first, -⟩ | ⟨-, room, rfl⟩
  · have apart := untouched i (inv.mem_listed.mp mem)
    rw [touches, Bool.or_eq_false_iff] at apart
    rcases merges with ⟨before, -⟩ | ⟨behind, -⟩
    · rw [apart.1] at before
      cases before
    · rw [apart.2] at behind
      cases behind
  · obtain ⟨bound, empty, -⟩ := inv.firstEmpty_some first
    exact absurd empty (full e bound)
  · rw [inv.last_eq]
    obtain ⟨inv', free⟩ := inv.append area apart room
    have last : k - 1 + 1 = k := by omega
    refine ⟨inv', free, fun i hi => ?_, ?_⟩
    · rw [State.nodes_setNode_of_ne _ (by omega), State.nodes_setNode]
      split
      · next eq => rw [eq]; exact ⟨rfl, rfl⟩
      · exact ⟨rfl, rfl⟩
    · rw [last, State.nodes_setNode_self]
      exact ⟨rfl, rfl⟩

/-- The node begins and ends on a page boundary. -/
def FreeNode.OnPages (n : FreeNode) : Prop := n.base % PAGE_SIZE = 0 ∧ n.size % PAGE_SIZE = 0

/-- The nodes of the list begin and end on page boundaries. -/
def OnPages (s : State) : Prop := ∀ i ∈ s.listed, (s.nodes i).OnPages

theorem MergesInto.onPages {n n' : FreeNode} (merges : MergesInto n base size n') (node : n.OnPages)
    (baseOnPage : base % PAGE_SIZE = 0) (sizeOnPage : size % PAGE_SIZE = 0) : n'.OnPages := by
  have sum : add64 n.size size % PAGE_SIZE = 0 := by
    have := node.2
    unfold add64 PAGE_SIZE at *
    omega
  rcases merges with ⟨-, rfl⟩ | ⟨-, rfl⟩
  · exact ⟨baseOnPage, sum⟩
  · exact ⟨node.1, sum⟩

theorem add_onPages (inv : ListInv s k) (area : Fits base size)
    (apart : ∀ i, i < k → Disjoint (s.nodes i).range (Set.Ico base (base + size)))
    (onPages : OnPages s) (baseOnPage : base % PAGE_SIZE = 0) (sizeOnPage : size % PAGE_SIZE = 0)
    (h : addNodeToFreeList base size s = .ok s') : OnPages s' := by
  have old : ∀ i, i < k → (s.nodes i).OnPages := fun i hi => onPages i (inv.mem_listed.mpr hi)
  have pos := inv.pos
  rcases addNodeToFreeList_cases h with
    ⟨i, mem, n, merges, rfl⟩ | ⟨-, e, first, rfl⟩ | ⟨-, room, rfl⟩
  · have bound := inv.mem_listed.mp mem
    obtain ⟨inv', -⟩ := inv.merge area apart bound merges
    intro j mem
    rw [State.nodes_setNode]
    split
    · exact merges.onPages (old i bound) baseOnPage sizeOnPage
    · exact old j (inv'.mem_listed.mp mem)
  · obtain ⟨bound, -, -⟩ := inv.firstEmpty_some first
    obtain ⟨inv', -⟩ := inv.reuse area apart bound
    intro j mem
    have hj := inv'.mem_listed.mp mem
    rw [State.nodes_setNode]
    split
    · exact ⟨baseOnPage, sizeOnPage⟩
    · exact old j (by omega)
  · rw [inv.last_eq]
    obtain ⟨inv', -⟩ := inv.append area apart room
    intro j mem
    have hj := inv'.mem_listed.mp mem
    rw [State.nodes_setNode]
    split
    · exact ⟨baseOnPage, sizeOnPage⟩
    · rw [State.nodes_setNode]
      split
      · exact old (k - 1) (by omega)
      · exact old j (by omega)

end Adding

/-! ## `init` -/

/-- The ranges that `init` marks as free. -/
def initialRanges : Set Nat :=
  Set.Ico 0x200000 (2 ^ 42) ∪ Set.Ico (2 ^ 64 - 2 ^ 42) KERNEL_VMA_START ∪
    Set.Ico KERNEL_VMA_END (2 ^ 64)

/-- Where range `i` starts. -/
def rangeStart : Nat → Nat
  | 0 => 0x200000
  | 1 => 2 ^ 64 - 2 ^ 42
  | _ => KERNEL_VMA_END

/-- Where range `i` ends. -/
def rangeEnd : Nat → Nat
  | 0 => 2 ^ 42
  | 1 => KERNEL_VMA_START
  | _ => 2 ^ 64

theorem range_bounds : ∀ i, i < 3 → 0 < rangeStart i ∧ rangeStart i < rangeEnd i ∧
    rangeEnd i ≤ 2 ^ 64 ∧ rangeStart i % PAGE_SIZE = 0 ∧ rangeEnd i % PAGE_SIZE = 0 := by decide

/-- Node `i` holds what is left of range `i` below an address. -/
def Holds (s : State) (i end_ : Nat) : Prop :=
  (s.nodes i).base = rangeStart i ∧ (s.nodes i).size = end_ - rangeStart i

theorem apart_of_le {n : FreeNode} {base size : Nat}
    (apart : n.base + n.size ≤ base ∨ base + size ≤ n.base) :
    Disjoint n.range (Set.Ico base (base + size)) := by
  rw [FreeNode.range, Set.disjoint_left]
  intro x mem area
  rw [Set.mem_Ico] at mem area
  omega

theorem touches_node {s : State} {i end_ base size : Nat} (holds : Holds s i end_) :
    touches (s.nodes i) base size = touches ⟨rangeStart i, end_ - rangeStart i, none⟩ base size := by
  rw [← holds.2, ← holds.1]
  rfl

/-- A new range is marked behind the others. -/
theorem Holds.mark {s s' : State} {k : Nat} (inv : ListInv s k) (hk : k < 3)
    (holds : ∀ i, i < k → Holds s i (rangeEnd i))
    (h : addNodeToFreeList (rangeStart k) (rangeEnd k - rangeStart k) s = .ok s') :
    ListInv s' (k + 1) ∧ ∀ i, i < k + 1 → Holds s' i (rangeEnd i) := by
  have numbers : ∀ k, k < 3 → rangeStart k < 2 ^ 64 ∧
      rangeStart k + (rangeEnd k - rangeStart k) ≤ 2 ^ 64 ∧ 0 < rangeStart k ∧ ∀ i, i < k →
        rangeStart i + (rangeEnd i - rangeStart i) ≤ rangeStart k ∧ rangeEnd i - rangeStart i ≠ 0 ∧
        touches ⟨rangeStart i, rangeEnd i - rangeStart i, none⟩ (rangeStart k)
          (rangeEnd k - rangeStart k) = false := by
    decide
  obtain ⟨baseLt, endLe, positive, others⟩ := numbers k hk
  have apart : ∀ i, i < k → Disjoint (s.nodes i).range
      (Set.Ico (rangeStart k) (rangeStart k + (rangeEnd k - rangeStart k))) := by
    intro i hi
    apply apart_of_le
    rw [(holds i hi).1, (holds i hi).2]
    exact Or.inl (others i hi).1
  have full : ∀ i, i < k → (s.nodes i).size ≠ 0 := by
    intro i hi
    rw [(holds i hi).2]
    exact (others i hi).2.1
  have untouched : ∀ i, i < k →
      touches (s.nodes i) (rangeStart k) (rangeEnd k - rangeStart k) = false := by
    intro i hi
    rw [touches_node (holds i hi)]
    exact (others i hi).2.2
  obtain ⟨inv', -, kept, base, size⟩ :=
    add_appends inv ⟨baseLt, endLe, fun _ => positive⟩ apart full untouched h
  refine ⟨inv', fun i hi => ?_⟩
  rcases Nat.lt_or_eq_of_le (Nat.le_of_lt_succ hi) with old | rfl
  · obtain ⟨sameBase, sameSize⟩ := kept i old
    rw [Holds, sameBase, sameSize]
    exact holds i old
  · exact ⟨base, size⟩

/-- After the three calls of `mark_free_range` the list has a node for each range. -/
theorem markFree_nodes {memory : Nat → FreeNode} {s : State} (h : markFree memory = .ok s) :
    ListInv s 3 ∧ ∀ i, i < 3 → Holds s i (rangeEnd i) := by
  obtain ⟨s₁, h₁, h⟩ := bind_eq_ok h
  obtain ⟨s₂, h₂, h₃⟩ := bind_eq_ok h
  have h₁ : addNodeToFreeList 0x200000 (2 ^ 42 - 0x200000) (nullEntry memory) = .ok s₁ := h₁
  obtain ⟨eq, inv₁, -⟩ := nullEntry_add ⟨by decide, by decide, by decide⟩ h₁
  have holds₁ : ∀ i, i < 1 → Holds s₁ i (rangeEnd i) := by
    intro i hi
    obtain rfl : i = 0 := by omega
    rw [Holds, eq, State.nodes_setNode_self]
    exact ⟨rfl, rfl⟩
  obtain ⟨inv₂, holds₂⟩ := Holds.mark inv₁ (by decide) holds₁ h₂
  exact Holds.mark inv₂ (by decide) holds₂ h₃

/-- Where range `i` ends in front of the page at `v`, if it is in range `i₀`. -/
def frontEnd (i₀ v i : Nat) : Nat := if i = i₀ then v else rangeEnd i

theorem frontEnd_bounds {i₀ v : Nat} (front : rangeStart i₀ < v) (onPage : v % PAGE_SIZE = 0) :
    ∀ i, i < 3 → rangeStart i < frontEnd i₀ v i ∧ frontEnd i₀ v i % PAGE_SIZE = 0 := by
  intro i hi
  obtain ⟨-, proper, -, -, endOnPage⟩ := range_bounds i hi
  unfold frontEnd
  split
  · next eq =>
      subst eq
      exact ⟨front, onPage⟩
  · exact ⟨proper, endOnPage⟩

/-- The ranges in front of the page. -/
theorem Holds.cutFront {s : State} {i₀ v : Nat} (holds : ∀ i, i < 3 → Holds s i (rangeEnd i))
    (size : sub64 v (rangeStart i₀) = v - rangeStart i₀) :
    ∀ i, i < 3 → Holds (s.cutFront i₀ v) i (frontEnd i₀ v i) := by
  intro i hi
  unfold Holds State.cutFront frontEnd
  rw [State.nodes_setNode]
  split
  · next eq =>
      subst eq
      rw [(holds i hi).1]
      exact ⟨rfl, size⟩
  · exact holds i hi

/-- The range behind the page. -/
theorem rest_eq {n : FreeNode} {v end_ : Nat} (ends : n.base + n.size = end_) (top : end_ ≤ 2 ^ 64)
    (inside : v + PAGE_SIZE ≤ end_) (below : v + PAGE_SIZE < 2 ^ 64) :
    restBase v PAGE_SIZE = v + PAGE_SIZE ∧ restSize n v PAGE_SIZE = end_ - (v + PAGE_SIZE) := by
  unfold restBase restSize lastAddress add64 sub64 PAGE_SIZE at *
  omega

/-- What is behind the page touches none of the ranges. -/
theorem rest_untouched {i₀ i v : Nat} (hi₀ : i₀ < 3) (hi : i < 3) (front : rangeStart i₀ < v)
    (inside : v + PAGE_SIZE ≤ rangeEnd i₀) (below : v + PAGE_SIZE < 2 ^ 64) :
    touches ⟨rangeStart i, frontEnd i₀ v i - rangeStart i, none⟩ (v + PAGE_SIZE)
      (rangeEnd i₀ - (v + PAGE_SIZE)) = false := by
  unfold touches endsBefore startsBehind lastAddress add64 sub64 frontEnd
  rw [Bool.or_eq_false_iff, beq_eq_false_iff_ne, beq_eq_false_iff_ne]
  obtain rfl | rfl | rfl : i₀ = 0 ∨ i₀ = 1 ∨ i₀ = 2 := by omega
  all_goals
    obtain rfl | rfl | rfl : i = 0 ∨ i = 1 ∨ i = 2 := by omega
    all_goals
      simp only [rangeStart, rangeEnd, KERNEL_VMA_START, KERNEL_VMA_END, PAGE_SIZE, reduceIte,
        Nat.reduceEqDiff] at *
      omega

/-- The list at startup, with the list itself on the page at `v`: the first three nodes
are not empty, the first one begins at `low`, and the fourth one is what is behind the
page. -/
structure StartList (s : State) (low v : Nat) : Prop where
  inv : ListInv s 4
  low : (s.nodes 0).base = low
  starts : ∀ i, 0 < i → i < 3 → (s.nodes i).base = rangeStart i
  rest : (s.nodes 3).base = v + PAGE_SIZE
  full : ∀ i, i < 3 → (s.nodes i).size ≠ 0
  onPages : OnPages s

/-- The page of the list is taken out of the ranges, if it is not the first one of a range
and not the last one of the address space. -/
theorem init_list {memory : Nat → FreeNode} {page v : Nat} {s : State}
    (h : init memory page = .ok s) (at_ : add64 page KERNEL_VMA_OFFSET = v)
    (inner : ∀ i, i < 3 → v ≠ rangeStart i) (below : v + PAGE_SIZE < 2 ^ 64) :
    StartList s 0x200000 v ∧ s.free = initialRanges \ Set.Ico v (v + PAGE_SIZE) ∧
      ((s.nodes 0).size = 2 ^ 42 - 0x200000 ∨ (s.nodes 0).size = v - 0x200000) := by
  obtain ⟨_, aligned, h⟩ := bind_eq_ok h
  obtain ⟨_, -, h⟩ := bind_eq_ok h
  obtain ⟨marked, hmark, h⟩ := bind_eq_ok h
  obtain ⟨inv, holds⟩ := markFree_nodes hmark
  obtain ⟨-, -, -, free⟩ := markFree_spec hmark
  have onPage : v % PAGE_SIZE = 0 := by
    rw [← at_]
    exact beq_iff_eq.mp (kassert_eq_ok aligned)
  rw [at_] at h
  have pageSize : alignTo PAGE_SIZE PAGE_SIZE = PAGE_SIZE := by decide
  obtain ⟨i₀, found, listed, covers, h⟩ := removeFromFreeList_cases h
  rw [pageSize] at covers h
  have bound := inv.mem_listed.mp listed
  obtain ⟨start, size⟩ := holds i₀ bound
  obtain ⟨positive, proper, top, startOnPage, endOnPage⟩ := range_bounds i₀ bound
  have nonzero : (marked.nodes i₀).base ≠ 0 := by omega
  obtain ⟨front, inside, cutSize, fits, -⟩ :=
    area_split (inv.fits i₀ bound) nonzero (by omega) (by omega) covers
  rw [start] at front inside cutSize
  rw [size] at inside
  have strict : rangeStart i₀ < v := Nat.lt_of_le_of_ne front (inner i₀ bound).symm
  obtain ⟨cutInv, apart, whole⟩ := inv.cutFront bound nonzero (by omega) (by omega) covers
  have cutHolds := Holds.cutFront holds cutSize
  have ends := frontEnd_bounds strict onPage
  have nodeEnd : (marked.nodes i₀).base + (marked.nodes i₀).size = rangeEnd i₀ := by
    rw [start, size]
    omega
  obtain ⟨restBase_eq, restSize_eq⟩ := rest_eq nodeEnd top (by omega) below
  rw [restBase_eq, restSize_eq] at h apart fits whole
  have cutFull : ∀ i, i < 3 → ((marked.cutFront i₀ v).nodes i).size ≠ 0 := by
    intro i hi
    have := (ends i hi).1
    rw [(cutHolds i hi).2]
    omega
  obtain ⟨inv', free', kept, base, size'⟩ := add_appends cutInv fits apart cutFull
    (fun i hi => by
      rw [touches_node (cutHolds i hi)]
      exact rest_untouched bound hi strict (by omega) below) h
  have nodes : ∀ i, i < 3 → Holds s i (frontEnd i₀ v i) := by
    intro i hi
    rw [Holds, (kept i hi).1, (kept i hi).2]
    exact cutHolds i hi
  refine ⟨⟨inv', (nodes 0 (by decide)).1, fun i _ hi => (nodes i hi).1, base, fun i hi => ?_,
    fun i mem => ?_⟩, ?_, ?_⟩
  · rw [(kept i hi).2]
    exact cutFull i hi
  · have hi := inv'.mem_listed.mp mem
    rcases Nat.lt_or_eq_of_le (Nat.le_of_lt_succ hi) with old | rfl
    · rw [FreeNode.OnPages, (nodes i old).1, (nodes i old).2]
      have := (range_bounds i old).2.2.2.1
      have := (ends i old).2
      unfold PAGE_SIZE at *
      omega
    · rw [FreeNode.OnPages, base, size']
      unfold PAGE_SIZE at *
      omega
  · rw [free', whole, free]
    rfl
  · rw [(nodes 0 (by decide)).2]
    unfold frontEnd
    split
    · exact Or.inr rfl
    · exact Or.inl rfl

section Taking

variable {s s' : State} {low v : Nat}

/-- `get_virtual_pages` takes a page from the first node. -/
theorem StartList.get {address : Nat} (list : StartList s low v)
    (room : PAGE_SIZE ≤ (s.nodes 0).size) (got : getVirtualPages PAGE_SIZE s = .ok (address, s')) :
    address = low ∧ s'.free = s.free \ Set.Ico low (low + PAGE_SIZE) ∧
      ((s.nodes 0).size ≠ PAGE_SIZE → StartList s' (low + PAGE_SIZE) v) := by
  obtain ⟨inv', -, -, -, free⟩ := get_spec list.inv got
  obtain ⟨_, -, got⟩ := bind_eq_ok got
  obtain ⟨_, -, got⟩ := bind_eq_ok got
  have first : (s.listed.find? fun i => decide (PAGE_SIZE ≤ (s.nodes i).size)) = some 0 := by
    rw [list.inv.listed_eq, List.find?_range_eq_some]
    exact ⟨decide_eq_true room, by decide, fun j hj => absurd hj (Nat.not_lt_zero j)⟩
  rw [first] at got
  obtain ⟨eq, rfl⟩ := Prod.mk.inj (Except.ok.inj got)
  obtain rfl : address = low := eq.symm.trans list.low
  refine ⟨rfl, free, fun more => ?_⟩
  have node : Fits (s.nodes 0).base (s.nodes 0).size := list.inv.fits 0 (by decide)
  have base : add64 (s.nodes 0).base PAGE_SIZE = address + PAGE_SIZE := by
    have := node.end_le
    rw [list.low] at this ⊢
    exact add64_eq (by omega)
  have size : sub64 (s.nodes 0).size PAGE_SIZE = (s.nodes 0).size - PAGE_SIZE := by
    have := node.end_le
    have := node.base_lt
    unfold sub64 PAGE_SIZE at *
    omega
  have others : ∀ i, 0 < i → (s.setNode 0 ⟨add64 (s.nodes 0).base PAGE_SIZE,
      sub64 (s.nodes 0).size PAGE_SIZE, (s.nodes 0).next⟩).nodes i = s.nodes i :=
    fun i hi => s.nodes_setNode_of_ne (by omega) _
  refine ⟨inv', ?_, fun i hi lt => ?_, ?_, fun i hi => ?_, fun i mem => ?_⟩
  · rw [State.nodes_setNode_self]
    exact base
  · rw [others i hi]
    exact list.starts i hi lt
  · rw [others 3 (by decide)]
    exact list.rest
  · rcases Nat.eq_zero_or_pos i with rfl | later
    · rw [State.nodes_setNode_self]
      show sub64 (s.nodes 0).size PAGE_SIZE ≠ 0
      omega
    · rw [others i later]
      exact list.full i hi
  · rcases Nat.eq_zero_or_pos i with rfl | later
    · rw [State.nodes_setNode_self]
      have onPage := list.onPages 0 (list.inv.mem_listed.mpr (by decide))
      refine ⟨?_, ?_⟩
      · show add64 (s.nodes 0).base PAGE_SIZE % PAGE_SIZE = 0
        have := onPage.1
        rw [base, ← list.low]
        unfold PAGE_SIZE at *
        omega
      · show sub64 (s.nodes 0).size PAGE_SIZE % PAGE_SIZE = 0
        have := onPage.2
        rw [size]
        unfold PAGE_SIZE at *
        omega
    · rw [others i later]
      exact list.onPages i (list.inv.mem_listed.mpr (inv'.mem_listed.mp mem))

/-- `remove_from_free_list` takes out its area and nothing else, if the area is not at the
start of a node. -/
theorem StartList.remove {base size : Nat} (list : StartList s low v) (positive : 0 < low)
    (areaLt : base < 2 ^ 64) (endLe : base + alignTo size PAGE_SIZE ≤ 2 ^ 64)
    (notLow : base ≠ low) (notStart : ∀ i, 0 < i → i < 3 → base ≠ rangeStart i)
    (notRest : base ≠ v + PAGE_SIZE) (onPage : base % PAGE_SIZE = 0)
    (h : removeFromFreeList base size s = .ok s') :
    s'.free = s.free \ Set.Ico base (base + alignTo size PAGE_SIZE) ∧ OnPages s' := by
  have inv := list.inv
  have starts : ∀ i, i < 4 → (s.nodes i).base ≠ 0 ∧ (s.nodes i).base ≠ base := by
    intro i hi
    obtain rfl | ⟨first, lt⟩ | rfl : i = 0 ∨ (0 < i ∧ i < 3) ∨ i = 3 := by omega
    · rw [list.low]
      omega
    · rw [list.starts i first lt]
      exact ⟨Nat.ne_of_gt (range_bounds i lt).1, (notStart i first lt).symm⟩
    · rw [list.rest]
      unfold PAGE_SIZE at *
      omega
  obtain ⟨i, found, listed, covers, added⟩ := removeFromFreeList_cases h
  have bound := inv.mem_listed.mp listed
  obtain ⟨front, inside, cutSize, fits, -⟩ :=
    area_split (inv.fits i bound) (starts i bound).1 areaLt endLe covers
  obtain ⟨cutInv, apart, -⟩ := inv.cutFront bound (starts i bound).1 areaLt endLe covers
  have keeps : s.RemoveKeeps base size := by
    intro j found'
    obtain rfl : j = i := Option.some.inj (found'.symm.trans found)
    refine ⟨(starts j bound).1, Or.inr fun a mem b mem' before empty => ?_⟩
    have ha := cutInv.mem_listed.mp mem
    have hb := cutInv.mem_listed.mp mem'
    exfalso
    rw [State.cutFront, State.nodes_setNode] at empty
    split at empty
    · have := (starts j bound).2
      dsimp only at empty
      omega
    · exact list.full a (by omega) empty
  obtain ⟨k', -, -, free⟩ := remove_spec inv areaLt endLe
    (fun j found => (starts j (inv.mem_listed.mp (List.mem_of_find?_eq_some found))).1) h
  refine ⟨free keeps, ?_⟩
  have node := list.onPages i listed
  have sizeOnPage : alignTo size PAGE_SIZE % PAGE_SIZE = 0 := Nat.mul_mod_left _ _
  refine add_onPages cutInv fits apart (fun j mem => ?_) ?_ ?_ added
  · rw [State.cutFront, State.nodes_setNode]
    split
    · refine ⟨node.1, ?_⟩
      show sub64 base (s.nodes i).base % PAGE_SIZE = 0
      have := node.1
      rw [cutSize]
      unfold PAGE_SIZE at *
      omega
    · exact list.onPages j (inv.mem_listed.mpr (cutInv.mem_listed.mp mem))
  · generalize alignTo size PAGE_SIZE = z at *
    unfold restBase lastAddress add64 sub64 PAGE_SIZE at *
    omega
  · have := node.1
    have := node.2
    have := (inv.fits i bound).end_le
    generalize alignTo size PAGE_SIZE = z at *
    unfold restSize lastAddress add64 sub64 PAGE_SIZE at *
    omega

end Taking

end Tyleros.Vma
