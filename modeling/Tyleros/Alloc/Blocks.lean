import Tyleros.Alloc.Steps

/-!
# Allocating and freeing blocks

`alloc_spec`: an allocation that completes adds its block to the live ones, and asks
for nothing but the pages of the block and at most one page for nodes. `free_spec`:
freeing a live block completes, unless the virtual allocator has no room, and gives
back what the block took.
-/

namespace Tyleros.Alloc

open Lib Lib.PagedMemory Paging

variable {π ν : Type}

/-- The calls of `alloc` for pages `i`, `i + 1`, … from `base` on. -/
def takesFrom (base i : Nat) (pages : List Nat) : List Call :=
  (pages.zipIdx i).flatMap fun p =>
    [.getPhysicalPage p.1, .mapPage p.1 (base + p.2 * PAGE_SIZE)]

/-- The calls of `free` for pages `i`, `i + 1`, … from `base` on. -/
def returnsFrom (base i : Nat) (pages : List Nat) : List Call :=
  (pages.zipIdx i).flatMap fun p =>
    [.freePhysicalPage p.1, .unmapPage (base + p.2 * PAGE_SIZE)]

/-- The pages of a block are taken and mapped. -/
def Block.takes (b : Block) : List Call := takesFrom b.base 0 b.pages

/-- The range and the pages of a block are given back. -/
def Block.returns (b : Block) : List Call :=
  .freeVirtualPages b.base b.size :: returnsFrom b.base 0 b.pages

/-- The calls of `alloc`: for the pages of the block, and for one page of nodes at
most. -/
def AllocCalls (before after : List Call) : Option Block → Prop
  | none => after = before
  | some b => ∃ more, NodePageCalls more ∧
      after = before ++ .getVirtualPages b.base b.size :: (more ++ b.takes)

/-- The header lies in front of the pointer and the pointer inside the pages. -/
def HeaderFits (n alignment : Nat) : Prop :=
  16 ≤ paddedHeaderSize alignment ∧ paddedHeaderSize alignment < sizeWithHeader n alignment

instance (n alignment : Nat) : Decidable (HeaderFits n alignment) :=
  inferInstanceAs (Decidable (_ ∧ _))

theorem virtualPage_eq {base page : Nat} (h : base + page * PAGE_SIZE < 2 ^ 64) :
    virtualPage base page = base + page * PAGE_SIZE := by
  rw [virtualPage, Nat.mod_eq_of_lt (by omega), add64_eq h]

theorem rounds_eq {count : Nat} (h : count < 2 ^ 31) : rounds count = count := by
  unfold rounds
  rw [BitVec.toInt_eq_toNat_of_lt] <;> rw [BitVec.toNat_ofNat] <;> omega

section Specs

variable {S : Suppliers π ν} {PagesOut : π → Set Nat → Prop}
  {RangesOut : ν → Set (Nat × Nat) → Prop} {Exhausted : Stop → Prop}
  {s s' : State π ν} {g : View} {pending : List (Nat × Nat)} {live : List Block} {k : Node}

/-- The page list of a node lies on the pages for nodes. -/
theorem Layout.pageField_covered {m : PagedMemory PAGE_SIZE} {first i : Nat}
    (layout : Layout m first g live) (hk : k ∈ g.nodes) (hi : i < k.count) :
    Covered PAGE_SIZE g.nodePages (pageField k.addr i) 8 :=
  (layout.node_covered hk).part (by unfold pageField; omega) (by unfold pageField nodeSize; omega)

theorem Layout.count_lt {m : PagedMemory PAGE_SIZE} {first : Nat} (layout : Layout m first g live)
    (hk : k ∈ g.nodes) : k.count < 2 ^ 31 := by
  have atMost := nodeSize_le_total hk
  have small := layout.small
  unfold nodeSize PAGE_SIZE at *
  omega

/-- `physical_page_list_size` of a node. -/
theorem Layout.load_count (layout : Layout s.memory s.first g live) (hk : k ∈ g.nodes) :
    s.load (listSizeField k.addr) = .ok k.count := by
  obtain ⟨next, holds⟩ := layout.chain.holds hk
  exact State.load_eq holds.count

theorem nodePages_owned {nodes : List Node} {nodePages extra : Pages} {p : Nat × PageEntry}
    (mem : p ∈ nodePages) : p ∈ View.owned ⟨nodes, nodePages, extra⟩ live :=
  List.mem_append_right _ (List.mem_append_left _ mem)

/-- The loop of `alloc` maps new pages and enters them into the node. -/
theorem mapPages_spec {base count page : Nat} {attrs : Word} {pages : List Nat}
    (lawful : Lawful S PagesOut RangesOut Exhausted)
    (inv : HeapInv PagesOut RangesOut s g [] pending live) (hk : k ∈ g.nodes)
    (free : ∀ b ∈ live, b.node ≠ k.addr) (room : page + count ≤ k.count)
    (below : base + (page + count) * PAGE_SIZE ≤ 2 ^ 64)
    (h : mapPages S base k.addr attrs count page s = .ok (pages, s')) :
    HeapInv PagesOut RangesOut s' { g with extra := g.extra ++ mappedFrom base attrs page pages } []
        pending live ∧
      pages.length = count ∧
      (∀ i p, pages[i]? = some p → s'.memory.loadWord (pageField k.addr (page + i)) = some p) ∧
      (∀ i, i < page →
        s'.memory.loadWord (pageField k.addr i) = s.memory.loadWord (pageField k.addr i)) ∧
      s'.calls = s.calls ++ takesFrom base page pages := by
  induction count generalizing page s g pages with
  | zero =>
      cases h
      refine ⟨?_, rfl, fun i p at_ => absurd at_ (by simp), fun i _ => rfl, (List.append_nil _).symm⟩
      rw [show mappedFrom base attrs page [] = [] from rfl, List.append_nil]
      exact inv
  | succ count ih =>
      obtain ⟨⟨p, s₁⟩, h₁, h⟩ := bind_eq_ok h
      obtain ⟨s₂, h₂, h⟩ := bind_eq_ok h
      obtain ⟨s₃, h₃, h⟩ := bind_eq_ok h
      obtain ⟨⟨later, s₄⟩, h₄, h⟩ := bind_eq_ok h
      cases h
      have address : virtualPage base page = base + page * PAGE_SIZE :=
        virtualPage_eq (by unfold PAGE_SIZE at *; omega)
      obtain ⟨inv₁, small, memory₁, calls₁⟩ := inv.getPhysicalPage lawful h₁
      obtain ⟨inv₂, -, same₂, calls₂⟩ := inv₁.mapPage h₂
      rw [address] at inv₂ calls₂
      have entry : ∀ i, i < k.count → Covered PAGE_SIZE g.nodePages (pageField k.addr i) 8 :=
        fun i hi => inv.layout.pageField_covered hk hi
      obtain ⟨inv₃, value₃, others₃, calls₃⟩ := inv₂.store
        ((entry page (by omega)).mono fun _ => nodePages_owned) small
        (inv₂.layout.quiet_pageField hk free (by omega)) h₃
      obtain ⟨inv₄, length, values, earlier, calls₄⟩ := ih inv₃ hk (by omega)
        (by rw [Nat.add_assoc, Nat.add_comm 1]; exact below) h₄
      refine ⟨?_, by rw [List.length_cons, length], fun i q at_ => ?_, fun i hi => ?_, ?_⟩
      · rw [mappedFrom_cons, ← List.singleton_append, ← List.append_assoc]
        exact inv₄
      · cases i with
        | zero =>
            cases at_
            rw [Nat.add_zero, earlier page (Nat.lt_succ_self page)]
            exact value₃
        | succ i =>
            rw [← values i q at_, Nat.add_assoc, Nat.add_comm 1]
      · rw [earlier i (by omega),
          others₃ _ ((entry i (by omega)).mono fun _ => nodePages_owned) (by unfold pageField; omega),
          same₂ _ ((entry i (by omega)).mono fun _ => nodePages_owned), memory₁]
      · rw [calls₄, calls₃, calls₂, calls₁, List.append_assoc, List.append_assoc]
        rfl

/-- Where the header of a block that is not live yet goes. -/
theorem HeapInv.extra_covered {b : Block} (inv : HeapInv PagesOut RangesOut s g [] pending live)
    (extra : g.extra = b.mapped) (shape : b.Shape) {x l : Nat} (first : b.base ≤ x)
    (last : x + l ≤ b.base + b.size) : Covered PAGE_SIZE g.extra x l := by
  obtain ⟨p, at_⟩ := shape.some_page
  have mem : (b.base + (0 + 0) * PAGE_SIZE, _) ∈ b.mapped := mem_mappedFrom at_
  have aligned := (inv.layout.maps.aligned _ _ (List.mem_append_left _ (extra ▸ mem))).1
  rw [Nat.add_zero, Nat.zero_mul, Nat.add_zero] at aligned
  rw [extra]
  exact covered_mappedFrom (Nat.mod_eq_zero_of_dvd aligned) first (shape.size ▸ last)

/-- The last part of `alloc`: the header and the alignment are written. -/
theorem HeapInv.writeHeader {b : Block} {s₁ : State π ν}
    (inv : HeapInv PagesOut RangesOut s g [] pending live) (extra : g.extra = b.mapped)
    (shape : b.Shape) (recorded : b.Recorded g.nodes) (small : b.alignment < 2 ^ 64)
    (pages : ∀ i p, b.pages[i]? = some p → s.memory.loadWord (pageField b.node i) = some p)
    (h₁ : s.store b.base b.node = .ok s₁) (h₂ : s₁.store (b.pointer - 8) b.alignment = .ok s') :
    HeapInv PagesOut RangesOut s' g [] pending live ∧ b.Words s'.memory ∧ s'.calls = s.calls := by
  have header := shape.header
  have inside := shape.inside
  have pointer := shape.pointer
  obtain ⟨k, mem, addr, -, count⟩ := recorded
  have hk : k ∈ g.nodes := List.mem_of_mem_tail mem
  have nodeLt : b.node < 2 ^ 64 := by
    have := inv.layout.node_lt hk
    unfold Node.stop nodeSize at this
    omega
  have atBase : Covered PAGE_SIZE g.extra b.base 8 :=
    inv.extra_covered extra shape (Nat.le_refl _) (by omega)
  have atPointer : Covered PAGE_SIZE g.extra (b.pointer - 8) 8 :=
    inv.extra_covered extra shape (by omega) (by omega)
  have extraOwned : ∀ q ∈ g.extra, q ∈ g.owned live := fun q => List.mem_append_left _
  obtain ⟨inv₁, value₁, others₁, calls₁⟩ := inv.store (atBase.mono extraOwned) nodeLt
    (inv.layout.quiet_extra atBase (by decide)) h₁
  obtain ⟨inv₂, value₂, others₂, calls₂⟩ := inv₁.store (atPointer.mono extraOwned) small
    (inv₁.layout.quiet_extra atPointer (by decide)) h₂
  refine ⟨inv₂, ⟨?_, value₂, fun i p at_ => ?_⟩, calls₂.trans calls₁⟩
  · rw [others₂ _ (atBase.mono extraOwned) (by omega)]
    exact value₁
  · obtain ⟨hi, -⟩ := List.getElem?_eq_some_iff.mp at_
    have entry := inv.layout.pageField_covered hk (i := i) (by rw [count]; exact hi)
    rw [addr] at entry
    have different : ∀ v e e', (v, e) ∈ g.nodePages → (v, e') ∉ g.extra := fun v e e' node extra =>
      inv.layout.maps.different extra (List.mem_append_left _ node)
    rw [others₂ _ (entry.mono fun _ => nodePages_owned)
        (entry.apart atPointer different (by decide) (by decide)),
      others₁ _ (entry.mono fun _ => nodePages_owned)
        (entry.apart atBase different (by decide) (by decide))]
    exact pages i p at_

/-- The block joins the live ones. -/
theorem HeapInv.blockAdded {b : Block}
    (inv : HeapInv PagesOut RangesOut s g [] [(b.base, b.size)] live) (extra : g.extra = b.mapped)
    (shape : b.Shape) (words : b.Words s.memory) (recorded : b.Recorded g.nodes)
    (free : ∀ b' ∈ live, b'.node ≠ b.node) :
    HeapInv PagesOut RangesOut s { g with extra := [] } [] [] (b :: live) := by
  obtain ⟨out, pagesOut, -, frames⟩ := inv.pages
  obtain ⟨ranges, rangesOut, pendingOut, blocks⟩ := inv.ranges
  refine ⟨inv.layout.blockAdded extra shape words recorded free,
    ⟨out, pagesOut, fun p mem => absurd mem List.not_mem_nil, fun q mem => frames q ?_⟩,
    ⟨ranges, rangesOut, fun r mem => absurd mem List.not_mem_nil, ?_⟩⟩
  · unfold View.owned at *
    rw [extra]
    rw [List.nil_append, List.flatMap_cons, List.mem_append, List.mem_append] at mem
    rw [List.mem_append, List.mem_append]
    tauto
  · exact List.forall_mem_cons.mpr ⟨pendingOut _ (List.mem_singleton.mpr rfl), blocks⟩

theorem sizeWithHeader_pages (n alignment : Nat) :
    sizeWithHeader n alignment < 2 ^ 64 ∧
      divCeil (sizeWithHeader n alignment) PAGE_SIZE * PAGE_SIZE = sizeWithHeader n alignment := by
  have bound := sub64_lt (add64 (add64 n (paddedHeaderSize alignment)) PAGE_SIZE) 1
  unfold sizeWithHeader alignTo divCeil
  generalize sub64 (add64 (add64 n (paddedHeaderSize alignment)) PAGE_SIZE) 1 = x at *
  unfold PAGE_SIZE
  have whole : x / 4096 * 4096 % 4096 = 0 := Nat.mul_mod_left _ _
  rw [if_neg (not_not.mpr whole)]
  omega

theorem nodeFits_congr (memory : s'.memory = s.memory) (first : s'.first = s.first) (n : Nat) :
    nodeFits s' n = nodeFits s n := by
  unfold nodeFits
  rw [findNode_congr memory, first, memory]

/-- The steps of an `alloc` that completes. -/
theorem alloc_ok {n alignment : Nat} {p : Protection} {block : Option Block}
    (h : alloc S n alignment p s = .ok (block, s')) :
    (n = 0 ∧ block = none ∧ s' = s) ∨
      (n ≠ 0 ∧ alignment ≠ 0 ∧ ∃ base s₁ node s₂ count pages s₄ s₅,
        getVirtualPages S s (sizeWithHeader n alignment) = .ok (base, s₁) ∧
        getNewAllocation S (sizeWithHeader n alignment) s₁ = .ok (node, s₂) ∧
        s₂.load (listSizeField node) = .ok count ∧
        mapPages S base node p.attrs (rounds count) 0 s₂ = .ok (pages, s₄) ∧
        s₄.store base node = .ok s₅ ∧
        s₅.store (sub64 (add64 base (paddedHeaderSize alignment)) 8) alignment = .ok s' ∧
        block = some ⟨add64 base (paddedHeaderSize alignment), base, sizeWithHeader n alignment,
          alignment, p.attrs, node, pages⟩) := by
  unfold alloc at h
  split at h
  · next empty =>
      cases h
      exact Or.inl ⟨empty, rfl, rfl⟩
  · next nonempty =>
      split at h
      · cases h
      · next nonzero =>
          obtain ⟨⟨base, s₁⟩, h₁, h⟩ := bind_eq_ok h
          obtain ⟨⟨node, s₂⟩, h₂, h⟩ := bind_eq_ok h
          obtain ⟨count, h₃, h⟩ := bind_eq_ok h
          obtain ⟨⟨pages, s₄⟩, h₄, h⟩ := bind_eq_ok h
          obtain ⟨s₅, h₅, h⟩ := bind_eq_ok h
          obtain ⟨s₆, h₆, h⟩ := bind_eq_ok h
          cases h
          exact Or.inr ⟨nonempty, nonzero, base, s₁, node, s₂, count, pages, s₄, s₅, h₁, h₂, h₃, h₄,
            h₅, h₆, rfl⟩

/-- `alloc` adds a block to the live ones. -/
theorem alloc_spec {n alignment : Nat} {p : Protection} {block : Option Block}
    (lawful : Lawful S PagesOut RangesOut Exhausted)
    (inv : HeapInv PagesOut RangesOut s g [] [] live) (extra : g.extra = [])
    (small : alignment < 2 ^ 64)
    (fits : n = 0 ∨ alignment = 0 ∨
      HeaderFits n alignment ∧ nodeFits s (sizeWithHeader n alignment) = true)
    (h : alloc S n alignment p s = .ok (block, s')) :
    (∃ g', HeapInv PagesOut RangesOut s' g' [] [] (block.toList ++ live) ∧ g'.extra = []) ∧
      AllocCalls s.calls s'.calls block := by
  rcases alloc_ok h with ⟨-, rfl, rfl⟩ | ⟨nonempty, nonzero, base, s₁, node, s₂, count, pages, s₄, s₅,
    h₁, h₂, h₃, h₄, h₅, h₆, rfl⟩
  · exact ⟨⟨g, inv, extra⟩, rfl⟩
  obtain ⟨⟨header, inside⟩, nodeFit⟩ := (fits.resolve_left nonempty).resolve_left nonzero
  obtain ⟨sizeLt, sizeEq⟩ := sizeWithHeader_pages n alignment
  obtain ⟨inv₁, baseNonzero, below, memory₁, first₁, calls₁⟩ := inv.getVirtualPages lawful h₁
  rw [← nodeFits_congr memory₁ first₁] at nodeFit
  obtain ⟨g₂, inv₂, ⟨extra₂, hk, free⟩, more, calls₂, pageCalls⟩ :=
    getNewAllocation_spec lawful inv₁ extra sizeLt (by omega) nodeFit h₂
  have hk' := List.mem_of_mem_tail hk
  have countEq : count = divCeil (sizeWithHeader n alignment) PAGE_SIZE := by
    have read := inv₂.layout.load_count hk'
    dsimp only at read
    rw [h₃] at read
    exact Except.ok.inj read
  have countSmall : count < 2 ^ 31 := by
    rw [countEq]
    exact inv₂.layout.count_lt hk'
  rw [rounds_eq countSmall] at h₄
  obtain ⟨inv₄, length, values, -, calls₄⟩ := mapPages_spec lawful inv₂ hk' free
    (by rw [countEq, Nat.zero_add]) (by rw [Nat.zero_add, countEq, sizeEq]; exact below) h₄
  have pointerEq : add64 base (paddedHeaderSize alignment) = base + paddedHeaderSize alignment :=
    add64_eq (by omega)
  rw [extra₂, List.nil_append] at inv₄
  rw [pointerEq] at h₆ ⊢
  rw [sub64_eq (by omega) (by omega)] at h₆
  have shape : Block.Shape ⟨base + paddedHeaderSize alignment, base, sizeWithHeader n alignment,
      alignment, p.attrs, node, pages⟩ :=
    ⟨rfl, nonzero, header, inside, by rw [length, countEq, sizeEq], baseNonzero, below⟩
  have recorded : Block.Recorded g₂.nodes ⟨base + paddedHeaderSize alignment, base,
      sizeWithHeader n alignment, alignment, p.attrs, node, pages⟩ :=
    ⟨_, hk, rfl, rfl, (length.trans countEq).symm⟩
  obtain ⟨inv₆, words, calls₆⟩ := inv₄.writeHeader rfl shape recorded small
    (fun i q at_ => by simpa using values i q at_) h₅ h₆
  have added := HeapInv.blockAdded (g := { g₂ with extra := mappedFrom base p.attrs 0 pages }) inv₆ rfl
    shape words recorded free
  refine ⟨⟨_, added, rfl⟩, more, pageCalls, ?_⟩
  rw [calls₆, calls₄, calls₂, calls₁, List.append_assoc, List.append_assoc]
  rfl

/-! ## `free` -/

/-- The pages of a block, and its range, belong to no live block any more. -/
theorem HeapInv.blockRemoved {b : Block} {newer older : List Block}
    (inv : HeapInv PagesOut RangesOut s g [] [] (newer ++ b :: older)) (extra : g.extra = []) :
    HeapInv PagesOut RangesOut s { g with extra := b.mapped } [] [(b.base, b.size)]
      (newer ++ older) := by
  obtain ⟨out, pagesOut, -, frames⟩ := inv.pages
  obtain ⟨ranges, rangesOut, -, blocks⟩ := inv.ranges
  refine ⟨inv.layout.blockRemoved extra,
    ⟨out, pagesOut, fun p mem => absurd mem List.not_mem_nil, fun q mem => frames q ?_⟩,
    ⟨ranges, rangesOut, fun r mem => ?_, fun b' hb' => blocks b' ?_⟩⟩
  · unfold View.owned at *
    dsimp only at mem
    rw [extra, List.nil_append, List.flatMap_append, List.flatMap_cons, List.mem_append,
      List.mem_append, List.mem_append]
    rw [List.flatMap_append, List.mem_append, List.mem_append, List.mem_append] at mem
    tauto
  · rw [List.mem_singleton.mp mem]
    exact blocks b (List.mem_append_right _ List.mem_cons_self)
  · rw [List.mem_append, List.mem_cons]
    rw [List.mem_append] at hb'
    tauto

/-- Other blocks start elsewhere. -/
theorem Layout.base_ne {m : PagedMemory PAGE_SIZE} {first : Nat} {b b' : Block}
    (layout : Layout m first g live) (extra : g.extra = b.mapped) (shape : b.Shape)
    (hb' : b' ∈ live) : b'.base ≠ b.base := by
  intro same
  obtain ⟨p, at_⟩ := shape.some_page
  obtain ⟨p', at'⟩ := (layout.shapes b' hb').some_page
  have mem : (b.base + (0 + 0) * PAGE_SIZE, _) ∈ b.mapped := mem_mappedFrom at_
  have mem' : (b'.base + (0 + 0) * PAGE_SIZE, _) ∈ b'.mapped := mem_mappedFrom at'
  rw [same] at mem'
  exact layout.maps.different (extra.symm ▸ mem)
    (List.mem_append_right _ (List.mem_flatMap.mpr ⟨b', hb', mem'⟩))

theorem HeapInv.freeVirtualPages {address size : Nat}
    (lawful : Lawful S PagesOut RangesOut Exhausted)
    (inv : HeapInv PagesOut RangesOut s g [] [(address, size)] live)
    (others : ∀ b ∈ live, b.base ≠ address) :
    (∃ s', freeVirtualPages S s address size = .ok s' ∧ HeapInv PagesOut RangesOut s' g [] [] live ∧
        s'.memory = s.memory ∧ s'.calls = s.calls ++ [.freeVirtualPages address size]) ∨
      ∃ e, freeVirtualPages S s address size = .error e ∧ Exhausted e := by
  obtain ⟨out, rangesOut, pendingOut, blocks⟩ := inv.ranges
  unfold Alloc.freeVirtualPages
  rcases lawful.freeVirtualPages rangesOut (pendingOut _ (List.mem_singleton.mpr rfl)) with
    ⟨vma, freed, rangesOut'⟩ | ⟨e, stopped, exhausted⟩
  · rw [freed, ok_bind]
    refine Or.inl ⟨_, rfl, ⟨inv.layout, inv.pages, _, rangesOut', ?_, fun b hb => ?_⟩, rfl, rfl⟩
    · exact fun r mem => absurd mem List.not_mem_nil
    · refine ⟨blocks b hb, fun same => others b hb ?_⟩
      exact congrArg Prod.fst same
  · rw [stopped]
    exact Or.inr ⟨e, rfl, exhausted⟩

/-- One round of the loop of `free`. -/
theorem HeapInv.freePage {v : Nat} {e : PageEntry} {extra : Pages}
    (lawful : Lawful S PagesOut RangesOut Exhausted)
    (inv : HeapInv PagesOut RangesOut s g [] pending live) (extraEq : g.extra = (v, e) :: extra) :
    ∃ s₁ s₂, freePhysicalPage S s e.frame = .ok s₁ ∧ unmapPage s₁ v = .ok s₂ ∧
      HeapInv PagesOut RangesOut s₂ { g with extra } [] pending live ∧
      s₂.memory = s.memory.unmap v ∧
      s₂.calls = s.calls ++ [.freePhysicalPage e.frame, .unmapPage v] := by
  obtain ⟨out, pagesOut, -, frames⟩ := inv.pages
  have owned : g.owned live = (v, e) :: View.owned { g with extra } live := by
    unfold View.owned
    rw [extraEq]
    rfl
  rw [owned] at frames
  have maps := inv.layout.maps
  rw [owned] at maps
  obtain ⟨pma, freed, pagesOut'⟩ := lawful.freePhysicalPage pagesOut
    (frames _ List.mem_cons_self).1
  have aligned := Nat.mod_eq_zero_of_dvd (maps.aligned _ _ List.mem_cons_self).1
  have present := maps.entry _ _ List.mem_cons_self
  refine ⟨{ s with pma, calls := s.calls ++ [.freePhysicalPage e.frame] },
    { s with
      pma
      memory := s.memory.unmap v
      calls := s.calls ++ [.freePhysicalPage e.frame, .unmapPage v] }, ?_, ?_,
    ⟨(inv.layout.unmap extraEq).1, ⟨_, pagesOut', ?_, fun q mem => ?_⟩, inv.ranges⟩, rfl, rfl⟩
  · unfold Alloc.freePhysicalPage
    rw [freed]
    rfl
  · unfold unmapPage
    rw [aligned, show kassert (0 == 0) "virtual address should be page-aligned!" = .ok () from rfl,
      ok_bind]
    dsimp only
    rw [present, List.append_assoc]
    rfl
  · exact fun p mem => absurd mem List.not_mem_nil
  · refine ⟨⟨(frames q (List.mem_cons_of_mem _ mem)).1, fun same => ?_⟩, List.not_mem_nil⟩
    have frame : q.2.frame = e.frame := same
    exact (List.nodup_cons.mp maps.frames).1 (List.mem_map.mpr ⟨q, mem, frame⟩)

/-- Unmapping one page, and others after it. -/
theorem unmap_tables {m : PagedMemory PAGE_SIZE} (v page : Nat) (later : List Nat) :
    (if v ∈ later then none else (m.unmap page).tables v) =
      if v ∈ page :: later then none else m.tables v := by
  by_cases here : v = page
  · rw [if_pos (List.mem_cons.mpr (Or.inl here)), here]
    split
    · rfl
    · exact Function.update_self _ _ _
  · have other : (m.unmap page).tables v = m.tables v := Function.update_of_ne here _ _
    rw [other]
    exact if_congr (by rw [List.mem_cons, or_iff_right here]) rfl rfl

/-- The loop of `free` gives the pages of the node back and unmaps them. -/
theorem freePages_spec {base page fuel : Nat} {attrs : Word} {rest : List Nat}
    (lawful : Lawful S PagesOut RangesOut Exhausted)
    (inv : HeapInv PagesOut RangesOut s g [] pending live)
    (extra : g.extra = mappedFrom base attrs page rest) (hk : k ∈ g.nodes)
    (count : k.count = page + rest.length)
    (values : ∀ i p, rest[i]? = some p → s.memory.loadWord (pageField k.addr (page + i)) = some p)
    (enough : rest.length < fuel) (below : base + k.count * PAGE_SIZE ≤ 2 ^ 64) :
    ∃ s', freePages S base k.addr fuel page s = .ok s' ∧
      HeapInv PagesOut RangesOut s' { g with extra := [] } [] pending live ∧
      (∀ w, Covered PAGE_SIZE g.nodePages w 8 → s'.memory.loadWord w = s.memory.loadWord w) ∧
      (∀ v, s'.memory.tables v = if v ∈ (mappedFrom base attrs page rest).map Prod.fst then none
        else s.memory.tables v) ∧
      s'.calls = s.calls ++ returnsFrom base page rest := by
  have small := inv.layout.count_lt hk
  induction rest generalizing page s g fuel with
  | nil =>
      obtain ⟨fuel, rfl⟩ := Nat.exists_eq_succ_of_ne_zero (Nat.ne_of_gt enough)
      rw [show mappedFrom base attrs page [] = [] from rfl] at extra
      refine ⟨s, ?_, ?_, fun w _ => rfl, fun v => (if_neg List.not_mem_nil).symm,
        (List.append_nil _).symm⟩
      · unfold freePages
        rw [inv.layout.load_count hk, ok_bind, rounds_eq small,
          if_neg (by rw [count]; exact Nat.lt_irrefl _)]
        rfl
      · rw [← extra]
        exact inv
  | cons p rest ih =>
      obtain ⟨fuel, rfl⟩ := Nat.exists_eq_succ_of_ne_zero (Nat.ne_of_gt (Nat.zero_lt_of_lt enough))
      rw [List.length_cons] at count enough
      rw [mappedFrom_cons] at extra
      obtain ⟨s₁, s₂, h₁, h₂, inv₂, memory, calls⟩ := inv.freePage lawful extra
      have pageLt : base + page * PAGE_SIZE < 2 ^ 64 := by
        rw [count] at below
        unfold PAGE_SIZE at *
        omega
      have kept : ∀ w, Covered PAGE_SIZE g.nodePages w 8 →
          s₂.memory.loadWord w = s.memory.loadWord w := by
        intro w covered
        rw [memory]
        exact (inv.layout.unmap extra).2 w (covered.mono fun _ => nodePages_owned)
      have values₂ : ∀ i q, rest[i]? = some q →
          s₂.memory.loadWord (pageField k.addr (page + 1 + i)) = some q := by
        intro i q at_
        obtain ⟨hi, -⟩ := List.getElem?_eq_some_iff.mp at_
        rw [kept _ (inv.layout.pageField_covered hk (by omega)), Nat.add_assoc, Nat.add_comm 1]
        exact values (i + 1) q at_
      have enough₂ : rest.length < fuel := by omega
      obtain ⟨s', result, inv', kept', tables', calls'⟩ := ih inv₂ rfl hk (by omega) values₂ enough₂
      refine ⟨s', ?_, inv', fun w covered => (kept' w covered).trans (kept w covered), fun v => ?_, ?_⟩
      · have value : s.memory.loadWord (pageField k.addr page) = some p := values 0 p rfl
        unfold freePages
        rw [inv.layout.load_count hk, ok_bind, rounds_eq small, if_pos (by omega),
          State.load_eq value, ok_bind, h₁, ok_bind, virtualPage_eq pageLt, h₂, ok_bind]
        exact result
      · rw [tables' v, memory, mappedFrom_cons, List.map_cons]
        exact unmap_tables v (base + page * PAGE_SIZE) _
      · rw [calls', calls, List.append_assoc]
        rfl

/-- The pages for nodes can be written. -/
theorem Layout.sizeField_writable {m : PagedMemory PAGE_SIZE} {first : Nat}
    (layout : Layout m first g live) (hk : k ∈ g.nodes) (v : Nat) :
    ∃ m', m.storeWord (sizeField k.addr) v = some m' := by
  obtain ⟨-, ⟨frame, page⟩, inside⟩ := layout.placed k hk
  refine storeBytes_isSome fun i hi => ⟨⟨frame, true⟩, ?_, rfl⟩
  rw [length_bytesOf] at hi
  have samePage : (sizeField k.addr + i) / PAGE_SIZE * PAGE_SIZE = pageOf k.addr := by
    unfold Node.stop nodeSize at inside
    unfold pageOf sizeField PAGE_SIZE at *
    omega
  unfold PagedMemory.entry
  rw [samePage]
  exact layout.maps.entry _ _ (nodePages_owned page)

/-- `remove_allocation` kills the node in front of the one it is given. -/
theorem removeAllocation_spec {node : Nat} (inv : HeapInv PagesOut RangesOut s g [] pending live)
    (listed : ∃ n ∈ g.nodes.tail, n.addr = node)
    (notBehind : ∀ b ∈ live, s.memory.loadWord (nextField b.node) ≠ some node) :
    ∃ s', removeAllocation node s = .ok s' ∧
      (∃ nodes, HeapInv PagesOut RangesOut s' { g with nodes } [] pending live) ∧
      s'.memory.tables = s.memory.tables ∧ s'.calls = s.calls := by
  have layout := inv.layout
  obtain ⟨first, rest, hnodes, head, chain, enough, nonzero⟩ := layout.listed
  rw [hnodes] at listed
  obtain ⟨n, hn, found, points⟩ := findBefore_spec chain
    (fun n mem => nonzero n (List.mem_cons_of_mem _ mem)) listed enough
  rw [← hnodes] at hn
  have free : ∀ b ∈ live, b.node ≠ n.addr := by
    intro b hb same
    rw [← same] at points
    exact notBehind b hb points
  obtain ⟨m, stored⟩ := layout.sizeField_writable hn 0
  obtain ⟨layout', -⟩ := layout.setSize hn free (by decide) stored
  refine ⟨{ s with memory := m }, ?_, ⟨_, inv.withLayout layout' fun _ => id⟩,
    storeBytes_tables stored, rfl⟩
  have notNull : (s.first != 0) = true := bne_iff_ne.mpr (head ▸ nonzero first List.mem_cons_self)
  rw [← head] at found
  unfold removeAllocation
  rw [notNull, kassert_true, ok_bind, found, ok_bind, State.store, stored]
  rfl

/-- `free` reads the header of a live block and goes on with what `alloc` put there. -/
theorem free_eq {b : Block} (layout : Layout s.memory s.first g live) (hb : b ∈ live) :
    free S b.pointer s = (freeVirtualPages S s b.base b.size >>= fun s =>
      freePages S b.base b.node (2 ^ 32) 0 s >>= removeAllocation b.node) := by
  have shape := layout.shapes b hb
  have words := layout.words b hb
  have header := shape.header
  have inside := shape.inside
  have pointer := shape.pointer
  have below := shape.below
  obtain ⟨k, hk, addr, size, -⟩ := layout.recorded b hb
  have hk' := List.mem_of_mem_tail hk
  obtain ⟨next, holds⟩ := layout.chain.holds hk'
  have sizeWord := holds.size
  have notNull := bne_iff_ne.mpr (layout.placed k hk').nonzero
  rw [addr, size] at sizeWord
  rw [addr] at notNull
  have atHeader : sub64 b.pointer (paddedHeaderSize b.alignment) = b.base := by
    rw [sub64_eq (by omega) (by omega)]
    omega
  unfold free
  rw [if_neg (by omega), sub64_eq (by omega) (by omega), State.load_eq words.alignment, ok_bind,
    if_neg shape.alignment, atHeader]
  dsimp only
  rw [State.load_eq words.header, ok_bind, notNull, kassert_true, ok_bind, State.load_eq sizeWord,
    ok_bind]

/-- Freeing a live block gives back what it took, or stops because the virtual
allocator has no room. -/
theorem free_spec {b : Block} {newer older : List Block}
    (lawful : Lawful S PagesOut RangesOut Exhausted)
    (inv : HeapInv PagesOut RangesOut s g [] [] (newer ++ b :: older)) (extra : g.extra = [])
    (notBehind : ∀ b' ∈ newer ++ older, s.memory.loadWord (nextField b'.node) ≠ some b.node) :
    (∃ s', free S b.pointer s = .ok s' ∧
        (∃ g', HeapInv PagesOut RangesOut s' g' [] [] (newer ++ older) ∧ g'.extra = []) ∧
        (∀ v, s'.memory.tables v = if v ∈ b.mapped.map Prod.fst then none else s.memory.tables v) ∧
        s'.calls = s.calls ++ b.returns) ∨
      ∃ e, free S b.pointer s = .error e ∧ Exhausted e := by
  have hb : b ∈ newer ++ b :: older := List.mem_append_right _ List.mem_cons_self
  have layout := inv.layout
  have shape := layout.shapes b hb
  have words := layout.words b hb
  have start := free_eq (S := S) layout hb
  obtain ⟨k, hk, addr, -, count⟩ := layout.recorded b hb
  have hk' := List.mem_of_mem_tail hk
  have removed := inv.blockRemoved extra
  have others : ∀ b' ∈ newer ++ older, b'.base ≠ b.base := fun b' hb' =>
    removed.layout.base_ne rfl shape hb'
  rcases removed.freeVirtualPages lawful others with ⟨s₁, h₁, inv₁, memory₁, calls₁⟩ | ⟨e, h₁, stopped⟩
  · left
    have values : ∀ i p, b.pages[i]? = some p →
        s₁.memory.loadWord (pageField k.addr (0 + i)) = some p := by
      intro i p at_
      rw [memory₁, addr, Nat.zero_add]
      exact words.pages i p at_
    have enough : b.pages.length < 2 ^ 32 := by
      have := layout.count_lt hk'
      omega
    obtain ⟨s₂, h₂, inv₂, kept₂, tables₂, calls₂⟩ := freePages_spec lawful inv₁ rfl hk'
      (by rw [count, Nat.zero_add]) values enough (by rw [count, ← shape.size]; exact shape.below)
    have notBehind₂ : ∀ b' ∈ newer ++ older,
        s₂.memory.loadWord (nextField b'.node) ≠ some b.node := by
      intro b' hb'
      obtain ⟨k', hk', addr', -⟩ := inv₁.layout.recorded b' hb'
      have covered := inv₁.layout.head_covered (List.mem_of_mem_tail hk')
        (x := nextField k'.addr) (Or.inl rfl)
      rw [addr'] at covered
      rw [kept₂ _ covered, memory₁]
      exact notBehind b' hb'
    obtain ⟨s₃, h₃, ⟨nodes, inv₃⟩, tables₃, calls₃⟩ := removeAllocation_spec inv₂ ⟨k, hk, addr⟩ notBehind₂
    refine ⟨s₃, ?_, ⟨_, inv₃, rfl⟩, fun v => ?_, ?_⟩
    · rw [start, h₁, ok_bind, ← addr, h₂, ok_bind, addr]
      exact h₃
    · rw [tables₃, tables₂ v, memory₁]
      rfl
    · rw [calls₃, calls₂, calls₁, List.append_assoc]
      rfl
  · refine Or.inr ⟨e, ?_, stopped⟩
    rw [start, h₁]
    rfl

end Specs

end Tyleros.Alloc
