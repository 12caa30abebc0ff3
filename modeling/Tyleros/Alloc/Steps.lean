import Tyleros.Alloc.Layout
import Mathlib.Data.Set.Insert

/-!
# What `alloc` and `free` do to the heap

`Lawful` is what the heap relies on: the physical allocator hands out pages that are
not outstanding, and both allocators take back what they handed out. `HeapInv` is
the layout of the heap together with the fact that all its pages and ranges are
outstanding. The calls to the allocators, the stores and `get_new_allocation` keep it.
-/

namespace Tyleros.Alloc

open Lib Lib.PagedMemory Paging

variable {π ν : Type}

/-- The assumptions on the allocators. `PagesOut` and `RangesOut` relate their states
to what is outstanding; `Exhausted` are the stops with which the virtual allocator
reports that it has no room for another free range. That ranges are apart is not
needed, since `map_page` refuses a page that is mapped. -/
structure Lawful (S : Suppliers π ν) (PagesOut : π → Set Nat → Prop)
    (RangesOut : ν → Set (Nat × Nat) → Prop) (Exhausted : Stop → Prop) : Prop where
  getPhysicalPage : ∀ {pma out page pma'}, PagesOut pma out →
    S.getPhysicalPage pma = .ok (page, pma') →
    page ∉ out ∧ page < 2 ^ 64 ∧ PagesOut pma' (insert page out)
  freePhysicalPage : ∀ {pma out page}, PagesOut pma out → page ∈ out →
    ∃ pma', S.freePhysicalPage page pma = .ok pma' ∧ PagesOut pma' (out \ {page})
  getVirtualPages : ∀ {vma out size address vma'}, RangesOut vma out →
    S.getVirtualPages size vma = .ok (address, vma') →
    address ≠ 0 ∧ address + size ≤ 2 ^ 64 ∧ RangesOut vma' (insert (address, size) out)
  freeVirtualPages : ∀ {vma out address size}, RangesOut vma out → (address, size) ∈ out →
    (∃ vma', S.freeVirtualPages address size vma = .ok vma' ∧
      RangesOut vma' (out \ {(address, size)})) ∨
    ∃ e, S.freeVirtualPages address size vma = .error e ∧ Exhausted e

section Specs

variable {S : Suppliers π ν} {PagesOut : π → Set Nat → Prop}
  {RangesOut : ν → Set (Nat × Nat) → Prop} {Exhausted : Stop → Prop}
  {s s' : State π ν} {g : View} {spare : List Nat} {pending : List (Nat × Nat)}
  {live : List Block}

variable (PagesOut RangesOut) in
/-- The invariant of the heap. `spare` are pages that are not mapped yet, `pending`
ranges that belong to no live block. -/
structure HeapInv (s : State π ν) (g : View) (spare : List Nat) (pending : List (Nat × Nat))
    (live : List Block) : Prop where
  layout : Layout s.memory s.first g live
  pages : ∃ out, PagesOut s.pma out ∧ (∀ p ∈ spare, p ∈ out) ∧
    ∀ q ∈ g.owned live, q.2.frame ∈ out ∧ q.2.frame ∉ spare
  ranges : ∃ out, RangesOut s.vma out ∧ (∀ r ∈ pending, r ∈ out) ∧
    ∀ b ∈ live, (b.base, b.size) ∈ out

/-! ## Memory -/

theorem withMemory_ok {memory : Option (PagedMemory PAGE_SIZE)}
    (h : s.withMemory memory = .ok s') : ∃ m, memory = some m ∧ s' = { s with memory := m } := by
  cases memory with
  | none => cases h
  | some m =>
      cases h
      exact ⟨m, rfl, rfl⟩

/-- The invariant with another memory. -/
theorem HeapInv.withLayout {m : PagedMemory PAGE_SIZE} {g' : View}
    (inv : HeapInv PagesOut RangesOut s g spare pending live)
    (layout : Layout m s.first g' live) (owned : ∀ q ∈ g'.owned live, q ∈ g.owned live) :
    HeapInv PagesOut RangesOut { s with memory := m } g' spare pending live := by
  obtain ⟨out, pagesOut, inOut, frames⟩ := inv.pages
  exact ⟨layout, ⟨out, pagesOut, inOut, fun q mem => frames q (owned q mem)⟩, inv.ranges⟩

/-- A store to a place that holds nothing of the invariant. -/
theorem HeapInv.store {x v : Nat} (inv : HeapInv PagesOut RangesOut s g spare pending live)
    (covered : Covered PAGE_SIZE (g.owned live) x 8) (small : v < 2 ^ 64)
    (quiet : Quiet g live x 8) (h : s.store x v = .ok s') :
    HeapInv PagesOut RangesOut s' g spare pending live ∧ s'.memory.loadWord x = some v ∧
      (∀ a, Covered PAGE_SIZE (g.owned live) a 8 → a + 8 ≤ x ∨ x + 8 ≤ a →
        s'.memory.loadWord a = s.memory.loadWord a) ∧ s'.calls = s.calls := by
  obtain ⟨m, stored, rfl⟩ := withMemory_ok h
  obtain ⟨layout, value, others⟩ := inv.layout.store covered small quiet stored
  exact ⟨inv.withLayout layout fun _ => id, value, others, rfl⟩

/-! ## The allocators and the page tables -/

theorem HeapInv.getPhysicalPage {page : Nat} (lawful : Lawful S PagesOut RangesOut Exhausted)
    (inv : HeapInv PagesOut RangesOut s g [] pending live)
    (h : getPhysicalPage S s = .ok (page, s')) :
    HeapInv PagesOut RangesOut s' g [page] pending live ∧ page < 2 ^ 64 ∧
      s'.memory = s.memory ∧ s'.calls = s.calls ++ [.getPhysicalPage page] := by
  obtain ⟨⟨p, pma⟩, got, h⟩ := bind_eq_ok h
  cases h
  obtain ⟨out, pagesOut, -, frames⟩ := inv.pages
  obtain ⟨fresh, small, pagesOut'⟩ := lawful.getPhysicalPage pagesOut got
  refine ⟨⟨inv.layout, ⟨insert page out, pagesOut', ?_, fun q mem => ?_⟩, inv.ranges⟩, small, rfl,
    rfl⟩
  · exact fun p mem => List.mem_singleton.mp mem ▸ Set.mem_insert _ _
  · have inOut := (frames q mem).1
    refine ⟨Set.mem_insert_of_mem _ inOut, fun same => fresh ?_⟩
    rwa [← List.mem_singleton.mp same]

theorem HeapInv.getVirtualPages {size address : Nat}
    (lawful : Lawful S PagesOut RangesOut Exhausted)
    (inv : HeapInv PagesOut RangesOut s g spare pending live)
    (h : getVirtualPages S s size = .ok (address, s')) :
    HeapInv PagesOut RangesOut s' g spare ((address, size) :: pending) live ∧ address ≠ 0 ∧
      address + size ≤ 2 ^ 64 ∧ s'.memory = s.memory ∧ s'.first = s.first ∧
      s'.calls = s.calls ++ [.getVirtualPages address size] := by
  obtain ⟨⟨a, vma⟩, got, h⟩ := bind_eq_ok h
  cases h
  obtain ⟨out, rangesOut, inOut, blocks⟩ := inv.ranges
  obtain ⟨nonzero, below, rangesOut'⟩ := lawful.getVirtualPages rangesOut got
  refine ⟨⟨inv.layout, inv.pages, _, rangesOut', ?_, fun b hb => ?_⟩, nonzero, below, rfl, rfl, rfl⟩
  · exact List.forall_mem_cons.mpr ⟨Set.mem_insert _ _, fun r mem =>
      Set.mem_insert_of_mem _ (inOut r mem)⟩
  · exact Set.mem_insert_of_mem _ (blocks b hb)

theorem HeapInv.mapPage {page v : Nat} {attrs : Word}
    (inv : HeapInv PagesOut RangesOut s g [page] pending live)
    (h : mapPage s page v attrs = .ok s') :
    HeapInv PagesOut RangesOut s'
        { g with extra := g.extra ++ [(v, ⟨page, attrs &&& RW != 0#64⟩)] } [] pending live ∧
      v % PAGE_SIZE = 0 ∧ (∀ a, Covered PAGE_SIZE (g.owned live) a 8 →
        s'.memory.loadWord a = s.memory.loadWord a) ∧ s'.calls = s.calls ++ [.mapPage page v] := by
  obtain ⟨_, virtual, h⟩ := bind_eq_ok h
  obtain ⟨_, physical, h⟩ := bind_eq_ok h
  have virtual := beq_iff_eq.mp (kassert_eq_ok virtual)
  have physical := beq_iff_eq.mp (kassert_eq_ok physical)
  split at h
  · cases h
  · next free =>
      cases h
      obtain ⟨out, pagesOut, inOut, frames⟩ := inv.pages
      have own : ∀ q ∈ g.owned live, q.2.frame ≠ page := fun q mem same =>
        (frames q mem).2 (List.mem_singleton.mpr same)
      obtain ⟨layout, same⟩ := inv.layout.map (e := ⟨page, attrs &&& RW != 0#64⟩) free virtual
        physical own
      refine ⟨⟨layout, ⟨out, pagesOut, fun p mem => absurd mem List.not_mem_nil, fun q mem => ?_⟩,
        inv.ranges⟩, virtual, same, rfl⟩
      refine ⟨?_, List.not_mem_nil⟩
      unfold View.owned at mem
      dsimp only at mem
      rw [List.append_assoc, List.singleton_append, List.mem_append, List.mem_cons] at mem
      rcases mem with old | rfl | old
      · exact (frames q (List.mem_append_left _ old)).1
      · exact inOut page (List.mem_singleton.mpr rfl)
      · exact (frames q (List.mem_append_right _ old)).1

theorem HeapInv.weaken {fewer : List (Nat × Nat)}
    (inv : HeapInv PagesOut RangesOut s g spare pending live)
    (subset : ∀ r ∈ fewer, r ∈ pending) : HeapInv PagesOut RangesOut s g spare fewer live := by
  obtain ⟨out, rangesOut, inOut, blocks⟩ := inv.ranges
  exact ⟨inv.layout, inv.pages, out, rangesOut, fun r mem => inOut r (subset r mem), blocks⟩

/-! ## `get_new_allocation` -/

/-- A new node would lie inside the page of the last one, or gets a new page. -/
def nodeFits (s : State π ν) (n : Nat) : Bool :=
  match findNode s (divCeil n PAGE_SIZE) WALK s.first 0 with
  | .ok (.last last listSize) =>
    listSize / PAGE_SIZE != add64 listSize (nodeSize (divCeil n PAGE_SIZE)) / PAGE_SIZE ||
      (s.memory.loadWord (listSizeField last)).all fun count =>
        pageField last count + nodeSize (divCeil n PAGE_SIZE) ≤ pageOf last + PAGE_SIZE
  | _ => true

/-- The calls for a new page of nodes, if there is one. -/
def NodePageCalls (calls : List Call) : Prop :=
  calls = [] ∨ ∃ page address, calls =
    [.getPhysicalPage page, .getVirtualPages address PAGE_SIZE, .mapPage page address]

/-- The three stores that write the head of a node. -/
theorem writeHead_spec {m m₁ m₂ m₃ : PagedMemory PAGE_SIZE} {owned : Pages} {n : Node}
    (maps : Maps m owned) (field : ∀ o, o ≤ 16 → Covered PAGE_SIZE owned (n.addr + o) 8)
    (sizeLt : n.size < 2 ^ 64) (countLt : n.count < 2 ^ 64)
    (set₁ : m.storeWord (nextField n.addr) 0 = some m₁)
    (set₂ : m₁.storeWord (sizeField n.addr) n.size = some m₂)
    (set₃ : m₂.storeWord (listSizeField n.addr) n.count = some m₃) :
    m₃.tables = m.tables ∧ Holds m₃ n 0 ∧ ∀ w, Covered PAGE_SIZE owned w 8 →
      w + 8 ≤ n.addr ∨ n.addr + 24 ≤ w → m₃.loadWord w = m.loadWord w := by
  obtain ⟨tables₁, value₁, others₁⟩ := storeWord_spec maps (field 0 (by omega)) (by decide) set₁
  have maps₁ := maps.of_tables tables₁
  obtain ⟨tables₂, value₂, others₂⟩ := storeWord_spec maps₁ (field 8 (by omega)) sizeLt set₂
  have maps₂ := maps₁.of_tables tables₂
  obtain ⟨tables₃, value₃, others₃⟩ := storeWord_spec maps₂ (field 16 (by omega)) countLt set₃
  refine ⟨tables₃.trans (tables₂.trans tables₁), ⟨?_, ?_, value₃⟩, fun w covered apart => ?_⟩
  · show m₃.loadWord (n.addr + 0) = some 0
    rw [others₃ _ (field 0 (by omega)) (by omega), others₂ _ (field 0 (by omega)) (by omega)]
    exact value₁
  · show m₃.loadWord (n.addr + 8) = some n.size
    rw [others₃ _ (field 8 (by omega)) (by omega)]
    exact value₂
  · have at₁ : nextField n.addr = n.addr := rfl
    rw [others₃ w covered (by omega), others₂ w covered (by omega), others₁ w covered (by omega)]

/-- The five writes of `writeNode`. -/
theorem writeNode_ok {node last n needed : Nat} (h : writeNode node last n needed s = .ok s') :
    ∃ m₁ m₂ m₃ m₄ m₅,
      s.memory.storeBytes node (List.replicate (nodeSize needed) 0) = some m₁ ∧
      m₁.storeWord (nextField node) 0 = some m₂ ∧
      m₂.storeWord (sizeField node) n = some m₃ ∧
      m₃.storeWord (listSizeField node) needed = some m₄ ∧
      m₄.storeWord (nextField last) node = some m₅ ∧ s' = { s with memory := m₅ } := by
  obtain ⟨_, h₁, h⟩ := bind_eq_ok h
  obtain ⟨m₁, set₁, rfl⟩ := withMemory_ok h₁
  obtain ⟨_, h₂, h⟩ := bind_eq_ok h
  obtain ⟨m₂, set₂, rfl⟩ := withMemory_ok h₂
  obtain ⟨_, h₃, h⟩ := bind_eq_ok h
  obtain ⟨m₃, set₃, rfl⟩ := withMemory_ok h₃
  obtain ⟨_, h₄, h⟩ := bind_eq_ok h
  obtain ⟨m₄, set₄, rfl⟩ := withMemory_ok h₄
  obtain ⟨m₅, set₅, rfl⟩ := withMemory_ok h
  exact ⟨m₁, m₂, m₃, m₄, m₅, set₁, set₂, set₃, set₄, set₅, rfl⟩

/-- The new node is written and linked, and nothing else changes. -/
theorem writeNode_spec {front : List Node} {last : Node} {x n needed : Nat}
    (layout : Layout s.memory s.first g live) (nodes : g.nodes = front ++ [last])
    (covered : Covered PAGE_SIZE (g.owned live) x (nodeSize needed))
    (quiet : Quiet g live x (nodeSize needed)) (hx : x < 2 ^ 64) (hn : n < 2 ^ 64)
    (hneeded : needed < 2 ^ 64) (h : writeNode x last.addr n needed s = .ok s') :
    ∃ m, s' = { s with memory := m } ∧ m.tables = s.memory.tables ∧ Holds m ⟨x, n, needed⟩ 0 ∧
      m.loadWord (nextField last.addr) = some x ∧
      ∀ w, Watched g live w → w ≠ nextField last.addr → m.loadWord w = s.memory.loadWord w := by
  have hlast : last ∈ g.nodes := nodes ▸ List.mem_append_right _ (List.mem_singleton.mpr rfl)
  have lastWatched : Watched g live (nextField last.addr) := Or.inl ⟨last, hlast, Or.inl rfl⟩
  have lastCovered := layout.watched_owned lastWatched
  have lastApart := quiet _ lastWatched
  have field : ∀ o, o ≤ 16 → Covered PAGE_SIZE (g.owned live) (x + o) 8 := fun o ho =>
    covered.part (by omega) (by unfold nodeSize; omega)
  have size : 24 ≤ nodeSize needed := Nat.le_add_right _ _
  obtain ⟨m₁, m₂, m₃, m₄, m₅, set₁, set₂, set₃, set₄, set₅, rfl⟩ := writeNode_ok h
  have covered₁ : Covered PAGE_SIZE (g.owned live) x
      (List.replicate (nodeSize needed) (0 : UInt8)).length := by
    rwa [List.length_replicate]
  obtain ⟨tables₁, others₁⟩ := storeBytes_spec layout.maps covered₁ set₁
  rw [List.length_replicate] at others₁
  have maps₁ := layout.maps.of_tables tables₁
  obtain ⟨tables₄, holds, others₄⟩ := writeHead_spec (n := ⟨x, n, needed⟩) maps₁ field hn hneeded
    set₂ set₃ set₄
  have maps₄ := maps₁.of_tables tables₄
  obtain ⟨tables₅, value₅, others₅⟩ := storeWord_spec maps₄ lastCovered hx set₅
  refine ⟨m₅, rfl, tables₅.trans (tables₄.trans tables₁), ⟨?_, ?_, ?_⟩, value₅,
    fun w watched ne => ?_⟩
  · exact (others₅ _ (field 0 (by omega)) (by omega)).trans holds.next
  · exact (others₅ _ (field 8 (by omega)) (by omega)).trans holds.size
  · exact (others₅ _ (field 16 (by omega)) (by omega)).trans holds.count
  · have owned := layout.watched_owned watched
    have apart := quiet w watched
    have apart₅ := (layout.head_apart hlast (Or.inl rfl) watched).resolve_left ne
    rw [others₅ w owned apart₅, others₄ w owned (show w + 8 ≤ x ∨ x + 24 ≤ w by omega),
      others₁ w owned (by omega)]

/-- A page for nodes, still among the extra ones. -/
theorem getNodePage_spec {v : Nat} (lawful : Lawful S PagesOut RangesOut Exhausted)
    (inv : HeapInv PagesOut RangesOut s g [] pending live) (extra : g.extra = [])
    (h : getNodePage S s = .ok (v, s')) :
    ∃ page, HeapInv PagesOut RangesOut s' { g with extra := [(v, ⟨page, true⟩)] } [] pending live ∧
      v ≠ 0 ∧ v + PAGE_SIZE ≤ 2 ^ 64 ∧ v % PAGE_SIZE = 0 ∧
      s'.calls = s.calls ++
        [.getPhysicalPage page, .getVirtualPages v PAGE_SIZE, .mapPage page v] := by
  obtain ⟨⟨page, s₁⟩, h₁, h⟩ := bind_eq_ok h
  obtain ⟨⟨address, s₂⟩, h₂, h⟩ := bind_eq_ok h
  obtain ⟨s₃, h₃, h⟩ := bind_eq_ok h
  cases h
  obtain ⟨inv₁, -, -, calls₁⟩ := inv.getPhysicalPage lawful h₁
  obtain ⟨inv₂, nonzero, below, -, -, calls₂⟩ := inv₁.getVirtualPages lawful h₂
  obtain ⟨inv₃, aligned, -, calls₃⟩ := inv₂.mapPage h₃
  have writable : ((RW ||| XD) &&& RW != 0#64) = true := by decide
  rw [extra, List.nil_append, writable] at inv₃
  refine ⟨page, inv₃.weaken fun r mem => List.mem_cons_of_mem _ mem, nonzero, below, aligned, ?_⟩
  rw [calls₃, calls₂, calls₁, List.append_assoc, List.append_assoc]
  rfl

theorem pageOf_le (a : Nat) : pageOf a ≤ a := Nat.div_mul_le_self _ _

/-- A place for a new node: apart from all that is watched, inside a page for nodes,
and behind all nodes of that page. `added` is the new page, if there is one. -/
structure NodePlace (g : View) (live : List Block) (added : Pages) (x needed : Nat) : Prop where
  covered : Covered PAGE_SIZE (g.nodePages ++ added) x (nodeSize needed)
  quiet : Quiet g live x (nodeSize needed)
  below : ∀ v e, (v, e) ∈ added → v + PAGE_SIZE ≤ 2 ^ 64
  placed : ∀ size, Placed (g.nodePages ++ added) ⟨x, size, needed⟩
  before : ∀ size, ∀ k ∈ g.nodes, Before k ⟨x, size, needed⟩

theorem nodeSize_pos (count : Nat) : 0 < nodeSize count :=
  Nat.lt_of_lt_of_le (by decide) (Nat.le_add_right 24 _)

/-- The start of a new page. -/
theorem Layout.newPage_place {m : PagedMemory PAGE_SIZE} {first x page needed : Nat}
    (layout : Layout m first { g with extra := [(x, ⟨page, true⟩)] } live) (nonzero : x ≠ 0)
    (below : x + PAGE_SIZE ≤ 2 ^ 64) (aligned : x % PAGE_SIZE = 0)
    (room : nodeSize needed ≤ PAGE_SIZE) :
    NodePlace g live [(x, ⟨page, true⟩)] x needed := by
  have own : pageOf x = x := by
    unfold pageOf PAGE_SIZE at *
    omega
  have mem : (x, ⟨page, true⟩) ∈ g.nodePages ++ [(x, ⟨page, true⟩)] :=
    List.mem_append_right _ (List.mem_singleton.mpr rfl)
  have inPage : ∀ pages : Pages, (x, ⟨page, true⟩) ∈ pages →
      Covered PAGE_SIZE pages x (nodeSize needed) := fun pages mem =>
    Covered.of_page mem (Nat.dvd_of_mod_eq_zero aligned) (Nat.le_refl _) (by omega)
  refine ⟨inPage _ mem, ?_, ?_, fun size => ⟨nonzero, ⟨page, own.symm ▸ mem⟩, ?_⟩, ?_⟩
  · exact layout.quiet_extra (inPage _ (List.mem_singleton.mpr rfl)) (nodeSize_pos needed)
  · intro v e added
    cases List.mem_singleton.mp added
    exact below
  · show x + nodeSize needed ≤ pageOf x + PAGE_SIZE
    omega
  · intro size k hk
    refine Or.inr fun same => ?_
    obtain ⟨-, ⟨frame, old⟩, -⟩ := layout.placed k hk
    rw [same, own] at old
    exact layout.maps.different (List.mem_singleton.mpr rfl) (List.mem_append_left _ old)

/-- The end of the last node, if there is room in its page. -/
theorem Layout.samePage_place {m : PagedMemory PAGE_SIZE} {front : List Node} {last : Node}
    {first needed : Nat} (layout : Layout m first g live) (nodes : g.nodes = front ++ [last])
    (fits : pageField last.addr last.count + nodeSize needed ≤ pageOf last.addr + PAGE_SIZE) :
    NodePlace g live [] (pageField last.addr last.count) needed := by
  have hlast : last ∈ g.nodes := nodes ▸ List.mem_append_right _ (List.mem_singleton.mpr rfl)
  obtain ⟨nonzero, ⟨frame, page⟩, inside⟩ := layout.placed last hlast
  have positive := nodeSize_pos needed
  have start := pageOf_le last.addr
  have stop : pageField last.addr last.count = last.stop := by
    unfold pageField Node.stop nodeSize
    omega
  have covered : Covered PAGE_SIZE g.nodePages (pageField last.addr last.count) (nodeSize needed) :=
    Covered.of_page page (Nat.dvd_mul_left _ _) (by unfold pageField; omega) (by omega)
  have samePage : pageOf (pageField last.addr last.count) = pageOf last.addr := by
    unfold pageOf pageField PAGE_SIZE at *
    omega
  have before : ∀ k ∈ g.nodes, k.stop ≤ pageField last.addr last.count ∨
      pageOf k.addr ≠ pageOf last.addr := by
    intro k hk
    rw [nodes] at hk
    have ordered := layout.ordered
    rw [nodes] at ordered
    rcases List.mem_append.mp hk with inFront | atEnd
    · rcases (List.pairwise_append.mp ordered).2.2 k inFront last (List.mem_singleton.mpr rfl) with
        earlier | pages
      · exact Or.inl (by unfold pageField; omega)
      · exact Or.inr pages
    · rw [List.mem_singleton.mp atEnd]
      exact Or.inl (Nat.le_of_eq stop.symm)
  refine ⟨?_, ?_, fun v e mem => absurd mem List.not_mem_nil, fun size => ⟨?_, ⟨frame, ?_⟩, ?_⟩,
    fun size k hk => ?_⟩
  · rwa [List.append_nil]
  · refine layout.quiet_of_nodes covered positive fun k hk => ?_
    rcases before k hk with earlier | pages
    · exact Or.inl earlier
    · have insideK := (layout.placed k hk).inside
      have startK := pageOf_le k.addr
      unfold pageOf pageField PAGE_SIZE at *
      omega
  · show pageField last.addr last.count ≠ 0
    unfold pageField
    omega
  · show (pageOf (pageField last.addr last.count), _) ∈ _
    rw [samePage, List.append_nil]
    exact page
  · show pageField last.addr last.count + nodeSize needed ≤
      pageOf (pageField last.addr last.count) + PAGE_SIZE
    rw [samePage]
    exact fits
  · refine (before k hk).imp_right fun ne => ?_
    show pageOf k.addr ≠ pageOf (pageField last.addr last.count)
    rwa [samePage]

/-- A node that does not end where its page ends goes to a page of its own. -/
theorem placeNode_newPage {last x needed : Nat} (lawful : Lawful S PagesOut RangesOut Exhausted)
    (inv : HeapInv PagesOut RangesOut s g [] pending live) (extra : g.extra = [])
    (hneeded : nodeSize needed < 2 ^ 63)
    (crosses : total g.nodes / PAGE_SIZE ≠ add64 (total g.nodes) (nodeSize needed) / PAGE_SIZE)
    (h : placeNode S last (total g.nodes) (nodeSize needed) s = .ok (x, s')) :
    total g.nodes + nodeSize needed ≤ PAGE_SIZE ∧ ∃ page,
      HeapInv PagesOut RangesOut s' { g with extra := [(x, ⟨page, true⟩)] } [] pending live ∧
      NodePlace g live [(x, ⟨page, true⟩)] x needed ∧ s'.calls = s.calls ++
        [.getPhysicalPage page, .getVirtualPages x PAGE_SIZE, .mapPage page x] := by
  have small := inv.layout.small
  have sum : add64 (total g.nodes) (nodeSize needed) = total g.nodes + nodeSize needed :=
    add64_eq (by unfold PAGE_SIZE at small; omega)
  unfold placeNode at h
  rw [if_pos crosses] at h
  obtain ⟨_, room, h⟩ := bind_eq_ok h
  have room : total g.nodes + nodeSize needed ≤ PAGE_SIZE := by
    rw [← sum]
    exact of_decide_eq_true (kassert_eq_ok room)
  obtain ⟨page, inv', nonzero, below, aligned, calls⟩ := getNodePage_spec lawful inv extra h
  have place := inv'.layout.newPage_place nonzero below aligned
    (show nodeSize needed ≤ PAGE_SIZE by omega)
  exact ⟨room, page, inv', place, calls⟩

/-- Otherwise it follows the last node. -/
theorem placeNode_samePage {front : List Node} {last : Node} {needed : Nat}
    (layout : Layout s.memory s.first g live) (nodes : g.nodes = front ++ [last])
    (samePage : total g.nodes / PAGE_SIZE =
      add64 (total g.nodes) (nodeSize needed) / PAGE_SIZE) :
    placeNode S last.addr (total g.nodes) (nodeSize needed) s =
      .ok (pageField last.addr last.count, s) := by
  have chain := layout.chain
  rw [nodes] at chain
  unfold placeNode
  rw [if_neg (not_not.mpr samePage), State.load_eq chain.last.count]
  rfl

/-- Where a new node goes. -/
theorem placeNode_spec {front : List Node} {last : Node} {x needed : Nat}
    (lawful : Lawful S PagesOut RangesOut Exhausted)
    (inv : HeapInv PagesOut RangesOut s g [] pending live) (extra : g.extra = [])
    (nodes : g.nodes = front ++ [last]) (hneeded : nodeSize needed < 2 ^ 63)
    (fits : total g.nodes / PAGE_SIZE = add64 (total g.nodes) (nodeSize needed) / PAGE_SIZE →
      pageField last.addr last.count + nodeSize needed ≤ pageOf last.addr + PAGE_SIZE)
    (h : placeNode S last.addr (total g.nodes) (nodeSize needed) s = .ok (x, s')) :
    ∃ added, HeapInv PagesOut RangesOut s' { g with extra := added } [] pending live ∧
      NodePlace g live added x needed ∧ total g.nodes + nodeSize needed < 2 * PAGE_SIZE ∧
      ∃ more, s'.calls = s.calls ++ more ∧ NodePageCalls more := by
  have layout := inv.layout
  have small := layout.small
  have sum : add64 (total g.nodes) (nodeSize needed) = total g.nodes + nodeSize needed :=
    add64_eq (by unfold PAGE_SIZE at small; omega)
  by_cases samePage : total g.nodes / PAGE_SIZE =
      add64 (total g.nodes) (nodeSize needed) / PAGE_SIZE
  · -- the new node follows the last one
    rw [placeNode_samePage layout nodes samePage] at h
    obtain ⟨rfl, rfl⟩ := Prod.mk.inj (Except.ok.inj h)
    refine ⟨[], ?_, layout.samePage_place nodes (fits samePage), ?_, [],
      (List.append_nil _).symm, Or.inl rfl⟩
    · rw [← extra]
      exact inv
    · rw [sum] at samePage
      unfold PAGE_SIZE at *
      omega
  · -- the list has filled its first page exactly
    obtain ⟨room, page, inv', place, calls⟩ :=
      placeNode_newPage lawful inv extra hneeded samePage h
    refine ⟨_, inv', place, ?_, _, calls, Or.inr ⟨page, x, rfl⟩⟩
    unfold PAGE_SIZE at *
    omega

theorem divCeil_pos {n : Nat} (positive : 0 < n) : 0 < divCeil n PAGE_SIZE := by
  unfold divCeil PAGE_SIZE
  split <;> omega

/-- A node without a size belongs to no block. -/
theorem Layout.free_of_killed {m : PagedMemory PAGE_SIZE} {first : Nat} {k : Node}
    (layout : Layout m first g live) (hk : k ∈ g.nodes) (killed : k.size = 0) :
    ∀ b ∈ live, b.node ≠ k.addr := by
  intro b hb same
  obtain ⟨k', hk', addr, size, -⟩ := layout.recorded b hb
  have eq : k' = k := layout.head_ext (List.mem_of_mem_tail hk') hk (o := 0) (p := 0) (by decide)
    (by decide) (addr.trans same)
  have inside := (layout.shapes b hb).inside
  rw [eq, killed] at size
  omega

/-- A node at an address where there is none belongs to no block. -/
theorem Layout.free_of_before {m : PagedMemory PAGE_SIZE} {first : Nat} {new : Node}
    (layout : Layout m first g live) (before : ∀ k ∈ g.nodes, Before k new) :
    ∀ b ∈ live, b.node ≠ new.addr := by
  intro b hb same
  obtain ⟨k, hk, addr, -⟩ := layout.recorded b hb
  have front := before k (List.mem_of_mem_tail hk)
  unfold Before Node.stop nodeSize at front
  rw [addr, same] at front
  omega

theorem nodeFits_last {last : Node} {n listSize : Nat} (fits : nodeFits s n = true)
    (found : findNode s (divCeil n PAGE_SIZE) WALK s.first 0 = .ok (.last last.addr listSize))
    (holds : Holds s.memory last 0)
    (samePage : listSize / PAGE_SIZE =
      add64 listSize (nodeSize (divCeil n PAGE_SIZE)) / PAGE_SIZE) :
    pageField last.addr last.count + nodeSize (divCeil n PAGE_SIZE) ≤
      pageOf last.addr + PAGE_SIZE := by
  unfold nodeFits at fits
  rw [found] at fits
  dsimp only at fits
  rw [← samePage, bne_self_eq_false, Bool.false_or, holds.count, Option.all_some] at fits
  exact of_decide_eq_true fits

/-- The list as the walks see it. -/
theorem Layout.listed {m : PagedMemory PAGE_SIZE} {first : Nat} (layout : Layout m first g live) :
    ∃ n rest, g.nodes = n :: rest ∧ first = n.addr ∧ Chain m (n :: rest) ∧ rest.length < WALK ∧
      ∀ k ∈ n :: rest, k.addr ≠ 0 := by
  obtain ⟨n, rest, nodes⟩ := List.exists_cons_of_ne_nil layout.nonempty
  refine ⟨n, rest, nodes, ?_, nodes ▸ layout.chain, ?_, fun k hk => ?_⟩
  · rw [layout.head, nodes]
    rfl
  · have length := length_le_total g.nodes
    have small := layout.small
    rw [nodes, List.length_cons] at length
    rw [nodes] at small
    unfold WALK PAGE_SIZE at *
    omega
  · exact (layout.placed k (nodes ▸ hk)).nonzero

/-- What `get_new_allocation` is for: a node of this size that belongs to no block. -/
def HasNode (g : View) (live : List Block) (node n : Nat) : Prop :=
  g.extra = [] ∧ ⟨node, n, divCeil n PAGE_SIZE⟩ ∈ g.nodes.tail ∧ ∀ b ∈ live, b.node ≠ node

/-- A killed node is used again. -/
theorem HeapInv.reuseNode {k : Node} {n : Nat}
    (inv : HeapInv PagesOut RangesOut s g [] pending live) (extra : g.extra = [])
    (hn : n < 2 ^ 64) (positive : 0 < n) (hk : k ∈ g.nodes) (killed : k.size = 0)
    (count : k.count = divCeil n PAGE_SIZE) (h : s.store (sizeField k.addr) n = .ok s') :
    ∃ g', HeapInv PagesOut RangesOut s' g' [] pending live ∧ HasNode g' live k.addr n ∧
      s'.calls = s.calls := by
  have layout := inv.layout
  obtain ⟨m, set, rfl⟩ := withMemory_ok h
  have free := layout.free_of_killed hk killed
  obtain ⟨layout', -⟩ := layout.setSize hk free hn set
  have inTail : k ∈ g.nodes.tail := by
    obtain ⟨first, rest, nodes, -⟩ := layout.listed
    rw [nodes] at hk ⊢
    rcases List.mem_cons.mp hk with rfl | later
    · have dummy := layout.dummy k (by rw [nodes]; rfl)
      have needed := divCeil_pos positive
      omega
    · exact later
  refine ⟨_, inv.withLayout layout' fun _ => id, ⟨extra, ?_, free⟩, rfl⟩
  show _ ∈ (setSize g.nodes k.addr n).tail
  rw [setSize_tail]
  refine List.mem_map.mpr ⟨k, inTail, ?_⟩
  rw [if_pos rfl, ← count]

/-- The list with a new node that has been written to its place. -/
theorem HeapInv.linkNode {front : List Node} {last : Node} {added : Pages} {node n : Nat}
    (inv : HeapInv PagesOut RangesOut s { g with extra := added } [] pending live)
    (nodes : g.nodes = front ++ [last]) (place : NodePlace g live added node (divCeil n PAGE_SIZE))
    (room : total g.nodes + nodeSize (divCeil n PAGE_SIZE) < 2 * PAGE_SIZE) (hn : n < 2 ^ 64)
    (h : writeNode node last.addr n (divCeil n PAGE_SIZE) s = .ok s') :
    HeapInv PagesOut RangesOut s'
        ⟨front ++ [last, ⟨node, n, divCeil n PAGE_SIZE⟩], g.nodePages ++ added, []⟩ [] pending live ∧
      s'.calls = s.calls := by
  have layout := inv.layout
  have belowAll : ∀ v e, (v, e) ∈ g.nodePages ++ added → v + PAGE_SIZE ≤ 2 ^ 64 := by
    intro v e mem
    rcases List.mem_append.mp mem with old | new
    · exact layout.below v e old
    · exact place.below v e new
  have hx : node < 2 ^ 64 := by
    obtain ⟨frame, page⟩ := (place.placed n).page
    have inside := (place.placed n).inside
    have below := belowAll _ _ page
    unfold Node.stop nodeSize at inside
    dsimp only at inside below
    omega
  have perm : (View.owned { g with extra := added } live).Perm
      (View.owned ⟨front ++ [last, ⟨node, n, divCeil n PAGE_SIZE⟩], g.nodePages ++ added, []⟩
        live) := by
    unfold View.owned
    rw [List.nil_append, ← List.append_assoc]
    exact List.Perm.append_right _ List.perm_append_comm
  have owned : Covered PAGE_SIZE (View.owned { g with extra := added } live) node
      (nodeSize (divCeil n PAGE_SIZE)) := by
    refine place.covered.mono fun p mem => ?_
    rcases List.mem_append.mp mem with old | new
    · exact List.mem_append_right _ (List.mem_append_left _ old)
    · exact List.mem_append_left _ new
  have pages : 2 * PAGE_SIZE = 8192 := rfl
  obtain ⟨m, rfl, tables, holds, linked, same⟩ := writeNode_spec layout nodes owned place.quiet hx hn
    (by unfold nodeSize at room; omega) h
  have layout' := layout.link nodes ((layout.maps.of_tables tables).perm perm) linked holds same
    (fun p => List.mem_append_left _) belowAll (place.placed n) (nodes ▸ place.before n) room
  exact ⟨inv.withLayout layout' fun q => perm.mem_iff.mpr, rfl⟩

/-- A new node is written to its place. -/
theorem HeapInv.newNode {front : List Node} {last : Node} {added : Pages} {node n : Nat}
    (inv : HeapInv PagesOut RangesOut s { g with extra := added } [] pending live)
    (nodes : g.nodes = front ++ [last]) (place : NodePlace g live added node (divCeil n PAGE_SIZE))
    (room : total g.nodes + nodeSize (divCeil n PAGE_SIZE) < 2 * PAGE_SIZE) (hn : n < 2 ^ 64)
    (h : writeNode node last.addr n (divCeil n PAGE_SIZE) s = .ok s') :
    ∃ g', HeapInv PagesOut RangesOut s' g' [] pending live ∧ HasNode g' live node n ∧
      s'.calls = s.calls := by
  obtain ⟨inv', calls⟩ := inv.linkNode nodes place room hn h
  refine ⟨_, inv', ⟨rfl, ?_, inv.layout.free_of_before (place.before n)⟩, calls⟩
  show _ ∈ (front ++ [last, ⟨node, n, divCeil n PAGE_SIZE⟩]).tail
  cases front with
  | nil => exact List.mem_singleton.mpr rfl
  | cons k front =>
      exact List.mem_append_right _ (List.mem_cons_of_mem _ (List.mem_singleton.mpr rfl))

/-- `get_new_allocation` returns a node of the list that belongs to no block. -/
theorem getNewAllocation_spec {n node : Nat} (lawful : Lawful S PagesOut RangesOut Exhausted)
    (inv : HeapInv PagesOut RangesOut s g [] pending live) (extra : g.extra = [])
    (hn : n < 2 ^ 64) (positive : 0 < n) (fits : nodeFits s n = true)
    (h : getNewAllocation S n s = .ok (node, s')) :
    ∃ g', HeapInv PagesOut RangesOut s' g' [] pending live ∧ HasNode g' live node n ∧
      ∃ more, s'.calls = s.calls ++ more ∧ NodePageCalls more := by
  have layout := inv.layout
  have small := layout.small
  obtain ⟨first, rest, hnodes, head, chain, enough, nonzero⟩ := layout.listed
  have walk := findNode_spec (divCeil n PAGE_SIZE) 0 chain
    (fun k hk => nonzero k (List.mem_cons_of_mem _ hk)) enough
    (by rw [← hnodes]; unfold PAGE_SIZE at small; omega)
  rw [← hnodes, ← head] at walk
  obtain ⟨_, -, h⟩ := bind_eq_ok h
  obtain ⟨result, hfound, h⟩ := bind_eq_ok h
  rcases walk with ⟨k, hk, killed, count, found⟩ | ⟨front, last, nodes, found⟩
  · rw [found] at hfound
    cases hfound
    obtain ⟨s₁, stored, h⟩ := bind_eq_ok h
    cases h
    obtain ⟨g', inv', hasNode, calls⟩ := inv.reuseNode extra hn positive hk killed count stored
    exact ⟨g', inv', hasNode, [], by rw [calls, List.append_nil], Or.inl rfl⟩
  · rw [found] at hfound
    cases hfound
    rw [Nat.zero_add] at found h
    obtain ⟨⟨x, s₁⟩, placed, h⟩ := bind_eq_ok h
    obtain ⟨s₂, written, h⟩ := bind_eq_ok h
    cases h
    have sizeLt : nodeSize (divCeil n PAGE_SIZE) < 2 ^ 63 := by
      unfold nodeSize divCeil PAGE_SIZE
      split <;> omega
    have holds : Holds s.memory last 0 := by
      have chain := layout.chain
      rw [nodes] at chain
      exact chain.last
    obtain ⟨added, inv₁, place, room, more, calls, pageCalls⟩ :=
      placeNode_spec lawful inv extra nodes sizeLt (nodeFits_last fits found holds) placed
    obtain ⟨g', inv', hasNode, calls'⟩ := inv₁.newNode nodes place room hn written
    exact ⟨g', inv', hasNode, more, calls'.trans calls, pageCalls⟩

end Specs

end Tyleros.Alloc
