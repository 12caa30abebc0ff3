import Tyleros.Alloc.Blocks
import Tyleros.Alloc.Kernel
import Mathlib.Order.Interval.Set.Disjoint

/-!
# Runs of the heap

`exact_run`: as long as no step meets one of three conditions, live blocks never
share an address or a page, and freeing a live block gives back exactly what was
taken for it. The conditions on a step are in `Sound`:

* `remove_allocation` kills the node in front of the one that is removed. A block is
  freed only while no live block has the node in front.
* The size of the header and of the block are computed without a check for
  overflow. The header has to fit in front of the pointer.
* `allocation_list_size` does not tell where in its page the last node lies, once a
  second page has been started. A new node has to end inside the page.

Without the first condition, two blocks are enough for a failed assertion
(`freed_younger_first`).
-/

namespace Tyleros.Alloc

open Lib Lib.PagedMemory Paging

variable {π ν : Type}

/-- Only pointers to live blocks, and null, are freed. -/
def Legal (h : Held π ν) : Op → Prop
  | .alloc _ _ _ => True
  | .free q => q = 0 ∨ ∃ b ∈ h.live, b.pointer = q

/-- The steps that meet none of the defects. -/
def Sound (h : Held π ν) : Op → Prop
  | .alloc n alignment _ => n.toNat = 0 ∨ alignment.toNat = 0 ∨
      HeaderFits n.toNat alignment.toNat ∧
        nodeFits h.heap (sizeWithHeader n.toNat alignment.toNat) = true
  | .free q => ∀ b ∈ h.live, b.pointer = q → ∀ b' ∈ h.live,
      h.heap.memory.loadWord (nextField b'.node) ≠ some b.node

/-- The addresses of a block. -/
def Block.range (b : Block) : Set Nat := Set.Ico b.base (b.base + b.size)

/-- No two live blocks share an address or a physical page, and the pages of a block
are those its addresses are mapped to. -/
structure Apart (h : Held π ν) : Prop where
  ranges : h.live.Pairwise fun b b' => Disjoint b.range b'.range
  pages : h.live.Pairwise fun b b' => List.Disjoint b.pages b'.pages
  backed : ∀ b ∈ h.live, b.size = b.pages.length * PAGE_SIZE ∧
    ∀ i p, b.pages[i]? = some p →
      (h.heap.memory.tables (b.base + i * PAGE_SIZE)).map PageEntry.frame = some p

/-- `alloc` adds a block for what it took. Freeing a live block returns its range and
its pages and unmaps them, and nothing else, or stops because the virtual allocator
has no room for the range. -/
def Exact (S : Suppliers π ν) (Exhausted : Stop → Prop) (h : Held π ν) : Op → Prop
  | .alloc n alignment p => ∀ h', h.step S (.alloc n alignment p) = .ok h' →
      ∃ block : Option Block, h'.live = block.toList ++ h.live ∧
        AllocCalls h.heap.calls h'.heap.calls block
  | .free q => ∀ b ∈ h.live, b.pointer = q →
      (∃ h', h.step S (.free q) = .ok h' ∧
        h'.heap.calls = h.heap.calls ++ b.returns ∧
        (∀ v, h'.heap.memory.tables v = if v ∈ b.mapped.map Prod.fst then none
          else h.heap.memory.tables v) ∧
        ∃ newer older, h.live = newer ++ b :: older ∧ h'.live = newer ++ older) ∨
      ∃ e, h.step S (.free q) = .error e ∧ Exhausted e

section Blocks

variable {m : PagedMemory PAGE_SIZE} {first : Nat} {g : View} {live : List Block}

theorem frames_mappedFrom (base : Nat) (attrs : Word) (i : Nat) (frames : List Nat) :
    (mappedFrom base attrs i frames).map (fun p => p.2.frame) = frames := by
  induction frames generalizing i with
  | nil => rfl
  | cons frame frames ih => rw [mappedFrom_cons, List.map_cons, ih]

/-- Different blocks have different pages. -/
theorem Layout.pages_apart (layout : Layout m first g live) :
    live.Pairwise fun b b' => List.Disjoint b.pages b'.pages := by
  have frames := layout.maps.frames
  unfold View.owned at frames
  rw [List.map_append, List.map_append, List.map_flatMap] at frames
  have blocks := (List.nodup_append.mp (List.nodup_append.mp frames).2.1).2.1
  refine (List.nodup_flatMap.mp blocks).2.imp fun {b b'} apart => ?_
  have pages : ∀ b : Block, b.mapped.map (fun p => p.2.frame) = b.pages := fun b =>
    frames_mappedFrom b.base b.attrs 0 b.pages
  have apart : List.Disjoint (b.mapped.map fun p => p.2.frame) (b'.mapped.map fun p => p.2.frame) :=
    apart
  rwa [pages, pages] at apart

/-- The page of an address of a block. -/
theorem Layout.page_of_mem {b : Block} (layout : Layout m first g live) (hb : b ∈ live) {x : Nat}
    (mem : x ∈ b.range) : ∃ e, m.tables (x / PAGE_SIZE * PAGE_SIZE) = some e ∧ e.frame ∈ b.pages := by
  have shape := layout.shapes b hb
  have covered : Covered PAGE_SIZE b.mapped x 1 :=
    covered_mappedFrom (layout.block_aligned hb) mem.1 (shape.size ▸ mem.2)
  obtain ⟨e, inBlock⟩ := covered 0 Nat.zero_lt_one
  refine ⟨e, layout.maps.entry _ _ (Layout.mapped_mem hb inBlock), ?_⟩
  rw [← frames_mappedFrom b.base b.attrs 0 b.pages]
  exact List.mem_map_of_mem inBlock

/-- Different blocks have different addresses. -/
theorem Layout.ranges_apart (layout : Layout m first g live) :
    live.Pairwise fun b b' => Disjoint b.range b'.range := by
  refine layout.pages_apart.imp_of_mem fun {b b'} hb hb' apart => ?_
  refine Set.disjoint_left.mpr fun x mem mem' => ?_
  obtain ⟨e, entry, page⟩ := layout.page_of_mem hb mem
  obtain ⟨e', entry', page'⟩ := layout.page_of_mem hb' mem'
  rw [entry] at entry'
  cases entry'
  exact apart page page'

theorem Block.Shape.pointer_mem {b : Block} (shape : b.Shape) : b.pointer ∈ b.range := by
  have inside := shape.inside
  have pointer := shape.pointer
  exact ⟨by omega, by omega⟩

/-- The block `eraseP` takes out is the one with the pointer. -/
theorem Layout.split_live {b : Block} (layout : Layout m first g live) (hb : b ∈ live) :
    ∃ newer older, live = newer ++ b :: older ∧
      live.eraseP (·.pointer == b.pointer) = newer ++ older := by
  obtain ⟨a, newer, older, others, found, rfl, erased⟩ :=
    List.exists_of_eraseP (p := (·.pointer == b.pointer)) hb (beq_self_eq_true b.pointer)
  have same : a.pointer = b.pointer := beq_iff_eq.mp found
  have eq : b = a := by
    rcases List.mem_append.mp hb with front | rest
    · exact absurd (beq_self_eq_true b.pointer) (others b front)
    · rcases List.mem_cons.mp rest with eq | back
      · exact eq
      · have apart := (List.pairwise_cons.mp (List.pairwise_append.mp layout.ranges_apart).2.1).1 b back
        have inB := (layout.shapes b hb).pointer_mem
        have inA := (layout.shapes a (List.mem_append_right _ List.mem_cons_self)).pointer_mem
        rw [same] at inA
        exact absurd inB (Set.disjoint_left.mp apart inA)
  rw [eq] at erased ⊢
  exact ⟨newer, older, rfl, erased⟩

end Blocks

section Runs

variable {S : Suppliers π ν} {PagesOut : π → Set Nat → Prop}
  {RangesOut : ν → Set (Nat × Nat) → Prop} {Exhausted : Stop → Prop}

variable (PagesOut RangesOut) in
def HeldInv (h : Held π ν) : Prop :=
  ∃ g, HeapInv PagesOut RangesOut h.heap g [] [] h.live ∧ g.extra = []

theorem HeldInv.apart {h : Held π ν} (inv : HeldInv PagesOut RangesOut h) : Apart h := by
  obtain ⟨g, inv, -⟩ := inv
  have layout := inv.layout
  refine ⟨layout.ranges_apart, layout.pages_apart, fun b hb => ⟨(layout.shapes b hb).size, ?_⟩⟩
  intro i p at_
  have mem : (b.base + (0 + i) * PAGE_SIZE, _) ∈ b.mapped := mem_mappedFrom at_
  rw [Nat.zero_add] at mem
  rw [layout.maps.entry _ _ (Layout.mapped_mem hb mem)]
  rfl

/-- What freeing a live block does to the heap and its blocks. -/
theorem HeldInv.free {h : Held π ν} {b : Block} (lawful : Lawful S PagesOut RangesOut Exhausted)
    (inv : HeldInv PagesOut RangesOut h) (hb : b ∈ h.live) (sound : Sound h (.free b.pointer)) :
    (∃ h', h.step S (.free b.pointer) = .ok h' ∧ HeldInv PagesOut RangesOut h' ∧
        h'.heap.calls = h.heap.calls ++ b.returns ∧
        (∀ v, h'.heap.memory.tables v = if v ∈ b.mapped.map Prod.fst then none
          else h.heap.memory.tables v) ∧
        ∃ newer older, h.live = newer ++ b :: older ∧ h'.live = newer ++ older) ∨
      ∃ e, h.step S (.free b.pointer) = .error e ∧ Exhausted e := by
  obtain ⟨g, inv, extra⟩ := inv
  obtain ⟨newer, older, live, erased⟩ := inv.layout.split_live hb
  have notBehind : ∀ b' ∈ newer ++ older,
      h.heap.memory.loadWord (nextField b'.node) ≠ some b.node := by
    intro b' hb'
    refine sound b hb rfl b' ?_
    rw [live, List.mem_append, List.mem_cons]
    rw [List.mem_append] at hb'
    tauto
  have step : h.step S (.free b.pointer) = (Alloc.free S b.pointer h.heap >>= fun heap =>
      .ok ⟨heap, newer ++ older⟩) := by
    rw [← erased]
    rfl
  rw [live] at inv
  rcases free_spec lawful inv extra notBehind with ⟨s', freed, ⟨g', inv', extra'⟩, tables, calls⟩ | ⟨e, stopped, exhausted⟩
  · refine Or.inl ⟨⟨s', newer ++ older⟩, ?_, ⟨g', inv', extra'⟩, calls, tables, newer, older, live, rfl⟩
    rw [step, freed]
    rfl
  · refine Or.inr ⟨e, ?_, exhausted⟩
    rw [step, stopped]
    rfl

theorem HeldInv.alloc {h h' : Held π ν} {n alignment : UInt64} {p : Protection}
    (lawful : Lawful S PagesOut RangesOut Exhausted) (inv : HeldInv PagesOut RangesOut h)
    (sound : Sound h (.alloc n alignment p)) (hs : h.step S (.alloc n alignment p) = .ok h') :
    HeldInv PagesOut RangesOut h' ∧ ∃ block : Option Block, h'.live = block.toList ++ h.live ∧
      AllocCalls h.heap.calls h'.heap.calls block := by
  obtain ⟨g, inv, extra⟩ := inv
  obtain ⟨⟨block, heap⟩, allocated, hs⟩ := bind_eq_ok hs
  cases hs
  obtain ⟨inv', calls⟩ := alloc_spec lawful inv extra alignment.toNat_lt sound allocated
  exact ⟨inv', block, rfl, calls⟩

theorem HeldInv.step {h h' : Held π ν} {o : Op} (lawful : Lawful S PagesOut RangesOut Exhausted)
    (inv : HeldInv PagesOut RangesOut h) (ok : Legal h o ∧ Sound h o)
    (hs : (machine S).step h o = .ok h') : HeldInv PagesOut RangesOut h' := by
  obtain ⟨legal, sound⟩ := ok
  cases o with
  | alloc n alignment p => exact (inv.alloc lawful sound hs).1
  | free q =>
      rcases legal with rfl | ⟨b, hb, rfl⟩
      · obtain ⟨heap, freed, hs⟩ := bind_eq_ok hs
        cases hs
        cases freed
        have kept : h.live.eraseP (·.pointer == 0) = h.live := by
          refine List.eraseP_of_forall_not fun b hb null => ?_
          obtain ⟨g, inv, -⟩ := inv
          have shape := inv.layout.shapes b hb
          have header := shape.header
          have pointer := shape.pointer
          have zero : b.pointer = 0 := beq_iff_eq.mp null
          omega
        obtain ⟨g, inv, extra⟩ := inv
        refine ⟨g, ?_, extra⟩
        show HeapInv PagesOut RangesOut h.heap g [] [] (h.live.eraseP (·.pointer == 0))
        rw [kept]
        exact inv
      · rcases inv.free lawful hb sound with ⟨h'', step, inv', -⟩ | ⟨e, stopped, -⟩
        · cases step.symm.trans hs
          exact inv'
        · cases stopped.symm.trans hs

theorem HeldInv.exact {h : Held π ν} {o : Op} (lawful : Lawful S PagesOut RangesOut Exhausted)
    (inv : HeldInv PagesOut RangesOut h) (sound : Sound h o) : Exact S Exhausted h o := by
  cases o with
  | alloc n alignment p => exact fun h' hs => (inv.alloc lawful sound hs).2
  | free q =>
      rintro b hb rfl
      rcases inv.free lawful hb sound with ⟨h', step, -, effects⟩ | stopped
      · exact Or.inl ⟨h', step, effects⟩
      · exact Or.inr stopped

/-- The heap after `init`, on allocators that keep to their laws. -/
def Started (S : Suppliers π ν) (PagesOut : π → Set Nat → Prop)
    (RangesOut : ν → Set (Nat × Nat) → Prop) (s : State π ν) : Prop :=
  ∃ boot pages ranges, PagesOut boot.pma pages ∧ RangesOut boot.vma ranges ∧ init S boot = .ok s

/-- The list with only its first node, at the start of its page. -/
theorem Layout.start {m : PagedMemory PAGE_SIZE} {v page : Nat} (nonzero : v ≠ 0)
    (below : v + PAGE_SIZE ≤ 2 ^ 64) (maps : Maps m [(v, ⟨page, true⟩)])
    (holds : Holds m ⟨v, 0, 0⟩ 0) :
    Layout m v ⟨[⟨v, 0, 0⟩], [(v, ⟨page, true⟩)], []⟩ [] where
  maps := maps
  chain := ⟨holds, trivial⟩
  head := rfl
  nonempty := List.cons_ne_nil _ _
  dummy := fun n hn => by cases hn; rfl
  small := by
    show 24 + 0 < 2 * PAGE_SIZE
    decide
  placed := by
    intro n hn
    have aligned := (maps.aligned v _ (List.mem_singleton.mpr rfl)).1
    have own : pageOf v = v := Nat.div_mul_cancel aligned
    rw [List.mem_singleton.mp hn]
    refine ⟨nonzero, ⟨page, own.symm ▸ List.mem_singleton.mpr rfl⟩, ?_⟩
    show v + 24 ≤ pageOf v + PAGE_SIZE
    unfold PAGE_SIZE
    omega
  below := by
    intro v' e mem
    cases List.mem_singleton.mp mem
    exact below
  ordered := List.pairwise_singleton _ _
  shapes := fun b hb => absurd hb List.not_mem_nil
  words := fun b hb => absurd hb List.not_mem_nil
  recorded := fun b hb => absurd hb List.not_mem_nil
  owners := List.Pairwise.nil

/-- The page `init` gets for the list. -/
theorem getNodePage_boot {boot s : State π ν} {pages : Set Nat} {ranges : Set (Nat × Nat)} {v : Nat}
    (lawful : Lawful S PagesOut RangesOut Exhausted) (pagesOut : PagesOut boot.pma pages)
    (rangesOut : RangesOut boot.vma ranges) (h : getNodePage S boot = .ok (v, s)) :
    ∃ page, Maps s.memory [(v, ⟨page, true⟩)] ∧ v ≠ 0 ∧ v + PAGE_SIZE ≤ 2 ^ 64 ∧
      PagesOut s.pma (insert page pages) ∧ RangesOut s.vma (insert (v, PAGE_SIZE) ranges) ∧
      s.calls = boot.calls ++
        [.getPhysicalPage page, .getVirtualPages v PAGE_SIZE, .mapPage page v] ∧
      s.memory.tables = Function.update boot.memory.tables v (some ⟨page, true⟩) := by
  obtain ⟨⟨page, s₁⟩, h₁, h⟩ := bind_eq_ok h
  obtain ⟨⟨_, pma⟩, gotPage, h₁⟩ := bind_eq_ok h₁
  cases h₁
  obtain ⟨⟨address, s₂⟩, h₂, h⟩ := bind_eq_ok h
  obtain ⟨⟨_, vma⟩, gotRange, h₂⟩ := bind_eq_ok h₂
  cases h₂
  obtain ⟨s₃, h₃, h⟩ := bind_eq_ok h
  cases h
  obtain ⟨_, virtual, h₃⟩ := bind_eq_ok h₃
  obtain ⟨_, physical, h₃⟩ := bind_eq_ok h₃
  have virtual : v % PAGE_SIZE = 0 := beq_iff_eq.mp (kassert_eq_ok virtual)
  have physical : page % PAGE_SIZE = 0 := beq_iff_eq.mp (kassert_eq_ok physical)
  obtain ⟨-, -, pagesOut'⟩ := lawful.getPhysicalPage pagesOut gotPage
  obtain ⟨nonzero, below, rangesOut'⟩ := lawful.getVirtualPages rangesOut gotRange
  split at h₃
  · cases h₃
  next free =>
  cases h₃
  have none_ : Maps boot.memory [] :=
    ⟨fun _ _ mem => absurd mem List.not_mem_nil, fun _ _ mem => absurd mem List.not_mem_nil,
      List.nodup_nil⟩
  obtain ⟨maps, -⟩ := map_spec (e := ⟨page, true⟩) none_ free (Nat.dvd_of_mod_eq_zero virtual)
    (Nat.dvd_of_mod_eq_zero physical) (fun _ mem => absurd mem List.not_mem_nil)
  refine ⟨page, maps, nonzero, below, pagesOut', rangesOut', ?_, rfl⟩
  show ((boot.calls ++ _) ++ _) ++ _ = _
  rw [List.append_assoc, List.append_assoc]
  rfl

/-- After `init` the list has its first node, at the start of its page. -/
theorem init_view {boot s : State π ν} {pages : Set Nat} {ranges : Set (Nat × Nat)}
    (lawful : Lawful S PagesOut RangesOut Exhausted) (pagesOut : PagesOut boot.pma pages)
    (rangesOut : RangesOut boot.vma ranges) (h : init S boot = .ok s) : ∃ v page,
      HeapInv PagesOut RangesOut s ⟨[⟨v, 0, 0⟩], [(v, ⟨page, true⟩)], []⟩ [] [] [] ∧
        s.calls = boot.calls ++
          [.getPhysicalPage page, .getVirtualPages v PAGE_SIZE, .mapPage page v] ∧
        s.memory.tables = Function.update boot.memory.tables v (some ⟨page, true⟩) := by
  obtain ⟨⟨v, s₀⟩, h₀, h⟩ := bind_eq_ok h
  obtain ⟨page, maps, nonzero, below, pagesOut', rangesOut', calls, tables₀⟩ :=
    getNodePage_boot lawful pagesOut rangesOut h₀
  obtain ⟨_, h₁, h⟩ := bind_eq_ok h
  obtain ⟨m₁, set₁, rfl⟩ := withMemory_ok h₁
  obtain ⟨_, h₂, h⟩ := bind_eq_ok h
  obtain ⟨m₂, set₂, rfl⟩ := withMemory_ok h₂
  obtain ⟨m₃, set₃, rfl⟩ := withMemory_ok h
  have aligned := (maps.aligned v _ (List.mem_singleton.mpr rfl)).1
  have field : ∀ o, o ≤ 16 → Covered PAGE_SIZE [(v, ⟨page, true⟩)] (v + o) 8 := fun o ho =>
    Covered.of_page (List.mem_singleton.mpr rfl) aligned (by omega) (by unfold PAGE_SIZE; omega)
  have zero : 0 < 2 ^ 64 := by decide
  obtain ⟨tables, holds, -⟩ := writeHead_spec (n := ⟨v, 0, 0⟩) maps field zero zero set₁ set₂ set₃
  refine ⟨v, page, ⟨Layout.start nonzero below (maps.of_tables tables) holds,
    ⟨_, pagesOut', fun p mem => absurd mem List.not_mem_nil, fun q mem => ?_⟩,
    ⟨_, rangesOut', fun r mem => absurd mem List.not_mem_nil,
      fun b hb => absurd hb List.not_mem_nil⟩⟩, calls, tables.trans tables₀⟩
  rw [List.mem_singleton.mp mem]
  exact ⟨Set.mem_insert _ _, List.not_mem_nil⟩

theorem Started.inv {s : State π ν} (lawful : Lawful S PagesOut RangesOut Exhausted)
    (started : Started S PagesOut RangesOut s) : HeldInv PagesOut RangesOut ⟨s, []⟩ := by
  obtain ⟨boot, pages, ranges, pagesOut, rangesOut, h⟩ := started
  obtain ⟨v, page, inv, -⟩ := init_view lawful pagesOut rangesOut h
  exact ⟨_, inv, rfl⟩

/-- In every run of `alloc` and `free` after `init` in which only live blocks are
freed and each step is sound: no two live blocks ever share an address or a page, and
every step takes or gives back exactly what belongs to its block. -/
theorem exact_run {s : State π ν} {ops : List Op} (lawful : Lawful S PagesOut RangesOut Exhausted)
    (started : Started S PagesOut RangesOut s) (legal : (machine S).EachStep Legal ⟨s, []⟩ ops)
    (sound : (machine S).EachStep Sound ⟨s, []⟩ ops) :
    (machine S).Always Apart ⟨s, []⟩ ops ∧
      (machine S).EachStep (Exact S Exhausted) ⟨s, []⟩ ops := by
  have start := started.inv lawful
  have guard := Machine.eachStep_and legal sound
  constructor
  · exact Machine.always_of_inv (fun _ _ _ inv => inv.step lawful) (fun _ inv => inv.apart) start
      guard
  · exact Machine.eachStep_of_inv (fun _ _ _ inv => inv.step lawful)
      (fun _ _ inv ok => inv.exact lawful ok.2) start guard

end Runs

/-- Sizes and alignments that are not close to `2 ^ 64` leave room for the header. -/
theorem headerFits_of_small {n alignment : Nat} (hn : 0 < n) (ha : 0 < alignment)
    (small : n + alignment < 2 ^ 64 - 2 * PAGE_SIZE) : HeaderFits n alignment := by
  unfold HeaderFits sizeWithHeader paddedHeaderSize PAGE_SIZE at *
  have sum : sub64 (add64 16 alignment) 1 = 16 + alignment - 1 := by
    rw [add64_eq (by omega), sub64_eq (by omega) (by omega)]
  have lower := Nat.lt_div_mul_add (a := 16 + alignment - 1) ha
  have upper := Nat.div_mul_le_self (16 + alignment - 1) alignment
  have padded : alignTo 16 alignment = (16 + alignment - 1) / alignment * alignment := by
    rw [alignTo, sum]
  rw [padded]
  generalize (16 + alignment - 1) / alignment * alignment = header at *
  have size : alignTo (add64 n header) 4096 = (n + header + 4095) / 4096 * 4096 := by
    rw [alignTo, add64_eq (a := n) (by omega), add64_eq (by omega), sub64_eq (by omega) (by omega)]
    rfl
  rw [size]
  omega

/-! ## Two blocks on the allocators of the kernel -/

/-- The kernel before `alloc::init`: the physical allocator has 576 pages and has
handed out one, for the free list of the virtual allocator. -/
def sampleBoot : Except Stop (State Pma.State Vma.State) := do
  let (page, pma) ← Pma.getPhysicalPage (Pma.earlyInit 0x200000 0x240000 fun _ => 0#64)
  let vma ← Vma.init (fun _ => ⟨0, 0, none⟩) page
  return ⟨pma, vma, ⟨fun _ => none, fun _ => 0, false⟩, 0, []⟩

def sampleStart : Except Stop (State Pma.State Vma.State) := do
  init kernelSuppliers (← sampleBoot)

theorem sampleBoot_out {boot : State Pma.State Vma.State} (h : sampleBoot = .ok boot) :
    boot.calls = [] ∧ (boot.memory.tables = fun _ => none) ∧
      ∃ pages ranges, KernelPagesOut boot.pma pages ∧ KernelRangesOut boot.vma ranges := by
  obtain ⟨⟨page, pma⟩, got, h⟩ := bind_eq_ok h
  obtain ⟨vma, hvma, h⟩ := bind_eq_ok h
  cases h
  have early : KernelPagesOut (Pma.earlyInit 0x200000 0x240000 fun _ => 0#64) ∅ :=
    ⟨[], fun p => iff_of_false List.not_mem_nil id, Pma.earlyInit_inv (by decide),
      fun p mem => absurd mem List.not_mem_nil⟩
  obtain ⟨-, -, pagesOut⟩ := kernel_getPhysicalPage early got
  obtain ⟨k, inv⟩ := Vma.init_heldInv hvma
  have rangesOut : KernelRangesOut vma ∅ :=
    ⟨[], k, fun r => iff_of_false List.not_mem_nil id, inv, List.nodup_nil,
      fun r mem => absurd mem List.not_mem_nil⟩
  exact ⟨rfl, rfl, _, _, pagesOut, rangesOut⟩

theorem sampleStart_started {s : State Pma.State Vma.State} (h : sampleStart = .ok s) :
    Started kernelSuppliers KernelPagesOut KernelRangesOut s := by
  obtain ⟨boot, hboot, h⟩ := bind_eq_ok h
  obtain ⟨-, -, pages, ranges, pagesOut, rangesOut⟩ := sampleBoot_out hboot
  exact ⟨boot, pages, ranges, pagesOut, rangesOut, h⟩

instance {π ν : Type} (h : Held π ν) : (o : Op) → Decidable (Legal h o)
  | .alloc _ _ _ => isTrue trivial
  | .free q => inferInstanceAs (Decidable (q = 0 ∨ ∃ b ∈ h.live, b.pointer = q))

instance {π ν : Type} (h : Held π ν) : (o : Op) → Decidable (Sound h o)
  | .alloc n alignment _ => inferInstanceAs (Decidable (n.toNat = 0 ∨ alignment.toNat = 0 ∨
      HeaderFits n.toNat alignment.toNat ∧
        nodeFits h.heap (sizeWithHeader n.toNat alignment.toNat) = true))
  | .free q => inferInstanceAs (Decidable (∀ b ∈ h.live, b.pointer = q → ∀ b' ∈ h.live,
      h.heap.memory.loadWord (nextField b'.node) ≠ some b.node))

/-- The older block, whose pages do not allow writing, is freed first; its node is used
again. -/
def olderFirst : List Op :=
  [.alloc 100 16 .EXEC, .alloc 8000 16 .READ_WRITE, .free 0x201010, .free 0x202010,
    .alloc 4000 64 .READ_ONLY]

theorem exact_run_older_first : ∃ s h, sampleStart = .ok s ∧
    (machine kernelSuppliers).run ⟨s, []⟩ olderFirst = .ok h ∧
    (machine kernelSuppliers).Always Apart ⟨s, []⟩ olderFirst ∧
    (machine kernelSuppliers).EachStep (Exact kernelSuppliers NoFreeNodes) ⟨s, []⟩
      olderFirst := by
  have evaluated : completesWith sampleStart (fun s => decide
      ((machine kernelSuppliers).EachStep Legal ⟨s, []⟩ olderFirst ∧
        (machine kernelSuppliers).EachStep Sound ⟨s, []⟩ olderFirst) &&
      completesWith ((machine kernelSuppliers).run ⟨s, []⟩ olderFirst) fun _ => true) = true := by
    decide +kernel
  obtain ⟨s, start, tests⟩ := exists_of_completesWith evaluated
  obtain ⟨steps, completed⟩ := Bool.and_eq_true_iff.mp tests
  obtain ⟨legal, sound⟩ := of_decide_eq_true steps
  obtain ⟨h, ran, -⟩ := exists_of_completesWith completed
  exact ⟨s, h, start, ran, exact_run kernel_lawful (sampleStart_started start) legal sound⟩

/-- The younger block is freed first. This kills the node of the older one, and to
free that block, a range of size 0 is given back. -/
theorem freed_younger_first : ∃ s h, sampleStart = .ok s ∧
    Started kernelSuppliers KernelPagesOut KernelRangesOut s ∧
    (machine kernelSuppliers).EachStep Legal ⟨s, []⟩
      [.alloc 100 16 .READ_WRITE, .alloc 8000 16 .READ_WRITE, .free 0x202010, .free 0x201010] ∧
    (machine kernelSuppliers).run ⟨s, []⟩
      [.alloc 100 16 .READ_WRITE, .alloc 8000 16 .READ_WRITE, .free 0x202010] = .ok h ∧
    (∃ b ∈ h.live, b.pointer = 0x201010) ∧
    (machine kernelSuppliers).step h (.free 0x201010) =
      .error (.assertion "Tried to free page of size 0!") := by
  have evaluated : completesWith sampleStart (fun s => decide
      ((machine kernelSuppliers).EachStep Legal ⟨s, []⟩
        [.alloc 100 16 .READ_WRITE, .alloc 8000 16 .READ_WRITE, .free 0x202010, .free 0x201010]) &&
      completesWith ((machine kernelSuppliers).run ⟨s, []⟩
        [.alloc 100 16 .READ_WRITE, .alloc 8000 16 .READ_WRITE, .free 0x202010]) (fun h =>
          decide (∃ b ∈ h.live, b.pointer = 0x201010) &&
          match (machine kernelSuppliers).step h (.free 0x201010) with
          | .ok _ => false
          | .error e => e == .assertion "Tried to free page of size 0!")) = true := by
    decide +kernel
  obtain ⟨s, start, tests⟩ := exists_of_completesWith evaluated
  obtain ⟨legal, tests⟩ := Bool.and_eq_true_iff.mp tests
  obtain ⟨h, ran, tests⟩ := exists_of_completesWith tests
  obtain ⟨live, stopped⟩ := Bool.and_eq_true_iff.mp tests
  refine ⟨s, h, start, sampleStart_started start, of_decide_eq_true legal, ran,
    of_decide_eq_true live, ?_⟩
  split at stopped
  · cases stopped
  · next e failed =>
      rw [failed, beq_iff_eq.mp stopped]

end Tyleros.Alloc
