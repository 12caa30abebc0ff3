import Tyleros.Alloc.Records

/-!
# The alignment of blocks

What a caller of `alloc` relies on (`Usable`): the pointer is aligned, all bytes behind it
lie on the pages of the block, and `free` finds the header again. `alloc` pads the header
to the alignment but takes any base the virtual allocator has, so an alignment above a page
depends on the base; and it adds the header to the size without a check for overflow.
`alloc_usable_iff` says that nothing else goes wrong.
-/

namespace Tyleros.Alloc

open Lib Lib.PagedMemory Paging

variable {π ν : Type}

/-! ## Sizes -/

/-- The header is padded to the alignment, or fills two words. -/
theorem paddedHeaderSize_two_pow {k : Nat} (hk : k < 64) :
    paddedHeaderSize (2 ^ k) = max 16 (2 ^ k) := by
  rcases Nat.lt_or_ge k 5 with small | large
  · have cases_ : k = 0 ∨ k = 1 ∨ k = 2 ∨ k = 3 ∨ k = 4 := by omega
    rcases cases_ with rfl | rfl | rfl | rfl | rfl <;> decide
  · have lower : 2 ^ 5 ≤ 2 ^ k := Nat.pow_le_pow_right (by decide) large
    have upper : 2 ^ k ≤ 2 ^ 63 := Nat.pow_le_pow_right (by decide) (by omega)
    unfold paddedHeaderSize alignTo
    generalize 2 ^ k = a at *
    have sum : sub64 (add64 16 a) 1 = a + 15 := by
      rw [add64_eq (by omega), sub64_eq (by omega) (by omega)]
      omega
    have quotient : (a + 15) / a = 1 := Nat.div_eq_of_lt_le (by omega) (by omega)
    rw [sum, quotient]
    omega

theorem dvd_paddedHeaderSize {k : Nat} (hk : k < 64) : 2 ^ k ∣ paddedHeaderSize (2 ^ k) := by
  rw [paddedHeaderSize_two_pow hk]
  rcases Nat.le_total 16 (2 ^ k) with large | small
  · rw [Nat.max_eq_right large]
  · rw [Nat.max_eq_left small]
    have exponent : k ≤ 4 := (Nat.pow_le_pow_iff_right (by decide)).mp (show 2 ^ k ≤ 2 ^ 4 from small)
    exact Nat.pow_dvd_pow 2 exponent

/-- Rounding up to pages, as long as the sum stays below `2 ^ 64`. -/
theorem alignTo_page_eq {x : Nat} (small : x + PAGE_SIZE ≤ 2 ^ 64) :
    alignTo x PAGE_SIZE = (x + 4095) / 4096 * 4096 := by
  have sum : sub64 (add64 x 4096) 1 = x + 4095 := by
    unfold sub64 add64
    unfold PAGE_SIZE at small
    omega
  rw [alignTo, PAGE_SIZE, sum]

theorem alignTo_lt (x alignment : Nat) : alignTo x alignment < 2 ^ 64 :=
  Nat.lt_of_le_of_lt (Nat.div_mul_le_self _ _) (sub64_lt _ _)

theorem rounds_le (count : Nat) : rounds count ≤ count := by
  unfold rounds
  rw [BitVec.toInt_eq_toNat_cond, BitVec.toNat_ofNat]
  have residue := Nat.mod_le count (2 ^ 32)
  split <;> omega

theorem rounds_lt (count : Nat) : rounds count < 2 ^ 31 := by
  unfold rounds
  rw [BitVec.toInt_eq_toNat_cond, BitVec.toNat_ofNat]
  split <;> omega

/-! ## What `free` reads -/

/-- The address of the header, as `free` computes it from the pointer. -/
def State.headerAddress (s : State π ν) (p : Nat) : Except Stop Nat := do
  let alignment ← s.load (sub64 p 8)
  if alignment = 0 then .error (.fault "division by zero")
  else return sub64 p (paddedHeaderSize alignment)

theorem free_headerAddress (S : Suppliers π ν) {p : Nat} (notNull : p ≠ 0) (s : State π ν) :
    free S p s = (s.headerAddress p >>= fun header => s.load header >>= fun allocation => do
      kassert (allocation != 0) "bad free: can't find the allocation!"
      let size ← s.load (sizeField allocation)
      let s ← freeVirtualPages S s header size
      let s ← freePages S header allocation (2 ^ 32) 0 s
      removeAllocation allocation s) := by
  unfold free State.headerAddress
  rw [if_neg notNull, bind_assoc]
  congr 1
  funext alignment
  by_cases zero : alignment = 0
  · rw [if_pos zero, if_pos zero]
    rfl
  · rw [if_neg zero, if_neg zero]
    rfl

/-! ## Usable blocks -/

/-- The address lies on a page that was mapped for the block. -/
def Block.Backs (s : State π ν) (b : Block) (x : Nat) : Prop :=
  ∃ i p, b.pages[i]? = some p ∧ pageOf x = virtualPage b.base i ∧
    (s.memory.tables (pageOf x)).map PageEntry.frame = some p

/-- What a caller that asked for `n` bytes relies on. -/
structure Usable (s : State π ν) (b : Block) (n alignment : Nat) : Prop where
  aligned : alignment ∣ b.pointer
  bytes : ∀ x, b.pointer ≤ x → x < b.pointer + n → b.Backs s x
  header : ∀ x, b.base ≤ x → x < b.base + 8 → b.Backs s x
  word : ∀ x, sub64 b.pointer 8 ≤ x → x < sub64 b.pointer 8 + 8 → b.Backs s x
  apart : b.base + 8 ≤ sub64 b.pointer 8
  below : sub64 b.pointer 8 + 8 = b.pointer
  returns : s.headerAddress b.pointer = .ok b.base
  node : s.load b.base = .ok b.node

/-- The free range that `get_virtual_pages` takes from. -/
def firstFit (s : State Pma.State Vma.State) (size : Nat) : Option Nat :=
  s.vma.listed.find? fun i => size ≤ (s.vma.nodes i).size

/-- The number of pages fits in an `int`, and an alignment above a page is met by the first
free range that is large enough. -/
def Fits (s : State Pma.State Vma.State) (n alignment : Nat) : Prop :=
  n + paddedHeaderSize alignment + PAGE_SIZE ≤ 2 ^ 43 ∧
    (alignment ≤ PAGE_SIZE ∨ ∀ i ∈ firstFit s (sizeWithHeader n alignment),
      alignment ∣ (s.vma.nodes i).base)

instance (s : State Pma.State Vma.State) (n alignment : Nat) : Decidable (Fits s n alignment) :=
  inferInstanceAs (Decidable (_ ∧ (_ ∨ ∀ i ∈ firstFit s _, _)))

/-! ## The number of pages of a record -/

section Record

variable {s s' : State π ν} {g : View} {live : List Block}

/-- No page outside of the heap is mapped to a frame of the records. -/
structure Unshared (s : State π ν) (g : View) : Prop where
  below : ∀ v e, s.memory.tables v = some e → v < 2 ^ 64
  aligned : ∀ v e, s.memory.tables v = some e → PAGE_SIZE ∣ e.frame
  only : ∀ v e, s.memory.tables v = some e →
    ∀ v' e', (v', e') ∈ g.nodePages → e.frame = e'.frame → v = v'

/-- The link of a record in a page of the heap and a word behind it lie at different places. -/
theorem Layout.place_link {last : Node} {i y a : Nat} (layout : Layout s.memory s.first g live)
    (unshared : Unshared s g) (hlast : last ∈ g.nodes) (hi : i < 8) (behind : last.addr + 8 ≤ y)
    (at_ : s.memory.place (last.addr + i) = some a) : s.memory.place y ≠ some a := by
  intro at'
  obtain ⟨-, ⟨frame, page⟩, inside⟩ := layout.placed last hlast
  have start := pageOf_le last.addr
  have samePage : (last.addr + i) / PAGE_SIZE * PAGE_SIZE = pageOf last.addr := by
    unfold Node.stop nodeSize at inside
    unfold pageOf PAGE_SIZE at *
    omega
  have entry : s.memory.tables (pageOf last.addr) = some ⟨frame, true⟩ :=
    layout.maps.entry _ _ (List.mem_append_right _ (List.mem_append_left _ page))
  obtain ⟨e, found, rfl⟩ := Option.map_eq_some_iff.mp at_
  obtain ⟨e', found', same⟩ := Option.map_eq_some_iff.mp at'
  unfold PagedMemory.entry at found
  rw [samePage, entry] at found
  cases found
  obtain ⟨c, frameEq⟩ := unshared.aligned _ _ entry
  obtain ⟨c', frameEq'⟩ := unshared.aligned _ _ found'
  dsimp only at frameEq same
  have frames : e'.frame = frame := by
    have bound := Nat.mod_lt y (show 0 < PAGE_SIZE by decide)
    have bound' := Nat.mod_lt (last.addr + i) (show 0 < PAGE_SIZE by decide)
    rw [frameEq, frameEq'] at same ⊢
    unfold PAGE_SIZE at *
    omega
  have pages : y / PAGE_SIZE * PAGE_SIZE = pageOf last.addr :=
    unshared.only _ _ found' _ _ page frames
  unfold pageOf PAGE_SIZE at *
  omega

/-- The number of pages in a record that was written behind the last one. -/
theorem writeNode_count {last : Node} {node n needed : Nat}
    (layout : Layout s.memory s.first g live) (unshared : Unshared s g) (hlast : last ∈ g.nodes)
    (behind : last.addr + 8 ≤ node) (small : needed < 2 ^ 64)
    (h : writeNode node last.addr n needed s = .ok s') :
    s'.load (listSizeField node) = .ok needed ∧ pageOf node < 2 ^ 64 ∧ s'.pma = s.pma := by
  obtain ⟨m₁, m₂, m₃, m₄, m₅, set₁, set₂, set₃, set₄, set₅, rfl⟩ := writeNode_ok h
  have tables₃ : m₃.tables = s.memory.tables :=
    (storeBytes_tables set₃).trans ((storeBytes_tables set₂).trans (storeBytes_tables set₁))
  have tables₄ : m₄.tables = s.memory.tables := (storeBytes_tables set₄).trans tables₃
  have stored : m₄.loadBytes (listSizeField node) 8 = some (bytesOf 8 needed) := by
    have length := length_bytesOf 8 needed
    have self := storeBytes_self_of_aligned (fun v e at_ => unshared.aligned v e (tables₃ ▸ at_))
      (show (bytesOf 8 needed).length ≤ PAGE_SIZE by rw [length]; decide) set₄
    rwa [length] at self
  have kept : m₅.loadBytes (listSizeField node) 8 = m₄.loadBytes (listSizeField node) 8 := by
    refine loadBytes_congr fun i _ => storeBytes_of_place (fun j hj a at_ => ?_) set₅
    rw [length_bytesOf] at hj
    rw [place_of_tables tables₄] at at_ ⊢
    exact layout.place_link unshared hlast hj (by unfold listSizeField; omega) at_
  have mapped : pageOf node < 2 ^ 64 := by
    rw [nodeSize, Nat.add_comm 24, List.replicate_succ, storeBytes] at set₁
    split at set₁
    · cases set₁
    · next mid first =>
        obtain ⟨a, at_, -⟩ := storeByte_eq first
        obtain ⟨e, found, -⟩ := Option.map_eq_some_iff.mp at_
        exact unshared.below _ _ found
  refine ⟨State.load_eq ?_, mapped, rfl⟩
  show m₅.loadWord (listSizeField node) = some needed
  have digits : 256 ^ 8 = 2 ^ 64 := by decide
  rw [loadWord, kept, stored, Option.map_some, wordOf_bytesOf, digits, Nat.mod_eq_of_lt small]

variable {S : Suppliers π ν} {PagesOut : π → Set Nat → Prop}
  {RangesOut : ν → Set (Nat × Nat) → Prop} {Exhausted : Stop → Prop}
  {pending : List (Nat × Nat)}

theorem Layout.addr_lt {m : PagedMemory PAGE_SIZE} {first : Nat} {n : Node}
    (layout : Layout m first g live) (hn : n ∈ g.nodes) : n.addr < 2 ^ 64 := by
  have stop := layout.node_lt hn
  unfold Node.stop nodeSize at stop
  omega

/-- The record that `get_new_allocation` returns has the right number of pages. -/
theorem getNewAllocation_count {n node : Nat} (lawful : Lawful S PagesOut RangesOut Exhausted)
    (inv : HeapInv PagesOut RangesOut s g [] pending live) (extra : g.extra = [])
    (unshared : Unshared s g) (hn : n < 2 ^ 64) (positive : 0 < n)
    (h : getNewAllocation S n s = .ok (node, s')) :
    s'.load (listSizeField node) = .ok (divCeil n PAGE_SIZE) ∧ node < 2 ^ 64 ∧
      ∃ out, PagesOut s'.pma out := by
  have layout := inv.layout
  have small := divCeil_lt hn
  obtain ⟨listed, outcome⟩ := layout.search (divCeil n PAGE_SIZE)
  rcases outcome with ⟨k, hk, killed, count, found⟩ | ⟨front, last, nodes, -, found⟩
  · rw [getNewAllocation_killed listed found] at h
    obtain ⟨s₁, stored, h⟩ := bind_eq_ok h
    cases h
    obtain ⟨g', inv', ⟨-, mem, -⟩, -⟩ := inv.reuseNode extra hn positive hk killed count stored
    obtain ⟨out, pagesOut, -⟩ := inv'.pages
    have mem := List.mem_of_mem_tail mem
    have loaded := inv'.layout.load_count mem
    have addrLt := inv'.layout.addr_lt mem
    exact ⟨loaded, addrLt, out, pagesOut⟩
  · rw [getNewAllocation_last listed found] at h
    obtain ⟨⟨x, s₁⟩, placed, h⟩ := bind_eq_ok h
    obtain ⟨s₂, written, h⟩ := bind_eq_ok h
    cases h
    have hlast : last ∈ g.nodes := nodes ▸ List.mem_append_right _ (List.mem_singleton.mpr rfl)
    by_cases crosses : total g.nodes / PAGE_SIZE =
        add64 (total g.nodes) (nodeSize (divCeil n PAGE_SIZE)) / PAGE_SIZE
    · -- whether or not it ends in the page of the last one
      rw [placeNode_samePage layout nodes crosses] at placed
      obtain ⟨rfl, rfl⟩ := Prod.mk.inj (Except.ok.inj placed)
      obtain ⟨loaded, mapped, pma⟩ := writeNode_count layout unshared hlast
        (by unfold pageField; omega) (by unfold nodeSize at small; omega) written
      have stop := layout.node_lt hlast
      have below : pageField last.addr last.count < 2 ^ 64 := by
        unfold Node.stop nodeSize at stop
        unfold pageOf pageField PAGE_SIZE at *
        omega
      obtain ⟨out, pagesOut, -⟩ := inv.pages
      exact ⟨loaded, below, out, pma ▸ pagesOut⟩
    · obtain ⟨room, page, inv₁, place, -⟩ := placeNode_newPage lawful inv extra small crosses placed
      obtain ⟨inv', -⟩ := inv₁.linkNode nodes place (Nat.lt_of_le_of_lt room (by decide)) hn written
      obtain ⟨out, pagesOut, -⟩ := inv'.pages
      have mem : (⟨x, n, divCeil n PAGE_SIZE⟩ : Node) ∈ front ++ [last, ⟨x, n, divCeil n PAGE_SIZE⟩] :=
        List.mem_append_right _ (by simp)
      have loaded := inv'.layout.load_count mem
      exact ⟨loaded, inv'.layout.addr_lt mem, out, pagesOut⟩

/-! ## The pages and the header of a block -/

theorem mapPage_ok {page v : Nat} {attrs : Word} (h : mapPage s page v attrs = .ok s') :
    v % PAGE_SIZE = 0 ∧ page % PAGE_SIZE = 0 ∧ s.memory.tables v = none ∧ s'.pma = s.pma ∧
      s'.memory.tables = Function.update s.memory.tables v (some ⟨page, attrs &&& RW != 0#64⟩) := by
  obtain ⟨_, virtual, h⟩ := bind_eq_ok h
  obtain ⟨_, physical, h⟩ := bind_eq_ok h
  split at h
  · cases h
  · next free =>
      cases h
      exact ⟨beq_iff_eq.mp (kassert_eq_ok virtual), beq_iff_eq.mp (kassert_eq_ok physical), free,
        rfl, rfl⟩

/-- Pages `i`, `i + 1`, … from `base` on are mapped to these frames. -/
structure MapsPages (m : PagedMemory PAGE_SIZE) (base i : Nat) (attrs : Word) (pages : List Nat) :
    Prop where
  nodup : pages.Nodup
  aligned : ∀ p ∈ pages, PAGE_SIZE ∣ p
  start : pages ≠ [] → virtualPage base i % PAGE_SIZE = 0
  entry : ∀ j p, pages[j]? = some p →
    m.tables (virtualPage base (i + j)) = some ⟨p, attrs &&& RW != 0#64⟩

/-- What the loop of `alloc` does to the page tables, whatever it overwrites. -/
theorem mapPages_maps {base node count i : Nat} {attrs : Word} {pages : List Nat} {out : Set Nat}
    (lawful : Lawful S PagesOut RangesOut Exhausted) (pagesOut : PagesOut s.pma out)
    (h : mapPages S base node attrs count i s = .ok (pages, s')) :
    pages.length = count ∧ (∀ p ∈ pages, p ∉ out) ∧ MapsPages s'.memory base i attrs pages ∧
      ∀ v e, s.memory.tables v = some e → s'.memory.tables v = some e := by
  induction count generalizing i s pages out with
  | zero =>
      cases h
      exact ⟨rfl, fun p mem => absurd mem List.not_mem_nil, ⟨List.nodup_nil,
        fun p mem => absurd mem List.not_mem_nil, fun ne => absurd rfl ne,
        fun j p at_ => absurd at_ (by simp)⟩, fun v e => id⟩
  | succ count ih =>
      obtain ⟨⟨p, s₁⟩, h₁, h⟩ := bind_eq_ok h
      obtain ⟨⟨_, pma⟩, got, h₁⟩ := bind_eq_ok h₁
      cases h₁
      obtain ⟨s₂, h₂, h⟩ := bind_eq_ok h
      obtain ⟨s₃, h₃, h⟩ := bind_eq_ok h
      obtain ⟨⟨later, s₄⟩, h₄, h⟩ := bind_eq_ok h
      cases h
      obtain ⟨fresh, -, pagesOut'⟩ := lawful.getPhysicalPage pagesOut got
      obtain ⟨virtual, physical, free, pma₂, tables₂⟩ := mapPage_ok h₂
      obtain ⟨m, set, rfl⟩ := withMemory_ok h₃
      have tables₃ : m.tables = s₂.memory.tables := storeBytes_tables set
      have pagesOut₂ : PagesOut s₂.pma (insert p out) := by
        rw [pma₂]
        exact pagesOut'
      obtain ⟨length, others, maps, kept⟩ := ih (s := { s₂ with memory := m }) pagesOut₂ h₄
      have here : s'.memory.tables (virtualPage base i) = some ⟨p, attrs &&& RW != 0#64⟩ := by
        refine kept _ _ ?_
        show m.tables _ = _
        rw [tables₃, tables₂]
        exact Function.update_self _ _ _
      refine ⟨by rw [List.length_cons, length], fun q mem => ?_, ⟨?_, fun q mem => ?_,
        fun _ => virtual, fun j q at_ => ?_⟩, fun v e at_ => ?_⟩
      · rcases List.mem_cons.mp mem with rfl | mem
        · exact fresh
        · exact fun old => others q mem (Set.mem_insert_of_mem _ old)
      · exact List.nodup_cons.mpr ⟨fun mem => others p mem (Set.mem_insert _ _), maps.nodup⟩
      · rcases List.mem_cons.mp mem with rfl | mem
        · exact Nat.dvd_of_mod_eq_zero physical
        · exact maps.aligned q mem
      · cases j with
        | zero =>
            cases at_
            exact here
        | succ j =>
            have later := maps.entry j q at_
            rwa [Nat.add_assoc, Nat.add_comm 1] at later
      · refine kept v e ?_
        show m.tables v = some e
        rw [tables₃, tables₂, Function.update_of_ne ?_ _ _]
        · exact at_
        · intro same
          rw [same] at at_
          exact nomatch free.symm.trans at_

end Record

/-! ## Blocks that `alloc` returns -/

section Kernel

variable {s s' : State Pma.State Vma.State} {live : List Block} {b : Block} {n alignment : Nat}

/-- The invariant of the heap, and no other page is mapped to a frame of the records. -/
def Intact (s : State Pma.State Vma.State) (live : List Block) : Prop :=
  ∃ g, HeapInv KernelPagesOut KernelRangesOut s g [] [] live ∧ g.extra = [] ∧ Unshared s g

/-- What `alloc` has done when it returns a block. -/
structure Returned (s s' : State Pma.State Vma.State) (b : Block) (n : Nat) : Prop where
  pointer : b.pointer = add64 b.base (paddedHeaderSize b.alignment)
  size : b.size = sizeWithHeader n b.alignment
  node : b.node < 2 ^ 64
  nonzero : b.base ≠ 0
  below : b.base + b.size ≤ 2 ^ 64
  base : ∃ i, firstFit s b.size = some i ∧ (s.vma.nodes i).base = b.base
  count : b.pages.length = rounds (divCeil b.size PAGE_SIZE)
  maps : MapsPages s'.memory b.base 0 b.attrs b.pages
  stores : ∃ m m₁ : PagedMemory PAGE_SIZE, m.storeWord b.base b.node = some m₁ ∧
    m₁.storeWord (sub64 b.pointer 8) b.alignment = some s'.memory

theorem getVirtualPages_firstFit {size base : Nat}
    (h : getVirtualPages kernelSuppliers s size = .ok (base, s')) :
    0 < size ∧ ∃ i, firstFit s size = some i ∧ (s.vma.nodes i).base = base := by
  obtain ⟨⟨address, vma⟩, got, h⟩ := bind_eq_ok h
  cases h
  obtain ⟨_, nonzero, got⟩ := bind_eq_ok got
  obtain ⟨_, -, got⟩ := bind_eq_ok got
  refine ⟨Nat.pos_of_ne_zero (bne_iff_ne.mp (kassert_eq_ok nonzero)), ?_⟩
  split at got
  · cases got
  · next i found =>
      cases got
      exact ⟨i, found, rfl⟩

theorem alloc_returned {p : Protection} (intact : Intact s live)
    (h : alloc kernelSuppliers n alignment p s = .ok (some b, s')) :
    b.alignment = alignment ∧ Returned s s' b n := by
  obtain ⟨g, inv, extra, unshared⟩ := intact
  rcases alloc_ok h with ⟨-, none_, -⟩ | ⟨nonempty, nonzero, base, s₁, node, s₂, count, pages, s₄,
    s₅, h₁, h₂, h₃, h₄, h₅, h₆, some_⟩
  · cases none_
  obtain rfl := Option.some.inj some_
  have sizeLt := (sizeWithHeader_pages n alignment).1
  obtain ⟨positive, fit⟩ := getVirtualPages_firstFit h₁
  obtain ⟨inv₁, baseNonzero, below, memory₁, -⟩ := inv.getVirtualPages kernel_lawful h₁
  have unshared₁ : Unshared s₁ g := by
    obtain ⟨below, aligned, only⟩ := unshared
    exact ⟨memory₁ ▸ below, memory₁ ▸ aligned, memory₁ ▸ only⟩
  obtain ⟨loaded, nodeLt, out, pagesOut⟩ :=
    getNewAllocation_count kernel_lawful inv₁ extra unshared₁ sizeLt positive h₂
  rw [loaded] at h₃
  cases h₃
  obtain ⟨length, -, maps, -⟩ := mapPages_maps kernel_lawful pagesOut h₄
  obtain ⟨m₅, set₅, rfl⟩ := withMemory_ok h₅
  obtain ⟨m₆, set₆, rfl⟩ := withMemory_ok h₆
  have tables₆ : m₆.tables = s₄.memory.tables :=
    (storeBytes_tables set₆).trans (storeBytes_tables set₅)
  refine ⟨rfl, rfl, rfl, nodeLt, baseNonzero, below, fit, length, ?_, s₄.memory, m₅, set₅, set₆⟩
  refine ⟨maps.nodup, maps.aligned, maps.start, fun j q at_ => ?_⟩
  show m₆.tables _ = _
  rw [tables₆]
  exact maps.entry j q at_

theorem Returned.pages_size (returned : Returned s s' b n) :
    divCeil b.size PAGE_SIZE * PAGE_SIZE = b.size := by
  rw [returned.size]
  exact (sizeWithHeader_pages n b.alignment).2

theorem Returned.pages_le (returned : Returned s s' b n) :
    b.pages.length * PAGE_SIZE ≤ b.size := by
  have atMost := rounds_le (divCeil b.size PAGE_SIZE)
  rw [← returned.count] at atMost
  calc b.pages.length * PAGE_SIZE ≤ divCeil b.size PAGE_SIZE * PAGE_SIZE :=
        Nat.mul_le_mul_right _ atMost
    _ = b.size := returned.pages_size

theorem Returned.page_eq (returned : Returned s s' b n) {i : Nat} (hi : i < b.pages.length) :
    virtualPage b.base i = b.base + i * PAGE_SIZE := by
  have inside := returned.pages_le
  have below := returned.below
  refine virtualPage_eq ?_
  unfold PAGE_SIZE at *
  omega

theorem Returned.base_aligned (returned : Returned s s' b n) (some_ : b.pages ≠ []) :
    b.base % PAGE_SIZE = 0 := by
  have start := returned.maps.start some_
  have first := returned.page_eq (List.length_pos_iff.mpr some_)
  rwa [first, Nat.zero_mul, Nat.add_zero] at start

/-- The pages that were mapped are the addresses from the base on. -/
theorem Returned.backs_iff (returned : Returned s s' b n) (x : Nat) :
    b.Backs s' x ↔ b.base ≤ x ∧ x < b.base + b.pages.length * PAGE_SIZE := by
  constructor
  · rintro ⟨i, p, at_, page, -⟩
    obtain ⟨hi, -⟩ := List.getElem?_eq_some_iff.mp at_
    have aligned := returned.base_aligned (List.ne_nil_of_length_pos (Nat.zero_lt_of_lt hi))
    rw [returned.page_eq hi] at page
    unfold pageOf PAGE_SIZE at *
    omega
  · rintro ⟨start, stop⟩
    have hi : (x - b.base) / PAGE_SIZE < b.pages.length := by
      unfold PAGE_SIZE at *
      omega
    have aligned := returned.base_aligned (List.ne_nil_of_length_pos (Nat.zero_lt_of_lt hi))
    have at_ := List.getElem?_eq_getElem hi
    have page : pageOf x = virtualPage b.base ((x - b.base) / PAGE_SIZE) := by
      rw [returned.page_eq hi]
      unfold pageOf PAGE_SIZE at *
      omega
    have entry := returned.maps.entry _ _ at_
    rw [Nat.zero_add, ← page] at entry
    exact ⟨_, _, at_, page, by rw [entry]; rfl⟩

/-- The pages of the block in the memory in which its header is written. -/
theorem Returned.memory (returned : Returned s s' b n) (some_ : b.pages ≠ []) :
    Maps s'.memory b.mapped := by
  have aligned := returned.base_aligned some_
  have mem_mapped : ∀ v e, (v, e) ∈ b.mapped → ∃ i p, b.pages[i]? = some p ∧
      v = b.base + i * PAGE_SIZE ∧ e = ⟨p, b.attrs &&& RW != 0#64⟩ := by
    intro v e mem
    obtain ⟨⟨p, i⟩, at_, eq⟩ := List.mem_map.mp mem
    cases eq
    exact ⟨i, p, List.mem_zipIdx_iff_getElem?.mp at_, rfl, rfl⟩
  refine ⟨fun v e mem => ?_, fun v e mem => ?_, ?_⟩
  · obtain ⟨i, p, at_, rfl, rfl⟩ := mem_mapped v e mem
    obtain ⟨hi, -⟩ := List.getElem?_eq_some_iff.mp at_
    have entry := returned.maps.entry i p at_
    rwa [Nat.zero_add, returned.page_eq hi] at entry
  · obtain ⟨i, p, at_, rfl, rfl⟩ := mem_mapped v e mem
    refine ⟨?_, returned.maps.aligned p (List.mem_of_getElem? at_)⟩
    exact Nat.dvd_add (Nat.dvd_of_mod_eq_zero aligned) (Nat.dvd_mul_left _ _)
  · rw [Block.mapped, frames_mappedFrom]
    exact returned.maps.nodup

/-- The sizes of a block whose pages are all mapped. -/
theorem Returned.whole (returned : Returned s s' b n)
    (fits : n + paddedHeaderSize b.alignment + PAGE_SIZE ≤ 2 ^ 43) :
    b.pages.length * PAGE_SIZE = b.size ∧ n + paddedHeaderSize b.alignment ≤ b.size := by
  have pages := returned.pages_size
  have size := returned.size
  have count := returned.count
  have sum : add64 n (paddedHeaderSize b.alignment) = n + paddedHeaderSize b.alignment :=
    add64_eq (by unfold PAGE_SIZE at fits; omega)
  rw [sizeWithHeader, sum, alignTo_page_eq (by omega)] at size
  have small : divCeil b.size PAGE_SIZE < 2 ^ 31 := by
    unfold PAGE_SIZE at *
    omega
  rw [rounds_eq small] at count
  rw [count]
  unfold PAGE_SIZE at *
  omega

/-- A block whose bytes are on its pages has not wrapped. -/
theorem Returned.fits_of_bytes (returned : Returned s s' b n) (positive : 0 < n)
    (bytes : ∀ x, b.pointer ≤ x → x < b.pointer + n → b.Backs s' x) :
    n + paddedHeaderSize b.alignment + PAGE_SIZE ≤ 2 ^ 43 := by
  have first := (returned.backs_iff _).mp (bytes b.pointer (Nat.le_refl _) (by omega))
  have last := (returned.backs_iff _).mp (bytes (b.pointer + n - 1) (by omega) (by omega))
  have pointer := returned.pointer
  have headerLt := alignTo_lt 16 b.alignment
  rw [← paddedHeaderSize] at headerLt
  have below := returned.below
  have inside := returned.pages_le
  have count := rounds_lt (divCeil b.size PAGE_SIZE)
  rw [← returned.count] at count
  generalize paddedHeaderSize b.alignment = header at *
  -- the pointer is not in front of the base, so it has not wrapped
  have noWrap : b.pointer = b.base + header := by
    unfold add64 at pointer
    omega
  unfold PAGE_SIZE at *
  omega

/-- The two words of the header do not overlap and are read back. -/
theorem Returned.usable (returned : Returned s s' b n) (positive : 0 < n) {k : Nat} (hk : k < 64)
    (pow : b.alignment = 2 ^ k) (fits : n + paddedHeaderSize b.alignment + PAGE_SIZE ≤ 2 ^ 43)
    (aligned : b.alignment ∣ b.base) : Usable s' b n b.alignment := by
  have header : paddedHeaderSize b.alignment = max 16 b.alignment := by
    rw [pow]
    exact paddedHeaderSize_two_pow hk
  obtain ⟨whole, enough⟩ := returned.whole fits
  have below := returned.below
  have padded : 16 ≤ paddedHeaderSize b.alignment := by
    rw [header]
    exact Nat.le_max_left _ _
  have pointer : b.pointer = b.base + paddedHeaderSize b.alignment := by
    rw [returned.pointer]
    exact add64_eq (by omega)
  have word : sub64 b.pointer 8 = b.pointer - 8 := sub64_eq (by omega) (by omega)
  have alignmentLt : b.alignment < 2 ^ 64 := by
    rw [pow]
    exact Nat.pow_lt_pow_right (by decide) hk
  have some_ : b.pages ≠ [] := by
    intro none_
    rw [none_, List.length_nil, Nat.zero_mul] at whole
    omega
  have backs : ∀ x, b.base ≤ x → x < b.base + b.size → b.Backs s' x := fun x start stop =>
    (returned.backs_iff x).mpr ⟨start, whole.symm ▸ stop⟩
  -- the stores, on the pages of the block
  have maps := returned.memory some_
  obtain ⟨m, m₁, set₁, set₂⟩ := returned.stores
  have covered : ∀ x, b.base ≤ x → x + 8 ≤ b.base + b.size →
      Covered PAGE_SIZE b.mapped x 8 := fun x start stop =>
    covered_mappedFrom (returned.base_aligned some_) start (whole.symm ▸ stop)
  have atBase := covered b.base (Nat.le_refl _) (by omega)
  have atWord := covered (sub64 b.pointer 8) (by omega) (by omega)
  have maps₁ : Maps m₁ b.mapped := maps.of_tables (storeBytes_tables set₂).symm
  have maps₀ : Maps m b.mapped := maps₁.of_tables (storeBytes_tables set₁).symm
  obtain ⟨-, node, -⟩ := storeWord_spec maps₀ atBase returned.node set₁
  obtain ⟨-, alignment, others⟩ := storeWord_spec maps₁ atWord alignmentLt set₂
  have headerKept := others b.base atBase (by omega)
  have nonzero : b.alignment ≠ 0 := by
    rw [pow]
    exact Nat.ne_of_gt (Nat.two_pow_pos k)
  have returns : s'.headerAddress b.pointer = .ok b.base := by
    unfold State.headerAddress
    rw [State.load_eq alignment, ok_bind, if_neg nonzero, pointer, sub64_eq (by omega) (by omega),
      Nat.add_sub_cancel]
    rfl
  have divides : b.alignment ∣ b.pointer := by
    rw [pointer]
    refine Nat.dvd_add aligned ?_
    rw [pow]
    exact dvd_paddedHeaderSize hk
  exact {
    aligned := divides
    bytes := fun x start stop => backs x (by omega) (by omega)
    header := fun x start stop => backs x start (by omega)
    word := fun x start stop => backs x (by omega) (by omega)
    apart := by omega
    below := by omega
    returns
    node := State.load_eq (headerKept.trans node) }

/-- A block that `alloc` returns for a power of two is usable just if its size fits and the
base that was found meets an alignment above a page. -/
theorem alloc_usable_iff {p : Protection} {n alignment : UInt64} (intact : Intact s live)
    (positive : 1 ≤ n.toNat) {k : Nat} (pow : alignment.toNat = 2 ^ k)
    (h : alloc kernelSuppliers n.toNat alignment.toNat p s = .ok (some b, s')) :
    Usable s' b n.toNat alignment.toNat ↔ Fits s n.toNat alignment.toNat := by
  obtain ⟨same, returned⟩ := alloc_returned intact h
  have hk : k < 64 := by
    have small := alignment.toNat_lt
    rw [pow] at small
    exact (Nat.pow_lt_pow_iff_right (by decide)).mp small
  obtain ⟨i, fit, base⟩ := returned.base
  rw [returned.size, same] at fit
  unfold Fits
  rw [fit]
  rw [← same] at pow ⊢
  have only : (∀ j ∈ some i, b.alignment ∣ (s.vma.nodes j).base) ↔ b.alignment ∣ b.base := by
    rw [← base]
    exact ⟨fun all => all i rfl, fun here j mem => Option.mem_some_iff.mp mem ▸ here⟩
  rw [only]
  constructor
  · intro usable
    have fits := returned.fits_of_bytes positive usable.bytes
    refine ⟨fits, Or.inr ?_⟩
    have aligned := usable.aligned
    rw [returned.pointer, add64, pow] at aligned
    rw [pow]
    have whole : 2 ^ k ∣ b.base + paddedHeaderSize (2 ^ k) :=
      (Nat.dvd_mod_iff (Nat.pow_dvd_pow 2 (Nat.le_of_lt hk))).mp aligned
    exact (Nat.dvd_add_left (dvd_paddedHeaderSize hk)).mp whole
  · rintro ⟨fits, aligned⟩
    refine returned.usable positive hk pow fits ?_
    rcases aligned with small | aligned
    · obtain ⟨whole, enough⟩ := returned.whole fits
      have some_ : b.pages ≠ [] := by
        intro none_
        rw [none_, List.length_nil, Nat.zero_mul] at whole
        omega
      have page : PAGE_SIZE ∣ b.base := Nat.dvd_of_mod_eq_zero (returned.base_aligned some_)
      rw [pow] at small ⊢
      exact Nat.dvd_trans (Nat.pow_dvd_pow 2 ((Nat.pow_le_pow_iff_right (by decide)).mp
        (show 2 ^ k ≤ 2 ^ 12 from small))) page
    · exact aligned

end Kernel

theorem sampleStart_intact {s : State Pma.State Vma.State} (h : sampleStart = .ok s) :
    Intact s [] := by
  obtain ⟨boot, hboot, h⟩ := bind_eq_ok h
  obtain ⟨-, unmapped, pages, ranges, pagesOut, rangesOut⟩ := sampleBoot_out hboot
  obtain ⟨v, page, inv, -, tables⟩ := init_view kernel_lawful pagesOut rangesOut h
  have mem : (v, (⟨page, true⟩ : PageEntry)) ∈
      View.owned ⟨[⟨v, 0, 0⟩], [(v, ⟨page, true⟩)], []⟩ [] := List.mem_singleton.mpr rfl
  have entries : ∀ w e, s.memory.tables w = some e → w = v ∧ e = ⟨page, true⟩ := by
    intro w e at_
    rw [tables, unmapped, Function.update_apply] at at_
    split at at_
    · next same => exact ⟨same, (Option.some.inj at_).symm⟩
    · cases at_
  refine ⟨_, inv, rfl, fun w e at_ => ?_, fun w e at_ => ?_, fun w e at_ v' e' mem' _ => ?_⟩
  · have below := inv.layout.below v _ (List.mem_singleton.mpr rfl)
    obtain ⟨rfl, -⟩ := entries w e at_
    unfold PAGE_SIZE at below
    omega
  · obtain ⟨-, rfl⟩ := entries w e at_
    exact (inv.layout.maps.aligned _ _ mem).2
  · obtain ⟨rfl, -⟩ := entries w e at_
    exact (congrArg Prod.fst (List.mem_singleton.mp mem')).symm

/-- A small block with the alignment of a cache line, whatever its protection. -/
theorem alloc_usable_small : ∃ s, sampleStart = .ok s ∧ ∀ p, ∃ s' b,
    alloc kernelSuppliers 100 64 p s = .ok (some b, s') ∧ Usable s' b 100 64 := by
  have evaluated : completesWith sampleStart (fun s =>
      decide (Fits s 100 64) && [Protection.READ_ONLY, .READ_WRITE, .EXEC].all fun p =>
        completesWith (alloc kernelSuppliers 100 64 p s) fun r => r.1.isSome) = true := by
    decide +kernel
  obtain ⟨s, start, tests⟩ := exists_of_completesWith evaluated
  obtain ⟨fits, tests⟩ := Bool.and_eq_true_iff.mp tests
  refine ⟨s, start, fun p => ?_⟩
  have listed : p ∈ [Protection.READ_ONLY, .READ_WRITE, .EXEC] := by
    cases p <;> decide
  obtain ⟨⟨block, s'⟩, allocated, some_⟩ :=
    exists_of_completesWith (List.all_eq_true.mp tests p listed)
  obtain ⟨b, rfl⟩ := Option.isSome_iff_exists.mp some_
  have usable := alloc_usable_iff (n := 100) (sampleStart_intact start) (by decide)
    (show (64 : UInt64).toNat = 2 ^ 6 from rfl) allocated
  exact ⟨s', b, allocated, usable.mpr (of_decide_eq_true fits)⟩

/-- The base is a multiple of a page only, and so is the pointer. -/
theorem alloc_misaligned : ∃ s s' b, sampleStart = .ok s ∧ Intact s [] ∧
    alloc kernelSuppliers 1 0x2000 .READ_WRITE s = .ok (some b, s') ∧ ¬ Usable s' b 1 0x2000 := by
  have evaluated : completesWith sampleStart (fun s =>
      completesWith (alloc kernelSuppliers 1 0x2000 .READ_WRITE s) (fun r =>
        r.1.any fun b => decide (¬ 0x2000 ∣ b.pointer))) = true := by
    decide +kernel
  obtain ⟨s, start, tests⟩ := exists_of_completesWith evaluated
  obtain ⟨⟨block, s'⟩, allocated, tests⟩ := exists_of_completesWith tests
  cases block with
  | none => cases tests
  | some b =>
      refine ⟨s, s', b, start, sampleStart_intact start, allocated, fun usable => ?_⟩
      exact of_decide_eq_true tests usable.aligned

end Tyleros.Alloc
