import Tyleros.Alloc.Nodes
import Mathlib.Data.List.Pairwise

/-!
# The heap in memory

`Layout` is the invariant of the heap's memory: the list of nodes in its pages, the
live blocks with their headers and the page lists in their nodes, and the frames,
which are all different. `extra` are pages that are mapped for a block that is not
yet, or no longer, live.

`Watched` are the words the invariant speaks about. A change of memory that leaves
them alone keeps the invariant (`Layout.keep`), and the lemmas on `Quiet` say which
ranges hold none of them.
-/

namespace Tyleros.Alloc

open Lib Lib.PagedMemory Paging

abbrev Pages := List (Nat × PageEntry)

/-- The page of an address. -/
def pageOf (a : Nat) : Nat := a / PAGE_SIZE * PAGE_SIZE

/-- Pages `i`, `i + 1`, … from `base` on, mapped to these frames. -/
def mappedFrom (base : Nat) (attrs : Word) (i : Nat) (frames : List Nat) : Pages :=
  (frames.zipIdx i).map fun p => (base + p.2 * PAGE_SIZE, ⟨p.1, attrs &&& RW != 0#64⟩)

def Block.mapped (b : Block) : Pages := mappedFrom b.base b.attrs 0 b.pages

theorem mappedFrom_cons (base : Nat) (attrs : Word) (i frame : Nat) (frames : List Nat) :
    mappedFrom base attrs i (frame :: frames) =
      (base + i * PAGE_SIZE, ⟨frame, attrs &&& RW != 0#64⟩) :: mappedFrom base attrs (i + 1) frames :=
  rfl

theorem mem_mappedFrom {base i j frame : Nat} {attrs : Word} {frames : List Nat}
    (at_ : frames[j]? = some frame) :
    (base + (i + j) * PAGE_SIZE, ⟨frame, attrs &&& RW != 0#64⟩) ∈ mappedFrom base attrs i frames := by
  induction frames generalizing i j with
  | nil => cases at_
  | cons first rest ih =>
      rw [mappedFrom_cons]
      cases j with
      | zero =>
          cases at_
          exact List.mem_cons_self
      | succ j =>
          have later := ih (i := i + 1) at_
          rw [Nat.add_assoc, Nat.add_comm 1] at later
          exact List.mem_cons_of_mem _ later

/-- What a range of a block lies on. -/
theorem covered_mappedFrom {base x k : Nat} {attrs : Word} {frames : List Nat}
    (aligned : base % PAGE_SIZE = 0) (first : base ≤ x)
    (last : x + k ≤ base + frames.length * PAGE_SIZE) :
    Covered PAGE_SIZE (mappedFrom base attrs 0 frames) x k := by
  unfold PAGE_SIZE at *
  intro i hi
  have index : (x + i - base) / 4096 < frames.length := by omega
  have page : (x + i) / 4096 * 4096 = base + (0 + (x + i - base) / 4096) * 4096 := by omega
  rw [page]
  exact ⟨_, mem_mappedFrom (List.getElem?_eq_getElem index)⟩

/-! ## The invariant -/

/-- The nodes of the list, the pages they lie on, and further pages. -/
structure View where
  nodes : List Node
  nodePages : Pages
  extra : Pages

/-- All pages that were mapped. -/
def View.owned (g : View) (live : List Block) : Pages :=
  g.extra ++ (g.nodePages ++ live.flatMap Block.mapped)

/-- A node lies inside a page for nodes. -/
structure Placed (nodePages : Pages) (n : Node) : Prop where
  nonzero : n.addr ≠ 0
  page : ∃ frame, (pageOf n.addr, ⟨frame, true⟩) ∈ nodePages
  inside : n.stop ≤ pageOf n.addr + PAGE_SIZE

/-- An earlier node of the list is in front of a later one or on another page. -/
def Before (n n' : Node) : Prop := n.stop ≤ n'.addr ∨ pageOf n.addr ≠ pageOf n'.addr

/-- The numbers of a block fit together. -/
structure Block.Shape (b : Block) : Prop where
  pointer : b.pointer = b.base + paddedHeaderSize b.alignment
  alignment : b.alignment ≠ 0
  header : 16 ≤ paddedHeaderSize b.alignment
  inside : paddedHeaderSize b.alignment < b.size
  size : b.size = b.pages.length * PAGE_SIZE
  nonzero : b.base ≠ 0
  below : b.base + b.size ≤ 2 ^ 64

/-- The header of a block and the page list in its node. -/
structure Block.Words (m : PagedMemory PAGE_SIZE) (b : Block) : Prop where
  header : m.loadWord b.base = some b.node
  alignment : m.loadWord (b.pointer - 8) = some b.alignment
  pages : ∀ i p, b.pages[i]? = some p → m.loadWord (pageField b.node i) = some p

/-- The node of a block, which is not the first one. -/
def Block.Recorded (nodes : List Node) (b : Block) : Prop :=
  ∃ n ∈ nodes.tail, n.addr = b.node ∧ n.size = b.size ∧ n.count = b.pages.length

structure Layout (m : PagedMemory PAGE_SIZE) (first : Nat) (g : View) (live : List Block) :
    Prop where
  maps : Maps m (g.owned live)
  chain : Chain m g.nodes
  head : first = nextOf g.nodes
  nonempty : g.nodes ≠ []
  dummy : ∀ n, g.nodes.head? = some n → n.count = 0
  small : total g.nodes < 2 * PAGE_SIZE
  placed : ∀ n ∈ g.nodes, Placed g.nodePages n
  below : ∀ v e, (v, e) ∈ g.nodePages → v + PAGE_SIZE ≤ 2 ^ 64
  ordered : g.nodes.Pairwise Before
  shapes : ∀ b ∈ live, b.Shape
  words : ∀ b ∈ live, b.Words m
  recorded : ∀ b ∈ live, b.Recorded g.nodes
  owners : live.Pairwise fun b b' => b.node ≠ b'.node

/-- The words of the list of nodes. -/
def HeadWord (nodes : List Node) (w : Nat) : Prop :=
  ∃ n ∈ nodes, w = nextField n.addr ∨ w = sizeField n.addr ∨ w = listSizeField n.addr

/-- The words of the live blocks. -/
def BlockWord (live : List Block) (w : Nat) : Prop :=
  ∃ b ∈ live, w = b.base ∨ w = b.pointer - 8 ∨ ∃ i, i < b.pages.length ∧ w = pageField b.node i

/-- The words the invariant speaks about. -/
def Watched (g : View) (live : List Block) (w : Nat) : Prop :=
  HeadWord g.nodes w ∨ BlockWord live w

/-- Nothing that is watched lies in the `k` bytes from `x` on. -/
def Quiet (g : View) (live : List Block) (x k : Nat) : Prop :=
  ∀ w, Watched g live w → w + 8 ≤ x ∨ x + k ≤ w

section Facts

variable {m m' : PagedMemory PAGE_SIZE} {first : Nat} {g : View} {live : List Block} {n n' : Node}

/-- One node is in front of the other, in the same page or in pages that differ. -/
theorem Layout.pairwise_apart (layout : Layout m first g live) :
    g.nodes.Pairwise fun a b => a.stop ≤ b.addr ∨ b.stop ≤ a.addr := by
  refine layout.ordered.imp_of_mem fun {a b} ha hb before => ?_
  rcases before with front | pages
  · exact Or.inl front
  · have insideA := (layout.placed a ha).inside
    have insideB := (layout.placed b hb).inside
    unfold pageOf PAGE_SIZE at *
    omega

theorem Layout.nodes_apart (layout : Layout m first g live) (hn : n ∈ g.nodes)
    (hn' : n' ∈ g.nodes) (ne : n ≠ n') : n.stop ≤ n'.addr ∨ n'.stop ≤ n.addr := by
  have pairwise := layout.pairwise_apart
  have : Std.Symm fun a b : Node => a.stop ≤ b.addr ∨ b.stop ≤ a.addr := ⟨fun _ _ => Or.symm⟩
  exact pairwise.forall hn hn' ne

/-- Heads of different nodes do not share an address. -/
theorem Layout.head_ext (layout : Layout m first g live) (hn : n ∈ g.nodes) (hn' : n' ∈ g.nodes)
    {o p : Nat} (ho : o < 24) (hp : p < 24) (eq : n.addr + o = n'.addr + p) : n = n' := by
  by_contra ne
  have apart := layout.nodes_apart hn hn' ne
  unfold Node.stop nodeSize at apart
  omega

theorem Layout.node_covered (layout : Layout m first g live) (hn : n ∈ g.nodes) :
    Covered PAGE_SIZE g.nodePages n.addr (nodeSize n.count) := by
  obtain ⟨-, ⟨frame, mem⟩, inside⟩ := layout.placed n hn
  have start : pageOf n.addr ≤ n.addr := Nat.div_mul_le_self _ _
  exact Covered.of_page mem (Nat.dvd_mul_left _ _) start inside

theorem Layout.node_lt (layout : Layout m first g live) (hn : n ∈ g.nodes) :
    n.stop ≤ 2 ^ 64 := by
  obtain ⟨-, ⟨frame, mem⟩, inside⟩ := layout.placed n hn
  exact Nat.le_trans inside (layout.below _ _ mem)

theorem Layout.mapped_mem {b : Block} (hb : b ∈ live) {p : Nat × PageEntry}
    (mem : p ∈ b.mapped) : p ∈ g.owned live := by
  refine List.mem_append_right _ (List.mem_append_right _ ?_)
  exact List.mem_flatMap.mpr ⟨b, hb, mem⟩

theorem Block.Shape.some_page {b : Block} (shape : b.Shape) : ∃ p, b.pages[0]? = some p := by
  have inside := shape.inside
  have size := shape.size
  cases hp : b.pages with
  | nil =>
      rw [hp, List.length_nil, Nat.zero_mul] at size
      omega
  | cons p rest => exact ⟨p, rfl⟩

theorem Layout.block_aligned {b : Block} (layout : Layout m first g live) (hb : b ∈ live) :
    b.base % PAGE_SIZE = 0 := by
  obtain ⟨p, at_⟩ := (layout.shapes b hb).some_page
  have mem : (b.base + (0 + 0) * PAGE_SIZE, _) ∈ b.mapped := mem_mappedFrom at_
  have aligned := (layout.maps.aligned _ _ (Layout.mapped_mem (g := g) hb mem)).1
  rw [Nat.add_zero, Nat.zero_mul, Nat.add_zero] at aligned
  exact Nat.mod_eq_zero_of_dvd aligned

/-- The words in the pages of a block. -/
theorem Layout.block_covered {b : Block} (layout : Layout m first g live) (hb : b ∈ live)
    {x k : Nat} (start : b.base ≤ x) (stop : x + k ≤ b.base + b.size) :
    Covered PAGE_SIZE (live.flatMap Block.mapped) x k := by
  rw [(layout.shapes b hb).size] at stop
  have covered : Covered PAGE_SIZE b.mapped x k :=
    covered_mappedFrom (layout.block_aligned hb) start stop
  exact covered.mono fun p mem => List.mem_flatMap.mpr ⟨b, hb, mem⟩

/-- Where the words of blocks are: in the page list of a node, or in a block. -/
theorem Layout.blockWord_cases (layout : Layout m first g live) {w : Nat}
    (word : BlockWord live w) :
    (∃ n ∈ g.nodes, (∃ b ∈ live, b.node = n.addr) ∧ ∃ i, i < n.count ∧ w = pageField n.addr i) ∨
      Covered PAGE_SIZE (live.flatMap Block.mapped) w 8 := by
  obtain ⟨b, hb, rfl | rfl | ⟨i, hi, rfl⟩⟩ := word
  · have header := (layout.shapes b hb).header
    have inside := (layout.shapes b hb).inside
    exact Or.inr (layout.block_covered hb (Nat.le_refl _) (by omega))
  · have header := (layout.shapes b hb).header
    have inside := (layout.shapes b hb).inside
    have pointer := (layout.shapes b hb).pointer
    exact Or.inr (layout.block_covered hb (by omega) (by omega))
  · obtain ⟨n, mem, addr, -, count⟩ := layout.recorded b hb
    refine Or.inl ⟨n, List.mem_of_mem_tail mem, ⟨b, hb, addr.symm⟩, i, ?_, ?_⟩
    · rw [count]
      exact hi
    · rw [addr]

/-- Every word that is watched lies in a node or in a block. -/
theorem Layout.watched_cases (layout : Layout m first g live) {w : Nat}
    (watched : Watched g live w) :
    (∃ n ∈ g.nodes, n.addr ≤ w ∧ w + 8 ≤ n.stop) ∨
      Covered PAGE_SIZE (live.flatMap Block.mapped) w 8 := by
  rcases watched with ⟨n, hn, word⟩ | word
  · refine Or.inl ⟨n, hn, ?_⟩
    unfold Node.stop nodeSize
    rcases word with rfl | rfl | rfl
    · exact ⟨Nat.le_refl _, by unfold nextField; omega⟩
    · exact ⟨by unfold sizeField; omega, by unfold sizeField; omega⟩
    · exact ⟨by unfold listSizeField; omega, by unfold listSizeField; omega⟩
  · refine (layout.blockWord_cases word).imp_left ?_
    rintro ⟨n, hn, -, i, hi, rfl⟩
    refine ⟨n, hn, ?_⟩
    unfold Node.stop nodeSize pageField
    omega

theorem Layout.watched_covered (layout : Layout m first g live) {w : Nat}
    (watched : Watched g live w) :
    Covered PAGE_SIZE (g.nodePages ++ live.flatMap Block.mapped) w 8 := by
  rcases layout.watched_cases watched with ⟨n, hn, start, stop⟩ | covered
  · exact ((layout.node_covered hn).part start stop).mono fun p => List.mem_append_left _
  · exact covered.mono fun p => List.mem_append_right _

/-- The pages of nodes and of blocks are different. -/
theorem Layout.nodePages_different (layout : Layout m first g live) {v : Nat} {e e' : PageEntry}
    (mem : (v, e) ∈ g.nodePages) : (v, e') ∉ live.flatMap Block.mapped := by
  have maps : Maps m ((g.extra ++ g.nodePages) ++ live.flatMap Block.mapped) := by
    rw [List.append_assoc]
    exact layout.maps
  exact maps.different (List.mem_append_right _ mem)

/-! ## Ranges without watched words -/

theorem Layout.quiet_extra (layout : Layout m first g live) {x k : Nat}
    (covered : Covered PAGE_SIZE g.extra x k) (hk : 0 < k) : Quiet g live x k := by
  intro w watched
  exact ((layout.watched_covered watched).apart covered
    (fun v e e' mem mem' => layout.maps.different mem' mem) (by decide) hk)

/-- What lies on the pages for nodes but inside no node. -/
theorem Layout.quiet_of_nodes (layout : Layout m first g live) {x k : Nat}
    (covered : Covered PAGE_SIZE g.nodePages x k) (hk : 0 < k)
    (apart : ∀ n ∈ g.nodes, n.stop ≤ x ∨ x + k ≤ n.addr) : Quiet g live x k := by
  intro w watched
  rcases layout.watched_cases watched with ⟨n, hn, start, stop⟩ | inBlock
  · have := apart n hn
    omega
  · exact (inBlock.apart covered
      (fun v e e' mem mem' => layout.nodePages_different mem' mem) (by decide) hk)

/-- The page list of a node that no block has. -/
theorem Layout.quiet_pageField (layout : Layout m first g live) (hn : n ∈ g.nodes)
    (free : ∀ b ∈ live, b.node ≠ n.addr) {i : Nat} (hi : i < n.count) :
    Quiet g live (pageField n.addr i) 8 := by
  have covered : Covered PAGE_SIZE g.nodePages (pageField n.addr i) 8 :=
    (layout.node_covered hn).part (by unfold pageField; omega)
      (by unfold pageField nodeSize; omega)
  intro w watched
  rcases watched with ⟨n', hn', word⟩ | word
  · by_cases same : n' = n
    · rw [same] at word
      unfold pageField nextField sizeField listSizeField at *
      omega
    · have apart := layout.nodes_apart hn' hn same
      unfold Node.stop nodeSize pageField nextField sizeField listSizeField at *
      omega
  · rcases layout.blockWord_cases word with ⟨n', hn', ⟨b, hb, owner⟩, j, hj, rfl⟩ | inBlock
    · have ne : n' ≠ n := fun same => free b hb (by rw [owner, same])
      have apart := layout.nodes_apart hn' hn ne
      unfold Node.stop nodeSize pageField at *
      omega
    · exact (inBlock.apart covered
        (fun v e e' mem mem' => layout.nodePages_different mem' mem) (by decide) (by decide))

theorem Layout.head_covered (layout : Layout m first g live) (hn : n ∈ g.nodes) {x : Nat}
    (head : x = nextField n.addr ∨ x = sizeField n.addr ∨ x = listSizeField n.addr) :
    Covered PAGE_SIZE g.nodePages x 8 := by
  unfold nextField sizeField listSizeField at head
  exact (layout.node_covered hn).part (by omega) (by unfold nodeSize; omega)

/-- A word at the head of a node overlaps no word of a block. -/
theorem Layout.blockWord_apart (layout : Layout m first g live) (hn : n ∈ g.nodes) {x : Nat}
    (head : x = nextField n.addr ∨ x = sizeField n.addr ∨ x = listSizeField n.addr) {w : Nat}
    (word : BlockWord live w) : w + 8 ≤ x ∨ x + 8 ≤ w := by
  rcases layout.blockWord_cases word with ⟨n', hn', -, j, hj, rfl⟩ | inBlock
  · by_cases same : n' = n
    · rw [same] at hj ⊢
      unfold pageField nextField sizeField listSizeField at *
      omega
    · have apart := layout.nodes_apart hn' hn same
      unfold Node.stop nodeSize pageField nextField sizeField listSizeField at *
      omega
  · exact inBlock.apart (layout.head_covered hn head)
      (fun v e e' mem mem' => layout.nodePages_different mem' mem) (by decide) (by decide)

/-- A word at the head of a node overlaps no other word that is watched. -/
theorem Layout.head_apart (layout : Layout m first g live) (hn : n ∈ g.nodes) {x : Nat}
    (head : x = nextField n.addr ∨ x = sizeField n.addr ∨ x = listSizeField n.addr) {w : Nat}
    (watched : Watched g live w) : w = x ∨ w + 8 ≤ x ∨ x + 8 ≤ w := by
  rcases watched with ⟨n', hn', word⟩ | word
  · by_cases same : n' = n
    · rw [same] at word
      unfold nextField sizeField listSizeField at *
      omega
    · have apart := layout.nodes_apart hn' hn same
      unfold Node.stop nodeSize nextField sizeField listSizeField at *
      omega
  · exact Or.inr (layout.blockWord_apart hn head word)

end Facts

/-! ## Changes of memory -/

section Changes

variable {m m' : PagedMemory PAGE_SIZE} {first : Nat} {g : View} {live : List Block}

theorem Block.Words.transport {b : Block} (words : b.Words m) (hb : b ∈ live)
    (same : ∀ w, BlockWord live w → m'.loadWord w = m.loadWord w) : b.Words m' := by
  refine ⟨?_, ?_, fun i p at_ => ?_⟩
  · exact (same _ ⟨b, hb, Or.inl rfl⟩).trans words.header
  · exact (same _ ⟨b, hb, Or.inr (Or.inl rfl)⟩).trans words.alignment
  · obtain ⟨hi, -⟩ := List.getElem?_eq_some_iff.mp at_
    exact (same _ ⟨b, hb, Or.inr (Or.inr ⟨i, hi, rfl⟩)⟩).trans (words.pages i p at_)

/-- The watched words are all the invariant needs. -/
theorem Layout.keep {extra : Pages} (layout : Layout m first g live)
    (maps : Maps m' (View.owned { g with extra } live))
    (same : ∀ w, Watched g live w → m'.loadWord w = m.loadWord w) :
    Layout m' first { g with extra } live where
  maps := maps
  chain := layout.chain.transport fun n hn w word => same w (Or.inl ⟨n, hn, word⟩)
  head := layout.head
  nonempty := layout.nonempty
  dummy := layout.dummy
  small := layout.small
  placed := layout.placed
  below := layout.below
  ordered := layout.ordered
  shapes := layout.shapes
  words := fun b hb => (layout.words b hb).transport hb fun w word => same w (Or.inr word)
  recorded := layout.recorded
  owners := layout.owners

/-- Every watched word is on the pages that are mapped. -/
theorem Layout.watched_owned (layout : Layout m first g live) {w : Nat}
    (watched : Watched g live w) : Covered PAGE_SIZE (g.owned live) w 8 :=
  (layout.watched_covered watched).mono fun _ => List.mem_append_right _

/-- A store that touches nothing that is watched. -/
theorem Layout.store {x v : Nat} (layout : Layout m first g live)
    (covered : Covered PAGE_SIZE (g.owned live) x 8) (small : v < 2 ^ 64)
    (quiet : Quiet g live x 8) (stored : m.storeWord x v = some m') :
    Layout m' first g live ∧ m'.loadWord x = some v ∧
      ∀ a, Covered PAGE_SIZE (g.owned live) a 8 → a + 8 ≤ x ∨ x + 8 ≤ a →
        m'.loadWord a = m.loadWord a := by
  obtain ⟨tables, value, others⟩ := storeWord_spec layout.maps covered small stored
  refine ⟨layout.keep (layout.maps.of_tables tables) fun w watched => ?_, value, others⟩
  exact others w (layout.watched_owned watched) (quiet w watched)

/-- One more page. -/
theorem Layout.map {v : Nat} {e : PageEntry} (layout : Layout m first g live)
    (free : m.tables v = none) (page : v % PAGE_SIZE = 0) (frame : e.frame % PAGE_SIZE = 0)
    (own : ∀ p ∈ g.owned live, p.2.frame ≠ e.frame) :
    Layout (m.map v e) first { g with extra := g.extra ++ [(v, e)] } live ∧
      ∀ a, Covered PAGE_SIZE (g.owned live) a 8 → (m.map v e).loadWord a = m.loadWord a := by
  obtain ⟨maps, same⟩ := map_spec layout.maps free (Nat.dvd_of_mod_eq_zero page)
    (Nat.dvd_of_mod_eq_zero frame) own
  refine ⟨layout.keep (maps.perm ?_) fun w watched => same w (layout.watched_owned watched), same⟩
  unfold View.owned
  rw [List.append_assoc]
  exact List.perm_middle.symm

/-- One page less. -/
theorem Layout.unmap {v : Nat} {e : PageEntry} {extra : Pages} (layout : Layout m first g live)
    (extraEq : g.extra = (v, e) :: extra) :
    Layout (m.unmap v) first { g with extra } live ∧
      ∀ a, Covered PAGE_SIZE (View.owned { g with extra } live) a 8 →
        (m.unmap v).loadWord a = m.loadWord a := by
  have maps : Maps m ((v, e) :: View.owned { g with extra } live) := by
    have := layout.maps
    unfold View.owned at this
    rwa [extraEq] at this
  obtain ⟨maps', same⟩ := unmap_spec maps
  refine ⟨layout.keep maps' fun w watched => same w ?_, same⟩
  exact (layout.watched_covered watched).mono fun _ => List.mem_append_right _

/-! ### Changes of the list -/

theorem mem_setSize {nodes : List Node} {addr size : Nat} {k : Node}
    (mem : k ∈ setSize nodes addr size) :
    ∃ n ∈ nodes, k.addr = n.addr ∧ k.count = n.count := by
  obtain ⟨n, hn, rfl⟩ := List.mem_map.mp mem
  refine ⟨n, hn, ?_⟩
  split <;> exact ⟨rfl, rfl⟩

theorem stop_eq {n k : Node} (addr : k.addr = n.addr) (count : k.count = n.count) :
    k.stop = n.stop := by
  rw [Node.stop, Node.stop, addr, count]

theorem ordered_setSize {nodes : List Node} (addr size : Nat) (ordered : nodes.Pairwise Before) :
    (setSize nodes addr size).Pairwise Before := by
  refine List.pairwise_map.mpr (ordered.imp fun {a b} before => ?_)
  unfold Before Node.stop at *
  split <;> split <;> exact before

theorem setSize_tail (nodes : List Node) (addr size : Nat) :
    (setSize nodes addr size).tail = setSize nodes.tail addr size := List.map_tail.symm

/-- Another size in a node that no block has. -/
theorem Layout.setSize {n : Node} {size : Nat} (layout : Layout m first g live) (hn : n ∈ g.nodes)
    (free : ∀ b ∈ live, b.node ≠ n.addr) (small : size < 2 ^ 64)
    (stored : m.storeWord (sizeField n.addr) size = some m') :
    Layout m' first { g with nodes := Alloc.setSize g.nodes n.addr size } live ∧
      ∀ w, Covered PAGE_SIZE (g.owned live) w 8 → w + 8 ≤ sizeField n.addr ∨
        sizeField n.addr + 8 ≤ w → m'.loadWord w = m.loadWord w := by
  have head : sizeField n.addr = nextField n.addr ∨ sizeField n.addr = sizeField n.addr ∨
      sizeField n.addr = listSizeField n.addr := Or.inr (Or.inl rfl)
  have covered : Covered PAGE_SIZE (g.owned live) (sizeField n.addr) 8 :=
    (layout.head_covered hn head).mono fun p mem =>
      List.mem_append_right _ (List.mem_append_left _ mem)
  obtain ⟨tables, value, others⟩ := storeWord_spec layout.maps covered small stored
  have same : ∀ w, Watched g live w → w ≠ sizeField n.addr → m'.loadWord w = m.loadWord w := by
    intro w watched ne
    exact others w (layout.watched_owned watched)
      ((layout.head_apart hn head watched).resolve_left ne)
  refine ⟨?_, others⟩
  exact {
    maps := layout.maps.of_tables tables
    chain := by
      refine layout.chain.setSize value fun k hk w word => ?_
      refine same w (Or.inl ⟨k, hk, ?_⟩) ?_
      · exact word.imp_right (Or.imp_left And.left)
      · rcases word with rfl | ⟨rfl, ne⟩ | rfl
        · intro eq
          obtain rfl : k = n := layout.head_ext hk hn (o := 0) (by decide) (by decide) eq
          exact absurd eq (by unfold nextField sizeField; omega)
        · exact fun eq => ne (Nat.add_right_cancel eq)
        · intro eq
          obtain rfl : k = n := layout.head_ext hk hn (by decide) (by decide) eq
          exact absurd eq (by unfold listSizeField sizeField; omega)
    head := layout.head.trans (nextOf_setSize _ _ _).symm
    nonempty := by simpa [Alloc.setSize] using layout.nonempty
    dummy := by
      intro k hk
      rw [Alloc.setSize, List.head?_map, Option.map_eq_some_iff] at hk
      obtain ⟨n', hn', rfl⟩ := hk
      have dummy := layout.dummy n' hn'
      split <;> exact dummy
    small := by
      rw [total_setSize]
      exact layout.small
    placed := by
      intro k hk
      obtain ⟨n', hn', addr, count⟩ := mem_setSize hk
      obtain ⟨nonzero, page, inside⟩ := layout.placed n' hn'
      rw [← stop_eq addr count, ← addr] at inside
      rw [← addr] at nonzero page
      exact ⟨nonzero, page, inside⟩
    below := layout.below
    ordered := ordered_setSize _ _ layout.ordered
    shapes := layout.shapes
    words := by
      intro b hb
      refine (layout.words b hb).transport hb fun w word => ?_
      have apart := layout.blockWord_apart hn head word
      exact same w (Or.inr word) (by omega)
    recorded := by
      intro b hb
      obtain ⟨k, hk, addr, fields⟩ := layout.recorded b hb
      refine ⟨k, ?_, addr, fields⟩
      rw [setSize_tail]
      refine List.mem_map.mpr ⟨k, hk, if_neg ?_⟩
      rw [addr]
      exact free b hb
    owners := layout.owners }

/-- The list with a new last node, in a memory that differs in one link. -/
theorem Layout.chain_link {front : List Node} {last new : Node} (layout : Layout m first g live)
    (nodes : g.nodes = front ++ [last])
    (linked : m'.loadWord (nextField last.addr) = some new.addr) (holds : Holds m' new 0)
    (same : ∀ w, Watched g live w → w ≠ nextField last.addr → m'.loadWord w = m.loadWord w) :
    Chain m' (front ++ [last, new]) := by
  have hlast : last ∈ g.nodes := nodes ▸ List.mem_append_right _ (List.mem_singleton.mpr rfl)
  have chain := layout.chain
  have ordered := layout.ordered
  rw [nodes] at chain ordered
  refine chain.link linked holds fun k hk w word => ?_
  have hk' : k ∈ g.nodes := nodes ▸ hk
  refine same w (Or.inl ⟨k, hk', word.imp_left And.left⟩) ?_
  rcases word with ⟨rfl, inFront⟩ | later
  · intro eq
    obtain rfl : k = last :=
      layout.head_ext hk' hlast (o := 0) (p := 0) (by decide) (by decide) eq
    -- a node is not in front of itself
    have self := (List.pairwise_append.mp ordered).2.2 k inFront k (List.mem_singleton.mpr rfl)
    unfold Before Node.stop nodeSize at self
    omega
  · intro eq
    have same' : k = last := by
      rcases later with rfl | rfl
      · exact layout.head_ext hk' hlast (p := 0) (by decide) (by decide) eq
      · exact layout.head_ext hk' hlast (p := 0) (by decide) (by decide) eq
    rw [same', eq] at later
    unfold nextField sizeField listSizeField at later
    omega

/-- A new node at the end of the list. -/
theorem Layout.link {front : List Node} {last new : Node} {nodePages extra : Pages}
    (layout : Layout m first g live) (nodes : g.nodes = front ++ [last])
    (maps : Maps m' (View.owned ⟨front ++ [last, new], nodePages, extra⟩ live))
    (linked : m'.loadWord (nextField last.addr) = some new.addr) (holds : Holds m' new 0)
    (same : ∀ w, Watched g live w → w ≠ nextField last.addr → m'.loadWord w = m.loadWord w)
    (more : ∀ p ∈ g.nodePages, p ∈ nodePages)
    (below : ∀ v e, (v, e) ∈ nodePages → v + PAGE_SIZE ≤ 2 ^ 64)
    (placed : Placed nodePages new) (before : ∀ n ∈ front ++ [last], Before n new)
    (small : total g.nodes + nodeSize new.count < 2 * PAGE_SIZE) :
    Layout m' first ⟨front ++ [last, new], nodePages, extra⟩ live := by
  have hlast : last ∈ g.nodes := nodes ▸ List.mem_append_right _ (List.mem_singleton.mpr rfl)
  have head : nextField last.addr = nextField last.addr ∨ nextField last.addr = sizeField last.addr ∨
      nextField last.addr = listSizeField last.addr := Or.inl rfl
  have assoc : front ++ [last, new] = (front ++ [last]) ++ [new] := by
    rw [List.append_assoc]
    rfl
  have ordered := layout.ordered
  rw [nodes] at ordered
  exact {
    maps
    chain := layout.chain_link nodes linked holds same
    head := by
      rw [layout.head, nodes]
      cases front <;> rfl
    nonempty := by simp
    dummy := by
      intro k hk
      refine layout.dummy k ?_
      rw [nodes]
      cases front <;> exact hk
    small := by
      show total (front ++ [last, new]) < _
      rw [assoc, total_append, ← nodes]
      exact small
    placed := by
      intro k hk
      rw [show View.nodes ⟨front ++ [last, new], nodePages, extra⟩ = (front ++ [last]) ++ [new]
        from assoc, List.mem_append, List.mem_singleton, ← nodes] at hk
      rcases hk with old | rfl
      · obtain ⟨nonzero, ⟨frame, mem⟩, inside⟩ := layout.placed k old
        exact ⟨nonzero, ⟨frame, more _ mem⟩, inside⟩
      · exact placed
    below
    ordered := by
      show (front ++ [last, new]).Pairwise Before
      rw [assoc]
      refine List.pairwise_append.mpr ⟨ordered, List.pairwise_singleton _ _, ?_⟩
      intro k hk k' hk'
      rw [List.mem_singleton.mp hk']
      exact before k hk
    shapes := layout.shapes
    words := by
      intro b hb
      refine (layout.words b hb).transport hb fun w word => ?_
      have apart := layout.blockWord_apart hlast head word
      exact same w (Or.inr word) (by omega)
    recorded := by
      intro b hb
      obtain ⟨k, hk, fields⟩ := layout.recorded b hb
      refine ⟨k, ?_, fields⟩
      rw [nodes] at hk
      show k ∈ (front ++ [last, new]).tail
      rw [assoc, List.tail_append_of_ne_nil (by simp)]
      exact List.mem_append_left _ hk
    owners := layout.owners }

/-! ### Blocks come and go -/

/-- The extra pages become a block. -/
theorem Layout.blockAdded {b : Block} (layout : Layout m first g live) (extra : g.extra = b.mapped)
    (shape : b.Shape) (words : b.Words m) (recorded : b.Recorded g.nodes)
    (free : ∀ b' ∈ live, b'.node ≠ b.node) :
    Layout m first { g with extra := [] } (b :: live) where
  maps := by
    refine layout.maps.perm ?_
    unfold View.owned
    rw [extra, List.flatMap_cons, List.nil_append, ← List.append_assoc, ← List.append_assoc]
    exact List.Perm.append_right _ List.perm_append_comm
  chain := layout.chain
  head := layout.head
  nonempty := layout.nonempty
  dummy := layout.dummy
  small := layout.small
  placed := layout.placed
  below := layout.below
  ordered := layout.ordered
  shapes := List.forall_mem_cons.mpr ⟨shape, layout.shapes⟩
  words := List.forall_mem_cons.mpr ⟨words, layout.words⟩
  recorded := List.forall_mem_cons.mpr ⟨recorded, layout.recorded⟩
  owners := List.pairwise_cons.mpr ⟨fun b' hb' eq => free b' hb' eq.symm, layout.owners⟩

/-- The pages of a block become extra. -/
theorem Layout.blockRemoved {b : Block} {newer older : List Block}
    (layout : Layout m first g (newer ++ b :: older)) (extra : g.extra = []) :
    Layout m first { g with extra := b.mapped } (newer ++ older) := by
  have mem : ∀ {k}, k ∈ newer ++ older → k ∈ newer ++ b :: older := by
    intro k hk
    rcases List.mem_append.mp hk with left | right
    · exact List.mem_append_left _ left
    · exact List.mem_append_right _ (List.mem_cons_of_mem _ right)
  exact {
    maps := by
      refine layout.maps.perm ?_
      unfold View.owned
      rw [extra, List.nil_append, List.flatMap_append, List.flatMap_cons, List.flatMap_append]
      refine List.Perm.trans (List.Perm.append_left g.nodePages ?_) (List.perm_append_comm_assoc ..)
      exact List.perm_append_comm_assoc ..
    chain := layout.chain
    head := layout.head
    nonempty := layout.nonempty
    dummy := layout.dummy
    small := layout.small
    placed := layout.placed
    below := layout.below
    ordered := layout.ordered
    shapes := fun k hk => layout.shapes k (mem hk)
    words := fun k hk => layout.words k (mem hk)
    recorded := fun k hk => layout.recorded k (mem hk)
    owners := layout.owners.sublist
      (List.Sublist.append_left (List.sublist_cons_self b older) newer) }

end Changes

end Tyleros.Alloc
