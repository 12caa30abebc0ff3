import Tyleros.Alloc.Runs

/-!
# Room for the records of allocations

`get_new_allocation` compares the summed sizes of all records, over all their pages, with
a page. `records_run` says exactly when that goes well: a killed record can be used again,
or the sum stays inside the same multiple of a page and the record fits behind the last
one, or the sum fills the first page exactly. Then the record lies inside a page for
records and shares no byte with another one.

The runs are those of `get_new_allocation` and `remove_allocation`, which is all that
`free` does to the records.
-/

namespace Tyleros.Alloc

open Lib Lib.PagedMemory Paging

variable {π ν : Type}

/-! ## The records in memory -/

/-- The records from address `a` on, at most `fuel` of them. -/
def State.recordsFrom (s : State π ν) : Nat → Nat → List Node
  | 0, _ => []
  | fuel + 1, a =>
    let next := (s.memory.loadWord (nextField a)).getD 0
    ⟨a, (s.memory.loadWord (sizeField a)).getD 0, (s.memory.loadWord (listSizeField a)).getD 0⟩ ::
      if next = 0 then [] else s.recordsFrom fuel next

/-- The list of allocations. -/
def State.records (s : State π ν) : List Node := s.recordsFrom WALK s.first

section Lists

variable {s : State π ν} {nodes rest : List Node} {first : Node} {m : PagedMemory PAGE_SIZE}
  {g : View} {live : List Block}

theorem State.recordsFrom_eq {fuel : Nat} (chain : Chain s.memory (first :: rest))
    (nonzero : ∀ n ∈ rest, n.addr ≠ 0) (enough : rest.length < fuel) :
    s.recordsFrom fuel first.addr = first :: rest := by
  induction rest generalizing first fuel with
  | nil =>
      obtain ⟨fuel, rfl⟩ := Nat.exists_eq_succ_of_ne_zero (Nat.ne_of_gt enough)
      obtain ⟨holds, -⟩ := chain
      rw [State.recordsFrom, holds.next, holds.size, holds.count]
      rfl
  | cons second rest ih =>
      obtain ⟨fuel, rfl⟩ := Nat.exists_eq_succ_of_ne_zero (Nat.ne_of_gt (Nat.zero_lt_of_lt enough))
      obtain ⟨holds, tail⟩ := chain
      have next : nextOf (second :: rest) ≠ 0 := nonzero second List.mem_cons_self
      have later := ih tail (fun n mem => nonzero n (List.mem_cons_of_mem _ mem))
        (Nat.lt_of_succ_lt_succ enough)
      rw [State.recordsFrom, holds.next, holds.size, holds.count]
      dsimp only [Option.getD_some]
      rw [if_neg next]
      exact congrArg (first :: ·) later

theorem Layout.records (layout : Layout s.memory s.first g live) : s.records = g.nodes := by
  obtain ⟨n, rest, nodes, head, chain, enough, nonzero⟩ := layout.listed
  rw [State.records, head, nodes]
  exact State.recordsFrom_eq chain (fun k mem => nonzero k (List.mem_cons_of_mem _ mem)) enough

/-- The loop only goes to the end if it meets no killed record of the right size. -/
theorem findNode_last {needed fuel listSize last sum : Nat} (chain : Chain s.memory (first :: rest))
    (nonzero : ∀ n ∈ rest, n.addr ≠ 0)
    (found : findNode s needed fuel first.addr listSize = .ok (.last last sum)) :
    ∀ n ∈ first :: rest, ¬ (n.size = 0 ∧ n.count = needed) := by
  induction rest generalizing first fuel listSize with
  | nil =>
      obtain ⟨holds, -⟩ := chain
      cases fuel with
      | zero => cases found
      | succ fuel =>
          unfold findNode at found
          rw [State.load_eq holds.count, ok_bind, State.load_eq holds.size, ok_bind] at found
          split at found
          · cases found
          · next other =>
              intro n mem
              rw [List.mem_singleton.mp mem]
              exact other
  | cons second rest ih =>
      obtain ⟨holds, tail⟩ := chain
      have next : nextOf (second :: rest) ≠ 0 := nonzero second List.mem_cons_self
      cases fuel with
      | zero => cases found
      | succ fuel =>
          unfold findNode at found
          rw [State.load_eq holds.count, ok_bind, State.load_eq holds.size, ok_bind] at found
          split at found
          · cases found
          · next other =>
              rw [State.load_eq holds.next, ok_bind, if_neg next] at found
              have later := ih tail (fun n mem => nonzero n (List.mem_cons_of_mem _ mem)) found
              exact List.forall_mem_cons.mpr ⟨other, later⟩

/-- How the loop over the records ends. -/
theorem Layout.search (layout : Layout s.memory s.first g live) (needed : Nat) :
    (s.first != 0) = true ∧
      ((∃ k ∈ g.nodes, k.size = 0 ∧ k.count = needed ∧
          findNode s needed WALK s.first 0 = .ok (.killed k.addr)) ∨
        ∃ front last, g.nodes = front ++ [last] ∧
          (∀ k ∈ g.nodes, ¬ (k.size = 0 ∧ k.count = needed)) ∧
          findNode s needed WALK s.first 0 = .ok (.last last.addr (total g.nodes))) := by
  have small := layout.small
  obtain ⟨first, rest, hnodes, head, chain, enough, nonzero⟩ := layout.listed
  have walk := findNode_spec needed 0 chain (fun k hk => nonzero k (List.mem_cons_of_mem _ hk)) enough
    (by rw [← hnodes]; unfold PAGE_SIZE at small; omega)
  refine ⟨bne_iff_ne.mpr (head ▸ nonzero first List.mem_cons_self), ?_⟩
  rcases walk with ⟨k, hk, killed, count, found⟩ | ⟨front, last, nodes, found⟩
  · rw [← hnodes] at hk
    rw [← head] at found
    exact Or.inl ⟨k, hk, killed, count, found⟩
  · have none_ := findNode_last chain (fun k hk => nonzero k (List.mem_cons_of_mem _ hk)) found
    rw [← hnodes] at none_ nodes
    rw [← hnodes, ← head, Nat.zero_add] at found
    exact Or.inr ⟨front, last, nodes, none_, found⟩

theorem getNewAllocation_killed {S : Suppliers π ν} {n k : Nat} (listed : (s.first != 0) = true)
    (found : findNode s (divCeil n PAGE_SIZE) WALK s.first 0 = .ok (.killed k)) :
    getNewAllocation S n s = (s.store (sizeField k) n >>= fun s' => .ok (k, s')) := by
  unfold getNewAllocation
  rw [listed, kassert_true, ok_bind]
  dsimp only
  rw [found, ok_bind]
  rfl

theorem getNewAllocation_last {S : Suppliers π ν} {n last sum : Nat}
    (listed : (s.first != 0) = true)
    (found : findNode s (divCeil n PAGE_SIZE) WALK s.first 0 = .ok (.last last sum)) :
    getNewAllocation S n s = (placeNode S last sum (nodeSize (divCeil n PAGE_SIZE)) s >>= fun r =>
      writeNode r.1 last n (divCeil n PAGE_SIZE) r.2 >>= fun s' => .ok (r.1, s')) := by
  unfold getNewAllocation
  rw [listed, kassert_true, ok_bind]
  dsimp only
  rw [found, ok_bind]
  rfl

/-- The loop of `remove_allocation` always stops at a record of the list. -/
theorem findBefore_mem {fuel : Nat} (chain : Chain s.memory (first :: rest))
    (nonzero : ∀ n ∈ rest, n.addr ≠ 0) (enough : rest.length < fuel) (node : Nat) :
    ∃ n ∈ first :: rest, findBefore s node fuel first.addr = .ok n.addr := by
  induction rest generalizing first fuel with
  | nil =>
      obtain ⟨fuel, rfl⟩ := Nat.exists_eq_succ_of_ne_zero (Nat.ne_of_gt enough)
      obtain ⟨holds, -⟩ := chain
      refine ⟨first, List.mem_cons_self, ?_⟩
      unfold findBefore
      rw [State.load_eq holds.next, ok_bind, if_pos (show nextOf [] = 0 from rfl)]
      rfl
  | cons second rest ih =>
      obtain ⟨fuel, rfl⟩ := Nat.exists_eq_succ_of_ne_zero (Nat.ne_of_gt (Nat.zero_lt_of_lt enough))
      rw [Nat.succ_eq_add_one, findBefore_cons chain (nonzero second List.mem_cons_self)]
      by_cases here : second.addr = node
      · exact ⟨first, List.mem_cons_self, if_pos here⟩
      · obtain ⟨n, mem, found⟩ := ih chain.2 (fun n mem => nonzero n (List.mem_cons_of_mem _ mem))
          (Nat.lt_of_succ_lt_succ enough)
        refine ⟨n, List.mem_cons_of_mem _ mem, ?_⟩
        rw [if_neg here]
        exact found

end Lists

/-! ## Where a record goes -/

/-- The record that `get_new_allocation(n)` returns, before it is written: a killed one, or
the place of a new one. -/
def recordPlace (S : Suppliers π ν) (n : Nat) (s : State π ν) : Except Stop (Nat × State π ν) := do
  kassert (s.first != 0) "Tried to get a new allocation, but allocation list is null"
  let needed := divCeil n PAGE_SIZE
  match ← findNode s needed WALK s.first 0 with
  | .killed node => return (node, s)
  | .last last listSize => placeNode S last listSize (nodeSize needed) s

theorem getNewAllocation_place {S : Suppliers π ν} {n node : Nat} {s s' : State π ν}
    (h : getNewAllocation S n s = .ok (node, s')) : ∃ s₁, recordPlace S n s = .ok (node, s₁) := by
  obtain ⟨_, first, h⟩ := bind_eq_ok h
  obtain ⟨result, found, h⟩ := bind_eq_ok h
  unfold recordPlace
  rw [first, ok_bind]
  dsimp only
  rw [found, ok_bind]
  cases result with
  | killed k =>
      obtain ⟨s₁, -, h⟩ := bind_eq_ok h
      cases h
      exact ⟨s, rfl⟩
  | last l sum =>
      obtain ⟨⟨x, s₁⟩, placed, h⟩ := bind_eq_ok h
      obtain ⟨s₂, -, h⟩ := bind_eq_ok h
      cases h
      exact ⟨s₁, placed⟩

theorem recordPlace_killed {S : Suppliers π ν} {n k : Nat} {s : State π ν}
    (listed : (s.first != 0) = true)
    (found : findNode s (divCeil n PAGE_SIZE) WALK s.first 0 = .ok (.killed k)) :
    recordPlace S n s = .ok (k, s) := by
  unfold recordPlace
  rw [listed, kassert_true, ok_bind]
  dsimp only
  rw [found, ok_bind]
  rfl

theorem recordPlace_last {S : Suppliers π ν} {n last sum : Nat} {s : State π ν}
    (listed : (s.first != 0) = true)
    (found : findNode s (divCeil n PAGE_SIZE) WALK s.first 0 = .ok (.last last sum)) :
    recordPlace S n s = placeNode S last sum (nodeSize (divCeil n PAGE_SIZE)) s := by
  unfold recordPlace
  rw [listed, kassert_true, ok_bind]
  dsimp only
  rw [found, ok_bind]

/-- A page that has been mapped for records. -/
def State.RecordPage (s : State π ν) (v : Nat) : Prop :=
  (∃ p, Call.mapPage p v ∈ s.calls) ∧ ∃ frame, s.memory.tables v = some ⟨frame, true⟩

/-- The bytes of a record lie inside one page for records. -/
def State.Inside (s : State π ν) (node count : Nat) : Prop :=
  s.RecordPage (pageOf node) ∧ node + nodeSize count ≤ pageOf node + PAGE_SIZE

inductive RecordOp where
  /-- `get_new_allocation(n)`. -/
  | get (n : UInt64)
  /-- `remove_allocation(node)`. -/
  | remove (node : Nat)
  deriving DecidableEq, Repr

def State.recordStep (S : Suppliers π ν) (s : State π ν) : RecordOp → Except Stop (State π ν)
  | .get n => do
    let (_, s) ← getNewAllocation S n.toNat s
    return s
  | .remove node => removeAllocation node s

/-- Runs of `get_new_allocation` and `remove_allocation`. -/
def recordMachine (S : Suppliers π ν) : Machine (State π ν) RecordOp Stop := ⟨State.recordStep S⟩

/-- The record fits in one page. -/
def FitsPage : RecordOp → Prop
  | .get n => nodeSize (divCeil n.toNat PAGE_SIZE) ≤ PAGE_SIZE
  | .remove _ => True

/-- The assertion of `get_new_allocation`. -/
def wontFit : Stop := .assertion "allocation node won't fit in one page!"

/-- The assertion of `get_new_allocation` holds, and the record that is chosen lies inside a
page for records and is a killed one or apart from all records of the list. -/
def HasRoom (S : Suppliers π ν) (s : State π ν) : RecordOp → Prop
  | .get n =>
    getNewAllocation S n.toNat s ≠ .error wontFit ∧
    ∀ node s', recordPlace S n.toNat s = .ok (node, s') →
      s'.Inside node (divCeil n.toNat PAGE_SIZE) ∧ ∀ r ∈ s.records,
        (r.addr = node ∧ r.size = 0 ∧ r.count = divCeil n.toNat PAGE_SIZE) ∨ r.stop ≤ node ∨
          node + nodeSize (divCeil n.toNat PAGE_SIZE) ≤ r.addr
  | .remove _ => True

/-- A killed record with as many pages can be used again; or the sum of the sizes of all
records fills the first page exactly; or it stays inside the same multiple of a page and
there is room behind the last record. -/
def RoomLeft (s : State π ν) : RecordOp → Prop
  | .get n =>
    (∃ r ∈ s.records, r.size = 0 ∧ r.count = divCeil n.toNat PAGE_SIZE) ∨
    total s.records + nodeSize (divCeil n.toNat PAGE_SIZE) = PAGE_SIZE ∨
    (total s.records / PAGE_SIZE =
        (total s.records + nodeSize (divCeil n.toNat PAGE_SIZE)) / PAGE_SIZE ∧
      ∀ last ∈ s.records.getLast?,
        last.stop + nodeSize (divCeil n.toNat PAGE_SIZE) ≤ pageOf last.addr + PAGE_SIZE)
  | .remove _ => True

instance (s : State π ν) : (o : RecordOp) → Decidable (RoomLeft s o)
  | .get n => inferInstanceAs (Decidable
      ((∃ r ∈ s.records, r.size = 0 ∧ r.count = divCeil n.toNat PAGE_SIZE) ∨
      total s.records + nodeSize (divCeil n.toNat PAGE_SIZE) = PAGE_SIZE ∨
      (total s.records / PAGE_SIZE =
          (total s.records + nodeSize (divCeil n.toNat PAGE_SIZE)) / PAGE_SIZE ∧
        ∀ last ∈ s.records.getLast?,
          last.stop + nodeSize (divCeil n.toNat PAGE_SIZE) ≤ pageOf last.addr + PAGE_SIZE)))
  | .remove _ => isTrue trivial

/-- All records lie inside pages for records and share no byte. -/
structure RecordsApart (s : State π ν) : Prop where
  inside : ∀ r ∈ s.records, s.Inside r.addr r.count
  apart : s.records.Pairwise fun r r' => r.stop ≤ r'.addr ∨ r'.stop ≤ r.addr

/-! ## The invariant -/

section Steps

variable {S : Suppliers π ν} {PagesOut : π → Set Nat → Prop}
  {RangesOut : ν → Set (Nat × Nat) → Prop} {Exhausted : Stop → Prop} {s s' : State π ν} {g : View}

variable (PagesOut RangesOut) in
/-- The layout of the heap without blocks; its pages are those that have been mapped, and
each of them has a record at its start. -/
structure RecordsInv (s : State π ν) (g : View) : Prop where
  heap : HeapInv PagesOut RangesOut s g [] [] []
  extra : g.extra = []
  mapped : ∀ v, (∃ p, Call.mapPage p v ∈ s.calls) ↔ ∃ e, (v, e) ∈ g.nodePages
  started : ∀ v e, (v, e) ∈ g.nodePages → ∃ n ∈ g.nodes, n.addr = v

theorem RecordsInv.records (inv : RecordsInv PagesOut RangesOut s g) : s.records = g.nodes :=
  inv.heap.layout.records

/-- Where a page of the view is in the page tables. -/
theorem RecordsInv.recordPage (inv : RecordsInv PagesOut RangesOut s g) {v frame : Nat}
    (mem : (v, ⟨frame, true⟩) ∈ g.nodePages) : s.RecordPage v := by
  refine ⟨(inv.mapped v).mpr ⟨_, mem⟩, frame, inv.heap.layout.maps.entry _ _ ?_⟩
  exact List.mem_append_right _ (List.mem_append_left _ mem)

theorem RecordsInv.inside (inv : RecordsInv PagesOut RangesOut s g) {n : Node} (hn : n ∈ g.nodes) :
    s.Inside n.addr n.count := by
  obtain ⟨-, ⟨frame, page⟩, inside⟩ := inv.heap.layout.placed n hn
  exact ⟨inv.recordPage page, inside⟩

theorem RecordsInv.recordsApart (inv : RecordsInv PagesOut RangesOut s g) : RecordsApart s := by
  refine ⟨fun r hr => ?_, ?_⟩
  · rw [inv.records] at hr
    exact inv.inside hr
  · rw [inv.records]
    exact inv.heap.layout.pairwise_apart

theorem divCeil_lt {n : Nat} (hn : n < 2 ^ 64) : nodeSize (divCeil n PAGE_SIZE) < 2 ^ 63 := by
  unfold nodeSize divCeil PAGE_SIZE
  split <;> omega

/-- The sum of the sizes has not wrapped. -/
theorem RecordsInv.sum (inv : RecordsInv PagesOut RangesOut s g) {size : Nat} (hsize : size < 2 ^ 63) :
    add64 (total g.nodes) size = total g.nodes + size := by
  have small := inv.heap.layout.small
  unfold PAGE_SIZE at small
  exact add64_eq (by omega)

/-- A record that follows the last one lies inside a page for records and apart from the
others just if there is room in the page of the last one. -/
theorem RecordsInv.samePage_iff (inv : RecordsInv PagesOut RangesOut s g) {front : List Node}
    {last : Node} {needed : Nat} (nodes : g.nodes = front ++ [last])
    (none_ : ∀ k ∈ g.nodes, ¬ (k.size = 0 ∧ k.count = needed)) :
    (s.Inside (pageField last.addr last.count) needed ∧ ∀ r ∈ g.nodes,
        (r.addr = pageField last.addr last.count ∧ r.size = 0 ∧ r.count = needed) ∨
        r.stop ≤ pageField last.addr last.count ∨
        pageField last.addr last.count + nodeSize needed ≤ r.addr) ↔
      last.stop + nodeSize needed ≤ pageOf last.addr + PAGE_SIZE := by
  have layout := inv.heap.layout
  have hlast : last ∈ g.nodes := nodes ▸ List.mem_append_right _ (List.mem_singleton.mpr rfl)
  have insideLast := (layout.placed last hlast).inside
  have startLast := pageOf_le last.addr
  have positive := nodeSize_pos needed
  have stop : pageField last.addr last.count = last.stop := by
    unfold pageField Node.stop nodeSize
    omega
  have behind : last.addr < last.stop := by
    unfold Node.stop nodeSize
    omega
  rw [stop]
  constructor
  · rintro ⟨⟨page, inside⟩, apart⟩
    by_contra full
    by_cases atEnd : last.stop = pageOf last.addr + PAGE_SIZE
    · -- the record would start the next page, where there is a record already
      have own : pageOf last.stop = last.stop := by
        unfold pageOf PAGE_SIZE at *
        omega
      rw [own] at page
      obtain ⟨e, mem⟩ := (inv.mapped _).mp page.1
      obtain ⟨r, hr, start⟩ := inv.started _ _ mem
      have sizeR := nodeSize_pos r.count
      rcases apart r hr with ⟨-, killed⟩ | before | after
      · exact none_ r hr killed
      · unfold Node.stop at before start
        omega
      · omega
    · -- the record starts in the page of the last one and ends behind it
      have samePage : pageOf last.stop = pageOf last.addr := by
        unfold pageOf PAGE_SIZE at *
        omega
      omega
  · intro fits
    have fits' : pageField last.addr last.count + nodeSize needed ≤ pageOf last.addr + PAGE_SIZE := by
      rwa [stop]
    have place := layout.samePage_place nodes fits'
    rw [stop] at place
    obtain ⟨-, ⟨frame, page⟩, inside⟩ := place.placed 0
    rw [List.append_nil] at page
    refine ⟨⟨inv.recordPage page, inside⟩, fun r hr => Or.inr ?_⟩
    have insideR := (layout.placed r hr).inside
    have inside : last.stop + nodeSize needed ≤ pageOf last.stop + PAGE_SIZE := inside
    rcases place.before 0 r hr with front | pages
    · exact Or.inl front
    · have pages : pageOf r.addr ≠ pageOf last.stop := pages
      unfold pageOf PAGE_SIZE at *
      omega

end Steps

/-! ## Steps -/

section Assertion

variable {s : State Pma.State Vma.State}

/-- Nothing but the assertion itself stops in this way. -/
theorem getNodePage_ne_error : getNodePage kernelSuppliers s ≠ .error wontFit := by
  refine bind_ne_error (bind_ne_error ?_ fun _ h => nomatch h) fun a =>
    bind_ne_error (bind_ne_error ?_ fun _ h => nomatch h) fun b =>
      bind_ne_error ?_ fun _ h => nomatch h
  · show Pma.getPhysicalPage s.pma ≠ _
    unfold Pma.getPhysicalPage
    dsimp only
    split
    · exact fun h => absurd (Except.error.inj h) (by decide)
    · exact bind_ne_error (kassert_ne_error (by decide)) fun _ h => nomatch h
  · show Vma.getVirtualPages PAGE_SIZE a.2.vma ≠ _
    unfold Vma.getVirtualPages
    refine bind_ne_error (kassert_ne_error (by decide)) fun _ =>
      bind_ne_error (kassert_ne_error (by decide)) fun _ => ?_
    split
    · exact fun h => absurd (Except.error.inj h) (by decide)
    · exact fun h => nomatch h
  · unfold mapPage
    refine bind_ne_error (kassert_ne_error (by decide)) fun _ =>
      bind_ne_error (kassert_ne_error (by decide)) fun _ => ?_
    split
    · exact fun h => absurd (Except.error.inj h) (by decide)
    · exact fun h => nomatch h

theorem withMemory_ne_error (memory : Option (PagedMemory PAGE_SIZE)) :
    s.withMemory memory ≠ .error wontFit := by
  cases memory with
  | none => exact fun h => nomatch h
  | some m => exact fun h => nomatch h

theorem writeNode_ne_error {node last n needed : Nat} :
    writeNode node last n needed s ≠ .error wontFit :=
  bind_ne_error (withMemory_ne_error _) fun _ => bind_ne_error (withMemory_ne_error _) fun _ =>
    bind_ne_error (withMemory_ne_error _) fun _ => bind_ne_error (withMemory_ne_error _) fun _ =>
      withMemory_ne_error _

end Assertion

section Kernel

variable {s s' : State Pma.State Vma.State} {g : View} {n : Nat}

/-- A killed record is used again. -/
theorem RecordsInv.hasRoom_killed (inv : RecordsInv KernelPagesOut KernelRangesOut s g) {k : Node}
    (hk : k ∈ g.nodes) (killed : k.size = 0) (count : k.count = divCeil n PAGE_SIZE) :
    s.Inside k.addr (divCeil n PAGE_SIZE) ∧ ∀ r ∈ g.nodes,
      (r.addr = k.addr ∧ r.size = 0 ∧ r.count = divCeil n PAGE_SIZE) ∨ r.stop ≤ k.addr ∨
        k.addr + nodeSize (divCeil n PAGE_SIZE) ≤ r.addr := by
  have inside := inv.inside hk
  rw [count] at inside
  refine ⟨inside, fun r hr => ?_⟩
  by_cases same : r = k
  · rw [same]
    exact Or.inl ⟨rfl, killed, count⟩
  · have apart := inv.heap.layout.nodes_apart hr hk same
    rw [show k.stop = k.addr + nodeSize (divCeil n PAGE_SIZE) by rw [Node.stop, count]] at apart
    exact Or.inr apart

/-- The first record on a new page. -/
theorem RecordsInv.hasRoom_newPage (inv : RecordsInv KernelPagesOut KernelRangesOut s g)
    {last x : Nat} (small : nodeSize (divCeil n PAGE_SIZE) < 2 ^ 63)
    (crosses : total g.nodes / PAGE_SIZE ≠
      add64 (total g.nodes) (nodeSize (divCeil n PAGE_SIZE)) / PAGE_SIZE)
    (h : placeNode kernelSuppliers last (total g.nodes) (nodeSize (divCeil n PAGE_SIZE)) s =
      .ok (x, s')) :
    s'.Inside x (divCeil n PAGE_SIZE) ∧ ∀ r ∈ g.nodes, r.stop ≤ x ∨
      x + nodeSize (divCeil n PAGE_SIZE) ≤ r.addr := by
  obtain ⟨-, page, inv', place, calls⟩ :=
    placeNode_newPage kernel_lawful inv.heap inv.extra small crosses h
  have owned : (x, ⟨page, true⟩) ∈ View.owned { g with extra := [(x, ⟨page, true⟩)] } [] :=
    List.mem_append_left _ (List.mem_singleton.mpr rfl)
  have own : pageOf x = x := Nat.div_mul_cancel (inv'.layout.maps.aligned _ _ owned).1
  have inside := (place.placed 0).inside
  refine ⟨⟨⟨⟨page, ?_⟩, page, ?_⟩, inside⟩, fun r hr => ?_⟩
  · rw [calls, own]
    simp
  · rw [own]
    exact inv'.layout.maps.entry _ _ owned
  · have insideR := (inv.heap.layout.placed r hr).inside
    have inside : x + nodeSize (divCeil n PAGE_SIZE) ≤ pageOf x + PAGE_SIZE := inside
    rcases place.before 0 r hr with front | pages
    · exact Or.inl front
    · have pages : pageOf r.addr ≠ pageOf x := pages
      unfold pageOf PAGE_SIZE at *
      omega

/-- The sum fills the first page exactly if it leaves it without getting beyond it. -/
theorem crosses_iff {sum size : Nat} (crosses : sum / PAGE_SIZE ≠ (sum + size) / PAGE_SIZE) :
    sum + size ≤ PAGE_SIZE ↔ sum + size = PAGE_SIZE := by
  unfold PAGE_SIZE at *
  omega

/-- A new record finds room just if the place for it does, and the assertion holds. -/
theorem hasRoom_last_iff {n : UInt64} {last : Nat}
    (inv : RecordsInv KernelPagesOut KernelRangesOut s g) (listed : (s.first != 0) = true)
    (found : findNode s (divCeil n.toNat PAGE_SIZE) WALK s.first 0 =
      .ok (.last last (total g.nodes))) :
    HasRoom kernelSuppliers s (.get n) ↔
      (placeNode kernelSuppliers last (total g.nodes) (nodeSize (divCeil n.toNat PAGE_SIZE)) s ≠
        .error wontFit) ∧
      ∀ node s', placeNode kernelSuppliers last (total g.nodes)
          (nodeSize (divCeil n.toNat PAGE_SIZE)) s = .ok (node, s') →
        s'.Inside node (divCeil n.toNat PAGE_SIZE) ∧ ∀ r ∈ g.nodes,
          (r.addr = node ∧ r.size = 0 ∧ r.count = divCeil n.toNat PAGE_SIZE) ∨ r.stop ≤ node ∨
            node + nodeSize (divCeil n.toNat PAGE_SIZE) ≤ r.addr := by
  unfold HasRoom
  dsimp only
  rw [inv.records, getNewAllocation_last listed found, recordPlace_last listed found]
  refine and_congr_left fun _ => ?_
  constructor
  · intro holds placed
    rw [placed] at holds
    exact holds rfl
  · intro placed
    exact bind_ne_error placed fun _ => bind_ne_error writeNode_ne_error fun _ h => nomatch h

/-- The record follows the last one. -/
theorem RecordsInv.hasRoom_samePage_iff (inv : RecordsInv KernelPagesOut KernelRangesOut s g)
    {n : UInt64} {front : List Node} {last : Node} (nodes : g.nodes = front ++ [last])
    (none_ : ∀ k ∈ g.nodes, ¬ (k.size = 0 ∧ k.count = divCeil n.toNat PAGE_SIZE))
    (listed : (s.first != 0) = true)
    (found : findNode s (divCeil n.toNat PAGE_SIZE) WALK s.first 0 =
      .ok (.last last.addr (total g.nodes)))
    (samePage : total g.nodes / PAGE_SIZE =
      (total g.nodes + nodeSize (divCeil n.toNat PAGE_SIZE)) / PAGE_SIZE) :
    HasRoom kernelSuppliers s (.get n) ↔
      last.stop + nodeSize (divCeil n.toNat PAGE_SIZE) ≤ pageOf last.addr + PAGE_SIZE := by
  have there := placeNode_samePage (S := kernelSuppliers) inv.heap.layout nodes
    (by rw [inv.sum (divCeil_lt n.toNat_lt)]; exact samePage)
  have room := inv.samePage_iff nodes none_
  rw [hasRoom_last_iff inv listed found, there]
  constructor
  · intro ⟨_, inside⟩
    exact room.mp (inside _ s rfl)
  · intro fits
    refine ⟨(fun h => nomatch h), fun node s' h => ?_⟩
    obtain ⟨rfl, rfl⟩ := Prod.mk.inj (Except.ok.inj h)
    exact room.mpr fits

/-- The record goes to a new page, or the assertion fails. -/
theorem RecordsInv.hasRoom_crosses_iff (inv : RecordsInv KernelPagesOut KernelRangesOut s g)
    {n : UInt64} {last : Nat} (listed : (s.first != 0) = true)
    (found : findNode s (divCeil n.toNat PAGE_SIZE) WALK s.first 0 =
      .ok (.last last (total g.nodes)))
    (otherPage : total g.nodes / PAGE_SIZE ≠
      (total g.nodes + nodeSize (divCeil n.toNat PAGE_SIZE)) / PAGE_SIZE) :
    HasRoom kernelSuppliers s (.get n) ↔
      total g.nodes + nodeSize (divCeil n.toNat PAGE_SIZE) = PAGE_SIZE := by
  have small := divCeil_lt n.toNat_lt
  have sum := inv.sum small
  have crosses : total g.nodes / PAGE_SIZE ≠
      add64 (total g.nodes) (nodeSize (divCeil n.toNat PAGE_SIZE)) / PAGE_SIZE := by
    rw [sum]
    exact otherPage
  have exact_ := crosses_iff otherPage
  have unfolded : placeNode kernelSuppliers last (total g.nodes)
      (nodeSize (divCeil n.toNat PAGE_SIZE)) s =
      (kassert (decide (total g.nodes + nodeSize (divCeil n.toNat PAGE_SIZE) ≤ PAGE_SIZE))
        "allocation node won't fit in one page!" >>= fun _ => getNodePage kernelSuppliers s) := by
    unfold placeNode
    rw [if_pos crosses, sum]
  rw [hasRoom_last_iff inv listed found]
  constructor
  · intro ⟨holds, _⟩
    apply exact_.mp
    by_contra full
    rw [unfolded, decide_eq_false full] at holds
    exact holds rfl
  · intro full
    refine ⟨?_, fun node s' h => ?_⟩
    · rw [unfolded, decide_eq_true (exact_.mpr full)]
      exact getNodePage_ne_error
    · obtain ⟨inside, apart⟩ := inv.hasRoom_newPage small crosses h
      exact ⟨inside, fun r hr => Or.inr (apart r hr)⟩

theorem RecordsInv.hasRoom_iff (inv : RecordsInv KernelPagesOut KernelRangesOut s g) (o : RecordOp) :
    HasRoom kernelSuppliers s o ↔ RoomLeft s o := by
  cases o with
  | remove node => exact Iff.rfl
  | get n =>
      obtain ⟨listed, outcome⟩ := inv.heap.layout.search (divCeil n.toNat PAGE_SIZE)
      rcases outcome with ⟨k, hk, killed, count, found⟩ | ⟨front, last, nodes, none_, found⟩
      · -- a killed record is used again
        have left : RoomLeft s (.get n) := Or.inl ⟨k, inv.records.symm ▸ hk, killed, count⟩
        refine iff_of_true ⟨?_, fun node s' h => ?_⟩ left
        · rw [getNewAllocation_killed listed found]
          exact bind_ne_error (withMemory_ne_error _) fun _ h => nomatch h
        · rw [recordPlace_killed listed found] at h
          obtain ⟨rfl, rfl⟩ := Prod.mk.inj (Except.ok.inj h)
          rw [inv.records]
          exact inv.hasRoom_killed hk killed count
      · have noKilled : ¬ ∃ r ∈ g.nodes, r.size = 0 ∧ r.count = divCeil n.toNat PAGE_SIZE :=
          fun ⟨r, hr, killed⟩ => none_ r hr killed
        have lastOf : g.nodes.getLast? = some last := by
          rw [nodes, List.getLast?_concat]
        have positive := nodeSize_pos (divCeil n.toNat PAGE_SIZE)
        unfold RoomLeft
        dsimp only
        rw [inv.records, or_iff_right noKilled, lastOf]
        by_cases samePage : total g.nodes / PAGE_SIZE =
            (total g.nodes + nodeSize (divCeil n.toNat PAGE_SIZE)) / PAGE_SIZE
        · have notFull : ¬ total g.nodes + nodeSize (divCeil n.toNat PAGE_SIZE) = PAGE_SIZE := by
            unfold PAGE_SIZE at *
            omega
          rw [inv.hasRoom_samePage_iff nodes none_ listed found samePage, or_iff_right notFull,
            and_iff_right samePage]
          exact ⟨fun fits last' mem => Option.mem_some_iff.mp mem ▸ fits, fun fits => fits last rfl⟩
        · rw [inv.hasRoom_crosses_iff listed found samePage]
          exact (or_iff_left fun ⟨same, _⟩ => samePage same).symm

/-- Another size in a record. -/
theorem RecordsInv.setSize (inv : RecordsInv KernelPagesOut KernelRangesOut s g) {k : Node}
    {size : Nat} (hk : k ∈ g.nodes) (small : size < 2 ^ 64)
    (h : s.store (sizeField k.addr) size = .ok s') :
    ∃ g', RecordsInv KernelPagesOut KernelRangesOut s' g' := by
  obtain ⟨m, set, rfl⟩ := withMemory_ok h
  have unowned : ∀ b ∈ ([] : List Block), b.node ≠ k.addr := fun b mem =>
    absurd mem List.not_mem_nil
  obtain ⟨layout, -⟩ := inv.heap.layout.setSize hk unowned small set
  refine ⟨_, inv.heap.withLayout layout fun _ => id, inv.extra, inv.mapped, fun v e mem => ?_⟩
  obtain ⟨r, hr, start⟩ := inv.started v e mem
  refine ⟨_, List.mem_map_of_mem hr, ?_⟩
  split <;> exact start

/-- A new record on a new page. -/
theorem RecordsInv.newPage (inv : RecordsInv KernelPagesOut KernelRangesOut s g)
    {front : List Node} {last : Node} {x : Nat} {s₁ : State Pma.State Vma.State} (hn : n < 2 ^ 64)
    (nodes : g.nodes = front ++ [last])
    (crosses : total g.nodes / PAGE_SIZE ≠
      add64 (total g.nodes) (nodeSize (divCeil n PAGE_SIZE)) / PAGE_SIZE)
    (placed : placeNode kernelSuppliers last.addr (total g.nodes) (nodeSize (divCeil n PAGE_SIZE)) s =
      .ok (x, s₁)) (written : writeNode x last.addr n (divCeil n PAGE_SIZE) s₁ = .ok s') :
    ∃ g', RecordsInv KernelPagesOut KernelRangesOut s' g' := by
  obtain ⟨room, page, inv₁, place, calls₁⟩ :=
    placeNode_newPage kernel_lawful inv.heap inv.extra (divCeil_lt hn) crosses placed
  have room : total g.nodes + nodeSize (divCeil n PAGE_SIZE) < 2 * PAGE_SIZE := by
    unfold PAGE_SIZE at *
    omega
  obtain ⟨inv', calls⟩ := inv₁.linkNode nodes place room hn written
  refine ⟨_, inv', rfl, fun v => ?_, fun v e mem => ?_⟩
  · rw [calls, calls₁]
    constructor
    · rintro ⟨p, mem⟩
      rcases List.mem_append.mp mem with old | new
      · obtain ⟨e, mem⟩ := (inv.mapped v).mp ⟨p, old⟩
        exact ⟨e, List.mem_append_left _ mem⟩
      · have same : p = page ∧ v = x := by simpa using new
        exact ⟨⟨page, true⟩, List.mem_append_right _ (List.mem_singleton.mpr (by rw [same.2]))⟩
    · rintro ⟨e, mem⟩
      rcases List.mem_append.mp mem with old | new
      · obtain ⟨p, mem⟩ := (inv.mapped v).mpr ⟨e, old⟩
        exact ⟨p, List.mem_append_left _ mem⟩
      · cases List.mem_singleton.mp new
        exact ⟨page, List.mem_append_right _ (by simp)⟩
  · rcases List.mem_append.mp mem with old | new
    · obtain ⟨r, hr, start⟩ := inv.started v e old
      rw [nodes] at hr
      refine ⟨r, ?_, start⟩
      show r ∈ front ++ [last, _]
      rw [List.append_cons]
      exact List.mem_append_left _ hr
    · cases List.mem_singleton.mp new
      exact ⟨⟨x, n, divCeil n PAGE_SIZE⟩, List.mem_append_right _ (by simp), rfl⟩

/-- A new record behind the last one. -/
theorem RecordsInv.samePage (inv : RecordsInv KernelPagesOut KernelRangesOut s g)
    {front : List Node} {last : Node} (hn : n < 2 ^ 64) (nodes : g.nodes = front ++ [last])
    (room : total g.nodes + nodeSize (divCeil n PAGE_SIZE) < 2 * PAGE_SIZE)
    (fits : pageField last.addr last.count + nodeSize (divCeil n PAGE_SIZE) ≤
      pageOf last.addr + PAGE_SIZE)
    (written : writeNode (pageField last.addr last.count) last.addr n (divCeil n PAGE_SIZE) s =
      .ok s') : ∃ g', RecordsInv KernelPagesOut KernelRangesOut s' g' := by
  have place := inv.heap.layout.samePage_place nodes fits
  have same : { g with extra := [] } = g := by
    rw [← inv.extra]
  have heap := inv.heap
  rw [← same] at heap
  obtain ⟨inv', calls⟩ := heap.linkNode nodes place room hn written
  rw [List.append_nil] at inv'
  refine ⟨_, inv', rfl, ?_, fun v e mem => ?_⟩
  · rw [calls]
    exact inv.mapped
  · obtain ⟨r, hr, start⟩ := inv.started v e mem
    rw [nodes] at hr
    refine ⟨r, ?_, start⟩
    show r ∈ front ++ [last, _]
    rw [List.append_cons]
    exact List.mem_append_left _ hr

theorem RecordsInv.step (inv : RecordsInv KernelPagesOut KernelRangesOut s g) {o : RecordOp}
    (room : RoomLeft s o) (h : (recordMachine kernelSuppliers).step s o = .ok s') :
    ∃ g', RecordsInv KernelPagesOut KernelRangesOut s' g' := by
  cases o with
  | remove node =>
      obtain ⟨_, -, h⟩ := bind_eq_ok h
      obtain ⟨before, found, h⟩ := bind_eq_ok h
      obtain ⟨first, rest, hnodes, head, chain, enough, nonzero⟩ := inv.heap.layout.listed
      obtain ⟨k, hk, foundAt⟩ := findBefore_mem chain
        (fun r mem => nonzero r (List.mem_cons_of_mem _ mem)) enough node
      rw [head, foundAt] at found
      cases found
      exact inv.setSize (hnodes ▸ hk) (by decide) h
  | get n =>
      have hn : n.toNat < 2 ^ 64 := n.toNat_lt
      have small := divCeil_lt hn
      have sum := inv.sum small
      obtain ⟨⟨node, s''⟩, got, h⟩ := bind_eq_ok h
      cases h
      unfold RoomLeft at room
      dsimp only at room
      rw [inv.records] at room
      obtain ⟨listed, outcome⟩ := inv.heap.layout.search (divCeil n.toNat PAGE_SIZE)
      rcases outcome with ⟨k, hk, -, -, found⟩ | ⟨front, last, nodes, none_, found⟩
      · rw [getNewAllocation_killed listed found] at got
        obtain ⟨s₁, stored, got⟩ := bind_eq_ok got
        cases got
        exact inv.setSize hk hn stored
      · rw [getNewAllocation_last listed found] at got
        obtain ⟨⟨x, s₁⟩, placed, got⟩ := bind_eq_ok got
        obtain ⟨s₂, written, got⟩ := bind_eq_ok got
        cases got
        by_cases crosses : total g.nodes / PAGE_SIZE =
            add64 (total g.nodes) (nodeSize (divCeil n.toNat PAGE_SIZE)) / PAGE_SIZE
        · rw [placeNode_samePage inv.heap.layout nodes crosses] at placed
          obtain ⟨rfl, rfl⟩ := Prod.mk.inj (Except.ok.inj placed)
          rw [sum] at crosses
          have lastOf : g.nodes.getLast? = some last := by
            rw [nodes, List.getLast?_concat]
          have insideTwo : total g.nodes + nodeSize (divCeil n.toNat PAGE_SIZE) < 2 * PAGE_SIZE := by
            have small := inv.heap.layout.small
            unfold PAGE_SIZE at *
            omega
          rcases room with ⟨r, hr, killed⟩ | full | ⟨-, fits⟩
          · exact absurd killed (none_ r hr)
          · have positive := nodeSize_pos (divCeil n.toNat PAGE_SIZE)
            unfold PAGE_SIZE at *
            omega
          · refine inv.samePage hn nodes insideTwo ?_ written
            rw [show pageField last.addr last.count = last.stop by
              unfold pageField Node.stop nodeSize; omega]
            exact fits last (by rw [lastOf]; rfl)
        · exact inv.newPage hn nodes crosses placed written

end Kernel

/-! ## Runs -/

/-- The heap after `init`, on the allocators of the kernel. Nothing was mapped before. -/
def RecordsStarted (s : State Pma.State Vma.State) : Prop :=
  ∃ boot pages ranges, KernelPagesOut boot.pma pages ∧ KernelRangesOut boot.vma ranges ∧
    boot.calls = [] ∧ init kernelSuppliers boot = .ok s

section Runs

variable {s : State Pma.State Vma.State}

/-- The records are in order. -/
def RecordsKept (s : State Pma.State Vma.State) : Prop :=
  ∃ g, RecordsInv KernelPagesOut KernelRangesOut s g

theorem RecordsStarted.kept (started : RecordsStarted s) : RecordsKept s := by
  obtain ⟨boot, pages, ranges, pagesOut, rangesOut, none_, h⟩ := started
  obtain ⟨v, page, heap, calls, -⟩ := init_view kernel_lawful pagesOut rangesOut h
  rw [none_, List.nil_append] at calls
  refine ⟨_, heap, rfl, fun v' => ?_, fun v' e mem => ?_⟩
  · rw [calls]
    constructor
    · rintro ⟨p, mem⟩
      have same : p = page ∧ v' = v := by simpa using mem
      exact ⟨⟨page, true⟩, List.mem_singleton.mpr (by rw [same.2])⟩
    · rintro ⟨e, mem⟩
      cases List.mem_singleton.mp mem
      exact ⟨page, by simp⟩
  · cases List.mem_singleton.mp mem
    exact ⟨⟨v, 0, 0⟩, List.mem_singleton.mpr rfl, rfl⟩

/-- In every run after `init` whose records fit in one page, each call finds room for its
record if and only if `RoomLeft` holds at each step; then all records always lie inside
pages for records and apart. -/
theorem records_run {ops : List RecordOp} (started : RecordsStarted s)
    (legal : (recordMachine kernelSuppliers).EachStep (fun _ => FitsPage) s ops) :
    ((recordMachine kernelSuppliers).EachStep (HasRoom kernelSuppliers) s ops ↔
        (recordMachine kernelSuppliers).EachStep RoomLeft s ops) ∧
      ((recordMachine kernelSuppliers).EachStep RoomLeft s ops →
        (recordMachine kernelSuppliers).Always RecordsApart s ops) := by
  have preserves : ∀ s o s', RecordsKept s → RoomLeft s o →
      (recordMachine kernelSuppliers).step s o = .ok s' → RecordsKept s' := by
    rintro s o s' ⟨g, inv⟩ room step
    exact inv.step room step
  constructor
  · refine Machine.eachStep_iff (fun s o s' kept _ => preserves s o s' kept) ?_ started.kept legal
    rintro s o ⟨g, inv⟩ -
    exact inv.hasRoom_iff o
  · refine Machine.always_of_inv preserves ?_ started.kept
    rintro s ⟨g, inv⟩
    exact inv.recordsApart

end Runs

theorem sampleStart_recordsStarted {s : State Pma.State Vma.State} (h : sampleStart = .ok s) :
    RecordsStarted s := by
  obtain ⟨boot, hboot, h⟩ := bind_eq_ok h
  obtain ⟨none_, -, pages, ranges, pagesOut, rangesOut⟩ := sampleBoot_out hboot
  exact ⟨boot, pages, ranges, pagesOut, rangesOut, none_, h⟩

instance : (o : RecordOp) → Decidable (FitsPage o)
  | .get n => inferInstanceAs (Decidable (nodeSize (divCeil n.toNat PAGE_SIZE) ≤ PAGE_SIZE))
  | .remove _ => isTrue trivial

/-- The record in front of the last one is killed and used again. -/
theorem records_run_reuse : ∃ s, sampleStart = .ok s ∧
    (recordMachine kernelSuppliers).EachStep (HasRoom kernelSuppliers) s
      [.get 8192, .get 4096, .remove 0x200040, .get 5000] ∧
    (recordMachine kernelSuppliers).Always RecordsApart s
      [.get 8192, .get 4096, .remove 0x200040, .get 5000] := by
  have evaluated : completesWith sampleStart (fun s => decide
      ((recordMachine kernelSuppliers).EachStep RoomLeft s
        [.get 8192, .get 4096, .remove 0x200040, .get 5000])) = true := by
    decide +kernel
  obtain ⟨s, start, steps⟩ := exists_of_completesWith evaluated
  have room := of_decide_eq_true steps
  have legal : (recordMachine kernelSuppliers).EachStep (fun _ => FitsPage) s
      [.get 8192, .get 4096, .remove 0x200040, .get 5000] :=
    Machine.eachStep_of_forall (by decide +kernel)
  obtain ⟨exactly, apart⟩ := records_run (sampleStart_recordsStarted start) legal
  exact ⟨s, start, exactly.mpr room, apart room⟩

/-- The records of two blocks of a mebibyte have 2072 bytes each. The second one fails the
assertion. -/
theorem second_record_fails : ∃ s s', sampleStart = .ok s ∧ RecordsStarted s ∧
    (recordMachine kernelSuppliers).EachStep (fun _ => FitsPage) s [.get 0x100000, .get 0x100000] ∧
    (recordMachine kernelSuppliers).step s (.get 0x100000) = .ok s' ∧
    (recordMachine kernelSuppliers).step s' (.get 0x100000) = .error wontFit := by
  have evaluated : completesWith sampleStart (fun s =>
      completesWith ((recordMachine kernelSuppliers).step s (.get 0x100000)) (fun s' =>
        match (recordMachine kernelSuppliers).step s' (.get 0x100000) with
        | .ok _ => false
        | .error e => e == wontFit)) = true := by
    decide +kernel
  obtain ⟨s, start, tests⟩ := exists_of_completesWith evaluated
  obtain ⟨s', step, stopped⟩ := exists_of_completesWith tests
  have legal : (recordMachine kernelSuppliers).EachStep (fun _ => FitsPage) s
      [.get 0x100000, .get 0x100000] := Machine.eachStep_of_forall (by decide +kernel)
  refine ⟨s, s', start, sampleStart_recordsStarted start, legal, step, ?_⟩
  split at stopped
  · cases stopped
  · next e failed =>
      rw [failed, beq_iff_eq.mp stopped]

end Tyleros.Alloc
