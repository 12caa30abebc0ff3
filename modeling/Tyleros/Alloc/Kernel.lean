import Tyleros.Alloc.Steps
import Tyleros.Pma.Runs
import Tyleros.Vma.Runs

/-!
# The allocators of the kernel

The physical and the virtual allocator, called as the heap calls them, meet what the
heap relies on. The virtual allocator stops when a freed range needs a node and the
page of its free list is full.
-/

namespace Tyleros.Alloc

/-- `pma.cpp` and `vma.cpp`. -/
def kernelSuppliers : Suppliers Pma.State Vma.State where
  getPhysicalPage := Pma.getPhysicalPage
  freePhysicalPage := Pma.freePhysicalPage
  getVirtualPages := Vma.getVirtualPages
  freeVirtualPages := Vma.freeVirtualPages

/-- The bitmap agrees with the pages that are outstanding. -/
def KernelPagesOut (pma : Pma.State) (out : Set Nat) : Prop :=
  ∃ outstanding, (∀ p, p ∈ outstanding ↔ p ∈ out) ∧ Pma.HeldInv ⟨pma, outstanding⟩ ∧
    ∀ p ∈ outstanding, p ≠ 0

/-- The free list is apart from the ranges that are outstanding. -/
def KernelRangesOut (vma : Vma.State) (out : Set (Nat × Nat)) : Prop :=
  ∃ outstanding k, (∀ r, r ∈ outstanding ↔ r ∈ out) ∧ Vma.HeldInv ⟨vma, outstanding⟩ k ∧
    outstanding.Nodup ∧ ∀ r ∈ outstanding, 0 < r.2

/-- No node is left for a freed range. -/
def NoFreeNodes (e : Stop) : Prop := e = .assertion "No more free nodes!"

theorem getPhysicalPage_ne_zero {pma pma' : Pma.State} {page : Nat}
    (got : Pma.getPhysicalPage pma = .ok (page, pma')) : page ≠ 0 := by
  unfold Pma.getPhysicalPage at got
  dsimp only at got
  split at got
  · cases got
  · obtain ⟨_, checked, got⟩ := bind_eq_ok got
    cases got
    exact bne_iff_ne.mp (kassert_eq_ok checked)

theorem kernel_getPhysicalPage {pma pma' : Pma.State} {out : Set Nat} {page : Nat}
    (pagesOut : KernelPagesOut pma out) (got : Pma.getPhysicalPage pma = .ok (page, pma')) :
    page ∉ out ∧ page < 2 ^ 64 ∧ KernelPagesOut pma' (insert page out) := by
  obtain ⟨outstanding, members, inv, nonzero⟩ := pagesOut
  have fresh : page ∉ outstanding :=
    Pma.HeldInv.handsOutFree (o := .get) inv trivial page pma' got
  have step : Pma.Held.step ⟨pma, outstanding⟩ .get = .ok ⟨pma', page :: outstanding⟩ := by
    show (Pma.getPhysicalPage pma >>= _) = _
    rw [got]
    rfl
  obtain ⟨k, -, -, -, -, pageEq, -⟩ := Pma.getPhysicalPage_spec inv.small got
  refine ⟨fun mem => fresh ((members page).mpr mem), ?_, page :: outstanding, fun p => ?_,
    inv.get step, List.forall_mem_cons.mpr ⟨getPhysicalPage_ne_zero got, nonzero⟩⟩
  · rw [pageEq]
    unfold Pma.State.pageAt
    omega
  · rw [List.mem_cons, Set.mem_insert_iff, members]

theorem kernel_freePhysicalPage {pma : Pma.State} {out : Set Nat} {page : Nat}
    (pagesOut : KernelPagesOut pma out) (mem : page ∈ out) :
    ∃ pma', Pma.freePhysicalPage page pma = .ok pma' ∧ KernelPagesOut pma' (out \ {page}) := by
  obtain ⟨outstanding, members, inv, nonzero⟩ := pagesOut
  have listed : page ∈ outstanding := (members page).mpr mem
  obtain ⟨k, hk, rfl⟩ := inv.bitsMatch.pages page listed
  have index := pma.pageIdx_pageAt inv.base (inv.index_lt hk)
  have set : pma.physicalPageMap.test k = true := (inv.bitsMatch.bits k hk).mpr listed
  have notNull : (pma.pageAt (Pma.toInt k) != 0) = true := bne_iff_ne.mpr (nonzero _ listed)
  have freed : Pma.freePhysicalPage (pma.pageAt (Pma.toInt k)) pma =
      .ok { pma with physicalPageMap := pma.physicalPageMap.reset k } := by
    unfold Pma.freePhysicalPage
    dsimp only
    rw [notNull, kassert_true, ok_bind, index, set, kassert_true, ok_bind]
    rfl
  have step : Pma.Held.step ⟨pma, outstanding⟩ (.free (pma.pageAt (Pma.toInt k))) =
      .ok ⟨{ pma with physicalPageMap := pma.physicalPageMap.reset k },
        outstanding.filter (· ≠ pma.pageAt (Pma.toInt k))⟩ := by
    show (Pma.freePhysicalPage _ pma >>= _) = _
    rw [freed]
    rfl
  refine ⟨_, freed, _, fun p => ?_, inv.free listed step, fun p mem =>
    nonzero p (List.mem_of_mem_filter mem)⟩
  rw [List.mem_filter, decide_eq_true_iff, members]
  rfl

theorem kernel_getVirtualPages {vma vma' : Vma.State} {out : Set (Nat × Nat)} {size address : Nat}
    (rangesOut : KernelRangesOut vma out)
    (got : Vma.getVirtualPages size vma = .ok (address, vma')) :
    address ≠ 0 ∧ address + size ≤ 2 ^ 64 ∧ KernelRangesOut vma' (insert (address, size) out) := by
  obtain ⟨outstanding, k, members, inv, nodup, positive⟩ := rangesOut
  obtain ⟨-, fits, sizePos, -⟩ := Vma.get_spec inv.list got
  have step : Vma.Held.step ⟨vma, outstanding⟩ (.get size) =
      .ok ⟨vma', (address, size) :: outstanding⟩ := by
    show (Vma.getVirtualPages size vma >>= _) = _
    rw [got]
    rfl
  have fresh : (address, size) ∉ outstanding := by
    intro mem
    have disjoint := inv.returnsFresh (.get size) size address vma' rfl got _ mem
    have inside : address ∈ Vma.region (address, size) :=
      ⟨Nat.le_refl _, Nat.lt_add_of_pos_right sizePos⟩
    exact Set.disjoint_left.mp disjoint inside inside
  refine ⟨Nat.ne_of_gt (fits.pos sizePos), fits.end_le, _, k, fun r => ?_, (inv.get step).1,
    List.nodup_cons.mpr ⟨fresh, nodup⟩, List.forall_mem_cons.mpr ⟨sizePos, positive⟩⟩
  rw [List.mem_cons, Set.mem_insert_iff, members]

theorem addNodeToFreeList_error {vma : Vma.State} {base size : Nat} {e : Stop}
    (h : Vma.addNodeToFreeList base size vma = .error e) : NoFreeNodes e := by
  unfold Vma.addNodeToFreeList at h
  split at h
  · cases h
  · cases h
  · unfold kassert at h
    dsimp only at h
    split at h
    · cases h
    · cases h
      rfl

theorem kernel_freeVirtualPages {vma : Vma.State} {out : Set (Nat × Nat)} {address size : Nat}
    (rangesOut : KernelRangesOut vma out) (mem : (address, size) ∈ out) :
    (∃ vma', Vma.freeVirtualPages address size vma = .ok vma' ∧
        KernelRangesOut vma' (out \ {(address, size)})) ∨
      ∃ e, Vma.freeVirtualPages address size vma = .error e ∧ NoFreeNodes e := by
  obtain ⟨outstanding, k, members, inv, nodup, positive⟩ := rangesOut
  have listed : (address, size) ∈ outstanding := (members _).mpr mem
  have sizePos : 0 < size := positive _ listed
  have addressPos : 0 < address := (inv.fits _ listed).pos sizePos
  have sizeOk : (size != 0) = true := bne_iff_ne.mpr (Nat.ne_of_gt sizePos)
  have addressOk : (address != 0) = true := bne_iff_ne.mpr (Nat.ne_of_gt addressPos)
  have call : Vma.freeVirtualPages address size vma = Vma.addNodeToFreeList address size vma := by
    unfold Vma.freeVirtualPages
    rw [addressOk, kassert_true, ok_bind, sizeOk, kassert_true, ok_bind]
  cases result : Vma.freeVirtualPages address size vma with
  | error e => exact Or.inr ⟨e, rfl, addNodeToFreeList_error (call.symm.trans result)⟩
  | ok vma' =>
      have step : Vma.Held.step ⟨vma, outstanding⟩ (.free address size) =
          .ok ⟨vma', outstanding.erase (address, size)⟩ := by
        show (Vma.freeVirtualPages address size vma >>= _) = _
        rw [result]
        rfl
      obtain ⟨k', inv', -⟩ := inv.free listed step
      refine Or.inl ⟨vma', rfl, _, k', fun r => ?_, inv', nodup.erase _, fun r left =>
        positive r (List.mem_of_mem_erase left)⟩
      rw [nodup.mem_erase_iff, members, and_comm]
      rfl

/-- The heap can rely on the allocators of the kernel. -/
theorem kernel_lawful :
    Lawful kernelSuppliers KernelPagesOut KernelRangesOut NoFreeNodes where
  getPhysicalPage := kernel_getPhysicalPage
  freePhysicalPage := kernel_freePhysicalPage
  getVirtualPages := kernel_getVirtualPages
  freeVirtualPages := kernel_freeVirtualPages

end Tyleros.Alloc
