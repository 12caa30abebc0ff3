import Tyleros.Paging.Supply
import Tyleros.Vma.Model

/-!
# The address of a mapped page

`map_page` does not pass on the address it was given: it computes the address of the
page from the indices of the iterator, and this is the address it returns and whose
translation it invalidates. An iterator knows the addresses that are sign-extended from
42 bits, and the virtual memory allocator hands out twice as many.
-/

namespace Tyleros.Paging

/-! ## The translation lookaside buffer -/

/-- The translation lookaside buffer: the entry the processor holds for a page, if any. -/
abbrev Tlb := Word → Option Word

/-- `invlpg(address)`: the processor forgets the entry of the page of the address. -/
def invlpg (address : Word) (tlb : Tlb) : Tlb :=
  Function.update tlb (address &&& - BitVec.ofNat 64 PAGE_SIZE) none

/-- `map_page(physical_page, it, attrs)` together with its `invlpg`. -/
def mapPageAtTlb (physicalPage : Word) (it : Iterator) (attrs : Word) (s : State) (tlb : Tlb) :
    Except Stop (Word × State × Tlb) := do
  let (virtualPage, s) ← mapPageAt physicalPage it attrs s
  return (virtualPage, s, invlpg virtualPage tlb)

/-- `map_page(physical_page, virtual_page, attrs)` together with its `invlpg`. -/
def mapPageTlb (y : Symbols) (physicalPage virtualPage attrs : Word) (s : State) (tlb : Tlb) :
    Except Stop (Word × State × Tlb) := do
  kassert (virtualPage.toNat % PAGE_SIZE == 0) "virtual address must be page-aligned!"
  let (it, s) ← get y virtualPage s
  mapPageAtTlb physicalPage it attrs s tlb

section RoundTrip

variable {y : Symbols} {s s' : State} {it it' : Iterator} {tlb tlb' : Tlb} {p v attrs r : Word}

theorem invlpg_eq_none_iff (alignedR : r.toNat % PAGE_SIZE = 0) :
    invlpg r tlb v = none ↔ v = r ∨ tlb v = none := by
  have page : r &&& - BitVec.ofNat 64 PAGE_SIZE = r := by
    have inPage : 0 < PAGE_SIZE := by decide
    have := page_of_offset alignedR inPage
    rwa [show r + BitVec.ofNat 64 0 = r from BitVec.add_zero r] at this
  unfold invlpg
  rw [page]
  by_cases same : v = r
  · simp [same]
  · simp [same]

/-! ## The indices of an iterator stay -/

theorem Iterator.allocateAndDescend_indices
    (done : it.allocateAndDescend y s = .ok (it', s')) : it'.indices = it.indices := by
  obtain ⟨entry, addr, -, rfl⟩ := Iterator.allocateAndDescend_inv done
  rfl

theorem getLevels_indices {n : Nat} (done : getLevels y n it s = .ok (it', s')) :
    it'.indices = it.indices := by
  induction n generalizing it' s' with
  | zero =>
      cases done
      rfl
  | succ n ih =>
      obtain ⟨⟨it₁, s₁⟩, before, step⟩ := bind_eq_ok done
      rw [Iterator.allocateAndDescend_indices step, ih before]

theorem get_indices (done : get y v s = .ok (it, s')) (j : Nat) (hj : j < 4) :
    it.indices j = index v j := by
  obtain ⟨_, -, done⟩ := bind_eq_ok done
  obtain ⟨⟨it₁, s₁⟩, levels, done⟩ := bind_eq_ok done
  obtain ⟨_, -, done⟩ := bind_eq_ok done
  cases done
  rw [getLevels_indices levels]
  exact (Cursor.ofAddress s.base v).indices j hj

/-! ## There and back -/

/-- An iterator on the way to a page knows its address just if the address is
sign-extended from 42 bits. -/
theorem virtualPageAddress_eq_iff (aligned : v.toNat % PAGE_SIZE = 0)
    (indices : ∀ j, j < 4 → it.indices j = index v j) :
    it.virtualPageAddress = v ↔ SignExtended v := by
  constructor
  · intro same
    have extended := virtualPageAddress_extended it
    rwa [same] at extended
  · intro extended
    exact virtualPageAddress_eq aligned extended indices

/-- A `map_page` that completes returns the address of its iterator and invalidates it. -/
theorem mapPageTlb_outcome (done : mapPageTlb y p v attrs s tlb = .ok (r, s', tlb')) :
    ∃ it s₁, get y v s = .ok (it, s₁) ∧ r = it.virtualPageAddress ∧ tlb' = invlpg r tlb := by
  obtain ⟨_, -, done⟩ := bind_eq_ok done
  obtain ⟨⟨it, s₁⟩, got, done⟩ := bind_eq_ok done
  obtain ⟨⟨r₁, s₂⟩, entered, done⟩ := bind_eq_ok done
  cases done
  exact ⟨it, s₁, got, (mapPageAt_ok entered).2.1, rfl⟩

/-- `map_page` with the buffer is `map_page`. -/
theorem mapPageTlb_eq : mapPageTlb y p v attrs s tlb =
    (mapPage y p v attrs s).map fun (r, s') => (r, s', invlpg r tlb) := by
  unfold mapPageTlb mapPage mapPageAtTlb
  cases kassert (v.toNat % PAGE_SIZE == 0) "virtual address must be page-aligned!" with
  | error e => rfl
  | ok u =>
      cases got : get y v s with
      | error e => rfl
      | ok c =>
          simp only [ok_bind]
          cases mapPageAt p c.1 attrs c.2 with
          | error e => rfl
          | ok r => rfl

end RoundTrip

/-- The pages the virtual memory allocator hands out are below 2 ^ 42 or, as signed
numbers, from - 2 ^ 42 on. -/
def Managed (v : Word) : Prop :=
  (v.toNat : Int) ≤ Vma.MAX_POSITIVE_VIRTUAL_ADDR ∨
    Vma.ofSigned Vma.MIN_NEGATIVE_VIRTUAL_ADDR ≤ v.toNat

/-- The iterator built from an address knows it, and `map_page` returns it and leaves no
entry for it in the buffer. -/
def RoundTrips (v : Word) : Prop :=
  (∀ base, (Iterator.ofAddress base v).virtualPageAddress = v) ∧
    ∀ y p attrs s tlb r s' tlb', mapPageTlb y p v attrs s tlb = .ok (r, s', tlb') →
      r = v ∧ tlb' v = none

/-- Just the addresses that are sign-extended from 42 bits make the round trip. For the
others every `map_page` that completes returns another address and leaves the entry of
the page in the buffer. -/
theorem roundTrips_iff {v : Word} (aligned : v.toNat % PAGE_SIZE = 0) :
    (RoundTrips v ↔ v.toNat < 2 ^ 41 ∨ 2 ^ 64 - 2 ^ 41 ≤ v.toNat) ∧
      ∀ y p attrs s tlb r s' tlb', mapPageTlb y p v attrs s tlb = .ok (r, s', tlb') →
        (r = v ↔ v.toNat < 2 ^ 41 ∨ 2 ^ 64 - 2 ^ 41 ≤ v.toNat) ∧
        (tlb' v = none ↔ (v.toNat < 2 ^ 41 ∨ 2 ^ 64 - 2 ^ 41 ≤ v.toNat) ∨ tlb v = none) := by
  have each : ∀ y p attrs s tlb r s' tlb', mapPageTlb y p v attrs s tlb = .ok (r, s', tlb') →
      (r = v ↔ SignExtended v) ∧ (tlb' v = none ↔ SignExtended v ∨ tlb v = none) := by
    intro y p attrs s tlb r s' tlb' done
    obtain ⟨it, s₁, got, rfl, rfl⟩ := mapPageTlb_outcome done
    have known := virtualPageAddress_eq_iff aligned (get_indices got)
    refine ⟨known, ?_⟩
    rw [invlpg_eq_none_iff (virtualPageAddress_aligned it), eq_comm, known]
  refine ⟨⟨fun trips => ?_, fun extended => ⟨fun base => ?_, ?_⟩⟩, each⟩
  · exact (virtualPageAddress_eq_iff aligned (Cursor.ofAddress 0#64 v).indices).mp (trips.1 0#64)
  · exact virtualPageAddress_eq aligned extended (Cursor.ofAddress base v).indices
  · intro y p attrs s tlb r s' tlb' done
    obtain ⟨same, forgotten⟩ := each y p attrs s tlb r s' tlb' done
    exact ⟨same.mpr extended, forgotten.mpr (Or.inl extended)⟩

/-- The kernel after `early_init`, with the tables of `sampleLayout`. -/
def sampleKernel : State :=
  earlyInit sampleLayout.toSymbols (image sampleLayout.toSymbols fun _ => 0#64)

theorem roundTrips_iff_low :
    RoundTrips 0x1FFFFFFF000#64 ∧
      ∃ r s' tlb', mapPageTlb sampleLayout.toSymbols 0x300000#64 0x1FFFFFFF000#64 RW sampleKernel some =
        .ok (r, s', tlb') ∧ r = 0x1FFFFFFF000#64 ∧ tlb' 0x1FFFFFFF000#64 = none := by
  have extended : (0x1FFFFFFF000#64).toNat < 2 ^ 41 ∨ 2 ^ 64 - 2 ^ 41 ≤ (0x1FFFFFFF000#64).toNat := by
    decide
  have trips := roundTrips_iff (v := 0x1FFFFFFF000#64) (by decide)
  have done : completesWith (mapPageTlb sampleLayout.toSymbols 0x300000#64 0x1FFFFFFF000#64 RW
      sampleKernel some) (fun _ => true) = true := by decide +kernel
  obtain ⟨⟨r, s', tlb'⟩, result, -⟩ := exists_of_completesWith done
  obtain ⟨same, forgotten⟩ := trips.2 _ _ _ _ _ _ _ _ result
  exact ⟨trips.1.mpr extended, r, s', tlb', result, same.mpr extended, forgotten.mpr (Or.inl extended)⟩

/-- `map_page` at 2 ^ 41 returns -2 ^ 41, and the entry of the page stays in the buffer. -/
theorem roundTrips_fails_upper :
    (0x20000000000#64).toNat % PAGE_SIZE = 0 ∧ Managed 0x20000000000#64 ∧
      ¬ RoundTrips 0x20000000000#64 ∧
      ∃ s' tlb', mapPageTlb sampleLayout.toSymbols 0x300000#64 0x20000000000#64 RW sampleKernel some =
        .ok (0xFFFFFE0000000000#64, s', tlb') ∧ tlb' 0x20000000000#64 = some 0x20000000000#64 := by
  have managed : Managed 0x20000000000#64 := Or.inl (by decide)
  have done : completesWith (mapPageTlb sampleLayout.toSymbols 0x300000#64 0x20000000000#64 RW
      sampleKernel some) (fun o => o.1 == 0xFFFFFE0000000000#64 &&
        o.2.2 0x20000000000#64 == some 0x20000000000#64) = true := by decide +kernel
  obtain ⟨⟨r, s', tlb'⟩, result, test⟩ := exists_of_completesWith done
  rw [Bool.and_eq_true, beq_iff_eq, beq_iff_eq] at test
  obtain ⟨rfl, stays⟩ := test
  refine ⟨by decide, managed, fun trips => ?_, s', tlb', result, stays⟩
  have same := (trips.2 _ _ _ _ _ _ _ _ result).1
  exact absurd same (by decide)

end Tyleros.Paging
