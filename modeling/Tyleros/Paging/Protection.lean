import Tyleros.Paging.Ranges

/-!
# The protection of the kernel's pages

`enable_kernel_page_protection` goes over the pages of each section of the kernel image
and of the kernel stack and sets their attributes. `WriteXorExecute` holds of the tables
`early_init` sets up and is kept by every one of these edits (`boot_spec`).
-/

namespace Tyleros.Paging

open Tyleros.Lib

/-! ## The sections -/

/-- The pages of the sections that `kernel.ld` puts behind each other, each on a page
boundary. -/
structure Sections where
  text : Nat
  rodata : Nat
  data : Nat
  bss : Nat
  fits : KERNEL_VMA_START + PAGE_SIZE * (text + rodata + data + bss) < 2 ^ 64

namespace Sections

variable (z : Sections)

def textStart : Word := BitVec.ofNat 64 KERNEL_VMA_START

/-- `__text_end__`, also `__rodata_start__`. -/
def textEnd : Word := pageAt textStart z.text

/-- `__rodata_end__`, also `__data_start__`. -/
def rodataEnd : Word := pageAt z.textEnd z.rodata

/-- `__data_end__`, also `__bss_start__`. -/
def dataEnd : Word := pageAt z.rodataEnd z.data

def bssEnd : Word := pageAt z.dataEnd z.bss

end Sections

/-! ## `enable_kernel_page_protection` -/

/-- What one of the loops does with each of its pages: the assertions it makes and the
change of the entry. -/
structure Region where
  checksTable : Bool
  notMapped : String
  notPresent : Option String
  edit : Word → Word

namespace Region

/-- The assertion that the page is present, where a loop makes it. -/
def assertPresent (r : Region) (entry : Iterator) (s : State) : Except Stop Unit :=
  match r.notPresent with
  | some message => do kassert (← entry.present s) message
  | none => .ok ()

/-- The body of a loop for the page at `c`. -/
def page (r : Region) (c : Word) (s : State) : Except Stop State := do
  let entry ← find c s
  kassert (!entry.same Iterator.atEnd && (!r.checksTable || entry.tableExists)) r.notMapped
  r.assertPresent entry s
  entry.write (r.edit (← entry.read s)) s

/-- The loop over the `count` pages from `c` on. -/
def pages (r : Region) : Nat → Word → State → Except Stop State
  | 0, _, s => .ok s
  | count + 1, c, s => do
    let s ← r.page c s
    r.pages count (c + BitVec.ofNat 64 PAGE_SIZE) s

def text : Region :=
  ⟨true, "no text page mapped?", some "text page not present?", fun w => w &&& ~~~ (XD ||| RW)⟩

def rodata : Region :=
  ⟨true, "no rodata page mapped?", some "rodata page not present?", fun w => (w ||| XD) &&& ~~~ RW⟩

def data : Region :=
  ⟨true, "no data page mapped?", some "data page not present?", fun w => w ||| (XD ||| RW)⟩

def bss : Region :=
  ⟨false, "no bss page mapped?", some "bss page not present?", fun w => w ||| (XD ||| RW)⟩

def stack : Region :=
  ⟨true, "no stack page mapped?", none, fun w => w ||| (XD ||| RW ||| PRESENT)⟩

/-- The page below the stack. -/
def guard : Region :=
  ⟨true, "no stack page mapped?", some "stack page not present?", fun w => w &&& ~~~ PRESENT⟩

end Region

/-- `KERNEL_STACK_SIZE` in pages. -/
def KERNEL_STACK_PAGES : Nat := 0x10

/-- `enable_kernel_page_protection(kernel_stack_base)`, as far as it concerns the page
tables. CR0 keeps its value: the `or` that should set its bit WP goes to memory at
0x10000. The addresses that are only printed are looked up as well, since that may
fail. -/
def enableKernelPageProtection (z : Sections) (kernelStackBase : Word) (s : State) :
    Except Stop State := do
  let s ← Region.text.pages z.text Sections.textStart s
  let s ← Region.rodata.pages z.rodata z.textEnd s
  let s ← Region.data.pages z.data z.rodataEnd s
  let s ← Region.bss.pages z.bss z.dataEnd s
  let kernelStackTop := kernelStackBase - BitVec.ofNat 64 (KERNEL_STACK_PAGES * PAGE_SIZE)
  kassert (kernelStackTop.toNat > z.bssEnd.toNat) "bss and stack overlap!"
  let s ← Region.stack.pages KERNEL_STACK_PAGES kernelStackTop s
  let s ← Region.guard.page (kernelStackTop - BitVec.ofNat 64 PAGE_SIZE) s
  let _ ← getPhysicalAddress Sections.textStart s
  let _ ← getPhysicalAddress z.textEnd s
  let _ ← getPhysicalAddress z.rodataEnd s
  let _ ← getPhysicalAddress z.dataEnd s
  let _ ← getPhysicalAddress z.bssEnd s
  return s

/-- The page tables of a booting kernel up to the point where its pages are protected. -/
def boot (y : Symbols) (z : Sections) (kernelStackBase : Word) (memory : Word → Word) :
    Except Stop State :=
  enableKernelPageProtection z kernelStackBase (earlyInit y (image y memory))

/-! ## Edits of entries -/

section Edits

variable {y : Layout} {s s' : State} {level : Word → Option Nat} {r : Region}

/-- The body of a loop changes the entry of its page. -/
theorem Wf.regionPage (wf : Wf y s level) {c : Word} (done : r.page c s = .ok s') :
    ∃ t, s.leaf c = some (0, t) ∧ s' = s.store (slot t (index c 0)) (r.edit (s.entryOf c)) := by
  unfold Region.page at done
  obtain ⟨it, found, done⟩ := bind_eq_ok done
  obtain ⟨_, mapped, done⟩ := bind_eq_ok done
  obtain ⟨_, -, done⟩ := bind_eq_ok done
  obtain ⟨it', result, outcome⟩ := find_spec wf.tree c
  obtain rfl : it' = it := Except.ok.inj (result.symm.trans found)
  rcases outcome with ⟨t, reached, cursor⟩ | ⟨-, rfl⟩
  · have ptr := wf.tree.pointer (wf.tree.leaf_level reached).2
    refine ⟨t, reached, ?_⟩
    rw [cursor.read ptr (by omega), ok_bind, cursor.write ptr (by omega)] at done
    rw [State.entryOf_of_leaf reached]
    exact (Except.ok.inj done).symm
  · have mapped := kassert_eq_ok mapped
    simp [Iterator.same] at mapped

/-- A property of entries that a loop keeps for the page it changes. -/
theorem Wf.regionPage_entries (wf : Wf y s level) {c : Word} {P : Word → Prop}
    (keeps : ∀ w, P w → P (r.edit w)) (all : ∀ page, P (s.entryOf page))
    (done : r.page c s = .ok s') :
    Wf y s' level ∧ s'.dynamicTables = s.dynamicTables ∧ ∀ page, P (s'.entryOf page) := by
  obtain ⟨t, reached, rfl⟩ := wf.regionPage done
  obtain ⟨-, used⟩ := wf.tree.leaf_level reached
  refine ⟨wf.setLeaf used (index_lt c 0), rfl, fun page => ?_⟩
  rcases wf.tree.entryOf_setLeaf_or used (index_lt c 0) page with new | old
  · rw [new]
    exact keeps _ (all c)
  · rw [old]
    exact all page

theorem Wf.regionPages (wf : Wf y s level) {c : Word} {count : Nat} {P : Word → Prop}
    (keeps : ∀ w, P w → P (r.edit w)) (all : ∀ page, P (s.entryOf page))
    (done : r.pages count c s = .ok s') :
    Wf y s' level ∧ s'.dynamicTables = s.dynamicTables ∧ ∀ page, P (s'.entryOf page) := by
  induction count generalizing c s with
  | zero =>
      cases done
      exact ⟨wf, rfl, all⟩
  | succ count ih =>
      rw [Region.pages] at done
      obtain ⟨s₁, first, done⟩ := bind_eq_ok done
      obtain ⟨wf₁, pool₁, all₁⟩ := wf.regionPage_entries keeps all first
      obtain ⟨wf', pool', all'⟩ := ih wf₁ all₁ done
      exact ⟨wf', pool'.trans pool₁, all'⟩

end Edits

/-! ## Write xor execute -/

/-- An entry that is present and writable is not executable. -/
def Sealed (w : Word) : Prop := w &&& PRESENT ≠ 0#64 → w &&& RW ≠ 0#64 → w &&& XD ≠ 0#64

instance (w : Word) : Decidable (Sealed w) :=
  inferInstanceAs (Decidable (w &&& PRESENT ≠ 0#64 → w &&& RW ≠ 0#64 → w &&& XD ≠ 0#64))

/-- No level 1 entry is present, writable and executable. -/
def WriteXorExecute (s : State) : Prop :=
  ∀ t i, s.Reachable (0, t) → i < 512 → Sealed (s.entry t i)

section Sealing

variable {y : Layout} {s s' : State} {level : Word → Option Nat}

/-- The page of three indices and an index into its level 0 table. -/
theorem exists_page {a b c i : Nat} (ha : a < 512) (hb : b < 512) (hc : c < 512) (hi : i < 512) :
    ∃ page : Word, CanonicalPage page ∧ path page = [a, b, c] ∧ index page 0 = i := by
  -- the indices fix the lower 48 bits, and the ones above repeat bit 47
  obtain ⟨n, extension, low⟩ : ∃ n, (n < 2 ^ 47 ∨ 2 ^ 64 - 2 ^ 47 ≤ n ∧ n < 2 ^ 64) ∧
      n % 2 ^ 48 = a * 2 ^ 39 + b * 2 ^ 30 + c * 2 ^ 21 + i * 2 ^ 12 := by
    by_cases upper : a < 256
    · exact ⟨a * 2 ^ 39 + b * 2 ^ 30 + c * 2 ^ 21 + i * 2 ^ 12, by omega, by omega⟩
    · exact ⟨2 ^ 64 - 2 ^ 48 + (a * 2 ^ 39 + b * 2 ^ 30 + c * 2 ^ 21 + i * 2 ^ 12), by omega, by omega⟩
  have address : (BitVec.ofNat 64 n).toNat = n := by
    rw [BitVec.toNat_ofNat]
    omega
  refine ⟨BitVec.ofNat 64 n, ⟨?_, ?_⟩, ?_, ?_⟩
  · rw [address]
    unfold PAGE_SIZE
    omega
  · rw [address]
    omega
  · simp only [path, List.cons.injEq, index_eq, address, and_true]
    omega
  · rw [index_eq, address]
    omega

/-- The page of a level 0 entry that can be reached. -/
theorem State.exists_page_of_walk {p : List Nat} {t : Word} {i : Nat}
    (walked : walk s.child (3, s.base) p = some (0, t)) (hi : i < 512) :
    ∃ page, CanonicalPage page ∧ path page = p ∧ index page 0 = i := by
  have depth := s.walk_depth walked
  obtain ⟨a, b, c, rfl⟩ : ∃ a b c, p = [a, b, c] := List.length_eq_three.mp (by omega)
  have inside : ∀ n j n', s.child n j = some n' → j < 512 := by
    rintro ⟨_ | l, t⟩ j n' edge
    · cases edge
    · by_contra outside
      rw [State.child, if_neg fun h => outside h.1] at edge
      cases edge
  obtain ⟨n₁, first, rest⟩ := Option.bind_eq_some_iff.mp walked
  obtain ⟨n₂, second, rest⟩ := Option.bind_eq_some_iff.mp rest
  obtain ⟨n₃, third, -⟩ := Option.bind_eq_some_iff.mp rest
  exact exists_page (inside _ _ _ first) (inside _ _ _ second) (inside _ _ _ third) hi

/-- The entries of level 0 tables are the entries of pages. -/
theorem State.exists_entryOf {t : Word} {i : Nat} (reached : s.Reachable (0, t)) (hi : i < 512) :
    ∃ page, s.entryOf page = s.entry t i := by
  obtain ⟨p, walked⟩ := reached
  obtain ⟨page, -, samePath, sameIndex⟩ := s.exists_page_of_walk walked hi
  refine ⟨page, ?_⟩
  have leaf : s.leaf page = some (0, t) := by
    rw [State.leaf, samePath]
    exact walked
  rw [State.entryOf_of_leaf leaf, sameIndex]

theorem Wf.writeXorExecute (wf : Wf y s level) :
    WriteXorExecute s ↔ ∀ page, Sealed (s.entryOf page) := by
  constructor
  · intro all page
    cases reached : s.leaf page with
    | none =>
        rw [State.entryOf_of_missing reached]
        decide
    | some n =>
        obtain ⟨l, t⟩ := n
        obtain ⟨rfl, -⟩ := wf.tree.leaf_level reached
        rw [State.entryOf_of_leaf reached]
        exact all t _ ⟨path page, reached⟩ (index_lt page 0)
  · intro all t i reached hi
    obtain ⟨page, eq⟩ := State.exists_entryOf reached hi
    rw [← eq]
    exact all page

theorem and_twoPow_ne_zero (w : Word) {i : Nat} (hi : i < 64) :
    w &&& BitVec.twoPow 64 i ≠ 0#64 ↔ w.getLsbD i = true := by
  have nonzero : BitVec.twoPow 64 i ≠ 0#64 := by
    intro zero
    have bit := congrArg (fun w => BitVec.getLsbD w i) zero
    simp [hi] at bit
  rw [BitVec.and_twoPow]
  cases w.getLsbD i with
  | false => simp
  | true => simp [nonzero]

theorem present_iff (w : Word) : w &&& PRESENT ≠ 0#64 ↔ w.getLsbD 0 = true := by
  rw [show PRESENT = BitVec.twoPow 64 0 by decide]
  exact and_twoPow_ne_zero w (by decide)

theorem rw_iff (w : Word) : w &&& RW ≠ 0#64 ↔ w.getLsbD 1 = true := by
  rw [show RW = BitVec.twoPow 64 1 by decide]
  exact and_twoPow_ne_zero w (by decide)

theorem xd_iff (w : Word) : w &&& XD ≠ 0#64 ↔ w.getLsbD 63 = true := by
  rw [show XD = BitVec.twoPow 64 63 by decide]
  exact and_twoPow_ne_zero w (by decide)

theorem sealed_iff (w : Word) :
    Sealed w ↔ (w.getLsbD 0 = true → w.getLsbD 1 = true → w.getLsbD 63 = true) := by
  rw [Sealed, present_iff, rw_iff, xd_iff]

/-- An entry that is not executable, whatever else is set. -/
theorem sealed_or_xd {w attrs : Word} (xd : attrs.getLsbD 63 = true) : Sealed (w ||| attrs) := by
  rw [sealed_iff, BitVec.getLsbD_or (i := 63), xd, Bool.or_true]
  exact fun _ _ => rfl

/-- An entry that is not writable, whatever else is set. -/
theorem sealed_and_not_rw {w attrs : Word} (rw_ : attrs.getLsbD 1 = true) :
    Sealed (w &&& ~~~ attrs) := by
  rw [sealed_iff, BitVec.getLsbD_and (i := 1), BitVec.getLsbD_not, rw_]
  simp

/-- The loops of `enable_kernel_page_protection` keep every entry sealed. -/
theorem edits_sealed (w : Word) :
    Sealed (Region.text.edit w) ∧ Sealed (Region.rodata.edit w) ∧ Sealed (Region.data.edit w) ∧
      Sealed (Region.bss.edit w) ∧ Sealed (Region.stack.edit w) ∧ Sealed (Region.guard.edit w) := by
  refine ⟨sealed_and_not_rw (by decide), sealed_and_not_rw (by decide), sealed_or_xd (by decide),
    sealed_or_xd (by decide), sealed_or_xd (by decide), ?_⟩
  rw [sealed_iff]
  show (w &&& ~~~ PRESENT).getLsbD 0 = true → _
  rw [BitVec.getLsbD_and, BitVec.getLsbD_not]
  simp [PRESENT]

/-- After the kernel's pages are protected, the tables are well formed, no dynamic tables
are in use, and no page is both writable and executable. -/
theorem boot_spec {z : Sections} {kernelStackBase : Word} {memory : Word → Word}
    (done : boot y.toSymbols z kernelStackBase memory = .ok s) :
    ∃ level, Wf y s level ∧ s.dynamicTables = 0#64 ∧ ∀ page, Sealed (s.entryOf page) := by
  obtain ⟨level, wf, leaves⟩ := earlyInit_leaves y memory (P := Sealed) (by decide)
    fun i _ => by
      rw [BitVec.or_assoc]
      exact sealed_or_xd (by decide)
  have initial : ∀ page, Sealed ((earlyInit y.toSymbols (image y.toSymbols memory)).entryOf page) := by
    intro page
    cases reached : (earlyInit y.toSymbols (image y.toSymbols memory)).leaf page with
    | none =>
        rw [State.entryOf_of_missing reached]
        decide
    | some n =>
        obtain ⟨l, t⟩ := n
        rw [State.entryOf_of_leaf reached]
        exact leaves t _ (wf.tree.leaf_level reached).2 (index_lt page 0)
  have none_ := (earlyInit_pools y.toSymbols (image y.toSymbols memory)).2.1
  unfold boot enableKernelPageProtection at done
  obtain ⟨s₁, text, done⟩ := bind_eq_ok done
  obtain ⟨wf₁, pool₁, sealed₁⟩ := wf.regionPages (fun w _ => (edits_sealed w).1) initial text
  obtain ⟨s₂, rodata, done⟩ := bind_eq_ok done
  obtain ⟨wf₂, pool₂, sealed₂⟩ := wf₁.regionPages (fun w _ => (edits_sealed w).2.1) sealed₁ rodata
  obtain ⟨s₃, data, done⟩ := bind_eq_ok done
  obtain ⟨wf₃, pool₃, sealed₃⟩ := wf₂.regionPages (fun w _ => (edits_sealed w).2.2.1) sealed₂ data
  obtain ⟨s₄, bss, done⟩ := bind_eq_ok done
  obtain ⟨wf₄, pool₄, sealed₄⟩ := wf₃.regionPages (fun w _ => (edits_sealed w).2.2.2.1) sealed₃ bss
  obtain ⟨_, -, done⟩ := bind_eq_ok done
  obtain ⟨s₅, stack, done⟩ := bind_eq_ok done
  obtain ⟨wf₅, pool₅, sealed₅⟩ :=
    wf₄.regionPages (fun w _ => (edits_sealed w).2.2.2.2.1) sealed₄ stack
  obtain ⟨s₆, guard, done⟩ := bind_eq_ok done
  obtain ⟨wf₆, pool₆, sealed₆⟩ :=
    wf₅.regionPage_entries (fun w _ => (edits_sealed w).2.2.2.2.2) sealed₅ guard
  -- the addresses that are printed
  iterate 5 obtain ⟨_, -, done⟩ := bind_eq_ok done
  cases done
  refine ⟨level, wf₆, ?_, sealed₆⟩
  rw [pool₆, pool₅, pool₄, pool₃, pool₂, pool₁, none_]
  rfl

end Sealing

/-! ## Mapping with the attributes by default -/

section Keeping

variable {y : Layout} {s s' : State} {level : Word → Option Nat}

/-- Every entry is that of a canonical page. -/
theorem exists_canonicalPage (page : Word) :
    ∃ page', CanonicalPage page' ∧ ∀ s : State, s.entryOf page' = s.entryOf page := by
  obtain ⟨page', canonical, samePath, sameIndex⟩ :=
    exists_page (index_lt page 3) (index_lt page 2) (index_lt page 1) (index_lt page 0)
  refine ⟨page', canonical, fun s => ?_⟩
  unfold State.entryOf State.leaf
  rw [samePath, sameIndex]
  rfl

theorem entryOf_forall {P : Word → Prop} (all : ∀ page, CanonicalPage page → P (s.entryOf page)) :
    ∀ page, P (s.entryOf page) := by
  intro page
  obtain ⟨page', canonical, same⟩ := exists_canonicalPage page
  rw [← same]
  exact all page' canonical

/-- `map_page` enters one page. -/
theorem Wf.mapPage_entries (wf : Wf y s level) {physical page attrs r : Word}
    (done : Paging.mapPage y.toSymbols physical page attrs s = .ok (r, s')) :
    physical.toNat % PAGE_SIZE = 0 ∧ ∃ level', Wf y s' level' ∧ ∀ page',
      s'.entryOf page' = physical ||| attrs ||| PRESENT ∨ s'.entryOf page' = s.entryOf page' := by
  obtain ⟨_, -, done⟩ := bind_eq_ok done
  obtain ⟨⟨it, s₁⟩, got, done⟩ := bind_eq_ok done
  dsimp only at done
  obtain ⟨level₁, wf₁, grows, route⟩ := wf.get_route page got
  obtain ⟨aligned, -, -⟩ := mapPageAt_ok done
  rw [wf₁.mapPageAt route.cursor route.leaf aligned] at done
  split at done
  · cases done
  · obtain ⟨-, rfl⟩ := Prod.mk.inj (Except.ok.inj done)
    have used := (wf₁.tree.leaf_level route.leaf).2
    refine ⟨aligned, level₁, wf₁.setLeaf used (index_lt page 0), fun page' => ?_⟩
    rcases wf₁.tree.entryOf_setLeaf_or used (index_lt page 0) page' with new | old
    · exact Or.inl new
    · rw [old, grows.entries]
      exact Or.inr rfl

/-- An `unmap_page` that completes has cleared a bit of the entry of the page. -/
theorem Wf.unmapPage_ok (wf : Wf y s level) {page : Word}
    (done : Paging.unmapPage page s = .ok s') :
    ∃ t, level t = some 0 ∧
      s' = s.store (slot t (index page 0)) (s.entry t (index page 0) &&& ~~~ PRESENT) := by
  obtain ⟨_, -, done⟩ := bind_eq_ok done
  obtain ⟨it, found, done⟩ := bind_eq_ok done
  obtain ⟨it', result, outcome⟩ := find_spec wf.tree page
  obtain rfl : it' = it := Except.ok.inj (result.symm.trans found)
  rcases outcome with ⟨t, reached, cursor⟩ | ⟨-, rfl⟩
  · have used := (wf.tree.leaf_level reached).2
    have ptr := wf.tree.pointer used
    split at done
    · cases done
    · obtain ⟨present, -, done⟩ := bind_eq_ok done
      split at done
      · cases done
      · rw [cursor.read ptr (by omega), ok_bind, cursor.write ptr (by omega)] at done
        exact ⟨t, used, (Except.ok.inj done).symm⟩
  · rw [if_pos (by simp [Iterator.same])] at done
    cases done

/-- `unmap_page` changes one entry to one that is not present. -/
theorem Wf.unmapPage_entries (wf : Wf y s level) {page : Word}
    (done : Paging.unmapPage page s = .ok s') :
    Wf y s' level ∧ ∀ page', s'.entryOf page' &&& PRESENT = 0#64 ∨
      s'.entryOf page' = s.entryOf page' := by
  obtain ⟨t, used, rfl⟩ := wf.unmapPage_ok done
  refine ⟨wf.setLeaf used (index_lt page 0), fun page' => ?_⟩
  rcases wf.tree.entryOf_setLeaf_or used (index_lt page 0) page' with new | old
  · rw [new]
    exact Or.inl (unmapped_absent _)
  · exact Or.inr old

theorem sealed_of_absent {w : Word} (absent : w &&& PRESENT = 0#64) : Sealed w :=
  fun present => absurd absent present

/-- Entries that are mapped with the attributes by default are not executable. -/
theorem sealed_default (physical : Word) : Sealed (physical ||| DEFAULT_ATTRIBUTES ||| PRESENT) := by
  rw [BitVec.or_assoc]
  exact sealed_or_xd (by decide)

/-- Mapping a range with the attributes by default keeps all entries sealed. -/
theorem Maps.sealed {p v : Word} {count : Nat} (maps : Maps p v DEFAULT_ATTRIBUTES count s s')
    (all : ∀ page, Sealed (s.entryOf page)) : ∀ page, Sealed (s'.entryOf page) := by
  refine entryOf_forall fun page canonical => ?_
  by_cases mapped : ∃ j, j < count ∧ page = pageAt v j
  · obtain ⟨j, hj, rfl⟩ := mapped
    rw [maps.mapped j hj]
    exact sealed_default _
  · rw [maps.others page canonical fun j hj same => mapped ⟨j, hj, same⟩]
    exact all page

end Keeping

end Tyleros.Paging
