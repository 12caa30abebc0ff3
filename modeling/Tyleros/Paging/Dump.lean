import Tyleros.Paging.PageByPage
import Tyleros.Paging.RoundTrip

/-!
# The dump of the page tables

`dump_to_file` walks the four levels of the tables and prints a line for every present
entry of level 0. `find` reaches a table through the kernel's identity map, at its
physical address plus `KERNEL_VMA_OFFSET`; the dump uses the physical address itself as a
pointer, so that each load goes through the page tables at that address (`State.load`).
And it extends addresses from 42 bits.

The dump agrees with `find` just if every table it reads is mapped where it looks for it
and no page beyond 42 bits is present (`Wf.dumpAgrees`).
-/

namespace Tyleros.Paging

open Tyleros.Lib

/-! ## Loads through the page tables -/

/-- The page at `pointer` is present and its physical page is `physical`. -/
structure State.MappedAt (s : State) (pointer physical : Word) : Prop where
  canonical : CanonicalPage pointer
  present : s.entryOf pointer &&& PRESENT ≠ 0#64
  address : s.entryOf pointer &&& ADDRESS_MASK = physical

/-- The physical address of a virtual address: the processor translates the page and takes a
page fault if it is not present. -/
def State.translate (s : State) (a : Word) : Except Stop Word :=
  let page := a &&& - BitVec.ofNat 64 PAGE_SIZE
  if 2 ^ 47 ≤ page.toNat ∧ page.toNat < 2 ^ 64 - 2 ^ 47 then
    .error (.fault "general protection exception")
  else if s.entryOf page &&& PRESENT = 0#64 then .error (.fault "page fault")
  else .ok ((s.entryOf page &&& ADDRESS_MASK) + (a - page))

/-- The load of a word at a virtual address. The word at physical address `q` is the one
`memory` has at `q + KERNEL_VMA_OFFSET`. -/
def State.load (s : State) (a : Word) : Except Stop Word := do
  let q ← s.translate a
  return s.memory (q + VMA_OFFSET)

/-! ## `dump_to_file` -/

/-- A line "Virtual 0x%p -> Physical 0x%p (%s%s)\n". -/
structure DumpLine where
  virtualAddr : Word
  physicalAddr : Word
  rwFlags : String
  xFlags : String

/-- A table that is dereferenced at `pointer` and lies at physical address `physical`. -/
structure TableAccess where
  pointer : Word
  physical : Word

/-- What the dump prints, and the tables it dereferences. -/
structure Dump where
  lines : List DumpLine
  accesses : List TableAccess

/-- `if ((entry & attributes::PRESENT) == 0) continue;`, and else the body of the loop. -/
def dumpEntry (body : Nat → Word → Except Stop Dump) (i : Nat) (entry : Word) : Except Stop Dump :=
  if entry &&& PRESENT = 0#64 then .ok ⟨[], []⟩ else body i entry

/-- One loop of `dump_to_file` over entries of the table at `pointer`. -/
def dumpEntries (s : State) (pointer : Word) (body : Nat → Word → Except Stop Dump) :
    List Nat → Except Stop Dump
  | [] => .ok ⟨[], []⟩
  | i :: rest => do
    let entry ← s.load (slot pointer i)
    let here ← dumpEntry body i entry
    let others ← dumpEntries s pointer body rest
    return ⟨here.lines ++ others.lines, here.accesses ++ others.accesses⟩

/-- The loop over all entries of a table. -/
def dumpTable (s : State) (table : TableAccess) (body : Nat → Word → Except Stop Dump) :
    Except Stop Dump := do
  let dump ← dumpEntries s table.pointer body (List.range NUM_PAGE_TABLE_ENTRIES)
  return ⟨dump.lines, table :: dump.accesses⟩

/-- `(page_table *)(entry & ~PREFIX_MASK)`: the physical address, used as a pointer. -/
def tableOf (entry : Word) : TableAccess := ⟨entry &&& ~~~ PREFIX_MASK, entry &&& ~~~ PREFIX_MASK⟩

/-- The address that is printed for four indices, a sign extension from 42 bits. -/
def dumpAddress (i j k l : Nat) : Word :=
  let address := BitVec.ofNat 64 l <<< 12 ||| BitVec.ofNat 64 k <<< 21 |||
    BitVec.ofNat 64 j <<< 30 ||| BitVec.ofNat 64 i <<< 39
  (address <<< 22).sshiftRight 22

def dumpLine (i j k l : Nat) (entry : Word) : DumpLine where
  virtualAddr := dumpAddress i j k l
  physicalAddr := entry &&& ADDRESS_MASK
  rwFlags := if entry &&& RW ≠ 0#64 then "rw" else "r"
  xFlags := if entry &&& XD ≠ 0#64 then "" else "x"

/-- `dump_to_file`. -/
def State.dumpToFile (s : State) : Except Stop Dump :=
  dumpTable s ⟨s.base, s.base - VMA_OFFSET⟩ fun i pml4Entry =>
    dumpTable s (tableOf pml4Entry) fun j pml3Entry =>
      dumpTable s (tableOf pml3Entry) fun k pml2Entry =>
        dumpTable s (tableOf pml2Entry) fun l pml1Entry =>
          .ok ⟨[dumpLine i j k l pml1Entry], []⟩

/-- The loops from level `n` down; `above` has the indices of the loops outside. -/
def dumpFrom (s : State) : Nat → TableAccess → List Nat → Except Stop Dump
  | 0, table, above => dumpTable s table fun l entry =>
      .ok ⟨[dumpLine (above.getD 0 0) (above.getD 1 0) (above.getD 2 0) l entry], []⟩
  | n + 1, table, above => dumpTable s table fun i entry =>
      dumpFrom s n (tableOf entry) (above ++ [i])

theorem State.dumpToFile_eq (s : State) :
    s.dumpToFile = dumpFrom s 3 ⟨s.base, s.base - VMA_OFFSET⟩ [] := rfl

/-! ## The loops -/

section Loops

variable {s : State} {pointer : Word} {body : Nat → Word → Except Stop Dump} {is : List Nat}
  {entry : Nat → Word} {d : Dump}

/-- A loop completes when all loads and bodies do, and collects what the bodies print. -/
theorem dumpEntries_ok (body : Nat → Word → Except Stop Dump) {part : Nat → Dump}
    (reads : ∀ i ∈ is, s.load (slot pointer i) = .ok (entry i))
    (bodies : ∀ i ∈ is, entry i &&& PRESENT ≠ 0#64 → body i (entry i) = .ok (part i)) :
    ∃ d, dumpEntries s pointer body is = .ok d ∧
      (∀ line, line ∈ d.lines ↔ ∃ i ∈ is, entry i &&& PRESENT ≠ 0#64 ∧ line ∈ (part i).lines) ∧
      ∀ a, a ∈ d.accesses ↔ ∃ i ∈ is, entry i &&& PRESENT ≠ 0#64 ∧ a ∈ (part i).accesses := by
  induction is with
  | nil => exact ⟨⟨[], []⟩, rfl, by simp, by simp⟩
  | cons i is ih =>
      obtain ⟨readHere, readRest⟩ := List.forall_mem_cons.mp reads
      obtain ⟨bodyHere, bodyRest⟩ := List.forall_mem_cons.mp bodies
      obtain ⟨d, done, lines, accesses⟩ := ih readRest bodyRest
      rw [dumpEntries, readHere, ok_bind, dumpEntry]
      by_cases absent : entry i &&& PRESENT = 0#64
      · refine ⟨⟨[] ++ d.lines, [] ++ d.accesses⟩, ?_, ?_, ?_⟩
        · rw [if_pos absent, done]
          rfl
        · intro line
          simp [lines, absent]
        · intro a
          simp [accesses, absent]
      · refine ⟨⟨(part i).lines ++ d.lines, (part i).accesses ++ d.accesses⟩, ?_, ?_, ?_⟩
        · rw [if_neg absent, bodyHere absent, done]
          rfl
        · intro line
          simp [lines, absent]
        · intro a
          simp [accesses, absent]

/-- In a loop that completes each present entry has had its body run. -/
theorem dumpEntries_inv (done : dumpEntries s pointer body is = .ok d) {i : Nat} (mem : i ∈ is) :
    ∃ w, s.load (slot pointer i) = .ok w ∧ (w &&& PRESENT ≠ 0#64 →
      ∃ d', body i w = .ok d' ∧ ∀ a ∈ d'.accesses, a ∈ d.accesses) := by
  induction is generalizing d with
  | nil => cases mem
  | cons first is ih =>
      obtain ⟨w, read, done⟩ := bind_eq_ok done
      obtain ⟨here, body_, done⟩ := bind_eq_ok done
      obtain ⟨others, rest, done⟩ := bind_eq_ok done
      cases done
      rcases List.mem_cons.mp mem with rfl | later
      · refine ⟨w, read, fun present => ⟨here, ?_, fun a => List.mem_append_left _⟩⟩
        rwa [dumpEntry, if_neg present] at body_
      · obtain ⟨w', read', inside⟩ := ih rest later
        refine ⟨w', read', fun present => ?_⟩
        obtain ⟨d', ran, sub⟩ := inside present
        exact ⟨d', ran, fun a inD => List.mem_append_right _ (sub a inD)⟩

end Loops

section Dump

variable {y : Layout} {s : State} {level : Word → Option Nat} {fresh : Set Word} {t pointer : Word}

/-- Where a page is mapped its addresses are translated. -/
theorem State.MappedAt.translate {physical : Word} (mapped : s.MappedAt pointer physical)
    {offset : Nat} (inPage : offset < PAGE_SIZE) :
    s.translate (pointer + BitVec.ofNat 64 offset) = .ok (physical + BitVec.ofNat 64 offset) := by
  have page := page_of_offset mapped.canonical.aligned inPage
  have rest : pointer + BitVec.ofNat 64 offset - pointer = BitVec.ofNat 64 offset := by
    rw [BitVec.add_comm, BitVec.add_sub_cancel]
  have canonical := mapped.canonical.canonical
  unfold State.translate
  dsimp only
  rw [page, if_neg (by omega), if_neg mapped.present, mapped.address, rest]

/-- A table at its physical address. -/
theorem slot_physical (t : Word) (i : Nat) :
    t - VMA_OFFSET + BitVec.ofNat 64 (8 * i) + VMA_OFFSET = slot t i := by
  rw [slot, BitVec.add_assoc, BitVec.add_comm (BitVec.ofNat 64 (8 * i)), ← BitVec.add_assoc,
    BitVec.sub_add_cancel]

/-- Where a table is mapped its entries are found. -/
theorem State.MappedAt.load (mapped : s.MappedAt pointer (t - VMA_OFFSET)) {i : Nat} (hi : i < 512) :
    s.load (slot pointer i) = .ok (s.entry t i) := by
  have inPage : 8 * i < PAGE_SIZE := by
    unfold PAGE_SIZE
    omega
  rw [State.load, slot, mapped.translate inPage, ok_bind, slot_physical]
  rfl

/-- Tables below `t` are mapped at their physical addresses. -/
def State.MappedBelow (s : State) (n : Nat) (t : Word) : Prop :=
  ∀ p m c, p ≠ [] → walk s.child (n, t) p = some (m, c) →
    s.MappedAt (c - VMA_OFFSET) (c - VMA_OFFSET)

theorem State.MappedBelow.child {n m i : Nat} {c : Word} (below : s.MappedBelow n t)
    (edge : s.child (n, t) i = some (m, c)) :
    s.MappedAt (c - VMA_OFFSET) (c - VMA_OFFSET) ∧ s.MappedBelow m c := by
  have through : ∀ p, walk s.child (n, t) (i :: p) = walk s.child (m, c) p := by
    intro p
    rw [walk, edge, Option.bind_some]
  refine ⟨below [i] m c (List.cons_ne_nil i []) (through []), fun p m' c' _ walked => ?_⟩
  exact below (i :: p) m' c' (List.cons_ne_nil i p) ((through p).trans walked)

/-- The loop over a table that is mapped: what its bodies print and access. -/
theorem dumpTable_ok (mapped : s.MappedAt pointer (t - VMA_OFFSET))
    (body : Nat → Word → Except Stop Dump) {part : Nat → Dump}
    (bodies : ∀ i, i < 512 → s.entry t i &&& PRESENT ≠ 0#64 → body i (s.entry t i) = .ok (part i)) :
    ∃ d, dumpTable s ⟨pointer, t - VMA_OFFSET⟩ body = .ok d ∧
      (∀ line, line ∈ d.lines ↔
        ∃ i, i < 512 ∧ s.entry t i &&& PRESENT ≠ 0#64 ∧ line ∈ (part i).lines) ∧
      ∀ a, a ∈ d.accesses ↔ a = ⟨pointer, t - VMA_OFFSET⟩ ∨
        ∃ i, i < 512 ∧ s.entry t i &&& PRESENT ≠ 0#64 ∧ a ∈ (part i).accesses := by
  have reads : ∀ i ∈ List.range NUM_PAGE_TABLE_ENTRIES, s.load (slot pointer i) = .ok (s.entry t i) :=
    fun i mem => mapped.load (List.mem_range.mp mem)
  obtain ⟨d, done, lines, accesses⟩ := dumpEntries_ok body reads
    fun i mem present => bodies i (List.mem_range.mp mem) present
  refine ⟨⟨d.lines, ⟨pointer, t - VMA_OFFSET⟩ :: d.accesses⟩, ?_, fun line => ?_, fun a => ?_⟩
  · rw [dumpTable, done]
    rfl
  · rw [lines]
    simp only [List.mem_range, NUM_PAGE_TABLE_ENTRIES]
  · rw [List.mem_cons, accesses]
    simp only [List.mem_range, NUM_PAGE_TABLE_ENTRIES]

/-- Where the tables are mapped the loops print the entries of level 0 they can reach. -/
theorem Tree.dumpFrom_ok (tree : Tree s level fresh) {n : Nat} (used : level t = some n)
    (mapped : s.MappedAt pointer (t - VMA_OFFSET)) (below : s.MappedBelow n t) (above : List Nat) :
    ∃ d, dumpFrom s n ⟨pointer, t - VMA_OFFSET⟩ above = .ok d ∧
      (∀ line, line ∈ d.lines ↔ ∃ p u i, walk s.child (n, t) p = some (0, u) ∧ i < 512 ∧
        s.entry u i &&& PRESENT ≠ 0#64 ∧ line = dumpLine ((above ++ p).getD 0 0)
          ((above ++ p).getD 1 0) ((above ++ p).getD 2 0) i (s.entry u i)) ∧
      ∀ a ∈ d.accesses, s.MappedAt a.pointer a.physical := by
  induction n generalizing t pointer above with
  | zero =>
      obtain ⟨d, done, lines, accesses⟩ := dumpTable_ok mapped (fun l entry =>
          .ok ⟨[dumpLine (above.getD 0 0) (above.getD 1 0) (above.getD 2 0) l entry], []⟩)
        fun i _ _ => rfl
      refine ⟨d, done, fun line => ?_, fun a mem => ?_⟩
      · rw [lines]
        constructor
        · rintro ⟨i, hi, present, mem⟩
          refine ⟨[], t, i, rfl, hi, present, ?_⟩
          rw [List.append_nil]
          exact List.mem_singleton.mp mem
        · rintro ⟨p, u, i, walked, hi, present, rfl⟩
          cases p with
          | nil =>
              cases walked
              rw [List.append_nil]
              exact ⟨i, hi, present, List.mem_singleton.mpr rfl⟩
          | cons j p => cases walked
      · rcases (accesses a).mp mem with rfl | ⟨i, -, -, mem⟩
        · exact mapped
        · cases mem
  | succ n ih =>
      -- what the loops inside print, for each table below
      have bodies : ∀ i, ∃ part : Dump, i < 512 → s.entry t i &&& PRESENT ≠ 0#64 →
          dumpFrom s n (tableOf (s.entry t i)) (above ++ [i]) = .ok part ∧
          (∀ line, line ∈ part.lines ↔ ∃ p u l, walk s.child (n + 1, t) (i :: p) = some (0, u) ∧
            l < 512 ∧ s.entry u l &&& PRESENT ≠ 0#64 ∧ line = dumpLine ((above ++ i :: p).getD 0 0)
              ((above ++ i :: p).getD 1 0) ((above ++ i :: p).getD 2 0) l (s.entry u l)) ∧
          ∀ a ∈ part.accesses, s.MappedAt a.pointer a.physical := by
        intro i
        by_cases there : i < 512 ∧ s.entry t i &&& PRESENT ≠ 0#64
        · obtain ⟨hi, present⟩ := there
          rcases tree.child_eq used hi with ⟨zero, -⟩ | ⟨c, levelC, refers, edge⟩
          · rw [zero] at present
            exact absurd rfl present
          · have pointerC : tableOf (s.entry t i) = ⟨c - VMA_OFFSET, c - VMA_OFFSET⟩ := by
              rw [tableOf, refers, tableEntry_masked (tree.pointer levelC)]
            obtain ⟨mappedC, belowC⟩ := below.child edge
            obtain ⟨part, done, lines, accesses⟩ := ih levelC mappedC belowC (above ++ [i])
            refine ⟨part, fun _ _ => ⟨?_, ?_, accesses⟩⟩
            · rw [pointerC]
              exact done
            · intro line
              rw [lines]
              simp only [List.append_assoc, List.singleton_append, walk, edge, Option.bind_some]
        · exact ⟨⟨[], []⟩, fun hi present => absurd ⟨hi, present⟩ there⟩
      choose part parts using bodies
      obtain ⟨d, done, lines, accesses⟩ := dumpTable_ok mapped (fun i entry =>
          dumpFrom s n (tableOf entry) (above ++ [i]))
        fun i hi present => (parts i hi present).1
      refine ⟨d, done, fun line => ?_, fun a mem => ?_⟩
      · rw [lines]
        constructor
        · rintro ⟨i, hi, present, mem⟩
          obtain ⟨p, u, l, found⟩ := ((parts i hi present).2.1 line).mp mem
          exact ⟨i :: p, u, l, found⟩
        · rintro ⟨p, u, l, walked, rest⟩
          cases p with
          | nil => cases walked
          | cons i p =>
              obtain ⟨⟨m, c⟩, edge, -⟩ := Option.bind_eq_some_iff.mp walked
              obtain ⟨hi, -, refers, -⟩ := tree.entry_of_child used edge
              have present : s.entry t i &&& PRESENT ≠ 0#64 := by
                rw [refers]
                exact tableEntry_present c
              exact ⟨i, hi, present, ((parts i hi present).2.1 line).mpr ⟨p, u, l, walked, rest⟩⟩
      · rcases (accesses a).mp mem with rfl | ⟨i, hi, present, mem⟩
        · exact mapped
        · exact (parts i hi present).2.2 a mem

/-- Loops that complete with all accesses mapped have accessed every table below. -/
theorem Tree.dumpFrom_mapped (tree : Tree s level fresh) {n : Nat} (used : level t = some n)
    {above : List Nat} {d : Dump} (done : dumpFrom s n ⟨pointer, t - VMA_OFFSET⟩ above = .ok d)
    (all : ∀ a ∈ d.accesses, s.MappedAt a.pointer a.physical) :
    s.MappedAt pointer (t - VMA_OFFSET) ∧ s.MappedBelow n t := by
  induction n generalizing t pointer above d with
  | zero =>
      obtain ⟨d', -, done⟩ := bind_eq_ok done
      cases done
      refine ⟨all _ List.mem_cons_self, fun p m c nonempty walked => ?_⟩
      cases p with
      | nil => exact absurd rfl nonempty
      | cons i p => cases walked
  | succ n ih =>
      obtain ⟨d', looped, done⟩ := bind_eq_ok done
      cases done
      have mapped := all _ List.mem_cons_self
      refine ⟨mapped, fun p m c nonempty walked => ?_⟩
      cases p with
      | nil => exact absurd rfl nonempty
      | cons i p =>
          obtain ⟨⟨n', b⟩, edge, rest⟩ := Option.bind_eq_some_iff.mp walked
          obtain ⟨hi, same, refers, levelB⟩ := tree.entry_of_child used edge
          obtain rfl : n' = n := (Nat.succ.inj same).symm
          obtain ⟨w, read, inside⟩ := dumpEntries_inv looped (List.mem_range.mpr hi)
          rw [mapped.load hi, refers] at read
          obtain rfl := Except.ok.inj read
          obtain ⟨part, ran, sub⟩ := inside (tableEntry_present b)
          rw [tableOf, tableEntry_masked (tree.pointer levelB)] at ran
          obtain ⟨mappedB, belowB⟩ := ih levelB ran fun a mem => all a (List.mem_cons_of_mem _ (sub a mem))
          cases p with
          | nil =>
              cases rest
              exact mappedB
          | cons j p => exact belowB (j :: p) m c (List.cons_ne_nil j p) rest

/-! ## What `find` finds -/

/-- `find(v)` is a present entry of level 1 with `physical_page_address() == p`. -/
def State.Finds (s : State) (v p : Word) : Prop :=
  ∃ it, find v s = .ok it ∧ it.same Iterator.atEnd = false ∧ it.present s = .ok true ∧
    it.physicalPageAddress s = .ok p

theorem Tree.finds_iff (tree : Tree s level fresh) (v p : Word) :
    s.Finds v p ↔ s.entryOf v &&& PRESENT ≠ 0#64 ∧ p = s.entryOf v &&& ADDRESS_MASK := by
  obtain ⟨it, result, ⟨t, found, cursor⟩ | ⟨missing, rfl⟩⟩ := find_spec tree v
  · have ptr := tree.pointer (tree.leaf_level found).2
    have notEnd : it.same Iterator.atEnd = false := by
      simp [Iterator.same, Iterator.atEnd, cursor.level]
    have present : it.present s = .ok (s.entryOf v &&& PRESENT != 0#64) := by
      rw [cursor.present ptr (by omega), State.entryOf_of_leaf found]
    have address : it.physicalPageAddress s = .ok (s.entryOf v &&& ADDRESS_MASK) := by
      unfold Iterator.physicalPageAddress
      rw [show (it.level == 1) = true by simp [Iterator.level, cursor.level],
        cursor.read ptr (by omega), State.entryOf_of_leaf found]
      rfl
    constructor
    · rintro ⟨it', result', -, isPresent, isAddress⟩
      obtain rfl : it' = it := Except.ok.inj (result'.symm.trans result)
      rw [present] at isPresent
      rw [address] at isAddress
      exact ⟨bne_iff_ne.mp (Except.ok.inj isPresent), (Except.ok.inj isAddress).symm⟩
    · rintro ⟨isPresent, rfl⟩
      refine ⟨it, result, notEnd, ?_, address⟩
      rw [present, bne_iff_ne.mpr isPresent]
  · rw [State.entryOf_of_missing missing]
    constructor
    · rintro ⟨it', result', notEnd, -⟩
      obtain rfl : it' = Iterator.atEnd := Except.ok.inj (result'.symm.trans result)
      simp [Iterator.same] at notEnd
    · rintro ⟨present, -⟩
      exact absurd rfl present

/-! ## The dump and `find` -/

/-- The dump completes, prints just the pairs that `find` has, and dereferences every
table at an address at which it is mapped. -/
def State.DumpAgrees (s : State) : Prop :=
  ∃ d, s.dumpToFile = .ok d ∧
    (∀ v p, (∃ line ∈ d.lines, line.virtualAddr = v ∧ line.physicalAddr = p) ↔
      CanonicalPage v ∧ s.Finds v p) ∧
    ∀ a ∈ d.accesses, s.MappedAt a.pointer a.physical

/-- The root is mapped at its address and every other table in use at its physical
address, and all pages that are present are sign-extended from 42 bits. -/
structure State.Dumpable (s : State) : Prop where
  root : s.MappedAt s.base (s.base - VMA_OFFSET)
  tables : ∀ l t, s.Reachable (l, t) → l ≠ 3 → s.MappedAt (t - VMA_OFFSET) (t - VMA_OFFSET)
  extended : ∀ v, CanonicalPage v → s.entryOf v &&& PRESENT ≠ 0#64 → SignExtended v

theorem dumpAddress_eq (it : Iterator) :
    dumpAddress (it.indices 3) (it.indices 2) (it.indices 1) (it.indices 0) = it.virtualPageAddress := by
  have order : ∀ a b c d : Word, d ||| c ||| b ||| a = a ||| b ||| c ||| d := by
    intro a b c d
    ac_rfl
  unfold dumpAddress Iterator.virtualPageAddress
  rw [order]

theorem dumpAddress_extended (i j k l : Nat) : SignExtended (dumpAddress i j k l) := by
  have known := dumpAddress_eq ⟨fun _ => 0#64, fun n => [l, k, j, i].getD n 0, 0⟩
  rw [show dumpAddress i j k l = _ from known]
  exact virtualPageAddress_extended _

/-- The address that is printed for a page. -/
def printedAddress (v : Word) : Word := dumpAddress (index v 3) (index v 2) (index v 1) (index v 0)

theorem printedAddress_eq (v : Word) :
    printedAddress v = (Iterator.ofAddress 0#64 v).virtualPageAddress := by
  rw [← dumpAddress_eq, printedAddress]
  have indices := (Cursor.ofAddress 0#64 v).indices
  rw [indices 3 (by decide), indices 2 (by decide), indices 1 (by decide), indices 0 (by decide)]

theorem printedAddress_iff {v : Word} (aligned : v.toNat % PAGE_SIZE = 0) :
    printedAddress v = v ↔ SignExtended v := by
  rw [printedAddress_eq]
  exact virtualPageAddress_eq_iff aligned (Cursor.ofAddress 0#64 v).indices

theorem mappedBelow_root :
    s.MappedBelow 3 s.base ↔ ∀ l t, s.Reachable (l, t) → l ≠ 3 →
      s.MappedAt (t - VMA_OFFSET) (t - VMA_OFFSET) := by
  constructor
  · rintro below l t ⟨p, walked⟩ lower
    refine below p l t ?_ walked
    rintro rfl
    cases walked
    exact lower rfl
  · intro all p l t nonempty walked
    have depth := s.walk_depth walked
    have longer := List.length_pos_of_ne_nil nonempty
    exact all l t ⟨p, walked⟩ (by omega)

/-- The level 0 entries that can be reached are the entries of the canonical pages. -/
theorem State.walk_iff_page {P : Nat → Nat → Nat → Nat → Word → Prop} :
    (∃ p u i, walk s.child (3, s.base) p = some (0, u) ∧ i < 512 ∧ s.entry u i &&& PRESENT ≠ 0#64 ∧
        P (p.getD 0 0) (p.getD 1 0) (p.getD 2 0) i (s.entry u i)) ↔
      ∃ v, CanonicalPage v ∧ s.entryOf v &&& PRESENT ≠ 0#64 ∧
        P (index v 3) (index v 2) (index v 1) (index v 0) (s.entryOf v) := by
  constructor
  · rintro ⟨p, u, i, walked, hi, present, holds⟩
    have depth := s.walk_depth walked
    obtain ⟨a, b, c, rfl⟩ : ∃ a b c, p = [a, b, c] := List.length_eq_three.mp (by omega)
    obtain ⟨v, canonical, samePath, sameIndex⟩ := s.exists_page_of_walk walked hi
    have leaf : s.leaf v = some (0, u) := by
      rw [State.leaf, samePath]
      exact walked
    have entry : s.entryOf v = s.entry u i := by rw [State.entryOf_of_leaf leaf, sameIndex]
    simp only [path, List.cons.injEq, and_true] at samePath
    obtain ⟨rfl, rfl, rfl⟩ := samePath
    refine ⟨v, canonical, ?_, ?_⟩
    · rw [entry]
      exact present
    · rw [entry, sameIndex]
      exact holds
  · rintro ⟨v, canonical, present, holds⟩
    cases reached : s.leaf v with
    | none =>
        rw [State.entryOf_of_missing reached] at present
        exact absurd rfl present
    | some n =>
        obtain ⟨l, u⟩ := n
        have entry := State.entryOf_of_leaf reached
        have bottom := s.walk_depth reached
        obtain rfl : l = 0 := by
          simp only [path, List.length_cons, List.length_nil] at bottom
          omega
        rw [entry] at present holds
        exact ⟨path v, u, index v 0, reached, index_lt v 0, present, holds⟩

/-- The dump agrees with `find` just if every table is mapped where the dump looks for it
and no page beyond 42 bits is present. -/
theorem Wf.dumpAgrees (wf : Wf y s level) : s.DumpAgrees ↔ s.Dumpable := by
  constructor
  · rintro ⟨d, done, pairs, all⟩
    rw [State.dumpToFile_eq] at done
    obtain ⟨root, below⟩ := wf.tree.dumpFrom_mapped wf.tree.root done all
    obtain ⟨d', done', lines, -⟩ := wf.tree.dumpFrom_ok wf.tree.root root below []
    obtain rfl : d' = d := Except.ok.inj (done'.symm.trans done)
    refine ⟨root, mappedBelow_root.mp below, fun v canonical present => ?_⟩
    -- the page is found, so it is printed, and what is printed is extended
    have found := (wf.tree.finds_iff v _).mpr ⟨present, rfl⟩
    obtain ⟨line, mem, same, -⟩ := (pairs v _).mpr ⟨canonical, found⟩
    obtain ⟨p, u, i, -, -, -, rfl⟩ := (lines line).mp mem
    rw [← same]
    exact dumpAddress_extended _ _ _ _
  · rintro ⟨root, tables, extended⟩
    obtain ⟨d, done, lines, accesses⟩ := wf.tree.dumpFrom_ok wf.tree.root root
      (mappedBelow_root.mpr tables) []
    refine ⟨d, done, fun v p => ?_, accesses⟩
    have pages := s.walk_iff_page (P := fun i j k l entry =>
      dumpAddress i j k l = v ∧ entry &&& ADDRESS_MASK = p)
    have printed : (∃ line ∈ d.lines, line.virtualAddr = v ∧ line.physicalAddr = p) ↔
        ∃ v', CanonicalPage v' ∧ s.entryOf v' &&& PRESENT ≠ 0#64 ∧ printedAddress v' = v ∧
          s.entryOf v' &&& ADDRESS_MASK = p := by
      refine Iff.trans ?_ pages
      constructor
      · rintro ⟨line, mem, same⟩
        obtain ⟨q, u, i, walked, hi, present, rfl⟩ := (lines line).mp mem
        exact ⟨q, u, i, walked, hi, present, same⟩
      · rintro ⟨q, u, i, walked, hi, present, same⟩
        exact ⟨_, (lines _).mpr ⟨q, u, i, walked, hi, present, rfl⟩, same⟩
    rw [printed, wf.tree.finds_iff]
    constructor
    · rintro ⟨v', canonical, present, rfl, rfl⟩
      rw [(printedAddress_iff canonical.aligned).mpr (extended v' canonical present)]
      exact ⟨canonical, present, rfl⟩
    · rintro ⟨canonical, present, rfl⟩
      exact ⟨v, canonical, present,
        (printedAddress_iff canonical.aligned).mpr (extended v canonical present), rfl⟩

end Dump

end Tyleros.Paging
