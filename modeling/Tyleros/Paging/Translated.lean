import Tyleros.Paging.Dump

/-!
# Accesses through the page tables

The kernel walks its page tables while they translate its own accesses: it reaches every
table at its physical address plus `KERNEL_VMA_OFFSET`. Here the operations of
`paging.h` and `paging.cpp` are executed with each load and each store translated, so that
they take a page fault where the page of a table is not present.

As long as the pages of the tables stay mapped (`Backed`) this changes nothing:
`Backed.step_eq` says that a call does what it does on the tables alone. Calls that leave
the pages of the kernel image and of the dynamic tables mapped keep it so
(`Backed.step`).
-/

namespace Tyleros.Paging

open Tyleros.Lib

/-! ## The operations -/

/-- The store of a word at a virtual address. CR0.WP is clear, so the page need not be
writable. -/
def State.storeWord (s : State) (a value : Word) : Except Stop State := do
  let q ← s.translate a
  return s.store (q + VMA_OFFSET) value

namespace Translated

/-- `*it` as a value. -/
def read (it : Iterator) (s : State) : Except Stop Word := do
  s.load (← it.location)

/-- `*it = value`. -/
def write (it : Iterator) (value : Word) (s : State) : Except Stop State := do
  s.storeWord (← it.location) value

/-- `present()`. -/
def present (it : Iterator) (s : State) : Except Stop Bool := do
  return (← read it s) &&& PRESENT != 0#64

/-- `physical_page_address()`. -/
def physicalPageAddress (it : Iterator) (s : State) : Except Stop Word := do
  kassert (it.level == 1) "can't get physical addr of non level 1 page!"
  return (← read it s) &&& ADDRESS_MASK

/-- `descend()`; `none` if it returns false. -/
def descend (it : Iterator) (s : State) : Except Stop (Option Iterator) := do
  if it.level == 1 || it.indices it.level0 ≥ NUM_PAGE_TABLE_ENTRIES || !it.tableExists then
    return none
  else if !(← present it s) then
    return none
  else
    return some (it.down (((← read it s) &&& ~~~ PREFIX_MASK) + VMA_OFFSET))

/-- `while (cursor.descend()) ;`, where `fuel` is the number of levels below. -/
def descendAll (s : State) : Nat → Iterator → Except Stop Iterator
  | 0, it => .ok it
  | fuel + 1, it => do
    match ← descend it s with
    | none => return it
    | some below => descendAll s fuel below

/-- The part of `allocate_and_descend` that settles `addr`. -/
def tableBelow (y : Symbols) (it : Iterator) (entry : Word) (s : State) :
    Except Stop (Word × State) :=
  let addr := entry &&& ~~~ PREFIX_MASK
  if addr = 0#64 then do
    let (addr, s) ← allocatePageLevel y s
    let s ← write it (addr ||| RW ||| PRESENT) s
    return (addr, s)
  else .ok (addr, s)

/-- `allocate_and_descend(allocate)`. -/
def allocateAndDescend (y : Symbols) (it : Iterator) (s : State) :
    Except Stop (Iterator × State) := do
  kassert (it.level > 1) "can't allocate and descend on level 1 page iterator!"
  kassert (it.indices it.level0 < NUM_PAGE_TABLE_ENTRIES) "can't allocate on end iterator!"
  let entry ← if it.tableExists then read it s else .ok 0#64
  let (addr, s) ← tableBelow y it entry s
  kassert (addr.toNat % PAGE_SIZE == 0) "address isn't page-aligned?"
  return (it.down (addr + VMA_OFFSET), s)

/-- `find(page)`. -/
def find (page : Word) (s : State) : Except Stop Iterator := do
  let cursor ← descendAll s 3 (Iterator.ofAddress s.base page)
  return if cursor.level != 1 then Iterator.atEnd else cursor

/-- The first `n` rounds of the loop in `get`. -/
def getLevels (y : Symbols) : Nat → Iterator → State → Except Stop (Iterator × State)
  | 0, it, s => .ok (it, s)
  | n + 1, it, s => do
    let (it, s) ← getLevels y n it s
    allocateAndDescend y it s

/-- `get(page)`. -/
def get (y : Symbols) (page : Word) (s : State) : Except Stop (Iterator × State) := do
  kassert s.hasAllocator "tried to allocate before table allocator was initialized!"
  let (cursor, s) ← getLevels y 3 (Iterator.ofAddress s.base page) s
  kassert (cursor.level == 1) "didn't find a level 1 page?"
  return (cursor, s)

/-- `map_page(physical_page, it, attrs)`. -/
def mapPageAt (physicalPage : Word) (it : Iterator) (attrs : Word) (s : State) :
    Except Stop (Word × State) := do
  let virtualPage := it.virtualPageAddress
  kassert (virtualPage.toNat % PAGE_SIZE == 0) "virtual address must be page-aligned!"
  kassert (physicalPage.toNat % PAGE_SIZE == 0) "physical address must be page-aligned!"
  kassert (it.level == 1) "iterator must point to a page table entry!"
  kassert (!it.same Iterator.atEnd && it.tableExists) "lookup/allocation failed?"
  if ← present it s then
    .error (.panic "Tried to map already-present page!\nVirtual :%p\nPhysical:%p\nEntry   :%lx\n")
  else
    let s ← write it (physicalPage ||| attrs ||| PRESENT) s
    return (virtualPage, s)

/-- `map_page(physical_page, virtual_page, attrs)`. -/
def mapPage (y : Symbols) (physicalPage virtualPage attrs : Word) (s : State) :
    Except Stop (Word × State) := do
  kassert (virtualPage.toNat % PAGE_SIZE == 0) "virtual address must be page-aligned!"
  let (it, s) ← get y virtualPage s
  mapPageAt physicalPage it attrs s

/-- `unmap_page(virtual_page)`. -/
def unmapPage (virtualPage : Word) (s : State) : Except Stop State := do
  kassert (virtualPage.toNat % PAGE_SIZE == 0) "virtual address should be page-aligned!"
  let entry ← find virtualPage s
  if entry.same Iterator.atEnd || !entry.tableExists then
    .error (.panic "Tried to unmap non-present page\nVirtual:%p")
  else if !(← present entry s) then
    .error (.panic "Tried to unmap non-present page\nVirtual:%p")
  else
    write entry ((← read entry s) &&& ~~~ PRESENT) s

/-- `get_physical_address(virtual_addr)`. -/
def getPhysicalAddress (virtualAddr : Word) (s : State) : Except Stop Word := do
  let pageAddr := virtualAddr &&& - BitVec.ofNat 64 PAGE_SIZE
  let offsetInPage := virtualAddr - pageAddr
  let entry ← find pageAddr s
  kassert (!entry.same Iterator.atEnd) "couldn't find an entry for address!"
  kassert (← present entry s) "entry not found!"
  return (← physicalPageAddress entry s) + offsetInPage

/-- The entry `find` leads to, `none` for `end()`. -/
def pageEntry (page : Word) (s : State) : Except Stop (Option Word) := do
  let it ← find page s
  if it.same Iterator.atEnd then return none else return some (← read it s)

/-- Clear the page at a virtual address. -/
def clearPage (page : Word) (s : State) : Except Stop State := do
  let q ← s.translate page
  return s.clear (q + VMA_OFFSET) PAGE_SIZE

/-- Clear the first `n` pages from a virtual address on. -/
def clearPages (address : Word) : Nat → State → Except Stop State
  | 0, s => .ok s
  | n + 1, s => do
    let s ← clearPages address n s
    clearPage (tableAt address n) s

/-- The end of `finish_init`: the dynamic tables are cleared by `memset` and become the
second pool. -/
def addDynamicTables (virtualAddr : Word) (s : State) : Except Stop State := do
  let s ← clearPages virtualAddr MAX_DYNAMIC_TABLES s
  return { s with dynamicTables := virtualAddr, numDynamicTablesLeft := MAX_DYNAMIC_TABLES }

def step (y : Symbols) (s : State) : Op → Except Stop State
  | .map physicalPage virtualPage attrs => do
    let (_, s) ← mapPage y physicalPage virtualPage attrs s
    return s
  | .unmap virtualPage => unmapPage virtualPage s
  | .addDynamicTables virtualAddr => addDynamicTables virtualAddr s

/-- Runs of `map_page` and `unmap_page`, and of the end of `finish_init`. -/
def machine (y : Symbols) : Machine State Op Stop := ⟨step y⟩

end Translated

/-! ## Tables taken from the pools -/

/-- Every table in use afterwards was in use before or has been taken from the pools. -/
structure Links (y : Symbols) (s s' : State) : Prop where
  base : s'.base = s.base
  pool : s'.pool y ⊆ s.pool y
  walks : ∀ q n, walk s'.child (3, s.base) q = some n →
    walk s.child (3, s.base) q = some n ∨ (n.2 ∈ s.pool y ∧ n.2 ∉ s'.pool y)

theorem Links.refl (y : Symbols) (s : State) : Links y s s := ⟨rfl, Set.Subset.rfl, fun _ _ => Or.inl⟩

theorem Links.trans {y : Symbols} {s s' s'' : State} (first : Links y s s') (second : Links y s' s'') :
    Links y s s'' := by
  refine ⟨second.base.trans first.base, second.pool.trans first.pool, fun q n walked => ?_⟩
  have later := second.walks q n
  rw [first.base] at later
  rcases later walked with before | ⟨taken, gone⟩
  · rcases first.walks q n before with start | ⟨taken, gone⟩
    · exact Or.inl start
    · exact Or.inr ⟨taken, fun still => gone (second.pool still)⟩
  · exact Or.inr ⟨first.pool taken, gone⟩

section Linking

variable {y : Layout} {s s' : State} {level : Word → Option Nat} {page t c : Word} {l i : Nat}

/-- The table below an entry was there, or it is the one taken out of the pools. -/
theorem Wf.belowEntry_taken (wf : Wf y s level)
    (done : Paging.belowEntry y.toSymbols t i s = .ok (c, s')) :
    s' = s ∨ c ∈ s.pool y.toSymbols ∧ s'.pool y.toSymbols = s.pool y.toSymbols \ {c} := by
  obtain ⟨⟨addr, s₁⟩, entered, done⟩ := bind_eq_ok done
  obtain ⟨_, -, done⟩ := bind_eq_ok done
  obtain ⟨rfl, rfl⟩ := Prod.mk.inj (Except.ok.inj done)
  unfold entryAddress at entered
  dsimp only at entered
  split at entered
  · obtain ⟨⟨addr', s₂⟩, allocated, entered⟩ := bind_eq_ok entered
    obtain ⟨rfl, rfl⟩ := Prod.mk.inj (Except.ok.inj entered)
    rcases wf.allocate with ⟨e, stops, -⟩ | ⟨c', m, n, new, result, -, -, -, -, taken⟩
    · rw [stops] at allocated
      cases allocated
    · rw [result] at allocated
      obtain ⟨rfl, rfl⟩ := Prod.mk.inj (Except.ok.inj allocated)
      rw [BitVec.sub_add_cancel]
      exact Or.inr ⟨new, taken⟩
  · obtain ⟨-, rfl⟩ := Prod.mk.inj (Except.ok.inj entered)
    exact Or.inl rfl

theorem Wf.belowEntry_links (wf : Wf y s level) (grows : Grows s s')
    (taken : s' = s ∨ c ∈ s.pool y.toSymbols ∧ s'.pool y.toSymbols = s.pool y.toSymbols \ {c})
    (walks : ∀ q, walk s'.child (3, s.base) q = walk s.child (3, s.base) q ∨
      (walk s.child (3, s.base) q = none ∧ walk s'.child (3, s.base) q = some (l, c))) :
    Links y.toSymbols s s' := by
  rcases taken with rfl | ⟨new, pool⟩
  · exact Links.refl _ _
  · refine ⟨grows.base, ?_, fun q n walked => ?_⟩
    · rw [pool]
      exact Set.sdiff_subset
    · rcases walks q with same | ⟨-, into⟩
      · rw [same] at walked
        exact Or.inl walked
      · rw [into] at walked
        obtain rfl := Option.some.inj walked
        rw [pool]
        exact Or.inr ⟨new, fun mem => mem.2 rfl⟩

theorem Wf.reachFrom_links (wf : Wf y s level) (used : level t = some l)
    (done : Paging.reachFrom y.toSymbols page l t s = .ok s') : Links y.toSymbols s s' := by
  induction l generalizing t s level with
  | zero =>
      cases done
      exact Links.refl _ _
  | succ l ih =>
      rw [Paging.reachFrom] at done
      rcases wf.belowEntry used (index_lt page (l + 1)) with
        ⟨e, stops, -⟩ | ⟨c, there, levelC, -⟩ | ⟨c, s₁, level₁, result, wf₁, grows, levelC, -, -, -, walks⟩
      · rw [stops] at done
        cases done
      · rw [there, ok_bind] at done
        exact ih wf levelC done
      · rw [result, ok_bind] at done
        exact (wf.belowEntry_links grows (wf.belowEntry_taken result) walks).trans
          (ih wf₁ levelC done)

/-- `map_page` only takes tables from the pools. -/
theorem Wf.mapPage_links (wf : Wf y s level) {physical attrs r : Word}
    (aligned : page.toNat % PAGE_SIZE = 0) (aligned' : physical.toNat % PAGE_SIZE = 0)
    (done : Paging.mapPage y.toSymbols physical page attrs s = .ok (r, s')) :
    Links y.toSymbols s s' := by
  have whole := wf.mapPage_reach attrs aligned aligned'
  rw [done] at whole
  rcases wf.reach page with ⟨e, stops, -⟩ | ⟨s₁, level₁, reached, wf₁, -, there⟩
  · rw [stops] at whole
    cases whole
  · obtain ⟨⟨l, t⟩, found⟩ := Option.ne_none_iff_exists'.mp there
    obtain ⟨rfl, used⟩ := wf₁.tree.leaf_level found
    rw [reached, ok_bind, wf₁.mapPage_there found attrs aligned aligned'] at whole
    refine (wf.reachFrom_links wf.tree.root reached).trans ?_
    split at whole
    · cases whole
    · obtain rfl : s' = s₁.store (slot t (index page 0)) (physical ||| attrs ||| PRESENT) :=
        Except.ok.inj whole
      refine ⟨rfl, Set.Subset.rfl, fun q n walked => Or.inl ?_⟩
      rwa [wf₁.tree.walk_setLeaf used (index_lt page 0)] at walked

/-- `unmap_page` changes no walk. -/
theorem Wf.unmapPage_walks (wf : Wf y s level) (done : Paging.unmapPage page s = .ok s') :
    s'.base = s.base ∧ ∀ q, walk s'.child (3, s.base) q = walk s.child (3, s.base) q := by
  obtain ⟨t, used, rfl⟩ := wf.unmapPage_ok done
  exact ⟨rfl, wf.tree.walk_setLeaf used (index_lt page 0)⟩

end Linking

/-! ## The start -/

section Start

variable {y : Layout}

theorem identityEntry_address {i : Nat} (hi : i < 512) :
    identityEntry i &&& PRESENT ≠ 0#64 ∧
      identityEntry i &&& ADDRESS_MASK = BitVec.ofNat 64 (i * PAGE_SIZE) := by
  have address : (BitVec.ofNat 64 (i * PAGE_SIZE)).toNat = i * PAGE_SIZE := by
    rw [BitVec.toNat_ofNat]
    unfold PAGE_SIZE
    omega
  refine ⟨mapped_present _ _, mapped_address ?_ ?_ (by decide)⟩
  · rw [address]
    exact Nat.mul_mod_left i PAGE_SIZE
  · rw [address]
    unfold PAGE_SIZE
    omega

/-- A table of the kernel image is mapped in the kernel and at its physical address. -/
theorem Entries.mappedAt {s : State} (entries : Entries y.toSymbols s) (base : s.base = y.kernelPml4)
    {t : Word} (mem : t ∈ y.tables) :
    s.MappedAt t (t - VMA_OFFSET) ∧ s.MappedAt (t - VMA_OFFSET) (t - VMA_OFFSET) := by
  have aligned := y.aligned t mem
  obtain ⟨lower, upper⟩ := y.inImage t mem
  unfold KERNEL_VMA_START at lower
  unfold KERNEL_VMA_END at upper
  unfold PAGE_SIZE at aligned
  have physical : (t - VMA_OFFSET).toNat = t.toNat - 0xFFFFFFFF80000000 := by
    rw [VMA_OFFSET, KERNEL_VMA_OFFSET]
    bv_omega
  have place : BitVec.ofNat 64 (index t 0 * PAGE_SIZE) = t - VMA_OFFSET := by
    apply BitVec.eq_of_toNat_eq
    rw [physical, index_eq, BitVec.toNat_ofNat, PAGE_SIZE]
    omega
  have sameIndex : index (t - VMA_OFFSET) 0 = index t 0 := by
    rw [index_eq, index_eq, physical]
    omega
  have kernel : path t = [0x1FF, 0x1FE, 0] ∧ 0x100 ≤ index t 0 := by
    simp only [path, index_eq, List.cons.injEq, and_true]
    omega
  have low : path (t - VMA_OFFSET) = [0, 0, 0] ∧ 1 ≤ index (t - VMA_OFFSET) 0 := by
    simp only [path, index_eq, physical, List.cons.injEq, and_true]
    omega
  obtain ⟨present, address⟩ := identityEntry_address (index_lt t 0)
  have kernelEntry : s.entryOf t = identityEntry (index t 0) := by
    rw [entries.entryOf base, startEntry, if_pos kernel]
  have lowEntry : s.entryOf (t - VMA_OFFSET) = identityEntry (index t 0) := by
    rw [entries.entryOf base, startEntry, if_neg, if_pos low, sameIndex]
    rw [low.1]
    exact fun other => absurd other.1 (by decide)
  constructor
  · refine ⟨⟨aligned, by omega⟩, ?_, ?_⟩
    · rw [kernelEntry]
      exact present
    · rw [kernelEntry, address, place]
  · refine ⟨⟨?_, ?_⟩, ?_, ?_⟩
    · rw [physical]
      unfold PAGE_SIZE
      omega
    · rw [physical]
      omega
    · rw [lowEntry]
      exact present
    · rw [lowEntry, address, place]

end Start

/-! ## The pages of the tables -/

/-- A table of the kernel image, or one of the dynamic tables. -/
def State.OwnTable (y : Symbols) (s : State) (t : Word) : Prop :=
  t ∈ y.tables ∨
    s.dynamicTables ≠ 0#64 ∧ ∃ j, j < MAX_DYNAMIC_TABLES ∧ t = tableAt s.dynamicTables j

/-- The tables in use are the kernel's own, and all of these are mapped where the kernel
reaches them. -/
structure Backed (y : Symbols) (s : State) : Prop where
  own : ∀ l t, s.Reachable (l, t) → s.OwnTable y t
  mapped : ∀ t, s.OwnTable y t → s.MappedAt t (t - VMA_OFFSET)

section Accesses

variable {s s' : State} {it : Iterator} {page t : Word} {l i : Nat}

theorem State.MappedAt.congr {pointer physical : Word} (mapped : s.MappedAt pointer physical)
    (same : s'.entryOf pointer = s.entryOf pointer) : s'.MappedAt pointer physical := by
  refine ⟨mapped.canonical, ?_, ?_⟩
  · rw [same]
    exact mapped.present
  · rw [same]
    exact mapped.address

theorem State.MappedAt.storeWord (mapped : s.MappedAt t (t - VMA_OFFSET)) (hi : i < 512) (w : Word) :
    s.storeWord (slot t i) w = .ok (s.store (slot t i) w) := by
  have inPage : 8 * i < PAGE_SIZE := by
    unfold PAGE_SIZE
    omega
  have place := mapped.translate inPage
  rw [State.storeWord, slot, place, ok_bind, slot_physical]
  rfl

theorem Cursor.read_eq (cursor : Cursor it page l t) (ptr : TablePtr t) (hl : l < 4)
    (mapped : s.MappedAt t (t - VMA_OFFSET)) : Translated.read it s = it.read s := by
  rw [Translated.read, cursor.location ptr hl, ok_bind, mapped.load (index_lt page l),
    cursor.read ptr hl]

theorem Cursor.write_eq (cursor : Cursor it page l t) (ptr : TablePtr t) (hl : l < 4)
    (mapped : s.MappedAt t (t - VMA_OFFSET)) (w : Word) :
    Translated.write it w s = it.write w s := by
  rw [Translated.write, cursor.location ptr hl, ok_bind, mapped.storeWord (index_lt page l),
    cursor.write ptr hl]

theorem Cursor.present_eq (cursor : Cursor it page l t) (ptr : TablePtr t) (hl : l < 4)
    (mapped : s.MappedAt t (t - VMA_OFFSET)) : Translated.present it s = it.present s := by
  rw [Translated.present, cursor.read_eq ptr hl mapped, Iterator.present]

end Accesses

section Operations

variable {y : Layout} {s s' : State} {level : Word → Option Nat} {it it' : Iterator}
  {page t : Word} {l : Nat}

theorem Wf.pool_own (wf : Wf y s level) (left : t ∈ s.pool y.toSymbols) : s.OwnTable y.toSymbols t := by
  rcases left with ⟨j, hj, rfl⟩ | ⟨j, hj, rfl⟩
  · exact Or.inl (y.static_mem (Nat.lt_of_lt_of_le hj wf.staticLe))
  · refine Or.inr ⟨fun none_ => ?_, j, Nat.lt_of_lt_of_le hj wf.dynamicLe, rfl⟩
    rw [(wf.noDynamic none_).1] at hj
    exact Nat.not_lt_zero j hj

theorem State.Reachable.root (s : State) : s.Reachable (3, s.base) := ⟨[], rfl⟩

theorem State.Reachable.child {c : Word} {m i : Nat} (reached : s.Reachable (l, t))
    (edge : s.child (l, t) i = some (m, c)) : s.Reachable (m, c) := by
  obtain ⟨p, walked⟩ := reached
  refine ⟨p ++ [i], ?_⟩
  rw [walk_append, walked, Option.bind_some, walk, edge]
  rfl

theorem Backed.table (backed : Backed y.toSymbols s) (reached : s.Reachable (l, t)) :
    s.MappedAt t (t - VMA_OFFSET) :=
  backed.mapped t (backed.own l t reached)

/-- What the processor needs to get to an entry of a table in use. -/
theorem Backed.reached (backed : Backed y.toSymbols s) (wf : Wf y s level)
    (reached : s.Reachable (l, t)) :
    level t = some l ∧ TablePtr t ∧ l < 4 ∧ s.MappedAt t (t - VMA_OFFSET) := by
  have mapped := backed.table reached
  obtain ⟨p, walked⟩ := reached
  have used := wf.tree.walk_level walked
  exact ⟨used, wf.tree.pointer used, Nat.lt_succ_of_le (wf.tree.bound t l used), mapped⟩

/-- What keeps the tables, the pages that are present and the second pool. -/
theorem Backed.of_links (backed : Backed y.toSymbols s) (wf : Wf y s level)
    (links : Links y.toSymbols s s') (pool : s'.dynamicTables = s.dynamicTables)
    (stays : ∀ t, s.MappedAt t (t - VMA_OFFSET) → s'.entryOf t = s.entryOf t) :
    Backed y.toSymbols s' := by
  have same : ∀ t, s'.OwnTable y.toSymbols t ↔ s.OwnTable y.toSymbols t := by
    intro t
    unfold State.OwnTable
    rw [pool]
  refine ⟨?_, fun t own => ?_⟩
  · rintro l t ⟨q, walked⟩
    rw [links.base] at walked
    refine (same t).mpr ?_
    rcases links.walks q _ walked with before | ⟨left, -⟩
    · exact backed.own l t ⟨q, before⟩
    · exact wf.pool_own left
  · have there := backed.mapped t ((same t).mp own)
    exact there.congr (stays t there)

/-! ## Reading -/

theorem Backed.descend_eq (backed : Backed y.toSymbols s) (wf : Wf y s level)
    (cursor : Cursor it page (l + 1) t) (reached : s.Reachable (l + 1, t)) :
    Translated.descend it s = it.descend s := by
  obtain ⟨-, ptr, bound, mapped⟩ := backed.reached wf reached
  rw [Translated.descend, Iterator.descend, cursor.present_eq ptr bound mapped,
    cursor.read_eq ptr bound mapped]

theorem Backed.descendAll_eq (backed : Backed y.toSymbols s) (wf : Wf y s level)
    (cursor : Cursor it page l t) (reached : s.Reachable (l, t)) :
    Translated.descendAll s l it = it.descendAll s l := by
  induction l generalizing it t with
  | zero => rfl
  | succ l ih =>
      obtain ⟨used, -⟩ := backed.reached wf reached
      rw [Translated.descendAll, Iterator.descendAll, backed.descend_eq wf cursor reached]
      rcases cursor.descend wf.tree used with ⟨-, stays⟩ | ⟨c, edge, -, goes⟩
      · rw [stays]
        rfl
      · rw [goes, ok_bind, ok_bind]
        exact ih (cursor.down c) (reached.child edge)

theorem Backed.find_eq (backed : Backed y.toSymbols s) (wf : Wf y s level) (page : Word) :
    Translated.find page s = find page s := by
  rw [Translated.find, find,
    backed.descendAll_eq wf (Cursor.ofAddress s.base page) (State.Reachable.root s)]

/-- The entry that `find` leads to is reached through the tables. -/
theorem Backed.at_leaf (backed : Backed y.toSymbols s) (wf : Wf y s level)
    (cursor : Cursor it page 0 t) (found : s.leaf page = some (0, t)) :
    Translated.read it s = it.read s ∧ Translated.present it s = it.present s ∧
      ∀ w, Translated.write it w s = it.write w s := by
  obtain ⟨-, ptr, bound, mapped⟩ := backed.reached wf ⟨path page, found⟩
  exact ⟨cursor.read_eq ptr bound mapped, cursor.present_eq ptr bound mapped,
    cursor.write_eq ptr bound mapped⟩

theorem Backed.pageEntry_eq (backed : Backed y.toSymbols s) (wf : Wf y s level) (page : Word) :
    Translated.pageEntry page s = pageEntry page s := by
  rw [Translated.pageEntry, pageEntry, backed.find_eq wf page]
  obtain ⟨it, result, ⟨t, found, cursor⟩ | ⟨-, rfl⟩⟩ := find_spec wf.tree page
  · rw [result, ok_bind, ok_bind, (backed.at_leaf wf cursor found).1]
  · rw [result]
    rfl

theorem Backed.getPhysicalAddress_eq (backed : Backed y.toSymbols s) (wf : Wf y s level) (w : Word) :
    Translated.getPhysicalAddress w s = getPhysicalAddress w s := by
  unfold Translated.getPhysicalAddress getPhysicalAddress
  dsimp only
  generalize w &&& - BitVec.ofNat 64 PAGE_SIZE = page
  rw [backed.find_eq wf page]
  obtain ⟨it, result, ⟨t, found, cursor⟩ | ⟨-, rfl⟩⟩ := find_spec wf.tree page
  · obtain ⟨reads, presents, -⟩ := backed.at_leaf wf cursor found
    rw [result, ok_bind, ok_bind, presents, Translated.physicalPageAddress, reads,
      Iterator.physicalPageAddress]
  · rw [result]
    rfl

/-! ## Writing -/

theorem Backed.unmapPage_eq (backed : Backed y.toSymbols s) (wf : Wf y s level) (page : Word) :
    Translated.unmapPage page s = unmapPage page s := by
  unfold Translated.unmapPage unmapPage
  rw [backed.find_eq wf page]
  obtain ⟨it, result, ⟨t, found, cursor⟩ | ⟨-, rfl⟩⟩ := find_spec wf.tree page
  · obtain ⟨reads, presents, writes⟩ := backed.at_leaf wf cursor found
    rw [result, ok_bind, ok_bind, presents, reads]
    simp only [writes]
  · rw [result]
    rfl

theorem Backed.tableBelow_eq (backed : Backed y.toSymbols s) (wf : Wf y s level)
    (cursor : Cursor it page (l + 1) t) (reached : s.Reachable (l + 1, t)) (entry : Word) :
    Translated.tableBelow y.toSymbols it entry s = it.tableBelow y.toSymbols entry s := by
  obtain ⟨-, ptr, bound, mapped⟩ := backed.reached wf reached
  unfold Translated.tableBelow Iterator.tableBelow
  dsimp only
  rcases wf.allocate with ⟨e, stops, -⟩ | ⟨c, m, n, -, result, -⟩
  · rw [stops]
    rfl
  · -- taking a table out of a pool does not change memory
    have mapped' : State.MappedAt { s with numStaticTablesLeft := m, numDynamicTablesLeft := n } t
        (t - VMA_OFFSET) := ⟨mapped.canonical, mapped.present, mapped.address⟩
    rw [result, ok_bind, ok_bind]
    dsimp only
    rw [cursor.write_eq ptr bound mapped']

/-- A round of `allocate_and_descend`, and where it leaves the iterator. -/
theorem Backed.allocateAndDescend_eq (backed : Backed y.toSymbols s) (wf : Wf y s level)
    (cursor : Cursor it page (l + 1) t) (reached : s.Reachable (l + 1, t)) :
    Translated.allocateAndDescend y.toSymbols it s = it.allocateAndDescend y.toSymbols s ∧
      ∀ it' s', it.allocateAndDescend y.toSymbols s = .ok (it', s') →
        Backed y.toSymbols s' ∧ s'.base = s.base ∧
          ∃ c level', Wf y s' level' ∧ Cursor it' page l c ∧ s'.Reachable (l, c) := by
  obtain ⟨used, ptr, bound, mapped⟩ := backed.reached wf reached
  constructor
  · rw [Translated.allocateAndDescend, Iterator.allocateAndDescend, cursor.read_eq ptr bound mapped]
    simp only [backed.tableBelow_eq wf cursor reached]
  · intro it' s' done
    have pool := allocateAndDescend_pool done
    rw [cursor.allocateAndDescend_eq ptr (by omega)] at done
    rcases wf.belowEntry used (index_lt page (l + 1)) with
      ⟨e, stops, -⟩ | ⟨c, there, -, edge⟩ | ⟨c, s₁, level₁, new, wf₁, grows, -, -, -, edge, walks⟩
    · rw [stops] at done
      cases done
    · rw [there] at done
      obtain ⟨rfl, rfl⟩ := Prod.mk.inj (Except.ok.inj done)
      exact ⟨backed, rfl, c, level, wf, cursor.down c, reached.child edge⟩
    · have taken := wf.belowEntry_taken new
      rw [new] at done
      obtain ⟨rfl, rfl⟩ := Prod.mk.inj (Except.ok.inj done)
      have links := wf.belowEntry_links grows taken walks
      refine ⟨backed.of_links wf links pool fun t _ => grows.entries t, grows.base, c, level₁, wf₁,
        cursor.down c, ?_⟩
      obtain ⟨p, walked⟩ := reached
      refine State.Reachable.child ⟨p, ?_⟩ edge
      rw [grows.base]
      exact grows.walks p _ walked

/-- The rounds of the loop in `get`. -/
theorem Backed.getLevels_eq (backed : Backed y.toSymbols s) (wf : Wf y s level) (page : Word) {n : Nat}
    (hn : n ≤ 3) :
    Translated.getLevels y.toSymbols n (Iterator.ofAddress s.base page) s =
        getLevels y.toSymbols n (Iterator.ofAddress s.base page) s ∧
      ∀ it s', getLevels y.toSymbols n (Iterator.ofAddress s.base page) s = .ok (it, s') →
        Backed y.toSymbols s' ∧ s'.base = s.base ∧
          ∃ c level', Wf y s' level' ∧ Cursor it page (3 - n) c ∧ s'.Reachable (3 - n, c) := by
  induction n with
  | zero =>
      refine ⟨rfl, fun it s' done => ?_⟩
      obtain ⟨rfl, rfl⟩ := Prod.mk.inj (Except.ok.inj done)
      exact ⟨backed, rfl, s.base, level, wf, Cursor.ofAddress s.base page, State.Reachable.root s⟩
  | succ n ih =>
      obtain ⟨same, after⟩ := ih (by omega)
      have below : 3 - n = 3 - (n + 1) + 1 := by omega
      rw [Translated.getLevels, getLevels, same]
      cases result : getLevels y.toSymbols n (Iterator.ofAddress s.base page) s with
      | error e =>
          refine ⟨rfl, fun it s' done => ?_⟩
          cases done
      | ok r =>
          obtain ⟨it₁, s₁⟩ := r
          obtain ⟨backed₁, base₁, c, level₁, wf₁, cursor, reached⟩ := after it₁ s₁ result
          rw [below] at cursor reached
          obtain ⟨same₁, after₁⟩ := backed₁.allocateAndDescend_eq wf₁ cursor reached
          rw [ok_bind, ok_bind]
          refine ⟨same₁, fun it' s' done => ?_⟩
          obtain ⟨backed', base', rest⟩ := after₁ it' s' done
          exact ⟨backed', base'.trans base₁, rest⟩

theorem Backed.get_eq (backed : Backed y.toSymbols s) (wf : Wf y s level) (page : Word) :
    Translated.get y.toSymbols page s = get y.toSymbols page s ∧
      ∀ it s', get y.toSymbols page s = .ok (it, s') → Backed y.toSymbols s' ∧
        ∃ t level', Wf y s' level' ∧ Cursor it page 0 t ∧ s'.Reachable (0, t) := by
  obtain ⟨same, after⟩ := backed.getLevels_eq wf page (Nat.le_refl 3)
  constructor
  · rw [Translated.get, Paging.get, same]
  · intro it s' done
    unfold Paging.get at done
    obtain ⟨_, -, done⟩ := bind_eq_ok done
    obtain ⟨⟨it₁, s₁⟩, levels, done⟩ := bind_eq_ok done
    obtain ⟨_, -, done⟩ := bind_eq_ok done
    obtain ⟨rfl, rfl⟩ := Prod.mk.inj (Except.ok.inj done)
    obtain ⟨backed', -, found⟩ := after it₁ s₁ levels
    exact ⟨backed', found⟩

theorem Backed.mapPage_eq (backed : Backed y.toSymbols s) (wf : Wf y s level)
    (physical page attrs : Word) :
    Translated.mapPage y.toSymbols physical page attrs s =
      mapPage y.toSymbols physical page attrs s := by
  obtain ⟨same, after⟩ := backed.get_eq wf page
  unfold Translated.mapPage mapPage
  rw [same]
  refine congrArg (kassert _ _ >>= ·) (funext fun _ => ?_)
  cases result : get y.toSymbols page s with
  | error e =>
      show (Except.error e : Except Stop (Word × State)) = .error e
      rfl
  | ok r =>
      obtain ⟨it, s₁⟩ := r
      obtain ⟨backed₁, t, level₁, wf₁, cursor, reached⟩ := after it s₁ result
      obtain ⟨-, ptr, bound, mapped⟩ := backed₁.reached wf₁ reached
      rw [ok_bind, ok_bind]
      dsimp only
      rw [Translated.mapPageAt, mapPageAt, cursor.present_eq ptr bound mapped,
        cursor.write_eq ptr bound mapped]

theorem mapPage_pool {physical attrs r : Word}
    (done : mapPage y.toSymbols physical page attrs s = .ok (r, s')) :
    s'.dynamicTables = s.dynamicTables := by
  unfold mapPage at done
  obtain ⟨_, -, done⟩ := bind_eq_ok done
  obtain ⟨⟨it, s₁⟩, got, done⟩ := bind_eq_ok done
  rw [mapPageAt_pool done, get_pool got]

/-! ## The second pool -/

/-- The pages of the dynamic tables are cleared, one after the other. -/
theorem Wf.clearPages_eq (wf : Wf y s level) (none_ : s.dynamicTables = 0#64) {virtualAddr : Word}
    (spare : Spare y virtualAddr)
    (mapped : ∀ j, j < MAX_DYNAMIC_TABLES →
      s.MappedAt (tableAt virtualAddr j) (tableAt virtualAddr j - VMA_OFFSET))
    {n : Nat} (hn : n ≤ MAX_DYNAMIC_TABLES) :
    Translated.clearPages virtualAddr n s = .ok (s.clear virtualAddr (PAGE_SIZE * n)) := by
  induction n with
  | zero =>
      have none_ : s.clear virtualAddr (PAGE_SIZE * 0) = s := by
        unfold State.clear
        simp only [Nat.mul_zero, Nat.not_lt_zero, if_false]
      rw [none_]
      rfl
  | succ n ih =>
      have before : n ≤ MAX_DYNAMIC_TABLES := by omega
      have here := (mapped n (by omega)).congr (wf.entryOf_clear none_ spare before _)
      have place := here.translate (show 0 < PAGE_SIZE by decide)
      rw [BitVec.add_zero, BitVec.add_zero] at place
      rw [Translated.clearPages, ih before, ok_bind, Translated.clearPage, place, ok_bind,
        BitVec.sub_add_cancel]
      have memory : ((s.clear virtualAddr (PAGE_SIZE * n)).clear (tableAt virtualAddr n)
          PAGE_SIZE).memory = (s.clear virtualAddr (PAGE_SIZE * (n + 1))).memory := by
        funext a
        have bound : PAGE_SIZE * (n + 1) ≤ 2 ^ 21 := Nat.mul_le_mul_left PAGE_SIZE hn
        have shifted : (a - tableAt virtualAddr n).toNat =
            ((a - virtualAddr).toNat + 2 ^ 64 - PAGE_SIZE * n) % 2 ^ 64 := by
          unfold tableAt
          simp only [PAGE_SIZE, BitVec.toNat_sub, BitVec.toNat_add, BitVec.toNat_ofNat] at bound ⊢
          omega
        have far := (a - virtualAddr).isLt
        show (if (a - tableAt virtualAddr n).toNat < PAGE_SIZE then 0#64
          else if (a - virtualAddr).toNat < PAGE_SIZE * n then 0#64 else s.memory a) =
          if (a - virtualAddr).toNat < PAGE_SIZE * (n + 1) then 0#64 else s.memory a
        rw [shifted]
        generalize (a - virtualAddr).toNat = d at *
        unfold PAGE_SIZE at *
        split
        · rw [if_pos (by omega)]
        · split
          · rw [if_pos (by omega)]
          · rw [if_neg (by omega)]
      exact congrArg (fun memory => Except.ok ({ s with memory } : State)) memory

theorem Wf.addDynamicTables_eq (wf : Wf y s level) (none_ : s.dynamicTables = 0#64) {virtualAddr : Word}
    (spare : Spare y virtualAddr)
    (mapped : ∀ j, j < MAX_DYNAMIC_TABLES →
      s.MappedAt (tableAt virtualAddr j) (tableAt virtualAddr j - VMA_OFFSET)) :
    Translated.addDynamicTables virtualAddr s =
      .ok (Paging.addDynamicTables virtualAddr s) := by
  rw [Translated.addDynamicTables, wf.clearPages_eq none_ spare mapped (Nat.le_refl _)]
  rfl

end Operations

/-! ## Runs -/

/-- No page of the kernel image and none of the dynamic tables is unmapped, and the dynamic
tables are mapped before they are added. -/
def KeepsTables (s : State) : Op → Prop
  | .map _ _ _ => True
  | .unmap virtualPage =>
      ¬ (KERNEL_VMA_START ≤ virtualPage.toNat ∧ virtualPage.toNat < KERNEL_VMA_END) ∧
        (s.dynamicTables ≠ 0#64 → ∀ j, j < MAX_DYNAMIC_TABLES →
          virtualPage ≠ tableAt s.dynamicTables j)
  | .addDynamicTables virtualAddr => ∀ j, j < MAX_DYNAMIC_TABLES →
      s.MappedAt (tableAt virtualAddr j) (tableAt virtualAddr j - VMA_OFFSET)

section Runs

variable {y : Layout} {s s' : State} {level : Word → Option Nat} {o : Op}

/-- A call does what it does on the tables alone. -/
theorem Backed.step_eq (backed : Backed y.toSymbols s) (wf : Wf y s level) (legal : Legal y s o)
    (keeps : KeepsTables s o) :
    (Translated.machine y.toSymbols).step s o = (machine y.toSymbols).step s o := by
  cases o with
  | map physicalPage virtualPage attrs =>
      show (Translated.mapPage y.toSymbols physicalPage virtualPage attrs s >>= _) = _
      rw [backed.mapPage_eq wf]
      rfl
  | unmap virtualPage => exact backed.unmapPage_eq wf virtualPage
  | addDynamicTables virtualAddr => exact wf.addDynamicTables_eq legal.1 legal.2 keeps

theorem Backed.step (backed : Backed y.toSymbols s) (wf : Wf y s level) (legal : Legal y s o)
    (keeps : KeepsTables s o) (hs : (machine y.toSymbols).step s o = .ok s') :
    Backed y.toSymbols s' := by
  cases o with
  | map physicalPage virtualPage attrs =>
      obtain ⟨canonical, aligned, -, -⟩ := legal
      obtain ⟨⟨r, s₁⟩, mapped, done⟩ := bind_eq_ok hs
      cases done
      refine backed.of_links wf (wf.mapPage_links canonical.aligned aligned mapped)
        (mapPage_pool mapped) fun t there => ?_
      rcases wf.mapPage attrs canonical aligned with
        ⟨e, stops, -⟩ | ⟨-, message, stops⟩ | ⟨absent, r', s₂, level', result, -, -, others, -⟩
      · rw [stops] at mapped
        cases mapped
      · rw [stops] at mapped
        cases mapped
      · obtain ⟨rfl, rfl⟩ := Prod.mk.inj (Except.ok.inj (result.symm.trans mapped))
        -- the page of a table is present already
        refine others t there.canonical ?_
        rintro rfl
        exact there.present absent
  | unmap virtualPage =>
      obtain ⟨outside, notDynamic⟩ := keeps
      have hs : Paging.unmapPage virtualPage s = .ok s' := hs
      obtain ⟨base, walks⟩ := wf.unmapPage_walks hs
      obtain ⟨t₀, -, stored⟩ := wf.unmapPage_ok hs
      rcases wf.unmapPage legal with ⟨-, message, stops⟩ | ⟨-, s₂, result, -, -, others, -⟩
      · rw [stops] at hs
        cases hs
      · obtain rfl : s₂ = s' := Except.ok.inj (result.symm.trans hs)
        have other : ∀ t, s.OwnTable y.toSymbols t → t ≠ virtualPage := by
          rintro t (image | ⟨dynamic, j, hj, rfl⟩) rfl
          · exact outside (y.inImage _ image)
          · exact notDynamic dynamic j hj rfl
        have pool : s₂.dynamicTables = s.dynamicTables := by rw [stored]; rfl
        refine ⟨?_, fun t own => ?_⟩
        · rintro l t ⟨q, walked⟩
          rw [base, walks] at walked
          have own := backed.own l t ⟨q, walked⟩
          unfold State.OwnTable at own ⊢
          rwa [pool]
        · unfold State.OwnTable at own
          rw [pool] at own
          have there := backed.mapped t own
          exact there.congr (others t there.canonical (other t own))
  | addDynamicTables virtualAddr =>
      cases hs
      obtain ⟨none_, spare⟩ := legal
      obtain ⟨-, same⟩ := wf.addDynamicTables none_ spare
      have image : ∀ t, s.OwnTable y.toSymbols t → t ∈ y.tables := by
        rintro t (image | ⟨dynamic, -⟩)
        · exact image
        · exact absurd none_ dynamic
      refine ⟨?_, ?_⟩
      · rintro l t ⟨q, walked⟩
        have walked : walk (Paging.addDynamicTables virtualAddr s).child (3, s.base) q =
            some (l, t) := walked
        rw [wf.walk_addDynamicTables none_ spare] at walked
        exact Or.inl (image t (backed.own l t ⟨q, walked⟩))
      · rintro t (image | ⟨-, j, hj, rfl⟩)
        · exact (backed.mapped t (Or.inl image)).congr (same t).2
        · exact (keeps j hj).congr (same _).2

/-- After `early_init` the tables are on pages of the kernel image, which are mapped. -/
theorem earlyInit_backed (y : Layout) (memory : Word → Word) :
    Backed y.toSymbols (earlyInit y.toSymbols (image y.toSymbols memory)) := by
  obtain ⟨level, wf⟩ := earlyInit_wf y memory
  have entries := earlyInit_entries y memory
  have noDynamic := (earlyInit_pools y.toSymbols (image y.toSymbols memory)).2.1
  refine ⟨?_, ?_⟩
  · rintro l t ⟨p, walked⟩
    have used := wf.tree.walk_level walked
    exact Or.inl ((wf.noDynamic noDynamic).2 t (by rw [used]; exact Option.some_ne_none l))
  · rintro t (mem | ⟨dynamic, -⟩)
    · exact (entries.mappedAt wf.base mem).1
    · exact absurd noDynamic dynamic

/-- The steps that leave the kernel its own pages keep the tables and their pages. -/
theorem backed_step (s : State) (o : Op) (s' : State)
    (inv : (∃ level, Wf y s level) ∧ Backed y.toSymbols s) (guard : Legal y s o ∧ KeepsTables s o)
    (hs : (machine y.toSymbols).step s o = .ok s') :
    (∃ level, Wf y s' level) ∧ Backed y.toSymbols s' := by
  obtain ⟨⟨level, wf⟩, backed⟩ := inv
  exact ⟨Wf.step ⟨level, wf⟩ guard.1 hs, backed.step wf guard.1 guard.2 hs⟩

/-- Such a run is the run on the tables alone. -/
theorem translated_run_eq {memory : Word → Word} {ops : List Op}
    (guard : (machine y.toSymbols).EachStep (fun s o => Legal y s o ∧ KeepsTables s o)
      (earlyInit y.toSymbols (image y.toSymbols memory)) ops) :
    (Translated.machine y.toSymbols).run (earlyInit y.toSymbols (image y.toSymbols memory)) ops =
        (machine y.toSymbols).run (earlyInit y.toSymbols (image y.toSymbols memory)) ops ∧
      (Translated.machine y.toSymbols).EachStep (fun s o => Legal y s o ∧ KeepsTables s o)
        (earlyInit y.toSymbols (image y.toSymbols memory)) ops := by
  refine Machine.guarded_run_eq backed_step ?_ ⟨earlyInit_wf y memory, earlyInit_backed y memory⟩ guard
  rintro s o ⟨⟨level, wf⟩, backed⟩ ⟨legal, keeps⟩
  exact backed.step_eq wf legal keeps

end Runs

end Tyleros.Paging
