import Tyleros.Basic
import Mathlib.Logic.Function.Basic

/-!
# Page tables

`kernel/paging.h` and `kernel/paging.cpp`: the four-level page tables of the
kernel, the iterator that walks them and allocates missing levels on the way, and
`map_page`, `unmap_page` and `get_physical_address` on top of it.

Addresses and entries are 64-bit words. A pointer to a table is its virtual
address, and `memory` gives the word at an address; the kernel reaches every table
through the identity map at `KERNEL_VMA_OFFSET`. `memory` is read and written directly here;
`Paging/Translated.lean` executes the same calls through the tables themselves, and
`Paging/RoundTrip.lean` is about the translations that `invlpg` drops.
-/

namespace Tyleros.Paging

/-- `uintptr_t`, also an entry of a page table. -/
abbrev Word := BitVec 64

/-- `memory::KERNEL_VMA_OFFSET`. -/
def VMA_OFFSET : Word := BitVec.ofNat 64 KERNEL_VMA_OFFSET

def NUM_PAGE_TABLE_ENTRIES : Nat := 512

def PREFIX_MASK : Word := 0x1FF#64

def ADDRESS_MASK : Word := 0x000FFFFFFFFFF000#64

/-! ## `attributes` -/

def PRESENT : Word := 0x1#64

def RW : Word := 0x2#64

def USER : Word := 0x4#64

def XD : Word := 0x8000000000000000#64

/-- `attributes::ALL_MASK`. -/
def ALL_MASK : Word := PRESENT ||| RW ||| USER ||| XD

/-! ## Tables in memory -/

/-- The address of entry `idx` of a table. -/
def slot (table : Word) (idx : Nat) : Word := table + BitVec.ofNat 64 (8 * idx)

/-- Element `j` of an array of page tables. -/
def tableAt (tables : Word) (j : Nat) : Word := tables + BitVec.ofNat 64 (PAGE_SIZE * j)

def MAX_STATIC_TABLES : Nat := 8

def MAX_DYNAMIC_TABLES : Nat := 512

/-- The addresses of the tables that are part of the kernel image. -/
structure Symbols where
  kernelPml4 : Word
  kernelPml3 : Word
  kernelPml2 : Word
  kernelPml1 : Word
  identityPml3 : Word
  identityPml2 : Word
  identityPml1 : Word
  staticTables : Word

/-- All tables of the kernel image. -/
def Symbols.tables (y : Symbols) : List Word :=
  [y.kernelPml4, y.kernelPml3, y.kernelPml2, y.kernelPml1, y.identityPml3, y.identityPml2,
    y.identityPml1] ++ (List.range MAX_STATIC_TABLES).map (tableAt y.staticTables)

/-- Where the linker put the tables: each on a page of its own inside the mapped
part of the kernel image. -/
structure Layout extends Symbols where
  nodup : toSymbols.tables.Nodup
  aligned : ∀ t ∈ toSymbols.tables, t.toNat % PAGE_SIZE = 0
  inImage : ∀ t ∈ toSymbols.tables, KERNEL_VMA_START ≤ t.toNat ∧ t.toNat < KERNEL_VMA_END

/-- `kernel_page_tables` and the pools its allocator takes tables from.
`hasAllocator` is `allocate != nullptr`. -/
structure State where
  memory : Word → Word
  base : Word
  hasAllocator : Bool
  numStaticTablesLeft : Nat
  dynamicTables : Word
  numDynamicTablesLeft : Nat

/-- Entry `idx` of a table. -/
def State.entry (s : State) (table : Word) (idx : Nat) : Word := s.memory (slot table idx)

/-- Store a word. -/
def State.store (s : State) (address value : Word) : State :=
  { s with memory := Function.update s.memory address value }

/-- `allocate_page_level`: the physical address of the next table of a pool. -/
def allocatePageLevel (y : Symbols) (s : State) : Except Stop (Word × State) := do
  if s.numStaticTablesLeft > 0 then
    let left := s.numStaticTablesLeft - 1
    return (tableAt y.staticTables left - VMA_OFFSET, { s with numStaticTablesLeft := left })
  else
    kassert (s.dynamicTables != 0#64)
      "ran out of static tables before dynamic tables could be initialized!"
    if s.numDynamicTablesLeft > 0 then
      let left := s.numDynamicTablesLeft - 1
      return (tableAt s.dynamicTables left - VMA_OFFSET, { s with numDynamicTablesLeft := left })
    else
      .error (.panic "no more page tables!")

/-! ## `page_tables::iterator` -/

/-- The iterator; `level0` is its field `_level`. -/
structure Iterator where
  tables : Nat → Word
  indices : Nat → Nat
  level0 : Nat

namespace Iterator

/-- `iterator(base, addr)`. -/
def ofAddress (base address : Word) : Iterator where
  tables := fun l => if l = 3 then base else 0#64
  indices := fun l => if l < 4 then (address >>> 12 >>> (9 * l) &&& PREFIX_MASK).toNat else 0
  level0 := 3

/-- `iterator::end()`. -/
def atEnd : Iterator where
  tables := fun _ => 0#64
  indices := fun l => if l = 3 then NUM_PAGE_TABLE_ENTRIES else 0
  level0 := 3

/-- `operator==`. -/
def same (a b : Iterator) : Bool :=
  a.level0 == b.level0 && a.indices a.level0 == b.indices a.level0

/-- `level()`. -/
def level (it : Iterator) : Nat := it.level0 + 1

/-- `operator*`: the address of the entry the iterator stands on. -/
def location (it : Iterator) : Except Stop Word := do
  kassert (it.tables it.level0 != 0#64) "empty page table!"
  kassert (it.indices it.level0 < NUM_PAGE_TABLE_ENTRIES) "index into page tables out of bounds!"
  return slot (it.tables it.level0) (it.indices it.level0)

/-- `*it` as a value. -/
def read (it : Iterator) (s : State) : Except Stop Word := do
  return s.memory (← it.location)

/-- `*it = value`. -/
def write (it : Iterator) (value : Word) (s : State) : Except Stop State := do
  return s.store (← it.location) value

/-- `exists()`. -/
def tableExists (it : Iterator) : Bool := it.tables it.level0 != 0#64

/-- `present()`. -/
def present (it : Iterator) (s : State) : Except Stop Bool := do
  return (← it.read s) &&& PRESENT != 0#64

/-- `physical_page_address()`. -/
def physicalPageAddress (it : Iterator) (s : State) : Except Stop Word := do
  kassert (it.level == 1) "can't get physical addr of non level 1 page!"
  return (← it.read s) &&& ADDRESS_MASK

/-- `virtual_page_address()`, a sign extension from 42 bits. -/
def virtualPageAddress (it : Iterator) : Word :=
  let address := BitVec.ofNat 64 (it.indices 3) <<< 39 ||| BitVec.ofNat 64 (it.indices 2) <<< 30 |||
    BitVec.ofNat 64 (it.indices 1) <<< 21 ||| BitVec.ofNat 64 (it.indices 0) <<< 12
  (address <<< 22).sshiftRight 22

/-- One level down, to the table at virtual address `table`. -/
def down (it : Iterator) (table : Word) : Iterator :=
  { it with level0 := it.level0 - 1, tables := Function.update it.tables (it.level0 - 1) table }

/-- `descend()`; `none` if it returns false. -/
def descend (it : Iterator) (s : State) : Except Stop (Option Iterator) := do
  if it.level == 1 || it.indices it.level0 ≥ NUM_PAGE_TABLE_ENTRIES || !it.tableExists then
    return none
  else if !(← it.present s) then
    return none
  else
    return some (it.down (((← it.read s) &&& ~~~ PREFIX_MASK) + VMA_OFFSET))

/-- `while (cursor.descend()) ;`, where `fuel` is the number of levels below. -/
def descendAll (s : State) : Nat → Iterator → Except Stop Iterator
  | 0, it => .ok it
  | fuel + 1, it => do
    match ← it.descend s with
    | none => return it
    | some below => descendAll s fuel below

/-- The part of `allocate_and_descend` that settles `addr`: the table the entry
refers to, or a new one. -/
def tableBelow (y : Symbols) (it : Iterator) (entry : Word) (s : State) :
    Except Stop (Word × State) :=
  let addr := entry &&& ~~~ PREFIX_MASK
  if addr = 0#64 then do
    let (addr, s) ← allocatePageLevel y s
    let s ← it.write (addr ||| RW ||| PRESENT) s
    return (addr, s)
  else .ok (addr, s)

/-- `allocate_and_descend(allocate)`. -/
def allocateAndDescend (y : Symbols) (it : Iterator) (s : State) :
    Except Stop (Iterator × State) := do
  kassert (it.level > 1) "can't allocate and descend on level 1 page iterator!"
  kassert (it.indices it.level0 < NUM_PAGE_TABLE_ENTRIES) "can't allocate on end iterator!"
  let entry ← if it.tableExists then it.read s else .ok 0#64
  let (addr, s) ← it.tableBelow y entry s
  kassert (addr.toNat % PAGE_SIZE == 0) "address isn't page-aligned?"
  return (it.down (addr + VMA_OFFSET), s)

end Iterator

/-! ## `page_tables` -/

/-- `find(page)`. -/
def find (page : Word) (s : State) : Except Stop Iterator := do
  let cursor ← (Iterator.ofAddress s.base page).descendAll s 3
  return if cursor.level != 1 then Iterator.atEnd else cursor

/-- The first `n` rounds of the loop in `get`. -/
def getLevels (y : Symbols) : Nat → Iterator → State → Except Stop (Iterator × State)
  | 0, it, s => .ok (it, s)
  | n + 1, it, s => do
    let (it, s) ← getLevels y n it s
    it.allocateAndDescend y s

/-- `get(page)`. -/
def get (y : Symbols) (page : Word) (s : State) : Except Stop (Iterator × State) := do
  kassert s.hasAllocator "tried to allocate before table allocator was initialized!"
  let (cursor, s) ← getLevels y 3 (Iterator.ofAddress s.base page) s
  kassert (cursor.level == 1) "didn't find a level 1 page?"
  return (cursor, s)

/-- `map_page(physical_page, it, attrs)`; returns the virtual address. -/
def mapPageAt (physicalPage : Word) (it : Iterator) (attrs : Word) (s : State) :
    Except Stop (Word × State) := do
  let virtualPage := it.virtualPageAddress
  kassert (virtualPage.toNat % PAGE_SIZE == 0) "virtual address must be page-aligned!"
  kassert (physicalPage.toNat % PAGE_SIZE == 0) "physical address must be page-aligned!"
  kassert (it.level == 1) "iterator must point to a page table entry!"
  kassert (!it.same Iterator.atEnd && it.tableExists) "lookup/allocation failed?"
  if ← it.present s then
    .error (.panic "Tried to map already-present page!\nVirtual :%p\nPhysical:%p\nEntry   :%lx\n")
  else
    let s ← it.write (physicalPage ||| attrs ||| PRESENT) s
    return (virtualPage, s)

/-- `map_page(physical_page, virtual_page, attrs)`. -/
def mapPage (y : Symbols) (physicalPage virtualPage attrs : Word) (s : State) :
    Except Stop (Word × State) := do
  kassert (virtualPage.toNat % PAGE_SIZE == 0) "virtual address must be page-aligned!"
  let (it, s) ← get y virtualPage s
  mapPageAt physicalPage it attrs s

/-- `unmap_page(virtual_page)`. -/
def unmapPage (virtualPage : Word) (s : State) : Except Stop State := do
  kassert (virtualPage.toNat % PAGE_SIZE == 0) "virtual address should be page-aligned!"
  let entry ← find virtualPage s
  if entry.same Iterator.atEnd || !entry.tableExists then
    .error (.panic "Tried to unmap non-present page\nVirtual:%p")
  else if !(← entry.present s) then
    .error (.panic "Tried to unmap non-present page\nVirtual:%p")
  else
    entry.write ((← entry.read s) &&& ~~~ PRESENT) s

/-- `get_physical_address(virtual_addr)`. -/
def getPhysicalAddress (virtualAddr : Word) (s : State) : Except Stop Word := do
  let pageAddr := virtualAddr &&& - BitVec.ofNat 64 PAGE_SIZE
  let offsetInPage := virtualAddr - pageAddr
  let entry ← find pageAddr s
  kassert (!entry.same Iterator.atEnd) "couldn't find an entry for address!"
  kassert (← entry.present s) "entry not found!"
  return (← entry.physicalPageAddress s) + offsetInPage

/-! ## Initialisation -/

/-- The entry that refers to a table by its physical address. -/
def tableEntry (table : Word) : Word := (table - VMA_OFFSET) ||| RW ||| PRESENT

/-- Enter physical page `i` into entry `i` of a table. -/
def mapIdentity (table : Word) (s : State) (i : Nat) : State :=
  s.store (slot table i) (BitVec.ofNat 64 (i * PAGE_SIZE) ||| XD ||| PRESENT)

/-- The kernel before `early_init`: the tables of the image are zero. -/
def image (y : Symbols) (memory : Word → Word) : State where
  memory := fun a => if BitVec.ofNat 64 (a.toNat / PAGE_SIZE * PAGE_SIZE) ∈ y.tables then 0#64
    else memory a
  base := 0#64
  hasAllocator := false
  numStaticTablesLeft := MAX_STATIC_TABLES
  dynamicTables := 0#64
  numDynamicTablesLeft := 0

/-- The first part of `early_init`, which maps the kernel image. -/
def mapKernelImage (y : Symbols) (s : State) : State :=
  let s := s.store (slot y.kernelPml4 0x1FF) (tableEntry y.kernelPml3)
  let s := s.store (slot y.kernelPml3 0x1FE) (tableEntry y.kernelPml2)
  let s := s.store (slot y.kernelPml2 0) (tableEntry y.kernelPml1)
  (List.range' 0x100 0x100).foldl (mapIdentity y.kernelPml1) s

/-- The second part of `early_init`, which maps the bottom 2M of memory except for
the null page. -/
def mapLowMemory (y : Symbols) (s : State) : State :=
  let s := s.store (slot y.kernelPml4 0) (tableEntry y.identityPml3)
  let s := s.store (slot y.identityPml3 0) (tableEntry y.identityPml2)
  let s := s.store (slot y.identityPml2 0) (tableEntry y.identityPml1)
  let s := s.store (slot y.identityPml1 0) 0#64
  (List.range' 1 0x1FF).foldl (mapIdentity y.identityPml1) s

/-- `early_init`. -/
def earlyInit (y : Symbols) (s : State) : State :=
  { mapLowMemory y (mapKernelImage y s) with base := y.kernelPml4, hasAllocator := true }

/-- The end of `finish_init`, after the pages of the dynamic tables have been
mapped at `virtualAddr`: they are cleared and become the second pool. -/
def addDynamicTables (virtualAddr : Word) (s : State) : State :=
  { s with
    memory := fun a => if (a - virtualAddr).toNat < PAGE_SIZE * MAX_DYNAMIC_TABLES then 0#64
      else s.memory a
    dynamicTables := virtualAddr
    numDynamicTablesLeft := MAX_DYNAMIC_TABLES }

end Tyleros.Paging
