import Tyleros.Boot.Loader
import Tyleros.Lib.RadixTree

/-!
# The boot loader's page tables

`boot/paging.asm`: `map_contiguous_pages` maps up to 512 pages, and takes the tables it lacks
one behind the other from low memory. Registers are words of their width, and memory is
indexed by the linear address, as in the other parts of the boot loader.

`Tables.translate` is what the processor makes of the tables. `Maps` says what a call is to do,
and `Regular` when it does: the index of the first page in its PML1 table is below the number of
pages, because the code compares the index of the next entry with that number; so only a range
that starts a table is mapped whole. And of the virtual address the bits 46 to 54 are taken as
the PML4 index, which is right for the first and the last entry.
-/

namespace Tyleros.Boot.Paging

open Fat (readU32)
open Lib

/-! ## The code -/

def ENTRIES_PER_TABLE : UInt32 := 512

def SIZE_OF_ENTRY : UInt32 := 8

def LOG2_SIZE_OF_ENTRY : UInt32 := 3

def PREFIX_MASK : UInt32 := ENTRIES_PER_TABLE - 1

def PML4_MASK : UInt32 := PREFIX_MASK <<< 7

def PAGE_PRESENT : UInt32 := (1 : UInt32) <<< 0

def PAGE_WRITE : UInt32 := (1 : UInt32) <<< 1

/-- The variables of `paging.asm`, and memory. -/
structure Tables where
  mem : Memory
  pageTablesStart : UInt32
  pageTablesEnd : UInt32

/-- `mov dword [address], value`. -/
def writeU32 (mem : Memory) (address : Nat) (value : UInt32) : Memory := fun x =>
  if address ≤ x ∧ x < address + 4 then
    UInt8.ofNat (value.toNat / 2 ^ (8 * (x - address)))
  else mem x

/-- `allocate_page`. -/
def allocatePage (t : Tables) : UInt32 × Tables :=
  let ebx := t.pageTablesEnd
  let page := segmentAndBase ebx
  (ebx, { t with
    mem := fun x => if page ≤ x ∧ x < page + PAGE_SIZE then 0 else t.mem x
    pageTablesEnd := ebx + UInt32.ofNat PAGE_SIZE })

/-- `allocate_page_if_needed`, with what `ax` says. -/
def allocatePageIfNeeded (needed : Bool) (ebx : UInt32) (t : Tables) : UInt32 × Tables :=
  if needed then allocatePage t else (ebx, t)

/-- `get_or_allocate_level`. -/
def getOrAllocateLevel (ebx : UInt32) (t : Tables) : UInt32 × Tables :=
  let eax := readU32 t.mem (segmentAndBase ebx)
  if eax &&& PAGE_PRESENT = 0 then
    let (page, t) := allocatePage t
    (page, { t with
      mem := writeU32 t.mem (segmentAndBase ebx) (page ||| (PAGE_PRESENT ||| PAGE_WRITE)) })
  else (eax &&& ~~~ PREFIX_MASK, t)

/-- The parameters of `map_contiguous_pages`. -/
structure Call where
  esi : UInt32
  edi : UInt32
  ebx : UInt32
  ecx : UInt32

/-- Slot 1 of the stack frame. -/
def Call.pml1Offset (c : Call) : UInt32 := (c.edi >>> 12 &&& PREFIX_MASK) <<< LOG2_SIZE_OF_ENTRY

/-- Slot 2. -/
def Call.pml2Offset (c : Call) : UInt32 :=
  (c.edi >>> 12 >>> 9 &&& PREFIX_MASK) <<< LOG2_SIZE_OF_ENTRY

/-- Slot 3. -/
def Call.pml3Offset (c : Call) : UInt32 :=
  (c.edi >>> 12 >>> 9 >>> 9 ||| (c.ebx &&& ((1 : UInt32) <<< 7 - 1)) <<< 2) <<< LOG2_SIZE_OF_ENTRY

/-- Slot 4: the mask is for the bits where they were before the first shift. -/
def Call.pml4Offset (c : Call) : UInt32 :=
  (c.ebx >>> 7 &&& PML4_MASK) >>> 7 <<< LOG2_SIZE_OF_ENTRY

/-- What changes in the loop: the registers, and slot 2 of the stack frame. -/
structure Loop where
  es : UInt16
  di : UInt16
  esi : UInt32
  edx : UInt32
  ecx : UInt32
  pml2Offset : UInt32

/-- `.write_table`. -/
def writeTable (pml1Offset ebx esi ecx pml2Offset : UInt32) : Loop where
  es := (ebx >>> 4).toUInt16
  di := (ebx &&& 0xF).toUInt16
  esi
  edx := pml1Offset >>> LOG2_SIZE_OF_ENTRY
  ecx
  pml2Offset

/-- `.table_full`. -/
def tableFull (pml1Offset pml2Pointer : UInt32) (r : Loop) (t : Tables) : Loop × Tables :=
  let pml2Offset := r.pml2Offset + SIZE_OF_ENTRY
  let (page, t) := allocatePage t
  let ebx := page ||| (PAGE_PRESENT ||| PAGE_WRITE)
  (writeTable pml1Offset ebx r.esi (r.ecx - ENTRIES_PER_TABLE) pml2Offset,
    { t with mem := writeU32 t.mem (segmentAndBase (pml2Pointer + pml2Offset)) ebx })

/-- The body of `.write_page_table_entry`. -/
def writeEntry (r : Loop) (t : Tables) : Loop × Tables :=
  ({ r with
      esi := r.esi + UInt32.ofNat PAGE_SIZE
      di := r.di + SIZE_OF_ENTRY.toUInt16
      edx := r.edx + 1 },
    { t with mem := writeU32 t.mem (r.es.toNat * 16 + r.di.toNat) r.esi })

/-- The loop, for at most `fuel` entries. -/
def writePageTableEntry (pml1Offset pml2Pointer : UInt32) :
    Nat → Loop → Tables → Except Stop Tables
  | 0, _, _ => .error .hang
  | fuel + 1, r, t =>
    let (r, t) := writeEntry r t
    if r.edx = r.ecx then .ok t
    else if ENTRIES_PER_TABLE.toInt32 ≤ r.edx.toInt32 then
      let (r, t) := tableFull pml1Offset pml2Pointer r t
      writePageTableEntry pml1Offset pml2Pointer fuel r t
    else writePageTableEntry pml1Offset pml2Pointer fuel r t

/-- The tables on the way to the first page, the PML2 and the PML1 one. -/
def getTables (c : Call) (t : Tables) : UInt32 × UInt32 × Tables :=
  let (pml4, t) :=
    allocatePageIfNeeded (t.pageTablesStart == t.pageTablesEnd) t.pageTablesStart t
  let (pml3, t) := getOrAllocateLevel (pml4 + c.pml4Offset) t
  let (pml2, t) := getOrAllocateLevel (pml3 + c.pml3Offset) t
  let (pml1, t) := getOrAllocateLevel (pml2 + c.pml2Offset) t
  (pml2, pml1, t)

/-- `map_contiguous_pages`. -/
def mapContiguousPages (fuel : Nat) (c : Call) (t : Tables) : Except Stop Tables :=
  if ENTRIES_PER_TABLE.toInt32 < c.ecx.toInt32 then .error (.fault "int3")
  else
    let (pml2, pml1, t) := getTables c t
    writePageTableEntry c.pml1Offset pml2 fuel
      (writeTable c.pml1Offset (pml1 + c.pml1Offset) (c.esi ||| (PAGE_PRESENT ||| PAGE_WRITE)) c.ecx
        c.pml2Offset) t

/-! ## The processor's side -/

/-- An entry of a table, 64 bits. -/
def entry (mem : Memory) (table : Nat) (i : Fin 512) : Nat :=
  (readU32 mem (table + 8 * i)).toNat + 2 ^ 32 * (readU32 mem (table + 8 * i + 4)).toNat

/-- The address in a present entry; no entry here is one of a large page. -/
def target (mem : Memory) (table : Nat) (i : Fin 512) : Option Nat :=
  if entry mem table i % 2 = 1 then some (entry mem table i / 2 ^ 12 % 2 ^ 40 * 2 ^ 12) else none

/-- The tables of level 3 (PML4) to 0 (PML1), and where their entries lead. -/
def child (mem : Memory) : Nat × Nat → Fin 512 → Option (Nat × Nat)
  | (0, _), _ => none
  | (level + 1, table), i => (target mem table i).map fun below => (level, below)

/-- The index of an address in its table of a level. -/
def index (level address : Nat) : Fin 512 := Fin.ofNat 512 (address / 2 ^ (12 + 9 * level))

/-- The way to the PML1 table of an address. -/
def tablePath (address : Nat) : List (Fin 512) := [index 3 address, index 2 address, index 1 address]

/-- The page that a path through the tables leads to, if there are tables. -/
def Tables.find (t : Tables) (path : List (Fin 512)) (i : Fin 512) : Option Nat :=
  if t.pageTablesStart = t.pageTablesEnd then none
  else (walk (child t.mem) (3, t.pageTablesStart.toNat) path).bind fun node => target t.mem node.2 i

/-- An address whose upper bits are all the same. -/
def Canonical (address : Nat) : Prop := address < 2 ^ 47 ∨ 2 ^ 64 - 2 ^ 47 ≤ address ∧ address < 2 ^ 64

instance (address : Nat) : Decidable (Canonical address) := inferInstanceAs (Decidable (_ ∨ _))

/-- The physical page of a virtual one. -/
def Tables.translate (t : Tables) (address : Nat) : Option Nat :=
  if Canonical address then t.find (tablePath address) (index 0 address) else none

/-! ## What a call is to do -/

/-- The virtual address of the first page. -/
def Call.virtual (c : Call) : Nat := c.ebx.toNat * 2 ^ 32 + c.edi.toNat

/-- Page `k` of the range. -/
def Call.page (c : Call) (k : Nat) : Nat := add64 c.virtual (k * PAGE_SIZE)

/-- The call returns, the range is mapped, and nothing else has changed. -/
def Maps (t : Tables) (c : Call) : Prop :=
  ∃ fuel t', mapContiguousPages fuel c t = .ok t' ∧
    (∀ k, k < c.ecx.toNat → t'.translate (c.page k) = some (c.esi.toNat + k * PAGE_SIZE)) ∧
    ∀ address, address % PAGE_SIZE = 0 → (∀ k, k < c.ecx.toNat → address ≠ c.page k) →
      t'.translate address = t.translate address

/-- The way to the PML1 table that is written to. -/
def Call.writtenPath (c : Call) : List (Fin 512) :=
  [Fin.ofNat 512 (c.virtual / 2 ^ 46), index 2 c.virtual, index 1 c.virtual]

/-- The number of tables that are allocated. -/
def Tables.needed (t : Tables) (c : Call) : Nat :=
  if t.pageTablesStart = t.pageTablesEnd then 4
  else missing (child t.mem) (3, t.pageTablesStart.toNat) c.writtenPath

/-- Whole pages at a canonical address, one to 512 of them, and room for the tables in low
memory, where `stage2.asm` puts them. -/
structure Legal (t : Tables) (c : Call) : Prop where
  physical : c.esi.toNat % PAGE_SIZE = 0
  aligned : c.virtual % PAGE_SIZE = 0
  canonical : Canonical c.virtual
  count : 1 ≤ c.ecx.toNat ∧ c.ecx.toNat ≤ 512
  room : t.pageTablesEnd.toNat + t.needed c * PAGE_SIZE ≤ 2 ^ 20

/-- The tables that calls have built from `start` on, whatever was in memory before, and whatever
other code writes next to them. -/
inductive Built (start : UInt32) : Tables → Prop
  | empty (mem : Memory) : start.toNat % PAGE_SIZE = 0 → start.toNat ≤ 2 ^ 20 →
    Built start ⟨mem, start, start⟩
  | call {t t' : Tables} {c : Call} {fuel : Nat} : Built start t → Legal t c →
    mapContiguousPages fuel c t = .ok t' → Built start t'
  | code {t : Tables} (mem : Memory) : Built start t →
    (∀ x, t.pageTablesStart.toNat ≤ x → x < t.pageTablesEnd.toNat → mem x = t.mem x) →
    Built start { t with mem }

/-! ## Regular calls -/

/-- The PML4 index that is written to is the one of the address. -/
def Call.TopRight (c : Call) : Prop := index 3 c.virtual = 0 ∨ index 3 c.virtual = 511

/-- The number of entries that are written. -/
def Call.written (c : Call) : Nat := c.ecx.toNat - index 0 c.virtual

/-- The calls that map what they are to map: all entries but the last ones are written, and in
the right table; what is not, was right before. -/
structure Regular (t : Tables) (c : Call) : Prop where
  reached : (index 0 c.virtual).val < c.ecx.toNat
  below : c.esi.toNat + c.ecx.toNat * PAGE_SIZE ≤ 2 ^ 32
  already : ∀ k, k < c.ecx.toNat → ¬ (c.TopRight ∧ k < c.written) →
    t.translate (c.page k) = some (c.esi.toNat + k * PAGE_SIZE)
  elsewhere : ¬ c.TopRight → ∀ k, k < c.written →
    t.find c.writtenPath (Fin.ofNat 512 (index 0 c.virtual + k)) =
      some (c.esi.toNat + k * PAGE_SIZE)

end Tyleros.Boot.Paging
