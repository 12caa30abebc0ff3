import Tyleros.Alloc.Kernel
import Tyleros.Pma.Region

/-!
# The memory of the running kernel

The page tables, the allocators and the heap together: the part of `kmain` that sets them
up (`memory::finish_init`, `paging::finish_init`, `vga::init` and `acpi::init`), and then
`map_page`, `map_range`, `alloc::alloc` and `alloc::free`.

The heap sees the pages it has mapped itself. What it asks of the page tables is recorded
in its `calls`, and `replay` executes these on the tables of `kernel_page_tables`, which
know about all mappings; so a page that somebody else has mapped stops the kernel here,
as it does there. The tables themselves are not in pages of the heap.
-/

namespace Tyleros.Kernel

open Lib Paging Alloc

/-- The page tables, the heap with the allocators below it, and the blocks that have not
been freed, with the protection they were allocated with. -/
structure State where
  tables : Paging.State
  heap : Alloc.State Pma.State Vma.State
  live : List (Protection × Block)

/-- What the pages of the bitmap, of the free list and of the heap hold at first. -/
structure Contents where
  limbs : Nat → BitVec 64
  nodes : Nat → Vma.FreeNode
  bytes : Nat → UInt8

/-! ## Memory accesses and calls -/

/-- The page can be accessed. -/
def accessible (s : Paging.State) (page : Word) : Bool :=
  (page.toNat < 2 ^ 47 || 2 ^ 64 - 2 ^ 47 ≤ page.toNat) && s.entryOf page &&& PRESENT != 0#64

/-- Write to `size` bytes from the page boundary `v` on. -/
def touch (s : Paging.State) (v : Word) (size : Nat) : Except Stop Unit :=
  if (List.range (divCeil size PAGE_SIZE)).all fun j => accessible s (pageAt v j) then .ok ()
  else .error (.fault "page fault")

/-- Execute the calls of the heap to the page tables, where `attrs` gives the attributes
of a virtual page that is mapped. -/
def replay (y : Symbols) (attrs : Nat → Word) : List Call → Paging.State → Except Stop Paging.State
  | [], s => .ok s
  | .mapPage physicalPage virtualPage :: rest, s => do
    let (_, s) ← Paging.mapPage y (BitVec.ofNat 64 physicalPage) (BitVec.ofNat 64 virtualPage)
      (attrs virtualPage) s
    replay y attrs rest s
  | .unmapPage virtualPage :: rest, s => do
    let s ← Paging.unmapPage (BitVec.ofNat 64 virtualPage) s
    replay y attrs rest s
  | _ :: rest, s => replay y attrs rest s

/-- The pages of a block are mapped with the attributes of the block, and pages for nodes
with those by default. -/
def attrsOf (block : Option Block) (v : Nat) : Word :=
  match block with
  | some b =>
    if v ∈ (List.range b.pages.length).map (virtualPage b.base) then b.attrs else DEFAULT_ATTRIBUTES
  | none => DEFAULT_ATTRIBUTES

/-! ## `memory::finish_init` -/

/-- Where `pma::early_init` puts the bitmap. -/
def bitmapAddress : List MemoryMap.Entry → Word
  | [] => 0#64
  | e :: _ => BitVec.ofNat 64 (alignTo e.base.toNat PAGE_SIZE) + VMA_OFFSET

/-- `pma::early_init`. The bitmap has a header of eight bytes. -/
def pmaEarlyInit (y : Symbols) (c : Contents) (memoryMap : List MemoryMap.Entry) (s : Paging.State) :
    Except Stop (Pma.State × Paging.State) := do
  let (pma, s) ← Pma.earlyInitMapped y c.limbs s memoryMap
  touch s (bitmapAddress memoryMap) (8 + 8 * pma.physicalPageMap.numLimbs)
  return (pma, s)

/-- `vma::init`. -/
def vmaInit (y : Symbols) (c : Contents) (pma : Pma.State) (s : Paging.State) :
    Except Stop (Pma.State × Vma.State × Paging.State) := do
  let (page, pma) ← Pma.getPhysicalPage pma
  let (virtualFreeList, s) ← identityMapPagesIntoKernelSpace y (BitVec.ofNat 64 page) 1
    DEFAULT_ATTRIBUTES s
  touch s virtualFreeList PAGE_SIZE
  let vma ← Vma.init c.nodes page
  return (pma, vma, s)

/-- `alloc::init`. The bit WP of CR0 is clear: nothing that boots the kernel sets it, and
`enable_kernel_page_protection` leaves CR0 as it is. -/
def allocInit (y : Symbols) (c : Contents) (pma : Pma.State) (vma : Vma.State) (s : Paging.State) :
    Except Stop State := do
  let heap ← Alloc.init kernelSuppliers ⟨pma, vma, ⟨fun _ => none, c.bytes, false⟩, 0, []⟩
  let s ← replay y (attrsOf none) heap.calls s
  return ⟨s, heap, []⟩

/-- `memory::finish_init`. -/
def memoryFinishInit (y : Symbols) (c : Contents) (memoryMap : List MemoryMap.Entry)
    (s : Paging.State) : Except Stop State := do
  let (pma, s) ← pmaEarlyInit y c memoryMap s
  let (pma, vma, s) ← vmaInit y c pma s
  allocInit y c pma vma s

/-! ## The rest of `kmain` -/

/-- `paging::finish_init`. -/
def pagingFinishInit (y : Symbols) (k : State) : Except Stop State := do
  let (physicalPages, pma) ← Pma.getContiguousPhysicalPages MAX_DYNAMIC_TABLES k.heap.pma
  let (virtualAddr, s) ← identityMapPagesIntoKernelSpace y (BitVec.ofNat 64 physicalPages)
    MAX_DYNAMIC_TABLES DEFAULT_ATTRIBUTES k.tables
  touch s virtualAddr (PAGE_SIZE * MAX_DYNAMIC_TABLES)
  let s := addDynamicTables virtualAddr s
  let vma ← Vma.removeFromFreeList virtualAddr.toNat (PAGE_SIZE * MAX_DYNAMIC_TABLES) k.heap.vma
  return { k with tables := s, heap := { k.heap with pma, vma } }

/-- `VGA_MEMORY_BASE_ADDRESS`. -/
def VGA_MEMORY_BASE_ADDRESS : Nat := 0xB8000

/-- `SCREEN_HEIGHT * SCREEN_WIDTH * sizeof(uint16_t)`. -/
def SCREEN_SIZE : Nat := 25 * 80 * 2

/-- `vga::init`, as far as it concerns the page tables. -/
def vgaInit (y : Symbols) (k : State) : Except Stop State := do
  let (_, s) ← identityMapPageRangeIntoKernelSpace y (BitVec.ofNat 64 VGA_MEMORY_BASE_ADDRESS)
    (BitVec.ofNat 64 SCREEN_SIZE) DEFAULT_ATTRIBUTES k.tables
  return { k with tables := s }

def RSDP_AREA_START : Nat := 0xE0000

def RSDP_AREA_SIZE : Nat := 0x100000 - 0xE0000

/-- `acpi::init`, as far as it concerns the page tables. -/
def acpiInit (y : Symbols) (k : State) : Except Stop State := do
  let (_, s) ← identityMapPageRangeIntoKernelSpace y (BitVec.ofNat 64 RSDP_AREA_START)
    (BitVec.ofNat 64 RSDP_AREA_SIZE) DEFAULT_ATTRIBUTES k.tables
  return { k with tables := s }

/-- `kmain` from `paging::early_init` to `acpi::init`, with what memory held before. -/
def kmain (y : Symbols) (z : Sections) (memory : Word → Word) (c : Contents)
    (memoryMap : List MemoryMap.Entry) : Except Stop State := do
  let s ← Paging.boot y z KERNEL_STACK memory
  let k ← memoryFinishInit y c memoryMap s
  let k ← pagingFinishInit y k
  let k ← vgaInit y k
  acpiInit y k

/-! ## Runs -/

/-- `map_page` and `map_range` with the attributes by default, `memory::finish_init` and
the heap. -/
inductive Op where
  | mapPage (physicalPage virtualPage : Word)
  | mapRange (physicalStart physicalEnd virtualStart virtualEnd : Word)
  | finishInit (c : Contents) (memoryMap : List MemoryMap.Entry)
  | alloc (n alignment : UInt64) (p : Protection)
  | free (q : Nat)

/-- The heap goes from `heap` to `heap'`; the tables follow. -/
def follow (y : Symbols) (attrs : Nat → Word) (heap heap' : Alloc.State Pma.State Vma.State)
    (s : Paging.State) : Except Stop Paging.State :=
  replay y attrs (heap'.calls.drop heap.calls.length) s

def State.step (y : Symbols) (k : State) : Op → Except Stop State
  | .mapPage physicalPage virtualPage => do
    let (_, s) ← Paging.mapPage y physicalPage virtualPage DEFAULT_ATTRIBUTES k.tables
    return { k with tables := s }
  | .mapRange physicalStart physicalEnd virtualStart virtualEnd => do
    let (_, s) ← Paging.mapRange y physicalStart physicalEnd virtualStart virtualEnd
      DEFAULT_ATTRIBUTES k.tables
    return { k with tables := s }
  | .finishInit c memoryMap => memoryFinishInit y c memoryMap k.tables
  | .alloc n alignment p => do
    let (block, heap) ← Alloc.alloc kernelSuppliers n.toNat alignment.toNat p k.heap
    let s ← follow y (attrsOf block) k.heap heap k.tables
    return ⟨s, heap, (block.map (p, ·)).toList ++ k.live⟩
  | .free q => do
    let heap ← Alloc.free kernelSuppliers q k.heap
    let s ← follow y (attrsOf none) k.heap heap k.tables
    return ⟨s, heap, k.live.eraseP (·.2.pointer == q)⟩

def machine (y : Symbols) : Machine State Op Stop := ⟨State.step y⟩

end Tyleros.Kernel
