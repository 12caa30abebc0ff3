import Tyleros.Lib.PagedMemory
import Tyleros.Lib.Machine
import Tyleros.Paging.Model

/-!
# The heap

`kernel/alloc.cpp`: every allocation takes whole pages from the physical and the
virtual allocator and is described by a node of a linked list, `struct allocation`.
The nodes lie one behind the other in pages of their own; a node is 24 bytes and one
word for each physical page.

The allocators below are parameters (`Suppliers`). Memory is the bytes of the
physical pages, reached through the page tables, which are the partial map that
`Paging.partial_map_run` shows them to be. `calls` records what was asked of the
allocators and the page tables. A block carries, next to the pointer that `alloc`
returns, what `alloc` took for it.

The kernel writes to the pages of an `EXEC` block although their entries do not allow it:
`enable_kernel_page_protection` means to set the bit WP of CR0, but its `or` has memory as
its destination and CR0 is written back as it was.
-/

namespace Tyleros.Alloc

open Lib Paging

/-- `pma.h` and `vma.h`, as far as the heap uses them. -/
structure Suppliers (π ν : Type) where
  getPhysicalPage : π → Except Stop (Nat × π)
  freePhysicalPage : Nat → π → Except Stop π
  getVirtualPages : Nat → ν → Except Stop (Nat × ν)
  freeVirtualPages : Nat → Nat → ν → Except Stop ν

inductive Call where
  | getPhysicalPage (page : Nat)
  | freePhysicalPage (page : Nat)
  | getVirtualPages (address size : Nat)
  | freeVirtualPages (address size : Nat)
  | mapPage (physicalPage virtualPage : Nat)
  | unmapPage (virtualPage : Nat)
  deriving DecidableEq, Repr

/-- The states of the allocators, memory and `allocations.first`. -/
structure State (π ν : Type) where
  pma : π
  vma : ν
  memory : PagedMemory PAGE_SIZE
  first : Nat
  calls : List Call

variable {π ν : Type}

namespace State

def load (s : State π ν) (a : Nat) : Except Stop Nat :=
  match s.memory.loadWord a with
  | some v => .ok v
  | none => .error (.fault "page fault")

/-- Go on with another memory, unless the access was not allowed. -/
def withMemory (s : State π ν) : Option (PagedMemory PAGE_SIZE) → Except Stop (State π ν)
  | some memory => .ok { s with memory }
  | none => .error (.fault "page fault")

def store (s : State π ν) (a v : Nat) : Except Stop (State π ν) :=
  s.withMemory (s.memory.storeWord a v)

/-- `memset(a, 0, count)`. -/
def memset (s : State π ν) (a count : Nat) : Except Stop (State π ν) :=
  s.withMemory (s.memory.storeBytes a (List.replicate count 0))

end State

/-! ## The calls to other parts of the kernel -/

section Calls

variable (S : Suppliers π ν) (s : State π ν)

def getPhysicalPage : Except Stop (Nat × State π ν) := do
  let (page, pma) ← S.getPhysicalPage s.pma
  return (page, { s with pma, calls := s.calls ++ [.getPhysicalPage page] })

def freePhysicalPage (page : Nat) : Except Stop (State π ν) := do
  let pma ← S.freePhysicalPage page s.pma
  return { s with pma, calls := s.calls ++ [.freePhysicalPage page] }

def getVirtualPages (size : Nat) : Except Stop (Nat × State π ν) := do
  let (address, vma) ← S.getVirtualPages size s.vma
  return (address, { s with vma, calls := s.calls ++ [.getVirtualPages address size] })

def freeVirtualPages (address size : Nat) : Except Stop (State π ν) := do
  let vma ← S.freeVirtualPages address size s.vma
  return { s with vma, calls := s.calls ++ [.freeVirtualPages address size] }

/-- `map_page(physical_page, virtual_page, attrs)`. -/
def mapPage (physicalPage virtualPage : Nat) (attrs : Word) : Except Stop (State π ν) := do
  kassert (virtualPage % PAGE_SIZE == 0) "virtual address must be page-aligned!"
  kassert (physicalPage % PAGE_SIZE == 0) "physical address must be page-aligned!"
  match s.memory.tables virtualPage with
  | some _ =>
    .error (.panic "Tried to map already-present page!\nVirtual :%p\nPhysical:%p\nEntry   :%lx\n")
  | none => return { s with
      memory := s.memory.map virtualPage ⟨physicalPage, attrs &&& RW != 0#64⟩
      calls := s.calls ++ [.mapPage physicalPage virtualPage] }

/-- `unmap_page(virtual_page)`. -/
def unmapPage (virtualPage : Nat) : Except Stop (State π ν) := do
  kassert (virtualPage % PAGE_SIZE == 0) "virtual address should be page-aligned!"
  match s.memory.tables virtualPage with
  | none => .error (.panic "Tried to unmap non-present page\nVirtual:%p")
  | some _ => return { s with
      memory := s.memory.unmap virtualPage
      calls := s.calls ++ [.unmapPage virtualPage] }

end Calls

/-! ## The list of allocations -/

/-- `sizeof(allocation) + sizeof(uintptr_t) * count`. -/
def nodeSize (count : Nat) : Nat := 24 + 8 * count

/-- The addresses of the fields of a node. -/
def nextField (node : Nat) : Nat := node

def sizeField (node : Nat) : Nat := node + 8

def listSizeField (node : Nat) : Nat := node + 16

def pageField (node i : Nat) : Nat := node + 24 + 8 * i

/-- More steps than a list can take that does not come back to one of its nodes. -/
def WALK : Nat := 2 ^ 64

/-- How the loop of `get_new_allocation` ends. -/
inductive Found where
  /-- A killed node with the right number of pages. -/
  | killed (node : Nat)
  /-- The last node, and `allocation_list_size`. -/
  | last (node listSize : Nat)
  deriving DecidableEq, Repr

/-- The loop of `get_new_allocation`. -/
def findNode (s : State π ν) (needed : Nat) : Nat → Nat → Nat → Except Stop Found
  | 0, _, _ => .error .hang
  | fuel + 1, last, listSize => do
    let count ← s.load (listSizeField last)
    let listSize := add64 listSize (nodeSize count % 2 ^ 64)
    let size ← s.load (sizeField last)
    if size = 0 ∧ count = needed then return .killed last
    else
      let next ← s.load (nextField last)
      if next = 0 then return .last last listSize
      else findNode s needed fuel next listSize

/-- A page for nodes. -/
def getNodePage (S : Suppliers π ν) (s : State π ν) : Except Stop (Nat × State π ν) := do
  let (physicalAddress, s) ← getPhysicalPage S s
  let (virtualAddress, s) ← getVirtualPages S s PAGE_SIZE
  let s ← mapPage s physicalAddress virtualAddress (RW ||| XD)
  return (virtualAddress, s)

/-- Where `get_new_allocation` puts a node of `size` bytes. -/
def placeNode (S : Suppliers π ν) (last listSize size : Nat) (s : State π ν) :
    Except Stop (Nat × State π ν) :=
  if listSize / PAGE_SIZE ≠ add64 listSize size / PAGE_SIZE then do
    kassert (add64 listSize size ≤ PAGE_SIZE) "allocation node won't fit in one page!"
    getNodePage S s
  else do
    let count ← s.load (listSizeField last)
    return (pageField last count, s)

/-- The end of `get_new_allocation`: write the new node and link it. -/
def writeNode (node last n needed : Nat) (s : State π ν) : Except Stop (State π ν) := do
  let s ← s.memset node (nodeSize needed)
  let s ← s.store (nextField node) 0
  let s ← s.store (sizeField node) n
  let s ← s.store (listSizeField node) needed
  s.store (nextField last) node

/-- `get_new_allocation(n)`. -/
def getNewAllocation (S : Suppliers π ν) (n : Nat) (s : State π ν) :
    Except Stop (Nat × State π ν) := do
  kassert (s.first != 0) "Tried to get a new allocation, but allocation list is null"
  let needed := divCeil n PAGE_SIZE
  match ← findNode s needed WALK s.first 0 with
  | .killed node =>
    let s ← s.store (sizeField node) n
    return (node, s)
  | .last last listSize =>
    let (node, s) ← placeNode S last listSize (nodeSize needed) s
    let s ← writeNode node last n needed s
    return (node, s)

/-- The loop of `remove_allocation`: the node in front of `node`, or the last one. -/
def findBefore (s : State π ν) (node : Nat) : Nat → Nat → Except Stop Nat
  | 0, _ => .error .hang
  | fuel + 1, last => do
    let next ← s.load (nextField last)
    if next = 0 then return last
    else if next = node then return last
    else findBefore s node fuel next

/-- `remove_allocation(node)`. -/
def removeAllocation (node : Nat) (s : State π ν) : Except Stop (State π ν) := do
  kassert (s.first != 0) "Tried to remove an allocation, but allocation list is null"
  let last ← findBefore s node WALK s.first
  s.store (sizeField last) 0

/-! ## The interface -/

/-- `init()`. -/
def init (S : Suppliers π ν) (s : State π ν) : Except Stop (State π ν) := do
  let (first, s) ← getNodePage S s
  let s : State π ν := { s with first }
  let s ← s.store (nextField first) 0
  let s ← s.store (sizeField first) 0
  s.store (listSizeField first) 0

inductive Protection where
  | READ_ONLY
  | READ_WRITE
  | EXEC
  deriving DecidableEq, Repr

/-- The attributes of the pages of an allocation. The cases of the `switch` fall
through. -/
def Protection.attrs : Protection → Word
  | .READ_ONLY => XD ||| RW ||| RW
  | .READ_WRITE => RW ||| RW
  | .EXEC => 0#64

/-- What `alloc` returned and took: the pointer, the virtual range, the alignment,
the attributes of the pages, the node and the physical pages. -/
structure Block where
  pointer : Nat
  base : Nat
  size : Nat
  alignment : Nat
  attrs : Word
  node : Nat
  pages : List Nat
  deriving DecidableEq, Repr

/-- `padded_header_size`. -/
def paddedHeaderSize (alignment : Nat) : Nat := alignTo 16 alignment

/-- `size_with_header`. -/
def sizeWithHeader (n alignment : Nat) : Nat :=
  alignTo (add64 n (paddedHeaderSize alignment)) PAGE_SIZE

/-- The number of rounds of `for (auto page = 0; page < (int)count; ++page)`. -/
def rounds (count : Nat) : Nat := (BitVec.ofNat 32 count).toInt.toNat

/-- `base + page * PAGE_SIZE`. -/
def virtualPage (base page : Nat) : Nat := add64 base (page * PAGE_SIZE % 2 ^ 64)

/-- The loop of `alloc`, with `count` rounds left: the physical pages and the
state. -/
def mapPages (S : Suppliers π ν) (base node : Nat) (attrs : Word) :
    Nat → Nat → State π ν → Except Stop (List Nat × State π ν)
  | 0, _, s => .ok ([], s)
  | count + 1, page, s => do
    let (physicalPage, s) ← getPhysicalPage S s
    let s ← mapPage s physicalPage (virtualPage base page) attrs
    let s ← s.store (pageField node page) physicalPage
    let (pages, s) ← mapPages S base node attrs count (page + 1) s
    return (physicalPage :: pages, s)

/-- `alloc(n, alignment, p)`; the block is `none` for a null pointer. -/
def alloc (S : Suppliers π ν) (n alignment : Nat) (p : Protection) (s : State π ν) :
    Except Stop (Option Block × State π ν) :=
  if n = 0 then .ok (none, s)
  else if alignment = 0 then .error (.fault "division by zero")
  else do
    let size := sizeWithHeader n alignment
    let (base, s) ← getVirtualPages S s size
    let (node, s) ← getNewAllocation S size s
    let pagesNeeded ← s.load (listSizeField node)
    let (pages, s) ← mapPages S base node p.attrs (rounds pagesNeeded) 0 s
    let s ← s.store base node
    let addr := add64 base (paddedHeaderSize alignment)
    let s ← s.store (sub64 addr 8) alignment
    return (some ⟨addr, base, size, alignment, p.attrs, node, pages⟩, s)

/-- The loop of `free`, for at most `fuel` rounds. -/
def freePages (S : Suppliers π ν) (header allocation : Nat) :
    Nat → Nat → State π ν → Except Stop (State π ν)
  | 0, _, _ => .error .hang
  | fuel + 1, page, s => do
    let count ← s.load (listSizeField allocation)
    if page < rounds count then
      let physicalPage ← s.load (pageField allocation page)
      let s ← freePhysicalPage S s physicalPage
      let s ← unmapPage s (virtualPage header page)
      freePages S header allocation fuel (page + 1) s
    else return s

/-- `free(p)`. -/
def free (S : Suppliers π ν) (p : Nat) (s : State π ν) : Except Stop (State π ν) :=
  if p = 0 then .ok s
  else do
    let alignment ← s.load (sub64 p 8)
    if alignment = 0 then .error (.fault "division by zero")
    else
      let header := sub64 p (paddedHeaderSize alignment)
      let allocation ← s.load header
      kassert (allocation != 0) "bad free: can't find the allocation!"
      let size ← s.load (sizeField allocation)
      let s ← freeVirtualPages S s header size
      let s ← freePages S header allocation (2 ^ 32) 0 s
      removeAllocation allocation s

/-! ## The heap with its live blocks -/

/-- The heap and the blocks that have not been freed, the latest one first. -/
structure Held (π ν : Type) where
  heap : State π ν
  live : List Block

inductive Op where
  | alloc (n alignment : UInt64) (p : Protection)
  | free (q : Nat)
  deriving DecidableEq, Repr

def Held.step (S : Suppliers π ν) (h : Held π ν) : Op → Except Stop (Held π ν)
  | .alloc n alignment p => do
    let (block, heap) ← Alloc.alloc S n.toNat alignment.toNat p h.heap
    return ⟨heap, block.toList ++ h.live⟩
  | .free q => do
    let heap ← Alloc.free S q h.heap
    return ⟨heap, h.live.eraseP (·.pointer == q)⟩

/-- Runs of `alloc` and `free`. -/
def machine (S : Suppliers π ν) : Machine (Held π ν) Op Stop := ⟨Held.step S⟩

end Tyleros.Alloc
