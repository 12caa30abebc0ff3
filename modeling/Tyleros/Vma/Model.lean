import Tyleros.Basic
import Mathlib.Logic.Function.Basic
import Mathlib.Order.Interval.Set.Basic

/-!
# The virtual memory allocator

`kernel/vma.cpp`: a linked list of free address ranges whose nodes live in an
array that fills one page. A node pointer is modelled by its index in the array,
`virtual_free_list` being index 0. The array is whatever the page held before,
except for the nodes that were written.

`listed` is the sequence of nodes the loops `for (node = virtual_free_list;
node != nullptr; node = node->next)` visit. A page has room for `NODES_PER_PAGE`
nodes and the walk is cut off there; in reachable states the list ends before that
(`ListInv`).
-/

namespace Tyleros.Vma

/-- `vma::free_node`; `next` is the index of the next node, `none` for null. -/
structure FreeNode where
  base : Nat
  size : Nat
  next : Option Nat
  deriving DecidableEq, Repr

/-- The addresses of a free node, none if it has been emptied. -/
def FreeNode.range (n : FreeNode) : Set Nat := Set.Ico n.base (n.base + n.size)

/-- `NODES_PER_PAGE`: a `free_node` takes 24 bytes. -/
def NODES_PER_PAGE : Nat := PAGE_SIZE / 24

/-- The variables of `vma.cpp`, with the node array at `virtual_free_list`. -/
structure State where
  nodes : Nat → FreeNode
  freeListSize : Nat
  maxFreeListSize : Nat

/-- Overwrite one node. -/
def State.setNode (s : State) (i : Nat) (n : FreeNode) : State :=
  { s with nodes := Function.update s.nodes i n }

theorem State.nodes_setNode (s : State) (i j : Nat) (n : FreeNode) :
    (s.setNode i n).nodes j = if j = i then n else s.nodes j := Function.update_apply _ _ _ _

theorem State.nodes_setNode_self (s : State) (i : Nat) (n : FreeNode) :
    (s.setNode i n).nodes i = n := Function.update_self _ _ _

theorem State.nodes_setNode_of_ne (s : State) {i j : Nat} (ne : j ≠ i) (n : FreeNode) :
    (s.setNode i n).nodes j = s.nodes j := Function.update_of_ne ne _ _

/-- The nodes met from `node` on, following `next` at most `fuel` times. -/
def State.listedFrom (s : State) : Nat → Option Nat → List Nat
  | 0, _ => []
  | _, none => []
  | fuel + 1, some i => i :: s.listedFrom fuel (s.nodes i).next

/-- The nodes reachable from `virtual_free_list`, in order. -/
def State.listed (s : State) : List Nat := s.listedFrom NODES_PER_PAGE (some 0)

/-- The free addresses: the union of the ranges of all nodes on the list. -/
def State.free (s : State) : Set Nat := {x | ∃ i ∈ s.listed, x ∈ (s.nodes i).range}

/-! ## Adding a range -/

/-- `end_of_current_node`, `end_of_new_node`: the last address of a range. -/
def lastAddress (base size : Nat) : Nat := sub64 (add64 base size) 1

/-- The area to be freed is just before the node. -/
def endsBefore (n : FreeNode) (base size : Nat) : Bool :=
  sub64 n.base 1 == lastAddress base size

/-- The area to be freed is at the end of the node. -/
def startsBehind (n : FreeNode) (base : Nat) : Bool :=
  sub64 base 1 == lastAddress n.base n.size

/-- How the walk of `add_node_to_free_list` ends. -/
inductive AddWalk where
  /-- The area was merged into node `i`, which becomes `node`. -/
  | merged (i : Nat) (node : FreeNode)
  /-- Nothing to merge with: the last node, and the first empty one if any. -/
  | unmerged (last : Nat) (emptyNode : Option Nat)
  deriving DecidableEq, Repr

/-- The loop of `add_node_to_free_list` over the nodes still to visit. -/
def addWalk (s : State) (base size : Nat) : List Nat → Nat → Option Nat → AddWalk
  | [], last, emptyNode => .unmerged last emptyNode
  | i :: rest, _, emptyNode =>
    let node := s.nodes i
    if emptyNode = none ∧ node.size = 0 then addWalk s base size rest i (some i)
    else if endsBefore node base size then
      .merged i { node with base := base, size := add64 node.size size }
    else if startsBehind node base then
      .merged i { node with size := add64 node.size size }
    else addWalk s base size rest i emptyNode

/-- `add_node_to_free_list(base, size)`. An empty node that is reused gets a null
`next`. -/
def addNodeToFreeList (base size : Nat) (s : State) : Except Stop State :=
  match addWalk s base size s.listed 0 none with
  | .merged i node => .ok (s.setNode i node)
  | .unmerged _ (some emptyNode) => .ok (s.setNode emptyNode ⟨base, size, none⟩)
  | .unmerged last none => do
    let emptyNode := last + 1
    let linked := s.setNode last { s.nodes last with next := some emptyNode }
    let grown := { linked with freeListSize := s.freeListSize + 1 }
    kassert (grown.freeListSize != grown.maxFreeListSize) "No more free nodes!"
    return grown.setNode emptyNode ⟨base, size, none⟩

/-! ## The interface -/

/-- The test of `remove_from_free_list`: the area lies inside the node. -/
def coversArea (n : FreeNode) (base size : Nat) : Bool :=
  n.base ≤ base && lastAddress base size ≤ lastAddress n.base n.size

/-- `remove_from_free_list(base, size)`. -/
def removeFromFreeList (base size : Nat) (s : State) : Except Stop State :=
  let size := alignTo size PAGE_SIZE
  match s.listed.find? fun i => coversArea (s.nodes i) base size with
  | none => .error (.panic
      "couldn't find region from %p to %p in free list: was it already freed?")
  | some i =>
    let node := s.nodes i
    let endOfNode := lastAddress node.base node.size
    let endOfArea := lastAddress base size
    let shrunk := s.setNode i { node with size := sub64 base node.base }
    addNodeToFreeList (add64 endOfArea 1) (sub64 endOfNode endOfArea) shrunk

/-- `get_virtual_pages(size)`. -/
def getVirtualPages (size : Nat) (s : State) : Except Stop (Nat × State) := do
  kassert (size != 0) "Tried to allocate page of size 0!"
  kassert (size % PAGE_SIZE == 0) "size must be page-aligned!"
  match s.listed.find? fun i => size ≤ (s.nodes i).size with
  | none => .error (.panic "Allocation failed, out of virtual pages!")
  | some i =>
    let node := s.nodes i
    return (node.base,
      s.setNode i { node with base := add64 node.base size, size := sub64 node.size size })

/-- `free_virtual_pages(address, size)`. -/
def freeVirtualPages (address size : Nat) (s : State) : Except Stop State := do
  kassert (address != 0) "Tried to free page at 0x0!"
  kassert (size != 0) "Tried to free page of size 0!"
  addNodeToFreeList address size s

/-! ## Initialisation -/

/-- A signed address as a word. -/
def ofSigned (a : Int) : Nat := (a % 2 ^ 64).toNat

def MAX_POSITIVE_VIRTUAL_ADDR : Int := 2 ^ 42 - 1

def MIN_NEGATIVE_VIRTUAL_ADDR : Int := -2 ^ 42

def MAX_NEGATIVE_VIRTUAL_ADDR : Int := -1

/-- The lambda `mark_free_range` of `init`, on `intptr_t`. -/
def markFreeRange (start stop : Int) (s : State) : Except Stop State :=
  if start < stop then addNodeToFreeList (ofSigned start) (ofSigned (stop - start + 1)) s
  else addNodeToFreeList (ofSigned stop) (ofSigned (start - stop + 1)) s

/-- `init`, up to the point where the list holds all of the free space; `memory`
is what the page of the list held. -/
def markFree (memory : Nat → FreeNode) : Except Stop State := do
  let s : State := ⟨Function.update memory 0 ⟨0, 0, none⟩, 0, NODES_PER_PAGE⟩
  let s ← markFreeRange 0x200000 MAX_POSITIVE_VIRTUAL_ADDR s
  let s ← markFreeRange MIN_NEGATIVE_VIRTUAL_ADDR (KERNEL_VMA_START - 2 ^ 64 - 1) s
  markFreeRange (KERNEL_VMA_END - 2 ^ 64) MAX_NEGATIVE_VIRTUAL_ADDR s

/-- `init`, with `physicalPage` the page `pma::get_physical_page` returned for the
list. It is identity mapped into kernel space, which asserts its alignment. -/
def init (memory : Nat → FreeNode) (physicalPage : Nat) : Except Stop State := do
  let virtualFreeList := add64 physicalPage KERNEL_VMA_OFFSET
  kassert (virtualFreeList % PAGE_SIZE == 0) "virtual addresses must be page-aligned!"
  kassert (physicalPage % PAGE_SIZE == 0) "physical addresses must be page-aligned!"
  let s ← markFree memory
  removeFromFreeList virtualFreeList PAGE_SIZE s

end Tyleros.Vma
