import Tyleros.Alloc.Model

/-!
# The list of nodes in memory

`Chain` says that memory holds a list of nodes. `findNode_spec` and
`findBefore_spec` give the results of the two walks over the list.
`Chain.setSize` and `Chain.link` are the two changes that are made to it: another
size in one node, and a new node at the end. Each asks only for the words of the
nodes.
-/

namespace Tyleros.Alloc

open Lib

/-- A node with the fields that do not point elsewhere. -/
structure Node where
  addr : Nat
  size : Nat
  count : Nat
  deriving DecidableEq, Repr

/-- The address behind the node. -/
def Node.stop (n : Node) : Nat := n.addr + nodeSize n.count

def nextOf : List Node → Nat
  | [] => 0
  | n :: _ => n.addr

/-- The words of a node in memory. -/
structure Holds (m : PagedMemory PAGE_SIZE) (n : Node) (next : Nat) : Prop where
  next : m.loadWord (nextField n.addr) = some next
  size : m.loadWord (sizeField n.addr) = some n.size
  count : m.loadWord (listSizeField n.addr) = some n.count

def Chain (m : PagedMemory PAGE_SIZE) : List Node → Prop
  | [] => True
  | n :: rest => Holds m n (nextOf rest) ∧ Chain m rest

/-- `allocation_list_size` at the end of the list. -/
def total (nodes : List Node) : Nat := (nodes.map fun n => nodeSize n.count).sum

theorem total_cons (n : Node) (rest : List Node) : total (n :: rest) = nodeSize n.count + total rest :=
  List.sum_cons

theorem total_append (front back : List Node) :
    total (front ++ back) = total front + total back := by
  rw [total, List.map_append, List.sum_append]
  rfl

theorem length_le_total (nodes : List Node) : 24 * nodes.length ≤ total nodes := by
  induction nodes with
  | nil => exact Nat.le_refl 0
  | cons n rest ih =>
      rw [total_cons, List.length_cons]
      unfold nodeSize
      omega

theorem nodeSize_le_total {nodes : List Node} {n : Node} (mem : n ∈ nodes) :
    nodeSize n.count ≤ total nodes := by
  obtain ⟨front, back, rfl⟩ := List.append_of_mem mem
  rw [total_append, total_cons]
  omega

section Walks

variable {π ν : Type} {s : State π ν} {nodes rest : List Node} {first : Node}

theorem State.load_eq {a v : Nat} (h : s.memory.loadWord a = some v) : s.load a = .ok v := by
  rw [State.load, h]

/-- The walk reads nothing but memory. -/
theorem findNode_congr {s' : State π ν} (memory : s'.memory = s.memory)
    (needed fuel last listSize : Nat) :
    findNode s' needed fuel last listSize = findNode s needed fuel last listSize := by
  have load : s'.load = s.load := by
    funext a
    unfold State.load
    rw [memory]
  induction fuel generalizing last listSize with
  | zero => rfl
  | succ fuel ih =>
      unfold findNode
      simp only [load, ih]

/-- The loop of `get_new_allocation` finds a killed node or the last node. -/
theorem findNode_spec (needed listSize : Nat) {fuel : Nat} (chain : Chain s.memory (first :: rest))
    (nonzero : ∀ n ∈ rest, n.addr ≠ 0) (enough : rest.length < fuel)
    (small : listSize + total (first :: rest) < 2 ^ 64) :
    (∃ n ∈ first :: rest, n.size = 0 ∧ n.count = needed ∧
        findNode s needed fuel first.addr listSize = .ok (.killed n.addr)) ∨
      ∃ front n, first :: rest = front ++ [n] ∧ findNode s needed fuel first.addr listSize =
        .ok (.last n.addr (listSize + total (first :: rest))) := by
  induction rest generalizing first fuel listSize with
  | nil =>
      obtain ⟨fuel, rfl⟩ := Nat.exists_eq_succ_of_ne_zero (Nat.ne_of_gt enough)
      obtain ⟨holds, -⟩ := chain
      rw [total_cons] at small ⊢
      unfold findNode
      rw [State.load_eq holds.count, ok_bind, State.load_eq holds.size, ok_bind]
      split
      · next killed => exact Or.inl ⟨first, List.mem_cons_self, killed.1, killed.2, rfl⟩
      · refine Or.inr ⟨[], first, rfl, ?_⟩
        rw [State.load_eq holds.next, ok_bind, if_pos (show nextOf [] = 0 from rfl),
          Nat.mod_eq_of_lt (by omega), add64_eq (by omega)]
        rfl
  | cons second rest ih =>
      obtain ⟨fuel, rfl⟩ := Nat.exists_eq_succ_of_ne_zero (Nat.ne_of_gt (Nat.zero_lt_of_lt enough))
      obtain ⟨holds, tail⟩ := chain
      rw [total_cons] at small ⊢
      have later := ih (listSize + nodeSize first.count) tail
        (fun n mem => nonzero n (List.mem_cons_of_mem _ mem)) (Nat.lt_of_succ_lt_succ enough)
        (by omega)
      have next : (nextOf (second :: rest)) ≠ 0 := nonzero second List.mem_cons_self
      unfold findNode
      rw [State.load_eq holds.count, ok_bind, State.load_eq holds.size, ok_bind]
      split
      · next killed => exact Or.inl ⟨first, List.mem_cons_self, killed.1, killed.2, rfl⟩
      · rw [State.load_eq holds.next, ok_bind, if_neg next, Nat.mod_eq_of_lt (by omega),
          add64_eq (by omega)]
        rcases later with ⟨n, mem, size, count, found⟩ | ⟨front, n, split_, found⟩
        · exact Or.inl ⟨n, List.mem_cons_of_mem _ mem, size, count, found⟩
        · refine Or.inr ⟨first :: front, n, by rw [split_]; rfl, ?_⟩
          rw [Nat.add_assoc] at found
          exact found

/-- One round of the loop of `remove_allocation`. -/
theorem findBefore_cons {node fuel : Nat} {second : Node}
    (chain : Chain s.memory (first :: second :: rest)) (nonzero : second.addr ≠ 0) :
    findBefore s node (fuel + 1) first.addr =
      if second.addr = node then .ok first.addr else findBefore s node fuel second.addr := by
  have next : nextOf (second :: rest) ≠ 0 := nonzero
  rw [findBefore, State.load_eq chain.1.next, ok_bind, if_neg next]
  rfl

/-- The loop of `remove_allocation` stops in front of the node, if that is not the
first one. -/
theorem findBefore_spec {node fuel : Nat} (chain : Chain s.memory (first :: rest))
    (nonzero : ∀ n ∈ rest, n.addr ≠ 0) (mem : ∃ n ∈ rest, n.addr = node)
    (enough : rest.length < fuel) :
    ∃ n ∈ first :: rest, findBefore s node fuel first.addr = .ok n.addr ∧
      s.memory.loadWord (nextField n.addr) = some node := by
  induction rest generalizing first fuel with
  | nil =>
      obtain ⟨n, mem, -⟩ := mem
      exact absurd mem List.not_mem_nil
  | cons second rest ih =>
      obtain ⟨fuel, rfl⟩ := Nat.exists_eq_succ_of_ne_zero (Nat.ne_of_gt (Nat.zero_lt_of_lt enough))
      rw [Nat.succ_eq_add_one, findBefore_cons chain (nonzero second List.mem_cons_self)]
      obtain ⟨holds, tail⟩ := chain
      by_cases here : second.addr = node
      · refine ⟨first, List.mem_cons_self, if_pos here, ?_⟩
        rw [← here]
        exact holds.next
      · obtain ⟨n, inRest, eq⟩ := mem
        have later : n ∈ rest := by
          rcases List.mem_cons.mp inRest with rfl | later
          · exact absurd eq here
          · exact later
        obtain ⟨m, memM, found, points⟩ := ih tail
          (fun n mem => nonzero n (List.mem_cons_of_mem _ mem)) ⟨n, later, eq⟩
          (Nat.lt_of_succ_lt_succ enough)
        refine ⟨m, List.mem_cons_of_mem _ memM, ?_, points⟩
        rw [if_neg here]
        exact found

end Walks

/-! ## Changes to the list -/

section Changes

variable {m m' : PagedMemory PAGE_SIZE} {nodes : List Node}

theorem Chain.transport (chain : Chain m nodes)
    (same : ∀ n ∈ nodes, ∀ w, w = nextField n.addr ∨ w = sizeField n.addr ∨
      w = listSizeField n.addr → m'.loadWord w = m.loadWord w) : Chain m' nodes := by
  induction nodes with
  | nil => trivial
  | cons n rest ih =>
      obtain ⟨holds, tail⟩ := chain
      have here := same n List.mem_cons_self
      refine ⟨⟨?_, ?_, ?_⟩, ih tail fun n mem => same n (List.mem_cons_of_mem _ mem)⟩
      · exact (here _ (Or.inl rfl)).trans holds.next
      · exact (here _ (Or.inr (Or.inl rfl))).trans holds.size
      · exact (here _ (Or.inr (Or.inr rfl))).trans holds.count

theorem Chain.holds {n : Node} (chain : Chain m nodes) (mem : n ∈ nodes) :
    ∃ next, Holds m n next := by
  induction nodes with
  | nil => exact absurd mem List.not_mem_nil
  | cons k rest ih =>
      rcases List.mem_cons.mp mem with rfl | later
      · exact ⟨_, chain.1⟩
      · exact ih chain.2 later

theorem Chain.last {front : List Node} {last : Node} (chain : Chain m (front ++ [last])) :
    Holds m last 0 := by
  induction front with
  | nil => exact chain.1
  | cons n front ih => exact ih chain.2

/-- The node at `addr` with another size. -/
def setSize (nodes : List Node) (addr size : Nat) : List Node :=
  nodes.map fun n => if n.addr = addr then { n with size } else n

theorem nextOf_setSize (nodes : List Node) (addr size : Nat) :
    nextOf (setSize nodes addr size) = nextOf nodes := by
  cases nodes with
  | nil => rfl
  | cons n rest =>
      show (if n.addr = addr then { n with size } else n).addr = n.addr
      split <;> rfl

theorem total_setSize (nodes : List Node) (addr size : Nat) :
    total (setSize nodes addr size) = total nodes := by
  unfold total setSize
  rw [List.map_map]
  refine congrArg List.sum (List.map_congr_left fun n _ => ?_)
  show nodeSize (if n.addr = addr then { n with size } else n).count = _
  split <;> rfl

/-- Another size in the node at `addr`. -/
theorem Chain.setSize {addr size : Nat} (chain : Chain m nodes)
    (changed : m'.loadWord (sizeField addr) = some size)
    (same : ∀ n ∈ nodes, ∀ w, w = nextField n.addr ∨ w = sizeField n.addr ∧ n.addr ≠ addr ∨
      w = listSizeField n.addr → m'.loadWord w = m.loadWord w) :
    Chain m' (setSize nodes addr size) := by
  induction nodes with
  | nil => trivial
  | cons n rest ih =>
      obtain ⟨holds, tail⟩ := chain
      have here := same n List.mem_cons_self
      have next := (here _ (Or.inl rfl)).trans holds.next
      have count := (here _ (Or.inr (Or.inr rfl))).trans holds.count
      refine ⟨?_, ih tail fun n mem => same n (List.mem_cons_of_mem _ mem)⟩
      show Holds m' (if n.addr = addr then { n with size } else n)
        (nextOf (Alloc.setSize rest addr size))
      rw [nextOf_setSize]
      split
      · next eq => exact ⟨next, eq ▸ changed, count⟩
      · next ne => exact ⟨next, (here _ (Or.inr (Or.inl ⟨rfl, ne⟩))).trans holds.size, count⟩

/-- A new node behind the last one. -/
theorem Chain.link {front : List Node} {last new : Node} (chain : Chain m (front ++ [last]))
    (linked : m'.loadWord (nextField last.addr) = some new.addr) (holds : Holds m' new 0)
    (same : ∀ n ∈ front ++ [last], ∀ w, w = nextField n.addr ∧ n ∈ front ∨
      w = sizeField n.addr ∨ w = listSizeField n.addr → m'.loadWord w = m.loadWord w) :
    Chain m' (front ++ [last, new]) := by
  induction front with
  | nil =>
      obtain ⟨old, -⟩ := chain
      have here := same last (List.mem_singleton.mpr rfl)
      refine ⟨⟨linked, ?_, ?_⟩, holds, trivial⟩
      · exact (here _ (Or.inr (Or.inl rfl))).trans old.size
      · exact (here _ (Or.inr (Or.inr rfl))).trans old.count
  | cons n front ih =>
      obtain ⟨old, tail⟩ := chain
      have here := same n List.mem_cons_self
      have next : nextOf (front ++ [last, new]) = nextOf (front ++ [last]) := by
        cases front <;> rfl
      have rest := ih tail fun k mem w eq => same k (List.mem_cons_of_mem _ mem) w
        (eq.imp_left fun first => ⟨first.1, List.mem_cons_of_mem _ first.2⟩)
      refine ⟨⟨?_, ?_, ?_⟩, rest⟩
      · rw [here _ (Or.inl ⟨rfl, List.mem_cons_self⟩), old.next]
        exact congrArg some next.symm
      · exact (here _ (Or.inr (Or.inl rfl))).trans old.size
      · exact (here _ (Or.inr (Or.inr rfl))).trans old.count

end Changes

end Tyleros.Alloc
