import Tyleros.MemoryMap
import Mathlib.Data.List.FinRange
import Mathlib.Order.Defs.Unbundled

/-!
# The sort, in its array

`kstd::insertion_sort` of `kernel/util/algorithm.h` as it moves the elements of an array:
every index it uses is one of the array's. `toList_insertionSort` connects its two loops to
the sort of the memory map, which keeps the sorted part in a list.

The inner loop goes on as long as the comparator is false, so equal elements trade places.
All that the result rests on is that the comparator is asymmetric and transitive.
-/

namespace Tyleros.Kstd

open MemoryMap (Entry better insertBack)

variable {α : Type} {n : Nat}

/-- The inner loop, for `j + 1 = k`, and the store behind it. -/
def insertDown (less : α → α → Bool) (v : α) : (k : Nat) → k < n → Vector α n → Vector α n
  | 0, h, a => a.set 0 v h
  | j + 1, h, a =>
    if less a[j] v then a.set (j + 1) v h
    else insertDown less v j (by omega) (a.set (j + 1) a[j] h)

/-- `kstd::insertion_sort`: the outer loop starts at index 1. -/
def insertionSort (less : α → α → Bool) (a : Vector α n) : Vector α n :=
  ((List.finRange n).drop 1).foldl (fun a (i : Fin n) => insertDown less a[i] i i.isLt a) a

/-! ## The loops -/

section loops

variable {less : α → α → Bool} {v x y : α} {front rest : List α} {a : Vector α n} {k : Nat}

/-- The element behind the first `k`. -/
theorem getElem_of_toList (h : k < n) (shape : a.toList = front ++ x :: rest)
    (len : front.length = k) : a[k] = x := by
  have here : a.toList[k]? = some x := by
    rw [shape, List.getElem?_append_right len.le, len, Nat.sub_self]
    rfl
  rw [← Vector.getElem_toList (by simpa using h)]
  exact (List.getElem?_eq_some_iff.mp here).2

/-- The element behind the first `k` is overwritten. -/
theorem toList_set (h : k < n) (shape : a.toList = front ++ x :: rest)
    (len : front.length = k) : (a.set k y h).toList = front ++ y :: rest := by
  rw [Vector.toList_set, shape, List.set_append_right _ _ len.le, len, Nat.sub_self]
  rfl

/-- The inner loop leaves what is behind `k` alone, and inserts `v` into the part in front. The
element at `k` is one that was saved already. -/
theorem toList_insertDown (sorted : List α) (h : k < n)
    (shape : a.toList = sorted.reverse ++ x :: rest) (len : sorted.length = k) :
    (insertDown less v k h a).toList = (insertBack less v sorted).reverse ++ rest := by
  induction k generalizing a sorted x rest with
  | zero =>
      obtain rfl := List.eq_nil_of_length_eq_zero len
      exact toList_set h shape rfl
  | succ j ih =>
      rcases sorted with _ | ⟨y, front⟩
      · cases len
      · have short : front.length = j := Nat.succ.inj len
        have split : a.toList = front.reverse ++ y :: x :: rest := by
          rw [shape, List.reverse_cons, List.append_assoc]
          rfl
        have before : a[j] = y :=
          getElem_of_toList (by omega) split (by rw [List.length_reverse, short])
        have back : (y :: front).reverse.length = j + 1 := by rw [List.length_reverse, len]
        unfold insertDown insertBack
        rw [before]
        split
        · rw [toList_set h shape back, List.reverse_cons (a := v), List.append_assoc]
          rfl
        · have moved : (a.set (j + 1) y h).toList = front.reverse ++ y :: y :: rest := by
            rw [toList_set h shape back, List.reverse_cons, List.append_assoc]
            rfl
          rw [ih front (by omega) moved short, List.reverse_cons, List.append_assoc]
          rfl

/-- The outer loop from `k` on: the elements from there are inserted one after the other. -/
theorem toList_foldl_insertDown (sorted rest : List α) (len : sorted.length = k)
    (shape : a.toList = sorted.reverse ++ rest) :
    (((List.finRange n).drop k).foldl
      (fun a (i : Fin n) => insertDown less a[i] i i.isLt a) a).toList =
      (rest.foldl (fun sorted v => insertBack less v sorted) sorted).reverse := by
  have total : n = k + rest.length := by
    have both := congrArg List.length shape
    rw [List.length_append, List.length_reverse, len] at both
    simpa using both
  induction rest generalizing a sorted k with
  | nil =>
      have beyond : (List.finRange n).drop k = [] :=
        List.drop_eq_nil_of_le (by simpa using total.le)
      rw [beyond, List.foldl_nil, List.foldl_nil, shape, List.append_nil]
  | cons v rest ih =>
      have h : k < n := by simp at total; omega
      have next : (List.finRange n).drop k = ⟨k, h⟩ :: (List.finRange n).drop (k + 1) := by
        rw [List.drop_eq_getElem_cons (by simpa using h), List.getElem_finRange]
        rfl
      have here : a[k] = v := getElem_of_toList h shape (by rw [List.length_reverse, len])
      rw [next, List.foldl_cons, List.foldl_cons]
      apply ih
      · rw [(MemoryMap.insertBack_perm v sorted).length_eq, List.length_cons, len]
      · show (insertDown less a[k] k h a).toList = _
        rw [here, toList_insertDown sorted h shape len]
      · rw [List.length_cons] at total
        omega

/-- The array is sorted as the list of its elements is. -/
theorem toList_insertionSort (a : Vector α n) :
    (insertionSort less a).toList = MemoryMap.insertionSort less a.toList := by
  unfold insertionSort MemoryMap.insertionSort
  cases elements : a.toList with
  | nil =>
      have empty : n = 0 := by simpa using congrArg List.length elements
      subst empty
      exact elements
  | cons v rest => exact toList_foldl_insertDown [v] rest rfl elements

end loops

/-! ## The order -/

section order

variable {less : α → α → Bool} [IsStrictOrder α (fun x y => less x y = true)]

/-- The sorted part, kept in reverse, has no element that is less than one behind it. -/
theorem pairwise_insertBack (v : α) {sorted : List α}
    (h : sorted.Pairwise (fun x y => less x y = false)) :
    (insertBack less v sorted).Pairwise (fun x y => less x y = false) := by
  induction sorted with
  | nil => exact List.pairwise_singleton _ v
  | cons x front ih =>
      obtain ⟨below, rest⟩ := List.pairwise_cons.mp h
      unfold insertBack
      split
      · next above =>
          apply List.pairwise_cons.mpr
          refine ⟨fun y hy => ?_, h⟩
          rcases List.mem_cons.mp hy with rfl | hy
          · exact Bool.eq_false_iff.mpr (asymm (r := fun x y => less x y = true) above)
          · -- otherwise `x` were less than `y`
            apply Bool.eq_false_iff.mpr
            intro under
            have chain : less x y = true :=
              IsTrans.trans (r := fun x y => less x y = true) x v y above under
            rw [below y hy] at chain
            cases chain
      · next above =>
          apply List.pairwise_cons.mpr
          refine ⟨fun y hy => ?_, ih rest⟩
          rcases List.mem_cons.mp ((MemoryMap.insertBack_perm v front).mem_iff.mp hy) with rfl | hy
          · exact Bool.eq_false_iff.mpr above
          · exact below y hy

theorem pairwise_foldl_insertBack (l : List α) {sorted : List α}
    (h : sorted.Pairwise (fun x y => less x y = false)) :
    (l.foldl (fun sorted v => insertBack less v sorted) sorted).Pairwise
      (fun x y => less x y = false) := by
  induction l generalizing sorted with
  | nil => exact h
  | cons v l ih => exact ih (pairwise_insertBack v h)

/-- The result of a sort is a permutation in which no element is less than one before it. -/
theorem insertionSort_sorts (a : Vector α n) :
    (insertionSort less a).toList.Perm a.toList ∧
      (insertionSort less a).toList.Pairwise (fun x y => less y x = false) := by
  rw [toList_insertionSort]
  have sorted : (a.toList.foldl (fun sorted v => insertBack less v sorted) []).Pairwise
      (fun x y => less x y = false) := pairwise_foldl_insertBack a.toList List.Pairwise.nil
  exact ⟨MemoryMap.insertionSort_perm a.toList, List.pairwise_reverse.mpr sorted⟩

end order

/-- A comparator that compares ranks is a strict weak order. -/
theorem isStrictWeakOrder_of_rank {less : α → α → Bool} {rank : α → Nat}
    (compares : ∀ x y, less x y = true ↔ rank y < rank x) :
    IsStrictWeakOrder α (fun x y => less x y = true) where
  irrefl x h := lt_irrefl _ ((compares x x).mp h)
  trans x y z left right :=
    (compares x z).mpr (((compares y z).mp right).trans ((compares x y).mp left))
  incomp_trans x y z left right := by
    simp only [compares] at *
    omega

/-- For every comparator that is a strict weak order the sort is a sort, and the comparator of
`sort_memory_map` is one. -/
theorem insertionSort_sorts_and_better_orders :
    (∀ (α : Type) (less : α → α → Bool) [IsStrictWeakOrder α (fun x y => less x y = true)]
      (n : Nat) (a : Vector α n),
      (insertionSort less a).toList.Perm a.toList ∧
        (insertionSort less a).toList.Pairwise (fun x y => less y x = false)) ∧
      IsStrictWeakOrder Entry (fun x y => better x y = true) := by
  constructor
  · intro α less weak n a
    exact insertionSort_sorts a
  · exact isStrictWeakOrder_of_rank MemoryMap.better_iff_rank

/-- Two usable entries and an unusable one. -/
theorem insertionSort_sorts_three_entries :
    insertionSort better #v[⟨0x0, 0xA0000, 2⟩, ⟨0x500, 0x9FB00, 1⟩, ⟨0x100000, 0x7EE0000, 1⟩] =
        #v[⟨0x100000, 0x7EE0000, 1⟩, ⟨0x500, 0x9FB00, 1⟩, ⟨0x0, 0xA0000, 2⟩] ∧
      (insertionSort better #v[⟨0x0, 0xA0000, 2⟩, ⟨0x500, 0x9FB00, 1⟩,
        ⟨0x100000, 0x7EE0000, 1⟩]).toList.Pairwise (fun x y => better y x = false) := by
  obtain ⟨sorts, weak⟩ := insertionSort_sorts_and_better_orders
  exact ⟨by decide, (sorts Entry better 3 _).2⟩

end Tyleros.Kstd
