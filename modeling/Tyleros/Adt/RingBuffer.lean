import Tyleros.Lib.Object
import Mathlib.Data.List.Basic
import Mathlib.Logic.Function.Basic

/-!
# The ring buffer

`libadt/ring_buffer.h`: `N` elements of storage, the indices `_begin` and `_end`, and
the number of elements. Both indices wrap, and `_begin == _end` when the buffer is
empty and when it is full.

`deque` is what the buffer is for: a list of at most `N` elements. `Holds` relates a
buffer to the list, element `i` of the list lying `i` places behind `_begin`. Every
operation answers as the list does and keeps the relation (`simulation`), so no
sequence of operations tells the two apart (`refines_deque`).
-/

namespace Tyleros.Adt

open Lib

/-- `ring_buffer<T, N>`; `N` is the capacity. -/
structure RingBuffer (α : Type) (N : Nat) where
  storage : Nat → α
  begin_ : Nat
  end_ : Nat
  count : Nat

namespace RingBuffer

variable {α : Type} {N : Nat}

/-- `forward_wrap`. -/
def forwardWrap (N i : Nat) : Nat := if i + 1 < N then i + 1 else 0

/-- `backward_wrap`. -/
def backwardWrap (N i : Nat) : Nat := if i > 0 then i - 1 else N - 1

def size (b : RingBuffer α N) : Nat := b.count

def empty (b : RingBuffer α N) : Bool := b.size == 0

def full (b : RingBuffer α N) : Bool := b.size == N

/-- The constructor from an array. Elements that were not given are `T{}`. -/
def ofArray (blank : α) (input : List α) : RingBuffer α N where
  storage := fun i => input.getD i blank
  begin_ := 0
  end_ := if input.length = N then 0 else input.length
  count := input.length

def clear (b : RingBuffer α N) : RingBuffer α N := { b with begin_ := 0, end_ := 0, count := 0 }

def pushBack (val : α) (b : RingBuffer α N) : Bool × RingBuffer α N :=
  if b.full then (false, b)
  else (true, { b with
    storage := Function.update b.storage b.end_ val
    end_ := forwardWrap N b.end_
    count := b.count + 1 })

def pushFront (val : α) (b : RingBuffer α N) : Bool × RingBuffer α N :=
  if b.full then (false, b)
  else (true, { b with
    begin_ := backwardWrap N b.begin_
    storage := Function.update b.storage (backwardWrap N b.begin_) val
    count := b.count + 1 })

def popFront (b : RingBuffer α N) : Option α × RingBuffer α N :=
  if b.empty then (none, b)
  else (some (b.storage b.begin_),
    { b with begin_ := forwardWrap N b.begin_, count := b.count - 1 })

def popBack (b : RingBuffer α N) : Option α × RingBuffer α N :=
  if b.empty then (none, b)
  else (some (b.storage (backwardWrap N b.end_)),
    { b with end_ := backwardWrap N b.end_, count := b.count - 1 })

def front (b : RingBuffer α N) : α := b.storage b.begin_

def back (b : RingBuffer α N) : α := b.storage (backwardWrap N b.end_)

/-! ## Operations and answers -/

inductive Op (α : Type) where
  | pushBack (val : α)
  | pushFront (val : α)
  | popFront
  | popBack
  | clear
  deriving DecidableEq, Repr

inductive Answer (α : Type) where
  | pushed (ok : Bool)
  | popped (val : Option α)
  | cleared
  deriving DecidableEq, Repr

/-- The buffer with its operations. -/
def object (α : Type) (N : Nat) : Object (RingBuffer α N) (Op α) (Answer α) where
  step b
    | .pushBack val => ((b.pushBack val).1 |> .pushed, (b.pushBack val).2)
    | .pushFront val => ((b.pushFront val).1 |> .pushed, (b.pushFront val).2)
    | .popFront => (b.popFront.1 |> .popped, b.popFront.2)
    | .popBack => (b.popBack.1 |> .popped, b.popBack.2)
    | .clear => (.cleared, b.clear)

/-- A double-ended queue of at most `N` elements. -/
def deque (α : Type) (N : Nat) : Object (List α) (Op α) (Answer α) where
  step l
    | .pushBack val => if l.length < N then (.pushed true, l ++ [val]) else (.pushed false, l)
    | .pushFront val => if l.length < N then (.pushed true, val :: l) else (.pushed false, l)
    | .popFront => (.popped l.head?, l.tail)
    | .popBack => (.popped l.getLast?, l.dropLast)
    | .clear => (.cleared, [])

/-! ## Positions -/

/-- The place `i` places behind `start`. -/
def place (N start i : Nat) : Nat := (start + i) % N

theorem place_eq {start i : Nat} (hs : start < N) (hi : i ≤ N) :
    place N start i = if start + i < N then start + i else start + i - N := by
  unfold place
  split
  · next inside => exact Nat.mod_eq_of_lt inside
  · next wraps => rw [Nat.mod_eq_sub_mod (by omega), Nat.mod_eq_of_lt (by omega)]

theorem place_inj {start i j : Nat} (hs : start < N) (hi : i < N) (hj : j < N)
    (eq : place N start i = place N start j) : i = j := by
  rw [place_eq hs (Nat.le_of_lt hi), place_eq hs (Nat.le_of_lt hj)] at eq
  split at eq <;> split at eq <;> omega

theorem forwardWrap_place {start i : Nat} (hs : start < N) (hi : i < N) :
    forwardWrap N (place N start i) = place N start (i + 1) := by
  rw [place_eq hs (Nat.le_of_lt hi), place_eq hs hi]
  unfold forwardWrap
  split <;> split <;> split <;> omega

theorem backwardWrap_place {start i : Nat} (hs : start < N) (hi : i < N) :
    backwardWrap N (place N start (i + 1)) = place N start i := by
  rw [place_eq hs (Nat.le_of_lt hi), place_eq hs hi]
  unfold backwardWrap
  split <;> split <;> split <;> omega

theorem backwardWrap_lt {i : Nat} (hi : i < N) : backwardWrap N i < N := by
  unfold backwardWrap
  split <;> omega

/-- One place earlier, the same place is one place further. -/
theorem place_backwardWrap {start i : Nat} (hs : start < N) (hi : i < N) :
    place N (backwardWrap N start) (i + 1) = place N start i := by
  rw [place_eq (backwardWrap_lt hs) hi, place_eq hs (Nat.le_of_lt hi)]
  unfold backwardWrap
  split <;> split <;> split <;> omega

theorem place_forwardWrap {start i : Nat} (hs : start < N) (hi : i < N) :
    place N (forwardWrap N start) i = place N start (i + 1) := by
  have next : forwardWrap N start < N := by
    unfold forwardWrap
    split <;> omega
  rw [place_eq next (Nat.le_of_lt hi), place_eq hs hi]
  unfold forwardWrap
  split <;> split <;> split <;> omega

/-! ## The relation -/

/-- The buffer holds the elements of the list. -/
structure Holds (b : RingBuffer α N) (l : List α) : Prop where
  first : b.begin_ < N
  last : b.end_ = place N b.begin_ l.length
  count : b.count = l.length
  fits : l.length ≤ N
  elements : ∀ i v, l[i]? = some v → b.storage (place N b.begin_ i) = v

variable {b : RingBuffer α N} {l : List α}

theorem holds_ofArray (blank : α) {input : List α} (positive : 0 < N) (fits : input.length ≤ N) :
    Holds (ofArray blank input : RingBuffer α N) input where
  first := positive
  last := by
    show (if input.length = N then 0 else input.length) = (0 + input.length) % N
    rw [Nat.zero_add]
    split
    · next eq => rw [eq, Nat.mod_self]
    · next ne => rw [Nat.mod_eq_of_lt (by omega)]
  count := rfl
  fits := fits
  elements := by
    intro i v at_
    obtain ⟨hi, rfl⟩ := List.getElem?_eq_some_iff.mp at_
    show input.getD ((0 + i) % N) blank = input[i]
    rw [Nat.zero_add, Nat.mod_eq_of_lt (by omega), List.getD_eq_getElem?_getD, at_, Option.getD_some]

namespace Holds

theorem full_iff (h : Holds b l) : b.full = true ↔ l.length = N := by
  rw [full, size, h.count, beq_iff_eq]

theorem empty_iff (h : Holds b l) : b.empty = true ↔ l = [] := by
  rw [empty, size, h.count, beq_iff_eq, List.length_eq_zero_iff]

theorem clear (h : Holds b l) : Holds b.clear [] where
  first := Nat.zero_lt_of_lt h.first
  last := by
    show 0 = (0 + 0) % N
    rw [Nat.zero_mod]
  count := rfl
  fits := Nat.zero_le N
  elements := fun i v at_ => by cases at_

/-- A place that holds an element is not the place behind the last one. -/
theorem place_ne (h : Holds b l) (room : l.length < N) {i : Nat} (hi : i < l.length) :
    place N b.begin_ i ≠ b.end_ := by
  rw [h.last]
  intro eq
  have same := place_inj h.first (by omega) room eq
  omega

theorem pushBack (h : Holds b l) (room : l.length < N) (val : α) :
    Holds (b.pushBack val).2 (l ++ [val]) ∧ (b.pushBack val).1 = true := by
  have notFull : ¬ b.full = true := fun full => by
    have := h.full_iff.mp full
    omega
  unfold RingBuffer.pushBack
  rw [if_neg notFull]
  refine ⟨⟨h.first, ?_, ?_, ?_, fun i v at_ => ?_⟩, rfl⟩
  · show forwardWrap N b.end_ = place N b.begin_ (l ++ [val]).length
    rw [h.last, forwardWrap_place h.first room, List.length_append, List.length_singleton]
  · show b.count + 1 = (l ++ [val]).length
    rw [h.count, List.length_append, List.length_singleton]
  · rw [List.length_append, List.length_singleton]
    exact room
  · show Function.update b.storage b.end_ val (place N b.begin_ i) = v
    rw [List.getElem?_append] at at_
    split at at_
    · next inside =>
        rw [Function.update_of_ne (h.place_ne room inside)]
        exact h.elements i v at_
    · next behind =>
        obtain ⟨at0, eq⟩ := List.getElem?_eq_some_iff.mp at_
        have here : i = l.length := by
          rw [List.length_singleton] at at0
          omega
        rw [here, ← h.last, Function.update_self, ← eq]
        exact (List.getElem_singleton at0).symm

theorem pushFront (h : Holds b l) (room : l.length < N) (val : α) :
    Holds (b.pushFront val).2 (val :: l) ∧ (b.pushFront val).1 = true := by
  have notFull : ¬ b.full = true := fun full => by
    have := h.full_iff.mp full
    omega
  unfold RingBuffer.pushFront
  rw [if_neg notFull]
  have before := backwardWrap_lt h.first
  refine ⟨⟨before, ?_, ?_, ?_, fun i v at_ => ?_⟩, rfl⟩
  · show b.end_ = place N (backwardWrap N b.begin_) (val :: l).length
    rw [h.last, List.length_cons, place_backwardWrap h.first room]
  · show b.count + 1 = (val :: l).length
    rw [h.count, List.length_cons]
  · rw [List.length_cons]
    exact room
  · show Function.update b.storage (backwardWrap N b.begin_) val
      (place N (backwardWrap N b.begin_) i) = v
    have start : place N (backwardWrap N b.begin_) 0 = backwardWrap N b.begin_ :=
      Nat.mod_eq_of_lt before
    cases i with
    | zero =>
        cases at_
        rw [start, Function.update_self]
    | succ i =>
        rw [List.getElem?_cons_succ] at at_
        obtain ⟨hi, -⟩ := List.getElem?_eq_some_iff.mp at_
        have other : place N (backwardWrap N b.begin_) (i + 1) ≠ backwardWrap N b.begin_ := by
          intro eq
          have same := place_inj before (by omega) (by omega) (eq.trans start.symm)
          omega
        rw [Function.update_of_ne other, place_backwardWrap h.first (by omega)]
        exact h.elements i v at_

theorem front (h : Holds b l) {v : α} (first : l[0]? = some v) : b.front = v := by
  have element := h.elements 0 v first
  rwa [show place N b.begin_ 0 = b.begin_ from Nat.mod_eq_of_lt h.first] at element

theorem back (h : Holds b l) {v : α} (last : l.getLast? = some v) : b.back = v := by
  rw [List.getLast?_eq_getElem?] at last
  obtain ⟨hi, -⟩ := List.getElem?_eq_some_iff.mp last
  have element := h.elements _ v last
  have fits := h.fits
  have length : l.length - 1 + 1 = l.length := by omega
  rw [← backwardWrap_place h.first (by omega), length, ← h.last] at element
  exact element

theorem popFront (h : Holds b l) :
    Holds b.popFront.2 l.tail ∧ b.popFront.1 = l.head? := by
  unfold RingBuffer.popFront
  cases l with
  | nil =>
      rw [if_pos (h.empty_iff.mpr rfl)]
      exact ⟨h, rfl⟩
  | cons v rest =>
      have notEmpty : ¬ b.empty = true := fun empty => by cases h.empty_iff.mp empty
      rw [if_neg notEmpty]
      have fits := h.fits
      rw [List.length_cons] at fits
      refine ⟨⟨?_, ?_, ?_, by rw [List.tail_cons]; omega, fun i w at_ => ?_⟩, ?_⟩
      · show forwardWrap N b.begin_ < N
        unfold forwardWrap
        split <;> omega
      · show b.end_ = place N (forwardWrap N b.begin_) rest.length
        rw [h.last, List.length_cons, place_forwardWrap h.first (by omega)]
      · show b.count - 1 = rest.length
        rw [h.count, List.length_cons, Nat.add_sub_cancel]
      · obtain ⟨hi, -⟩ := List.getElem?_eq_some_iff.mp at_
        show b.storage (place N (forwardWrap N b.begin_) i) = w
        rw [List.tail_cons] at hi
        rw [place_forwardWrap h.first (by omega)]
        exact h.elements (i + 1) w at_
      · exact congrArg some (h.front rfl)

theorem popBack (h : Holds b l) :
    Holds b.popBack.2 l.dropLast ∧ b.popBack.1 = l.getLast? := by
  unfold RingBuffer.popBack
  by_cases nil : l = []
  · subst nil
    rw [if_pos (h.empty_iff.mpr rfl)]
    exact ⟨h, rfl⟩
  · rw [if_neg fun empty => nil (h.empty_iff.mp empty)]
    have fits := h.fits
    have positive : 0 < l.length := List.length_pos_of_ne_nil nil
    have length : l.length - 1 + 1 = l.length := by omega
    refine ⟨⟨h.first, ?_, ?_, ?_, fun i w at_ => ?_⟩, ?_⟩
    · show backwardWrap N b.end_ = place N b.begin_ l.dropLast.length
      rw [List.length_dropLast, ← backwardWrap_place h.first (by omega), length, ← h.last]
    · show b.count - 1 = l.dropLast.length
      rw [h.count, List.length_dropLast]
    · rw [List.length_dropLast]
      omega
    · refine h.elements i w ?_
      obtain ⟨hi, rfl⟩ := List.getElem?_eq_some_iff.mp at_
      rw [List.getElem_dropLast]
      exact List.getElem?_eq_getElem _
    · have last := List.getLast?_eq_some_getLast nil
      rw [last]
      exact congrArg some (h.back last)

end Holds

/-- The buffer answers every operation as the list does. -/
theorem simulation : Object.Simulation (object α N) (deque α N) Holds := by
  intro b l o h
  cases o with
  | pushBack val =>
      show Answer.pushed (b.pushBack val).1 = _ ∧ Holds (b.pushBack val).2 _
      dsimp only [deque]
      split
      · next room =>
          obtain ⟨holds, ok⟩ := h.pushBack room val
          rw [ok]
          exact ⟨rfl, holds⟩
      · next none_ =>
          have fits := h.fits
          rw [RingBuffer.pushBack, if_pos (h.full_iff.mpr (by omega))]
          exact ⟨rfl, h⟩
  | pushFront val =>
      show Answer.pushed (b.pushFront val).1 = _ ∧ Holds (b.pushFront val).2 _
      dsimp only [deque]
      split
      · next room =>
          obtain ⟨holds, ok⟩ := h.pushFront room val
          rw [ok]
          exact ⟨rfl, holds⟩
      · next none_ =>
          have fits := h.fits
          rw [RingBuffer.pushFront, if_pos (h.full_iff.mpr (by omega))]
          exact ⟨rfl, h⟩
  | popFront =>
      obtain ⟨holds, answer⟩ := h.popFront
      exact ⟨congrArg Answer.popped answer, holds⟩
  | popBack =>
      obtain ⟨holds, answer⟩ := h.popBack
      exact ⟨congrArg Answer.popped answer, holds⟩
  | clear => exact ⟨rfl, h.clear⟩

/-- The elements of the buffer in order. -/
def contents (b : RingBuffer α N) : List α :=
  (List.range b.count).map fun i => b.storage (place N b.begin_ i)

theorem Holds.contents (h : Holds b l) : b.contents = l := by
  refine List.ext_getElem? fun i => ?_
  unfold RingBuffer.contents
  rw [List.getElem?_map, h.count]
  by_cases hi : i < l.length
  · rw [List.getElem?_range hi, List.getElem?_eq_getElem hi, Option.map_some]
    exact congrArg some (h.elements i _ (List.getElem?_eq_getElem hi))
  · rw [List.getElem?_eq_none (by rw [List.length_range]; omega),
      List.getElem?_eq_none (by omega), Option.map_none]

/-- What can be seen of a buffer is what can be seen of the list. -/
structure SameView (b : RingBuffer α N) (l : List α) : Prop where
  contents : b.contents = l
  size : b.size = l.length
  empty : b.empty = l.isEmpty
  full : b.full = (l.length == N)
  bounded : l.length ≤ N
  front : ∀ nonempty : l ≠ [], b.front = l.head nonempty
  back : ∀ nonempty : l ≠ [], b.back = l.getLast nonempty

theorem Holds.sameView (h : Holds b l) : SameView b l where
  contents := h.contents
  size := h.count
  empty := by
    rw [Bool.eq_iff_iff, h.empty_iff, List.isEmpty_iff]
  full := by
    rw [Bool.eq_iff_iff, h.full_iff, beq_iff_eq]
  bounded := h.fits
  front := fun nonempty => h.front (by rw [← List.head?_eq_getElem?, List.head?_eq_some_head])
  back := fun nonempty => h.back (List.getLast?_eq_some_getLast nonempty)

/-- A ring buffer of any capacity, started from any array that fits, behaves under
every sequence of operations as a double-ended queue of at most `N` elements: same
answers, same view. A push into a full buffer and a pop from an empty one fail and
change nothing. -/
theorem refines_deque (blank : α) (positive : 0 < N) (input : List α) (fits : input.length ≤ N)
    (ops : List (Op α)) :
    let b := (object α N).run (ofArray blank input) ops
    let l := (deque α N).run input ops
    (object α N).trace (ofArray blank input) ops = (deque α N).trace input ops ∧ SameView b l ∧
      (l.length = N → ∀ val, b.pushBack val = (false, b) ∧ b.pushFront val = (false, b)) ∧
      (l = [] → b.popFront = (none, b) ∧ b.popBack = (none, b)) := by
  intro b l
  have start := holds_ofArray blank positive fits
  obtain ⟨answers, holds⟩ := Object.simulates simulation start ops
  refine ⟨answers, holds.sameView, fun atCapacity val => ?_, fun nil => ?_⟩
  · have full := holds.full_iff.mpr atCapacity
    exact ⟨if_pos full, if_pos full⟩
  · have empty := holds.empty_iff.mpr nil
    exact ⟨if_pos empty, if_pos empty⟩

/-- Capacity 1, where both indices stay 0. -/
theorem refines_deque_one :
    (object Nat 1).trace (ofArray 0 [7]) [.pushBack 8, .popBack, .popFront, .pushFront 9] =
      [.pushed false, .popped (some 7), .popped none, .pushed true] := by
  have same := refines_deque 0 (by decide : 0 < 1) [7] (by decide)
    [.pushBack 8, .popBack, .popFront, .pushFront 9]
  exact same.1.trans (by decide)

end RingBuffer

end Tyleros.Adt
