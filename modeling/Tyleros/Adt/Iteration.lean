import Tyleros.Adt.RingBuffer
import Mathlib.Data.List.Nodup

/-!
# Iterating over a ring buffer

The iterators of `libadt/ring_buffer.h` carry an index and nothing else, and a range-based
`for` runs from `begin()` until the index is that of `end()`. The two are equal when the
buffer is empty and when it is full, so a loop over a full buffer ends before its first
round: `iterates_iff`. `clear()` destroys the elements in such a loop.
-/

namespace Tyleros.Adt.RingBuffer

open Lib

variable {α σ : Type} {N : Nat}

/-- `for (auto &e : buffer) body(e)` from the iterator with index `idx` on; an element is
given by its place. -/
def forEachFrom (b : RingBuffer α N) (body : σ → Nat → σ) : Nat → Nat → σ → Option σ
  | 0, _, _ => none
  | fuel + 1, idx, s =>
    if idx = b.end_ then some s else forEachFrom b body fuel (forwardWrap N idx) (body s idx)

/-- `for (auto &e : buffer) body(e)`: a loop that visits no place twice has at most `N`
rounds. -/
def forEach (b : RingBuffer α N) (body : σ → Nat → σ) (s : σ) : Option σ :=
  b.forEachFrom body (N + 1) b.begin_ s

/-- `clear()` for elements with a destructor: the places whose elements are destroyed, and
the buffer. -/
def clearNonTrivial (b : RingBuffer α N) : Option (List Nat × RingBuffer α N) := do
  let destroyed ← b.forEach (fun destroyed i => destroyed ++ [i]) []
  return (destroyed, b.clear)

/-- The places of the elements in the order of the queue. -/
def places (b : RingBuffer α N) : List Nat := (List.range b.count).map (place N b.begin_)

/-- A loop over the buffer visits its elements once each and in order. -/
structure Iterates (b : RingBuffer α N) : Prop where
  elements : b.places.length = b.size ∧ b.places.Nodup ∧ b.places.map b.storage = b.contents
  visits : ∀ (σ : Type) (body : σ → Nat → σ) (s : σ),
    b.forEach body s = some (b.places.foldl body s)
  destroys : b.clearNonTrivial = some (b.places, b.clear)

variable {b : RingBuffer α N} {l : List α}

/-! ## The elements -/

theorem Holds.nodup_places (h : Holds b l) : b.places.Nodup := by
  have fits := h.fits
  unfold places
  rw [h.count]
  refine List.Nodup.map_on (fun i hi j hj same => ?_) List.nodup_range
  rw [List.mem_range] at hi hj
  exact place_inj h.first (by omega) (by omega) same

theorem Holds.places_elements (h : Holds b l) :
    b.places.length = b.size ∧ b.places.Nodup ∧ b.places.map b.storage = b.contents := by
  refine ⟨?_, h.nodup_places, ?_⟩
  · rw [places, List.length_map, List.length_range, size]
  · rw [places, List.map_map]
    rfl

/-! ## The loop -/

/-- With room in the buffer, the index of `end()` is reached behind the last element. -/
theorem Holds.forEachFrom (h : Holds b l) (room : l.length < N) (body : σ → Nat → σ)
    (rest i fuel : Nat) (s : σ) (last : i + rest = l.length) (enough : rest < fuel) :
    b.forEachFrom body fuel (place N b.begin_ i) s =
      some (((List.range' i rest).map (place N b.begin_)).foldl body s) := by
  induction rest generalizing i fuel s with
  | zero =>
      obtain ⟨fuel, rfl⟩ := Nat.exists_eq_succ_of_ne_zero (Nat.ne_of_gt enough)
      have atEnd : place N b.begin_ i = b.end_ := by
        rw [h.last, ← last]
        rfl
      exact if_pos atEnd
  | succ rest ih =>
      obtain ⟨fuel, rfl⟩ := Nat.exists_eq_succ_of_ne_zero (show fuel ≠ 0 by omega)
      have before := h.place_ne room (show i < l.length by omega)
      have next := forwardWrap_place h.first (show i < N by omega)
      rw [RingBuffer.forEachFrom, if_neg before, next, ih (i + 1) fuel _ (by omega) (by omega),
        List.range'_succ, List.map_cons, List.foldl_cons]

theorem Holds.forEach (h : Holds b l) (room : l.length < N) (body : σ → Nat → σ) (s : σ) :
    b.forEach body s = some (b.places.foldl body s) := by
  have first : place N b.begin_ 0 = b.begin_ := Nat.mod_eq_of_lt h.first
  have loop := h.forEachFrom room body l.length 0 (N + 1) s (Nat.zero_add _) (by omega)
  rwa [first, ← List.range_eq_range', ← h.count] at loop

/-- In a full buffer `begin()` is `end()`. -/
theorem Holds.forEach_full (h : Holds b l) (full : l.length = N) (body : σ → Nat → σ) (s : σ) :
    b.forEach body s = some s := by
  have same : b.begin_ = b.end_ := by
    rw [h.last, full, place, Nat.add_mod_right, Nat.mod_eq_of_lt h.first]
  exact if_pos same

theorem foldl_append_singleton (l : List Nat) (front : List Nat) :
    l.foldl (fun destroyed i => destroyed ++ [i]) front = front ++ l := by
  induction l generalizing front with
  | nil => exact (List.append_nil front).symm
  | cons i l ih => rw [List.foldl_cons, ih, List.append_assoc, List.singleton_append]

/-- A loop visits every element exactly if the buffer is not full. -/
theorem Holds.iterates_iff_room (h : Holds b l) : Iterates b ↔ l.length < N := by
  have positive := Nat.zero_lt_of_lt h.first
  constructor
  · intro iterates
    by_contra noRoom
    have full : l.length = N := Nat.le_antisymm h.fits (Nat.le_of_not_lt noRoom)
    have visited := iterates.visits (List Nat) (fun destroyed i => destroyed ++ [i]) []
    rw [h.forEach_full full, foldl_append_singleton, List.nil_append] at visited
    have size := h.places_elements.1
    rw [← Option.some.inj visited, RingBuffer.size, h.count, full, List.length_nil] at size
    omega
  · intro room
    refine ⟨h.places_elements, fun σ body s => h.forEach room body s, ?_⟩
    unfold clearNonTrivial
    rw [h.forEach room, foldl_append_singleton, List.nil_append]
    rfl

/-- In every state of a ring buffer that operations lead to, a loop visits the elements
exactly if the buffer is not full. -/
theorem iterates_iff (blank : α) (positive : 0 < N) (input : List α) (fits : input.length ≤ N)
    (ops : List (Op α)) :
    Iterates ((object α N).run (ofArray blank input) ops) ↔
      ((object α N).run (ofArray blank input) ops).full = false := by
  have start := holds_ofArray blank positive fits
  have holds := (Object.simulates simulation start ops).2
  have bounded := holds.fits
  rw [holds.iterates_iff_room, ← Bool.not_eq_true, holds.full_iff]
  omega

/-- Two elements of three, one of them behind the wrap. -/
theorem iterates_wrapped : Iterates ((object Nat 3).run (ofArray 0 [1, 2])
    [.popFront, .popFront, .pushBack 3, .pushBack 4]) :=
  (iterates_iff 0 (by decide) [1, 2] (by decide) _).mpr rfl

/-- `clear()` on a full buffer of two elements destroys neither of them. -/
theorem not_iterates_full : ¬ Iterates ((object Nat 2).run (ofArray 0 [1]) [.pushBack 2]) ∧
    ((object Nat 2).run (ofArray 0 [1]) [.pushBack 2]).clearNonTrivial.map Prod.fst = some [] := by
  constructor
  · intro iterates
    have destroyed := congrArg (Option.map Prod.fst) iterates.destroys
    exact absurd destroyed (by decide)
  · rfl

end Tyleros.Adt.RingBuffer
