import Mathlib.Logic.Function.Basic
import Mathlib.Data.List.GetD

/-!
# Lists laid over a function

An array is a function of the index, and `overlay f p l` is this function after the list `l`
has been written from index `p` on.
-/

namespace Tyleros

variable {α : Type*}

/-- `f`, with the entries of `l` from index `p` on. -/
def overlay (f : Nat → α) (p : Nat) (l : List α) : Nat → α := fun i =>
  if p ≤ i then l.getD (i - p) (f i) else f i

section Overlay

variable {f : Nat → α} {p i : Nat} {l : List α}

theorem overlay_of_lt (before : i < p) : overlay f p l i = f i :=
  if_neg (Nat.not_le_of_gt before)

theorem overlay_of_le (behind : p + l.length ≤ i) : overlay f p l i = f i := by
  have outside : l.length ≤ i - p := by omega
  unfold overlay
  rw [if_pos (by omega), List.getD_eq_default _ _ outside]

theorem overlay_getElem (f : Nat → α) (p : Nat) (inside : i < l.length) :
    overlay f p l (p + i) = l[i] := by
  unfold overlay
  rw [if_pos (Nat.le_add_right p i), Nat.add_sub_cancel_left, List.getD_eq_getElem _ _ inside]

@[simp] theorem overlay_nil : overlay f p [] = f := by
  funext i
  unfold overlay
  split
  · rfl
  · rfl

/-- Two lists behind each other. -/
theorem overlay_append (f : Nat → α) (p : Nat) (l m : List α) :
    overlay f p (l ++ m) = overlay (overlay f p l) (p + l.length) m := by
  funext i
  rcases Nat.lt_or_ge i (p + l.length) with first | second
  · rw [overlay_of_lt first]
    rcases Nat.lt_or_ge i p with before | inside
    · rw [overlay_of_lt before, overlay_of_lt before]
    · obtain ⟨j, rfl⟩ := Nat.exists_eq_add_of_le inside
      have hj : j < l.length := by omega
      have hj' : j < (l ++ m).length := by
        rw [List.length_append]
        omega
      rw [overlay_getElem f p hj', overlay_getElem f p hj, List.getElem_append_left hj]
  · obtain ⟨j, rfl⟩ := Nat.exists_eq_add_of_le second
    rcases Nat.lt_or_ge j m.length with inside | behind
    · have hj : l.length + j < (l ++ m).length := by
        rw [List.length_append]
        omega
      have index : l.length + j - l.length = j := Nat.add_sub_cancel_left _ _
      rw [overlay_getElem _ _ inside, Nat.add_assoc, overlay_getElem f p hj,
        List.getElem_append_right (Nat.le_add_right _ _)]
      exact getElem_congr_idx index
    · rw [overlay_of_le (by rw [List.length_append]; omega), overlay_of_le (by omega),
        overlay_of_le (by omega)]

/-- One more entry. -/
theorem overlay_singleton (f : Nat → α) (p : Nat) (a : α) :
    overlay f p [a] = Function.update f p a := by
  funext i
  rw [Function.update_apply]
  rcases Nat.lt_trichotomy i p with before | rfl | behind
  · rw [overlay_of_lt before, if_neg (by omega)]
  · rw [if_pos rfl]
    exact overlay_getElem f i (l := [a]) (i := 0) Nat.zero_lt_one
  · rw [overlay_of_le behind, if_neg (by omega)]

theorem update_overlay (f : Nat → α) (p : Nat) (l : List α) (a : α) :
    Function.update (overlay f p l) (p + l.length) a = overlay f p (l ++ [a]) := by
  rw [overlay_append, overlay_singleton]

end Overlay

/-! ## Reversing -/

/-- What stands from `b` to `e` in reverse. -/
def mirror (f : Nat → α) (b e : Nat) : Nat → α := fun i =>
  if b ≤ i ∧ i ≤ e then f (b + e - i) else f i

/-- A list that is mirrored where it lies is the reverse list. -/
theorem mirror_overlay (f : Nat → α) (p : Nat) {l : List α} (nonempty : l ≠ []) :
    mirror (overlay f p l) p (p + l.length - 1) = overlay f p l.reverse := by
  have positive : 0 < l.length := List.length_pos_iff.mpr nonempty
  funext i
  unfold mirror
  rcases Nat.lt_or_ge i p with before | inside
  · rw [if_neg (by omega), overlay_of_lt before, overlay_of_lt before]
  · obtain ⟨j, rfl⟩ := Nat.exists_eq_add_of_le inside
    rcases Nat.lt_or_ge j l.length with here | behind
    · have index : p + (p + l.length - 1) - (p + j) = p + (l.length - 1 - j) := by omega
      have hj : j < l.reverse.length := by
        rw [List.length_reverse]
        exact here
      rw [if_pos (by omega), index, overlay_getElem f p (by omega), overlay_getElem f p hj,
        List.getElem_reverse]
    · rw [if_neg (by omega), overlay_of_le (by omega),
        overlay_of_le (by rw [List.length_reverse]; omega)]

end Tyleros
