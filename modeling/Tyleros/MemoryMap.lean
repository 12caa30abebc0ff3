import Tyleros.Basic
import Mathlib.Order.CompletePartialOrder
import Mathlib.Order.Interval.Set.Disjoint
import Mathlib.Data.List.Forall2

/-!
# The memory map

`kernel/memory.cpp`: the entries the bootloader found are sorted, usable ones first
and larger ones before smaller ones, and the two areas the kernel must not hand out
are cut off.

An area is cut off the first entry that begins in it, whether that entry is usable
or not, and without looking at its length. `earlyInit_trims_iff` says for which
memory maps the result is what it should be: the entry that an area is cut off has to
reach the area's end, and no other usable entry may have an address in it.
-/

namespace Tyleros.MemoryMap

/-- `memory_map_entry`, less the attributes nobody reads. -/
structure Entry where
  base : UInt64
  length : UInt64
  type : UInt32
  deriving DecidableEq, Repr

/-- `memory_map_entry::usable`. -/
def USABLE : UInt32 := 1

def MAX_MEMORY_MAP_ENTRIES : Nat := 16

def Entry.isUsable (e : Entry) : Bool := e.type == USABLE

/-! ## `kernel/util/algorithm.h` -/

/-- One round of `insertion_sort`: the elements in front of `v`, from the last one
back, make room as long as they are not `less` than `v`. -/
def insertBack {α : Type} (less : α → α → Bool) (v : α) : List α → List α
  | [] => [v]
  | x :: front => if less x v then v :: x :: front else x :: insertBack less v front

/-- `kstd::insertion_sort`; the sorted part is kept in reverse. -/
def insertionSort {α : Type} (less : α → α → Bool) (l : List α) : List α :=
  (l.foldl (fun sorted v => insertBack less v sorted) []).reverse

/-- `kstd::transform` with a function that returns whether to stop. -/
def transform {α : Type} (f : α → Bool × α) : List α → List α
  | [] => []
  | x :: rest => if (f x).1 then (f x).2 :: rest else (f x).2 :: transform f rest

/-! ## `early_init` -/

/-- The order of `sort_memory_map`. -/
def better (lhs rhs : Entry) : Bool :=
  if !lhs.isUsable then false else if !rhs.isUsable then true else lhs.length > rhs.length

/-- An area that is cut off. -/
structure Area where
  start : UInt64
  stop : UInt64

/-- The lambda of `mark_unusable`. -/
def Area.cut (w : Area) (e : Entry) : Bool × Entry :=
  if w.start ≤ e.base ∧ e.base < w.stop then
    (true, { e with length := e.length - (w.stop - e.base), base := w.stop })
  else (false, e)

/-- `mark_unusable(start, end)`. -/
def markUnusable (w : Area) (map : List Entry) : List Entry := transform w.cut map

/-- The area of the BIOS. -/
def bios : Area := ⟨0x0, 0x500⟩

/-- The area of the kernel. -/
def kernel : Area := ⟨0x100000, 0x300000⟩

def sortMemoryMap (map : List Entry) : List Entry :=
  markUnusable kernel (markUnusable bios (insertionSort better map))

/-- `early_init`, for the entries at `memory_map_base`. -/
def earlyInit (map : List Entry) : Except Stop (List Entry) := do
  kassert (map.length < MAX_MEMORY_MAP_ENTRIES) "too many memory map entries!"
  return sortMemoryMap map

/-! ## Addresses -/

def Entry.range (e : Entry) : Set Nat := Set.Ico e.base.toNat (e.base.toNat + e.length.toNat)

def Area.range (w : Area) : Set Nat := Set.Ico w.start.toNat w.stop.toNat

/-- The addresses of the usable entries. -/
def usable (map : List Entry) : Set Nat := {x | ∃ e ∈ map, e.isUsable = true ∧ x ∈ e.range}

/-- No length is larger than it was: none wrapped below zero. -/
def NoWrap (before after : List Entry) : Prop :=
  List.Forall₂ (fun e e' => e'.length ≤ e.length) before after

/-- What `early_init` is for. -/
structure Trims (map after : List Entry) : Prop where
  addresses : usable after = (usable map \ bios.range) \ kernel.range
  lengths : NoWrap (insertionSort better map) after

/-- The entry begins in the area. -/
def Area.Holds (w : Area) (e : Entry) : Prop := w.start ≤ e.base ∧ e.base < w.stop

instance (w : Area) (e : Entry) : Decidable (w.Holds e) := inferInstanceAs (Decidable (_ ∧ _))

/-- The entry has no address in the area. -/
def Area.Avoids (w : Area) (e : Entry) : Prop :=
  e.length = 0 ∨ e.base.toNat + e.length.toNat ≤ w.start.toNat ∨ w.stop ≤ e.base

instance (w : Area) (e : Entry) : Decidable (w.Avoids e) := inferInstanceAs (Decidable (_ ∨ _))

/-- Of two elements that pass the test, the one that is sorted to the front; the later
one, if neither comes before the other. -/
def pick {α : Type} (p : α → Bool) (less : α → α → Bool) (best : Option α) (v : α) : Option α :=
  if p v then
    match best with
    | none => some v
    | some b => if less b v then some b else some v
  else best

/-- Of the entries that begin in the area, the one it is cut off: the largest usable
one, or the last unusable one if there is no usable one. -/
def Area.chosen (w : Area) (map : List Entry) : Option Entry :=
  map.foldl (pick (fun e => decide (w.Holds e)) better) none

/-- The entry that the area is cut off reaches the area's end, and no other usable
entry has an address in the area. -/
def Area.Fits (w : Area) (map : List Entry) : Prop :=
  match w.chosen map with
  | none => ∀ x ∈ map, x.isUsable = true → w.Avoids x
  | some e => w.stop.toNat ≤ e.base.toNat + e.length.toNat ∧
      ∀ x ∈ map.erase e, x.isUsable = true → w.Avoids x

instance (w : Area) (map : List Entry) : Decidable (w.Fits map) :=
  match chosen : w.chosen map with
  | none => decidable_of_iff (∀ x ∈ map, x.isUsable = true → w.Avoids x)
      (by rw [Area.Fits, chosen])
  | some e => decidable_of_iff (w.stop.toNat ≤ e.base.toNat + e.length.toNat ∧
      ∀ x ∈ map.erase e, x.isUsable = true → w.Avoids x) (by rw [Area.Fits, chosen])

/-! ## The sort -/

section sort

variable {α : Type} {less : α → α → Bool} {p : α → Bool} {rank : α → Nat}

theorem insertBack_perm (v : α) (sorted : List α) :
    (insertBack less v sorted).Perm (v :: sorted) := by
  induction sorted with
  | nil => exact List.Perm.refl _
  | cons x front ih =>
      unfold insertBack
      split
      · exact List.Perm.refl _
      · exact (ih.cons x).trans (List.Perm.swap v x front)

theorem foldl_insertBack_perm (l sorted : List α) :
    (l.foldl (fun sorted v => insertBack less v sorted) sorted).Perm (l ++ sorted) := by
  induction l generalizing sorted with
  | nil => exact List.Perm.refl _
  | cons v l ih =>
      have step : (l ++ insertBack less v sorted).Perm (l ++ v :: sorted) :=
        (insertBack_perm v sorted).append_left l
      exact ((ih (insertBack less v sorted)).trans step).trans List.perm_middle

/-- Sorting loses no element and makes none up. -/
theorem insertionSort_perm (l : List α) : (insertionSort less l).Perm l := by
  have folded : (l.foldl (fun sorted v => insertBack less v sorted) []).Perm l := by
    rw [← List.append_nil l]
    simpa using foldl_insertBack_perm l []
  exact (List.reverse_perm _).trans folded

/-- The sorted part, kept in reverse, goes from low to high rank. -/
theorem pairwise_insertBack (hless : ∀ x y, less x y = true ↔ rank y < rank x) (v : α)
    {sorted : List α} (h : sorted.Pairwise (fun x y => rank x ≤ rank y)) :
    (insertBack less v sorted).Pairwise (fun x y => rank x ≤ rank y) := by
  induction sorted with
  | nil => exact List.pairwise_singleton _ v
  | cons x front ih =>
      obtain ⟨below, rest⟩ := List.pairwise_cons.mp h
      unfold insertBack
      split
      · next above =>
          have hx := (hless x v).mp above
          refine List.pairwise_cons.mpr ⟨fun y hy => ?_, h⟩
          rcases List.mem_cons.mp hy with rfl | hy
          · exact hx.le
          · exact hx.le.trans (below y hy)
      · next above =>
          refine List.pairwise_cons.mpr ⟨fun y hy => ?_, ih rest⟩
          rcases List.mem_cons.mp ((insertBack_perm v front).mem_iff.mp hy) with rfl | hy
          · exact not_lt.mp (mt (hless x y).mpr above)
          · exact below y hy

/-- Inserting `v` leaves the best element that passes the test the best one, unless
`v` passes it and is as good. -/
theorem find?_insertBack (hless : ∀ x y, less x y = true ↔ rank y < rank x) (v : α)
    {sorted : List α} (h : sorted.Pairwise (fun x y => rank x ≤ rank y)) :
    (insertBack less v sorted).reverse.find? p = pick p less (sorted.reverse.find? p) v := by
  induction sorted with
  | nil => cases hv : p v <;> simp [insertBack, pick, hv]
  | cons x front ih =>
      obtain ⟨below, rest⟩ := List.pairwise_cons.mp h
      unfold insertBack
      split
      · next above =>
          rw [List.reverse_cons, List.find?_append]
          cases found : (x :: front).reverse.find? p with
          | none => cases hv : p v <;> simp [pick, hv]
          | some b =>
              -- everything from `x` on is better than `v`
              have mem : b ∈ x :: front := List.mem_reverse.mp (List.mem_of_find?_eq_some found)
              have better : less b v = true := by
                refine (hless b v).mpr (lt_of_lt_of_le ((hless x v).mp above) ?_)
                rcases List.mem_cons.mp mem with rfl | mem
                · exact le_rfl
                · exact below b mem
              simp [pick, better]
      · next above =>
          rw [List.reverse_cons, List.find?_append, ih rest, List.reverse_cons, List.find?_append]
          cases found : front.reverse.find? p with
          | none => cases hv : p v <;> cases hx : p x <;> simp [pick, hv, hx, above]
          | some b => cases hv : p v <;> cases hb : less b v <;> simp [pick, hv, hb]

theorem find?_foldl_insertBack (hless : ∀ x y, less x y = true ↔ rank y < rank x)
    (l : List α) {sorted : List α} (h : sorted.Pairwise (fun x y => rank x ≤ rank y)) :
    (l.foldl (fun sorted v => insertBack less v sorted) sorted).reverse.find? p
      = l.foldl (pick p less) (sorted.reverse.find? p) := by
  induction l generalizing sorted with
  | nil => rfl
  | cons v l ih =>
      rw [List.foldl_cons, List.foldl_cons, ih (pairwise_insertBack hless v h),
        find?_insertBack hless v h]

end sort

/-- The rank by which `sort_memory_map` orders the entries. -/
def Entry.rank (e : Entry) : Nat := if e.isUsable then e.length.toNat + 1 else 0

theorem better_iff_rank (x y : Entry) : better x y = true ↔ y.rank < x.rank := by
  unfold better Entry.rank
  cases hx : x.isUsable <;> cases hy : y.isUsable <;>
    simp [UInt64.lt_iff_toNat_lt]

/-- The first entry of the sorted map that begins in the area. -/
theorem find?_insertionSort (w : Area) (map : List Entry) :
    (insertionSort better map).find? (fun e => decide (w.Holds e)) = w.chosen map :=
  find?_foldl_insertBack better_iff_rank map List.Pairwise.nil

/-! ## One area -/

/-- `Fits` along the sorted map: the first entry that begins in the area reaches its
end, and no other usable entry has an address in the area. -/
def Area.FirstFits (w : Area) : List Entry → Prop
  | [] => True
  | e :: rest =>
    if w.Holds e then
      w.stop.toNat ≤ e.base.toNat + e.length.toNat ∧ ∀ x ∈ rest, x.isUsable = true → w.Avoids x
    else (e.isUsable = true → w.Avoids e) ∧ w.FirstFits rest

theorem Area.firstFits_cons_of_holds {w : Area} {e : Entry} (h : w.Holds e) (rest : List Entry) :
    w.FirstFits (e :: rest) ↔ w.stop.toNat ≤ e.base.toNat + e.length.toNat ∧
      ∀ x ∈ rest, x.isUsable = true → w.Avoids x := by
  rw [Area.FirstFits, if_pos h]

theorem Area.firstFits_cons_of_not_holds {w : Area} {e : Entry} (h : ¬ w.Holds e)
    (rest : List Entry) :
    w.FirstFits (e :: rest) ↔ (e.isUsable = true → w.Avoids e) ∧ w.FirstFits rest := by
  rw [Area.FirstFits, if_neg h]

/-- `Fits` and `FirstFits`, for one list and the entry that `find?` finds in it. -/
theorem Area.firstFits_iff_find? (w : Area) (l : List Entry) :
    w.FirstFits l ↔ match l.find? (fun e => decide (w.Holds e)) with
      | none => ∀ x ∈ l, x.isUsable = true → w.Avoids x
      | some e => w.stop.toNat ≤ e.base.toNat + e.length.toNat ∧
          ∀ x ∈ l.erase e, x.isUsable = true → w.Avoids x := by
  induction l with
  | nil => simp [Area.FirstFits]
  | cons e rest ih =>
      by_cases h : w.Holds e
      · rw [firstFits_cons_of_holds h, List.find?_cons_of_pos (by simpa using h)]
        simp only [List.erase_cons_head]
      · rw [firstFits_cons_of_not_holds h, ih, List.find?_cons_of_neg (by simpa using h)]
        cases found : rest.find? (fun e => decide (w.Holds e)) with
        | none => simp only [List.forall_mem_cons]
        | some c =>
            have holds : w.Holds c := by simpa using List.find?_some found
            have ne : e ≠ c := fun eq => h (eq ▸ holds)
            simp only [List.erase_cons_tail (beq_eq_false_iff_ne.mpr ne ▸ Bool.false_ne_true),
              List.forall_mem_cons]
            exact and_left_comm

/-- The condition on the sorted map is the condition on the map. -/
theorem Area.firstFits_sorted_iff (w : Area) (map : List Entry) :
    w.FirstFits (insertionSort better map) ↔ w.Fits map := by
  have perm : (insertionSort better map).Perm map := insertionSort_perm map
  rw [firstFits_iff_find?, find?_insertionSort]
  unfold Area.Fits
  cases w.chosen map with
  | none => simp only [perm.mem_iff]
  | some e => simp only [(perm.erase e).mem_iff]

theorem Area.avoids_of_stop_le {w : Area} {e : Entry} (h : w.stop ≤ e.base) : w.Avoids e :=
  Or.inr (Or.inr h)

/-- An entry avoids the area when they have no address in common. -/
theorem Area.avoids_iff_disjoint {w : Area} (nonempty : w.start < w.stop) (e : Entry) :
    w.Avoids e ↔ Disjoint e.range w.range := by
  have hw : w.start.toNat < w.stop.toNat := UInt64.lt_iff_toNat_lt.mp nonempty
  have hlen : e.length = 0 ↔ e.length.toNat = 0 := by
    rw [← UInt64.toNat_inj]
    rfl
  unfold Area.Avoids Entry.range Area.range
  rw [Set.Ico_disjoint_Ico, hlen, UInt64.le_iff_toNat_le]
  omega

theorem Area.cut_of_holds {w : Area} {e : Entry} (h : w.Holds e) :
    w.cut e = (true, { e with length := e.length - (w.stop - e.base), base := w.stop }) :=
  if_pos h

theorem Area.cut_of_not_holds {w : Area} {e : Entry} (h : ¬ w.Holds e) : w.cut e = (false, e) :=
  if_neg h

theorem Area.cut_base_of_holds {w : Area} {e : Entry} (h : w.Holds e) :
    (w.cut e).2.base = w.stop := by
  rw [w.cut_of_holds h]

theorem markUnusable_cons_of_holds {w : Area} {e : Entry} (h : w.Holds e) (rest : List Entry) :
    markUnusable w (e :: rest) = (w.cut e).2 :: rest := by
  unfold markUnusable transform
  rw [if_pos]
  rw [w.cut_of_holds h]

theorem markUnusable_cons_of_not_holds {w : Area} {e : Entry} (h : ¬ w.Holds e)
    (rest : List Entry) : markUnusable w (e :: rest) = e :: markUnusable w rest := by
  unfold markUnusable
  rw [transform, w.cut_of_not_holds h]
  rfl

/-- The length left, when the entry begins in the area. -/
theorem Area.toNat_cut_length {w : Area} {e : Entry} (h : w.Holds e) :
    (w.cut e).2.length.toNat
      = (2 ^ 64 - (w.stop.toNat - e.base.toNat) + e.length.toNat) % 2 ^ 64 := by
  have below : e.base ≤ w.stop := UInt64.le_of_lt h.2
  rw [w.cut_of_holds h]
  dsimp only
  rw [UInt64.toNat_sub, UInt64.toNat_sub_of_le _ _ below]

/-- The length does not wrap when the entry reaches the end of the area. -/
theorem Area.cut_length_le_iff {w : Area} {e : Entry} (h : w.Holds e) :
    (w.cut e).2.length ≤ e.length ↔ w.stop.toNat ≤ e.base.toNat + e.length.toNat := by
  have hlen := w.toNat_cut_length h
  have hbase : e.base.toNat < w.stop.toNat := UInt64.lt_iff_toNat_lt.mp h.2
  have hstop := w.stop.toNat_lt
  have hlength := e.length.toNat_lt
  rw [UInt64.le_iff_toNat_le, hlen]
  omega

/-- What is cut off an entry that reaches the end of the area is in the area. -/
theorem Area.range_cut {w : Area} {e : Entry} (h : w.Holds e)
    (reaches : w.stop.toNat ≤ e.base.toNat + e.length.toNat) :
    (w.cut e).2.range = e.range \ w.range := by
  have hlen := w.toNat_cut_length h
  have hstart : w.start.toNat ≤ e.base.toNat := UInt64.le_iff_toNat_le.mp h.1
  have hbase : e.base.toNat < w.stop.toNat := UInt64.lt_iff_toNat_lt.mp h.2
  have hstop := w.stop.toNat_lt
  have hlength := e.length.toNat_lt
  ext x
  simp only [Entry.range, Area.range, Set.mem_Ico, Set.mem_sdiff, w.cut_base_of_holds h, hlen]
  omega

theorem Area.isUsable_cut (w : Area) (e : Entry) : (w.cut e).2.isUsable = e.isUsable := by
  unfold Area.cut
  split <;> rfl

theorem usable_cons (e : Entry) (rest : List Entry) :
    usable (e :: rest) = {x | e.isUsable = true ∧ x ∈ e.range} ∪ usable rest := by
  ext x
  simp [usable]

theorem usable_eq_of_perm {l l' : List Entry} (perm : l.Perm l') : usable l = usable l' := by
  ext x
  simp only [usable, perm.mem_iff]

theorem noWrap_refl (l : List Entry) : NoWrap l l :=
  List.forall₂_same.mpr fun e _ => UInt64.le_refl e.length

theorem NoWrap.trans {l₁ l₂ l₃ : List Entry} (first : NoWrap l₁ l₂) (second : NoWrap l₂ l₃) :
    NoWrap l₁ l₃ := by
  induction first generalizing l₃ with
  | nil => exact second
  | cons here _ ih =>
      cases second with
      | cons here' rest => exact .cons (UInt64.le_trans here' here) (ih rest)

/-- The area fits when the cut leaves no usable address in it and wraps no length. -/
theorem Area.firstFits_iff (w : Area) (l : List Entry) :
    w.FirstFits l ↔
      (∀ x ∈ markUnusable w l, x.isUsable = true → w.Avoids x) ∧ NoWrap l (markUnusable w l) := by
  induction l with
  | nil => simp [Area.FirstFits, markUnusable, transform, NoWrap]
  | cons e rest ih =>
      by_cases h : w.Holds e
      · have past : w.Avoids (w.cut e).2 := by
          refine avoids_of_stop_le ?_
          rw [w.cut_base_of_holds h]
          exact UInt64.le_refl _
        rw [firstFits_cons_of_holds h, markUnusable_cons_of_holds h, List.forall_mem_cons, NoWrap,
          List.forall₂_cons, w.cut_length_le_iff h]
        exact ⟨fun ⟨reaches, others⟩ => ⟨⟨fun _ => past, others⟩, reaches, noWrap_refl rest⟩,
          fun ⟨⟨_, others⟩, reaches, _⟩ => ⟨reaches, others⟩⟩
      · rw [firstFits_cons_of_not_holds h, markUnusable_cons_of_not_holds h, List.forall_mem_cons,
          NoWrap, List.forall₂_cons, ih]
        exact ⟨fun ⟨here, others, lengths⟩ => ⟨⟨here, others⟩, UInt64.le_refl _, lengths⟩,
          fun ⟨⟨here, others⟩, _, lengths⟩ => ⟨here, others, lengths⟩⟩

/-- Outside the area the usable addresses stay. -/
theorem usable_markUnusable_diff {w : Area} {l : List Entry} (lengths : NoWrap l (markUnusable w l)) :
    usable (markUnusable w l) \ w.range = usable l \ w.range := by
  induction l with
  | nil => rfl
  | cons e rest ih =>
      by_cases h : w.Holds e
      · rw [markUnusable_cons_of_holds h] at lengths ⊢
        have reaches := (w.cut_length_le_iff h).mp (List.forall₂_cons.mp lengths).1
        rw [usable_cons, usable_cons, w.isUsable_cut, w.range_cut h reaches]
        ext x
        simp only [Set.mem_sdiff, Set.mem_union, Set.mem_ofPred_eq]
        tauto
      · rw [markUnusable_cons_of_not_holds h] at lengths ⊢
        rw [usable_cons, usable_cons, Set.union_sdiff_distrib, Set.union_sdiff_distrib,
          ih (List.forall₂_cons.mp lengths).2]

/-- Every usable entry avoids the area when no usable address is in it. -/
theorem Area.avoids_iff_disjoint_usable {w : Area} (nonempty : w.start < w.stop) (l : List Entry) :
    (∀ x ∈ l, x.isUsable = true → w.Avoids x) ↔ Disjoint (usable l) w.range := by
  simp only [avoids_iff_disjoint nonempty, Set.disjoint_left]
  constructor
  · rintro h a ⟨e, mem, isUsable, hrange⟩
    exact h e mem isUsable hrange
  · intro h e mem isUsable a hrange
    exact h ⟨e, mem, isUsable, hrange⟩

/-- When an area fits, cutting it off takes exactly its addresses away. -/
theorem Area.FirstFits.usable_eq {w : Area} (nonempty : w.start < w.stop) {l : List Entry}
    (h : w.FirstFits l) : usable (markUnusable w l) = usable l \ w.range := by
  obtain ⟨avoids, lengths⟩ := (w.firstFits_iff l).mp h
  rw [← usable_markUnusable_diff lengths]
  exact (((avoids_iff_disjoint_usable nonempty _).mp avoids).sdiff_eq_left).symm

/-! ## Two areas -/

theorem disjoint_congr_of_diff_eq {α : Type} {a a' b k : Set α} (diff : a \ b = a' \ b)
    (apart : Disjoint b k) : Disjoint a k ↔ Disjoint a' k := by
  have drop : ∀ s : Set α, Disjoint s k ↔ Disjoint (s \ b) k := by
    intro s
    rw [Set.disjoint_left, Set.disjoint_left]
    refine ⟨fun h x hx => h hx.1, fun h x hs hk => ?_⟩
    exact h ⟨hs, fun hb => Set.disjoint_left.mp apart hb hk⟩ hk
  rw [drop a, drop a', diff]

section areas

variable {low high : Area} (apart : low.stop < high.start) (nonempty : high.start < high.stop)

include apart

theorem Area.not_holds_cut {e : Entry} (h : low.Holds e) : ¬ high.Holds (low.cut e).2 := by
  rintro ⟨above, _⟩
  rw [low.cut_base_of_holds h] at above
  exact absurd apart (UInt64.not_lt.mpr above)

theorem Area.not_holds_of_holds_low {e : Entry} (h : low.Holds e) : ¬ high.Holds e :=
  fun above => absurd (UInt64.lt_trans h.2 apart) (UInt64.not_lt.mpr above.1)

theorem Area.disjoint_range : Disjoint low.range high.range := by
  have h : low.stop.toNat < high.start.toNat := UInt64.lt_iff_toNat_lt.mp apart
  unfold Area.range
  rw [Set.Ico_disjoint_Ico]
  omega

/-- No entry is cut twice, so both cuts together wrap a length when one of them does. -/
theorem noWrap_markUnusable_markUnusable (l : List Entry) :
    NoWrap l (markUnusable high (markUnusable low l)) ↔
      NoWrap l (markUnusable low l) ∧
        NoWrap (markUnusable low l) (markUnusable high (markUnusable low l)) := by
  refine ⟨fun h => ?_, fun ⟨first, second⟩ => ?_⟩
  · induction l with
    | nil => exact ⟨h, h⟩
    | cons e rest ih =>
        by_cases hlow : low.Holds e
        · rw [markUnusable_cons_of_holds hlow,
            markUnusable_cons_of_not_holds (Area.not_holds_cut apart hlow)] at h ⊢
          obtain ⟨here, others⟩ := List.forall₂_cons.mp h
          exact ⟨.cons here (noWrap_refl rest), .cons (UInt64.le_refl _) others⟩
        · rw [markUnusable_cons_of_not_holds hlow] at h ⊢
          by_cases hhigh : high.Holds e
          · rw [markUnusable_cons_of_holds hhigh] at h ⊢
            obtain ⟨here, others⟩ := List.forall₂_cons.mp h
            exact ⟨.cons (UInt64.le_refl _) others, .cons here (noWrap_refl _)⟩
          · rw [markUnusable_cons_of_not_holds hhigh] at h ⊢
            obtain ⟨here, others⟩ := List.forall₂_cons.mp h
            obtain ⟨first, second⟩ := ih others
            exact ⟨.cons here first, .cons here second⟩
  · exact first.trans second

include nonempty

/-- Cutting off the low area does not change whether the high one fits. -/
theorem Area.firstFits_markUnusable_iff {l : List Entry} (lengths : NoWrap l (markUnusable low l)) :
    high.FirstFits (markUnusable low l) ↔ high.FirstFits l := by
  have ranges := disjoint_range apart
  induction l with
  | nil => rfl
  | cons e rest ih =>
      by_cases hlow : low.Holds e
      · rw [markUnusable_cons_of_holds hlow] at lengths ⊢
        have reaches := (low.cut_length_le_iff hlow).mp (List.forall₂_cons.mp lengths).1
        rw [firstFits_cons_of_not_holds (not_holds_cut apart hlow),
          firstFits_cons_of_not_holds (not_holds_of_holds_low apart hlow), low.isUsable_cut,
          avoids_iff_disjoint nonempty, avoids_iff_disjoint nonempty, low.range_cut hlow reaches,
          disjoint_congr_of_diff_eq (sdiff_idem) ranges]
      · rw [markUnusable_cons_of_not_holds hlow] at lengths ⊢
        have others := (List.forall₂_cons.mp lengths).2
        by_cases hhigh : high.Holds e
        · rw [firstFits_cons_of_holds hhigh, firstFits_cons_of_holds hhigh,
            avoids_iff_disjoint_usable nonempty, avoids_iff_disjoint_usable nonempty,
            disjoint_congr_of_diff_eq (usable_markUnusable_diff others) ranges]
        · rw [firstFits_cons_of_not_holds hhigh, firstFits_cons_of_not_holds hhigh]
          exact and_congr_right fun _ => ih others

/-- Both areas fit when the two cuts leave no usable address in either and wrap no
length. -/
theorem Area.firstFits_and_firstFits_iff (nonempty' : low.start < low.stop) (l : List Entry) :
    low.FirstFits l ∧ high.FirstFits l ↔
      usable (markUnusable high (markUnusable low l)) = (usable l \ low.range) \ high.range ∧
        NoWrap l (markUnusable high (markUnusable low l)) := by
  have ranges := disjoint_range apart
  constructor
  · rintro ⟨hlow, hhigh⟩
    have first := ((low.firstFits_iff l).mp hlow).2
    have hhigh' := (firstFits_markUnusable_iff apart nonempty first).mpr hhigh
    have second := ((high.firstFits_iff _).mp hhigh').2
    refine ⟨?_, first.trans second⟩
    rw [hhigh'.usable_eq nonempty, hlow.usable_eq nonempty']
  · rintro ⟨addresses, lengths⟩
    obtain ⟨first, second⟩ := (noWrap_markUnusable_markUnusable apart l).mp lengths
    have inHigh : Disjoint (usable (markUnusable high (markUnusable low l))) high.range := by
      rw [addresses]
      exact Set.disjoint_sdiff_left
    have inLow : Disjoint (usable (markUnusable high (markUnusable low l))) low.range := by
      rw [addresses]
      exact Set.disjoint_sdiff_left.mono_left Set.sdiff_subset
    -- the second cut takes nothing away from the low area
    have inLow' : Disjoint (usable (markUnusable low l)) low.range :=
      (disjoint_congr_of_diff_eq (usable_markUnusable_diff second) ranges.symm).mp inLow
    refine ⟨(low.firstFits_iff l).mpr
      ⟨(avoids_iff_disjoint_usable nonempty' _).mpr inLow', first⟩, ?_⟩
    exact (firstFits_markUnusable_iff apart nonempty first).mp ((high.firstFits_iff _).mpr
      ⟨(avoids_iff_disjoint_usable nonempty _).mpr inHigh, second⟩)

end areas

/-! ## `early_init` trims the memory map exactly when both areas fit -/

/-- For every map that `early_init` accepts. -/
theorem earlyInit_trims_iff (map : List Entry) (few : map.length < MAX_MEMORY_MAP_ENTRIES) :
    (∃ after, earlyInit map = .ok after ∧ Trims map after) ↔ bios.Fits map ∧ kernel.Fits map := by
  have accepted : earlyInit map = .ok (sortMemoryMap map) := by
    unfold earlyInit
    rw [decide_eq_true few]
    rfl
  have perm : (insertionSort better map).Perm map := insertionSort_perm map
  have trims : Trims map (sortMemoryMap map) ↔
      bios.FirstFits (insertionSort better map) ∧ kernel.FirstFits (insertionSort better map) := by
    rw [Area.firstFits_and_firstFits_iff (by decide) (by decide) (by decide),
      usable_eq_of_perm perm]
    exact ⟨fun h => ⟨h.addresses, h.lengths⟩, fun h => ⟨h.1, h.2⟩⟩
  rw [← bios.firstFits_sorted_iff, ← kernel.firstFits_sorted_iff, ← trims, accepted]
  constructor
  · rintro ⟨after, eq, h⟩
    cases eq
    exact h
  · intro h
    exact ⟨sortMemoryMap map, rfl, h⟩

/-- What the bootloader finds on a machine with 128 MiB: memory up to the end of the
conventional memory, the memory of the BIOS, and everything above 1 MiB. -/
def pcMap : List Entry :=
  [⟨0, 0x9FC00, 1⟩, ⟨0x9FC00, 0x400, 2⟩, ⟨0xF0000, 0x10000, 2⟩, ⟨0x100000, 0x7EE0000, 1⟩]

theorem earlyInit_trims_pcMap :
    pcMap.length < MAX_MEMORY_MAP_ENTRIES ∧
      ∃ after, earlyInit pcMap = .ok after ∧ Trims pcMap after :=
  ⟨by decide, (earlyInit_trims_iff pcMap (by decide)).mpr ⟨by decide, by decide⟩⟩

/-- Two usable entries begin in the area of the kernel: only the larger one is cut. -/
def splitMap : List Entry := [⟨0x100000, 0x80000, 1⟩, ⟨0x200000, 0x7EE0000, 1⟩]

theorem earlyInit_keeps_kernel_address :
    splitMap.length < MAX_MEMORY_MAP_ENTRIES ∧
      ¬ ∃ after, earlyInit splitMap = .ok after ∧ Trims splitMap after := by
  refine ⟨by decide, ?_⟩
  rintro ⟨after, eq, trims⟩
  have result : earlyInit splitMap = .ok [⟨0x300000, 0x7DE0000, 1⟩, ⟨0x100000, 0x80000, 1⟩] := rfl
  rw [result] at eq
  cases eq
  have kept : 0x100000 ∈ usable [⟨0x300000, 0x7DE0000, 1⟩, ⟨0x100000, 0x80000, 1⟩] :=
    ⟨⟨0x100000, 0x80000, 1⟩, by decide, by decide, by decide, by decide⟩
  rw [trims.addresses] at kept
  exact kept.2 ⟨by decide, by decide⟩

end Tyleros.MemoryMap
