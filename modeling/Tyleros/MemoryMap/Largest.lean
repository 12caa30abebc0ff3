import Tyleros.MemoryMap
import Mathlib.Data.List.Perm.Basic

/-!
# The first entry of the memory map

`pma::early_init` takes entry 0 for the largest usable one. The map is sorted before the
areas are cut off, so that is true only as long as no usable entry is longer than what is
left of the one that was sorted to the front. `earlyInit_largest_iff` says so for every map.
-/

namespace Tyleros.MemoryMap

/-- The largest usable entry; the last one, if several are as large. -/
def largest (map : List Entry) : Option Entry := map.foldl (pick Entry.isUsable better) none

/-- What is left of an entry that both areas are cut off. -/
def Entry.trimmed (e : Entry) : Entry := (kernel.cut (bios.cut e).2).2

/-- The entry behind the first one, `e`, that an area is cut off; none, if `e` itself begins
in the area. -/
def Area.other (w : Area) (map : List Entry) (e : Entry) : Option Entry :=
  if w.Holds e then none else w.chosen map

/-- What is left of the largest usable entry is not shorter than the other usable entries,
less what is cut off them. -/
def Leads (map : List Entry) : Prop :=
  ∃ e ∈ largest map,
    (∀ c ∈ bios.other map e, c.isUsable = true → (bios.cut c).2.length ≤ e.trimmed.length) ∧
    (∀ c ∈ kernel.other map e, c.isUsable = true → (kernel.cut c).2.length ≤ e.trimmed.length) ∧
    ∀ x ∈ (map.erase e).diff ((bios.other map e).toList ++ (kernel.other map e).toList),
      x.isUsable = true → x.length ≤ e.trimmed.length

instance (map : List Entry) : Decidable (Leads map) :=
  inferInstanceAs (Decidable (∃ e ∈ largest map, _ ∧ _ ∧ ∀ x ∈ List.diff _ _, _))

/-- Entry 0 is usable and no usable entry is longer. -/
def LargestFirst (after : List Entry) : Prop :=
  ∃ e rest, after = e :: rest ∧ e.isUsable = true ∧
    ∀ x ∈ rest, x.isUsable = true → x.length ≤ e.length

/-! ## The sorted map -/

section Sorted

variable {α : Type} {less : α → α → Bool} {rank : α → Nat}

theorem pairwise_foldl_insertBack (hless : ∀ x y, less x y = true ↔ rank y < rank x) (l : List α)
    {sorted : List α} (h : sorted.Pairwise (fun x y => rank x ≤ rank y)) :
    (l.foldl (fun sorted v => insertBack less v sorted) sorted).Pairwise
      (fun x y => rank x ≤ rank y) := by
  induction l generalizing sorted with
  | nil => exact h
  | cons v l ih => exact ih (pairwise_insertBack hless v h)

/-- Sorting puts the elements of high rank to the front. -/
theorem pairwise_insertionSort (hless : ∀ x y, less x y = true ↔ rank y < rank x) (l : List α) :
    (insertionSort less l).Pairwise (fun x y => rank y ≤ rank x) :=
  List.pairwise_reverse.mpr (pairwise_foldl_insertBack hless l List.Pairwise.nil)

end Sorted

/-- The largest usable entry heads the sorted map. -/
theorem insertionSort_head {map : List Entry} (some_ : ∃ e ∈ map, e.isUsable = true) :
    ∃ e rest, insertionSort better map = e :: rest ∧ largest map = some e ∧
      e.isUsable = true ∧ rest.Perm (map.erase e) := by
  obtain ⟨u, mem, usable⟩ := some_
  have perm : (insertionSort better map).Perm map := insertionSort_perm map
  have found : (insertionSort better map).find? Entry.isUsable = largest map :=
    find?_foldl_insertBack better_iff_rank map List.Pairwise.nil
  have sorted := pairwise_insertionSort better_iff_rank map
  cases split_ : insertionSort better map with
  | nil =>
      rw [split_] at perm
      exact absurd (perm.mem_iff.mpr mem) List.not_mem_nil
  | cons e rest =>
      rw [split_] at perm found sorted
      have isUsable : e.isUsable = true := by
        rcases List.mem_cons.mp (perm.mem_iff.mpr mem) with rfl | later
        · exact usable
        · have rank := (List.pairwise_cons.mp sorted).1 u later
          unfold Entry.rank at rank
          rw [if_pos usable] at rank
          by_contra unusable
          rw [if_neg unusable] at rank
          omega
      rw [List.find?_cons_of_pos isUsable] at found
      refine ⟨e, rest, rfl, found.symm, isUsable, ?_⟩
      have erased := perm.erase e
      rwa [List.erase_cons_head] at erased

/-! ## The cuts -/

/-- The entries behind the first one, after an area has been cut off. -/
def Area.cutRest (w : Area) (e : Entry) (rest : List Entry) : List Entry :=
  if w.Holds e then rest else markUnusable w rest

theorem markUnusable_cons (w : Area) (e : Entry) (rest : List Entry) :
    markUnusable w (e :: rest) = (w.cut e).2 :: w.cutRest e rest := by
  unfold Area.cutRest
  by_cases holds : w.Holds e
  · rw [if_pos holds, markUnusable_cons_of_holds holds]
  · rw [if_neg holds, markUnusable_cons_of_not_holds holds, w.cut_of_not_holds holds]

theorem Area.holds_of_find? {w : Area} {l : List Entry} {c : Entry}
    (found : l.find? (fun e => decide (w.Holds e)) = some c) : w.Holds c := by
  have holds := List.find?_some found
  exact of_decide_eq_true holds

theorem diff_some (l : List Entry) (c : Entry) : l.diff (some c).toList = l.erase c := by
  rw [Option.toList_some, List.diff_cons, List.diff_nil]

/-- Cutting off an area replaces the first entry that begins in it. -/
theorem markUnusable_perm (w : Area) (l : List Entry) :
    (markUnusable w l).Perm
      ((l.find? fun e => decide (w.Holds e)).toList.map (fun c => (w.cut c).2) ++
        l.diff (l.find? fun e => decide (w.Holds e)).toList) := by
  induction l with
  | nil => exact List.Perm.refl _
  | cons e rest ih =>
      by_cases holds : w.Holds e
      · have found : (e :: rest).find? (fun e => decide (w.Holds e)) = some e :=
          List.find?_cons_of_pos (decide_eq_true holds)
        rw [markUnusable_cons_of_holds holds, found, diff_some, List.erase_cons_head]
        exact List.Perm.refl _
      · have same : (e :: rest).find? (fun e => decide (w.Holds e)) =
            rest.find? fun e => decide (w.Holds e) :=
          List.find?_cons_of_neg (fun h => holds (of_decide_eq_true h))
        rw [markUnusable_cons_of_not_holds holds, same]
        cases found : rest.find? (fun e => decide (w.Holds e)) with
        | none =>
            rw [found] at ih
            exact ih.cons e
        | some c =>
            have ne : e ≠ c := fun eq => holds (eq ▸ Area.holds_of_find? found)
            rw [found, diff_some] at ih
            rw [diff_some, List.erase_cons_tail (fun eq => ne (beq_iff_eq.mp eq))]
            exact (ih.cons e).trans (List.Perm.swap _ _ _)

/-- The entries behind the first one of the sorted map. -/
theorem Area.cutRest_perm {w : Area} {map : List Entry} {e : Entry} {rest : List Entry}
    (find : (e :: rest).find? (fun x => decide (w.Holds x)) = w.chosen map) :
    (w.cutRest e rest).Perm ((w.other map e).toList.map (fun c => (w.cut c).2) ++
      rest.diff (w.other map e).toList) := by
  unfold Area.cutRest Area.other
  by_cases holds : w.Holds e
  · rw [if_pos holds, if_pos holds]
    exact List.Perm.refl _
  · have same : (e :: rest).find? (fun e => decide (w.Holds e)) =
        rest.find? fun e => decide (w.Holds e) :=
      List.find?_cons_of_neg (fun h => holds (of_decide_eq_true h))
    rw [if_neg holds, if_neg holds, ← find, same]
    exact markUnusable_perm w rest

/-- It begins in the area and is the entry that the whole map would choose. -/
theorem Area.holds_of_other {w : Area} {map : List Entry} {e c : Entry}
    (other : w.other map e = some c) : w.Holds c := by
  unfold Area.other at other
  split at other
  · cases other
  · rw [← find?_insertionSort] at other
    exact Area.holds_of_find? other

section Apart

variable {low high : Area} (apart : low.stop < high.start)

include apart

theorem Area.holds_cut_iff (e : Entry) : high.Holds (low.cut e).2 ↔ high.Holds e := by
  by_cases holds : low.Holds e
  · exact iff_of_false (Area.not_holds_cut apart holds) (Area.not_holds_of_holds_low apart holds)
  · rw [low.cut_of_not_holds holds]

theorem Area.other_cut (map : List Entry) (e : Entry) :
    high.other map (low.cut e).2 = high.other map e := by
  unfold Area.other
  rw [if_congr (Area.holds_cut_iff apart e) rfl rfl]

/-- Cutting off the low area does not change which entry begins in the high one. -/
theorem find?_markUnusable (l : List Entry) :
    (markUnusable low l).find? (fun e => decide (high.Holds e)) =
      l.find? fun e => decide (high.Holds e) := by
  induction l with
  | nil => rfl
  | cons e rest ih =>
      by_cases holds : low.Holds e
      · rw [markUnusable_cons_of_holds holds, List.find?_cons, List.find?_cons,
          decide_eq_false (Area.not_holds_cut apart holds),
          decide_eq_false (Area.not_holds_of_holds_low apart holds)]
      · rw [markUnusable_cons_of_not_holds holds, List.find?_cons, List.find?_cons, ih]

end Apart

/-- What comes of the sorted map. -/
theorem sortMemoryMap_spec {map rest : List Entry} {e : Entry}
    (sorted : insertionSort better map = e :: rest) :
    ∃ rest', sortMemoryMap map = e.trimmed :: rest' ∧
      rest'.Perm ((kernel.other map e).toList.map (fun c => (kernel.cut c).2) ++
        ((bios.other map e).toList.map (fun c => (bios.cut c).2) ++
          rest.diff ((bios.other map e).toList ++ (kernel.other map e).toList))) := by
  have apart : bios.stop < kernel.start := by decide
  have biosFind := find?_insertionSort bios map
  have kernelFind := find?_insertionSort kernel map
  rw [sorted] at biosFind kernelFind
  have first := markUnusable_cons bios e rest
  have kernelFind' : ((bios.cut e).2 :: bios.cutRest e rest).find?
      (fun x => decide (kernel.Holds x)) = kernel.chosen map := by
    rw [← first, find?_markUnusable apart, kernelFind]
  have low := Area.cutRest_perm biosFind
  have high := Area.cutRest_perm kernelFind'
  rw [Area.other_cut apart] at high
  refine ⟨kernel.cutRest (bios.cut e).2 (bios.cutRest e rest), ?_, ?_⟩
  · rw [sortMemoryMap, sorted, first, markUnusable_cons]
    rfl
  · refine high.trans (List.Perm.append_left _ ((low.diff_right _).trans ?_))
    cases other : kernel.other map e with
    | none =>
        rw [Option.toList_none, List.append_nil, List.diff_nil]
    | some d =>
        -- the entry that was cut by the low area is not the one the high area is cut off
        have kept : d ∉ (bios.other map e).toList.map (fun c => (bios.cut c).2) := by
          intro mem
          obtain ⟨c, hc, eq⟩ := List.mem_map.mp mem
          have inBios : bios.Holds c := Area.holds_of_other (Option.mem_toList.mp hc)
          exact Area.not_holds_cut apart inBios (eq ▸ Area.holds_of_other other)
        rw [diff_some, List.erase_append_right _ kept, List.diff_append, diff_some]

theorem Entry.isUsable_trimmed (e : Entry) : e.trimmed.isUsable = e.isUsable := by
  rw [Entry.trimmed, Area.isUsable_cut, Area.isUsable_cut]

/-! ## Entry 0 -/

/-- After `early_init`, entry 0 is the largest usable one just if what is left of the largest
entry leads. -/
theorem earlyInit_largest_iff (map : List Entry) (few : map.length < MAX_MEMORY_MAP_ENTRIES)
    (some_ : ∃ e ∈ map, e.isUsable = true) :
    (∃ after, earlyInit map = .ok after ∧ LargestFirst after) ↔ Leads map := by
  have accepted : earlyInit map = .ok (sortMemoryMap map) := by
    unfold earlyInit
    rw [decide_eq_true few]
    rfl
  obtain ⟨e, rest, sorted, first, isUsable, perm⟩ := insertionSort_head some_
  obtain ⟨rest', result, entries⟩ := sortMemoryMap_spec sorted
  have others : (∀ x ∈ rest', x.isUsable = true → x.length ≤ e.trimmed.length) ↔
      (∀ c ∈ bios.other map e, c.isUsable = true → (bios.cut c).2.length ≤ e.trimmed.length) ∧
      (∀ c ∈ kernel.other map e, c.isUsable = true →
        (kernel.cut c).2.length ≤ e.trimmed.length) ∧
      ∀ x ∈ (map.erase e).diff ((bios.other map e).toList ++ (kernel.other map e).toList),
        x.isUsable = true → x.length ≤ e.trimmed.length := by
    have rests := perm.diff_right ((bios.other map e).toList ++ (kernel.other map e).toList)
    simp only [entries.mem_iff, List.mem_append, or_imp, forall_and, rests.mem_iff, List.mem_map,
      forall_exists_index, and_imp, forall_apply_eq_imp_iff₂, Option.mem_toList, Area.isUsable_cut]
    exact and_left_comm
  have leads : LargestFirst (sortMemoryMap map) ↔ Leads map := by
    unfold LargestFirst Leads
    rw [result, first]
    constructor
    · rintro ⟨x, xs, eq, -, longest⟩
      cases eq
      exact ⟨e, rfl, others.mp longest⟩
    · rintro ⟨x, mem, bounds⟩
      cases mem
      exact ⟨_, _, rfl, (Entry.isUsable_trimmed e).trans isUsable, others.mpr bounds⟩
  rw [← leads, accepted]
  constructor
  · rintro ⟨after, eq, h⟩
    cases eq
    exact h
  · intro h
    exact ⟨_, rfl, h⟩

theorem earlyInit_largest_pcMap : pcMap.length < MAX_MEMORY_MAP_ENTRIES ∧
    (∃ e ∈ pcMap, e.isUsable = true) ∧ ∃ after, earlyInit pcMap = .ok after ∧ LargestFirst after :=
  ⟨by decide, by decide, (earlyInit_largest_iff pcMap (by decide) (by decide)).mpr (by decide)⟩

/-- The entry with the kernel is the larger one only before the kernel is cut off. -/
def kernelMap : List Entry := [⟨0x100000, 0x800000, 1⟩, ⟨0x1000000, 0x700000, 1⟩]

theorem earlyInit_largest_second : kernelMap.length < MAX_MEMORY_MAP_ENTRIES ∧
    (∃ e ∈ kernelMap, e.isUsable = true) ∧
    ¬ ∃ after, earlyInit kernelMap = .ok after ∧ LargestFirst after := by
  refine ⟨by decide, by decide, ?_⟩
  rintro ⟨after, eq, e, rest, cons, -, longest⟩
  have result : earlyInit kernelMap = .ok [⟨0x300000, 0x600000, 1⟩, ⟨0x1000000, 0x700000, 1⟩] := rfl
  rw [result] at eq
  cases eq
  cases cons
  have longer := longest ⟨0x1000000, 0x700000, 1⟩ (List.mem_singleton.mpr rfl) (by decide)
  exact absurd longer (by decide)

end Tyleros.MemoryMap
