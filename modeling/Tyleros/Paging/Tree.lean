import Tyleros.Paging.Model
import Tyleros.Lib.RadixTree
import Mathlib.Order.BooleanAlgebra.Set

/-!
# The page tables form a tree

`Tree s level fresh` is the separation invariant of the page tables: `level` gives
the level of every table in use, entries of tables above level 0 are zero or refer
to a table in use one level below, no table is referred to twice, and the tables
in `fresh` are unused and all zero. It is kept by the two writes the kernel makes,
linking a fresh table into an entry (`Tree.link`) and changing an entry of a
level 0 table (`Tree.setLeaf`).

`State.entryOf` is the level 0 entry of a page, zero if a table is missing on the
way. Linking changes it for no page, and a write to a level 0 table changes it for
exactly one (`Tree.entryOf_link`, `Tree.entryOf_setLeaf`).
-/

namespace Tyleros.Paging

open Tyleros.Lib

/-! ## Words -/

theorem getLsbD_of_aligned {a : Word} (aligned : a.toNat % PAGE_SIZE = 0) {i : Nat} (low : i < 12) :
    a.getLsbD i = false := by
  have bit := Nat.testBit_mod_two_pow a.toNat 12 i
  rw [show a.toNat % 2 ^ 12 = 0 from aligned, Nat.zero_testBit] at bit
  simpa [BitVec.getLsbD, low] using bit.symm

/-- A pointer to a table: on a page boundary, neither null nor the image of
physical address 0. -/
structure TablePtr (t : Word) : Prop where
  aligned : t.toNat % PAGE_SIZE = 0
  nonzero : t ≠ 0#64
  physical : t ≠ VMA_OFFSET

theorem TablePtr.sub_aligned {t : Word} (h : TablePtr t) : (t - VMA_OFFSET).toNat % PAGE_SIZE = 0 := by
  have := h.aligned
  unfold VMA_OFFSET KERNEL_VMA_OFFSET
  unfold PAGE_SIZE at *
  bv_omega

theorem tableEntry_masked {t : Word} (h : TablePtr t) :
    tableEntry t &&& ~~~ PREFIX_MASK = t - VMA_OFFSET := by
  have bits : ∀ i : Fin 64, ∀ b : Bool, (12 ≤ i.val ∨ b = false) →
      (((b || RW.getLsbD i) || PRESENT.getLsbD i) && !PREFIX_MASK.getLsbD i) = b := by decide
  apply BitVec.eq_of_getLsbD_eq
  intro i bound
  rw [tableEntry, BitVec.getLsbD_and, BitVec.getLsbD_or, BitVec.getLsbD_or, BitVec.getLsbD_not]
  simp only [bound, decide_true, Bool.true_and]
  refine bits ⟨i, bound⟩ _ ?_
  by_cases low : i < 12
  · exact Or.inr (getLsbD_of_aligned h.sub_aligned low)
  · exact Or.inl (by simpa using low)

theorem tableEntry_present (t : Word) : tableEntry t &&& PRESENT ≠ 0#64 := by
  intro zero
  have bit := congrArg (fun w => BitVec.getLsbD w 0) zero
  simp [tableEntry, PRESENT] at bit

theorem tableEntry_ne_zero (t : Word) : tableEntry t ≠ 0#64 := by
  intro zero
  exact tableEntry_present t (by rw [zero]; rfl)

theorem tableEntry_inj {t t' : Word} (h : TablePtr t) (h' : TablePtr t')
    (eq : tableEntry t = tableEntry t') : t = t' := by
  have masked := tableEntry_masked h
  rw [eq, tableEntry_masked h'] at masked
  bv_omega

theorem slot_inj {t t' : Word} {i i' : Nat} (h : t.toNat % PAGE_SIZE = 0)
    (h' : t'.toNat % PAGE_SIZE = 0) (hi : i < 512) (hi' : i' < 512)
    (eq : slot t i = slot t' i') : t = t' ∧ i = i' := by
  have words := congrArg BitVec.toNat eq
  simp only [slot, BitVec.toNat_add, BitVec.toNat_ofNat] at words
  unfold PAGE_SIZE at h h'
  have := t.isLt
  have := t'.isLt
  refine ⟨BitVec.eq_of_toNat_eq ?_, ?_⟩ <;> omega

theorem State.entry_store {s : State} {t t' : Word} {i i' : Nat} {w : Word}
    (h : t.toNat % PAGE_SIZE = 0) (h' : t'.toNat % PAGE_SIZE = 0) (hi : i < 512) (hi' : i' < 512) :
    (s.store (slot t i) w).entry t' i' = if t' = t ∧ i' = i then w else s.entry t' i' := by
  show Function.update s.memory (slot t i) w (slot t' i') = _
  rw [Function.update_apply]
  refine if_congr ⟨fun eq => slot_inj h' h hi' hi eq, ?_⟩ rfl rfl
  rintro ⟨rfl, rfl⟩
  rfl

/-! ## The invariant -/

structure Tree (s : State) (level : Word → Option Nat) (fresh : Set Word) : Prop where
  root : level s.base = some 3
  bound : ∀ t l, level t = some l → l ≤ 3
  pointers : ∀ t, level t ≠ none ∨ t ∈ fresh → TablePtr t
  entries : ∀ t l i, level t = some (l + 1) → i < 512 →
    s.entry t i = 0#64 ∨ ∃ c, level c = some l ∧ s.entry t i = tableEntry c
  once : ∀ t l i t' l' i' c, level t = some (l + 1) → level t' = some (l' + 1) → i < 512 →
    i' < 512 → level c ≠ none → s.entry t i = tableEntry c → s.entry t' i' = tableEntry c →
    t = t' ∧ i = i'
  unused : ∀ t, t ∈ fresh → level t = none
  zero : ∀ t i, t ∈ fresh → i < 512 → s.entry t i = 0#64

theorem Tree.pointer {s : State} {level : Word → Option Nat} {fresh : Set Word}
    (tree : Tree s level fresh) {t : Word} {l : Nat} (h : level t = some l) : TablePtr t :=
  tree.pointers t (Or.inl (by rw [h]; exact Option.some_ne_none l))

theorem Tree.ne_of_fresh {s : State} {level : Word → Option Nat} {fresh : Set Word}
    (tree : Tree s level fresh) {t c : Word} {l : Nat} (used : level t = some l) (new : c ∈ fresh) :
    t ≠ c := by
  rintro rfl
  rw [tree.unused t new] at used
  cases used

section Linking

variable {s : State} {level : Word → Option Nat} {fresh : Set Word} {t c : Word} {l i : Nat}

theorem level_link {t' : Word} {l' : Nat} (h : Function.update level c (some l) t' = some l') :
    (t' = c ∧ l' = l) ∨ (t' ≠ c ∧ level t' = some l') := by
  rw [Function.update_apply] at h
  split at h
  · next same =>
      cases h
      exact Or.inl ⟨same, rfl⟩
  · next other => exact Or.inr ⟨other, h⟩

theorem Tree.pointer_link (tree : Tree s level fresh) (new : c ∈ fresh) {t' : Word} {l' : Nat}
    (h : Function.update level c (some l) t' = some l') : TablePtr t' := by
  rcases level_link h with ⟨rfl, -⟩ | ⟨-, old⟩
  · exact tree.pointers t' (Or.inr new)
  · exact tree.pointer old

theorem Tree.entry_store_fresh (tree : Tree s level fresh) (used : level t = some l) (hi : i < 512)
    {w t' : Word} (unused : t' ∈ fresh) {i' : Nat} (hi' : i' < 512) :
    (s.store (slot t i) w).entry t' i' = 0#64 := by
  have ne := tree.ne_of_fresh used unused
  have ptr' := tree.pointers t' (Or.inr unused)
  rw [State.entry_store (tree.pointer used).aligned ptr'.aligned hi hi', if_neg fun h => ne h.1.symm]
  exact tree.zero t' i' unused hi'

/-- An entry that refers to a table is the new one, or it was there before. -/
theorem Tree.refers_link (tree : Tree s level fresh) (used : level t = some (l + 1)) (hi : i < 512)
    (new : c ∈ fresh) {t' c' : Word} {l' i' : Nat}
    (used' : Function.update level c (some l) t' = some (l' + 1)) (hi' : i' < 512)
    (ptr' : TablePtr c') (refer : (s.store (slot t i) (tableEntry c)).entry t' i' = tableEntry c') :
    (t' = t ∧ i' = i ∧ c' = c) ∨
      (level t' = some (l' + 1) ∧ s.entry t' i' = tableEntry c' ∧ level c' = some l') := by
  rcases level_link used' with ⟨rfl, -⟩ | ⟨-, old⟩
  · rw [tree.entry_store_fresh used hi new hi'] at refer
    exact absurd refer.symm (tableEntry_ne_zero c')
  · rw [State.entry_store (tree.pointer used).aligned (tree.pointer old).aligned hi hi'] at refer
    split at refer
    · next here =>
        exact Or.inl ⟨here.1, here.2,
          (tableEntry_inj (tree.pointers c (Or.inr new)) ptr' refer).symm⟩
    · rcases tree.entries t' l' i' old hi' with zero | ⟨d, levelD, eqD⟩
      · rw [zero] at refer
        exact absurd refer.symm (tableEntry_ne_zero c')
      · have same := tableEntry_inj (tree.pointer levelD) ptr' (eqD.symm.trans refer)
        exact Or.inr ⟨old, refer, same ▸ levelD⟩

theorem Tree.entries_link (tree : Tree s level fresh) (used : level t = some (l + 1)) (hi : i < 512)
    (new : c ∈ fresh) (t' : Word) (l' i' : Nat)
    (used' : Function.update level c (some l) t' = some (l' + 1)) (hi' : i' < 512) :
    (s.store (slot t i) (tableEntry c)).entry t' i' = 0#64 ∨
      ∃ d, Function.update level c (some l) d = some l' ∧
        (s.store (slot t i) (tableEntry c)).entry t' i' = tableEntry d := by
  rcases level_link used' with ⟨rfl, -⟩ | ⟨-, old⟩
  · exact Or.inl (tree.entry_store_fresh used hi new hi')
  · rw [State.entry_store (tree.pointer used).aligned (tree.pointer old).aligned hi hi']
    split
    · next here =>
        obtain ⟨rfl, rfl⟩ := here
        have same : l' = l := by
          rw [used] at old
          injection old with old
          omega
        exact Or.inr ⟨c, by rw [same, Function.update_self], rfl⟩
    · rcases tree.entries t' l' i' old hi' with zero | ⟨d, levelD, eqD⟩
      · exact Or.inl zero
      · refine Or.inr ⟨d, ?_, eqD⟩
        rw [Function.update_of_ne (tree.ne_of_fresh levelD new)]
        exact levelD

theorem Tree.once_link (tree : Tree s level fresh) (used : level t = some (l + 1)) (hi : i < 512)
    (new : c ∈ fresh) (t₁ : Word) (l₁ i₁ : Nat) (t₂ : Word) (l₂ i₂ : Nat) (c' : Word)
    (used₁ : Function.update level c (some l) t₁ = some (l₁ + 1))
    (used₂ : Function.update level c (some l) t₂ = some (l₂ + 1)) (hi₁ : i₁ < 512) (hi₂ : i₂ < 512)
    (inUse : Function.update level c (some l) c' ≠ none)
    (refer₁ : (s.store (slot t i) (tableEntry c)).entry t₁ i₁ = tableEntry c')
    (refer₂ : (s.store (slot t i) (tableEntry c)).entry t₂ i₂ = tableEntry c') :
    t₁ = t₂ ∧ i₁ = i₂ := by
  obtain ⟨l', levelC⟩ := Option.ne_none_iff_exists'.mp inUse
  have ptr' := tree.pointer_link new levelC
  rcases tree.refers_link used hi new used₁ hi₁ ptr' refer₁ with
    ⟨rfl, rfl, rfl⟩ | ⟨old₁, old₁', below₁⟩
  · rcases tree.refers_link used hi new used₂ hi₂ ptr' refer₂ with ⟨rfl, rfl, -⟩ | ⟨-, -, below₂⟩
    · exact ⟨rfl, rfl⟩
    · exact absurd rfl (tree.ne_of_fresh below₂ new)
  · rcases tree.refers_link used hi new used₂ hi₂ ptr' refer₂ with ⟨-, -, rfl⟩ | ⟨old₂, old₂', -⟩
    · exact absurd rfl (tree.ne_of_fresh below₁ new)
    · exact tree.once t₁ l₁ i₁ t₂ l₂ i₂ c' old₁ old₂ hi₁ hi₂
        (by rw [below₁]; exact Option.some_ne_none _) old₁' old₂'

/-- Linking a fresh table into an entry. -/
theorem Tree.link (tree : Tree s level fresh) (used : level t = some (l + 1)) (hi : i < 512)
    (new : c ∈ fresh) :
    Tree (s.store (slot t i) (tableEntry c)) (Function.update level c (some l)) (fresh \ {c}) := by
  refine ⟨?_, ?_, ?_, tree.entries_link used hi new, tree.once_link used hi new, ?_, ?_⟩
  · show Function.update level c (some l) s.base = some 3
    rw [Function.update_of_ne (tree.ne_of_fresh tree.root new)]
    exact tree.root
  · intro t' l' used'
    rcases level_link used' with ⟨-, rfl⟩ | ⟨-, old⟩
    · have := tree.bound t _ used
      omega
    · exact tree.bound t' l' old
  · intro t' known
    rcases known with inUse | fresh'
    · obtain ⟨l', used'⟩ := Option.ne_none_iff_exists'.mp inUse
      exact tree.pointer_link new used'
    · exact tree.pointers t' (Or.inr fresh'.1)
  · intro t' fresh'
    rw [Function.update_of_ne fresh'.2]
    exact tree.unused t' fresh'.1
  · intro t' i' fresh' hi'
    exact tree.entry_store_fresh used hi fresh'.1 hi'

end Linking

/-- Changing an entry of a level 0 table. -/
theorem Tree.setLeaf {s : State} {level : Word → Option Nat} {fresh : Set Word}
    (tree : Tree s level fresh) {t w : Word} {i : Nat} (used : level t = some 0) (hi : i < 512) :
    Tree (s.store (slot t i) w) level fresh := by
  have entry : ∀ t' i', TablePtr t' → i' < 512 → t' ≠ t →
      (s.store (slot t i) w).entry t' i' = s.entry t' i' := by
    intro t' i' h' hi' ne
    rw [State.entry_store (tree.pointer used).aligned h'.aligned hi hi', if_neg fun h => ne h.1]
  have above : ∀ t' l, level t' = some (l + 1) → t' ≠ t := by
    rintro t' l eq rfl
    rw [used] at eq
    cases eq
  refine ⟨tree.root, tree.bound, tree.pointers, ?_, ?_, tree.unused, ?_⟩
  · intro t' l i' eq hi'
    rw [entry t' i' (tree.pointer eq) hi' (above t' l eq)]
    exact tree.entries t' l i' eq hi'
  · intro t₁ l₁ i₁ t₂ l₂ i₂ c eq₁ eq₂ hi₁ hi₂ inUse refer₁ refer₂
    rw [entry t₁ i₁ (tree.pointer eq₁) hi₁ (above t₁ l₁ eq₁)] at refer₁
    rw [entry t₂ i₂ (tree.pointer eq₂) hi₂ (above t₂ l₂ eq₂)] at refer₂
    exact tree.once t₁ l₁ i₁ t₂ l₂ i₂ c eq₁ eq₂ hi₁ hi₂ inUse refer₁ refer₂
  · intro t' i' new hi'
    exact tree.entry_store_fresh used hi new hi'

/-! ## Walking the tree -/

/-- Where entry `i` of a table leads; a node is a table with its level. -/
def State.child (s : State) : Nat × Word → Nat → Option (Nat × Word)
  | (0, _), _ => none
  | (l + 1, t), i =>
    if i < 512 ∧ s.entry t i &&& PRESENT ≠ 0#64 then
      some (l, (s.entry t i &&& ~~~ PREFIX_MASK) + VMA_OFFSET)
    else none

/-- The index of a page in the table of level `l`. -/
def index (page : Word) (l : Nat) : Nat := (page >>> 12 >>> (9 * l) &&& PREFIX_MASK).toNat

theorem index_lt (page : Word) (l : Nat) : index page l < 512 := by
  unfold index PREFIX_MASK
  rw [BitVec.toNat_and]
  exact Nat.lt_of_le_of_lt Nat.and_le_right (by decide)

theorem index_eq (page : Word) (l : Nat) : index page l = page.toNat / 2 ^ (12 + 9 * l) % 512 := by
  unfold index PREFIX_MASK
  rw [BitVec.toNat_and, BitVec.toNat_ushiftRight, BitVec.toNat_ushiftRight, Nat.shiftRight_eq_div_pow,
    Nat.shiftRight_eq_div_pow, Nat.div_div_eq_div_mul, ← Nat.pow_add]
  exact Nat.and_two_pow_sub_one_eq_mod _ 9

/-- The indices of a page in the tables above level 0. -/
def path (page : Word) : List Nat := [index page 3, index page 2, index page 1]

/-- The level 0 table of a page. -/
def State.leaf (s : State) (page : Word) : Option (Nat × Word) :=
  walk s.child (3, s.base) (path page)

/-- The level 0 entry of a page, zero if a table is missing on the way. -/
def State.entryOf (s : State) (page : Word) : Word :=
  match s.leaf page with
  | some (_, t) => s.entry t (index page 0)
  | none => 0#64

theorem State.entryOf_of_leaf {s : State} {page t : Word} {l : Nat}
    (h : s.leaf page = some (l, t)) : s.entryOf page = s.entry t (index page 0) := by
  rw [State.entryOf, h]

theorem State.entryOf_of_missing {s : State} {page : Word} (h : s.leaf page = none) :
    s.entryOf page = 0#64 := by rw [State.entryOf, h]

/-- On a page boundary and sign-extended from 48 bits. -/
structure CanonicalPage (page : Word) : Prop where
  aligned : page.toNat % PAGE_SIZE = 0
  canonical : page.toNat < 2 ^ 47 ∨ 2 ^ 64 - 2 ^ 47 ≤ page.toNat

theorem CanonicalPage.ext {v v' : Word} (h : CanonicalPage v) (h' : CanonicalPage v')
    (upper : path v = path v') (lower : index v 0 = index v' 0) : v = v' := by
  obtain ⟨aligned, canonical⟩ := h
  obtain ⟨aligned', canonical'⟩ := h'
  simp only [path, List.cons.injEq, index_eq, and_true] at upper
  simp only [index_eq] at lower
  obtain ⟨top, middle, bottom⟩ := upper
  have := v.isLt
  have := v'.isLt
  unfold PAGE_SIZE at aligned aligned'
  apply BitVec.eq_of_toNat_eq
  omega

section Walks

variable {s : State} {level : Word → Option Nat} {fresh : Set Word}

theorem Tree.child_eq (tree : Tree s level fresh) {t : Word} {l i : Nat}
    (used : level t = some (l + 1)) (hi : i < 512) :
    (s.entry t i = 0#64 ∧ s.child (l + 1, t) i = none) ∨
      ∃ c, level c = some l ∧ s.entry t i = tableEntry c ∧ s.child (l + 1, t) i = some (l, c) := by
  rcases tree.entries t l i used hi with zero | ⟨c, levelC, eq⟩
  · refine Or.inl ⟨zero, ?_⟩
    rw [State.child, zero, if_neg]
    rintro ⟨-, present⟩
    exact present rfl
  · refine Or.inr ⟨c, levelC, eq, ?_⟩
    rw [State.child, eq, if_pos ⟨hi, tableEntry_present c⟩, tableEntry_masked (tree.pointer levelC),
      BitVec.sub_add_cancel]

theorem Tree.entry_of_child (tree : Tree s level fresh) {l l' i : Nat} {t c : Word}
    (used : level t = some l) (edge : s.child (l, t) i = some (l', c)) :
    i < 512 ∧ l = l' + 1 ∧ s.entry t i = tableEntry c ∧ level c = some l' := by
  cases l with
  | zero => cases edge
  | succ l =>
      by_cases hi : i < 512
      · rcases tree.child_eq used hi with ⟨-, none_⟩ | ⟨d, levelD, eq, edge'⟩
        · rw [none_] at edge
          cases edge
        · rw [edge'] at edge
          cases edge
          exact ⟨hi, rfl, eq, levelD⟩
      · rw [State.child, if_neg fun h => hi h.1] at edge
        cases edge

theorem Tree.closed (tree : Tree s level fresh) :
    Closed s.child fun n => level n.2 = some n.1 := by
  intro n i n' used edge
  exact (tree.entry_of_child used edge).2.2.2

/-- Where an entry leads depends on that entry only. -/
theorem State.child_congr {s' : State} {l j : Nat} {t : Word}
    (same : j < 512 → s'.entry t j = s.entry t j) : s'.child (l, t) j = s.child (l, t) j := by
  cases l with
  | zero => rfl
  | succ l =>
      by_cases hj : j < 512
      · rw [State.child, State.child, same hj]
      · rw [State.child, State.child, if_neg fun h => hj h.1, if_neg fun h => hj h.1]

theorem Tree.referencedOnce (tree : Tree s level fresh) :
    ReferencedOnce s.child fun n => level n.2 = some n.1 := by
  rintro ⟨l₁, t₁⟩ ⟨l₂, t₂⟩ i₁ i₂ ⟨l, c⟩ used₁ used₂ edge₁ edge₂
  obtain ⟨hi₁, rfl, eq₁, levelC⟩ := tree.entry_of_child used₁ edge₁
  obtain ⟨hi₂, rfl, eq₂, -⟩ := tree.entry_of_child used₂ edge₂
  obtain ⟨rfl, rfl⟩ := tree.once t₁ l i₁ t₂ l i₂ c used₁ used₂ hi₁ hi₂
    (by rw [levelC]; exact Option.some_ne_none l) eq₁ eq₂
  exact ⟨rfl, rfl⟩

/-- The level of the table a walk ends in. -/
theorem Tree.walk_level (tree : Tree s level fresh) {p : List Nat} {l : Nat} {t : Word}
    (h : walk s.child (3, s.base) p = some (l, t)) : level t = some l :=
  tree.closed.walk tree.root h

theorem State.walk_depth (s : State) {p : List Nat} {l l' : Nat} {t t' : Word}
    (h : walk s.child (l, t) p = some (l', t')) : l' + p.length = l := by
  induction p generalizing l t with
  | nil =>
      cases h
      rfl
  | cons i p ih =>
      obtain ⟨⟨l₁, t₁⟩, edge, rest⟩ := Option.bind_eq_some_iff.mp h
      have below : l = l₁ + 1 := by
        cases l with
        | zero => cases edge
        | succ l =>
            rw [State.child] at edge
            split at edge
            · cases edge
              rfl
            · cases edge
      have := ih rest
      rw [List.length_cons]
      omega

theorem Tree.leaf_level (tree : Tree s level fresh) {page t : Word} {l : Nat}
    (h : s.leaf page = some (l, t)) : l = 0 ∧ level t = some 0 := by
  have depth := s.walk_depth h
  have zero : l = 0 := by
    simp only [path, List.length_cons, List.length_nil] at depth
    omega
  exact ⟨zero, zero ▸ tree.walk_level h⟩

section Link

variable {t c : Word} {l i : Nat}

theorem Tree.child_link (tree : Tree s level fresh) (used : level t = some (l + 1)) (hi : i < 512)
    (new : c ∈ fresh) :
    (s.store (slot t i) (tableEntry c)).child (l + 1, t) i = some (l, c) ∧
      (∀ l' j, (s.store (slot t i) (tableEntry c)).child (l', c) j = none) ∧
      ∀ n j, level n.2 = some n.1 → ¬ (n = (l + 1, t) ∧ j = i) →
        (s.store (slot t i) (tableEntry c)).child n j = s.child n j := by
  have ptr := tree.pointer used
  have ptrC := tree.pointers c (Or.inr new)
  refine ⟨?_, ?_, ?_⟩
  · have here : (s.store (slot t i) (tableEntry c)).entry t i = tableEntry c := by
      rw [State.entry_store ptr.aligned ptr.aligned hi hi, if_pos ⟨rfl, rfl⟩]
    rw [State.child, here, if_pos ⟨hi, tableEntry_present c⟩, tableEntry_masked ptrC,
      BitVec.sub_add_cancel]
  · rintro (_ | l') j
    · rfl
    · rw [State.child, if_neg]
      rintro ⟨hj, present⟩
      rw [tree.entry_store_fresh used hi new hj] at present
      exact present rfl
  · rintro ⟨l', t'⟩ j used' other
    refine State.child_congr fun hj => ?_
    rw [State.entry_store ptr.aligned (tree.pointer used').aligned hi hj, if_neg]
    rintro ⟨rfl, rfl⟩
    rw [used] at used'
    cases used'
    exact other ⟨rfl, rfl⟩

/-- Linking adds the walks that end in the new table and changes no other. -/
theorem Tree.walk_link (tree : Tree s level fresh) (used : level t = some (l + 1)) (hi : i < 512)
    (empty : s.entry t i = 0#64) (new : c ∈ fresh) (p : List Nat) :
    walk (s.store (slot t i) (tableEntry c)).child (3, s.base) p = walk s.child (3, s.base) p ∨
      (walk s.child (3, s.base) p = none ∧
        walk (s.store (slot t i) (tableEntry c)).child (3, s.base) p = some (l, c)) := by
  obtain ⟨linked, childless, others⟩ := tree.child_link used hi new
  have none_ : s.child (l + 1, t) i = none := by
    rcases tree.child_eq used hi with ⟨-, none_⟩ | ⟨d, -, eq, -⟩
    · exact none_
    · rw [empty] at eq
      exact absurd eq.symm (tableEntry_ne_zero d)
  exact Lib.walk_link tree.closed none_ linked (childless l) others tree.root p

/-- Linking a table changes the entry of no page. -/
theorem Tree.entryOf_link (tree : Tree s level fresh) (used : level t = some (l + 1)) (hi : i < 512)
    (empty : s.entry t i = 0#64) (new : c ∈ fresh) (page : Word) :
    (s.store (slot t i) (tableEntry c)).entryOf page = s.entryOf page := by
  have ptr := tree.pointer used
  rcases tree.walk_link used hi empty new (path page) with same | ⟨missing, found⟩
  · cases reached : walk s.child (3, s.base) (path page) with
    | none => rw [State.entryOf_of_missing reached, State.entryOf_of_missing (same.trans reached)]
    | some n =>
        obtain ⟨l', t'⟩ := n
        obtain ⟨rfl, level0⟩ := tree.leaf_level reached
        rw [State.entryOf_of_leaf reached, State.entryOf_of_leaf (same.trans reached),
          State.entry_store ptr.aligned (tree.pointer level0).aligned hi (index_lt page 0), if_neg]
        rintro ⟨rfl, -⟩
        rw [used] at level0
        cases level0
  · rw [State.entryOf_of_missing missing, State.entryOf_of_leaf found]
    exact tree.entry_store_fresh used hi new (index_lt page 0)

end Link

/-! ## Changing one entry -/

theorem Tree.walk_setLeaf (tree : Tree s level fresh) {t w : Word} {i : Nat}
    (used : level t = some 0) (hi : i < 512) (p : List Nat) :
    walk (s.store (slot t i) w).child (3, s.base) p = walk s.child (3, s.base) p := by
  have children : ∀ n j, level n.2 = some n.1 → (s.store (slot t i) w).child n j = s.child n j := by
    rintro ⟨l | l, t'⟩ j used'
    · rfl
    · refine State.child_congr fun hj => ?_
      rw [State.entry_store (tree.pointer used).aligned (tree.pointer used').aligned hi hj, if_neg]
      rintro ⟨rfl, -⟩
      rw [used] at used'
      cases used'
  exact walk_congr tree.closed children tree.root p

theorem Tree.leaf_setLeaf (tree : Tree s level fresh) {t w : Word} {i : Nat}
    (used : level t = some 0) (hi : i < 512) (page : Word) :
    (s.store (slot t i) w).leaf page = s.leaf page :=
  tree.walk_setLeaf used hi (path page)

/-- After a write to a level 0 entry, the entry of a page is the new value or the one
it had. -/
theorem Tree.entryOf_setLeaf_or (tree : Tree s level fresh) {t w : Word} {i : Nat}
    (used : level t = some 0) (hi : i < 512) (page : Word) :
    (s.store (slot t i) w).entryOf page = w ∨ (s.store (slot t i) w).entryOf page = s.entryOf page := by
  have leaf := tree.leaf_setLeaf (w := w) used hi page
  cases reached : s.leaf page with
  | none =>
      rw [State.entryOf_of_missing reached, State.entryOf_of_missing (leaf.trans reached)]
      exact Or.inr rfl
  | some n =>
      obtain ⟨l', t'⟩ := n
      obtain ⟨rfl, used'⟩ := tree.leaf_level reached
      rw [State.entryOf_of_leaf reached, State.entryOf_of_leaf (leaf.trans reached),
        State.entry_store (tree.pointer used).aligned (tree.pointer used').aligned hi
          (index_lt page 0)]
      split
      · exact Or.inl rfl
      · exact Or.inr rfl

/-- Pages with the same place in the same table are the same. -/
theorem Tree.leaf_inj {fresh : Set Word} (tree : Tree s level fresh) {page page' t : Word} {l : Nat}
    (canonical : CanonicalPage page) (canonical' : CanonicalPage page')
    (found : s.leaf page = some (l, t)) (found' : s.leaf page' = some (l, t))
    (sameIndex : index page 0 = index page' 0) : page = page' := by
  have sameLength : (path page).length = (path page').length := rfl
  have samePath := walk_inj tree.closed tree.referencedOnce tree.root sameLength found found'
  exact canonical.ext canonical' samePath sameIndex

/-- A write to the level 0 entry of a page changes the entry of that page only. -/
theorem Tree.entryOf_setLeaf (tree : Tree s level fresh) {t w page : Word}
    (found : s.leaf page = some (0, t)) :
    (s.store (slot t (index page 0)) w).entryOf page = w ∧
      ∀ page', CanonicalPage page → CanonicalPage page' → page' ≠ page →
        (s.store (slot t (index page 0)) w).entryOf page' = s.entryOf page' := by
  obtain ⟨-, used⟩ := tree.leaf_level found
  have ptr := tree.pointer used
  have hi := index_lt page 0
  constructor
  · rw [State.entryOf_of_leaf ((tree.leaf_setLeaf used hi page).trans found),
      State.entry_store ptr.aligned ptr.aligned hi hi, if_pos ⟨rfl, rfl⟩]
  · intro page' canonical canonical' ne
    have leaf := tree.leaf_setLeaf (w := w) used hi page'
    cases reached : s.leaf page' with
    | none => rw [State.entryOf_of_missing reached, State.entryOf_of_missing (leaf.trans reached)]
    | some n =>
        obtain ⟨l', t'⟩ := n
        obtain ⟨rfl, used'⟩ := tree.leaf_level reached
        rw [State.entryOf_of_leaf reached, State.entryOf_of_leaf (leaf.trans reached),
          State.entry_store ptr.aligned (tree.pointer used').aligned hi (index_lt page' 0), if_neg]
        rintro ⟨rfl, sameIndex⟩
        exact ne (tree.leaf_inj canonical' canonical reached found sameIndex)

end Walks

end Tyleros.Paging
