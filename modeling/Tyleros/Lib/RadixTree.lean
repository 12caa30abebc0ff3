import Mathlib.Data.List.Induction

/-!
# Walks in a radix tree

The nodes of a radix tree are given by `child`, which says where an entry of a
node leads; `walk` follows a path of indices from a node.

* `walk_inj`: when no node is referenced twice, two walks of the same length that
  end in the same node took the same path.
* `walk_link`: linking a childless node into an empty entry changes no walk but
  those that now end in it.
* `missing`: how many nodes have to be linked for a path to lead somewhere.
-/

namespace Tyleros.Lib

variable {τ ι : Type*}

/-- Follow a path of indices. -/
def walk (child : τ → ι → Option τ) : τ → List ι → Option τ
  | t, [] => some t
  | t, i :: path => (child t i).bind fun c => walk child c path

theorem walk_append (child : τ → ι → Option τ) (t : τ) (path more : List ι) :
    walk child t (path ++ more) = (walk child t path).bind fun c => walk child c more := by
  induction path generalizing t with
  | nil => rfl
  | cons i path ih =>
      simp only [List.cons_append, walk]
      cases child t i with
      | none => rfl
      | some c => exact ih c

theorem walk_snoc_eq_some {child : τ → ι → Option τ} {t c : τ} {path : List ι} {i : ι}
    (h : walk child t (path ++ [i]) = some c) :
    ∃ u, walk child t path = some u ∧ child u i = some c := by
  rw [walk_append] at h
  obtain ⟨u, reached, last⟩ := Option.bind_eq_some_iff.mp h
  refine ⟨u, reached, ?_⟩
  obtain ⟨d, edge, done⟩ := Option.bind_eq_some_iff.mp last
  cases done
  exact edge

/-- A set of nodes that a walk cannot leave. -/
def Closed (child : τ → ι → Option τ) (used : τ → Prop) : Prop :=
  ∀ t i c, used t → child t i = some c → used c

theorem Closed.walk {child : τ → ι → Option τ} {used : τ → Prop} (closed : Closed child used)
    {t c : τ} {path : List ι} (start : used t) (h : walk child t path = some c) : used c := by
  induction path generalizing t with
  | nil =>
      cases h
      exact start
  | cons i path ih =>
      obtain ⟨d, edge, rest⟩ := Option.bind_eq_some_iff.mp h
      exact ih (closed t i d start edge) rest

/-- No used node is referenced by two entries of used nodes. -/
def ReferencedOnce (child : τ → ι → Option τ) (used : τ → Prop) : Prop :=
  ∀ t t' i i' c, used t → used t' → child t i = some c → child t' i' = some c → t = t' ∧ i = i'

/-- Walks of one length to the same node take the same path. -/
theorem walk_inj {child : τ → ι → Option τ} {used : τ → Prop} (closed : Closed child used)
    (once : ReferencedOnce child used) {root c : τ} (start : used root) {path path' : List ι}
    (sameLength : path.length = path'.length) (h : walk child root path = some c)
    (h' : walk child root path' = some c) : path = path' := by
  induction path using List.reverseRecOn generalizing path' c with
  | nil => exact (List.length_eq_zero_iff.mp sameLength.symm).symm
  | append_singleton front i ih =>
      rcases List.eq_nil_or_concat path' with rfl | ⟨front', i', rfl⟩
      · simp at sameLength
      · rw [List.concat_eq_append] at *
        obtain ⟨u, reached, edge⟩ := walk_snoc_eq_some h
        obtain ⟨u', reached', edge'⟩ := walk_snoc_eq_some h'
        obtain ⟨rfl, rfl⟩ := once u u' i i' c (closed.walk start reached)
          (closed.walk start reached') edge edge'
        rw [ih (by simpa using sameLength) reached reached']

/-- Walks only depend on the entries of the nodes they can reach. -/
theorem walk_congr {child child' : τ → ι → Option τ} {used : τ → Prop} (closed : Closed child used)
    (same : ∀ t i, used t → child' t i = child t i) {t : τ} (start : used t) (path : List ι) :
    walk child' t path = walk child t path := by
  induction path generalizing t with
  | nil => rfl
  | cons i path ih =>
      simp only [walk, same t i start]
      cases edge : child t i with
      | none => rfl
      | some c => exact ih (closed t i c start edge)

/-- Linking a childless node into an empty entry only adds the walks that end in
the new node. -/
theorem walk_link {child child' : τ → ι → Option τ} {used : τ → Prop} (closed : Closed child used)
    {parent c : τ} {slot : ι} (empty : child parent slot = none)
    (linked : child' parent slot = some c) (childless : ∀ j, child' c j = none)
    (others : ∀ t i, used t → ¬ (t = parent ∧ i = slot) → child' t i = child t i)
    {t : τ} (start : used t) (path : List ι) :
    walk child' t path = walk child t path ∨
      (walk child t path = none ∧ walk child' t path = some c) := by
  induction path generalizing t with
  | nil => exact Or.inl rfl
  | cons i path ih =>
      by_cases here : t = parent ∧ i = slot
      · obtain ⟨rfl, rfl⟩ := here
        simp only [walk, empty, linked, Option.bind_none, Option.bind_some]
        cases path with
        | nil => exact Or.inr ⟨trivial, rfl⟩
        | cons j path => exact Or.inl (by simp only [walk, childless, Option.bind_none])
      · simp only [walk, others t i start here]
        cases edge : child t i with
        | none => exact Or.inl rfl
        | some d => exact ih (closed t i d start edge)

/-- From a childless node no walk leads on. -/
theorem walk_childless {child : τ → ι → Option τ} {t c : τ} (childless : ∀ j, child t j = none)
    {path : List ι} (h : walk child t path = some c) : path = [] ∧ c = t := by
  cases path with
  | nil => exact ⟨rfl, (Option.some.inj h).symm⟩
  | cons i path =>
      obtain ⟨d, edge, -⟩ := Option.bind_eq_some_iff.mp h
      rw [childless] at edge
      cases edge

/-- The number of nodes that a path lacks. -/
def missing (child : τ → ι → Option τ) : τ → List ι → Nat
  | _, [] => 0
  | t, i :: path => match child t i with
    | some c => missing child c path
    | none => path.length + 1

theorem missing_childless {child : τ → ι → Option τ} {t : τ} (childless : ∀ j, child t j = none)
    (path : List ι) : missing child t path = path.length := by
  cases path with
  | nil => rfl
  | cons i path =>
      unfold missing
      rw [childless]
      rfl

theorem missing_le_length (child : τ → ι → Option τ) (t : τ) (path : List ι) :
    missing child t path ≤ path.length := by
  induction path generalizing t with
  | nil => exact Nat.le_refl _
  | cons i path ih =>
      unfold missing
      cases child t i with
      | some c => exact Nat.le_succ_of_le (ih c)
      | none => exact Nat.le_refl _

end Tyleros.Lib
