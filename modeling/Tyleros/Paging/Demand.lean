import Tyleros.Paging.PageByPage
import Mathlib.Data.List.Infix

/-!
# The tables a range takes

A table is known by its path from the root. `Pays` says that every table taken from the
pools is one of a set of tables that were missing; so `map_page` on the pages of a range
takes the tables on the way to its pages, and `map_range` also takes those on the way to
the page behind the range (`Wf.mapPages_pays`, `Wf.reach_pays`). So `map_range` does what
`map_page` does page by page as long as that many are left (`map_range_page_by_page`).
-/

namespace Tyleros.Paging

open Tyleros.Lib

/-- The tables on the way to a page. -/
def tablePaths (page : Word) : Finset (List Nat) := (path page).inits.toFinset

/-- The tables that cover a page of a range. -/
def rangePaths (v : Word) (n : Nat) : Finset (List Nat) :=
  (Finset.range n).biUnion fun j => tablePaths (pageAt v j)

/-- The tables that are missing. -/
def State.missing (s : State) (tables : Finset (List Nat)) : Finset (List Nat) :=
  tables.filter fun q => walk s.child (3, s.base) q = none

/-- The tables taken from the pools are those that are no longer missing. -/
def Pays (tables : Finset (List Nat)) (s s' : State) : Prop :=
  s'.tablesLeft + (s.missing tables).card = s.tablesLeft + (s'.missing tables).card

section Paying

variable {y : Layout} {s s' s'' : State} {level : Word → Option Nat} {page t : Word} {l : Nat}
  {tables : Finset (List Nat)}

theorem Pays.refl (tables : Finset (List Nat)) (s : State) : Pays tables s s := rfl

theorem Pays.trans (first : Pays tables s s') (second : Pays tables s' s'') : Pays tables s s'' := by
  unfold Pays at *
  omega

/-- Nothing is taken where no table is added. -/
theorem Pays.of_walks (left : s'.tablesLeft = s.tablesLeft)
    (walks : ∀ q, walk s'.child (3, s'.base) q = walk s.child (3, s.base) q) : Pays tables s s' := by
  have same : s'.missing tables = s.missing tables := by
    unfold State.missing
    exact Finset.filter_congr fun q _ => by rw [walks q]
  unfold Pays
  rw [left, same]

theorem mem_tablePaths {q : List Nat} : q ∈ tablePaths page ↔ q <+: path page := by
  rw [tablePaths, List.mem_toFinset, List.mem_inits]

theorem mem_rangePaths {v : Word} {n : Nat} {q : List Nat} :
    q ∈ rangePaths v n ↔ ∃ j, j < n ∧ q <+: path (pageAt v j) := by
  simp only [rangePaths, Finset.mem_biUnion, Finset.mem_range, mem_tablePaths]

/-- No table on the way to a page is missing once its level 0 table is there. -/
theorem State.missing_of_leaf (there : s.leaf page ≠ none) {q : List Nat} (onWay : q <+: path page) :
    walk s.child (3, s.base) q ≠ none := by
  intro missing
  obtain ⟨rest, whole⟩ := onWay
  refine there ?_
  rw [State.leaf, ← whole, walk_append, missing, Option.bind_none]

/-- Taking the table below an entry. -/
theorem Wf.belowEntry_pays (wf : Wf y s level) (hl : l < 3)
    (walked : walk s.child (3, s.base) ((path page).take (3 - (l + 1))) = some (l + 1, t))
    (inside : tablePaths page ⊆ tables) :
    (∃ e, Paging.belowEntry y.toSymbols t (index page (l + 1)) s = .error e ∧
        s.tablesLeft < (s.missing tables).card) ∨
      ∃ c s' level', Paging.belowEntry y.toSymbols t (index page (l + 1)) s = .ok (c, s') ∧
        Wf y s' level' ∧ Pays tables s s' ∧
        walk s'.child (3, s'.base) ((path page).take (3 - l)) = some (l, c) := by
  have used := wf.tree.walk_level walked
  have onWay : (path page).take (3 - l) ∈ tables :=
    inside (mem_tablePaths.mpr (List.take_prefix _ _))
  -- the walk through the entry
  have through : ∀ s₁ : State, s₁.base = s.base →
      walk s₁.child (3, s.base) ((path page).take (3 - (l + 1))) = some (l + 1, t) →
      walk s₁.child (3, s₁.base) ((path page).take (3 - l)) =
        s₁.child (l + 1, t) (index page (l + 1)) := by
    intro s₁ base above
    have step : 3 - l = 3 - (l + 1) + 1 := by omega
    have last : 3 - (3 - (l + 1)) = l + 1 := by omega
    rw [base, step, take_succ_path page (by omega), walk_append, above, Option.bind_some, walk, last]
    cases s₁.child (l + 1, t) (index page (l + 1)) with
    | none => rfl
    | some n => rfl
  rcases wf.belowEntry used (index_lt page (l + 1)) with
    ⟨e, stops, -, noneLeft, missing⟩ | ⟨c, there, -, edge⟩ |
      ⟨c, s', level', result, wf', grows, -, left, missing, edge, walks⟩
  · refine Or.inl ⟨e, stops, ?_⟩
    have some_ : (path page).take (3 - l) ∈ s.missing tables := by
      refine Finset.mem_filter.mpr ⟨onWay, ?_⟩
      rw [through s rfl walked, missing]
    have positive := Finset.card_pos.mpr ⟨_, some_⟩
    omega
  · refine Or.inr ⟨c, s, level, there, wf, Pays.refl tables s, ?_⟩
    rw [through s rfl walked, edge]
  · have new : walk s'.child (3, s'.base) ((path page).take (3 - l)) = some (l, c) := by
      rw [through s' grows.base (grows.walks _ _ walked), edge]
    refine Or.inr ⟨c, s', level', result, wf', ?_, new⟩
    -- the new table has one path
    have one : s.missing tables = insert ((path page).take (3 - l)) (s'.missing tables) := by
      ext q
      rw [State.missing, State.missing, Finset.mem_insert, Finset.mem_filter, Finset.mem_filter]
      constructor
      · rintro ⟨inTables, was⟩
        rcases walks q with same | ⟨-, found⟩
        · refine Or.inr ⟨inTables, ?_⟩
          rw [grows.base, same, was]
        · left
          rw [grows.base] at new
          have depth := s'.walk_depth found
          have depth' := s'.walk_depth new
          have start := wf'.tree.root
          rw [grows.base] at start
          exact walk_inj wf'.tree.closed wf'.tree.referencedOnce start (by omega) found new
      · rintro (rfl | ⟨inTables, still⟩)
        · exact ⟨onWay, by rw [through s rfl walked, missing]⟩
        · refine ⟨inTables, ?_⟩
          rcases walks q with same | ⟨was, -⟩
          · rw [← same, ← grows.base, still]
          · exact was
    have notMissing : (path page).take (3 - l) ∉ s'.missing tables := by
      intro mem
      rw [State.missing, Finset.mem_filter, new] at mem
      exact Option.some_ne_none _ mem.2
    unfold Pays
    rw [one, Finset.card_insert_of_notMem notMissing]
    omega

/-- Reaching a page takes the missing tables on the way to it. -/
theorem Wf.reachFrom_pays (wf : Wf y s level) (hl : l ≤ 3)
    (walked : walk s.child (3, s.base) ((path page).take (3 - l)) = some (l, t))
    (inside : tablePaths page ⊆ tables) :
    (∃ e, Paging.reachFrom y.toSymbols page l t s = .error e ∧
        s.tablesLeft < (s.missing tables).card) ∨
      ∃ s', Paging.reachFrom y.toSymbols page l t s = .ok s' ∧ Pays tables s s' := by
  induction l generalizing t s level with
  | zero => exact Or.inr ⟨s, rfl, Pays.refl tables s⟩
  | succ l ih =>
      rw [Paging.reachFrom]
      rcases wf.belowEntry_pays (by omega) walked inside with
        ⟨e, stops, short⟩ | ⟨c, s₁, level₁, below, wf₁, pays, walked₁⟩
      · rw [stops]
        exact Or.inl ⟨e, rfl, short⟩
      · rw [below, ok_bind]
        rcases ih wf₁ (by omega) walked₁ with ⟨e, stops, short⟩ | ⟨s', result, pays'⟩
        · refine Or.inl ⟨e, stops, ?_⟩
          unfold Pays at pays
          omega
        · exact Or.inr ⟨s', result, pays.trans pays'⟩

/-- `reach` takes the missing tables on the way to its page. -/
theorem Wf.reach_pays (wf : Wf y s level) (inside : tablePaths page ⊆ tables) :
    (∃ e, Paging.reach y.toSymbols page s = .error e ∧ s.tablesLeft < (s.missing tables).card) ∨
      ∃ s' level', Paging.reach y.toSymbols page s = .ok s' ∧ Wf y s' level' ∧ Grows s s' ∧
        Pays tables s s' ∧ s'.leaf page ≠ none := by
  rcases wf.reachFrom_pays (Nat.le_refl 3) rfl inside with stops | ⟨s₁, result₁, pays⟩
  · exact Or.inl stops
  · rcases wf.reach page with ⟨e, stops, -⟩ | ⟨s', level', result, wf', grows, there⟩
    · cases result₁.symm.trans stops
    · obtain rfl : s₁ = s' := Except.ok.inj (result₁.symm.trans result)
      exact Or.inr ⟨s₁, level', result, wf', grows, pays, there⟩

/-- `map_page` takes the missing tables on the way to its page. -/
theorem Wf.mapPage_pays (wf : Wf y s level) {p v : Word} {n : Nat} (attrs : Word)
    (unmapped : Unmapped s p v (n + 1)) (inside : tablePaths v ⊆ tables) :
    (∃ e, (Paging.mapPage y.toSymbols p v attrs s).map Prod.snd = .error e ∧
        s.tablesLeft < (s.missing tables).card) ∨
      ∃ s', (Paging.mapPage y.toSymbols p v attrs s).map Prod.snd = .ok s' ∧
        Pays tables s s' ∧ s'.leaf v ≠ none := by
  obtain ⟨canonical, absent⟩ := unmapped.first
  rw [wf.mapPage_reach attrs canonical.aligned unmapped.alignedP]
  rcases wf.reach_pays inside with ⟨e, stops, short⟩ | ⟨s₁, level₁, result, wf₁, grows, pays, there⟩
  · rw [stops]
    exact Or.inl ⟨e, rfl, short⟩
  · obtain ⟨⟨l', t⟩, found⟩ := Option.ne_none_iff_exists'.mp there
    obtain ⟨rfl, used⟩ := wf₁.tree.leaf_level found
    have walks := wf₁.tree.walk_setLeaf (w := p ||| attrs ||| PRESENT) used (index_lt v 0)
    have notPresent : (s₁.entryOf v &&& PRESENT != 0#64) = false := by
      rw [grows.entries, absent]
      rfl
    rw [result, ok_bind, wf₁.mapPage_there found attrs canonical.aligned unmapped.alignedP, notPresent]
    refine Or.inr ⟨_, rfl, pays.trans (Pays.of_walks rfl walks), ?_⟩
    rw [wf₁.tree.leaf_setLeaf used (index_lt v 0)]
    exact there

theorem rangePaths_first {v : Word} {n : Nat} : tablePaths v ⊆ rangePaths v (n + 1) := by
  intro q mem
  refine mem_rangePaths.mpr ⟨0, Nat.succ_pos n, ?_⟩
  rw [pageAt_zero]
  exact mem_tablePaths.mp mem

theorem rangePaths_rest {v : Word} {n : Nat} :
    rangePaths (v + BitVec.ofNat 64 PAGE_SIZE) n ⊆ rangePaths v (n + 1) := by
  intro q mem
  obtain ⟨j, hj, onWay⟩ := mem_rangePaths.mp mem
  rw [pageAt_succ] at onWay
  exact mem_rangePaths.mpr ⟨j + 1, Nat.succ_lt_succ hj, onWay⟩

/-- `map_page` on each page in order takes the missing tables on the way to the pages, and
completes if that many are left. -/
theorem Wf.mapPages_pays (wf : Wf y s level) {p v : Word} {n : Nat} (attrs : Word)
    (unmapped : Unmapped s p v n) (inside : rangePaths v n ⊆ tables) :
    (∃ e, Paging.mapPages y.toSymbols attrs n p v s = .error e ∧
        s.tablesLeft < (s.missing tables).card) ∨
      ∃ s' level', Paging.mapPages y.toSymbols attrs n p v s = .ok s' ∧ Wf y s' level' ∧
        Pays tables s s' ∧ (∀ page, s.leaf page ≠ none → s'.leaf page ≠ none) ∧
        ∀ j, j < n → s'.leaf (pageAt v j) ≠ none := by
  induction n generalizing p v s level with
  | zero =>
      exact Or.inr ⟨s, level, rfl, wf, Pays.refl tables s, fun _ there => there,
        fun j hj => absurd hj (Nat.not_lt_zero j)⟩
  | succ n ih =>
      rw [mapPages_succ]
      rcases wf.mapPage_pays attrs unmapped (rangePaths_first.trans inside) with
        ⟨e, stops, short⟩ | ⟨s₁, mapped, pays, there⟩
      · rw [stops]
        exact Or.inl ⟨e, rfl, short⟩
      · rcases wf.mapPage_first attrs unmapped with
          ⟨e, stops, -⟩ | ⟨s₂, level₂, mapped₂, wf₂, rest, stays⟩
        · cases mapped.symm.trans stops
        · obtain rfl : s₁ = s₂ := Except.ok.inj (mapped.symm.trans mapped₂)
          rw [mapped]
          rcases ih wf₂ rest (rangePaths_rest.trans inside) with
            ⟨e, stops, short⟩ | ⟨s', level', result, wf', pays', stays', there'⟩
          · refine Or.inl ⟨e, stops, ?_⟩
            unfold Pays at pays
            omega
          · refine Or.inr ⟨s', level', result, wf', pays.trans pays',
              fun page some_ => stays' page (stays page some_), fun j hj => ?_⟩
            cases j with
            | zero =>
                rw [pageAt_zero]
                exact stays' v there
            | succ j =>
                rw [← pageAt_succ]
                exact there' j (by omega)

theorem rangePaths_succ (v : Word) (n : Nat) :
    rangePaths v (n + 1) = tablePaths (pageAt v n) ∪ rangePaths v n := by
  rw [rangePaths, Finset.range_add_one, Finset.biUnion_insert]
  rfl

/-- Nothing is missing where the pages have their tables. -/
theorem State.missing_rangePaths {v : Word} {n : Nat} (there : ∀ j, j < n → s.leaf (pageAt v j) ≠ none) :
    s.missing (rangePaths v n) = ∅ := by
  refine Finset.filter_eq_empty_iff.mpr fun q mem => ?_
  obtain ⟨j, hj, onWay⟩ := mem_rangePaths.mp mem
  exact State.missing_of_leaf (there j hj) onWay

theorem pageAt_toNat {v : Word} {j : Nat} (fits : v.toNat + PAGE_SIZE * j < 2 ^ 64) :
    (pageAt v j).toNat = v.toNat + PAGE_SIZE * j := by
  rw [pageAt, BitVec.toNat_add, BitVec.toNat_ofNat]
  unfold PAGE_SIZE at *
  omega

/-- The page behind a range has the tables of the last page, except at the start of 2 MiB. -/
theorem path_behind {v : Word} {n : Nat} (positive : 0 < n) (alignedV : v.toNat % PAGE_SIZE = 0)
    (fits : v.toNat + PAGE_SIZE * n < 2 ^ 64)
    (place : v.toNat + PAGE_SIZE * n ≤ 2 ^ 41 ∨ 2 ^ 64 - 2 ^ 41 ≤ v.toNat) :
    (∃ j, j < n ∧ path (pageAt v n) = path (pageAt v j)) ↔ (v.toNat + PAGE_SIZE * n) % 2 ^ 21 ≠ 0 := by
  have address : ∀ j, j ≤ n → (pageAt v j).toNat = v.toNat + PAGE_SIZE * j := by
    intro j hj
    have le := Nat.mul_le_mul_left PAGE_SIZE hj
    exact pageAt_toNat (by omega)
  have same : ∀ j, j ≤ n → (path (pageAt v n) = path (pageAt v j) ↔
      (v.toNat + PAGE_SIZE * n) / 2 ^ 21 % 2 ^ 27 = (v.toNat + PAGE_SIZE * j) / 2 ^ 21 % 2 ^ 27) := by
    intro j hj
    simp only [path, List.cons.injEq, index_eq, and_true, address n (Nat.le_refl n), address j hj]
    omega
  constructor
  · rintro ⟨j, hj, eq⟩
    rw [same j hj.le] at eq
    unfold PAGE_SIZE at *
    omega
  · intro inside
    refine ⟨n - 1, by omega, (same (n - 1) (by omega)).mpr ?_⟩
    unfold PAGE_SIZE at *
    have last : (v.toNat + 4096 * n) / 2 ^ 21 = (v.toNat + 4096 * (n - 1)) / 2 ^ 21 := by omega
    rw [last]

/-- Reaching the page behind a range takes no more tables than the range. -/
theorem State.missing_behind {v : Word} {n : Nat} (positive : 0 < n)
    (alignedV : v.toNat % PAGE_SIZE = 0) (fits : v.toNat + PAGE_SIZE * n < 2 ^ 64)
    (place : v.toNat + PAGE_SIZE * n ≤ 2 ^ 41 ∨ 2 ^ 64 - 2 ^ 41 ≤ v.toNat) :
    (s.missing (rangePaths v (n + 1))).card = (s.missing (rangePaths v n)).card ↔
      (v.toNat + PAGE_SIZE * n) % 2 ^ 21 ≠ 0 ∨ s.leaf (pageAt v n) ≠ none := by
  have more : s.missing (rangePaths v n) ⊆ s.missing (rangePaths v (n + 1)) := by
    rw [rangePaths_succ]
    exact Finset.filter_subset_filter _ Finset.subset_union_right
  rw [← path_behind positive alignedV fits place]
  constructor
  · intro card
    by_contra neither
    obtain ⟨other, missing⟩ := not_or.mp neither
    have missing := not_not.mp missing
    have same := Finset.eq_of_subset_of_card_le more card.le
    have behind : path (pageAt v n) ∈ s.missing (rangePaths v (n + 1)) :=
      Finset.mem_filter.mpr ⟨mem_rangePaths.mpr ⟨n, Nat.lt_succ_self n, List.prefix_refl _⟩, missing⟩
    rw [← same] at behind
    obtain ⟨j, hj, onWay⟩ := mem_rangePaths.mp (Finset.mem_filter.mp behind).1
    exact other ⟨j, hj, onWay.eq_of_length rfl⟩
  · intro either
    refine congrArg Finset.card (Finset.Subset.antisymm (fun q mem => ?_) more)
    obtain ⟨inRange, missing⟩ := Finset.mem_filter.mp mem
    refine Finset.mem_filter.mpr ⟨?_, missing⟩
    rw [rangePaths_succ, Finset.mem_union] at inRange
    rcases inRange with behind | inside
    · have onWay := mem_tablePaths.mp behind
      rcases either with ⟨j, hj, same⟩ | there
      · rw [same] at onWay
        exact mem_rangePaths.mpr ⟨j, hj, onWay⟩
      · exact absurd missing (State.missing_of_leaf there onWay)
    · exact inside

/-! ## What `map_range` takes -/

/-- `map_range` takes the tables that `map_page` takes on each page in order, and then the
missing ones on the way to the page behind the range. -/
theorem Wf.mapRange_pays (wf : Wf y s level) {p v : Word} {n : Nat} (attrs : Word)
    (unmapped : Unmapped s p v n) (fits : p.toNat + PAGE_SIZE * n < 2 ^ 64)
    (below : v.toNat + PAGE_SIZE * n < 2 ^ 64) :
    (∃ e, Paging.mapPages y.toSymbols attrs n p v s = .error e ∧
        s.tablesLeft < (s.missing (rangePaths v n)).card) ∨
      ∃ s₂, Paging.mapPages y.toSymbols attrs n p v s = .ok s₂ ∧
        s₂.tablesLeft + (s.missing (rangePaths v n)).card = s.tablesLeft ∧
        ((∃ e, Paging.mapRange y.toSymbols p (pageAt p n) v (pageAt v n) attrs s = .error e ∧
            s.tablesLeft < (s.missing (rangePaths v (n + 1))).card) ∨
          ∃ s₁, Paging.mapRange y.toSymbols p (pageAt p n) v (pageAt v n) attrs s = .ok (v, s₁) ∧
            s₁.tablesLeft + (s.missing (rangePaths v (n + 1))).card = s.tablesLeft) := by
  have more : rangePaths v n ⊆ rangePaths v (n + 1) := by
    rw [rangePaths_succ]
    exact Finset.subset_union_right
  have behind : tablePaths (pageAt v n) ⊆ rangePaths v (n + 1) := by
    rw [rangePaths_succ]
    exact Finset.subset_union_left
  rw [wf.mapRange_eq attrs unmapped.alignedP unmapped.alignedV fits unmapped.extended below]
  rcases wf.mapPages_pays attrs unmapped (Finset.Subset.refl (rangePaths v n)) with
    stops | ⟨s₂, level₂, mapped, wf₂, pays, -, there⟩
  · exact Or.inl stops
  · rcases wf.mapPages_pays attrs unmapped more with ⟨e, stops, -⟩ | ⟨s₂', -, mapped', -, pays', -, -⟩
    · cases mapped.symm.trans stops
    · obtain rfl : s₂ = s₂' := Except.ok.inj (mapped.symm.trans mapped')
      unfold Pays at pays pays'
      rw [State.missing_rangePaths there, Finset.card_empty] at pays
      refine Or.inr ⟨s₂, mapped, pays, ?_⟩
      rw [mapped, ok_bind]
      rcases wf₂.reach_pays behind with ⟨e, stops, short⟩ | ⟨s₁, level₁, result, -, grows, pays₁, last⟩
      · rw [stops]
        exact Or.inl ⟨e, rfl, by omega⟩
      · have there₁ : ∀ j, j < n + 1 → s₁.leaf (pageAt v j) ≠ none := by
          intro j hj
          rcases Nat.eq_or_lt_of_le (Nat.le_of_lt_succ hj) with rfl | earlier
          · exact last
          · obtain ⟨found, reached⟩ := Option.ne_none_iff_exists'.mp (there j earlier)
            rw [State.leaf, grows.base, grows.walks _ _ reached]
            exact Option.some_ne_none found
        unfold Pays at pays₁
        rw [State.missing_rangePaths there₁, Finset.card_empty] at pays₁
        rw [result]
        exact Or.inr ⟨s₁, rfl, by omega⟩

end Paying

/-! ## Page by page -/

/-- `map_range` translates every address as `map_page` on each page in order does, and its
iterator stays in step: it only stops when fewer tables are left than it takes. -/
theorem map_range_page_by_page {y : Layout} {s : State} (wf : ∃ level, Wf y s level)
    {physicalStart physicalEnd virtualStart virtualEnd attrs : Word}
    (alignedP : physicalStart.toNat % PAGE_SIZE = 0) (alignedP' : physicalEnd.toNat % PAGE_SIZE = 0)
    (alignedV : virtualStart.toNat % PAGE_SIZE = 0) (alignedV' : virtualEnd.toNat % PAGE_SIZE = 0)
    (sizes : physicalEnd - physicalStart = virtualEnd - virtualStart)
    (order : virtualStart.toNat < virtualEnd.toNat)
    (place : virtualEnd.toNat ≤ 2 ^ 41 ∨ 2 ^ 64 - 2 ^ 41 ≤ virtualStart.toNat)
    (physical : physicalStart.toNat < 2 ^ 52 ∧ physicalEnd.toNat ≤ 2 ^ 52)
    (absent : ∀ k, k < (virtualEnd.toNat - virtualStart.toNat) / PAGE_SIZE →
      pagePresent (pageAt virtualStart k) s = false) :
    (∃ e, mapRange y.toSymbols physicalStart physicalEnd virtualStart virtualEnd attrs s = .error e ∧
        Exhausted e ∧ s.tablesLeft < (s.missing (rangePaths virtualStart
          ((virtualEnd.toNat - virtualStart.toNat) / PAGE_SIZE + 1))).card) ∨
      ∃ s₁ s₂, mapRange y.toSymbols physicalStart physicalEnd virtualStart virtualEnd attrs s =
          .ok (virtualStart, s₁) ∧
        mapPages y.toSymbols attrs ((virtualEnd.toNat - virtualStart.toNat) / PAGE_SIZE) physicalStart
          virtualStart s = .ok s₂ ∧
        (∀ page, s₁.entryOf page = s₂.entryOf page) ∧
        ∀ w, (getPhysicalAddress w s₁).toOption = (getPhysicalAddress w s₂).toOption := by
  obtain ⟨level, wf⟩ := wf
  have ends : ∃ n, n ≤ 2 ^ 29 ∧ (virtualEnd.toNat - virtualStart.toNat) / PAGE_SIZE = n ∧
      physicalEnd = pageAt physicalStart n ∧ virtualEnd = pageAt virtualStart n ∧
      physicalStart.toNat + PAGE_SIZE * n < 2 ^ 64 ∧ virtualStart.toNat + PAGE_SIZE * n < 2 ^ 64 ∧
      ∀ j, j < n → SignExtended (pageAt virtualStart j) := by
    have words := congrArg BitVec.toNat sizes
    have := virtualEnd.isLt
    rw [BitVec.toNat_sub, BitVec.toNat_sub] at words
    unfold PAGE_SIZE at *
    refine ⟨(virtualEnd.toNat - virtualStart.toNat) / 4096, by omega, rfl, ?_, ?_, by omega, by omega,
      fun j hj => ?_⟩
    · apply BitVec.eq_of_toNat_eq
      rw [pageAt, BitVec.toNat_add, BitVec.toNat_ofNat, PAGE_SIZE]
      omega
    · apply BitVec.eq_of_toNat_eq
      rw [pageAt, BitVec.toNat_add, BitVec.toNat_ofNat, PAGE_SIZE]
      omega
    · unfold SignExtended
      rw [pageAt, BitVec.toNat_add, BitVec.toNat_ofNat, PAGE_SIZE]
      omega
  obtain ⟨n, small, count, rfl, rfl, fits, below, extended⟩ := ends
  rw [count] at absent ⊢
  have unmapped : Unmapped s physicalStart virtualStart n :=
    Unmapped.of_pagePresent wf alignedP alignedV (by omega) extended absent
  -- what is taken, and how the loop goes on
  have taken := wf.mapRange_pays attrs unmapped fits below
  have more : s.missing (rangePaths virtualStart n) ⊆ s.missing (rangePaths virtualStart (n + 1)) := by
    rw [rangePaths_succ]
    exact Finset.filter_subset_filter _ Finset.subset_union_right
  rw [wf.mapRange_eq attrs alignedP alignedV fits extended below] at taken ⊢
  rcases wf.mapPages attrs unmapped with ⟨e, stops, why⟩ | ⟨s₂, level₂, mapped, wf₂⟩
  · rcases taken with ⟨-, -, short⟩ | ⟨s₂, mapped, -⟩
    · rw [stops]
      exact Or.inl ⟨e, rfl, why, Nat.lt_of_lt_of_le short (Finset.card_le_card more)⟩
    · cases stops.symm.trans mapped
  · rw [mapped, ok_bind] at taken
    rw [mapped, ok_bind]
    rcases wf₂.reach (pageAt virtualStart n) with ⟨e, stops, why⟩ | ⟨s₁, level₁, result, wf₁, grows, -⟩
    · rw [stops] at taken
      rw [stops]
      rcases taken with ⟨e', stops', -⟩ | ⟨-, -, -, ⟨-, -, short⟩ | ⟨s₁, completes, -⟩⟩
      · cases stops'
      · exact Or.inl ⟨e, rfl, why, short⟩
      · cases completes
    · rw [result]
      refine Or.inr ⟨s₁, s₂, rfl, rfl, grows.entries, fun w => ?_⟩
      rw [wf₁.tree.getPhysicalAddress_toOption, wf₂.tree.getPhysicalAddress_toOption, grows.entries]

/-- Two pages on both sides of a 2 MiB boundary, right after `early_init`. -/
theorem map_range_page_by_page_boundary :
    let s := earlyInit sampleLayout.toSymbols (image sampleLayout.toSymbols fun _ => 0#64)
    ∃ s₁ s₂, mapRange sampleLayout.toSymbols 0x300000#64 0x302000#64 0x3FF000#64 0x401000#64
        (RW ||| XD) s = .ok (0x3FF000#64, s₁) ∧
      mapPages sampleLayout.toSymbols (RW ||| XD) 2 0x300000#64 0x3FF000#64 s = .ok s₂ ∧
      (∀ page, s₁.entryOf page = s₂.entryOf page) ∧
      ∀ w, (getPhysicalAddress w s₁).toOption = (getPhysicalAddress w s₂).toOption := by
  have absent : ∀ k, k < 2 → pagePresent (pageAt 0x3FF000#64 k)
      (earlyInit sampleLayout.toSymbols (image sampleLayout.toSymbols fun _ => 0#64)) = false := by
    decide +kernel
  have completes : completesWith (mapRange sampleLayout.toSymbols 0x300000#64 0x302000#64 0x3FF000#64
      0x401000#64 (RW ||| XD)
      (earlyInit sampleLayout.toSymbols (image sampleLayout.toSymbols fun _ => 0#64)))
      (fun _ => true) = true := by decide +kernel
  obtain ⟨r, done, -⟩ := exists_of_completesWith completes
  refine Or.resolve_left (@map_range_page_by_page sampleLayout _ (earlyInit_wf sampleLayout fun _ => 0#64)
    0x300000#64 0x302000#64 0x3FF000#64 0x401000#64 (RW ||| XD) (by decide) (by decide) (by decide)
    (by decide) (by decide) (by decide) (by decide) (by decide) absent) ?_
  rintro ⟨e, stops, -⟩
  cases done.symm.trans stops

/-- `map_range` on `n` pages completes and takes the missing tables that cover a page of the
range, as many as `map_page` on each page in order. -/
def TakesWhatItNeeds (y : Symbols) (p v attrs : Word) (n : Nat) (s : State) : Prop :=
  ∃ r s₁ s₂, mapRange y p (pageAt p n) v (pageAt v n) attrs s = .ok (r, s₁) ∧
    mapPages y attrs n p v s = .ok s₂ ∧ s₁.tablesLeft = s₂.tablesLeft ∧
    s₁.tablesLeft + (s.missing (rangePaths v n)).card = s.tablesLeft

section Ranges

variable {y : Layout} {s : State} {level : Word → Option Nat}

/-- `map_range` takes no more tables than its pages need, and completes if they are left,
except when the range ends at the top of the address space or at the start of 2 MiB whose
table is missing. -/
theorem takesWhatItNeeds_iff (wf : ∃ level, Wf y s level) {p v attrs : Word} {n : Nat}
    (positive : 0 < n) (alignedP : p.toNat % PAGE_SIZE = 0) (alignedV : v.toNat % PAGE_SIZE = 0)
    (fits : p.toNat + PAGE_SIZE * n < 2 ^ 64)
    (place : v.toNat + PAGE_SIZE * n ≤ 2 ^ 41 ∨
      2 ^ 64 - 2 ^ 41 ≤ v.toNat ∧ v.toNat + PAGE_SIZE * n ≤ 2 ^ 64)
    (absent : ∀ k, k < n → pagePresent (pageAt v k) s = false) :
    TakesWhatItNeeds y.toSymbols p v attrs n s ↔
      (s.missing (rangePaths v n)).card ≤ s.tablesLeft ∧ v.toNat + PAGE_SIZE * n < 2 ^ 64 ∧
        ((v.toNat + PAGE_SIZE * n) % 2 ^ 21 ≠ 0 ∨ s.leaf (pageAt v n) ≠ none) := by
  obtain ⟨level, wf⟩ := wf
  have small : n ≤ 2 ^ 29 := by
    unfold PAGE_SIZE at place
    omega
  have extended : ∀ j, j < n → SignExtended (pageAt v j) := by
    intro j hj
    have := v.isLt
    unfold SignExtended
    rw [pageAt, BitVec.toNat_add, BitVec.toNat_ofNat]
    unfold PAGE_SIZE at *
    omega
  have unmapped : Unmapped s p v n :=
    Unmapped.of_pagePresent wf alignedP alignedV (by omega) extended absent
  by_cases below : v.toNat + PAGE_SIZE * n < 2 ^ 64
  · have place' : v.toNat + PAGE_SIZE * n ≤ 2 ^ 41 ∨ 2 ^ 64 - 2 ^ 41 ≤ v.toNat := by omega
    rw [← State.missing_behind positive alignedV below place']
    unfold TakesWhatItNeeds
    rcases wf.mapRange_pays attrs unmapped fits below with ⟨e, stops, short⟩ | ⟨s₂, mapped, taken, range⟩
    · rw [stops]
      constructor
      · rintro ⟨r, s₁, s₂, -, completes, -⟩
        cases completes
      · rintro ⟨enough, -⟩
        omega
    · rw [mapped]
      rcases range with ⟨e, stops, short⟩ | ⟨s₁, result, taken₁⟩
      · rw [stops]
        constructor
        · rintro ⟨r, s₁, s₃, completes, -⟩
          cases completes
        · rintro ⟨-, -, same⟩
          omega
      · rw [result]
        constructor
        · rintro ⟨r, s₃, s₄, completes, mapped₄, equalLeft, taken₃⟩
          obtain ⟨-, rfl⟩ := Prod.mk.inj (Except.ok.inj completes)
          obtain rfl := Except.ok.inj mapped₄
          exact ⟨by omega, below, by omega⟩
        · rintro ⟨enough, -, same⟩
          exact ⟨v, s₁, s₂, rfl, rfl, by omega, by omega⟩
  · -- the iterator cannot go behind the last page
    constructor
    · rintro ⟨r, s₁, s₂, completes, -⟩
      have count : ((pageAt p n).toNat - p.toNat) / PAGE_SIZE = n := by
        rw [pageAt_toNat fits]
        unfold PAGE_SIZE
        omega
      obtain ⟨-, -, level', -, maps⟩ := wf.mapRange completes
      rw [count] at maps
      have last := maps.below (n - 1) (by omega)
      rw [maps.toNat (show n - 1 < n by omega)] at last
      unfold PAGE_SIZE at *
      omega
    · rintro ⟨-, inside, -⟩
      exact absurd inside below

end Ranges

/-- A page in the middle of 2 MiB, right after `early_init`. -/
theorem takesWhatItNeeds_middle :
    let s := earlyInit sampleLayout.toSymbols (image sampleLayout.toSymbols fun _ => 0#64)
    TakesWhatItNeeds sampleLayout.toSymbols 0x300000#64 0x300000#64 (RW ||| XD) 1 s ↔
      (s.missing (rangePaths 0x300000#64 1)).card ≤ s.tablesLeft ∧
        (0x300000#64 : Word).toNat + PAGE_SIZE * 1 < 2 ^ 64 ∧
        (((0x300000#64 : Word).toNat + PAGE_SIZE * 1) % 2 ^ 21 ≠ 0 ∨
          s.leaf (pageAt 0x300000#64 1) ≠ none) := by
  have absent : ∀ k, k < 1 → pagePresent (pageAt 0x300000#64 k)
      (earlyInit sampleLayout.toSymbols (image sampleLayout.toSymbols fun _ => 0#64)) = false := by
    decide +kernel
  exact takesWhatItNeeds_iff (earlyInit_wf sampleLayout fun _ => 0#64) (by decide) (by decide)
    (by decide) (by decide) (by decide) absent

/-- Right after `early_init`, the page at the end of the second 2 MiB: `map_page` takes the
table of these 2 MiB, `map_range` also takes the one of the next 2 MiB. -/
theorem takesWhatItNeeds_fails :
    ∃ (s : State) (v : Word), (∃ level, Wf sampleLayout s level) ∧ v.toNat % PAGE_SIZE = 0 ∧
      v.toNat + PAGE_SIZE * 1 ≤ 2 ^ 41 ∧ pagePresent v s = false ∧
      ¬ TakesWhatItNeeds sampleLayout.toSymbols 0x300000#64 v (RW ||| XD) 1 s := by
  refine ⟨earlyInit sampleLayout.toSymbols (image sampleLayout.toSymbols fun _ => 0#64), 0x3FF000#64,
    earlyInit_wf sampleLayout fun _ => 0#64, by decide, by decide, by decide +kernel, ?_⟩
  rintro ⟨r, s₁, s₂, range, pages, equalLeft, -⟩
  have rangeLeft : completesWith (mapRange sampleLayout.toSymbols 0x300000#64 (pageAt 0x300000#64 1)
      0x3FF000#64 (pageAt 0x3FF000#64 1) (RW ||| XD)
      (earlyInit sampleLayout.toSymbols (image sampleLayout.toSymbols fun _ => 0#64)))
      (fun r => r.2.tablesLeft == 6) = true := by decide +kernel
  have pagesLeft : completesWith (mapPages sampleLayout.toSymbols (RW ||| XD) 1 0x300000#64 0x3FF000#64
      (earlyInit sampleLayout.toSymbols (image sampleLayout.toSymbols fun _ => 0#64)))
      (fun s => s.tablesLeft == 7) = true := by decide +kernel
  rw [range] at rangeLeft
  rw [pages] at pagesLeft
  have six := beq_iff_eq.mp rangeLeft
  have seven := beq_iff_eq.mp pagesLeft
  dsimp only at six
  omega

end Tyleros.Paging
