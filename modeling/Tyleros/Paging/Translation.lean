import Tyleros.Paging.Tree

/-!
# The page table operations on the tree

One specification lemma for each function of `page_tables`, in terms of the tree:
`find_spec`, `Wf.getLevels`, `Wf.mapPage`, `Wf.unmapPage` and
`Tree.getPhysicalAddress`.
-/

namespace Tyleros.Paging

open Tyleros.Lib

/-! ## Finding an entry -/

/-- The iterator stands in a table of level `l`, on its way to a page. -/
structure Cursor (it : Iterator) (page : Word) (l : Nat) (t : Word) : Prop where
  level : it.level0 = l
  table : it.tables l = t
  indices : ∀ j, j < 4 → it.indices j = index page j

theorem Cursor.ofAddress (base page : Word) : Cursor (Iterator.ofAddress base page) page 3 base := by
  refine ⟨rfl, rfl, fun j hj => ?_⟩
  simp only [Iterator.ofAddress, if_pos hj, index]

section Reading

variable {s : State} {level : Word → Option Nat} {fresh : Set Word} {it : Iterator}
  {page t : Word} {l : Nat}

theorem Cursor.exists (cursor : Cursor it page l t) (ptr : TablePtr t) : it.tableExists = true := by
  simp [Iterator.tableExists, cursor.level, cursor.table, ptr.nonzero]

theorem Cursor.location (cursor : Cursor it page l t) (ptr : TablePtr t) (hl : l < 4) :
    it.location = .ok (slot t (index page l)) := by
  have bound : index page l < NUM_PAGE_TABLE_ENTRIES := index_lt page l
  simp [Iterator.location, cursor.level, cursor.table, cursor.indices l hl, ptr.nonzero, bound,
    kassert]
  rfl

theorem Cursor.read (cursor : Cursor it page l t) (ptr : TablePtr t) (hl : l < 4) :
    it.read s = .ok (s.entry t (index page l)) := by
  rw [Iterator.read, cursor.location ptr hl]
  rfl

theorem Cursor.write (cursor : Cursor it page l t) (ptr : TablePtr t) (hl : l < 4) (w : Word) :
    it.write w s = .ok (s.store (slot t (index page l)) w) := by
  rw [Iterator.write, cursor.location ptr hl]
  rfl

theorem Cursor.present (cursor : Cursor it page l t) (ptr : TablePtr t) (hl : l < 4) :
    it.present s = .ok (s.entry t (index page l) &&& PRESENT != 0#64) := by
  rw [Iterator.present, cursor.read ptr hl]
  rfl

theorem Cursor.down (cursor : Cursor it page (l + 1) t) (c : Word) :
    Cursor (it.down c) page l c := by
  refine ⟨?_, ?_, cursor.indices⟩
  · simp [Iterator.down, cursor.level]
  · simp [Iterator.down, cursor.level]

/-- `descend` goes to the child of the entry, if there is one. -/
theorem Cursor.descend (tree : Tree s level fresh) (cursor : Cursor it page (l + 1) t)
    (used : level t = some (l + 1)) :
    (s.child (l + 1, t) (index page (l + 1)) = none ∧ it.descend s = .ok none) ∨
      ∃ c, s.child (l + 1, t) (index page (l + 1)) = some (l, c) ∧ level c = some l ∧
        it.descend s = .ok (some (it.down c)) := by
  have ptr := tree.pointer used
  have hl : l + 1 < 4 := by
    have := tree.bound t _ used
    omega
  have hi := index_lt page (l + 1)
  have guard : (it.level == 1 || it.indices it.level0 ≥ NUM_PAGE_TABLE_ENTRIES ||
      !it.tableExists) = false := by
    simp [Iterator.level, cursor.level, cursor.indices (l + 1) hl, cursor.exists ptr,
      NUM_PAGE_TABLE_ENTRIES, hi]
  unfold Iterator.descend
  rw [guard, cursor.present ptr hl]
  rcases tree.child_eq used hi with ⟨zero, none_⟩ | ⟨c, levelC, eq, some_⟩
  · refine Or.inl ⟨none_, ?_⟩
    rw [zero]
    rfl
  · refine Or.inr ⟨c, some_, levelC, ?_⟩
    have present : (tableEntry c &&& PRESENT != 0#64) = true := bne_iff_ne.mpr (tableEntry_present c)
    rw [cursor.read ptr hl, eq, present]
    show Except.ok (some (it.down ((tableEntry c &&& ~~~ PREFIX_MASK) + VMA_OFFSET))) = _
    rw [tableEntry_masked (tree.pointer levelC), BitVec.sub_add_cancel]

/-- The indices of a page in the tables of the levels from `l` down to 1. -/
def pathFrom (page : Word) : Nat → List Nat
  | 0 => []
  | l + 1 => index page (l + 1) :: pathFrom page l

theorem Cursor.descendAll (tree : Tree s level fresh) (cursor : Cursor it page l t)
    (used : level t = some l) :
    ∃ it', it.descendAll s l = .ok it' ∧
      ((∃ t', walk s.child (l, t) (pathFrom page l) = some (0, t') ∧ Cursor it' page 0 t') ∨
        (walk s.child (l, t) (pathFrom page l) = none ∧ it'.level0 ≠ 0)) := by
  induction l generalizing it t with
  | zero => exact ⟨it, rfl, Or.inl ⟨t, rfl, cursor⟩⟩
  | succ l ih =>
      rcases cursor.descend tree used with ⟨none_, stays⟩ | ⟨c, some_, levelC, goes⟩
      · refine ⟨it, ?_, Or.inr ⟨?_, ?_⟩⟩
        · rw [Iterator.descendAll, stays]
          rfl
        · rw [pathFrom, walk, none_, Option.bind_none]
        · rw [cursor.level]
          exact Nat.succ_ne_zero l
      · obtain ⟨it', result, outcome⟩ := ih (cursor.down c) levelC
        refine ⟨it', ?_, ?_⟩
        · rw [Iterator.descendAll, goes]
          exact result
        · rw [pathFrom, walk, some_, Option.bind_some]
          exact outcome

/-- `find` returns the level 0 entry of the page, or `end()` if a table is
missing. -/
theorem find_spec (tree : Tree s level fresh) (page : Word) :
    ∃ it, find page s = .ok it ∧
      ((∃ t, s.leaf page = some (0, t) ∧ Cursor it page 0 t) ∨
        (s.leaf page = none ∧ it = Iterator.atEnd)) := by
  obtain ⟨it, result, outcome⟩ := (Cursor.ofAddress s.base page).descendAll tree tree.root
  refine ⟨if it.level != 1 then Iterator.atEnd else it, ?_, ?_⟩
  · rw [find, result]
    rfl
  · rcases outcome with ⟨t, reached, cursor⟩ | ⟨missing, above⟩
    · refine Or.inl ⟨t, reached, ?_⟩
      simpa [Iterator.level, cursor.level] using cursor
    · refine Or.inr ⟨missing, ?_⟩
      simp [Iterator.level, above]

end Reading

/-! ## The invariant of the kernel's tables -/

/-- The first `n` tables of an array. -/
def firstTables (tables : Word) (n : Nat) : Set Word := {t | ∃ j, j < n ∧ t = tableAt tables j}

/-- The tables left in the two pools. -/
def State.pool (s : State) (y : Symbols) : Set Word :=
  firstTables y.staticTables s.numStaticTablesLeft ∪
    firstTables s.dynamicTables s.numDynamicTablesLeft

/-- The tables form a tree, with the pools as its fresh tables. -/
structure Wf (y : Layout) (s : State) (level : Word → Option Nat) : Prop where
  tree : Tree s level (s.pool y.toSymbols)
  base : s.base = y.kernelPml4
  allocator : s.hasAllocator = true
  staticLe : s.numStaticTablesLeft ≤ MAX_STATIC_TABLES
  dynamicLe : s.numDynamicTablesLeft ≤ MAX_DYNAMIC_TABLES
  noDynamic : s.dynamicTables = 0#64 →
    s.numDynamicTablesLeft = 0 ∧ ∀ t, level t ≠ none → t ∈ y.tables
  apart : s.dynamicTables ≠ 0#64 → ∀ j, j < MAX_DYNAMIC_TABLES →
    tableAt s.dynamicTables j ∉ y.tables

/-- How many tables are left in the pools. -/
def State.tablesLeft (s : State) : Nat := s.numStaticTablesLeft + s.numDynamicTablesLeft

/-- The ways in which `allocate_page_level` stops: no table is left. -/
def Exhausted (e : Stop) : Prop :=
  e = .assertion "ran out of static tables before dynamic tables could be initialized!" ∨
    e = .panic "no more page tables!"

theorem tableAt_inj {base : Word} {j j' : Nat} (hj : j < 2 ^ 52) (hj' : j' < 2 ^ 52)
    (eq : tableAt base j = tableAt base j') : j = j' := by
  have words := congrArg BitVec.toNat eq
  have := base.isLt
  simp only [tableAt, PAGE_SIZE, BitVec.toNat_add, BitVec.toNat_ofNat] at words
  omega

theorem firstTables_pred {tables : Word} {n : Nat} (pos : 0 < n) (le : n ≤ 512) :
    firstTables tables (n - 1) = firstTables tables n \ {tableAt tables (n - 1)} := by
  ext t
  rw [Set.mem_sdiff, Set.mem_singleton_iff]
  constructor
  · rintro ⟨j, hj, rfl⟩
    refine ⟨⟨j, by omega, rfl⟩, fun eq => ?_⟩
    have := tableAt_inj (by omega) (by omega) eq
    omega
  · rintro ⟨⟨j, hj, rfl⟩, ne⟩
    refine ⟨j, ?_, rfl⟩
    by_contra last
    exact ne (by rw [show j = n - 1 by omega])

theorem Symbols.static_mem (y : Symbols) {j : Nat} (hj : j < MAX_STATIC_TABLES) :
    tableAt y.staticTables j ∈ y.tables := by
  rw [Symbols.tables, List.mem_append]
  exact Or.inr (List.mem_map.mpr ⟨j, List.mem_range.mpr hj, rfl⟩)

section Allocating

variable {y : Layout} {s : State} {level : Word → Option Nat}

/-- `allocate_page_level` takes one table out of the pools. -/
theorem Wf.allocate (wf : Wf y s level) :
    (∃ e, allocatePageLevel y.toSymbols s = .error e ∧ Exhausted e ∧ s.tablesLeft = 0) ∨
      ∃ c m n, c ∈ s.pool y.toSymbols ∧
        allocatePageLevel y.toSymbols s =
          .ok (c - VMA_OFFSET, { s with numStaticTablesLeft := m, numDynamicTablesLeft := n }) ∧
        m ≤ s.numStaticTablesLeft ∧ n ≤ s.numDynamicTablesLeft ∧ m + n + 1 = s.tablesLeft ∧
        (s.dynamicTables = 0#64 → c ∈ y.tables) ∧
        State.pool { s with numStaticTablesLeft := m, numDynamicTablesLeft := n } y.toSymbols =
          s.pool y.toSymbols \ {c} := by
  have staticLe : s.numStaticTablesLeft ≤ 8 := wf.staticLe
  have dynamicLe : s.numDynamicTablesLeft ≤ 512 := wf.dynamicLe
  unfold allocatePageLevel
  split
  · next some_ =>
      have inImage : tableAt y.staticTables (s.numStaticTablesLeft - 1) ∈ y.tables :=
        y.static_mem (Nat.lt_of_lt_of_le (by omega) wf.staticLe)
      refine Or.inr ⟨tableAt y.staticTables (s.numStaticTablesLeft - 1), s.numStaticTablesLeft - 1,
        s.numDynamicTablesLeft, Or.inl ⟨_, by omega, rfl⟩, rfl, by omega, Nat.le_refl _,
        by unfold State.tablesLeft; omega, fun _ => inImage, ?_⟩
      have notDynamic : tableAt y.staticTables (s.numStaticTablesLeft - 1) ∉
          firstTables s.dynamicTables s.numDynamicTablesLeft := by
        rintro ⟨j, hj, eq⟩
        have dynamic : s.dynamicTables ≠ 0#64 := by
          intro null
          have := (wf.noDynamic null).1
          omega
        exact wf.apart dynamic j (Nat.lt_of_lt_of_le hj wf.dynamicLe) (eq ▸ inImage)
      simp only [State.pool]
      rw [firstTables_pred some_ (by omega), Set.union_sdiff_distrib,
        Set.sdiff_singleton_eq_self notDynamic]
  · next none_ =>
      by_cases dynamic : s.dynamicTables = 0#64
      · refine Or.inl ⟨_, ?_, Or.inl rfl, ?_⟩
        · rw [dynamic]
          rfl
        · have := (wf.noDynamic dynamic).1
          unfold State.tablesLeft
          omega
      · have ready : (s.dynamicTables != 0#64) = true := bne_iff_ne.mpr dynamic
        rw [ready]
        by_cases left : s.numDynamicTablesLeft > 0
        · refine Or.inr ⟨tableAt s.dynamicTables (s.numDynamicTablesLeft - 1),
            s.numStaticTablesLeft, s.numDynamicTablesLeft - 1, Or.inr ⟨_, by omega, rfl⟩, ?_,
            Nat.le_refl _, by omega, by unfold State.tablesLeft; omega,
            fun null => absurd null dynamic, ?_⟩
          · rw [if_pos left]
            rfl
          · have notStatic : tableAt s.dynamicTables (s.numDynamicTablesLeft - 1) ∉
                firstTables y.staticTables s.numStaticTablesLeft := by
              rintro ⟨j, hj, -⟩
              omega
            simp only [State.pool]
            rw [firstTables_pred left (by omega), Set.union_sdiff_distrib,
              Set.sdiff_singleton_eq_self notStatic]
        · refine Or.inl ⟨_, ?_, Or.inr rfl, by unfold State.tablesLeft; omega⟩
          rw [if_neg left]
          rfl

/-- No walk is lost and no page changes its entry from `s` to `s'`. -/
structure Grows (s s' : State) : Prop where
  base : s'.base = s.base
  walks : ∀ p n, walk s.child (3, s.base) p = some n → walk s'.child (3, s.base) p = some n
  entries : ∀ page, s'.entryOf page = s.entryOf page

theorem Grows.refl (s : State) : Grows s s := ⟨rfl, fun _ _ h => h, fun _ => rfl⟩

theorem Grows.trans {s s' s'' : State} (first : Grows s s') (second : Grows s' s'') :
    Grows s s'' := by
  refine ⟨second.base.trans first.base, fun p n h => ?_,
    fun page => (second.entries page).trans (first.entries page)⟩
  have walks := second.walks p n
  rw [first.base] at walks
  exact walks (first.walks p n h)

/-- Linking the table that `allocate_page_level` took out of a pool. -/
theorem Wf.link (wf : Wf y s level) {t c : Word} {l i m n : Nat} (used : level t = some (l + 1))
    (hi : i < 512) (empty : s.entry t i = 0#64) (new : c ∈ s.pool y.toSymbols)
    (hm : m ≤ s.numStaticTablesLeft) (hn : n ≤ s.numDynamicTablesLeft)
    (image : s.dynamicTables = 0#64 → c ∈ y.tables)
    (taken : State.pool { s with numStaticTablesLeft := m, numDynamicTablesLeft := n } y.toSymbols =
      s.pool y.toSymbols \ {c}) :
    let s' := State.store { s with numStaticTablesLeft := m, numDynamicTablesLeft := n }
      (slot t i) (tableEntry c)
    Wf y s' (Function.update level c (some l)) ∧ Grows s s' := by
  intro s'
  have linked := wf.tree.link used hi new
  constructor
  · refine ⟨⟨linked.root, linked.bound, ?_, linked.entries, linked.once, ?_, ?_⟩, wf.base,
      wf.allocator, hm.trans wf.staticLe, hn.trans wf.dynamicLe, fun null => ⟨?_, fun t' inUse => ?_⟩,
      wf.apart⟩
    · intro t' known
      rw [show s'.pool y.toSymbols = s.pool y.toSymbols \ {c} from taken] at known
      exact linked.pointers t' known
    · intro t' fresh
      rw [show s'.pool y.toSymbols = s.pool y.toSymbols \ {c} from taken] at fresh
      exact linked.unused t' fresh
    · intro t' i' fresh
      rw [show s'.pool y.toSymbols = s.pool y.toSymbols \ {c} from taken] at fresh
      exact linked.zero t' i' fresh
    · have := (wf.noDynamic null).1
      show n = 0
      omega
    · by_cases eq : t' = c
      · exact eq ▸ image null
      · rw [Function.update_of_ne eq] at inUse
        exact (wf.noDynamic null).2 t' inUse
  · refine ⟨rfl, fun p node h => ?_, fun page => wf.tree.entryOf_link used hi empty new page⟩
    rcases wf.tree.walk_link used hi empty new p with same | ⟨missing, -⟩
    · exact same.trans h
    · rw [missing] at h
      cases h

/-- The table below the entry of a cursor, linked in if it was missing. -/
theorem Wf.tableBelow (wf : Wf y s level) {it : Iterator} {page t : Word} {l : Nat}
    (cursor : Cursor it page (l + 1) t) (used : level t = some (l + 1)) :
    (∃ e, it.tableBelow y.toSymbols (s.entry t (index page (l + 1))) s = .error e ∧ Exhausted e ∧
        s.tablesLeft = 0 ∧ s.child (l + 1, t) (index page (l + 1)) = none) ∨
      ∃ c s' level', TablePtr c ∧ Wf y s' level' ∧ Grows s s' ∧ level' c = some l ∧
        (s' = s ∨ s'.tablesLeft + 1 = s.tablesLeft ∧
          s.child (l + 1, t) (index page (l + 1)) = none) ∧
        s'.child (l + 1, t) (index page (l + 1)) = some (l, c) ∧
        it.tableBelow y.toSymbols (s.entry t (index page (l + 1))) s =
          .ok (c - VMA_OFFSET, s') := by
  have ptr := wf.tree.pointer used
  have hl : l + 1 < 4 := by
    have := wf.tree.bound t _ used
    omega
  have hi := index_lt page (l + 1)
  unfold Iterator.tableBelow
  rcases wf.tree.child_eq used hi with ⟨zero, missing⟩ | ⟨c, levelC, eq, edge⟩
  · rw [zero, if_pos (by decide)]
    rcases wf.allocate with
      ⟨e, stops, why, noneLeft⟩ | ⟨c, m, n, new, result, hm, hn, left, image, taken⟩
    · refine Or.inl ⟨e, ?_, why, noneLeft, missing⟩
      rw [stops]
      rfl
    · obtain ⟨wf', grows⟩ := wf.link used hi zero new hm hn image taken
      refine Or.inr ⟨c, _, _, wf.tree.pointers c (Or.inr new), wf', grows,
        Function.update_self _ _ _, Or.inr ⟨left, missing⟩, (wf.tree.child_link used hi new).1, ?_⟩
      rw [result]
      show (it.write (tableEntry c) _ >>= fun s' => Except.ok (c - VMA_OFFSET, s')) = _
      rw [cursor.write ptr hl]
      rfl
  · have ptrC := wf.tree.pointer levelC
    have nonzero : c - VMA_OFFSET ≠ 0#64 := by
      intro zero
      have physical := ptrC.physical
      bv_omega
    refine Or.inr ⟨c, s, level, ptrC, wf, Grows.refl s, levelC, Or.inl rfl, edge, ?_⟩
    rw [eq, tableEntry_masked ptrC, if_neg nonzero]

/-- `allocate_and_descend` goes to the child of the entry, which it creates if it
is missing. -/
theorem Wf.allocateAndDescend (wf : Wf y s level) {it : Iterator} {page t : Word} {l : Nat}
    (cursor : Cursor it page (l + 1) t) (used : level t = some (l + 1)) :
    (∃ e, it.allocateAndDescend y.toSymbols s = .error e ∧ Exhausted e ∧ s.tablesLeft = 0 ∧
        s.child (l + 1, t) (index page (l + 1)) = none) ∨
      ∃ c s' level', it.allocateAndDescend y.toSymbols s = .ok (it.down c, s') ∧ Wf y s' level' ∧
        Grows s s' ∧ level' c = some l ∧
        (s' = s ∨ s'.tablesLeft + 1 = s.tablesLeft ∧
          s.child (l + 1, t) (index page (l + 1)) = none) ∧
        s'.child (l + 1, t) (index page (l + 1)) = some (l, c) := by
  have ptr := wf.tree.pointer used
  have hl : l + 1 < 4 := by
    have := wf.tree.bound t _ used
    omega
  unfold Iterator.allocateAndDescend
  rw [show decide (it.level > 1) = true by simp [Iterator.level, cursor.level], cursor.level,
    cursor.indices (l + 1) hl, show decide (index page (l + 1) < NUM_PAGE_TABLE_ENTRIES) = true from
      decide_eq_true (index_lt page (l + 1)), cursor.exists ptr, if_pos rfl, cursor.read ptr hl]
  rcases wf.tableBelow cursor used with
    ⟨e, stops, why⟩ | ⟨c, s', level', ptrC, wf', grows, levelC, left, edge, result⟩
  · refine Or.inl ⟨e, ?_, why⟩
    show (it.tableBelow y.toSymbols (s.entry t (index page (l + 1))) s >>= _) = _
    rw [stops]
    rfl
  · refine Or.inr ⟨c, s', level', ?_, wf', grows, levelC, left, edge⟩
    show (it.tableBelow y.toSymbols (s.entry t (index page (l + 1))) s >>= fun r => do
      kassert (r.1.toNat % PAGE_SIZE == 0) _
      Except.ok (it.down (r.1 + VMA_OFFSET), r.2)) = _
    rw [result]
    show (kassert ((c - VMA_OFFSET).toNat % PAGE_SIZE == 0) _ >>= fun _ =>
      Except.ok (it.down (c - VMA_OFFSET + VMA_OFFSET), s')) = _
    rw [beq_iff_eq.mpr ptrC.sub_aligned, BitVec.sub_add_cancel]
    rfl

theorem take_succ_path (page : Word) {n : Nat} (hn : n < 3) :
    (path page).take (n + 1) = (path page).take n ++ [index page (3 - n)] := by
  match n, hn with
  | 0, _ => rfl
  | 1, _ => rfl
  | 2, _ => rfl

/-- The first `n` rounds of `get` walk down `n` levels, creating the tables that
are missing. -/
theorem Wf.getLevels (wf : Wf y s level) (page : Word) {n : Nat} (hn : n ≤ 3) :
    (∃ e, Paging.getLevels y.toSymbols n (Iterator.ofAddress s.base page) s = .error e ∧
        Exhausted e) ∨
      ∃ it c s' level',
        Paging.getLevels y.toSymbols n (Iterator.ofAddress s.base page) s = .ok (it, s') ∧
        Wf y s' level' ∧ Grows s s' ∧ Cursor it page (3 - n) c ∧ level' c = some (3 - n) ∧
        walk s'.child (3, s.base) ((path page).take n) = some (3 - n, c) := by
  induction n with
  | zero =>
      exact Or.inr ⟨_, s.base, s, level, rfl, wf, Grows.refl s, Cursor.ofAddress s.base page,
        wf.tree.root, rfl⟩
  | succ n ih =>
      rw [Paging.getLevels]
      rcases ih (by omega) with
        ⟨e, stops, why⟩ | ⟨it, t, s', level', result, wf', grows, cursor, used, walked⟩
      · refine Or.inl ⟨e, ?_, why⟩
        rw [stops]
        rfl
      · rw [result]
        have below : 3 - n = 3 - (n + 1) + 1 := by omega
        rw [below] at cursor used walked
        rcases wf'.allocateAndDescend cursor used with
          ⟨e, stops, why, -⟩ | ⟨c, s'', level'', result', wf'', grows', levelC, -, edge⟩
        · exact Or.inl ⟨e, stops, why⟩
        · refine Or.inr ⟨it.down c, c, s'', level'', result', wf'', grows.trans grows',
            cursor.down c, levelC, ?_⟩
          have walks := grows'.walks
          rw [grows.base] at walks
          rw [take_succ_path page (by omega), walk_append, walks _ _ walked, Option.bind_some, walk,
            below, edge]
          rfl

end Allocating

/-! ## Mapping, unmapping and translating a page -/

theorem aligned_of_getLsbD {a : Word} (low : ∀ i, i < 12 → a.getLsbD i = false) :
    a.toNat % PAGE_SIZE = 0 := by
  show a.toNat % 2 ^ 12 = 0
  apply Nat.eq_of_testBit_eq
  intro i
  rw [Nat.testBit_mod_two_pow, Nat.zero_testBit]
  by_cases hi : i < 12
  · rw [show a.toNat.testBit i = false from low i hi, Bool.and_false]
  · rw [decide_eq_false hi, Bool.false_and]

theorem virtualPageAddress_aligned (it : Iterator) : it.virtualPageAddress.toNat % PAGE_SIZE = 0 := by
  apply aligned_of_getLsbD
  intro i hi
  have inside : 22 + i < 64 := by omega
  have low39 : i < 39 := by omega
  have low30 : i < 30 := by omega
  have low21 : i < 21 := by omega
  simp [Iterator.virtualPageAddress, BitVec.getLsbD_sshiftRight, inside, hi, low39, low30, low21]

/-- Clearing the low bits of an address inside a page gives the page. -/
theorem page_of_offset {page : Word} {offset : Nat} (aligned : page.toNat % PAGE_SIZE = 0)
    (inPage : offset < PAGE_SIZE) :
    (page + BitVec.ofNat 64 offset) &&& - BitVec.ofNat 64 PAGE_SIZE = page := by
  have bits : ∀ i : Fin 64, (- BitVec.ofNat 64 PAGE_SIZE).getLsbD i = decide (12 ≤ i.val) := by
    decide
  have shifted : (page + BitVec.ofNat 64 offset) &&& - BitVec.ofNat 64 PAGE_SIZE =
      (page + BitVec.ofNat 64 offset) >>> 12 <<< 12 := by
    apply BitVec.eq_of_getLsbD_eq
    intro i hi
    rw [BitVec.getLsbD_and, bits ⟨i, hi⟩, BitVec.getLsbD_shiftLeft, BitVec.getLsbD_ushiftRight]
    by_cases low : i < 12
    · simp [low, Nat.not_le.mpr low]
    · simp [low, hi, Nat.not_lt.mp low]
  have := page.isLt
  unfold PAGE_SIZE at aligned inPage
  rw [shifted]
  apply BitVec.eq_of_toNat_eq
  rw [BitVec.toNat_shiftLeft, BitVec.toNat_ushiftRight, Nat.shiftRight_eq_div_pow,
    Nat.shiftLeft_eq, BitVec.toNat_add, BitVec.toNat_ofNat]
  omega

section Operations

variable {y : Layout} {s : State} {level : Word → Option Nat} {page : Word}

/-- `get` returns the level 0 entry of the page. -/
theorem Wf.get (wf : Wf y s level) (page : Word) :
    (∃ e, Paging.get y.toSymbols page s = .error e ∧ Exhausted e) ∨
      ∃ it t s' level', Paging.get y.toSymbols page s = .ok (it, s') ∧ Wf y s' level' ∧
        Grows s s' ∧ Cursor it page 0 t ∧ s'.leaf page = some (0, t) := by
  unfold Paging.get
  rw [wf.allocator]
  rcases wf.getLevels page (Nat.le_refl 3) with
    ⟨e, stops, why⟩ | ⟨it, t, s', level', result, wf', grows, cursor, -, walked⟩
  · refine Or.inl ⟨e, ?_, why⟩
    show (Paging.getLevels y.toSymbols 3 (Iterator.ofAddress s.base page) s >>= _) = _
    rw [stops]
    rfl
  · refine Or.inr ⟨it, t, s', level', ?_, wf', grows, cursor, ?_⟩
    · show (Paging.getLevels y.toSymbols 3 (Iterator.ofAddress s.base page) s >>= fun r => do
        kassert (r.1.level == 1) _
        Except.ok (r.1, r.2)) = _
      rw [result]
      show (kassert (it.level0 + 1 == 1) _ >>= fun _ => Except.ok (it, s')) = _
      rw [cursor.level]
      rfl
    · rw [State.leaf, grows.base]
      exact walked

theorem Wf.setLeaf (wf : Wf y s level) {t w : Word} {i : Nat} (used : level t = some 0)
    (hi : i < 512) : Wf y (s.store (slot t i) w) level :=
  ⟨wf.tree.setLeaf used hi, wf.base, wf.allocator, wf.staticLe, wf.dynamicLe, wf.noDynamic,
    wf.apart⟩

/-- `map_page` at the entry of a page that is not present stores there. -/
theorem Wf.mapPageAt (wf : Wf y s level) {physical attrs t : Word} {it : Iterator}
    (cursor : Cursor it page 0 t) (found : s.leaf page = some (0, t))
    (aligned : physical.toNat % PAGE_SIZE = 0) :
    Paging.mapPageAt physical it attrs s =
      if s.entryOf page &&& PRESENT != 0#64 then .error (.panic
        "Tried to map already-present page!\nVirtual :%p\nPhysical:%p\nEntry   :%lx\n")
      else .ok (it.virtualPageAddress,
        s.store (slot t (index page 0)) (physical ||| attrs ||| PRESENT)) := by
  have ptr := wf.tree.pointer (wf.tree.leaf_level found).2
  have asserts : ((!it.same Iterator.atEnd && it.tableExists) = true) := by
    simp [Iterator.same, Iterator.atEnd, cursor.level, cursor.exists ptr]
  unfold Paging.mapPageAt
  dsimp only
  rw [beq_iff_eq.mpr (virtualPageAddress_aligned it), beq_iff_eq.mpr aligned,
    show (it.level == 1) = true by simp [Iterator.level, cursor.level], asserts,
    cursor.present ptr (by omega), cursor.write ptr (by omega), State.entryOf_of_leaf found]
  rfl

/-- `map_page` on a page that is not present enters it and changes the entry of no
other page. -/
theorem Wf.mapPage (wf : Wf y s level) {physical : Word} (attrs : Word) (canonical : CanonicalPage page)
    (aligned : physical.toNat % PAGE_SIZE = 0) :
    (∃ e, Paging.mapPage y.toSymbols physical page attrs s = .error e ∧ Exhausted e) ∨
      (s.entryOf page &&& PRESENT ≠ 0#64 ∧
        ∃ message, Paging.mapPage y.toSymbols physical page attrs s = .error (.panic message)) ∨
      (s.entryOf page &&& PRESENT = 0#64 ∧
        ∃ r s' level', Paging.mapPage y.toSymbols physical page attrs s = .ok (r, s') ∧
          Wf y s' level' ∧ s'.entryOf page = physical ||| attrs ||| PRESENT ∧
          (∀ page', CanonicalPage page' → page' ≠ page → s'.entryOf page' = s.entryOf page') ∧
          ∀ page' n, s.leaf page' = some n → s'.leaf page' = some n) := by
  unfold Paging.mapPage
  rw [beq_iff_eq.mpr canonical.aligned]
  rcases wf.get page with ⟨e, stops, why⟩ | ⟨it, t, s', level', result, wf', grows, cursor, found⟩
  · refine Or.inl ⟨e, ?_, why⟩
    show (Paging.get y.toSymbols page s >>= _) = _
    rw [stops]
    rfl
  · have used := (wf'.tree.leaf_level found).2
    have outcome : (Paging.get y.toSymbols page s >>= fun r =>
        Paging.mapPageAt physical r.1 attrs r.2) = Paging.mapPageAt physical it attrs s' := by
      rw [result, ok_bind]
    rw [wf'.mapPageAt cursor found aligned, grows.entries page] at outcome
    by_cases present : s.entryOf page &&& PRESENT = 0#64
    · rw [present] at outcome
      refine Or.inr (Or.inr ⟨present, it.virtualPageAddress, _, level', outcome,
        wf'.setLeaf used (index_lt page 0), ?_, ?_, ?_⟩)
      · exact (wf'.tree.entryOf_setLeaf found).1
      · intro page' canonical' ne
        exact ((wf'.tree.entryOf_setLeaf found).2 page' canonical canonical' ne).trans
          (grows.entries page')
      · intro page' n reached
        rw [wf'.tree.leaf_setLeaf used (index_lt page 0), State.leaf, grows.base]
        exact grows.walks _ _ reached
    · rw [bne_iff_ne.mpr present] at outcome
      exact Or.inr (Or.inl ⟨present, _, outcome⟩)

/-- `unmap_page` on a page that is present makes it not present. -/
theorem Wf.unmapPage (wf : Wf y s level) (canonical : CanonicalPage page) :
    (s.entryOf page &&& PRESENT = 0#64 ∧
        ∃ message, Paging.unmapPage page s = .error (.panic message)) ∨
      (s.entryOf page &&& PRESENT ≠ 0#64 ∧
        ∃ s', Paging.unmapPage page s = .ok s' ∧ Wf y s' level ∧
          s'.entryOf page = s.entryOf page &&& ~~~ PRESENT ∧
          (∀ page', CanonicalPage page' → page' ≠ page → s'.entryOf page' = s.entryOf page') ∧
          ∀ page', s'.leaf page' = s.leaf page') := by
  unfold Paging.unmapPage
  rw [beq_iff_eq.mpr canonical.aligned]
  obtain ⟨it, result, ⟨t, found, cursor⟩ | ⟨missing, rfl⟩⟩ := find_spec wf.tree page
  · have used := (wf.tree.leaf_level found).2
    have ptr := wf.tree.pointer used
    have entry := State.entryOf_of_leaf found
    have guard : (it.same Iterator.atEnd || !it.tableExists) = false := by
      simp [Iterator.same, Iterator.atEnd, cursor.level, cursor.exists ptr]
    have outcome : (find page s >>= fun entry =>
        if entry.same Iterator.atEnd || !entry.tableExists then
          .error (.panic "Tried to unmap non-present page\nVirtual:%p")
        else do
          if !(← entry.present s) then
            .error (.panic "Tried to unmap non-present page\nVirtual:%p")
          else
            entry.write ((← entry.read s) &&& ~~~ PRESENT) s) =
        if !(s.entryOf page &&& PRESENT != 0#64) then
          .error (.panic "Tried to unmap non-present page\nVirtual:%p")
        else .ok (s.store (slot t (index page 0)) (s.entryOf page &&& ~~~ PRESENT)) := by
      rw [result]
      show (if it.same Iterator.atEnd || !it.tableExists then _ else _) = _
      rw [guard, cursor.present ptr (by omega), cursor.read ptr (by omega), ← entry]
      show (if !(s.entryOf page &&& PRESENT != 0#64) then _ else
        it.write (s.entryOf page &&& ~~~ PRESENT) s) = _
      rw [cursor.write ptr (by omega)]
    by_cases present : s.entryOf page &&& PRESENT = 0#64
    · rw [present] at outcome
      exact Or.inl ⟨present, _, outcome⟩
    · rw [bne_iff_ne.mpr present] at outcome
      refine Or.inr ⟨present, _, outcome, wf.setLeaf used (index_lt page 0),
        (wf.tree.entryOf_setLeaf found).1, ?_, ?_⟩
      · intro page' canonical' ne
        exact (wf.tree.entryOf_setLeaf found).2 page' canonical canonical' ne
      · exact wf.tree.leaf_setLeaf used (index_lt page 0)
  · refine Or.inl ⟨?_, "Tried to unmap non-present page\nVirtual:%p", ?_⟩
    · rw [State.entryOf_of_missing missing]
      rfl
    · show (find page s >>= _) = _
      rw [result]
      rfl

/-- An address is translated by the entry of its page. -/
theorem Tree.getPhysicalAddress_toOption {fresh : Set Word} (tree : Tree s level fresh) (w : Word) :
    (Paging.getPhysicalAddress w s).toOption =
      if s.entryOf (w &&& - BitVec.ofNat 64 PAGE_SIZE) &&& PRESENT = 0#64 then none
      else some ((s.entryOf (w &&& - BitVec.ofNat 64 PAGE_SIZE) &&& ADDRESS_MASK) +
        (w - (w &&& - BitVec.ofNat 64 PAGE_SIZE))) := by
  unfold Paging.getPhysicalAddress
  dsimp only
  generalize w &&& - BitVec.ofNat 64 PAGE_SIZE = page
  obtain ⟨it, result, ⟨t, found, cursor⟩ | ⟨missing, rfl⟩⟩ := find_spec tree page
  · have ptr := tree.pointer (tree.leaf_level found).2
    have notEnd : (!it.same Iterator.atEnd) = true := by
      simp [Iterator.same, Iterator.atEnd, cursor.level]
    have address : it.physicalPageAddress s = .ok (s.entryOf page &&& ADDRESS_MASK) := by
      unfold Iterator.physicalPageAddress
      rw [show (it.level == 1) = true by simp [Iterator.level, cursor.level],
        cursor.read ptr (by omega), State.entryOf_of_leaf found]
      rfl
    rw [result, ok_bind, notEnd, cursor.present ptr (by omega), ← State.entryOf_of_leaf found, address]
    by_cases absent : s.entryOf page &&& PRESENT = 0#64
    · rw [if_pos absent, absent]
      rfl
    · rw [if_neg absent, bne_iff_ne.mpr absent]
      rfl
  · rw [result, State.entryOf_of_missing missing, if_pos (by decide)]
    rfl

/-- The offset in a page is carried over to the physical page. -/
theorem Tree.getPhysicalAddress {fresh : Set Word} (tree : Tree s level fresh)
    (canonical : CanonicalPage page) (present : s.entryOf page &&& PRESENT ≠ 0#64) {offset : Nat}
    (inPage : offset < PAGE_SIZE) :
    Paging.getPhysicalAddress (page + BitVec.ofNat 64 offset) s =
      .ok ((s.entryOf page &&& ADDRESS_MASK) + BitVec.ofNat 64 offset) := by
  have pageAddr := page_of_offset canonical.aligned inPage
  have offsetInPage : page + BitVec.ofNat 64 offset - page = BitVec.ofNat 64 offset := by
    rw [BitVec.add_comm, BitVec.add_sub_cancel]
  have translated := tree.getPhysicalAddress_toOption (page + BitVec.ofNat 64 offset)
  rw [pageAddr, offsetInPage, if_neg present] at translated
  cases result : Paging.getPhysicalAddress (page + BitVec.ofNat 64 offset) s with
  | error e =>
      rw [result] at translated
      cases translated
  | ok w =>
      rw [result] at translated
      rw [Option.some.inj translated]

/-- The entry `find` leads to, `none` for `end()`. -/
def pageEntry (page : Word) (s : State) : Except Stop (Option Word) := do
  let it ← find page s
  if it.same Iterator.atEnd then return none else return some (← it.read s)

/-- `find` leads to a present entry. -/
def pagePresent (page : Word) (s : State) : Bool :=
  match pageEntry page s with
  | .ok (some entry) => entry &&& PRESENT != 0#64
  | _ => false

theorem Tree.pageEntry {fresh : Set Word} (tree : Tree s level fresh) (page : Word) :
    Paging.pageEntry page s = .ok ((s.leaf page).map fun _ => s.entryOf page) := by
  unfold Paging.pageEntry
  obtain ⟨it, result, ⟨t, found, cursor⟩ | ⟨missing, rfl⟩⟩ := find_spec tree page
  · have ptr := tree.pointer (tree.leaf_level found).2
    have notEnd : it.same Iterator.atEnd = false := by
      simp [Iterator.same, Iterator.atEnd, cursor.level]
    rw [result, ok_bind, notEnd, cursor.read ptr (by omega), found,
      State.entryOf_of_leaf found]
    rfl
  · rw [result, missing]
    rfl

theorem Tree.pagePresent {fresh : Set Word} (tree : Tree s level fresh) (page : Word) :
    Paging.pagePresent page s = (s.entryOf page &&& PRESENT != 0#64) := by
  unfold Paging.pagePresent
  rw [tree.pageEntry page]
  cases reached : s.leaf page with
  | none =>
      rw [State.entryOf_of_missing reached]
      rfl
  | some n => rfl

end Operations

end Tyleros.Paging
