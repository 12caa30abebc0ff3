import Tyleros.Paging.Supply

/-!
# A range, page by page

`map_range` keeps one iterator for all of its pages, `map_page` starts at the root. Both
go to a page by `reach`, which adds the tables that are missing on the way:
`Wf.mapPagesFrom_eq` says that the loop of `map_range` does what `map_page` does for each
page in order, and then reaches the page behind the last one.
-/

namespace Tyleros.Paging

open Tyleros.Lib

/-- `map_page` for `count` pages in order. -/
def mapPages (y : Symbols) (attrs : Word) : Nat → Word → Word → State → Except Stop State
  | 0, _, _, s => .ok s
  | count + 1, p, v, s => do
    let (_, s) ← mapPage y p v attrs s
    mapPages y attrs count (p + BitVec.ofNat 64 PAGE_SIZE) (v + BitVec.ofNat 64 PAGE_SIZE) s

/-- The physical address that entry `i` of a table refers to, of a new table if the entry
is zero. -/
def entryAddress (y : Symbols) (t : Word) (i : Nat) (s : State) : Except Stop (Word × State) :=
  let addr := s.entry t i &&& ~~~ PREFIX_MASK
  if addr = 0#64 then do
    let (addr, s) ← allocatePageLevel y s
    return (addr, s.store (slot t i) (addr ||| RW ||| PRESENT))
  else .ok (addr, s)

/-- The table below entry `i` of a table. -/
def belowEntry (y : Symbols) (t : Word) (i : Nat) (s : State) : Except Stop (Word × State) := do
  let (addr, s) ← entryAddress y t i s
  kassert (addr.toNat % PAGE_SIZE == 0) "address isn't page-aligned?"
  return (addr + VMA_OFFSET, s)

/-- Add the tables that are missing below a table of level `l` on the way to a page. -/
def reachFrom (y : Symbols) (page : Word) : Nat → Word → State → Except Stop State
  | 0, _, s => .ok s
  | l + 1, t, s => do
    let (c, s) ← belowEntry y t (index page (l + 1)) s
    reachFrom y page l c s

/-- Add the tables that are missing on the way to a page. -/
def reach (y : Symbols) (page : Word) (s : State) : Except Stop State := reachFrom y page 3 s.base s

section Reaching

variable {y : Layout} {s s' : State} {level : Word → Option Nat} {it it' : Iterator}
  {page t : Word} {l : Nat}

/-! ## One level down -/

/-- The table below an entry is there, or one is taken out of a pool, whose only walk is
the one through the entry. -/
theorem Wf.belowEntry (wf : Wf y s level) {i : Nat} (used : level t = some (l + 1)) (hi : i < 512) :
    (∃ e, Paging.belowEntry y.toSymbols t i s = .error e ∧ Exhausted e ∧ s.tablesLeft = 0 ∧
        s.child (l + 1, t) i = none) ∨
      (∃ c, Paging.belowEntry y.toSymbols t i s = .ok (c, s) ∧ level c = some l ∧
        s.child (l + 1, t) i = some (l, c)) ∨
      ∃ c s' level', Paging.belowEntry y.toSymbols t i s = .ok (c, s') ∧ Wf y s' level' ∧
        Grows s s' ∧ level' c = some l ∧ s'.tablesLeft + 1 = s.tablesLeft ∧
        s.child (l + 1, t) i = none ∧ s'.child (l + 1, t) i = some (l, c) ∧
        ∀ q, walk s'.child (3, s.base) q = walk s.child (3, s.base) q ∨
          (walk s.child (3, s.base) q = none ∧ walk s'.child (3, s.base) q = some (l, c)) := by
  have found : ∀ c s', TablePtr c → entryAddress y.toSymbols t i s = .ok (c - VMA_OFFSET, s') →
      Paging.belowEntry y.toSymbols t i s = .ok (c, s') := by
    intro c s' ptrC result
    unfold Paging.belowEntry
    rw [result, ok_bind]
    dsimp only
    rw [beq_iff_eq.mpr ptrC.sub_aligned, BitVec.sub_add_cancel]
    rfl
  rcases wf.tree.child_eq used hi with ⟨zero, missing⟩ | ⟨c, levelC, eq, edge⟩
  · have empty : s.entry t i &&& ~~~ PREFIX_MASK = 0#64 := by
      rw [zero]
      decide
    rcases wf.allocate with
      ⟨e, stops, why, noneLeft⟩ | ⟨c, m, n, new, result, hm, hn, left, image, taken⟩
    · refine Or.inl ⟨e, ?_, why, noneLeft, missing⟩
      unfold Paging.belowEntry entryAddress
      dsimp only
      rw [if_pos empty, stops]
      rfl
    · obtain ⟨wf', grows⟩ := wf.link used hi zero new hm hn image taken
      refine Or.inr (Or.inr ⟨c, _, _, found c _ (wf.tree.pointers c (Or.inr new)) ?_, wf', grows,
        Function.update_self _ _ _, left, missing, (wf.tree.child_link used hi new).1,
        fun q => wf.tree.walk_link used hi zero new q⟩)
      unfold entryAddress
      dsimp only
      rw [if_pos empty, result]
      rfl
  · have ptrC := wf.tree.pointer levelC
    have nonzero : c - VMA_OFFSET ≠ 0#64 := by
      intro zero
      have physical := ptrC.physical
      bv_omega
    refine Or.inr (Or.inl ⟨c, found c s ptrC ?_, levelC, edge⟩)
    unfold entryAddress
    dsimp only
    rw [eq, tableEntry_masked ptrC, if_neg nonzero]

/-- `allocate_and_descend` goes to the table below the entry. -/
theorem Cursor.allocateAndDescend_eq (cursor : Cursor it page (l + 1) t) (ptr : TablePtr t)
    (hl : l + 1 < 4) (y : Symbols) (s : State) :
    it.allocateAndDescend y s =
      (Paging.belowEntry y t (index page (l + 1)) s).map fun r => (it.down r.1, r.2) := by
  have below : it.tableBelow y (s.entry t (index page (l + 1))) s =
      entryAddress y t (index page (l + 1)) s := by
    unfold Iterator.tableBelow entryAddress
    dsimp only
    split
    · cases allocatePageLevel y s with
      | error e => rfl
      | ok r =>
          rw [ok_bind, ok_bind, cursor.write ptr hl]
          rfl
    · rfl
  unfold Iterator.allocateAndDescend Paging.belowEntry
  rw [show decide (it.level > 1) = true by simp [Iterator.level, cursor.level], cursor.level,
    cursor.indices (l + 1) hl, show decide (index page (l + 1) < NUM_PAGE_TABLE_ENTRIES) = true from
      decide_eq_true (index_lt page (l + 1)), cursor.exists ptr, if_pos rfl, cursor.read ptr hl,
    kassert_true, ok_bind, kassert_true, ok_bind, ok_bind]
  dsimp only
  rw [below]
  cases entryAddress y t (index page (l + 1)) s with
  | error e => rfl
  | ok r =>
      rw [ok_bind, ok_bind]
      cases kassert (r.1.toNat % PAGE_SIZE == 0) "address isn't page-aligned?" with
      | error e => rfl
      | ok u => rfl

/-! ## Down to the page -/

/-- `while (it.level() != 1) it.allocate_and_descend(allocate);` reaches the page. -/
theorem Cursor.descendToPage_eq (cursor : Cursor it page l t) (wf : Wf y s level)
    (used : level t = some l) {fuel : Nat} (hl : l ≤ fuel) :
    (it.descendToPage y.toSymbols fuel s).map Prod.snd = Paging.reachFrom y.toSymbols page l t s := by
  induction l generalizing it t s level fuel with
  | zero =>
      have bottom : it.level = 1 := by rw [Iterator.level, cursor.level]
      cases fuel with
      | zero => rfl
      | succ fuel =>
          rw [Iterator.descendToPage, if_neg (by simp [bottom])]
          rfl
  | succ l ih =>
      obtain ⟨fuel, rfl⟩ : ∃ k, fuel = k + 1 := ⟨fuel - 1, by omega⟩
      have bound := wf.tree.bound t _ used
      have above : it.level ≠ 1 := by
        rw [Iterator.level, cursor.level]
        omega
      rw [Iterator.descendToPage, if_pos above,
        cursor.allocateAndDescend_eq (wf.tree.pointer used) (by omega), Paging.reachFrom]
      rcases wf.belowEntry used (index_lt page (l + 1)) with
        ⟨e, stops, -⟩ | ⟨c, there, levelC, -⟩ | ⟨c, s', level', new, wf', -, levelC, -⟩
      · rw [stops]
        rfl
      · rw [there]
        exact ih (cursor.down c) wf levelC (by omega)
      · rw [new]
        exact ih (cursor.down c) wf' levelC (by omega)

/-- A round of `allocate_and_descend` goes down one level. -/
theorem Iterator.allocateAndDescend_level {y : Symbols}
    (done : it.allocateAndDescend y s = .ok (it', s')) : it'.level0 = it.level0 - 1 := by
  obtain ⟨entry, addr, -, rfl⟩ := Iterator.allocateAndDescend_inv done
  rfl

/-- `get` descends to the page from the root. -/
theorem get_eq_descendToPage (allocator : s.hasAllocator = true) (y : Symbols) (page : Word) :
    get y page s = (Iterator.ofAddress s.base page).descendToPage y 3 s := by
  have top : (Iterator.ofAddress s.base page).level0 = 3 := rfl
  unfold get
  rw [allocator, kassert_true, ok_bind, getLevels, getLevels, getLevels, getLevels, ok_bind,
    Iterator.descendToPage, if_pos (by rw [Iterator.level, top]; decide)]
  dsimp only
  cases first : (Iterator.ofAddress s.base page).allocateAndDescend y s with
  | error e => rfl
  | ok r =>
      obtain ⟨it₁, s₁⟩ := r
      have level₁ := Iterator.allocateAndDescend_level first
      rw [ok_bind, ok_bind]
      dsimp only
      rw [Iterator.descendToPage,
        if_pos (by rw [Iterator.level, level₁, top]; decide)]
      cases second : it₁.allocateAndDescend y s₁ with
      | error e => rfl
      | ok r =>
          obtain ⟨it₂, s₂⟩ := r
          have level₂ := Iterator.allocateAndDescend_level second
          rw [ok_bind, ok_bind]
          dsimp only
          rw [Iterator.descendToPage,
            if_pos (by rw [Iterator.level, level₂, level₁, top]; decide)]
          cases third : it₂.allocateAndDescend y s₂ with
          | error e => rfl
          | ok r =>
              obtain ⟨it₃, s₃⟩ := r
              have level₃ := Iterator.allocateAndDescend_level third
              have bottom : (it₃.level == 1) = true := by
                rw [Iterator.level, level₃, level₂, level₁, top]
                rfl
              rw [ok_bind, ok_bind]
              dsimp only
              rw [bottom]
              rfl

/-- `get` reaches its page. -/
theorem Wf.get_reach (wf : Wf y s level) (page : Word) :
    (Paging.get y.toSymbols page s).map Prod.snd = reach y.toSymbols page s := by
  rw [get_eq_descendToPage wf.allocator]
  exact (Cursor.ofAddress s.base page).descendToPage_eq wf wf.tree.root (Nat.le_refl 3)

/-- A walk that is there is not changed. -/
theorem Wf.reachFrom_there (wf : Wf y s level) (used : level t = some l)
    (there : walk s.child (l, t) (pathFrom page l) ≠ none) :
    Paging.reachFrom y.toSymbols page l t s = .ok s := by
  induction l generalizing t with
  | zero => rfl
  | succ l ih =>
      rw [Paging.reachFrom]
      rcases wf.belowEntry used (index_lt page (l + 1)) with
        ⟨e, -, -, -, missing⟩ | ⟨c, below, levelC, edge⟩ | ⟨c, s', level', -, -, -, -, -, missing, -⟩
      · rw [pathFrom, walk, missing] at there
        exact absurd rfl there
      · rw [pathFrom, walk, edge] at there
        rw [below]
        exact ih levelC there
      · rw [pathFrom, walk, missing] at there
        exact absurd rfl there

theorem Wf.reach_there (wf : Wf y s level) (there : s.leaf page ≠ none) :
    reach y.toSymbols page s = .ok s :=
  wf.reachFrom_there wf.tree.root there

/-- From a table on the way to a page it is reached as from the root. -/
theorem Route.reach_eq (route : Route s it page l) (wf : Wf y s level) (hl : l ≤ 3) :
    reach y.toSymbols page s = Paging.reachFrom y.toSymbols page l (it.tables l) s := by
  have up : ∀ d, l + d ≤ 3 → Paging.reachFrom y.toSymbols page (l + d) (it.tables (l + d)) s =
      Paging.reachFrom y.toSymbols page l (it.tables l) s := by
    intro d
    induction d with
    | zero => exact fun _ => rfl
    | succ d ih =>
        intro hd
        have upper := route.tables (l + d + 1) (by omega) hd
        have lower := route.tables (l + d) (by omega) (by omega)
        have step : 3 - (l + d) = 3 - (l + d + 1) + 1 := by omega
        have last : 3 - (3 - (l + d + 1)) = l + d + 1 := by omega
        rw [step, take_succ_path page (by omega), last, walk_append, upper, Option.bind_some, walk] at lower
        obtain ⟨c', edge, same⟩ := Option.bind_eq_some_iff.mp lower
        cases same
        have used := wf.tree.walk_level upper
        rw [← Nat.add_assoc, Paging.reachFrom]
        rcases wf.belowEntry used (index_lt page (l + d + 1)) with
          ⟨e, -, -, -, missing⟩ | ⟨c, below, levelC, edge'⟩ | ⟨c, s', level', -, -, -, -, -, missing, -⟩
        · rw [missing] at edge
          cases edge
        · rw [edge'] at edge
          cases edge
          rw [below]
          exact ih (by omega)
        · rw [missing] at edge
          cases edge
  have root : it.tables 3 = s.base := by
    have top := route.tables 3 hl (Nat.le_refl 3)
    exact (Prod.mk.inj (Option.some.inj top)).2.symm
  have whole := up (3 - l) (by omega)
  rw [Nat.add_sub_cancel' hl, root] at whole
  exact whole

/-- Reaching a page adds tables and nothing else. -/
theorem Wf.reach (wf : Wf y s level) (page : Word) :
    (∃ e, Paging.reach y.toSymbols page s = .error e ∧ Exhausted e) ∨
      ∃ s' level', Paging.reach y.toSymbols page s = .ok s' ∧ Wf y s' level' ∧ Grows s s' ∧
        s'.leaf page ≠ none := by
  have same := wf.get_reach page
  rcases wf.get page with ⟨e, stops, why⟩ | ⟨it, t, s', level', result, wf', grows, -, found⟩
  · rw [stops] at same
    exact Or.inl ⟨e, same.symm, why⟩
  · rw [result] at same
    refine Or.inr ⟨s', level', same.symm, wf', grows, ?_⟩
    rw [found]
    exact Option.some_ne_none _

/-! ## One page -/

theorem Wf.get_there (wf : Wf y s level) (found : s.leaf page = some (0, t)) :
    ∃ it, Paging.get y.toSymbols page s = .ok (it, s) ∧ Cursor it page 0 t := by
  have there : s.leaf page ≠ none := by
    rw [found]
    exact Option.some_ne_none _
  have same := wf.get_reach page
  rw [wf.reach_there there] at same
  rcases wf.get page with ⟨e, stops, -⟩ | ⟨it, t', s', -, result, -, -, cursor, found'⟩
  · rw [stops] at same
    cases same
  · rw [result] at same
    obtain rfl : s' = s := Except.ok.inj same
    obtain rfl : t' = t := (Prod.mk.inj (Option.some.inj (found'.symm.trans found))).2
    exact ⟨it, result, cursor⟩

/-- `map_page` on a page whose tables are there stores its entry. -/
theorem Wf.mapPage_there (wf : Wf y s level) (found : s.leaf page = some (0, t)) {physical : Word}
    (attrs : Word) (aligned : page.toNat % PAGE_SIZE = 0) (aligned' : physical.toNat % PAGE_SIZE = 0) :
    (Paging.mapPage y.toSymbols physical page attrs s).map Prod.snd =
      if s.entryOf page &&& PRESENT != 0#64 then .error (.panic
        "Tried to map already-present page!\nVirtual :%p\nPhysical:%p\nEntry   :%lx\n")
      else .ok (s.store (slot t (index page 0)) (physical ||| attrs ||| PRESENT)) := by
  obtain ⟨it, result, cursor⟩ := wf.get_there found
  unfold Paging.mapPage
  rw [beq_iff_eq.mpr aligned, kassert_true, ok_bind, result, ok_bind]
  dsimp only
  rw [wf.mapPageAt cursor found aligned']
  split
  · rfl
  · rfl

/-- `map_page` first reaches its page. -/
theorem Wf.mapPage_reach (wf : Wf y s level) {physical : Word} (attrs : Word)
    (aligned : page.toNat % PAGE_SIZE = 0) (aligned' : physical.toNat % PAGE_SIZE = 0) :
    (Paging.mapPage y.toSymbols physical page attrs s).map Prod.snd =
      (Paging.reach y.toSymbols page s >>= fun s' =>
        (Paging.mapPage y.toSymbols physical page attrs s').map Prod.snd) := by
  have same := wf.get_reach page
  rcases wf.get page with ⟨e, stops, -⟩ | ⟨it, t, s', level', result, wf', -, cursor, found⟩
  · rw [stops] at same
    unfold Paging.mapPage
    rw [beq_iff_eq.mpr aligned, kassert_true, ok_bind, stops, ← same]
    rfl
  · rw [result] at same
    rw [← same]
    show _ = (Paging.mapPage y.toSymbols physical page attrs s').map Prod.snd
    rw [wf'.mapPage_there found attrs aligned aligned']
    unfold Paging.mapPage
    rw [beq_iff_eq.mpr aligned, kassert_true, ok_bind, result, ok_bind]
    dsimp only
    rw [wf'.mapPageAt cursor found aligned']
    split
    · rfl
    · rfl

/-! ## The pages of a range -/

theorem mapPages_succ (y : Symbols) (attrs : Word) (count : Nat) (p v : Word) (s : State) :
    mapPages y attrs (count + 1) p v s = ((mapPage y p v attrs s).map Prod.snd >>=
      mapPages y attrs count (p + BitVec.ofNat 64 PAGE_SIZE) (v + BitVec.ofNat 64 PAGE_SIZE)) := by
  rw [mapPages]
  cases mapPage y p v attrs s with
  | error e => rfl
  | ok r => rfl

/-- Mapping pages and reaching the one behind them first reaches the first page. -/
theorem Wf.mapPages_reach (wf : Wf y s level) (attrs : Word) {p v : Word}
    (alignedP : p.toNat % PAGE_SIZE = 0) (alignedV : v.toNat % PAGE_SIZE = 0) (count : Nat) :
    (mapPages y.toSymbols attrs count p v s >>= Paging.reach y.toSymbols (pageAt v count)) =
      (Paging.reach y.toSymbols v s >>= fun s' =>
        mapPages y.toSymbols attrs count p v s' >>= Paging.reach y.toSymbols (pageAt v count)) := by
  cases count with
  | zero =>
      rw [pageAt_zero]
      show Paging.reach y.toSymbols v s =
        (Paging.reach y.toSymbols v s >>= Paging.reach y.toSymbols v)
      rcases wf.reach v with ⟨e, stops, -⟩ | ⟨s', level', result, wf', -, there⟩
      · rw [stops]
        rfl
      · rw [result, ok_bind, wf'.reach_there there]
  | succ count =>
      rw [mapPages_succ, wf.mapPage_reach attrs alignedV alignedP]
      cases Paging.reach y.toSymbols v s with
      | error e => rfl
      | ok s' =>
          rw [ok_bind, ok_bind, mapPages_succ]

/-- The next entry exists unless all tables above are full. -/
theorem Iterator.toNextEntry_ok (fuel : Nat) (enough : 4 ≤ l + fuel) (atLevel : it.level0 = l)
    (above : ∀ j, l ≤ j → j < 4 → it.indices j = index page j)
    (room : ∃ l', l ≤ l' ∧ l' ≤ 3 ∧ index page l' < 511) : ∃ it', it.toNextEntry fuel = .ok it' := by
  obtain ⟨l', ge, le, room⟩ := room
  induction fuel generalizing it l with
  | zero => omega
  | succ fuel ih =>
      have here : it.indices it.level0 = index page l := by
        rw [atLevel, above l (Nat.le_refl l) (by omega)]
      by_cases notFull : index page l < 511
      · exact ⟨_, Iterator.toNextEntry_same fuel (by omega)⟩
      · have bound := index_lt page l
        have below : l ≠ l' := by
          rintro rfl
          exact notFull room
        rw [Iterator.toNextEntry_up fuel (by omega) (by omega)]
        refine ih (l := l + 1) (by omega) (by dsimp only; rw [atLevel]) (fun j hj hj' => ?_) (by omega)
        dsimp only
        rw [Function.update_of_ne (by omega)]
        exact above j (by omega) hj'

/-- All tables are full only at the last page. -/
theorem exists_room (extended : SignExtended page) (below : page.toNat + PAGE_SIZE < 2 ^ 64) :
    ∃ l, 0 ≤ l ∧ l ≤ 3 ∧ index page l < 511 := by
  by_contra none_
  have full : ∀ l, l ≤ 3 → index page l = 511 := by
    intro l hl
    have bound := index_lt page l
    by_contra notFull
    exact none_ ⟨l, Nat.zero_le l, hl, by omega⟩
  have full0 := full 0 (by decide)
  have full1 := full 1 (by decide)
  have full2 := full 2 (by decide)
  have full3 := full 3 (by decide)
  rw [index_eq] at full0 full1 full2 full3
  unfold SignExtended at extended
  unfold PAGE_SIZE at below
  omega

theorem next_below {v : Word} {count : Nat} (below : v.toNat + PAGE_SIZE * (count + 1) < 2 ^ 64) :
    v.toNat + PAGE_SIZE < 2 ^ 64 ∧
      (v + BitVec.ofNat 64 PAGE_SIZE).toNat + PAGE_SIZE * count < 2 ^ 64 := by
  rw [BitVec.toNat_add, BitVec.toNat_ofNat]
  unfold PAGE_SIZE at *
  omega

/-- The loop of `map_range` is `map_page` on each page in order, and then `get` on the page
behind the last one. -/
theorem Wf.mapPagesFrom_eq (wf : Wf y s level) (attrs : Word) {p v : Word} {count : Nat}
    (route : Route s it v 0) (alignedP : p.toNat % PAGE_SIZE = 0) (alignedV : v.toNat % PAGE_SIZE = 0)
    (extended : ∀ j, j < count → SignExtended (pageAt v j))
    (below : v.toNat + PAGE_SIZE * count < 2 ^ 64) :
    Paging.mapPagesFrom y.toSymbols attrs count p v it s =
      (mapPages y.toSymbols attrs count p v s >>= Paging.reach y.toSymbols (pageAt v count)) := by
  induction count generalizing p v it s level with
  | zero =>
      have there : s.leaf v ≠ none := by
        rw [route.leaf]
        exact Option.some_ne_none _
      show Except.ok s = Paging.reach y.toSymbols (pageAt v 0) s
      rw [pageAt_zero, wf.reach_there there]
  | succ count ih =>
      have extended0 := extended 0 (Nat.succ_pos count)
      rw [pageAt_zero] at extended0
      obtain ⟨notLast, below'⟩ := next_below below
      have synced := virtualPageAddress_eq alignedV extended0 route.indices
      have used := (wf.tree.leaf_level route.leaf).2
      rw [Paging.mapPagesFrom, beq_iff_eq.mpr synced, kassert_true, ok_bind,
        wf.mapPageAt route.cursor route.leaf alignedP, mapPages_succ,
        wf.mapPage_there route.leaf attrs alignedV alignedP]
      by_cases present : (s.entryOf v &&& PRESENT != 0#64) = true
      · rw [if_pos present, if_pos present]
        rfl
      · rw [if_neg present, if_neg present, ok_bind, ok_bind]
        dsimp only
        have wf₁ := wf.setLeaf (w := p ||| attrs ||| PRESENT) used (index_lt v 0)
        have route₁ : Route (s.store (slot (it.tables 0) (index v 0)) (p ||| attrs ||| PRESENT)) it v 0 :=
          route.mono rfl fun path n walked => by
            rw [wf.tree.walk_setLeaf used (index_lt v 0)]
            exact walked
        generalize s.store (slot (it.tables 0) (index v 0)) (p ||| attrs ||| PRESENT) = s₁ at *
        -- the next page
        have room := exists_room extended0 notLast
        obtain ⟨it₁, advanced⟩ := Iterator.toNextEntry_ok (l := 0) 4 (by omega) route₁.level
          (fun j _ hj => route₁.indices j hj) room
        obtain ⟨l, hl, -, route₂⟩ := route₁.next advanced
        have alignedP' := add_aligned alignedP (b := BitVec.ofNat 64 PAGE_SIZE) (by decide)
        have alignedV' := add_aligned alignedV (b := BitVec.ofNat 64 PAGE_SIZE) (by decide)
        have reached := route₂.cursor.descendToPage_eq wf₁ (route₂.used wf₁.tree hl) hl
        rw [← route₂.reach_eq wf₁ hl] at reached
        rw [advanced, ok_bind, ← pageAt_succ, wf₁.mapPages_reach attrs alignedP' alignedV', ← reached]
        cases descended : it₁.descendToPage y.toSymbols 3 s₁ with
        | error e => rfl
        | ok r =>
            obtain ⟨it₂, s₂⟩ := r
            obtain ⟨level₂, wf₂, -, route₃⟩ := wf₁.descendToPage route₂ hl hl descended
            refine ih wf₂ route₃ alignedP' alignedV' (fun j hj => ?_) below'
            rw [pageAt_succ]
            exact extended (j + 1) (Nat.succ_lt_succ hj)

/-- `map_range` is `map_page` on each page in order, and then `get` on the page behind the
last one. -/
theorem Wf.mapRange_eq (wf : Wf y s level) (attrs : Word) {p v : Word} {n : Nat}
    (alignedP : p.toNat % PAGE_SIZE = 0) (alignedV : v.toNat % PAGE_SIZE = 0)
    (fits : p.toNat + PAGE_SIZE * n < 2 ^ 64) (extended : ∀ j, j < n → SignExtended (pageAt v j))
    (below : v.toNat + PAGE_SIZE * n < 2 ^ 64) :
    Paging.mapRange y.toSymbols p (pageAt p n) v (pageAt v n) attrs s =
      (mapPages y.toSymbols attrs n p v s >>= Paging.reach y.toSymbols (pageAt v n)).map
        fun s' => (v, s') := by
  have sizes : pageAt p n - p = pageAt v n - v := by
    unfold pageAt
    rw [BitVec.add_comm p, BitVec.add_comm v, BitVec.add_sub_cancel, BitVec.add_sub_cancel]
  have count : ((pageAt p n).toNat - p.toNat) / PAGE_SIZE = n := by
    rw [pageAt, BitVec.toNat_add, BitVec.toNat_ofNat]
    unfold PAGE_SIZE at fits ⊢
    omega
  have same := wf.get_reach v
  unfold Paging.mapRange
  rw [beq_iff_eq.mpr alignedV, beq_iff_eq.mpr (pageAt_aligned alignedV n), Bool.and_true, kassert_true,
    ok_bind, beq_iff_eq.mpr alignedP, beq_iff_eq.mpr (pageAt_aligned alignedP n), Bool.and_true,
    kassert_true, ok_bind, beq_iff_eq.mpr sizes, kassert_true, ok_bind, count,
    wf.mapPages_reach attrs alignedP alignedV]
  cases got : Paging.get y.toSymbols v s with
  | error e =>
      rw [got] at same
      rw [← same]
      rfl
  | ok r =>
      obtain ⟨it, s₁⟩ := r
      rw [got] at same
      obtain ⟨level₁, wf₁, -, route⟩ := wf.get_route v got
      rw [ok_bind, ← same]
      dsimp only
      rw [wf₁.mapPagesFrom_eq attrs route alignedP alignedV extended below]
      show _ = (mapPages y.toSymbols attrs n p v s₁ >>= Paging.reach y.toSymbols (pageAt v n)).map _
      cases (mapPages y.toSymbols attrs n p v s₁ >>= Paging.reach y.toSymbols (pageAt v n)) with
      | error e => rfl
      | ok s₂ => rfl

/-! ## Pages that are not present -/

/-- `n` pages from `v` on that are not present, and physical pages for them from `p` on. -/
structure Unmapped (s : State) (p v : Word) (n : Nat) : Prop where
  alignedP : p.toNat % PAGE_SIZE = 0
  alignedV : v.toNat % PAGE_SIZE = 0
  small : n ≤ 2 ^ 52
  extended : ∀ j, j < n → SignExtended (pageAt v j)
  absent : ∀ j, j < n → s.entryOf (pageAt v j) &&& PRESENT = 0#64

section Absent

variable {attrs p v : Word} {n : Nat}

theorem Unmapped.of_pagePresent (wf : Wf y s level) (alignedP : p.toNat % PAGE_SIZE = 0)
    (alignedV : v.toNat % PAGE_SIZE = 0) (small : n ≤ 2 ^ 52)
    (extended : ∀ j, j < n → SignExtended (pageAt v j))
    (absent : ∀ j, j < n → pagePresent (pageAt v j) s = false) : Unmapped s p v n := by
  refine ⟨alignedP, alignedV, small, extended, fun j hj => ?_⟩
  have notPresent := absent j hj
  rw [wf.tree.pagePresent] at notPresent
  simpa using notPresent

theorem Unmapped.first (unmapped : Unmapped s p v (n + 1)) :
    CanonicalPage v ∧ s.entryOf v &&& PRESENT = 0#64 := by
  have extended := unmapped.extended 0 (Nat.succ_pos n)
  have absent := unmapped.absent 0 (Nat.succ_pos n)
  rw [pageAt_zero] at extended absent
  exact ⟨extended.canonical unmapped.alignedV, absent⟩

/-- The other pages are left when only the first one was changed. -/
theorem Unmapped.rest (unmapped : Unmapped s p v (n + 1))
    (others : ∀ page, CanonicalPage page → page ≠ v → s'.entryOf page = s.entryOf page) :
    Unmapped s' (p + BitVec.ofNat 64 PAGE_SIZE) (v + BitVec.ofNat 64 PAGE_SIZE) n := by
  have extended : ∀ j, j < n → SignExtended (pageAt v (j + 1)) :=
    fun j hj => unmapped.extended (j + 1) (Nat.succ_lt_succ hj)
  have small := unmapped.small
  refine ⟨add_aligned unmapped.alignedP (by decide), add_aligned unmapped.alignedV (by decide), by omega,
    fun j hj => ?_, fun j hj => ?_⟩
  · rw [pageAt_succ]
    exact extended j hj
  · have canonical := (extended j hj).canonical (pageAt_aligned unmapped.alignedV (j + 1))
    rw [pageAt_succ, others _ canonical (pageAt_ne (by omega))]
    exact unmapped.absent (j + 1) (Nat.succ_lt_succ hj)

/-- `map_page` maps the first page, unless no table is left. -/
theorem Wf.mapPage_first (wf : Wf y s level) (attrs : Word) (unmapped : Unmapped s p v (n + 1)) :
    (∃ e, (Paging.mapPage y.toSymbols p v attrs s).map Prod.snd = .error e ∧ Exhausted e) ∨
      ∃ s' level', (Paging.mapPage y.toSymbols p v attrs s).map Prod.snd = .ok s' ∧ Wf y s' level' ∧
        Unmapped s' (p + BitVec.ofNat 64 PAGE_SIZE) (v + BitVec.ofNat 64 PAGE_SIZE) n ∧
        ∀ page, s.leaf page ≠ none → s'.leaf page ≠ none := by
  obtain ⟨canonical, absent⟩ := unmapped.first
  rcases wf.mapPage attrs canonical unmapped.alignedP with
    ⟨e, stops, why⟩ | ⟨present, -⟩ | ⟨-, r, s', level', result, wf', -, others, leaves⟩
  · rw [stops]
    exact Or.inl ⟨e, rfl, why⟩
  · exact absurd absent present
  · rw [result]
    refine Or.inr ⟨s', level', rfl, wf', unmapped.rest others, fun page there => ?_⟩
    obtain ⟨found, reached⟩ := Option.ne_none_iff_exists'.mp there
    rw [leaves page found reached]
    exact Option.some_ne_none found

/-- Pages that are not present are mapped one after the other, unless no table is left. -/
theorem Wf.mapPages (wf : Wf y s level) (attrs : Word) (unmapped : Unmapped s p v n) :
    (∃ e, Paging.mapPages y.toSymbols attrs n p v s = .error e ∧ Exhausted e) ∨
      ∃ s' level', Paging.mapPages y.toSymbols attrs n p v s = .ok s' ∧ Wf y s' level' := by
  induction n generalizing p v s level with
  | zero => exact Or.inr ⟨s, level, rfl, wf⟩
  | succ n ih =>
      rw [mapPages_succ]
      rcases wf.mapPage_first attrs unmapped with ⟨e, stops, why⟩ | ⟨s₁, level₁, mapped, wf₁, rest, -⟩
      · rw [stops]
        exact Or.inl ⟨e, rfl, why⟩
      · rw [mapped]
        exact ih wf₁ rest

end Absent

end Reaching

end Tyleros.Paging
