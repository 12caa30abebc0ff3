import Tyleros.Paging.Runs
import Mathlib.Data.Finset.Prod

/-!
# Mapping ranges of pages

`page_tables::map_range` and the functions that call it. The iterator goes from page to
page: past the last entry of a table it ascends, and then descends again through the
next entry of the table above, allocating what is missing there. `Route` says that an
iterator has the tables of its page at hand, also those it may ascend to, and
`Wf.mapRange` says what a range that was mapped looks like.
-/

namespace Tyleros.Paging

open Tyleros.Lib

/-! ## The iterator -/

namespace Iterator

/-- `iterator::end(level)`. -/
def endAt (level : Nat) : Iterator where
  tables := fun _ => 0#64
  indices := fun l => if l = level - 1 then NUM_PAGE_TABLE_ENTRIES else 0
  level0 := level - 1

/-- `advance(n)`. -/
def advance (it : Iterator) (n : Nat) : Except Stop Iterator := do
  kassert (it.indices it.level0 + n ≤ NUM_PAGE_TABLE_ENTRIES) "advanced out of bounds!"
  return { it with indices := Function.update it.indices it.level0 (it.indices it.level0 + n) }

/-- `ascend()`. -/
def ascend (it : Iterator) : Except Stop Iterator := do
  kassert (it.level < 4) "can't ascend from level 4 page iterator"
  return { it with
    indices := Function.update it.indices it.level0 0
    level0 := it.level0 + 1 }

/-- `while (++it == end(it.level())) it.ascend();`, where `fuel` is the number of levels
from the one of the iterator on. -/
def toNextEntry : Nat → Iterator → Except Stop Iterator
  | 0, _ => .error .hang
  | fuel + 1, it => do
    let it ← it.advance 1
    if it.same (endAt it.level) then do
      let it ← it.ascend
      toNextEntry fuel it
    else return it

/-- `while (it.level() != 1) it.allocate_and_descend(allocate);`, where `fuel` is the
number of levels below. -/
def descendToPage (y : Symbols) : Nat → Iterator → State → Except Stop (Iterator × State)
  | 0, it, s => .ok (it, s)
  | fuel + 1, it, s =>
    if it.level ≠ 1 then do
      let (it, s) ← it.allocateAndDescend y s
      descendToPage y fuel it s
    else .ok (it, s)

end Iterator

/-! ## `map_range` -/

/-- The loop of `map_range`, for `count` more pages. -/
def mapPagesFrom (y : Symbols) (attrs : Word) :
    Nat → Word → Word → Iterator → State → Except Stop State
  | 0, _, _, _, s => .ok s
  | count + 1, p, v, it, s => do
    kassert (it.virtualPageAddress == v) "iterator and virtual address out of sync!"
    let (_, s) ← mapPageAt p it attrs s
    let it ← it.toNextEntry 4
    let (it, s) ← it.descendToPage y 3 s
    mapPagesFrom y attrs count (p + BitVec.ofNat 64 PAGE_SIZE) (v + BitVec.ofNat 64 PAGE_SIZE) it s

/-- `map_range(physical_start, physical_end, virtual_start, virtual_end, attrs)`. The
loop runs while `p < physical_end`; both ends are page-aligned there, so `p` does not
overflow. -/
def mapRange (y : Symbols) (physicalStart physicalEnd virtualStart virtualEnd attrs : Word)
    (s : State) : Except Stop (Word × State) := do
  kassert (virtualStart.toNat % PAGE_SIZE == 0 && virtualEnd.toNat % PAGE_SIZE == 0)
    "virtual addresses must be page-aligned!"
  kassert (physicalStart.toNat % PAGE_SIZE == 0 && physicalEnd.toNat % PAGE_SIZE == 0)
    "physical addresses must be page-aligned!"
  kassert (physicalEnd - physicalStart == virtualEnd - virtualStart)
    "physical and virtual address range sizes must match!"
  let (it, s) ← get y virtualStart s
  let s ← mapPagesFrom y attrs ((physicalEnd.toNat - physicalStart.toNat) / PAGE_SIZE) physicalStart
    virtualStart it s
  return (virtualStart, s)

/-- `map_range_size(physical_start, virtual_start, size, attrs)`. -/
def mapRangeSize (y : Symbols) (physicalStart virtualStart size attrs : Word) (s : State) :
    Except Stop (Word × State) :=
  let size := BitVec.ofNat 64 (alignTo size.toNat PAGE_SIZE)
  mapRange y physicalStart (physicalStart + size) virtualStart (virtualStart + size) attrs s

/-- `identity_map_page_range_into_kernel_space(address, size, attrs)`. -/
def identityMapPageRangeIntoKernelSpace (y : Symbols) (address size attrs : Word) (s : State) :
    Except Stop (Word × State) :=
  mapRangeSize y address (address + VMA_OFFSET) size attrs s

/-- `identity_map_pages_into_kernel_space(starting_address, n, attrs)`. -/
def identityMapPagesIntoKernelSpace (y : Symbols) (startingAddress : Word) (n : Nat) (attrs : Word)
    (s : State) : Except Stop (Word × State) := do
  kassert (n > 0) "trying to map 0 pages?"
  identityMapPageRangeIntoKernelSpace y startingAddress (BitVec.ofNat 64 (n * PAGE_SIZE)) attrs s

/-- The attributes of a mapping by default. -/
def DEFAULT_ATTRIBUTES : Word := RW ||| XD

/-! ## The next page -/

theorem index_eq_div (page : Word) (l : Nat) :
    index page l = page.toNat / PAGE_SIZE / 512 ^ l % 512 := by
  rw [index_eq, Nat.div_div_eq_div_mul, PAGE_SIZE, Nat.pow_add, Nat.pow_mul]

theorem add_page_toNat (page : Word) :
    (page + BitVec.ofNat 64 PAGE_SIZE).toNat / PAGE_SIZE = (page.toNat / PAGE_SIZE + 1) % 2 ^ 52 := by
  have := page.isLt
  rw [BitVec.toNat_add, BitVec.toNat_ofNat]
  unfold PAGE_SIZE
  omega

/-- The digits of the next number in base 512: the last ones that are 511 become zero,
and the one in front of them is one more. -/
theorem digit_succ {q l : Nat} (full : ∀ j, j < l → q / 512 ^ j % 512 = 511)
    (room : q / 512 ^ l % 512 < 511) (j : Nat) :
    (q + 1) / 512 ^ j % 512 =
      if j < l then 0 else if j = l then q / 512 ^ l % 512 + 1 else q / 512 ^ j % 512 := by
  have shift : ∀ a i : Nat, a / 512 ^ (i + 1) = a / 512 / 512 ^ i := by
    intro a i
    rw [Nat.pow_succ', Nat.div_div_eq_div_mul]
  induction l generalizing q j with
  | zero =>
      rw [Nat.pow_zero, Nat.div_one] at room
      cases j with
      | zero =>
          rw [if_neg (Nat.lt_irrefl 0), if_pos rfl, Nat.pow_zero, Nat.div_one, Nat.div_one]
          omega
      | succ j =>
          have same : (q + 1) / 512 = q / 512 := by omega
          rw [if_neg (Nat.not_lt_zero _), if_neg (Nat.succ_ne_zero j), shift, shift, same]
  | succ l ih =>
      have last : q % 512 = 511 := by
        have := full 0 (Nat.succ_pos l)
        rwa [Nat.pow_zero, Nat.div_one] at this
      have carry : (q + 1) / 512 = q / 512 + 1 := by omega
      cases j with
      | zero =>
          rw [if_pos (Nat.succ_pos l), Nat.pow_zero, Nat.div_one]
          omega
      | succ j =>
          rw [shift] at room
          have full' : ∀ i, i < l → q / 512 / 512 ^ i % 512 = 511 := by
            intro i hi
            rw [← shift]
            exact full (i + 1) (Nat.succ_lt_succ hi)
          rw [shift, shift, shift, carry, ih full' room j]
          simp only [Nat.succ_lt_succ_iff, Nat.succ_inj]

/-- The indices of the next page. -/
theorem index_next {page : Word} {l : Nat} (hl : l < 4) (full : ∀ j, j < l → index page j = 511)
    (room : index page l < 511) (j : Nat) :
    index (page + BitVec.ofNat 64 PAGE_SIZE) j =
      if j < l then 0 else if j = l then index page l + 1 else index page j := by
  have small : page.toNat / PAGE_SIZE + 1 ≤ 2 ^ 52 := by
    have := page.isLt
    unfold PAGE_SIZE
    omega
  simp only [index_eq_div, add_page_toNat] at *
  have notLast : page.toNat / PAGE_SIZE ≠ 2 ^ 52 - 1 := by
    intro last
    rw [last] at room
    have top : ∀ l : Fin 4, ¬ (2 ^ 52 - 1) / 512 ^ l.val % 512 < 511 := by decide
    exact top ⟨l, hl⟩ room
  have whole : (page.toNat / PAGE_SIZE + 1) % 2 ^ 52 = page.toNat / PAGE_SIZE + 1 :=
    Nat.mod_eq_of_lt (by omega)
  rw [whole]
  exact digit_succ full room j

/-! ## The way to a page -/

/-- The iterator stands in the table of level `l` on the way to a page, and knows the
tables above it. -/
structure Route (s : State) (it : Iterator) (page : Word) (l : Nat) : Prop where
  level : it.level0 = l
  indices : ∀ j, j < 4 → it.indices j = index page j
  tables : ∀ j, l ≤ j → j ≤ 3 →
    walk s.child (3, s.base) ((path page).take (3 - j)) = some (j, it.tables j)

section Routes

variable {y : Layout} {s s' : State} {level : Word → Option Nat} {it it' : Iterator} {page : Word}
  {l : Nat}

theorem Route.ofAddress (s : State) (page : Word) :
    Route s (Iterator.ofAddress s.base page) page 3 := by
  refine ⟨rfl, (Cursor.ofAddress s.base page).indices, fun j ge le => ?_⟩
  obtain rfl : j = 3 := by omega
  rfl

theorem Route.cursor (route : Route s it page l) : Cursor it page l (it.tables l) :=
  ⟨route.level, rfl, route.indices⟩

theorem Route.leaf (route : Route s it page 0) : s.leaf page = some (0, it.tables 0) :=
  route.tables 0 (Nat.le_refl 0) (by omega)

theorem Route.used {fresh : Set Word} (tree : Tree s level fresh) (route : Route s it page l)
    (hl : l ≤ 3) : level (it.tables l) = some l :=
  tree.walk_level (route.tables l (Nat.le_refl l) hl)

/-- A route stays one when tables are added or a page is entered. -/
theorem Route.mono (route : Route s it page l) (base : s'.base = s.base)
    (walks : ∀ p n, walk s.child (3, s.base) p = some n → walk s'.child (3, s.base) p = some n) :
    Route s' it page l := by
  refine ⟨route.level, route.indices, fun j ge le => ?_⟩
  rw [base]
  exact walks _ _ (route.tables j ge le)

theorem Route.down (route : Route s it page (l + 1)) (hl : l < 3) {c : Word}
    (edge : s.child (l + 1, it.tables (l + 1)) (index page (l + 1)) = some (l, c)) :
    Route s (it.down c) page l := by
  obtain ⟨down, table, indices⟩ := route.cursor.down c
  refine ⟨down, indices, fun j ge le => ?_⟩
  rcases Nat.eq_or_lt_of_le ge with rfl | above
  · have step : 3 - l = 3 - (l + 1) + 1 := by omega
    have last : 3 - (3 - (l + 1)) = l + 1 := by omega
    rw [table, step, take_succ_path page (by omega), walk_append,
      route.tables (l + 1) (Nat.le_refl _) (by omega), Option.bind_some, walk, last, edge]
    rfl
  · have kept : (it.down c).tables j = it.tables j := by
      rw [Iterator.down, route.level]
      exact Function.update_of_ne (by omega) _ _
    rw [kept]
    exact route.tables j above le

/-- Descending to the page adds the tables that are missing. -/
theorem Wf.descendToPage (wf : Wf y s level) {fuel : Nat} (route : Route s it page l)
    (hl : l ≤ fuel) (bound : l ≤ 3)
    (done : it.descendToPage y.toSymbols fuel s = .ok (it', s')) :
    ∃ level', Wf y s' level' ∧ Grows s s' ∧ Route s' it' page 0 := by
  induction fuel generalizing it s l level with
  | zero =>
      obtain rfl : l = 0 := by omega
      cases done
      exact ⟨level, wf, Grows.refl _, route⟩
  | succ fuel ih =>
      rw [Iterator.descendToPage] at done
      cases l with
      | zero =>
          rw [if_neg (by simp [Iterator.level, route.level])] at done
          cases done
          exact ⟨level, wf, Grows.refl _, route⟩
      | succ l =>
          rw [if_pos (by simp [Iterator.level, route.level])] at done
          rcases wf.allocateAndDescend route.cursor (route.used wf.tree bound) with
            ⟨e, stops, -⟩ | ⟨c, s₁, level₁, result, wf₁, grows, -, -, edge⟩
          · rw [stops] at done
            cases done
          · rw [result, ok_bind] at done
            have route₁ := (route.mono grows.base grows.walks).down (by omega) edge
            obtain ⟨level', wf', grows', route'⟩ := ih wf₁ route₁ (by omega) (by omega) done
            exact ⟨level', wf', grows.trans grows', route'⟩

/-- `get` finds the way to the page. -/
theorem Wf.get_route (wf : Wf y s level) (page : Word)
    (done : Paging.get y.toSymbols page s = .ok (it, s')) :
    ∃ level', Wf y s' level' ∧ Grows s s' ∧ Route s' it page 0 := by
  have rounds : ∀ n, n ≤ 3 → ∀ it₁ s₁,
      Paging.getLevels y.toSymbols n (Iterator.ofAddress s.base page) s = .ok (it₁, s₁) →
      ∃ level', Wf y s₁ level' ∧ Grows s s₁ ∧ Route s₁ it₁ page (3 - n) := by
    intro n
    induction n with
    | zero =>
        intro _ it₁ s₁ result
        cases result
        exact ⟨level, wf, Grows.refl _, Route.ofAddress _ page⟩
    | succ n ih =>
        intro hn it₁ s₁ result
        obtain ⟨⟨it₂, s₂⟩, before, step⟩ := bind_eq_ok result
        dsimp only at step
        obtain ⟨level₂, wf₂, grows₂, route⟩ := ih (by omega) it₂ s₂ before
        have below : 3 - n = 3 - (n + 1) + 1 := by omega
        rw [below] at route
        rcases wf₂.allocateAndDescend route.cursor (route.used wf₂.tree (by omega)) with
          ⟨e, stops, -⟩ | ⟨c, s₃, level₃, down, wf₃, grows₃, -, -, edge⟩
        · rw [stops] at step
          cases step
        · rw [down] at step
          cases step
          exact ⟨level₃, wf₃, grows₂.trans grows₃,
            (route.mono grows₃.base grows₃.walks).down (by omega) edge⟩
  unfold Paging.get at done
  obtain ⟨_, -, done⟩ := bind_eq_ok done
  obtain ⟨⟨it₁, s₁⟩, levels, done⟩ := bind_eq_ok done
  obtain ⟨_, -, done⟩ := bind_eq_ok done
  cases done
  exact rounds 3 (Nat.le_refl 3) it s' levels

/-- The tables above level `l` on the way to a page depend on the indices above. -/
theorem take_path_congr {page' : Word} {j : Nat} (hj : j ≤ 3)
    (same : ∀ i, j < i → i < 4 → index page' i = index page i) :
    (path page').take (3 - j) = (path page).take (3 - j) := by
  match j, hj with
  | 0, _ => simp only [path, same 3 (by omega) (by omega), same 2 (by omega) (by omega),
      same 1 (by omega) (by omega)]
  | 1, _ => simp only [path, same 3 (by omega) (by omega), same 2 (by omega) (by omega),
      Nat.reduceSub, List.take_succ_cons, List.take_zero]
  | 2, _ => simp only [path, same 3 (by omega) (by omega), Nat.reduceSub, List.take_succ_cons,
      List.take_zero]
  | 3, _ => rfl

/-- Going to the next entry and up: where the iterator ends the indices are those of the
next page. There is none behind the last page. -/
theorem toNextEntry_indices {fuel : Nat} (hl : l ≤ 3) (atLevel : it.level0 = l)
    (below : ∀ j, j < l → it.indices j = 0 ∧ index page j = 511)
    (above : ∀ j, l ≤ j → j < 4 → it.indices j = index page j)
    (done : it.toNextEntry fuel = .ok it') :
    ∃ l', l' ≤ 3 ∧ index page l' < 511 ∧ it'.level0 = l' ∧ it'.tables = it.tables ∧
      (∀ j, j < 4 → it'.indices j = index (page + BitVec.ofNat 64 PAGE_SIZE) j) ∧
      ∀ i, l' < i → index (page + BitVec.ofNat 64 PAGE_SIZE) i = index page i := by
  induction fuel generalizing it l with
  | zero => cases done
  | succ fuel ih =>
      have bound := index_lt page l
      rw [Iterator.toNextEntry] at done
      obtain ⟨it₁, advanced, done⟩ := bind_eq_ok done
      obtain ⟨_, -, advanced⟩ := bind_eq_ok advanced
      cases advanced
      have here : it.indices it.level0 = index page l := by
        rw [atLevel, above l (Nat.le_refl l) (by omega)]
      rw [here] at done
      split at done
      · next full =>
          have full : index page l = 511 := by
            simp [Iterator.same, Iterator.endAt, Iterator.level, NUM_PAGE_TABLE_ENTRIES] at full
            exact full
          obtain ⟨it₂, ascended, done⟩ := bind_eq_ok done
          obtain ⟨_, notTop, ascended⟩ := bind_eq_ok ascended
          cases ascended
          have notTop := of_decide_eq_true (kassert_eq_ok notTop)
          rw [Iterator.level] at notTop
          dsimp only at notTop
          have zeros : ∀ j, j < l + 1 → Function.update (Function.update it.indices it.level0
              (index page l + 1)) it.level0 0 j = 0 ∧ index page j = 511 := by
            intro j hj
            rw [atLevel]
            rcases Nat.eq_or_lt_of_le (Nat.le_of_lt_succ hj) with rfl | lower
            · exact ⟨Function.update_self _ _ _, full⟩
            · rw [Function.update_of_ne (by omega), Function.update_of_ne (by omega)]
              exact below j lower
          have others : ∀ j, l + 1 ≤ j → j < 4 → Function.update (Function.update it.indices it.level0
              (index page l + 1)) it.level0 0 j = index page j := by
            intro j ge lt
            rw [atLevel, Function.update_of_ne (by omega), Function.update_of_ne (by omega)]
            exact above j (by omega) lt
          obtain ⟨l', le, room, atLevel', tables, rest⟩ := ih (l := l + 1) (by omega)
            (by dsimp only; rw [atLevel]) zeros others done
          exact ⟨l', le, room, atLevel', tables, rest⟩
      · next notFull =>
          cases done
          have room : index page l < 511 := by
            simp [Iterator.same, Iterator.endAt, Iterator.level, NUM_PAGE_TABLE_ENTRIES] at notFull
            omega
          have next := index_next (by omega : l < 4) (fun j hj => (below j hj).2) room
          refine ⟨l, hl, room, atLevel, rfl, fun j hj => ?_, fun i hi => ?_⟩
          · dsimp only
            rw [next, atLevel]
            rcases Nat.lt_trichotomy j l with lower | rfl | upper
            · rw [Function.update_of_ne (by omega), if_pos lower]
              exact (below j lower).1
            · rw [Function.update_self, if_neg (Nat.lt_irrefl j), if_pos rfl]
            · rw [Function.update_of_ne (by omega), if_neg (by omega), if_neg (by omega)]
              exact above j (by omega) hj
          · rw [next, if_neg (by omega), if_neg (by omega)]

/-- The next entry is on the way to the next page. -/
theorem Route.next (route : Route s it page 0) (done : it.toNextEntry 4 = .ok it') :
    ∃ l, l ≤ 3 ∧ index page l < 511 ∧ Route s it' (page + BitVec.ofNat 64 PAGE_SIZE) l := by
  obtain ⟨l, hl, room, atLevel, tables, indices, upper⟩ := toNextEntry_indices (l := 0) (by omega)
    route.level (fun j hj => absurd hj (Nat.not_lt_zero j)) (fun j _ hj => route.indices j hj) done
  refine ⟨l, hl, room, atLevel, indices, fun j ge le => ?_⟩
  rw [tables, take_path_congr le fun i above _ => upper i (by omega)]
  exact route.tables j (Nat.zero_le j) le

end Routes

/-! ## What a range looks like -/

/-- The address is sign-extended from 42 bits. -/
def SignExtended (page : Word) : Prop := page.toNat < 2 ^ 41 ∨ 2 ^ 64 - 2 ^ 41 ≤ page.toNat

theorem SignExtended.canonical {page : Word} (extended : SignExtended page)
    (aligned : page.toNat % PAGE_SIZE = 0) : CanonicalPage page := by
  unfold SignExtended at extended
  exact ⟨aligned, by omega⟩

/-- The addresses an iterator can stand on are sign-extended from 42 bits. -/
theorem virtualPageAddress_extended (it : Iterator) : SignExtended it.virtualPageAddress := by
  have signed : ∀ w : Word, -2 ^ 41 ≤ (w.sshiftRight 22).toInt ∧ (w.sshiftRight 22).toInt < 2 ^ 41 := by
    intro w
    have lower := BitVec.le_toInt w
    have upper := BitVec.toInt_lt (x := w)
    rw [BitVec.toInt_sshiftRight, Int.shiftRight_eq_div_pow]
    omega
  unfold SignExtended Iterator.virtualPageAddress
  dsimp only
  generalize (_ : Word) <<< 22 = w
  obtain ⟨lower, upper⟩ := signed w
  rw [BitVec.toInt_eq_toNat_cond] at lower upper
  split at lower
  · omega
  · omega

/-- The page is not the last one. -/
theorem add_page_lt {page : Word} {l : Nat} (hl : l ≤ 3) (room : index page l < 511) :
    page.toNat + PAGE_SIZE < 2 ^ 64 := by
  have := page.isLt
  rw [index_eq] at room
  unfold PAGE_SIZE
  obtain rfl | rfl | rfl | rfl : l = 0 ∨ l = 1 ∨ l = 2 ∨ l = 3 := by omega
  all_goals omega

/-- Page `j` of the pages from an address on. -/
def pageAt (start : Word) (j : Nat) : Word := start + BitVec.ofNat 64 (PAGE_SIZE * j)

theorem pageAt_zero (start : Word) : pageAt start 0 = start := by
  rw [pageAt, Nat.mul_zero]
  exact BitVec.add_zero start

theorem pageAt_succ (start : Word) (j : Nat) :
    pageAt (start + BitVec.ofNat 64 PAGE_SIZE) j = pageAt start (j + 1) := by
  rw [pageAt, pageAt, Nat.mul_succ, Nat.add_comm, BitVec.ofNat_add, BitVec.add_assoc]

theorem pageAt_pageAt (v : Word) (i j : Nat) : pageAt (pageAt v i) j = pageAt v (i + j) := by
  unfold pageAt
  rw [BitVec.add_assoc, ← BitVec.ofNat_add, Nat.mul_add]

theorem pageAt_inj {start : Word} {j j' : Nat} (hj : j < 2 ^ 52) (hj' : j' < 2 ^ 52)
    (eq : pageAt start j = pageAt start j') : j = j' := by
  have words := congrArg BitVec.toNat eq
  have := start.isLt
  simp only [pageAt, PAGE_SIZE, BitVec.toNat_add, BitVec.toNat_ofNat] at words
  omega

theorem pageAt_ne {start : Word} {j : Nat} (hj : j + 1 < 2 ^ 52) :
    pageAt start (j + 1) ≠ start := by
  intro eq
  have same := pageAt_inj hj (show 0 < 2 ^ 52 by decide) (eq.trans (pageAt_zero start).symm)
  exact Nat.succ_ne_zero j same

theorem add_aligned {a b : Word} (ha : a.toNat % PAGE_SIZE = 0) (hb : b.toNat % PAGE_SIZE = 0) :
    (a + b).toNat % PAGE_SIZE = 0 := by
  rw [BitVec.toNat_add]
  unfold PAGE_SIZE at *
  omega

theorem pageAt_aligned {start : Word} (aligned : start.toNat % PAGE_SIZE = 0) (j : Nat) :
    (pageAt start j).toNat % PAGE_SIZE = 0 := by
  refine add_aligned aligned ?_
  rw [BitVec.toNat_ofNat]
  unfold PAGE_SIZE
  omega

section Ranges

variable {y : Layout} {s s' : State} {level : Word → Option Nat}

/-- The `count` pages from `v` on, none of which is the last page of the address space,
were not present in `s` and are mapped to those from `p` on in `s'`; the entries of all
other pages are the same, and no walk is lost. -/
structure Maps (p v attrs : Word) (count : Nat) (s s' : State) : Prop where
  base : s'.base = s.base
  walks : ∀ path n, walk s.child (3, s.base) path = some n → walk s'.child (3, s.base) path = some n
  canonical : ∀ j, j < count → CanonicalPage (pageAt v j)
  extended : ∀ j, j < count → SignExtended (pageAt v j)
  below : ∀ j, j < count → (pageAt v j).toNat + PAGE_SIZE < 2 ^ 64
  absent : ∀ j, j < count → s.entryOf (pageAt v j) &&& PRESENT = 0#64
  mapped : ∀ j, j < count → s'.entryOf (pageAt v j) = pageAt p j ||| attrs ||| PRESENT
  others : ∀ page, CanonicalPage page → (∀ j, j < count → page ≠ pageAt v j) →
    s'.entryOf page = s.entryOf page

/-- Mapping one page and then the ones behind it. -/
theorem Maps.cons {p v attrs : Word} {count : Nat} {s₁ s₂ : State} (canonical : CanonicalPage v)
    (extended : SignExtended v) (below : v.toNat + PAGE_SIZE < 2 ^ 64)
    (absent : s.entryOf v &&& PRESENT = 0#64) (small : count + 1 ≤ 2 ^ 52)
    (base : s₁.base = s.base)
    (walks : ∀ path n, walk s.child (3, s.base) path = some n → walk s₁.child (3, s.base) path = some n)
    (here : s₁.entryOf v = p ||| attrs ||| PRESENT)
    (elsewhere : ∀ page, CanonicalPage page → page ≠ v → s₁.entryOf page = s.entryOf page)
    (grows : Grows s₁ s₂)
    (rest : Maps (p + BitVec.ofNat 64 PAGE_SIZE) (v + BitVec.ofNat 64 PAGE_SIZE) attrs count s₂ s') :
    Maps p v attrs (count + 1) s s' := by
  have base₂ : s₂.base = s.base := grows.base.trans base
  have each : ∀ P : Word → Prop, P v → (∀ j, j < count → P (pageAt (v + BitVec.ofNat 64 PAGE_SIZE) j)) →
      ∀ j, j < count + 1 → P (pageAt v j) := by
    intro P first others j hj
    cases j with
    | zero => rwa [pageAt_zero]
    | succ j =>
        rw [← pageAt_succ]
        exact others j (by omega)
  refine ⟨rest.base.trans base₂, fun path n walked => ?_, each _ canonical rest.canonical,
    each _ extended rest.extended, each (fun w => w.toNat + PAGE_SIZE < 2 ^ 64) below rest.below,
    fun j hj => ?_, fun j hj => ?_, fun page canonical' apart => ?_⟩
  · have second := grows.walks path n
    have third := rest.walks path n
    rw [base] at second
    rw [base₂] at third
    exact third (second (walks path n walked))
  · cases j with
    | zero => rwa [pageAt_zero]
    | succ j =>
        have later := rest.absent j (by omega)
        have behind := rest.canonical j (by omega)
        rw [pageAt_succ] at later behind
        rwa [grows.entries, elsewhere _ behind (pageAt_ne (by omega))] at later
  · cases j with
    | zero =>
        rw [pageAt_zero, pageAt_zero, rest.others v canonical, grows.entries, here]
        intro j hj eq
        rw [pageAt_succ] at eq
        exact pageAt_ne (by omega) eq.symm
    | succ j =>
        have later := rest.mapped j (by omega)
        rwa [pageAt_succ, pageAt_succ] at later
  · rw [rest.others page canonical', grows.entries, elsewhere page canonical']
    · have := apart 0 (by omega)
      rwa [pageAt_zero] at this
    · intro j hj
      rw [pageAt_succ]
      exact apart (j + 1) (by omega)

/-- The loop of `map_range` maps its pages. -/
theorem Wf.mapPagesFrom (wf : Wf y s level) {attrs p v : Word} {count : Nat} {it : Iterator}
    (route : Route s it v 0) (aligned : p.toNat % PAGE_SIZE = 0) (small : count ≤ 2 ^ 52)
    (done : Paging.mapPagesFrom y.toSymbols attrs count p v it s = .ok s') :
    ∃ level', Wf y s' level' ∧ Maps p v attrs count s s' := by
  induction count generalizing p v it s level with
  | zero =>
      cases done
      refine ⟨level, wf, rfl, fun _ _ walked => walked, ?_, ?_, ?_, ?_, ?_, fun _ _ _ => rfl⟩
      all_goals exact fun j hj => absurd hj (Nat.not_lt_zero j)
  | succ count ih =>
      rw [Paging.mapPagesFrom] at done
      obtain ⟨_, synced, done⟩ := bind_eq_ok done
      have synced := beq_iff_eq.mp (kassert_eq_ok synced)
      have extended : SignExtended v := by
        rw [← synced]
        exact virtualPageAddress_extended it
      have canonical : CanonicalPage v := by
        refine extended.canonical ?_
        rw [← synced]
        exact virtualPageAddress_aligned it
      obtain ⟨⟨r, s₁⟩, entered, done⟩ := bind_eq_ok done
      dsimp only at done
      rw [wf.mapPageAt route.cursor route.leaf aligned] at entered
      split at entered
      · cases entered
      · next notPresent =>
          have absent : s.entryOf v &&& PRESENT = 0#64 := by simpa using notPresent
          obtain ⟨-, rfl⟩ := Prod.mk.inj (Except.ok.inj entered)
          have used := (wf.tree.leaf_level route.leaf).2
          have wf₁ := wf.setLeaf (w := p ||| attrs ||| PRESENT) used (index_lt v 0)
          obtain ⟨here, elsewhere⟩ := wf.tree.entryOf_setLeaf (w := p ||| attrs ||| PRESENT) route.leaf
          have walks : ∀ path n, walk s.child (3, s.base) path = some n →
              walk (s.store (slot (it.tables 0) (index v 0)) (p ||| attrs ||| PRESENT)).child
                (3, s.base) path = some n := by
            intro path n walked
            rw [wf.tree.walk_setLeaf used (index_lt v 0)]
            exact walked
          have base : (s.store (slot (it.tables 0) (index v 0)) (p ||| attrs ||| PRESENT)).base =
              s.base := rfl
          have route₁ := route.mono base walks
          obtain ⟨it₁, advanced, done⟩ := bind_eq_ok done
          obtain ⟨l, hl, room, route₂⟩ := route₁.next advanced
          obtain ⟨⟨it₂, s₂⟩, descended, done⟩ := bind_eq_ok done
          dsimp only at done
          obtain ⟨level₂, wf₂, grows, route₃⟩ := wf₁.descendToPage route₂ hl hl descended
          obtain ⟨level', wf', rest⟩ := ih wf₂ route₃ (add_aligned aligned (by decide))
            (Nat.le_of_succ_le small) done
          exact ⟨level', wf', rest.cons canonical extended (add_page_lt hl room) absent small base walks here
            (fun page canonical' ne => elsewhere page canonical canonical' ne) grows⟩

theorem Maps.of_grows {p v attrs : Word} {count : Nat} {s₁ : State} (grows : Grows s s₁)
    (maps : Maps p v attrs count s₁ s') : Maps p v attrs count s s' := by
  refine ⟨maps.base.trans grows.base, fun path n walked => ?_, maps.canonical, maps.extended, maps.below,
    fun j hj => ?_, maps.mapped, fun page canonical apart => ?_⟩
  · have later := maps.walks path n
    rw [grows.base] at later
    exact later (grows.walks path n walked)
  · rw [← grows.entries]
    exact maps.absent j hj
  · rw [maps.others page canonical apart, grows.entries]

/-- A page that is present is not mapped again. -/
theorem Maps.keeps {p v attrs : Word} {n : Nat} (maps : Maps p v attrs n s s') {page : Word}
    (canonical : CanonicalPage page) (present : s.entryOf page &&& PRESENT ≠ 0#64) :
    s'.entryOf page = s.entryOf page := by
  refine maps.others page canonical fun j hj same => present ?_
  rw [same]
  exact maps.absent j hj

/-- The entries of a range are present. -/
theorem Maps.present {p v attrs : Word} {n : Nat} (maps : Maps p v attrs n s s') {j : Nat} (hj : j < n) :
    s'.entryOf (pageAt v j) &&& PRESENT ≠ 0#64 := by
  rw [maps.mapped j hj]
  exact mapped_present _ _

theorem Maps.toNat {p v attrs : Word} {n : Nat} (maps : Maps p v attrs n s s') {j : Nat} (hj : j < n) :
    (pageAt v j).toNat = v.toNat + PAGE_SIZE * j := by
  induction j with
  | zero => rw [pageAt_zero, Nat.mul_zero, Nat.add_zero]
  | succ j ih =>
      have before := ih (by omega)
      have below := maps.below j (by omega)
      rw [← pageAt_pageAt v j 1, pageAt, BitVec.toNat_add, BitVec.toNat_ofNat, before]
      rw [before] at below
      unfold PAGE_SIZE at *
      omega

/-- `map_range` maps the pages between both ends, if the first one is below the second. -/
theorem Wf.mapRange (wf : Wf y s level) {physicalStart physicalEnd virtualStart virtualEnd attrs r : Word}
    (done : Paging.mapRange y.toSymbols physicalStart physicalEnd virtualStart virtualEnd attrs s =
      .ok (r, s')) :
    physicalStart.toNat % PAGE_SIZE = 0 ∧ r = virtualStart ∧ ∃ level', Wf y s' level' ∧
      Maps physicalStart virtualStart attrs
        ((physicalEnd.toNat - physicalStart.toNat) / PAGE_SIZE) s s' := by
  unfold Paging.mapRange at done
  obtain ⟨_, -, done⟩ := bind_eq_ok done
  obtain ⟨_, aligned, done⟩ := bind_eq_ok done
  obtain ⟨_, -, done⟩ := bind_eq_ok done
  have aligned := (Bool.and_eq_true_iff.mp (kassert_eq_ok aligned)).1
  rw [beq_iff_eq] at aligned
  obtain ⟨⟨it, s₁⟩, got, done⟩ := bind_eq_ok done
  obtain ⟨level₁, wf₁, grows, route⟩ := wf.get_route virtualStart got
  obtain ⟨s₂, looped, done⟩ := bind_eq_ok done
  cases done
  have small : (physicalEnd.toNat - physicalStart.toNat) / PAGE_SIZE ≤ 2 ^ 52 := by
    have := physicalEnd.isLt
    unfold PAGE_SIZE
    omega
  obtain ⟨level', wf', maps⟩ := wf₁.mapPagesFrom route aligned small looped
  exact ⟨aligned, rfl, level', wf', maps.of_grows grows⟩

/-- `identity_map_page_range_into_kernel_space` maps `n` pages, or none if their addresses
overflow. -/
theorem Wf.identityMapPageRange (wf : Wf y s level) {address size attrs r : Word} {n : Nat}
    (small : n < 2 ^ 51) (rounded : alignTo size.toNat PAGE_SIZE = PAGE_SIZE * n)
    (done : identityMapPageRangeIntoKernelSpace y.toSymbols address size attrs s = .ok (r, s')) :
    address.toNat % PAGE_SIZE = 0 ∧ r = address + VMA_OFFSET ∧ ∃ level', Wf y s' level' ∧
      Maps address (address + VMA_OFFSET) attrs
        (if address.toNat + PAGE_SIZE * n < 2 ^ 64 then n else 0) s s' := by
  unfold identityMapPageRangeIntoKernelSpace mapRangeSize at done
  obtain ⟨aligned, result, level', wf', maps⟩ := wf.mapRange done
  have count : ((address + BitVec.ofNat 64 (alignTo size.toNat PAGE_SIZE)).toNat - address.toNat) /
      PAGE_SIZE = if address.toNat + PAGE_SIZE * n < 2 ^ 64 then n else 0 := by
    have := address.isLt
    rw [rounded, BitVec.toNat_add, BitVec.toNat_ofNat]
    unfold PAGE_SIZE
    split <;> omega
  rw [count] at maps
  exact ⟨aligned, result, level', wf', maps⟩

theorem alignTo_pages {n : Nat} (small : n < 2 ^ 51) :
    alignTo (BitVec.ofNat 64 (n * PAGE_SIZE)).toNat PAGE_SIZE = PAGE_SIZE * n := by
  rw [BitVec.toNat_ofNat, alignTo, add64, sub64, PAGE_SIZE]
  omega

/-- `identity_map_pages_into_kernel_space` maps `n` pages, or none if their addresses
overflow. -/
theorem Wf.identityMapPages (wf : Wf y s level) {address attrs r : Word} {n : Nat} (small : n < 2 ^ 51)
    (done : identityMapPagesIntoKernelSpace y.toSymbols address n attrs s = .ok (r, s')) :
    0 < n ∧ address.toNat % PAGE_SIZE = 0 ∧ r = address + VMA_OFFSET ∧ ∃ level', Wf y s' level' ∧
      Maps address (address + VMA_OFFSET) attrs
        (if address.toNat + PAGE_SIZE * n < 2 ^ 64 then n else 0) s s' := by
  obtain ⟨_, positive, done⟩ := bind_eq_ok done
  have positive := of_decide_eq_true (kassert_eq_ok positive)
  exact ⟨positive, wf.identityMapPageRange small (alignTo_pages small) done⟩

/-- A range that was mapped without dynamic tables is in the tables of the kernel image. -/
theorem Wf.maps_count_le {p v attrs : Word} {count : Nat} (wf : Wf y s' level)
    (none_ : s'.dynamicTables = 0#64) (maps : Maps p v attrs count s s') (small : count ≤ 2 ^ 52) :
    count ≤ 15 * 512 := by
  have place : ∀ j, j < count → ∃ t, s'.leaf (pageAt v j) = some (0, t) ∧ t ∈ y.tables := by
    intro j hj
    cases reached : s'.leaf (pageAt v j) with
    | none =>
        have mapped := maps.mapped j hj
        rw [State.entryOf_of_missing reached] at mapped
        have present := mapped_present (pageAt p j) attrs
        rw [← mapped] at present
        exact absurd rfl present
    | some n =>
        obtain ⟨l, t⟩ := n
        obtain ⟨rfl, used⟩ := wf.tree.leaf_level reached
        refine ⟨t, rfl, (wf.noDynamic none_).2 t ?_⟩
        rw [used]
        exact Option.some_ne_none 0
  -- a page has an index in one of the tables of the image
  obtain ⟨spots, inSpots, card⟩ : ∃ spots : Finset (Word × Nat),
      (∀ t i, t ∈ y.tables → i < 512 → (t, i) ∈ spots) ∧ spots.card ≤ 15 * 512 := by
    refine ⟨y.tables.toFinset ×ˢ Finset.range 512, fun t i inImage hi => ?_, ?_⟩
    · rw [Finset.mem_product, List.mem_toFinset, Finset.mem_range]
      exact ⟨inImage, hi⟩
    · have length : y.tables.length = 15 := by simp [Symbols.tables, MAX_STATIC_TABLES]
      have few := List.toFinset_card_le y.tables
      rw [Finset.card_product, Finset.card_range]
      omega
  choose! table found inImage using place
  have into : ∀ j ∈ Finset.range count, (table j, index (pageAt v j) 0) ∈ spots := by
    intro j mem
    exact inSpots _ _ (inImage j (Finset.mem_range.mp mem)) (index_lt _ 0)
  have injective : Set.InjOn (fun j => (table j, index (pageAt v j) 0))
      (Finset.range count : Set Nat) := by
    intro j mem j' mem' same
    have hj := Finset.mem_range.mp (Finset.mem_coe.mp mem)
    have hj' := Finset.mem_range.mp (Finset.mem_coe.mp mem')
    obtain ⟨sameTable, sameIndex⟩ := Prod.mk.inj same
    have reached := found j hj
    rw [sameTable] at reached
    have samePage := wf.tree.leaf_inj (maps.canonical j hj) (maps.canonical j' hj') reached
      (found j' hj') sameIndex
    exact pageAt_inj (by omega) (by omega) samePage
  have bound := Finset.card_le_card_of_injOn _ into injective
  rw [Finset.card_range] at bound
  exact bound.trans card

/-- The bytes of mapped pages are translated to the physical ones, if an entry can hold
their addresses. -/
theorem Wf.translates {p v attrs : Word} {count o : Nat} (wf : Wf y s' level)
    (maps : Maps p v attrs count s s') (inside : attrs &&& ~~~ ALL_MASK = 0#64)
    (aligned : p.toNat % PAGE_SIZE = 0) (room : p.toNat + PAGE_SIZE * count ≤ 2 ^ 52)
    (ho : o < PAGE_SIZE * count) :
    Paging.getPhysicalAddress (v + BitVec.ofNat 64 o) s' = .ok (p + BitVec.ofNat 64 o) := by
  have hj : o / PAGE_SIZE < count := Nat.div_lt_of_lt_mul ho
  have page : ∀ start : Word, start + BitVec.ofNat 64 o =
      pageAt start (o / PAGE_SIZE) + BitVec.ofNat 64 (o % PAGE_SIZE) := by
    intro start
    rw [pageAt, BitVec.add_assoc, ← BitVec.ofNat_add, Nat.div_add_mod]
  have physical : (pageAt p (o / PAGE_SIZE)).toNat = p.toNat + PAGE_SIZE * (o / PAGE_SIZE) := by
    rw [pageAt, BitVec.toNat_add, BitVec.toNat_ofNat]
    unfold PAGE_SIZE at *
    omega
  have onPage := pageAt_aligned aligned (o / PAGE_SIZE)
  have small : (pageAt p (o / PAGE_SIZE)).toNat < 2 ^ 52 := by
    rw [physical]
    unfold PAGE_SIZE at *
    omega
  have entry := maps.mapped (o / PAGE_SIZE) hj
  have present : s'.entryOf (pageAt v (o / PAGE_SIZE)) &&& PRESENT ≠ 0#64 := by
    rw [entry]
    exact mapped_present _ _
  have inPage : o % PAGE_SIZE < PAGE_SIZE := Nat.mod_lt o (by decide)
  rw [page, wf.tree.getPhysicalAddress (maps.canonical _ hj) present inPage, entry,
    mapped_address onPage small inside, ← page]

/-- The physical address of a page has 52 bits. -/
theorem getPhysicalAddress_lt {v w : Word} (aligned : v.toNat % PAGE_SIZE = 0)
    (translated : getPhysicalAddress v s = .ok w) : w.toNat < 2 ^ 52 := by
  have same := page_of_offset aligned (show 0 < PAGE_SIZE by decide)
  rw [show v + BitVec.ofNat 64 0 = v from BitVec.add_zero v] at same
  unfold getPhysicalAddress at translated
  dsimp only at translated
  rw [same, BitVec.sub_self] at translated
  obtain ⟨it, -, translated⟩ := bind_eq_ok translated
  obtain ⟨_, -, translated⟩ := bind_eq_ok translated
  obtain ⟨_, -, translated⟩ := bind_eq_ok translated
  obtain ⟨_, -, translated⟩ := bind_eq_ok translated
  obtain ⟨page, found, translated⟩ := bind_eq_ok translated
  obtain ⟨_, -, found⟩ := bind_eq_ok found
  obtain ⟨entry, -, found⟩ := bind_eq_ok found
  cases found
  rw [← Except.ok.inj translated, BitVec.add_zero, BitVec.toNat_and]
  exact Nat.lt_of_le_of_lt Nat.and_le_right (by decide)

end Ranges

/-! ## The pools -/

section Pools

variable {y : Symbols} {s s' : State}

theorem allocatePageLevel_pool {c : Word} (done : allocatePageLevel y s = .ok (c, s')) :
    s'.dynamicTables = s.dynamicTables := by
  unfold allocatePageLevel at done
  split at done
  · cases done
    rfl
  · obtain ⟨_, -, done⟩ := bind_eq_ok done
    split at done
    · cases done
      rfl
    · cases done

theorem Iterator.write_pool {it : Iterator} {w : Word} (done : it.write w s = .ok s') :
    s'.dynamicTables = s.dynamicTables := by
  obtain ⟨a, -, done⟩ := bind_eq_ok done
  cases done
  rfl

theorem tableBelow_pool {it : Iterator} {entry addr : Word}
    (done : it.tableBelow y entry s = .ok (addr, s')) : s'.dynamicTables = s.dynamicTables := by
  unfold Iterator.tableBelow at done
  dsimp only at done
  split at done
  · obtain ⟨⟨addr', s₂⟩, allocated, done⟩ := bind_eq_ok done
    obtain ⟨s₃, written, done⟩ := bind_eq_ok done
    cases done
    rw [Iterator.write_pool written, allocatePageLevel_pool allocated]
  · cases done
    rfl

/-- A round of `allocate_and_descend` goes down to the table below the entry. -/
theorem Iterator.allocateAndDescend_inv {it it' : Iterator}
    (done : it.allocateAndDescend y s = .ok (it', s')) :
    ∃ entry addr, it.tableBelow y entry s = .ok (addr, s') ∧ it' = it.down (addr + VMA_OFFSET) := by
  have rest : ∀ entry, (it.tableBelow y entry s >>= fun r => do
      kassert (r.1.toNat % PAGE_SIZE == 0) "address isn't page-aligned?"
      Except.ok (it.down (r.1 + VMA_OFFSET), r.2)) = .ok (it', s') →
      ∃ entry addr, it.tableBelow y entry s = .ok (addr, s') ∧ it' = it.down (addr + VMA_OFFSET) := by
    intro entry done
    obtain ⟨⟨addr, s₁⟩, below, done⟩ := bind_eq_ok done
    obtain ⟨_, -, done⟩ := bind_eq_ok done
    cases done
    exact ⟨entry, addr, below, rfl⟩
  obtain ⟨_, -, done⟩ := bind_eq_ok done
  obtain ⟨_, -, done⟩ := bind_eq_ok done
  dsimp only at done
  split at done
  · obtain ⟨entry, -, done⟩ := bind_eq_ok done
    exact rest entry done
  · exact rest 0#64 done

theorem allocateAndDescend_pool {it it' : Iterator}
    (done : it.allocateAndDescend y s = .ok (it', s')) : s'.dynamicTables = s.dynamicTables := by
  obtain ⟨entry, addr, below, -⟩ := Iterator.allocateAndDescend_inv done
  exact tableBelow_pool below

theorem descendToPage_pool {fuel : Nat} {it it' : Iterator}
    (done : it.descendToPage y fuel s = .ok (it', s')) : s'.dynamicTables = s.dynamicTables := by
  induction fuel generalizing it s with
  | zero =>
      cases done
      rfl
  | succ fuel ih =>
      rw [Iterator.descendToPage] at done
      split at done
      · obtain ⟨⟨it₁, s₁⟩, first, done⟩ := bind_eq_ok done
        rw [ih done, allocateAndDescend_pool first]
      · cases done
        rfl

theorem get_pool {page : Word} {it : Iterator} (done : get y page s = .ok (it, s')) :
    s'.dynamicTables = s.dynamicTables := by
  have rounds : ∀ n it₀ it₁ s₁, getLevels y n it₀ s = .ok (it₁, s₁) →
      s₁.dynamicTables = s.dynamicTables := by
    intro n
    induction n with
    | zero =>
        intro it₀ it₁ s₁ result
        cases result
        rfl
    | succ n ih =>
        intro it₀ it₁ s₁ result
        obtain ⟨⟨it₂, s₂⟩, before, step⟩ := bind_eq_ok result
        rw [allocateAndDescend_pool step, ih it₀ it₂ s₂ before]
  obtain ⟨_, -, done⟩ := bind_eq_ok done
  obtain ⟨⟨it₁, s₁⟩, levels, done⟩ := bind_eq_ok done
  obtain ⟨_, -, done⟩ := bind_eq_ok done
  cases done
  exact rounds 3 _ _ _ levels

/-- A `map_page` at an iterator that completes has written the entry. -/
theorem mapPageAt_ok {p attrs r : Word} {it : Iterator}
    (done : mapPageAt p it attrs s = .ok (r, s')) :
    p.toNat % PAGE_SIZE = 0 ∧ r = it.virtualPageAddress ∧
      it.write (p ||| attrs ||| PRESENT) s = .ok s' := by
  obtain ⟨_, -, done⟩ := bind_eq_ok done
  obtain ⟨_, aligned, done⟩ := bind_eq_ok done
  obtain ⟨_, -, done⟩ := bind_eq_ok done
  obtain ⟨_, -, done⟩ := bind_eq_ok done
  obtain ⟨present, -, done⟩ := bind_eq_ok done
  split at done
  · cases done
  · obtain ⟨s₁, written, done⟩ := bind_eq_ok done
    obtain ⟨rfl, rfl⟩ := Prod.mk.inj (Except.ok.inj done)
    exact ⟨beq_iff_eq.mp (kassert_eq_ok aligned), rfl, written⟩

theorem mapPageAt_pool {p attrs r : Word} {it : Iterator}
    (done : mapPageAt p it attrs s = .ok (r, s')) : s'.dynamicTables = s.dynamicTables := by
  obtain ⟨-, -, written⟩ := mapPageAt_ok done
  exact Iterator.write_pool written

theorem mapPagesFrom_pool {attrs p v : Word} {count : Nat} {it : Iterator}
    (done : mapPagesFrom y attrs count p v it s = .ok s') : s'.dynamicTables = s.dynamicTables := by
  induction count generalizing p v it s with
  | zero =>
      cases done
      rfl
  | succ count ih =>
      rw [mapPagesFrom] at done
      obtain ⟨_, -, done⟩ := bind_eq_ok done
      obtain ⟨⟨r, s₁⟩, entered, done⟩ := bind_eq_ok done
      obtain ⟨it₁, -, done⟩ := bind_eq_ok done
      obtain ⟨⟨it₂, s₂⟩, descended, done⟩ := bind_eq_ok done
      rw [ih done, descendToPage_pool descended, mapPageAt_pool entered]

theorem mapRange_pool {physicalStart physicalEnd virtualStart virtualEnd attrs r : Word}
    (done : mapRange y physicalStart physicalEnd virtualStart virtualEnd attrs s = .ok (r, s')) :
    s'.dynamicTables = s.dynamicTables := by
  obtain ⟨_, -, done⟩ := bind_eq_ok done
  obtain ⟨_, -, done⟩ := bind_eq_ok done
  obtain ⟨_, -, done⟩ := bind_eq_ok done
  obtain ⟨⟨it, s₁⟩, got, done⟩ := bind_eq_ok done
  obtain ⟨s₂, looped, done⟩ := bind_eq_ok done
  cases done
  rw [mapPagesFrom_pool looped, get_pool got]

theorem identityMapPages_pool {address attrs r : Word} {n : Nat}
    (done : identityMapPagesIntoKernelSpace y address n attrs s = .ok (r, s')) :
    s'.dynamicTables = s.dynamicTables := by
  obtain ⟨_, -, done⟩ := bind_eq_ok done
  exact mapRange_pool done

end Pools

end Tyleros.Paging
