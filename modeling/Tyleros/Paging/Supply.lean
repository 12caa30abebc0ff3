import Tyleros.Paging.Startup

/-!
# Ranges that can be mapped

`map_range` completes when its pages are not present and enough tables are left. Inside
of 1 GiB whose table is there it needs a table for each 2 MiB that it enters, also for
the one that begins behind its last page.
-/

namespace Tyleros.Paging

open Tyleros.Lib

/-! ## The address of an iterator -/

theorem getLsbD_of_lt {w : Word} {n i : Nat} (small : w.toNat < 2 ^ n) (high : n ≤ i) :
    w.getLsbD i = false :=
  Nat.testBit_lt_two_pow (Nat.lt_of_lt_of_le small (Nat.pow_le_pow_right (by decide) high))

/-- The bits from bit 41 on are the same. -/
theorem SignExtended.getLsbD {page : Word} (extended : SignExtended page) {i : Nat} (high : 41 ≤ i)
    (hi : i < 64) : page.getLsbD i = page.getLsbD 41 := by
  rcases extended with positive | negative
  · rw [getLsbD_of_lt positive high, getLsbD_of_lt positive (Nat.le_refl 41)]
  · have inverse : (~~~ page).toNat < 2 ^ 41 := by
      have := page.isLt
      rw [BitVec.toNat_not]
      omega
    have clear := getLsbD_of_lt inverse high
    have clear41 := getLsbD_of_lt inverse (Nat.le_refl 41)
    rw [BitVec.getLsbD_not] at clear clear41
    have set : page.getLsbD i = true := by simpa [hi] using clear
    have set41 : page.getLsbD 41 = true := by simpa using clear41
    rw [set, set41]

theorem getLsbD_prefixMask (i : Nat) : PREFIX_MASK.getLsbD i = decide (i < 9) := by
  rcases Nat.lt_or_ge i 64 with inside | outside
  · have bits : ∀ i : Fin 64, PREFIX_MASK.getLsbD i = decide (i.val < 9) := by decide
    exact bits ⟨i, inside⟩
  · rw [BitVec.getLsbD_of_ge _ _ outside, decide_eq_false (by omega)]

/-- The bits of an index at its place in the address. -/
theorem getLsbD_index (page : Word) (l k i : Nat) (hi : i < 64) :
    (BitVec.ofNat 64 (index page l) <<< k).getLsbD i =
      (decide (k ≤ i) && decide (i < k + 9) && page.getLsbD (12 + (9 * l + (i - k)))) := by
  have word : BitVec.ofNat 64 (index page l) = page >>> 12 >>> (9 * l) &&& PREFIX_MASK :=
    BitVec.ofNat_toNat _ _
  rw [word, BitVec.getLsbD_shiftLeft, BitVec.getLsbD_and, BitVec.getLsbD_ushiftRight,
    BitVec.getLsbD_ushiftRight, getLsbD_prefixMask]
  by_cases below : i < k
  · simp [below, Nat.not_le.mpr below]
  · have inMask : decide (i - k < 9) = decide (i < k + 9) := decide_eq_decide.mpr (by omega)
    rw [inMask]
    simp [hi, below, Nat.not_lt.mp below, Bool.and_comm]

/-- An iterator on the way to such a page knows its address. -/
theorem virtualPageAddress_eq {it : Iterator} {page : Word} (aligned : page.toNat % PAGE_SIZE = 0)
    (extended : SignExtended page) (indices : ∀ j, j < 4 → it.indices j = index page j) :
    it.virtualPageAddress = page := by
  have bits : ∀ i, i < 48 → (BitVec.ofNat 64 (index page 3) <<< 39 |||
      BitVec.ofNat 64 (index page 2) <<< 30 ||| BitVec.ofNat 64 (index page 1) <<< 21 |||
      BitVec.ofNat 64 (index page 0) <<< 12).getLsbD i = page.getLsbD i := by
    intro i hi
    have place : ∀ l, (BitVec.ofNat 64 (index page l) <<< (12 + 9 * l)).getLsbD i =
        (decide (12 + 9 * l ≤ i ∧ i < 21 + 9 * l) && page.getLsbD i) := by
      intro l
      rw [getLsbD_index page _ _ i (by omega)]
      by_cases inside : 12 + 9 * l ≤ i
      · have same : 12 + (9 * l + (i - (12 + 9 * l))) = i := by omega
        have end_ : i < 12 + 9 * l + 9 ↔ i < 21 + 9 * l := by omega
        simp [inside, same, end_]
      · simp [inside]
    rw [BitVec.getLsbD_or, BitVec.getLsbD_or, BitVec.getLsbD_or, place 3, place 2, place 1, place 0]
    rcases Nat.lt_or_ge i 12 with low | high
    · rw [getLsbD_of_aligned aligned low]
      simp
    · cases page.getLsbD i with
      | false => simp
      | true =>
          simp only [Bool.and_true, Bool.or_eq_true, decide_eq_true_iff]
          omega
  unfold Iterator.virtualPageAddress
  rw [indices 3 (by omega), indices 2 (by omega), indices 1 (by omega), indices 0 (by omega)]
  dsimp only
  generalize BitVec.ofNat 64 (index page 3) <<< 39 ||| BitVec.ofNat 64 (index page 2) <<< 30 |||
      BitVec.ofNat 64 (index page 1) <<< 21 ||| BitVec.ofNat 64 (index page 0) <<< 12 = address at *
  apply BitVec.eq_of_getLsbD_eq
  intro i hi
  have sign : (address <<< 22).msb = page.getLsbD 41 := by
    rw [BitVec.msb_eq_getLsbD_last, BitVec.getLsbD_shiftLeft]
    simpa using bits 41 (by decide)
  rw [BitVec.getLsbD_sshiftRight, sign, BitVec.getLsbD_shiftLeft]
  by_cases low : i < 42
  · have back : 22 + i - 22 = i := by omega
    rw [if_pos (by omega), back, bits i (by omega)]
    simp [hi, Nat.not_le.mpr hi, show 22 + i < 64 by omega, show ¬ 22 + i < 22 by omega]
  · simp [Nat.not_le.mpr hi, show ¬ 22 + i < 64 by omega, extended.getLsbD (i := i) (by omega) hi]

/-! ## Enough tables -/

/-- The table of the 1 GiB around a page is there. -/
def State.HasTable (s : State) (page : Word) : Prop :=
  ∃ t, walk s.child (3, s.base) [index page 3, index page 2] = some (1, t)

section Supply

variable {y : Layout} {s s' : State} {level : Word → Option Nat} {it it' : Iterator} {page : Word}

/-- Descending one level completes if a table is left or none is needed. -/
theorem Wf.allocateAndDescend_ok (wf : Wf y s level) {t : Word} {l : Nat}
    (cursor : Cursor it page (l + 1) t) (used : level t = some (l + 1))
    (supply : 0 < s.tablesLeft ∨ s.child (l + 1, t) (index page (l + 1)) ≠ none) :
    ∃ c s' level', it.allocateAndDescend y.toSymbols s = .ok (it.down c, s') ∧ Wf y s' level' ∧
      level' c = some l ∧ s.tablesLeft ≤ s'.tablesLeft + 1 ∧
      (s.child (l + 1, t) (index page (l + 1)) ≠ none → s' = s) ∧
      s'.child (l + 1, t) (index page (l + 1)) = some (l, c) := by
  rcases wf.allocateAndDescend cursor used with
    ⟨e, -, -, noneLeft, missing⟩ | ⟨c, s', level', result, wf', -, levelC, left, edge⟩
  · rcases supply with some_ | there
    · omega
    · exact absurd missing there
  · refine ⟨c, s', level', result, wf', levelC, ?_, fun there => ?_, edge⟩
    · rcases left with rfl | ⟨taken, -⟩
      · omega
      · omega
    · rcases left with same | ⟨-, missing⟩
      · exact same
      · exact absurd missing there

/-- `get` takes one table at most where the table of the 1 GiB is there. -/
theorem Wf.get_ok (wf : Wf y s level) (rooted : s.HasTable page) (supply : 0 < s.tablesLeft) :
    ∃ it s', Paging.get y.toSymbols page s = .ok (it, s') ∧ s.tablesLeft ≤ s'.tablesLeft + 1 := by
  obtain ⟨t, walked⟩ := rooted
  obtain ⟨⟨l₁, t₁⟩, first, rest⟩ := Option.bind_eq_some_iff.mp walked
  obtain ⟨⟨l₂, t₂⟩, second, rest⟩ := Option.bind_eq_some_iff.mp rest
  cases rest
  obtain ⟨-, eq₁, -, used₁⟩ := wf.tree.entry_of_child wf.tree.root first
  obtain rfl : l₁ = 2 := by omega
  have cursor := Cursor.ofAddress s.base page
  obtain ⟨c₁, s₁, -, down₁, -, -, -, same₁, edge₁⟩ := wf.allocateAndDescend_ok cursor wf.tree.root
    (Or.inl supply)
  have there₁ : s.child (3, s.base) (index page 3) ≠ none := by
    rw [first]
    exact Option.some_ne_none _
  obtain rfl := same₁ there₁
  obtain rfl : c₁ = t₁ := by
    rw [first] at edge₁
    cases edge₁
    rfl
  obtain ⟨c₂, s₂, -, down₂, -, -, -, same₂, edge₂⟩ := wf.allocateAndDescend_ok (cursor.down c₁) used₁
    (Or.inl supply)
  have there₂ : s₁.child (2, c₁) (index page 2) ≠ none := by
    rw [second]
    exact Option.some_ne_none _
  obtain rfl := same₂ there₂
  obtain rfl : c₂ = t := by
    rw [second] at edge₂
    cases edge₂
    rfl
  have used₂ := (wf.tree.entry_of_child used₁ second).2.2.2
  obtain ⟨c₃, s₃, -, down₃, -, -, left, -, -⟩ :=
    wf.allocateAndDescend_ok ((cursor.down c₁).down c₂) used₂ (Or.inl supply)
  have levels : Paging.getLevels y.toSymbols 3 (Iterator.ofAddress s₂.base page) s₂ =
      .ok ((((Iterator.ofAddress s₂.base page).down c₁).down c₂).down c₃, s₃) := by
    simp only [Paging.getLevels, ok_bind, down₁, down₂, down₃]
  have leaf : ((((Iterator.ofAddress s₂.base page).down c₁).down c₂).down c₃).level = 1 := rfl
  refine ⟨(((Iterator.ofAddress s₂.base page).down c₁).down c₂).down c₃, s₃, ?_, left⟩
  unfold Paging.get
  rw [wf.allocator, kassert_true, ok_bind, levels, ok_bind]
  dsimp only
  rw [leaf]
  rfl

theorem Iterator.advance_ok (room : it.indices it.level0 < 512) :
    it.advance 1 = .ok { it with
      indices := Function.update it.indices it.level0 (it.indices it.level0 + 1) } := by
  have fits : decide (it.indices it.level0 + 1 ≤ NUM_PAGE_TABLE_ENTRIES) = true := decide_eq_true room
  unfold Iterator.advance
  rw [fits]
  rfl

/-- The next entry is in the same table. -/
theorem Iterator.toNextEntry_same (fuel : Nat) (room : it.indices it.level0 < 511) :
    it.toNextEntry (fuel + 1) = .ok { it with
      indices := Function.update it.indices it.level0 (it.indices it.level0 + 1) } := by
  have notEnd : it.indices it.level0 + 1 ≠ NUM_PAGE_TABLE_ENTRIES := by
    unfold NUM_PAGE_TABLE_ENTRIES
    omega
  rw [Iterator.toNextEntry, Iterator.advance_ok (by omega), ok_bind, if_neg]
  · rfl
  · simp [Iterator.same, Iterator.endAt, Iterator.level, notEnd]

/-- The table is full. -/
theorem Iterator.toNextEntry_up (fuel : Nat) (full : it.indices it.level0 = 511)
    (low : it.level0 < 3) :
    it.toNextEntry (fuel + 1) = Iterator.toNextEntry fuel { it with
      indices := Function.update it.indices it.level0 0
      level0 := it.level0 + 1 } := by
  have atEnd : Iterator.same
      ⟨it.tables, Function.update it.indices it.level0 (it.indices it.level0 + 1), it.level0⟩
      (Iterator.endAt (it.level0 + 1)) = true := by
    simp [Iterator.same, Iterator.endAt, full, NUM_PAGE_TABLE_ENTRIES]
  have notTop : decide (it.level0 + 1 < 4) = true := decide_eq_true (by omega)
  rw [Iterator.toNextEntry, Iterator.advance_ok (by omega), ok_bind, Iterator.level, if_pos atEnd,
    Iterator.ascend, Iterator.level, notTop, kassert_true, ok_bind]
  dsimp only
  rw [Function.update_idem]
  rfl

/-- The next entry, in the same table or behind the one that is full. -/
theorem Route.next_ok (route : Route s it page 0) (inside : index page 0 < 511 ∨ index page 1 < 511) :
    ∃ it', it.toNextEntry 4 = .ok it' ∧ it'.level0 = if index page 0 < 511 then 0 else 1 := by
  have level0 := route.level
  have i0 : it.indices it.level0 = index page 0 := by rw [level0, route.indices 0 (by decide)]
  have lt0 := index_lt page 0
  by_cases room : index page 0 < 511
  · refine ⟨_, Iterator.toNextEntry_same 3 (by omega), ?_⟩
    rw [if_pos room]
    exact level0
  · have i1 : Function.update it.indices it.level0 0 (it.level0 + 1) = index page 1 := by
      rw [Function.update_of_ne (by omega), level0, route.indices 1 (by decide)]
    refine ⟨_, (Iterator.toNextEntry_up 3 (by omega) (by omega)).trans
      (Iterator.toNextEntry_same 2 (by dsimp only; omega)), ?_⟩
    rw [if_neg room]
    show it.level0 + 1 = 1
    rw [level0]

/-- Descending to the page from one level above. -/
theorem Wf.descendToPage_ok (wf : Wf y s level) {l : Nat} (route : Route s it page l) (hl : l ≤ 1)
    (supply : l ≤ s.tablesLeft) :
    ∃ it' s', it.descendToPage y.toSymbols 3 s = .ok (it', s') ∧ s.tablesLeft ≤ s'.tablesLeft + l := by
  rcases Nat.eq_zero_or_pos l with rfl | positive
  · refine ⟨it, s, ?_, Nat.le_refl _⟩
    rw [Iterator.descendToPage, if_neg (by simp [Iterator.level, route.level])]
  · obtain rfl : l = 1 := by omega
    obtain ⟨c, s', level', down, -, -, left, -, -⟩ :=
      wf.allocateAndDescend_ok route.cursor (route.used wf.tree (by decide)) (Or.inl supply)
    refine ⟨it.down c, s', ?_, left⟩
    have below : (it.down c).level = 1 := by
      rw [Iterator.level, (route.cursor.down c).level]
    rw [Iterator.descendToPage, if_pos (by simp [Iterator.level, route.level]), down, ok_bind]
    dsimp only
    rw [Iterator.descendToPage, if_neg (by simp [below])]

/-- The 2 MiB areas that begin behind page `v` and up to `count` pages behind it. -/
def crossings (v : Word) (count : Nat) : Nat :=
  (v.toNat / PAGE_SIZE + count) / 512 - v.toNat / PAGE_SIZE / 512

/-- The loop of `map_range` completes inside of 1 GiB, if its pages are not present and a
table is left for each area it enters. -/
theorem Wf.mapPagesFrom_ok (wf : Wf y s level) (attrs : Word) {p v : Word} {count : Nat}
    (route : Route s it v 0) (alignedP : p.toNat % PAGE_SIZE = 0) (alignedV : v.toNat % PAGE_SIZE = 0)
    (extended : ∀ j, j < count → SignExtended (pageAt v j))
    (inside : v.toNat / PAGE_SIZE % 2 ^ 18 + count < 2 ^ 18)
    (absent : ∀ j, j < count → s.entryOf (pageAt v j) &&& PRESENT = 0#64)
    (supply : crossings v count ≤ s.tablesLeft) :
    ∃ s', Paging.mapPagesFrom y.toSymbols attrs count p v it s = .ok s' ∧
      s.tablesLeft ≤ s'.tablesLeft + crossings v count := by
  induction count generalizing p v it s level with
  | zero => exact ⟨s, rfl, Nat.le_add_right _ _⟩
  | succ count ih =>
      have extended0 := extended 0 (Nat.succ_pos count)
      have absent0 := absent 0 (Nat.succ_pos count)
      rw [pageAt_zero] at extended0 absent0
      have synced := virtualPageAddress_eq alignedV extended0 route.indices
      have notPresent : (s.entryOf v &&& PRESENT != 0#64) = false := by simpa using absent0
      have used := (wf.tree.leaf_level route.leaf).2
      have wf₁ := wf.setLeaf (w := p ||| attrs ||| PRESENT) used (index_lt v 0)
      have canonical := extended0.canonical alignedV
      obtain ⟨-, elsewhere⟩ := wf.tree.entryOf_setLeaf (w := p ||| attrs ||| PRESENT) route.leaf
      have route₁ : Route (s.store (slot (it.tables 0) (index v 0)) (p ||| attrs ||| PRESENT)) it v 0 :=
        route.mono rfl fun path n walked => by
          rw [wf.tree.walk_setLeaf used (index_lt v 0)]
          exact walked
      -- the next page
      have quotient : (v + BitVec.ofNat 64 PAGE_SIZE).toNat / PAGE_SIZE = v.toNat / PAGE_SIZE + 1 := by
        have := v.isLt
        rw [add_page_toNat]
        unfold PAGE_SIZE at *
        omega
      have next0 : index v 0 = v.toNat / PAGE_SIZE % 512 := by
        rw [index_eq_div, Nat.pow_zero, Nat.div_one]
      have next1 : index v 1 = v.toNat / PAGE_SIZE / 512 % 512 := by
        rw [index_eq_div, Nat.pow_one]
      obtain ⟨it₁, advanced, atLevel⟩ := route₁.next_ok (by omega)
      obtain ⟨l, -, -, route₂⟩ := route₁.next advanced
      have level_ : l = if index v 0 < 511 then 0 else 1 := by rw [← atLevel, route₂.level]
      have cost : crossings v (count + 1) = l + crossings (v + BitVec.ofNat 64 PAGE_SIZE) count := by
        unfold crossings
        rw [quotient]
        split at level_ <;> omega
      have left : (s.store (slot (it.tables 0) (index v 0)) (p ||| attrs ||| PRESENT)).tablesLeft =
          s.tablesLeft := rfl
      obtain ⟨it₂, s₂, descended, left₂⟩ := wf₁.descendToPage_ok route₂ (by split at level_ <;> omega)
        (by omega)
      obtain ⟨level₂, wf₂, grows, route₃⟩ := wf₁.descendToPage route₂ (by split at level_ <;> omega)
        (by split at level_ <;> omega) descended
      have absent₂ : ∀ j, j < count →
          s₂.entryOf (pageAt (v + BitVec.ofNat 64 PAGE_SIZE) j) &&& PRESENT = 0#64 := by
        intro j hj
        rw [pageAt_succ]
        have canonical' := (extended (j + 1) (by omega)).canonical (pageAt_aligned alignedV (j + 1))
        rw [grows.entries, elsewhere _ canonical canonical' (pageAt_ne (by omega))]
        exact absent (j + 1) (by omega)
      obtain ⟨s', rest, left'⟩ := ih wf₂ route₃ (p := p + BitVec.ofNat 64 PAGE_SIZE)
        (add_aligned alignedP (by decide)) (add_aligned alignedV (by decide))
        (fun j hj => by rw [pageAt_succ]; exact extended (j + 1) (by omega))
        (by rw [quotient]; omega) absent₂ (by omega)
      refine ⟨s', ?_, by omega⟩
      rw [Paging.mapPagesFrom, beq_iff_eq.mpr synced, kassert_true, ok_bind,
        wf.mapPageAt route.cursor route.leaf alignedP, notPresent, if_neg Bool.false_ne_true, ok_bind]
      dsimp only
      rw [advanced, ok_bind, descended, ok_bind]
      exact rest

/-! ## The 1 GiB of the kernel -/

/-- Where physical address `a` is mapped in kernel space. -/
def kernelPage (a : Nat) : Word := BitVec.ofNat 64 a + VMA_OFFSET

theorem kernelPage_toNat {a : Nat} (small : a < 2 ^ 30) :
    (kernelPage a).toNat = KERNEL_VMA_OFFSET + a := by
  rw [kernelPage, BitVec.toNat_add, BitVec.toNat_ofNat]
  unfold VMA_OFFSET KERNEL_VMA_OFFSET
  rw [BitVec.toNat_ofNat]
  omega

theorem pageAt_kernelPage (a j : Nat) : pageAt (kernelPage a) j = kernelPage (a + PAGE_SIZE * j) := by
  unfold pageAt kernelPage
  rw [BitVec.add_assoc, BitVec.add_comm VMA_OFFSET, ← BitVec.add_assoc, ← BitVec.ofNat_add]

theorem kernelPage_extended {a : Nat} (small : a < 2 ^ 30) : SignExtended (kernelPage a) := by
  refine Or.inr ?_
  rw [kernelPage_toNat small]
  unfold KERNEL_VMA_OFFSET
  omega

theorem kernelPage_canonical {a : Nat} (small : a < 2 ^ 30) (aligned : a % PAGE_SIZE = 0) :
    CanonicalPage (kernelPage a) := by
  refine (kernelPage_extended small).canonical ?_
  rw [kernelPage_toNat small]
  unfold KERNEL_VMA_OFFSET PAGE_SIZE at *
  omega

theorem kernelPage_inj {a b : Nat} (ha : a < 2 ^ 30) (hb : b < 2 ^ 30)
    (same : kernelPage a = kernelPage b) : a = b := by
  have addresses := congrArg BitVec.toNat same
  rw [kernelPage_toNat ha, kernelPage_toNat hb] at addresses
  omega

theorem crossings_kernelPage {a : Nat} (small : a < 2 ^ 30) (count : Nat) :
    crossings (kernelPage a) count = (a / PAGE_SIZE + count) / 512 - a / PAGE_SIZE / 512 := by
  unfold crossings
  rw [kernelPage_toNat small]
  unfold KERNEL_VMA_OFFSET PAGE_SIZE
  omega

/-- `early_init` maps of the kernel's 1 GiB only the kernel image. -/
theorem startEntry_kernelPage {a : Nat} (small : a < 2 ^ 30) (outside : a < 0x100000 ∨ 0x200000 ≤ a) :
    startEntry (kernelPage a) = 0#64 := by
  have address := kernelPage_toNat small
  unfold KERNEL_VMA_OFFSET at address
  unfold startEntry
  rw [if_neg, if_neg]
  · rintro ⟨low, -⟩
    simp only [path, List.cons.injEq, index_eq, address] at low
    omega
  · rintro ⟨image, upper⟩
    simp only [path, List.cons.injEq, index_eq, address] at image upper
    omega

theorem kernelPage_ne_imagePage {a i : Nat} (small : a < 2 ^ 30) (hi : i < 256)
    (outside : a < 0x100000 ∨ 0x200000 ≤ a) : kernelPage a ≠ imagePage i := by
  intro same
  have addresses := congrArg BitVec.toNat same
  rw [kernelPage_toNat small, imagePage_toNat hi] at addresses
  unfold KERNEL_VMA_OFFSET KERNEL_VMA_START PAGE_SIZE at addresses
  omega

theorem Rooted.hasTable (rooted : Rooted y.toSymbols s) {a : Nat} (small : a < 2 ^ 30) :
    s.HasTable (kernelPage a) := by
  have address := kernelPage_toNat small
  unfold KERNEL_VMA_OFFSET at address
  have top : index (kernelPage a) 3 = 0x1FF := by
    rw [index_eq, address]
    omega
  have second : index (kernelPage a) 2 = 0x1FE := by
    rw [index_eq, address]
    omega
  refine ⟨y.kernelPml2, ?_⟩
  rw [top, second]
  exact rooted.kernel

theorem Maps.rooted {p v attrs : Word} {count : Nat} (maps : Maps p v attrs count s s')
    (rooted : Rooted y.toSymbols s) : Rooted y.toSymbols s' := by
  constructor
  · rw [maps.base]
    exact maps.walks _ _ rooted.kernel
  · rw [maps.base]
    exact maps.walks _ _ rooted.low

/-- Mapping a range into kernel space completes if its pages are not present and tables
are left for the 2 MiB areas it enters. -/
theorem Wf.identityMapPageRange_ok (wf : Wf y s level) (rooted : Rooted y.toSymbols s) {a n : Nat}
    {size : Word} (attrs : Word) (rounded : alignTo size.toNat PAGE_SIZE = PAGE_SIZE * n)
    (aligned : a % PAGE_SIZE = 0) (inside : a + PAGE_SIZE * n < 2 ^ 30)
    (absent : ∀ j, j < n → s.entryOf (kernelPage (a + PAGE_SIZE * j)) &&& PRESENT = 0#64)
    (supply : 1 + crossings (kernelPage a) n ≤ s.tablesLeft) :
    ∃ s', identityMapPageRangeIntoKernelSpace y.toSymbols (BitVec.ofNat 64 a) size attrs s =
        .ok (kernelPage a, s') ∧ s.tablesLeft ≤ s'.tablesLeft + (1 + crossings (kernelPage a) n) := by
  have small : a < 2 ^ 30 := by omega
  have addressP : (BitVec.ofNat 64 a).toNat = a := by
    rw [BitVec.toNat_ofNat]
    omega
  have endP : (BitVec.ofNat 64 a + BitVec.ofNat 64 (PAGE_SIZE * n)).toNat = a + PAGE_SIZE * n := by
    rw [← BitVec.ofNat_add, BitVec.toNat_ofNat]
    omega
  have addressV := kernelPage_toNat small
  have canonical := kernelPage_canonical small aligned
  have alignedEnd : (kernelPage a + BitVec.ofNat 64 (PAGE_SIZE * n)).toNat % PAGE_SIZE = 0 :=
    pageAt_aligned canonical.aligned n
  have count : ((BitVec.ofNat 64 a + BitVec.ofNat 64 (PAGE_SIZE * n)).toNat -
      (BitVec.ofNat 64 a).toNat) / PAGE_SIZE = n := by
    rw [endP, addressP]
    unfold PAGE_SIZE
    omega
  have sizes : BitVec.ofNat 64 a + BitVec.ofNat 64 (PAGE_SIZE * n) - BitVec.ofNat 64 a =
      kernelPage a + BitVec.ofNat 64 (PAGE_SIZE * n) - kernelPage a := by
    rw [BitVec.add_comm, BitVec.add_sub_cancel, BitVec.add_comm, BitVec.add_sub_cancel]
  obtain ⟨it, s₁, got, left₁⟩ := wf.get_ok (rooted.hasTable small) (by omega)
  obtain ⟨level₁, wf₁, grows, route⟩ := wf.get_route (kernelPage a) got
  have absent₁ : ∀ j, j < n → s₁.entryOf (pageAt (kernelPage a) j) &&& PRESENT = 0#64 := by
    intro j hj
    rw [grows.entries, pageAt_kernelPage]
    exact absent j hj
  have extended : ∀ j, j < n → SignExtended (pageAt (kernelPage a) j) := by
    intro j hj
    rw [pageAt_kernelPage]
    exact kernelPage_extended (by unfold PAGE_SIZE at *; omega)
  obtain ⟨s', looped, left'⟩ := wf₁.mapPagesFrom_ok attrs route (p := BitVec.ofNat 64 a)
    (by rw [addressP]; exact aligned) canonical.aligned extended
    (by rw [addressV]; unfold KERNEL_VMA_OFFSET PAGE_SIZE at *; omega) absent₁ (by omega)
  refine ⟨s', ?_, by omega⟩
  have alignedV : (kernelPage a).toNat % PAGE_SIZE == 0 := beq_iff_eq.mpr canonical.aligned
  have alignedP : (BitVec.ofNat 64 a).toNat % PAGE_SIZE == 0 := by
    rw [addressP, beq_iff_eq]
    exact aligned
  have alignedEndP : (BitVec.ofNat 64 a + BitVec.ofNat 64 (PAGE_SIZE * n)).toNat % PAGE_SIZE == 0 := by
    rw [endP, beq_iff_eq]
    unfold PAGE_SIZE at *
    omega
  show Paging.mapRange y.toSymbols _ _ (kernelPage a)
    (kernelPage a + BitVec.ofNat 64 (alignTo size.toNat PAGE_SIZE)) attrs s = _
  unfold Paging.mapRange
  rw [rounded, alignedV, beq_iff_eq.mpr alignedEnd, alignedP, alignedEndP, beq_iff_eq.mpr sizes]
  simp only [Bool.and_self, kassert_true, ok_bind]
  rw [got, ok_bind]
  dsimp only
  rw [count, looped]
  rfl

/-- The same for a number of pages. -/
theorem Wf.identityMapPages_ok (wf : Wf y s level) (rooted : Rooted y.toSymbols s) {a n : Nat}
    (attrs : Word) (positive : 0 < n) (aligned : a % PAGE_SIZE = 0)
    (inside : a + PAGE_SIZE * n < 2 ^ 30)
    (absent : ∀ j, j < n → s.entryOf (kernelPage (a + PAGE_SIZE * j)) &&& PRESENT = 0#64)
    (supply : 1 + crossings (kernelPage a) n ≤ s.tablesLeft) :
    ∃ s', identityMapPagesIntoKernelSpace y.toSymbols (BitVec.ofNat 64 a) n attrs s =
        .ok (kernelPage a, s') ∧ s.tablesLeft ≤ s'.tablesLeft + (1 + crossings (kernelPage a) n) := by
  have small : n < 2 ^ 51 := by
    unfold PAGE_SIZE at inside
    omega
  obtain ⟨s', done, left⟩ := wf.identityMapPageRange_ok rooted attrs (alignTo_pages small) aligned
    inside absent supply
  refine ⟨s', ?_, left⟩
  unfold identityMapPagesIntoKernelSpace
  rw [decide_eq_true positive, kassert_true, ok_bind]
  exact done

/-! ## Single pages -/

theorem Rooted.hasTable_low (rooted : Rooted y.toSymbols s) {a : Nat} (small : a < 2 ^ 30) :
    s.HasTable (BitVec.ofNat 64 a) := by
  have address : (BitVec.ofNat 64 a).toNat = a := by
    rw [BitVec.toNat_ofNat]
    omega
  have top : index (BitVec.ofNat 64 a) 3 = 0 := by
    rw [index_eq, address]
    omega
  have second : index (BitVec.ofNat 64 a) 2 = 0 := by
    rw [index_eq, address]
    omega
  refine ⟨y.identityPml2, ?_⟩
  rw [top, second]
  exact rooted.low

/-- `map_page` completes where the table of the 1 GiB is there. -/
theorem Wf.mapPage_ok (wf : Wf y s level) (rooted : Rooted y.toSymbols s) {physical : Word}
    (attrs : Word) (hasTable : s.HasTable page) (canonical : CanonicalPage page)
    (aligned : physical.toNat % PAGE_SIZE = 0) (absent : s.entryOf page &&& PRESENT = 0#64)
    (supply : 0 < s.tablesLeft) :
    ∃ r s', Paging.mapPage y.toSymbols physical page attrs s = .ok (r, s') ∧
      Rooted y.toSymbols s' ∧ s.tablesLeft ≤ s'.tablesLeft + 1 ∧
      s'.entryOf page = physical ||| attrs ||| PRESENT := by
  obtain ⟨it, s₁, got, left⟩ := wf.get_ok hasTable supply
  obtain ⟨level₁, wf₁, grows, route⟩ := wf.get_route page got
  have used := (wf₁.tree.leaf_level route.leaf).2
  have walks := wf₁.tree.walk_setLeaf (w := physical ||| attrs ||| PRESENT) used (index_lt page 0)
  have notPresent : (s₁.entryOf page &&& PRESENT != 0#64) = false := by
    rw [grows.entries, absent]
    rfl
  refine ⟨it.virtualPageAddress,
    s₁.store (slot (it.tables 0) (index page 0)) (physical ||| attrs ||| PRESENT), ?_, ⟨?_, ?_⟩, left,
    (wf₁.tree.entryOf_setLeaf (w := physical ||| attrs ||| PRESENT) route.leaf).1⟩
  · unfold Paging.mapPage
    rw [beq_iff_eq.mpr canonical.aligned, kassert_true, ok_bind, got, ok_bind]
    dsimp only
    rw [wf₁.mapPageAt route.cursor route.leaf aligned, notPresent]
    rfl
  · show walk _ (3, s₁.base) _ = _
    rw [walks, grows.base]
    exact grows.walks _ _ rooted.kernel
  · show walk _ (3, s₁.base) _ = _
    rw [walks, grows.base]
    exact grows.walks _ _ rooted.low

end Supply

end Tyleros.Paging
