import Tyleros.Paging.Translated
import Tyleros.Paging.Demand

/-!
# The translation is a partial map

After every run of `map_page` and `unmap_page` the tables form a tree, and each call changes
the entry of one page (`partial_map_run`). The calls are executed through the tables
themselves: a call that unmaps the page of a table is the last one that completes
(`unmapped_root_faults`).
-/

namespace Tyleros.Paging

open Tyleros.Lib

/-- The processor finds the same entry for a page in both states, and so does `find`; where
a table was missing, there may be an empty entry now. -/
def Kept (s s' : State) (page : Word) : Prop :=
  s'.entryOf page = s.entryOf page ∧ ∃ entry entry', Translated.pageEntry page s = .ok entry ∧
    Translated.pageEntry page s' = .ok entry' ∧
      (entry' = entry ∨ entry = none ∧ entry' = some 0#64)

/-- Every call behaves as an update of a partial map at one page: mapping a page
that is not present completes unless fewer tables are left than are missing on the way to
it, and tables handed out on the way are all zero; unmapping makes the page not present. -/
def PartialMap (y : Symbols) (s : State) : Op → Prop
  | .map physicalPage virtualPage attrs =>
      (∀ n it s', n ≤ 3 →
        Translated.getLevels y n (Iterator.ofAddress s.base virtualPage) s = .ok (it, s') →
        ∀ t ∈ s'.pool y, ∀ i, i < 512 → s'.entry t i = 0#64) ∧
      (s.entryOf virtualPage &&& PRESENT = 0#64 →
        (∃ e, Translated.mapPage y physicalPage virtualPage attrs s = .error e ∧ Exhausted e ∧
          s.tablesLeft < (s.missing (tablePaths virtualPage)).card) ∨
        ∃ r s', Translated.mapPage y physicalPage virtualPage attrs s = .ok (r, s') ∧
          (∀ offset, offset < PAGE_SIZE →
            Translated.getPhysicalAddress (virtualPage + BitVec.ofNat 64 offset) s' =
              .ok (physicalPage + BitVec.ofNat 64 offset)) ∧
          ∀ page, CanonicalPage page → page ≠ virtualPage → Kept s s' page)
  | .unmap virtualPage => s.entryOf virtualPage &&& PRESENT ≠ 0#64 →
      ∃ s', Translated.unmapPage virtualPage s = .ok s' ∧
        s'.entryOf virtualPage &&& PRESENT = 0#64 ∧
        ∀ page, CanonicalPage page → page ≠ virtualPage → Kept s s' page
  | .addDynamicTables virtualAddr => ∃ s', Translated.addDynamicTables virtualAddr s = .ok s' ∧
      ∀ page, Kept s s' page

section Runs

variable {y : Layout} {s s' : State} {level level' : Word → Option Nat} {o : Op} {page : Word}

theorem Wf.kept (wf : Wf y s level) (wf' : Wf y s' level') (backed : Backed y.toSymbols s)
    (backed' : Backed y.toSymbols s') (entries : s'.entryOf page = s.entryOf page)
    (leaves : ∀ n, s.leaf page = some n → s'.leaf page = some n) : Kept s s' page := by
  have before := (backed.pageEntry_eq wf page).trans (wf.tree.pageEntry page)
  have after := (backed'.pageEntry_eq wf' page).trans (wf'.tree.pageEntry page)
  refine ⟨entries, _, _, before, after, ?_⟩
  rw [entries]
  cases reached : s.leaf page with
  | some n =>
      rw [leaves n reached]
      exact Or.inl rfl
  | none =>
      rw [State.entryOf_of_missing reached]
      cases s'.leaf page with
      | none => exact Or.inl rfl
      | some n => exact Or.inr ⟨rfl, rfl⟩

/-- `map_page` on a page that is not present stops only where a table on the way to it is
missing that is not left. -/
theorem Wf.mapPage_short (wf : Wf y s level) {physical attrs : Word} {e : Stop}
    (aligned : page.toNat % PAGE_SIZE = 0) (aligned' : physical.toNat % PAGE_SIZE = 0)
    (absent : s.entryOf page &&& PRESENT = 0#64)
    (stops : Paging.mapPage y.toSymbols physical page attrs s = .error e) :
    s.tablesLeft < (s.missing (tablePaths page)).card := by
  have whole := wf.mapPage_reach attrs aligned aligned'
  rw [stops] at whole
  rcases wf.reach_pays (Finset.Subset.refl (tablePaths page)) with
    ⟨e', -, short⟩ | ⟨s₁, level₁, reached, wf₁, grows, -, there⟩
  · exact short
  · obtain ⟨⟨l, t⟩, found⟩ := Option.ne_none_iff_exists'.mp there
    obtain ⟨rfl, -⟩ := wf₁.tree.leaf_level found
    have notPresent : (s₁.entryOf page &&& PRESENT != 0#64) = false := by
      rw [grows.entries, absent]
      rfl
    rw [reached, ok_bind, wf₁.mapPage_there found attrs aligned aligned', notPresent] at whole
    cases whole

theorem Wf.partialMap (wf : Wf y s level) (backed : Backed y.toSymbols s) (legal : Legal y s o)
    (keeps : KeepsTables s o) : PartialMap y.toSymbols s o := by
  cases o with
  | map physicalPage virtualPage attrs =>
      have unfolded := legal
      obtain ⟨canonical, aligned, small, inside⟩ := unfolded
      refine ⟨fun n it s' hn result t fresh i hi => ?_, fun absent => ?_⟩
      · rw [(backed.getLevels_eq wf virtualPage hn).1] at result
        rcases wf.getLevels virtualPage hn with
          ⟨e, stops, -⟩ | ⟨it', c, s₁, level', result', wf', -⟩
        · rw [stops] at result
          cases result
        · rw [result'] at result
          cases result
          exact wf'.tree.zero t i fresh hi
      · rw [backed.mapPage_eq wf]
        rcases wf.mapPage attrs canonical aligned with
          ⟨e, stops, why⟩ | ⟨present, -⟩ | ⟨-, r, s₁, level', result, wf', entry, others, leaves⟩
        · exact Or.inl ⟨e, stops, why, wf.mapPage_short canonical.aligned aligned absent stops⟩
        · exact absurd absent present
        · have done : (machine y.toSymbols).step s (.map physicalPage virtualPage attrs) = .ok s₁ := by
            show (Paging.mapPage y.toSymbols physicalPage virtualPage attrs s >>= _) = _
            rw [result]
            rfl
          have backed' := backed.step wf legal keeps done
          refine Or.inr ⟨r, s₁, result, fun offset inPage => ?_, fun page canonical' ne => ?_⟩
          · rw [backed'.getPhysicalAddress_eq wf',
              wf'.tree.getPhysicalAddress canonical (by rw [entry]; exact mapped_present _ _) inPage,
              entry, mapped_address aligned small inside]
          · exact wf.kept wf' backed backed' (others page canonical' ne) (leaves page)
  | unmap virtualPage =>
      intro present
      rw [backed.unmapPage_eq wf]
      rcases wf.unmapPage legal with ⟨absent, -⟩ | ⟨-, s₁, result, wf', entry, others, leaves⟩
      · exact absurd absent present
      · have backed' := backed.step wf legal keeps (o := .unmap virtualPage) result
        refine ⟨s₁, result, ?_, fun page canonical' ne => ?_⟩
        · rw [entry, unmapped_absent]
        · exact wf.kept wf' backed backed' (others page canonical' ne)
            fun n reached => (leaves page).trans reached
  | addDynamicTables virtualAddr =>
      have backed' := backed.step wf legal keeps (o := .addDynamicTables virtualAddr) rfl
      obtain ⟨wf', same⟩ := wf.addDynamicTables legal.1 legal.2
      refine ⟨_, wf.addDynamicTables_eq legal.1 legal.2 keeps, fun page => ?_⟩
      exact wf.kept wf' backed backed' (same page).2 fun n reached => (same page).1.trans reached

/-- After `early_init` and any run of calls that leave the kernel its own pages, the page
tables form a tree and behave as a partial map. -/
theorem partial_map_run {memory : Word → Word} {ops : List Op}
    (legal : (Translated.machine y.toSymbols).EachStep (Legal y)
      (earlyInit y.toSymbols (image y.toSymbols memory)) ops)
    (keeps : (Translated.machine y.toSymbols).EachStep KeepsTables
      (earlyInit y.toSymbols (image y.toSymbols memory)) ops) :
    (Translated.machine y.toSymbols).Always (IsTree y.toSymbols)
        (earlyInit y.toSymbols (image y.toSymbols memory)) ops ∧
      (Translated.machine y.toSymbols).EachStep (PartialMap y.toSymbols)
        (earlyInit y.toSymbols (image y.toSymbols memory)) ops := by
  have guard := Machine.eachStep_and legal keeps
  have start : (∃ level, Wf y (earlyInit y.toSymbols (image y.toSymbols memory)) level) ∧
      Backed y.toSymbols (earlyInit y.toSymbols (image y.toSymbols memory)) :=
    ⟨earlyInit_wf y memory, earlyInit_backed y memory⟩
  have step : ∀ s o s', (∃ level, Wf y s level) ∧ Backed y.toSymbols s →
      Legal y s o ∧ KeepsTables s o → (Translated.machine y.toSymbols).step s o = .ok s' →
      (∃ level, Wf y s' level) ∧ Backed y.toSymbols s' := by
    rintro s o s' ⟨⟨level, wf⟩, backed⟩ guard hs
    rw [backed.step_eq wf guard.1 guard.2] at hs
    exact backed_step s o s' ⟨⟨level, wf⟩, backed⟩ guard hs
  constructor
  · refine Machine.always_of_inv step ?_ start guard
    rintro s ⟨⟨level, wf⟩, -⟩
    exact wf.isTree
  · refine Machine.eachStep_of_inv step ?_ start guard
    rintro s o ⟨⟨level, wf⟩, backed⟩ ⟨legal, keeps⟩
    exact wf.partialMap backed legal keeps

end Runs

instance (page : Word) : Decidable (CanonicalPage page) :=
  decidable_of_iff (page.toNat % PAGE_SIZE = 0 ∧
      (page.toNat < 2 ^ 47 ∨ 2 ^ 64 - 2 ^ 47 ≤ page.toNat))
    ⟨fun h => ⟨h.1, h.2⟩, fun h => ⟨h.aligned, h.canonical⟩⟩

instance (s : State) (pointer physical : Word) : Decidable (s.MappedAt pointer physical) :=
  decidable_of_iff (CanonicalPage pointer ∧ s.entryOf pointer &&& PRESENT ≠ 0#64 ∧
      s.entryOf pointer &&& ADDRESS_MASK = physical)
    ⟨fun h => ⟨h.1, h.2.1, h.2.2⟩, fun h => ⟨h.canonical, h.present, h.address⟩⟩

instance (s : State) : (o : Op) → Decidable (KeepsTables s o)
  | .map _ _ _ => isTrue trivial
  | .unmap virtualPage => inferInstanceAs (Decidable
      (¬ (KERNEL_VMA_START ≤ virtualPage.toNat ∧ virtualPage.toNat < KERNEL_VMA_END) ∧
        (s.dynamicTables ≠ 0#64 → ∀ j, j < MAX_DYNAMIC_TABLES →
          virtualPage ≠ tableAt s.dynamicTables j)))
  | .addDynamicTables virtualAddr => inferInstanceAs (Decidable (∀ j, j < MAX_DYNAMIC_TABLES →
      s.MappedAt (tableAt virtualAddr j) (tableAt virtualAddr j - VMA_OFFSET)))

/-- A page is mapped, unmapped and mapped to another physical page. -/
def remap : List Op :=
  [.map 0x300000#64 0x40000000#64 (RW ||| XD), .unmap 0x40000000#64,
    .map 0x301000#64 0x40000000#64 RW, .map 0x302000#64 0xFFFF800000000000#64 XD]

theorem partial_map_run_remap :
    (∃ s, (Translated.machine sampleLayout.toSymbols).run
        (earlyInit sampleLayout.toSymbols (image sampleLayout.toSymbols fun _ => 0#64)) remap = .ok s) ∧
      (Translated.machine sampleLayout.toSymbols).EachStep (PartialMap sampleLayout.toSymbols)
        (earlyInit sampleLayout.toSymbols (image sampleLayout.toSymbols fun _ => 0#64)) remap := by
  have low : CanonicalPage 0x40000000#64 := ⟨by decide, by decide⟩
  have high : CanonicalPage 0xFFFF800000000000#64 := ⟨by decide, by decide⟩
  have first : ∀ s, Legal sampleLayout s (.map 0x300000#64 0x40000000#64 (RW ||| XD)) :=
    fun _ => ⟨low, by decide, by decide, by decide⟩
  have third : ∀ s, Legal sampleLayout s (.map 0x301000#64 0x40000000#64 RW) :=
    fun _ => ⟨low, by decide, by decide, by decide⟩
  have fourth : ∀ s, Legal sampleLayout s (.map 0x302000#64 0xFFFF800000000000#64 XD) :=
    fun _ => ⟨high, by decide, by decide, by decide⟩
  have legal : (machine sampleLayout.toSymbols).EachStep (Legal sampleLayout)
      (earlyInit sampleLayout.toSymbols (image sampleLayout.toSymbols fun _ => 0#64)) remap :=
    ⟨first _, fun _ _ => ⟨low, fun _ _ => ⟨third _, fun _ _ => ⟨fourth _, fun _ _ => trivial⟩⟩⟩⟩
  have evaluated : completesWith ((machine sampleLayout.toSymbols).run
      (earlyInit sampleLayout.toSymbols (image sampleLayout.toSymbols fun _ => 0#64)) remap)
      (fun _ => true) = true ∧
      (machine sampleLayout.toSymbols).EachStep KeepsTables
        (earlyInit sampleLayout.toSymbols (image sampleLayout.toSymbols fun _ => 0#64)) remap := by
    decide +kernel
  obtain ⟨completes, keeps⟩ := evaluated
  obtain ⟨s, ran, -⟩ := exists_of_completesWith completes
  obtain ⟨same, guard⟩ := translated_run_eq (Machine.eachStep_and legal keeps)
  refine ⟨⟨s, same.trans ran⟩, (partial_map_run (y := sampleLayout) ?_ ?_).2⟩
  · exact Machine.EachStep.mono (fun _ _ both => both.1) guard
  · exact Machine.EachStep.mono (fun _ _ both => both.2) guard

/-! ## The end of `finish_init` -/

/-- The pages that `finish_init` has mapped can be cleared at their new addresses. -/
theorem keepsTables_finishInit {y : Layout} {s s' : State} {level : Word → Option Nat}
    (wf : Wf y s level) {physicalPages attrs r : Word} (small : physicalPages.toNat < 2 ^ 40)
    (inside : attrs &&& ~~~ ALL_MASK = 0#64)
    (done : identityMapPagesIntoKernelSpace y.toSymbols physicalPages MAX_DYNAMIC_TABLES attrs s =
      .ok (r, s')) : KeepsTables s' (.addDynamicTables r) := by
  obtain ⟨_, -, done⟩ := bind_eq_ok done
  obtain ⟨aligned, rfl, level', -, maps⟩ := wf.mapRange done
  have size : alignTo (BitVec.ofNat 64 (MAX_DYNAMIC_TABLES * PAGE_SIZE)).toNat PAGE_SIZE =
      MAX_DYNAMIC_TABLES * PAGE_SIZE := by decide
  have count : ((physicalPages + BitVec.ofNat 64 (MAX_DYNAMIC_TABLES * PAGE_SIZE)).toNat -
      physicalPages.toNat) / PAGE_SIZE = MAX_DYNAMIC_TABLES := by
    rw [BitVec.toNat_add, BitVec.toNat_ofNat]
    unfold MAX_DYNAMIC_TABLES PAGE_SIZE
    omega
  rw [size, count] at maps
  intro j hj
  have page : (pageAt physicalPages j).toNat = physicalPages.toNat + PAGE_SIZE * j := by
    rw [pageAt, BitVec.toNat_add, BitVec.toNat_ofNat]
    unfold MAX_DYNAMIC_TABLES PAGE_SIZE at *
    omega
  have entry := maps.mapped j hj
  refine ⟨maps.canonical j hj, ?_, ?_⟩
  · rw [show tableAt _ j = pageAt _ j from rfl, entry]
    exact mapped_present _ _
  · rw [show tableAt _ j = pageAt _ j from rfl, entry, mapped_address ?_ ?_ inside]
    · unfold pageAt
      bv_omega
    · rw [page]
      unfold PAGE_SIZE at *
      omega
    · rw [page]
      unfold MAX_DYNAMIC_TABLES PAGE_SIZE at *
      omega

/-! ## Calls on the kernel's own pages -/

/-- Without the page of the root no page can be mapped. -/
theorem unmapped_root_faults {y : Layout} {s : State} {level : Word → Option Nat} (wf : Wf y s level)
    (canonical : CanonicalPage s.base) (absent : s.entryOf s.base &&& PRESENT = 0#64)
    {physical page attrs : Word} (aligned : page.toNat % PAGE_SIZE = 0) :
    Translated.mapPage y.toSymbols physical page attrs s = .error (.fault "page fault") := by
  have cursor := Cursor.ofAddress s.base page
  have ptr := wf.tree.pointer wf.tree.root
  have inPage : 8 * index page 3 < PAGE_SIZE := by
    have := index_lt page 3
    unfold PAGE_SIZE
    omega
  have faults : Translated.read (Iterator.ofAddress s.base page) s = .error (.fault "page fault") := by
    have high := canonical.canonical
    rw [Translated.read, cursor.location ptr (by decide), ok_bind, State.load, State.translate, slot,
      page_of_offset canonical.aligned inPage, if_neg (by omega), if_pos absent]
    rfl
  have stops : Translated.allocateAndDescend y.toSymbols (Iterator.ofAddress s.base page) s =
      .error (.fault "page fault") := by
    have above : decide ((Iterator.ofAddress s.base page).level > 1) = true := rfl
    have bound : decide (index page 3 < NUM_PAGE_TABLE_ENTRIES) = true :=
      decide_eq_true (index_lt page 3)
    rw [Translated.allocateAndDescend, above, cursor.level, cursor.indices 3 (by decide), bound,
      cursor.exists ptr, if_pos rfl, faults]
    rfl
  unfold Translated.mapPage Translated.get
  rw [beq_iff_eq.mpr aligned, wf.allocator, Translated.getLevels, Translated.getLevels,
    Translated.getLevels, Translated.getLevels, ok_bind]
  dsimp only
  rw [stops]
  rfl

/-- A run may unmap the page of the root; the next call takes a page fault. -/
theorem unmapped_root_run : ∃ ops,
    (Translated.machine sampleLayout.toSymbols).EachStep (Legal sampleLayout)
        (earlyInit sampleLayout.toSymbols (image sampleLayout.toSymbols fun _ => 0#64)) ops ∧
      ¬ (Translated.machine sampleLayout.toSymbols).EachStep (PartialMap sampleLayout.toSymbols)
        (earlyInit sampleLayout.toSymbols (image sampleLayout.toSymbols fun _ => 0#64)) ops := by
  have canonical : CanonicalPage sampleSymbols.kernelPml4 := ⟨by decide, by decide⟩
  have low : CanonicalPage 0x40000000#64 := ⟨by decide, by decide⟩
  refine ⟨[.unmap sampleSymbols.kernelPml4, .map 0x300000#64 0x40000000#64 (RW ||| XD)],
    ⟨canonical, fun _ _ => ⟨⟨low, by decide, by decide, by decide⟩, fun _ _ => trivial⟩⟩, ?_⟩
  rintro ⟨-, rest⟩
  obtain ⟨level, wf⟩ := earlyInit_wf sampleLayout fun _ => 0#64
  have backed := earlyInit_backed sampleLayout fun _ => 0#64
  have empty : (earlyInit sampleLayout.toSymbols (image sampleLayout.toSymbols fun _ => 0#64)).entryOf
      0x40000000#64 &&& PRESENT = 0#64 := by decide +kernel
  generalize earlyInit sampleLayout.toSymbols (image sampleLayout.toSymbols fun _ => 0#64) = s at *
  have base : s.base = sampleSymbols.kernelPml4 := wf.base
  have mapped := backed.table (State.Reachable.root s)
  rw [base] at mapped
  rcases wf.unmapPage canonical with ⟨absent, -⟩ | ⟨-, s₁, result, wf₁, entry, others, -⟩
  · exact mapped.present absent
  · have step : (Translated.machine sampleLayout.toSymbols).step s (.unmap sampleSymbols.kernelPml4) =
        .ok s₁ := (backed.unmapPage_eq wf _).trans result
    obtain ⟨⟨-, maps⟩, -⟩ := rest s₁ step
    have base₁ : s₁.base = sampleSymbols.kernelPml4 := wf₁.base
    have faults : Translated.mapPage sampleLayout.toSymbols 0x300000#64 0x40000000#64 (RW ||| XD) s₁ =
        .error (.fault "page fault") := by
      refine unmapped_root_faults wf₁ ?_ ?_ low.aligned
      · rw [base₁]
        exact canonical
      · rw [base₁, entry, unmapped_absent]
    have still : s₁.entryOf 0x40000000#64 &&& PRESENT = 0#64 := by
      rw [others _ low (by decide)]
      exact empty
    rw [faults] at maps
    rcases maps still with ⟨e, stops, why, -⟩ | ⟨r, s', completes, -⟩
    · cases stops
      rcases why with why | why <;> cases why
    · cases completes

end Tyleros.Paging
