import Tyleros.Paging.Translated

/-!
# The dump along runs

`early_init` puts all tables of the kernel image into the lowest 2 MiB and maps these
pages at their physical addresses, so the dump agrees with `find` at the start. It goes
on doing so as long as the pages that are mapped are sign-extended from 42 bits, the
tables that are taken from the pools are mapped at their physical addresses, and none of
the pages the dump needs is unmapped (`dump_agrees_run`).
-/

namespace Tyleros.Paging

open Tyleros.Lib

/-! ## The start -/

section Start

variable {y : Layout}

/-- At the start the dump agrees with `find`. -/
theorem earlyInit_dumpable (y : Layout) (memory : Word → Word) :
    (earlyInit y.toSymbols (image y.toSymbols memory)).Dumpable := by
  obtain ⟨level, wf⟩ := earlyInit_wf y memory
  have entries := earlyInit_entries y memory
  have root : y.kernelPml4 ∈ y.tables := by simp [Symbols.tables]
  have noDynamic := (earlyInit_pools y.toSymbols (image y.toSymbols memory)).2.1
  refine ⟨?_, ?_, fun v canonical present => ?_⟩
  · rw [wf.base]
    exact (entries.mappedAt wf.base root).1
  · rintro l t ⟨p, walked⟩ -
    have used := wf.tree.walk_level walked
    have inImage := (wf.noDynamic noDynamic).2 t (by rw [used]; exact Option.some_ne_none l)
    exact (entries.mappedAt wf.base inImage).2
  · rw [entries.entryOf wf.base, startEntry] at present
    have aligned := canonical.aligned
    have high := canonical.canonical
    have := v.isLt
    unfold PAGE_SIZE at aligned
    unfold SignExtended
    split at present
    · next kernel =>
        simp only [path, index_eq, List.cons.injEq, and_true] at kernel
        omega
    · split at present
      · next low =>
          simp only [path, index_eq, List.cons.injEq, and_true] at low
          omega
      · exact absurd rfl present

end Start

/-! ## Runs -/

/-- The pages that are mapped are sign-extended from 42 bits, the tables that are taken are
mapped at their physical addresses, and the pages of the tables in use stay. -/
def KeepsDumpable (y : Symbols) (s : State) : Op → Prop
  | .map physicalPage virtualPage attrs => SignExtended virtualPage ∧
      ∀ r s', mapPage y physicalPage virtualPage attrs s = .ok (r, s') →
        ∀ t ∈ s.pool y, t ∉ s'.pool y → s.MappedAt (t - VMA_OFFSET) (t - VMA_OFFSET)
  | .unmap virtualPage => virtualPage ≠ s.base ∧
      ∀ l t, s.Reachable (l, t) → virtualPage ≠ t - VMA_OFFSET
  | .addDynamicTables _ => True

section Runs

variable {y : Layout} {s s' : State} {level : Word → Option Nat}

theorem Wf.step_dumpable (wf : Wf y s level) (dumpable : s.Dumpable) {o : Op} (legal : Legal y s o)
    (keeps : KeepsDumpable y.toSymbols s o) (hs : (machine y.toSymbols).step s o = .ok s') :
    s'.Dumpable := by
  cases o with
  | map physicalPage virtualPage attrs =>
      obtain ⟨canonical, aligned, -, -⟩ := legal
      obtain ⟨extended, taken⟩ := keeps
      obtain ⟨⟨r, s₁⟩, mapped, done⟩ := bind_eq_ok hs
      cases done
      have links := wf.mapPage_links canonical.aligned aligned mapped
      rcases wf.mapPage attrs canonical aligned with
        ⟨e, stops, -⟩ | ⟨-, message, stops⟩ | ⟨absent, r', s₂, level', result, -, -, others, -⟩
      · rw [stops] at mapped
        cases mapped
      · rw [stops] at mapped
        cases mapped
      · obtain ⟨rfl, rfl⟩ := Prod.mk.inj (Except.ok.inj (result.symm.trans mapped))
        -- a page that was present is not the one that is mapped
        have stays : ∀ {pointer physical : Word}, s.MappedAt pointer physical →
            s₂.MappedAt pointer physical := by
          intro pointer physical there
          refine there.congr (others pointer there.canonical ?_)
          rintro rfl
          exact there.present absent
        refine ⟨?_, ?_, fun v canonical' present => ?_⟩
        · rw [links.base]
          exact stays dumpable.root
        · rintro l t ⟨q, walked⟩ lower
          rw [links.base] at walked
          rcases links.walks q _ walked with before | ⟨inPool, gone⟩
          · exact stays (dumpable.tables l t ⟨q, before⟩ lower)
          · exact stays (taken r' s₂ mapped t inPool gone)
        · by_cases same : v = virtualPage
          · rw [same]
            exact extended
          · rw [others v canonical' same] at present
            exact dumpable.extended v canonical' present
  | unmap virtualPage =>
      obtain ⟨notRoot, notTable⟩ := keeps
      have hs : Paging.unmapPage virtualPage s = .ok s' := hs
      obtain ⟨base, walks⟩ := wf.unmapPage_walks hs
      rcases wf.unmapPage legal with ⟨-, message, stops⟩ | ⟨-, s₂, result, -, cleared, others, -⟩
      · rw [stops] at hs
        cases hs
      · obtain rfl : s₂ = s' := Except.ok.inj (result.symm.trans hs)
        refine ⟨?_, ?_, fun v canonical present => ?_⟩
        · rw [base]
          exact dumpable.root.congr (others s.base dumpable.root.canonical (Ne.symm notRoot))
        · rintro l t ⟨q, walked⟩ lower
          rw [base, walks] at walked
          have there := dumpable.tables l t ⟨q, walked⟩ lower
          exact there.congr (others _ there.canonical (Ne.symm (notTable l t ⟨q, walked⟩)))
        · by_cases same : v = virtualPage
          · rw [same, cleared, unmapped_absent] at present
            exact absurd rfl present
          · rw [others v canonical same] at present
            exact dumpable.extended v canonical present
  | addDynamicTables virtualAddr =>
      cases hs
      obtain ⟨-, same⟩ := wf.addDynamicTables legal.1 legal.2
      have walks := wf.walk_addDynamicTables legal.1 legal.2
      refine ⟨dumpable.root.congr (same _).2, ?_, fun v canonical present => ?_⟩
      · rintro l t ⟨q, walked⟩ lower
        have walked : walk (Paging.addDynamicTables virtualAddr s).child (3, s.base) q = some (l, t) :=
          walked
        rw [walks q] at walked
        exact (dumpable.tables l t ⟨q, walked⟩ lower).congr (same _).2
      · rw [(same v).2] at present
        exact dumpable.extended v canonical present

/-- In every state of the kernel the dump agrees with `find` just if the tables are mapped
where it looks for them and no page beyond 42 bits is present. That is so along every run
whose steps see to it. And along every run that leaves the kernel its own pages the accesses
of `find` itself are translated to the tables. -/
theorem dump_agrees_run {memory : Word → Word} {ops : List Op}
    (legal : (machine y.toSymbols).EachStep (Legal y)
      (earlyInit y.toSymbols (image y.toSymbols memory)) ops) :
    (∀ s level, Wf y s level → (s.DumpAgrees ↔ s.Dumpable)) ∧
      (machine y.toSymbols).Always (fun s => s.DumpAgrees ↔ s.Dumpable)
        (earlyInit y.toSymbols (image y.toSymbols memory)) ops ∧
      ((machine y.toSymbols).EachStep (KeepsDumpable y.toSymbols)
          (earlyInit y.toSymbols (image y.toSymbols memory)) ops →
        (machine y.toSymbols).Always State.DumpAgrees
          (earlyInit y.toSymbols (image y.toSymbols memory)) ops) ∧
      ((machine y.toSymbols).EachStep KeepsTables
          (earlyInit y.toSymbols (image y.toSymbols memory)) ops →
        (machine y.toSymbols).Always (fun s => ∀ page, Translated.find page s = find page s)
          (earlyInit y.toSymbols (image y.toSymbols memory)) ops) := by
  obtain ⟨level, wf⟩ := earlyInit_wf y memory
  refine ⟨fun s level wf => wf.dumpAgrees, ?_, fun keeps => ?_, fun keeps => ?_⟩
  · refine Machine.always_of_inv (fun _ _ _ wf => Wf.step wf) ?_ ⟨level, wf⟩ legal
    rintro s ⟨level, wf⟩
    exact wf.dumpAgrees
  · have step : ∀ s o s', (∃ level, Wf y s level) ∧ s.Dumpable →
        Legal y s o ∧ KeepsDumpable y.toSymbols s o → (machine y.toSymbols).step s o = .ok s' →
        (∃ level, Wf y s' level) ∧ s'.Dumpable := by
      rintro s o s' ⟨⟨level, wf⟩, dumpable⟩ ⟨legal, keeps⟩ hs
      exact ⟨Wf.step ⟨level, wf⟩ legal hs, wf.step_dumpable dumpable legal keeps hs⟩
    have agrees : ∀ s, (∃ level, Wf y s level) ∧ s.Dumpable → s.DumpAgrees := by
      rintro s ⟨⟨level, wf⟩, dumpable⟩
      exact wf.dumpAgrees.mpr dumpable
    exact Machine.always_of_inv step agrees ⟨⟨level, wf⟩, earlyInit_dumpable y memory⟩
      (Machine.eachStep_and legal keeps)
  · refine Machine.always_of_inv backed_step ?_ ⟨⟨level, wf⟩, earlyInit_backed y memory⟩
      (Machine.eachStep_and legal keeps)
    rintro s ⟨⟨level, wf⟩, backed⟩
    exact backed.find_eq wf

end Runs

/-- Before the first `map_page` all tables in the pools are those of the kernel image. -/
theorem pool_start (y : Layout) (memory : Word → Word) {t : Word}
    (mem : t ∈ (earlyInit y.toSymbols (image y.toSymbols memory)).pool y.toSymbols) : t ∈ y.tables := by
  obtain ⟨left, -, noneDynamic⟩ := earlyInit_pools y.toSymbols (image y.toSymbols memory)
  rcases mem with ⟨j, hj, rfl⟩ | ⟨j, hj, -⟩
  · rw [left] at hj
    exact y.static_mem hj
  · rw [noneDynamic] at hj
    exact absurd hj (Nat.not_lt_zero j)

theorem dump_agrees_run_low :
    (machine sampleLayout.toSymbols).Always State.DumpAgrees sampleKernel
        [.map 0x300000#64 0x40000000#64 RW] ∧
      (machine sampleLayout.toSymbols).Always (fun s => ∀ page, Translated.find page s = find page s)
        sampleKernel [.map 0x300000#64 0x40000000#64 RW] := by
  obtain ⟨level, wf⟩ := earlyInit_wf sampleLayout fun _ => 0#64
  have entries := earlyInit_entries sampleLayout fun _ => 0#64
  have legal : Legal sampleLayout sampleKernel (.map 0x300000#64 0x40000000#64 RW) :=
    ⟨⟨by decide, by decide⟩, by decide, by decide, by decide⟩
  have keeps : KeepsDumpable sampleLayout.toSymbols sampleKernel (.map 0x300000#64 0x40000000#64 RW) := by
    refine ⟨Or.inl (by decide), fun r s' _ t mem _ => ?_⟩
    exact (entries.mappedAt wf.base (pool_start sampleLayout _ mem)).2
  have steps : (machine sampleLayout.toSymbols).EachStep (Legal sampleLayout)
      (earlyInit sampleLayout.toSymbols (image sampleLayout.toSymbols fun _ => 0#64))
      [.map 0x300000#64 0x40000000#64 RW] := ⟨legal, fun _ _ => trivial⟩
  obtain ⟨-, -, agrees, translated⟩ := dump_agrees_run steps
  exact ⟨agrees ⟨keeps, fun _ _ => trivial⟩, translated ⟨trivial, fun _ _ => trivial⟩⟩

/-- Two calls after which the dump does not agree: a page at 2 ^ 41 is mapped, or the page
at the physical address of a table is unmapped. -/
theorem dump_agrees_run_fails :
    ((machine sampleLayout.toSymbols).EachStep (Legal sampleLayout) sampleKernel
        [.map 0x300000#64 0x20000000000#64 RW] ∧
      ¬ (machine sampleLayout.toSymbols).Always State.DumpAgrees sampleKernel
        [.map 0x300000#64 0x20000000000#64 RW]) ∧
    (machine sampleLayout.toSymbols).EachStep (Legal sampleLayout) sampleKernel [.unmap 0x111000#64] ∧
      ¬ (machine sampleLayout.toSymbols).Always State.DumpAgrees sampleKernel [.unmap 0x111000#64] := by
  obtain ⟨level, wf⟩ := earlyInit_wf sampleLayout fun _ => 0#64
  have entries := earlyInit_entries sampleLayout fun _ => 0#64
  have upper : CanonicalPage 0x20000000000#64 := ⟨by decide, by decide⟩
  have low : CanonicalPage 0x111000#64 := ⟨by decide, by decide⟩
  have aligned : (0x300000#64).toNat % PAGE_SIZE = 0 := by decide
  refine ⟨⟨⟨⟨upper, by decide, by decide, by decide⟩, fun _ _ => trivial⟩, fun always => ?_⟩,
    ⟨low, fun _ _ => trivial⟩, fun always => ?_⟩
  · have completes : completesWith (mapPage sampleLayout.toSymbols 0x300000#64 0x20000000000#64 RW
        sampleKernel) (fun _ => true) = true := by decide +kernel
    obtain ⟨⟨r, s'⟩, done, -⟩ := exists_of_completesWith completes
    have hs : (machine sampleLayout.toSymbols).step sampleKernel
        (.map 0x300000#64 0x20000000000#64 RW) = .ok s' := by
      show (mapPage sampleLayout.toSymbols 0x300000#64 0x20000000000#64 RW sampleKernel >>= _) = _
      rw [done]
      rfl
    rcases wf.mapPage RW upper aligned with
      ⟨e, stops, -⟩ | ⟨-, message, stops⟩ | ⟨-, r', s₂, level', result, wf', entry, -⟩
    · cases stops.symm.trans done
    · cases stops.symm.trans done
    · obtain ⟨-, rfl⟩ := Prod.mk.inj (Except.ok.inj (result.symm.trans done))
      have dumpable := wf'.dumpAgrees.mp (always.2 s₂ hs)
      have extended := dumpable.extended _ upper (by rw [entry]; exact mapped_present _ _)
      exact absurd extended (by unfold SignExtended; decide)
  · have table : sampleLayout.kernelPml3 = 0x111000#64 + VMA_OFFSET := by decide
    have pml3 := State.child_of_tableEntry (l := 2)
      (sampleLayout.pointer (sampleLayout.named_mem (t := sampleLayout.kernelPml3) (by simp)))
      (by decide) (entries.kernelPml4 0x1FF (by decide))
    have mapped := (entries.mappedAt wf.base
      (sampleLayout.named_mem (t := sampleLayout.kernelPml3) (by simp))).2
    rw [table, BitVec.add_sub_cancel] at mapped
    rcases wf.unmapPage low with ⟨absent, -⟩ | ⟨-, s', done, wf', cleared, -⟩
    · exact mapped.present absent
    · obtain ⟨base, walks⟩ := wf.unmapPage_walks done
      have dumpable := wf'.dumpAgrees.mp (always.2 s' done)
      have reached : s'.Reachable (2, sampleLayout.kernelPml3) := by
        refine ⟨[0x1FF], ?_⟩
        rw [base, walks, wf.base, walk, pml3]
        rfl
      have there := dumpable.tables 2 _ reached (by decide)
      rw [table, BitVec.add_sub_cancel] at there
      have present := there.present
      rw [cleared, unmapped_absent] at present
      exact absurd rfl present

end Tyleros.Paging
