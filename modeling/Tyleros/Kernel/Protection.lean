import Tyleros.Kernel.Startup

/-!
# The protection of mapped and allocated pages

After `enable_kernel_page_protection` no page is both writable and executable, and what is
mapped with the attributes by default keeps it that way. The heap does not: the cases of
the `switch` in `alloc` fall through, so that pages of a `READ_ONLY` block are writable,
and pages of a `READ_WRITE` block are executable. `enforced_run` shows that nothing else
goes wrong.
-/

namespace Tyleros.Kernel

open Lib Paging Alloc

/-- The entry allows writing. -/
def Writable (w : Word) : Prop := w &&& PRESENT ≠ 0#64 ∧ w &&& RW ≠ 0#64

/-- No page is both writable and executable, and no page of a block that was allocated as
`READ_ONLY` is writable. -/
structure Enforced (k : State) : Prop where
  writeXorExecute : WriteXorExecute k.tables
  readOnly : ∀ b, (Protection.READ_ONLY, b) ∈ k.live → ∀ i, i < b.pages.length →
    ¬ Writable (k.tables.entryOf (BitVec.ofNat 64 (virtualPage b.base i)))

/-- Nothing but `EXEC` is allocated. -/
def AllocatesExec (_ : State) : Op → Prop
  | .alloc n _ p => n.toNat = 0 ∨ p = .EXEC
  | _ => True

section Steps

variable {y : Layout} {s s' : Paging.State}

/-- The tables are well formed, and no entry is both writable and executable. -/
structure SealedTables (y : Layout) (s : Paging.State) : Prop where
  wf : ∃ level, Wf y s level
  entries : ∀ page, Sealed (s.entryOf page)

theorem SealedTables.mapPage (tables : SealedTables y s) {physical page attrs r : Word}
    (sealing : physical.toNat % PAGE_SIZE = 0 → Sealed (physical ||| attrs ||| PRESENT))
    (done : Paging.mapPage y.toSymbols physical page attrs s = .ok (r, s')) : SealedTables y s' := by
  obtain ⟨level, wf⟩ := tables.wf
  obtain ⟨aligned, level', wf', entries⟩ := wf.mapPage_entries done
  refine ⟨⟨level', wf'⟩, fun page' => ?_⟩
  rcases entries page' with new | old
  · rw [new]
    exact sealing aligned
  · rw [old]
    exact tables.entries page'

theorem SealedTables.unmapPage (tables : SealedTables y s) {page : Word}
    (done : Paging.unmapPage page s = .ok s') : SealedTables y s' := by
  obtain ⟨level, wf⟩ := tables.wf
  obtain ⟨wf', entries⟩ := wf.unmapPage_entries done
  refine ⟨⟨level, wf'⟩, fun page' => ?_⟩
  rcases entries page' with absent | old
  · exact sealed_of_absent absent
  · rw [old]
    exact tables.entries page'

theorem SealedTables.mapRange (tables : SealedTables y s)
    {physicalStart physicalEnd virtualStart virtualEnd r : Word}
    (done : Paging.mapRange y.toSymbols physicalStart physicalEnd virtualStart virtualEnd
      DEFAULT_ATTRIBUTES s = .ok (r, s')) : SealedTables y s' := by
  obtain ⟨level, wf⟩ := tables.wf
  obtain ⟨-, -, level', wf', maps⟩ := wf.mapRange done
  exact ⟨⟨level', wf'⟩, maps.sealed tables.entries⟩

theorem SealedTables.identityMapPages (tables : SealedTables y s) {address r : Word} {n : Nat}
    (done : identityMapPagesIntoKernelSpace y.toSymbols address n DEFAULT_ATTRIBUTES s = .ok (r, s')) :
    SealedTables y s' := by
  obtain ⟨_, -, done⟩ := bind_eq_ok done
  exact tables.mapRange done

/-- The calls of the heap keep the tables sealed, if the attributes of what is mapped
do. -/
theorem SealedTables.replay (tables : SealedTables y s) {attrs : Nat → Word}
    (sealing : ∀ v (physical : Word), physical.toNat % PAGE_SIZE = 0 →
      Sealed (physical ||| attrs v ||| PRESENT))
    {calls : List Call} (done : replay y.toSymbols attrs calls s = .ok s') : SealedTables y s' := by
  induction calls generalizing s with
  | nil =>
      cases done
      exact tables
  | cons call rest ih =>
      cases call with
      | mapPage physicalPage virtualPage =>
          obtain ⟨⟨r, s₁⟩, mapped, done⟩ := bind_eq_ok done
          exact ih (tables.mapPage (sealing virtualPage _) mapped) done
      | unmapPage virtualPage =>
          obtain ⟨s₁, unmapped, done⟩ := bind_eq_ok done
          exact ih (tables.unmapPage unmapped) done
      | getPhysicalPage page => exact ih tables done
      | freePhysicalPage page => exact ih tables done
      | getVirtualPages address size => exact ih tables done
      | freeVirtualPages address size => exact ih tables done

/-- The attributes of an `EXEC` block do not allow writing. -/
theorem sealed_exec {physical : Word} (aligned : physical.toNat % PAGE_SIZE = 0) :
    Sealed (physical ||| Protection.EXEC.attrs ||| PRESENT) := by
  have clear : physical.getLsbD 1 = false := getLsbD_of_aligned aligned (by decide)
  rw [sealed_iff, BitVec.getLsbD_or (i := 1), BitVec.getLsbD_or (i := 1), clear]
  simp [Protection.attrs, PRESENT]

theorem sealed_attrsOf {block : Option Block} (exec : ∀ b, block = some b → b.attrs = Protection.EXEC.attrs)
    (v : Nat) {physical : Word} (aligned : physical.toNat % PAGE_SIZE = 0) :
    Sealed (physical ||| attrsOf block v ||| PRESENT) := by
  cases block with
  | none => exact sealed_default physical
  | some b =>
      unfold attrsOf
      dsimp only
      split
      · rw [exec b rfl]
        exact sealed_exec aligned
      · exact sealed_default physical

theorem sealed_attrsOf_none (v : Nat) {physical : Word} (_ : physical.toNat % PAGE_SIZE = 0) :
    Sealed (physical ||| attrsOf none v ||| PRESENT) := sealed_default physical

/-- `memory::finish_init` maps with the attributes by default. -/
theorem SealedTables.memoryFinishInit (tables : SealedTables y s) {c : Contents}
    {memoryMap : List MemoryMap.Entry} {k : State}
    (done : memoryFinishInit y.toSymbols c memoryMap s = .ok k) :
    SealedTables y k.tables ∧ k.live = [] := by
  obtain ⟨⟨pma, s₁⟩, early, done⟩ := bind_eq_ok done
  have tables₁ : SealedTables y s₁ := by
    obtain ⟨⟨pma', s'⟩, bitmap, early⟩ := bind_eq_ok early
    obtain ⟨_, -, early⟩ := bind_eq_ok early
    obtain ⟨-, rfl⟩ := Prod.mk.inj (Except.ok.inj early)
    cases memoryMap with
    | nil => cases bitmap
    | cons e rest =>
        obtain ⟨⟨r, s''⟩, mapped, ended⟩ := bind_eq_ok bitmap
        obtain ⟨-, rfl⟩ := Prod.mk.inj (Except.ok.inj ended)
        exact tables.identityMapPages mapped
  dsimp only at done
  obtain ⟨⟨pma₂, vma, s₂⟩, list, done⟩ := bind_eq_ok done
  have tables₂ : SealedTables y s₂ := by
    obtain ⟨⟨page, pma'⟩, -, list⟩ := bind_eq_ok list
    obtain ⟨⟨r, s'⟩, mapped, list⟩ := bind_eq_ok list
    obtain ⟨_, -, list⟩ := bind_eq_ok list
    obtain ⟨vma', -, list⟩ := bind_eq_ok list
    obtain ⟨-, rest⟩ := Prod.mk.inj (Except.ok.inj list)
    obtain ⟨-, rfl⟩ := Prod.mk.inj rest
    exact tables₁.identityMapPages mapped
  obtain ⟨heap, -, done⟩ := bind_eq_ok done
  obtain ⟨s₃, replayed, done⟩ := bind_eq_ok done
  cases done
  exact ⟨tables₂.replay (fun v physical => sealed_attrsOf_none v) replayed, rfl⟩

/-- A block has the attributes of its protection. -/
theorem alloc_attrs {heap heap' : Alloc.State Pma.State Vma.State} {n alignment : Nat} {p : Protection}
    {block : Option Block} (done : Alloc.alloc kernelSuppliers n alignment p heap = .ok (block, heap')) :
    ∀ b, block = some b → n ≠ 0 ∧ b.attrs = p.attrs := by
  rintro b rfl
  unfold Alloc.alloc at done
  split at done
  · cases done
  · next nonzero =>
      split at done
      · cases done
      · obtain ⟨⟨base, s₁⟩, -, done⟩ := bind_eq_ok done
        obtain ⟨⟨node, s₂⟩, -, done⟩ := bind_eq_ok done
        obtain ⟨pagesNeeded, -, done⟩ := bind_eq_ok done
        obtain ⟨⟨pages, s₃⟩, -, done⟩ := bind_eq_ok done
        obtain ⟨s₄, -, done⟩ := bind_eq_ok done
        obtain ⟨s₅, -, done⟩ := bind_eq_ok done
        obtain ⟨eq, -⟩ := Prod.mk.inj (Except.ok.inj done)
        cases eq
        exact ⟨nonzero, rfl⟩

end Steps

/-! ## Runs -/

section Runs

variable {y : Layout} {k k' : State}

/-- What a run keeps that allocates nothing but `EXEC`. -/
structure ExecOnly (y : Layout) (k : State) : Prop where
  tables : SealedTables y k.tables
  live : ∀ e ∈ k.live, e.1 = Protection.EXEC

theorem ExecOnly.step (inv : ExecOnly y k) {o : Op} (guard : AllocatesExec k o)
    (hs : (machine y.toSymbols).step k o = .ok k') : ExecOnly y k' := by
  cases o with
  | mapPage physicalPage virtualPage =>
      obtain ⟨⟨r, s⟩, mapped, hs⟩ := bind_eq_ok hs
      cases hs
      exact ⟨inv.tables.mapPage (fun _ => sealed_default physicalPage) mapped, inv.live⟩
  | mapRange physicalStart physicalEnd virtualStart virtualEnd =>
      obtain ⟨⟨r, s⟩, mapped, hs⟩ := bind_eq_ok hs
      cases hs
      exact ⟨inv.tables.mapRange mapped, inv.live⟩
  | finishInit c memoryMap =>
      obtain ⟨tables, none_⟩ := inv.tables.memoryFinishInit hs
      refine ⟨tables, fun e mem => ?_⟩
      rw [none_] at mem
      exact absurd mem List.not_mem_nil
  | alloc n alignment p =>
      obtain ⟨⟨block, heap⟩, allocated, hs⟩ := bind_eq_ok hs
      obtain ⟨s, followed, hs⟩ := bind_eq_ok hs
      cases hs
      have exec : ∀ b, block = some b → p = .EXEC := fun b eq =>
        guard.resolve_left (alloc_attrs allocated b eq).1
      refine ⟨inv.tables.replay (fun v physical => sealed_attrsOf (fun b eq => ?_) v) followed,
        fun e mem => ?_⟩
      · rw [(alloc_attrs allocated b eq).2, exec b eq]
      · rcases List.mem_append.mp mem with new | old
        · obtain ⟨b, eq, rfl⟩ := Option.map_eq_some_iff.mp (Option.mem_toList.mp new)
          exact exec b eq
        · exact inv.live e old
  | free q =>
      obtain ⟨heap, -, hs⟩ := bind_eq_ok hs
      obtain ⟨s, followed, hs⟩ := bind_eq_ok hs
      cases hs
      refine ⟨inv.tables.replay (fun v physical => sealed_attrsOf_none v) followed, fun e mem => ?_⟩
      exact inv.live e (List.mem_of_mem_eraseP mem)

theorem ExecOnly.enforced (inv : ExecOnly y k) : Enforced k := by
  obtain ⟨level, wf⟩ := inv.tables.wf
  refine ⟨wf.writeXorExecute.mpr inv.tables.entries, fun b mem => ?_⟩
  have exec := inv.live _ mem
  cases exec

/-- However pages are mapped with the attributes by default after the kernel's own pages
have been protected, and blocks allocated and freed: as long as nothing but `EXEC` is
allocated, no page is both writable and executable, and no `READ_ONLY` block is
writable. -/
theorem enforced_run {z : Sections} {kernelStackBase : Word} {memory : Word → Word}
    {s : Paging.State} {heap : Alloc.State Pma.State Vma.State} {ops : List Op}
    (booted : Paging.boot y.toSymbols z kernelStackBase memory = .ok s)
    (guard : (machine y.toSymbols).EachStep AllocatesExec ⟨s, heap, []⟩ ops) :
    (machine y.toSymbols).Always Enforced ⟨s, heap, []⟩ ops := by
  obtain ⟨level, wf, -, sealed⟩ := Paging.boot_spec booted
  have start : ExecOnly y ⟨s, heap, []⟩ :=
    ⟨⟨⟨level, wf⟩, sealed⟩, fun e mem => absurd mem List.not_mem_nil⟩
  exact Machine.always_of_inv (fun _ _ _ inv guard hs => inv.step guard hs)
    (fun _ inv => inv.enforced) start guard

/-- The allocators before `memory::finish_init`. -/
def noHeap : Alloc.State Pma.State Vma.State :=
  ⟨samplePma, ⟨zeroContents.nodes, 0, 0⟩, ⟨fun _ => none, zeroContents.bytes, false⟩, 0, []⟩

/-- The first block of a page. -/
def sampleBlock (p : Protection) : Block :=
  ⟨0x201010, 0x201000, PAGE_SIZE, 8, p.attrs, 0x200018, [0x303000]⟩

theorem alloc_sample {heap : Alloc.State Pma.State Vma.State} (started : sampleHeap = .ok heap)
    (p : Protection) :
    ∃ heap', Alloc.alloc kernelSuppliers 1 8 p heap = .ok (some (sampleBlock p), heap') ∧
      heap'.calls.drop heap.calls.length = [.getVirtualPages 0x201000 PAGE_SIZE,
        .getPhysicalPage 0x303000, .mapPage 0x303000 0x201000] := by
  have evaluated : completesWith sampleHeap (fun heap =>
      [Protection.READ_ONLY, Protection.READ_WRITE, Protection.EXEC].all fun p =>
      completesWith (Alloc.alloc kernelSuppliers 1 8 p heap) fun r =>
      r.1 == some (sampleBlock p) && r.2.calls.drop heap.calls.length ==
        [.getVirtualPages 0x201000 PAGE_SIZE, .getPhysicalPage 0x303000,
          .mapPage 0x303000 0x201000]) = true := by
    decide +kernel
  obtain ⟨heap', started', tests⟩ := exists_of_completesWith evaluated
  obtain rfl := Except.ok.inj (started.symm.trans started')
  have listed : p ∈ [Protection.READ_ONLY, Protection.READ_WRITE, Protection.EXEC] := by
    cases p <;> decide
  have test := List.all_eq_true.mp tests p listed
  obtain ⟨⟨block, after⟩, allocated, tests⟩ := exists_of_completesWith test
  obtain ⟨isBlock, calls⟩ := Bool.and_eq_true_iff.mp tests
  obtain rfl := beq_iff_eq.mp isBlock
  exact ⟨after, allocated, beq_iff_eq.mp calls⟩

/-- The kernel starts and allocates a first block. -/
theorem boot_alloc_sample : ∃ s,
    Paging.boot sampleLayout.toSymbols Pma.smallSections KERNEL_STACK (fun _ => 0#64) = .ok s ∧
      ∀ p, ∃ s' heap', (machine sampleLayout.toSymbols).run ⟨s, noHeap, []⟩
          [.finishInit zeroContents sampleMap, .alloc 1 8 p] =
          .ok ⟨s', heap', [(p, sampleBlock p)]⟩ ∧
        Ready sampleLayout (insert (BitVec.ofNat 64 0x201000) sampleTaken) 4 s' ∧
        s'.entryOf (BitVec.ofNat 64 0x201000) = BitVec.ofNat 64 0x303000 ||| p.attrs ||| PRESENT := by
  obtain ⟨s, level, booted, protected_⟩ :=
    boot_completes sampleLayout Pma.smallSections (fun _ => 0#64) (by decide)
  obtain ⟨k, finished, started, none_, ready⟩ := memoryFinishInit_sample (Ready.start protected_)
  refine ⟨s, booted, fun p => ?_⟩
  obtain ⟨heap', allocated, calls⟩ := alloc_sample started p
  obtain ⟨r, s', mapped, ready', entry⟩ := ready.mapPage (m := 4) 0x303000 (v := 0x201000)
    p.attrs (by decide) (by decide) (by decide) (by decide) sampleTaken_next
  refine ⟨s', heap', ?_, ready', entry⟩
  have first : (machine sampleLayout.toSymbols).step ⟨s, noHeap, []⟩
      (.finishInit zeroContents sampleMap) = .ok k := finished
  have second : (machine sampleLayout.toSymbols).step k (.alloc 1 8 p) =
      .ok ⟨s', heap', [(p, sampleBlock p)]⟩ := by
    show (Alloc.alloc kernelSuppliers 1 8 p k.heap >>= _) = _
    rw [allocated, ok_bind]
    dsimp only
    unfold follow
    rw [calls]
    simp only [replay]
    show ((Paging.mapPage sampleLayout.toSymbols (BitVec.ofNat 64 0x303000)
      (BitVec.ofNat 64 0x201000) p.attrs k.tables >>= _) >>= _) = _
    rw [mapped, none_]
    rfl
  rw [Machine.run, first]
  dsimp only
  rw [Machine.run, second]
  rfl

/-- The kernel starts, a block to be executed is allocated, and one more page is mapped. -/
theorem enforced_run_mapped : ∃ s k,
    Paging.boot sampleLayout.toSymbols Pma.smallSections KERNEL_STACK (fun _ => 0#64) = .ok s ∧
      (machine sampleLayout.toSymbols).run ⟨s, noHeap, []⟩
        [.finishInit zeroContents sampleMap, .alloc 1 8 .EXEC, .mapPage 0x304000#64 0x202000#64] =
        .ok k ∧
      k.live = [(.EXEC, sampleBlock .EXEC)] ∧
      (machine sampleLayout.toSymbols).Always Enforced ⟨s, noHeap, []⟩
        [.finishInit zeroContents sampleMap, .alloc 1 8 .EXEC,
          .mapPage 0x304000#64 0x202000#64] := by
  obtain ⟨s, booted, allocates⟩ := boot_alloc_sample
  obtain ⟨s₁, heap, ran, ready, -⟩ := allocates .EXEC
  have fresh : BitVec.ofNat 64 0x202000 ∉ insert (BitVec.ofNat 64 0x201000) sampleTaken := by
    rintro (same | first | (none_ | mem) | mem)
    · exact absurd same (by decide)
    · exact absurd first (by decide)
    · exact none_
    · exact low_not_mem (by decide) (by decide) mem
    · exact low_not_mem (by decide) (by decide) mem
  obtain ⟨r, s', mapped, -, -⟩ := ready.mapPage (m := 3) 0x304000 (v := 0x202000)
    DEFAULT_ATTRIBUTES (by decide) (by decide) (by decide) (by decide) fresh
  refine ⟨s, ⟨s', heap, [(.EXEC, sampleBlock .EXEC)]⟩, booted, ?_, rfl, enforced_run booted ?_⟩
  · have third : (machine sampleLayout.toSymbols).step ⟨s₁, heap, [(.EXEC, sampleBlock .EXEC)]⟩
        (.mapPage 0x304000#64 0x202000#64) = .ok ⟨s', heap, [(.EXEC, sampleBlock .EXEC)]⟩ := by
      show (Paging.mapPage sampleLayout.toSymbols 0x304000#64 0x202000#64 DEFAULT_ATTRIBUTES s₁ >>=
        _) = _
      rw [mapped]
      rfl
    show (machine sampleLayout.toSymbols).run ⟨s, noHeap, []⟩
      ([.finishInit zeroContents sampleMap, .alloc 1 8 .EXEC] ++
        [.mapPage 0x304000#64 0x202000#64]) = _
    rw [Machine.run_append ran, Machine.run, third]
    rfl
  · exact ⟨trivial, fun _ _ => ⟨Or.inr rfl, fun _ _ => ⟨trivial, fun _ _ => trivial⟩⟩⟩

/-- The first block that is allocated, be it `READ_ONLY` or `READ_WRITE`. -/
theorem alloc_not_enforced : ∃ s,
    Paging.boot sampleLayout.toSymbols Pma.smallSections KERNEL_STACK (fun _ => 0#64) = .ok s ∧
      ∀ p, p ≠ Protection.EXEC → ∃ k, (machine sampleLayout.toSymbols).run ⟨s, noHeap, []⟩
        [.finishInit zeroContents sampleMap, .alloc 1 8 p] = .ok k ∧ ¬ Enforced k := by
  obtain ⟨s, booted, allocates⟩ := boot_alloc_sample
  refine ⟨s, booted, fun p notExec => ?_⟩
  obtain ⟨s', heap', ran, ready', entry⟩ := allocates p
  refine ⟨⟨s', heap', [(p, sampleBlock p)]⟩, ran, fun enforced => ?_⟩
  cases p with
  | READ_ONLY =>
      refine enforced.readOnly _ List.mem_cons_self 0 Nat.one_pos ?_
      show Writable (s'.entryOf (BitVec.ofNat 64 0x201000))
      rw [entry]
      unfold Writable
      decide
  | READ_WRITE =>
      obtain ⟨level', wf⟩ := ready'.since.wf
      have sealed := wf.writeXorExecute.mp enforced.writeXorExecute (BitVec.ofNat 64 0x201000)
      rw [entry] at sealed
      exact absurd sealed (by unfold Sealed; decide)
  | EXEC => exact notExec rfl

end Runs

end Tyleros.Kernel
