import Tyleros.Boot.PageTree

/-!
# What the boot loader maps

The result of `map_contiguous_pages`, for every state its tables can be in
(`mapContiguousPages_eq`, `mapContiguousPages_hangs`), and from it the calls that do what they
are to do.
-/

namespace Tyleros.Boot.Paging

open Fat (readU32)
open Lib

/-! ## Bits -/

section Bits

variable {v : UInt32}

/-- The attributes of a page. -/
theorem toNat_or_attributes (aligned : v.toNat % PAGE_SIZE = 0) :
    (v ||| (PAGE_PRESENT ||| PAGE_WRITE)).toNat = v.toNat + 3 := by
  have split_ : v.toNat = 2 ^ 12 * (v.toNat / 2 ^ 12) := by
    unfold PAGE_SIZE at aligned
    omega
  have sum := Nat.two_pow_add_eq_or_of_lt (show 3 < 2 ^ 12 by decide) (v.toNat / 2 ^ 12)
  rw [← split_] at sum
  rw [UInt32.toNat_or]
  exact sum.symm

theorem and_present_eq_zero_iff : v &&& PAGE_PRESENT = 0 ↔ v.toNat % 2 = 0 := by
  rw [← UInt32.toNat_inj, UInt32.toNat_and]
  show v.toNat &&& 1 = 0 ↔ _
  rw [Nat.and_one_is_mod]

theorem toNat_and_prefix : (v &&& PREFIX_MASK).toNat = v.toNat % 512 := by
  rw [UInt32.toNat_and]
  exact Nat.and_two_pow_sub_one_eq_mod v.toNat 9

/-- What is left of an entry without its attributes. -/
theorem toNat_and_not_prefix (page : v.toNat % PAGE_SIZE = 3) :
    (v &&& ~~~ PREFIX_MASK).toNat = v.toNat - 3 := by
  have apart : (v.toBitVec &&& ~~~ PREFIX_MASK.toBitVec) &&& (v.toBitVec &&& PREFIX_MASK.toBitVec) =
      0#32 := by
    apply BitVec.eq_of_getLsbD_eq
    intro i bound
    simp only [BitVec.getLsbD_and, BitVec.getLsbD_not, bound, decide_true, Bool.true_and]
    cases v.toBitVec.getLsbD i <;> cases PREFIX_MASK.toBitVec.getLsbD i <;> simp
  have whole : (v.toBitVec &&& ~~~ PREFIX_MASK.toBitVec) ||| (v.toBitVec &&& PREFIX_MASK.toBitVec) =
      v.toBitVec := by
    apply BitVec.eq_of_getLsbD_eq
    intro i bound
    simp only [BitVec.getLsbD_or, BitVec.getLsbD_and, BitVec.getLsbD_not, bound, decide_true,
      Bool.true_and]
    cases v.toBitVec.getLsbD i <;> cases PREFIX_MASK.toBitVec.getLsbD i <;> rfl
  have sum := BitVec.add_eq_or_of_and_eq_zero _ _ apart
  rw [whole] at sum
  have rest : (v.toBitVec &&& PREFIX_MASK.toBitVec).toNat = v.toNat % 512 := toNat_and_prefix
  have bound := v.toNat_lt
  have same : (v &&& ~~~ PREFIX_MASK).toNat =
      (v.toBitVec &&& ~~~ PREFIX_MASK.toBitVec).toNat := rfl
  have value : v.toBitVec.toNat = v.toNat := rfl
  unfold PAGE_SIZE at page
  rw [same]
  bv_omega

theorem toNat_shiftRight (v : UInt32) {n : UInt32} (small : n.toNat < 32) :
    (v >>> n).toNat = v.toNat / 2 ^ n.toNat := by
  rw [UInt32.toNat_shiftRight, Nat.mod_eq_of_lt small, Nat.shiftRight_eq_div_pow]

theorem toNat_shiftLeft (v : UInt32) {n : UInt32} (small : n.toNat < 32) :
    (v <<< n).toNat = v.toNat * 2 ^ n.toNat % 2 ^ 32 := by
  rw [UInt32.toNat_shiftLeft, Nat.mod_eq_of_lt small, Nat.shiftLeft_eq]

end Bits

/-! ## The indices -/

section Indices

variable (c : Call)

theorem toNat_pml1Offset : c.pml1Offset.toNat = 8 * index 0 c.virtual := by
  have low := c.edi.toNat_lt
  unfold Call.pml1Offset
  rw [toNat_shiftLeft _ (by decide), toNat_and_prefix, toNat_shiftRight _ (by decide)]
  show c.edi.toNat / 2 ^ 12 % 512 * 2 ^ 3 % 2 ^ 32 = 8 * (c.virtual / 2 ^ 12 % 512)
  unfold Call.virtual
  omega

theorem toNat_pml2Offset : c.pml2Offset.toNat = 8 * index 1 c.virtual := by
  have low := c.edi.toNat_lt
  unfold Call.pml2Offset
  rw [toNat_shiftLeft _ (by decide), toNat_and_prefix, toNat_shiftRight _ (by decide),
    toNat_shiftRight _ (by decide)]
  show c.edi.toNat / 2 ^ 12 / 2 ^ 9 % 512 * 2 ^ 3 % 2 ^ 32 = 8 * (c.virtual / 2 ^ 21 % 512)
  unfold Call.virtual
  omega

theorem toNat_pml3Offset : c.pml3Offset.toNat = 8 * index 2 c.virtual := by
  have low := c.edi.toNat_lt
  have high := c.ebx.toNat_lt
  have masked : (c.ebx &&& ((1 : UInt32) <<< 7 - 1)).toNat = c.ebx.toNat % 128 := by
    rw [UInt32.toNat_and]
    exact Nat.and_two_pow_sub_one_eq_mod c.ebx.toNat 7
  have two : (c.edi >>> 12 >>> 9 >>> 9).toNat = c.edi.toNat / 2 ^ 30 := by
    rw [toNat_shiftRight _ (by decide), toNat_shiftRight _ (by decide),
      toNat_shiftRight _ (by decide)]
    show c.edi.toNat / 2 ^ 12 / 2 ^ 9 / 2 ^ 9 = _
    omega
  have seven : ((c.ebx &&& ((1 : UInt32) <<< 7 - 1)) <<< 2).toNat = 2 ^ 2 * (c.ebx.toNat % 128) := by
    rw [toNat_shiftLeft _ (by decide), masked]
    show c.ebx.toNat % 128 * 2 ^ 2 % 2 ^ 32 = _
    omega
  have sum := Nat.two_pow_add_eq_or_of_lt (i := 2) (show c.edi.toNat / 2 ^ 30 < 2 ^ 2 by omega)
    (c.ebx.toNat % 128)
  unfold Call.pml3Offset
  rw [toNat_shiftLeft _ (by decide), UInt32.toNat_or, two, seven, Nat.or_comm, ← sum]
  show (2 ^ 2 * (c.ebx.toNat % 128) + c.edi.toNat / 2 ^ 30) * 2 ^ 3 % 2 ^ 32 =
    8 * (c.virtual / 2 ^ 30 % 512)
  unfold Call.virtual
  omega

/-- The PML4 index is taken from the bits 46 to 54. -/
theorem toNat_pml4Offset : c.pml4Offset.toNat = 8 * (c.virtual / 2 ^ 46 % 512) := by
  have low := c.edi.toNat_lt
  have masked : (c.ebx.toNat / 2 ^ 7 &&& PML4_MASK.toNat) / 2 ^ 7 = c.ebx.toNat / 2 ^ 14 % 512 := by
    rw [← Nat.shiftRight_eq_div_pow, Nat.shiftRight_and_distrib, Nat.shiftRight_eq_div_pow]
    exact (Nat.and_two_pow_sub_one_eq_mod _ 9).trans (by omega)
  unfold Call.pml4Offset
  rw [toNat_shiftLeft _ (by decide), toNat_shiftRight _ (by decide), UInt32.toNat_and,
    toNat_shiftRight _ (by decide)]
  show (c.ebx.toNat / 2 ^ 7 &&& PML4_MASK.toNat) / 2 ^ 7 * 2 ^ 3 % 2 ^ 32 = _
  rw [masked]
  unfold Call.virtual
  omega

end Indices

/-! ## One level -/

/-- `page_tables_end` behind one more page. -/
theorem toNat_end {t : Tables} (low : t.pageTablesEnd.toNat + PAGE_SIZE ≤ 2 ^ 20) :
    (t.pageTablesEnd + UInt32.ofNat PAGE_SIZE).toNat = t.pageTablesEnd.toNat + PAGE_SIZE := by
  rw [UInt32.toNat_add]
  show (t.pageTablesEnd.toNat + 4096) % 2 ^ 32 = t.pageTablesEnd.toNat + 4096
  unfold PAGE_SIZE at low
  omega

section Level

variable {t : Tables} {table : Nat} {i : Fin 512}

/-- A page that is allocated is blank, and nothing else has changed. -/
theorem allocatePage_mem (low : t.pageTablesEnd.toNat + PAGE_SIZE ≤ 2 ^ 20) (x : Nat) :
    (allocatePage t).2.mem x =
      if t.pageTablesEnd.toNat ≤ x ∧ x < t.pageTablesEnd.toNat + PAGE_SIZE then 0 else t.mem x := by
  have below : t.pageTablesEnd.toNat < 2 ^ 20 := by
    unfold PAGE_SIZE at low
    omega
  unfold allocatePage
  dsimp only
  rw [segmentAndBase_eq below]

theorem blank_allocatePage (low : t.pageTablesEnd.toNat + PAGE_SIZE ≤ 2 ^ 20) (j : Fin 512) :
    Plain (allocatePage t).2.mem t.pageTablesEnd.toNat j ∧
      target (allocatePage t).2.mem t.pageTablesEnd.toNat j = none := by
  apply blank_page
  intro x first last
  rw [allocatePage_mem low, if_pos ⟨first, last⟩]

/-- What `get_or_allocate_level` does with an entry that is not present. -/
theorem linked_allocatePage (aligned : t.pageTablesEnd.toNat % PAGE_SIZE = 0)
    (low : t.pageTablesEnd.toNat + PAGE_SIZE ≤ 2 ^ 20) (inside : t.Inside table) :
    Linked t { (allocatePage t).2 with
      mem := writeU32 (allocatePage t).2.mem (table + 8 * i)
        (t.pageTablesEnd ||| (PAGE_PRESENT ||| PAGE_WRITE)) } table i := by
  have place := inside.aligned
  have last := inside.last
  refine ⟨rfl, toNat_end low, ?_, fun x first behind => ?_, fun a word first before other => ?_⟩
  · show (readU32 (writeU32 _ _ _) _).toNat = _
    rw [readU32_writeU32, toNat_or_attributes aligned]
  · show writeU32 _ _ _ x = 0
    unfold writeU32
    unfold PAGE_SIZE at last
    rw [if_neg (by omega), allocatePage_mem low, if_pos ⟨first, behind⟩]
  · show readU32 (writeU32 _ _ _) a = _
    unfold PAGE_SIZE at place
    rw [readU32_writeU32_of_apart _ _ (by omega)]
    apply readU32_congr
    intro x lower upper
    rw [allocatePage_mem low, if_neg (by omega)]

end Level

/-- On the way to a page: `path` leads to the table in `ebx`, with the tables that are missing on
the rest of the way there will be `limit`, and all pages are found where they were. -/
structure Descended (t t' : Tables) (limit : Nat) (path : List (Fin 512)) (level : Nat)
    (ebx : UInt32) (rest : List (Fin 512)) : Prop where
  tree : Tree t'
  aligned : t'.pageTablesEnd.toNat % PAGE_SIZE = 0
  start : t'.pageTablesStart = t.pageTablesStart
  reaches : t'.Reaches path (level, ebx.toNat)
  room : t'.pageTablesEnd.toNat + missing (child t'.mem) (level, ebx.toNat) rest * PAGE_SIZE = limit
  fits : limit ≤ 2 ^ 20
  find : ∀ path', path'.length = 3 → ∀ j, t'.find path' j = t.find path' j

section Descent

variable {t t' : Tables} {path rest : List (Fin 512)} {limit level : Nat} {ebx offset : UInt32}
  {i : Fin 512}

theorem Descended.low (descended : Descended t t' limit path level ebx rest) :
    t'.pageTablesEnd.toNat ≤ 2 ^ 20 :=
  (Nat.le_add_right _ _).trans (descended.room.trans_le descended.fits)

/-- At the end of the way no table is missing. -/
theorem Descended.arrived (descended : Descended t t' limit path level ebx []) :
    t'.pageTablesEnd.toNat = limit := by
  have room := descended.room
  unfold missing at room
  rwa [Nat.zero_mul, Nat.add_zero] at room

/-- The address of an entry. -/
theorem Descended.slot (descended : Descended t t' limit path level ebx rest)
    (here : offset.toNat = 8 * i) :
    (ebx + offset).toNat = ebx.toNat + 8 * i ∧
      segmentAndBase (ebx + offset) = ebx.toNat + 8 * i := by
  have inside := descended.tree.inside _ _ _ descended.reaches
  have last := inside.last
  have low := descended.low
  unfold PAGE_SIZE at last
  have sum : (ebx + offset).toNat = ebx.toNat + 8 * i := by
    rw [UInt32.toNat_add, here]
    omega
  exact ⟨sum, (segmentAndBase_eq (by omega)).trans sum⟩

/-- An entry that is present leads to the next table. -/
theorem Descended.present (descended : Descended t t' limit path (level + 1) ebx (i :: rest))
    (here : offset.toNat = 8 * i) (page : (readU32 t'.mem (ebx.toNat + 8 * i)).toNat % PAGE_SIZE = 3) :
    ∃ below, getOrAllocateLevel (ebx + offset) t' = (below, t') ∧
      Descended t t' limit (path ++ [i]) level below rest := by
  have plain := descended.tree.plain _ _ _ i descended.reaches
  have edge : child t'.mem (level + 1, ebx.toNat) i = some (level, _) :=
    child_eq (target_of_page plain page)
  rw [← toNat_and_not_prefix page] at edge
  have room := descended.room
  unfold missing at room
  rw [edge] at room
  refine ⟨_, ?_, descended.tree, descended.aligned, descended.start,
    descended.reaches.concat edge, room, descended.fits, descended.find⟩
  unfold getOrAllocateLevel
  rw [(descended.slot here).2]
  apply if_neg
  rw [and_present_eq_zero_iff]
  unfold PAGE_SIZE at page
  omega

/-- A page is linked into one that is not. -/
theorem Descended.absent (descended : Descended t t' limit path (level + 1) ebx (i :: rest))
    (here : offset.toNat = 8 * i) (zero : readU32 t'.mem (ebx.toNat + 8 * i) = 0) :
    ∃ below t'', getOrAllocateLevel (ebx + offset) t' = (below, t'') ∧
      Descended t t'' limit (path ++ [i]) level below rest := by
  have tree := descended.tree
  have parent := descended.reaches
  have plain := tree.plain _ _ _ i parent
  have none_ := target_of_zero plain zero
  have room := descended.room
  unfold missing at room
  rw [child_eq_none none_] at room
  have fits := descended.fits
  have low : t'.pageTablesEnd.toNat + PAGE_SIZE ≤ 2 ^ 20 := by
    unfold PAGE_SIZE at room ⊢
    dsimp only at room
    omega
  have linked := linked_allocatePage (i := i) descended.aligned low (tree.inside _ _ _ parent)
  refine ⟨t'.pageTablesEnd, _, ?_, tree.link descended.aligned parent none_ linked, ?_, ?_,
    tree.reaches_new descended.aligned parent none_ linked, ?_, fits, ?_⟩
  · unfold getOrAllocateLevel
    rw [(descended.slot here).2]
    exact if_pos (by rw [zero]; rfl)
  · rw [linked.stop]
    have aligned := descended.aligned
    unfold PAGE_SIZE at aligned ⊢
    omega
  · exact linked.start.trans descended.start
  · rw [linked.stop, missing_childless fun j => child_eq_none (blank_page linked.blank j).2]
    dsimp only at room
    unfold PAGE_SIZE at room ⊢
    omega
  · intro path' full j
    rw [tree.find_linked descended.aligned parent none_ linked full]
    exact descended.find path' full j

/-- One level down. -/
theorem Descended.step (descended : Descended t t' limit path (level + 1) ebx (i :: rest))
    (here : offset.toNat = 8 * i) :
    ∃ below t'', getOrAllocateLevel (ebx + offset) t' = (below, t'') ∧
      Descended t t'' limit (path ++ [i]) level below rest := by
  have plain := descended.tree.plain _ _ _ i descended.reaches
  rcases plain.low with zero | page
  · exact descended.absent here zero
  · obtain ⟨below, got, next⟩ := descended.present here page
    exact ⟨below, t', got, next⟩

end Descent

/-! ## The tables of a call -/

/-- What holds of the tables between two calls. -/
structure Wf (t : Tables) : Prop where
  aligned : t.pageTablesEnd.toNat % PAGE_SIZE = 0
  low : t.pageTablesEnd.toNat ≤ 2 ^ 20
  tree : t.pageTablesStart = t.pageTablesEnd ∨ Tree t

section Root

variable {t : Tables} {c : Call}

/-- From the first table of all no other one is reached yet. -/
theorem reaches_allocateRoot (none_ : t.pageTablesStart = t.pageTablesEnd)
    (low : t.pageTablesEnd.toNat + PAGE_SIZE ≤ 2 ^ 20) {path : List (Fin 512)} {node : Nat × Nat}
    (reached : walk (child (allocatePage t).2.mem) (3, t.pageTablesStart.toNat) path = some node) :
    path = [] ∧ node = (3, t.pageTablesEnd.toNat) := by
  rw [none_] at reached
  exact walk_childless (fun j => child_eq_none (blank_allocatePage low j).2) reached

theorem Wf.allocateRoot (wf : Wf t) (none_ : t.pageTablesStart = t.pageTablesEnd)
    (low : t.pageTablesEnd.toNat + 4 * PAGE_SIZE ≤ 2 ^ 20) :
    Descended t (allocatePage t).2 (t.pageTablesEnd.toNat + 4 * PAGE_SIZE) [] 3 t.pageTablesEnd
      c.writtenPath := by
  have aligned := wf.aligned
  have low' : t.pageTablesEnd.toNat + PAGE_SIZE ≤ 2 ^ 20 := by
    unfold PAGE_SIZE at low ⊢
    omega
  have stop : (allocatePage t).2.pageTablesEnd.toNat = _ := toNat_end low'
  have start : (allocatePage t).2.pageTablesStart.toNat = t.pageTablesEnd.toNat :=
    congrArg UInt32.toNat none_
  have only {path : List (Fin 512)} {node : Nat × Nat} (reaches : (allocatePage t).2.Reaches path node) :=
    reaches_allocateRoot none_ low' reaches
  refine ⟨⟨fun path level table reaches => ?_, fun p p' l l' table left right => ?_,
    fun path level table j reaches => ?_⟩, ?_, rfl, ?_, ?_, low, fun path' full j => ?_⟩
  · obtain ⟨-, here⟩ := only reaches
    cases here
    exact ⟨aligned, start.le, stop.ge⟩
  · exact (only left).1.trans (only right).1.symm
  · obtain ⟨-, here⟩ := only reaches
    cases here
    exact (blank_allocatePage low' j).1
  · rw [stop]
    unfold PAGE_SIZE at aligned ⊢
    omega
  · show some (3, (allocatePage t).2.pageTablesStart.toNat) = _
    rw [start]
  · rw [stop, missing_childless fun j => child_eq_none (blank_allocatePage low' j).2]
    show t.pageTablesEnd.toNat + PAGE_SIZE + 3 * PAGE_SIZE = _
    omega
  · unfold Tables.find
    rw [if_pos none_]
    split
    · rfl
    · cases found : walk (child (allocatePage t).2.mem) (3, t.pageTablesStart.toNat) path' with
      | none => exact congrArg (Option.bind · _) found
      | some node =>
          rw [(only found).1] at full
          cases full

theorem Wf.root (wf : Wf t) (room : t.pageTablesEnd.toNat + t.needed c * PAGE_SIZE ≤ 2 ^ 20) :
    ∃ pml4 t', allocatePageIfNeeded (t.pageTablesStart == t.pageTablesEnd) t.pageTablesStart t =
        (pml4, t') ∧ Descended t t' (t.pageTablesEnd.toNat + t.needed c * PAGE_SIZE) [] 3 pml4
          c.writtenPath := by
  unfold Tables.needed at room ⊢
  unfold allocatePageIfNeeded
  rcases wf.tree with none_ | tree
  · rw [if_pos none_] at room ⊢
    rw [if_pos (beq_iff_eq.mpr none_)]
    exact ⟨_, _, rfl, wf.allocateRoot none_ room⟩
  · rw [if_neg tree.nonempty] at room ⊢
    rw [if_neg (mt beq_iff_eq.mp tree.nonempty)]
    exact ⟨_, _, rfl, tree, wf.aligned, rfl, t.reaches_root, rfl, room, fun _ _ _ => rfl⟩

/-- All tables on the way to the first page are there. -/
theorem Wf.getTables (wf : Wf t) (room : t.pageTablesEnd.toNat + t.needed c * PAGE_SIZE ≤ 2 ^ 20) :
    ∃ pml2 pml1 t', getTables c t = (pml2, pml1, t') ∧
      Descended t t' (t.pageTablesEnd.toNat + t.needed c * PAGE_SIZE) c.writtenPath 0 pml1 [] := by
  obtain ⟨pml4, t₄, first, top⟩ := wf.root room
  obtain ⟨pml3, t₃, second, below⟩ := top.step (i := Fin.ofNat 512 (c.virtual / 2 ^ 46))
    (toNat_pml4Offset c)
  obtain ⟨pml2, t₂, third, below⟩ := below.step (toNat_pml3Offset c)
  obtain ⟨pml1, t₁, fourth, below⟩ := below.step (toNat_pml2Offset c)
  refine ⟨pml2, pml1, t₁, ?_, below⟩
  unfold Paging.getTables
  rw [first]
  dsimp only
  rw [second]
  dsimp only
  rw [third]
  dsimp only
  rw [fourth]

end Root

/-! ## The entries of a call -/

/-- A number of entries of a table, from entry `i` on. -/
def setEntries (table : Nat) : Nat → Nat → UInt32 → Tables → Tables
  | 0, _, _, t => t
  | count + 1, i, v, t =>
    setEntries table count (i + 1) (v + UInt32.ofNat PAGE_SIZE) (t.setEntry table (Fin.ofNat 512 i) v)

section Entries

variable {t : Tables} {path : List (Fin 512)} {table : Nat}

theorem toNat_nextPage {v : UInt32} (page : v.toNat % PAGE_SIZE = 3) :
    (v + UInt32.ofNat PAGE_SIZE).toNat - 3 = (v.toNat - 3 + PAGE_SIZE) % 2 ^ 32 ∧
      (v + UInt32.ofNat PAGE_SIZE).toNat % PAGE_SIZE = 3 := by
  have sum : (v + UInt32.ofNat PAGE_SIZE).toNat = (v.toNat + 4096) % 2 ^ 32 := UInt32.toNat_add _ _
  have bound := v.toNat_lt
  unfold PAGE_SIZE at *
  rw [sum]
  constructor <;> omega

/-- What a number of entries that are written change. -/
structure Written (t t' : Tables) (path : List (Fin 512)) (i count : Nat) (v : UInt32) : Prop where
  tree : Tree t'
  start : t'.pageTablesStart = t.pageTablesStart
  stop : t'.pageTablesEnd = t.pageTablesEnd
  find : ∀ path' (j : Fin 512), t'.find path' j =
    if path' = path ∧ i ≤ j ∧ j < i + count then
      some ((v.toNat - 3 + (j - i) * PAGE_SIZE) % 2 ^ 32)
    else t.find path' j

theorem Tree.setEntries (tree : Tree t) (leaf : t.Reaches path (0, table)) (count i : Nat)
    (v : UInt32) (page : v.toNat % PAGE_SIZE = 3) (fits : i + count ≤ 512) :
    Written t (setEntries table count i v t) path i count v := by
  induction count generalizing i v t with
  | zero =>
      refine ⟨tree, rfl, rfl, fun path' j => ?_⟩
      rw [if_neg (by omega)]
      rfl
  | succ count ih =>
      have here : i < 512 := by omega
      have value : (Fin.ofNat 512 i).val = i := Nat.mod_eq_of_lt here
      obtain ⟨next, attributes⟩ := toNat_nextPage page
      have first := tree.setEntry (i := Fin.ofNat 512 i) leaf page
      have leaf' := (tree.reaches_setEntry (i := Fin.ofNat 512 i) (v := v) leaf path (0, table)).mpr leaf
      have rest := ih first leaf' (i + 1) (v + UInt32.ofNat PAGE_SIZE) attributes (by omega)
      refine ⟨rest.tree, rest.start, rest.stop, fun path' j => ?_⟩
      have found := rest.find path' j
      rw [tree.find_setEntry leaf page, next] at found
      apply Eq.trans found
      have bound := v.toNat_lt
      by_cases same : path' = path
      · rcases Nat.lt_trichotomy j i with before | now | behind
        · rw [if_neg (by omega), if_neg (by rw [Fin.ext_iff, value]; omega), if_neg (by omega)]
        · have zero : j.val - i = 0 := by omega
          rw [if_neg (by omega), if_pos ⟨same, Fin.ext (now.trans value.symm)⟩,
            if_pos ⟨same, by omega, by omega⟩, zero, Nat.zero_mul, Nat.add_zero, Nat.mod_eq_of_lt (by omega)]
        · by_cases inside : j < i + (count + 1)
          · have step : j.val - i = j.val - (i + 1) + 1 := by omega
            rw [if_pos ⟨same, by omega, by omega⟩, if_pos ⟨same, by omega, inside⟩, Nat.mod_add_mod,
              step, Nat.add_mul, Nat.one_mul, Nat.add_assoc, Nat.add_comm PAGE_SIZE]
          · rw [if_neg (by omega), if_neg (by rw [Fin.ext_iff, value]; omega), if_neg (by omega)]
      · rw [if_neg (fun h => same h.1), if_neg (fun h => same h.1), if_neg (fun h => same h.1)]

end Entries

section Loop

theorem toNat_nextIndex {edx : UInt32} (inTable : edx.toNat < 512) :
    (edx + 1).toNat = edx.toNat + 1 := by
  rw [UInt32.toNat_add]
  exact Nat.mod_eq_of_lt (by show _ + 1 < 2 ^ 32; omega)

/-- While the loop stays in its first table, it writes the entries one after the other. -/
theorem writePageTableEntry_eq (pml1Offset pml2Pointer : UInt32) (table fuel : Nat) (r : Loop)
    (t : Tables)
    (place : r.es.toNat * 16 + r.di.toNat = table + 8 * r.edx.toNat)
    (narrow : r.di.toNat + 8 * (512 - r.edx.toNat) < 2 ^ 16)
    (before : r.edx.toNat < r.ecx.toNat) (count : r.ecx.toNat ≤ 512) :
    writePageTableEntry pml1Offset pml2Pointer fuel r t =
      if r.ecx.toNat - r.edx.toNat ≤ fuel then
        .ok (setEntries table (r.ecx.toNat - r.edx.toNat) r.edx.toNat r.esi t)
      else .error .hang := by
  induction fuel generalizing r t with
  | zero =>
      rw [if_neg (by omega)]
      rfl
  | succ fuel ih =>
      have next := toNat_nextIndex (show r.edx.toNat < 512 by omega)
      have offset : (r.di + SIZE_OF_ENTRY.toUInt16).toNat = r.di.toNat + 8 := by
        rw [UInt16.toNat_add]
        exact Nat.mod_eq_of_lt (by show _ + 8 < 2 ^ 16; omega)
      have value : (Fin.ofNat 512 r.edx.toNat).val = r.edx.toNat := Nat.mod_eq_of_lt (by omega)
      have wrote : (writeEntry r t).2 = t.setEntry table (Fin.ofNat 512 r.edx.toNat) r.esi := by
        unfold writeEntry Tables.setEntry
        dsimp only
        rw [place, value]
      unfold writePageTableEntry
      dsimp only
      rw [wrote]
      by_cases last : (writeEntry r t).1.edx = (writeEntry r t).1.ecx
      · have one : r.ecx.toNat - r.edx.toNat = 1 := by
          have ends : r.edx + 1 = r.ecx := last
          rw [← ends, next]
          omega
        rw [if_pos last, one, if_pos (by omega)]
        rfl
      · have more : r.edx.toNat + 1 ≠ r.ecx.toNat := by
          rw [← next]
          exact fun same => last (UInt32.toNat_inj.mp same)
        have room : ¬ ENTRIES_PER_TABLE.toInt32 ≤ (writeEntry r t).1.edx.toInt32 := by
          have index : (writeEntry r t).1.edx.toNat = r.edx.toNat + 1 := next
          have small : ¬ ENTRIES_PER_TABLE.toNat ≤ (writeEntry r t).1.edx.toNat := by
            rw [index]
            show ¬ 512 ≤ r.edx.toNat + 1
            omega
          exact mt (toInt32_le_iff (by decide) (by omega)).mp small
        rw [if_neg last, if_neg room]
        have rest := ih (writeEntry r t).1 (t.setEntry table (Fin.ofNat 512 r.edx.toNat) r.esi)
          (by show r.es.toNat * 16 + (r.di + SIZE_OF_ENTRY.toUInt16).toNat = table + 8 * (r.edx + 1).toNat
              omega)
          (by show (r.di + SIZE_OF_ENTRY.toUInt16).toNat + 8 * (512 - (r.edx + 1).toNat) < 2 ^ 16
              omega)
          (by show (r.edx + 1).toNat < r.ecx.toNat
              omega) count
        have left : r.ecx.toNat - r.edx.toNat = r.ecx.toNat - (r.edx + 1).toNat + 1 := by omega
        rw [rest, left]
        show (if r.ecx.toNat - (r.edx + 1).toNat ≤ fuel then _ else _) = _
        by_cases enough : r.ecx.toNat - (r.edx + 1).toNat ≤ fuel
        · rw [if_pos enough, if_pos (by omega)]
          show _ = Except.ok (setEntries _ _ (r.edx.toNat + 1) _ _)
          rw [← next]
          rfl
        · rw [if_neg enough, if_neg (by omega)]

/-- When a table is full the loop starts over with the same index and 512 pages less, which
are as many modulo 512: an index that has passed the number of pages never meets it. -/
theorem writePageTableEntry_hangs {pml1Offset pml2Pointer : UInt32}
    (small : (pml1Offset >>> LOG2_SIZE_OF_ENTRY).toNat < 512)
    (fuel : Nat) (r : Loop) (t : Tables) (inTable : r.edx.toNat < 512)
    (from_ : (pml1Offset >>> LOG2_SIZE_OF_ENTRY).toNat ≤ r.edx.toNat) (some_ : 1 ≤ r.ecx.toNat % 512)
    (passed : r.ecx.toNat % 512 ≤ (pml1Offset >>> LOG2_SIZE_OF_ENTRY).toNat) :
    writePageTableEntry pml1Offset pml2Pointer fuel r t = .error .hang := by
  induction fuel generalizing r t with
  | zero => rfl
  | succ fuel ih =>
      have next := toNat_nextIndex inTable
      have index : (writeEntry r t).1.edx.toNat = r.edx.toNat + 1 := next
      have more : ¬ (writeEntry r t).1.edx = (writeEntry r t).1.ecx := by
        intro same
        have ends : (writeEntry r t).1.edx.toNat = r.ecx.toNat := congrArg UInt32.toNat same
        omega
      unfold writePageTableEntry
      dsimp only
      rw [if_neg more]
      split
      · have less : (r.ecx - ENTRIES_PER_TABLE).toNat % 512 = r.ecx.toNat % 512 := by
          rw [UInt32.toNat_sub]
          show (2 ^ 32 - 512 + r.ecx.toNat) % 2 ^ 32 % 512 = _
          omega
        apply ih
        · exact small
        · exact Nat.le_refl _
        · exact some_.trans_eq less.symm
        · exact less.trans_le passed
      · next room =>
          have small' : ¬ ENTRIES_PER_TABLE.toNat ≤ (writeEntry r t).1.edx.toNat :=
            mt (toInt32_le_iff (by decide) (by omega)).mpr room
          have bound : ¬ 512 ≤ (writeEntry r t).1.edx.toNat := small'
          apply ih
          · omega
          · omega
          · exact some_
          · exact passed

end Loop

/-! ## A call -/

section Calls

variable {t : Tables} {c : Call}

/-- The index of the first entry, in the loop. -/
theorem toNat_firstIndex (c : Call) :
    (c.pml1Offset >>> LOG2_SIZE_OF_ENTRY).toNat = index 0 c.virtual := by
  rw [toNat_shiftRight _ (by decide), toNat_pml1Offset]
  exact Nat.mul_div_cancel_left _ (by decide)

/-- The number of pages passes the first check. -/
theorem count_accepted (count : c.ecx.toNat ≤ 512) : ¬ ENTRIES_PER_TABLE.toInt32 < c.ecx.toInt32 := by
  have small : c.ecx.toInt32 ≤ ENTRIES_PER_TABLE.toInt32 :=
    (toInt32_le_iff (by omega) (by decide)).mpr count
  exact Int32.not_lt.mpr small

/-- With the first index at or behind the number of pages the call never returns. -/
theorem mapContiguousPages_hangs (fuel : Nat) (t : Tables)
    (count : 1 ≤ c.ecx.toNat ∧ c.ecx.toNat ≤ 512)
    (behind : c.ecx.toNat ≤ index 0 c.virtual) :
    mapContiguousPages fuel c t = .error .hang := by
  have first := toNat_firstIndex c
  have small := (index 0 c.virtual).isLt
  unfold mapContiguousPages
  rw [if_neg (count_accepted count.2)]
  apply writePageTableEntry_hangs
  · omega
  · show (c.pml1Offset >>> LOG2_SIZE_OF_ENTRY).toNat < 512
    omega
  · exact Nat.le_refl _
  · show 1 ≤ c.ecx.toNat % 512
    omega
  · show c.ecx.toNat % 512 ≤ _
    omega

/-- What a call that returns has changed. -/
structure Mapped (t t' : Tables) (c : Call) : Prop where
  wf : Wf t'
  start : t'.pageTablesStart = t.pageTablesStart
  stop : t'.pageTablesEnd.toNat = t.pageTablesEnd.toNat + t.needed c * PAGE_SIZE
  find : ∀ path, path.length = 3 → ∀ j : Fin 512, t'.find path j =
    if path = c.writtenPath ∧ (index 0 c.virtual).val ≤ j.val ∧ j.val < c.ecx.toNat then
      some ((c.esi.toNat + (j - index 0 c.virtual) * PAGE_SIZE) % 2 ^ 32)
    else t.find path j

/-- The loop begins in the entry of the first page. -/
theorem writePageTableEntry_first {t₁ : Tables} {limit : Nat} {pml1 : UInt32}
    (there : Descended t t₁ limit c.writtenPath 0 pml1 []) (count : c.ecx.toNat ≤ 512)
    (reached : (index 0 c.virtual).val < c.ecx.toNat) (pml2 esi : UInt32) (fuel : Nat) :
    writePageTableEntry c.pml1Offset pml2 fuel
        (writeTable c.pml1Offset (pml1 + c.pml1Offset) esi c.ecx c.pml2Offset) t₁ =
      if c.written ≤ fuel then
        .ok (setEntries pml1.toNat c.written (index 0 c.virtual) esi t₁)
      else .error .hang := by
  obtain ⟨place, -⟩ := there.slot (toNat_pml1Offset c)
  have last := (there.tree.inside _ _ _ there.reaches).last
  have low := there.low
  have first := toNat_firstIndex c
  have small := (index 0 c.virtual).isLt
  obtain ⟨segment, base⟩ := toNat_segment_base (pml1 + c.pml1Offset)
  have offset : (pml1 + c.pml1Offset &&& 0xF).toUInt16.toNat = (pml1 + c.pml1Offset).toNat % 16 := by
    rw [UInt32.toNat_toUInt16, base]
    omega
  unfold PAGE_SIZE at last
  have loop := writePageTableEntry_eq c.pml1Offset pml2 pml1.toNat fuel
    (writeTable c.pml1Offset (pml1 + c.pml1Offset) esi c.ecx c.pml2Offset) t₁
  unfold writeTable at loop ⊢
  dsimp only at loop ⊢
  rw [segment, offset, place, first] at loop
  exact loop (by omega) (by omega) reached count

/-- Otherwise it returns, after as many rounds as it writes entries. -/
theorem mapContiguousPages_eq (wf : Wf t) (legal : Legal t c)
    (reached : (index 0 c.virtual).val < c.ecx.toNat) :
    ∃ t', Mapped t t' c ∧ ∀ fuel, mapContiguousPages fuel c t =
      if c.written ≤ fuel then .ok t' else .error .hang := by
  obtain ⟨pml2, pml1, t₁, got, there⟩ := wf.getTables legal.room
  have count := legal.count.2
  have attributes := toNat_or_attributes legal.physical
  have page : (c.esi ||| (PAGE_PRESENT ||| PAGE_WRITE)).toNat % PAGE_SIZE = 3 := by
    have physical := legal.physical
    unfold PAGE_SIZE at physical ⊢
    omega
  have ends : index 0 c.virtual + c.written = c.ecx.toNat := by
    unfold Call.written
    omega
  have written := there.tree.setEntries there.reaches c.written (index 0 c.virtual)
    (c.esi ||| (PAGE_PRESENT ||| PAGE_WRITE)) page (by omega)
  refine ⟨_, ⟨⟨?_, ?_, Or.inr written.tree⟩, written.start.trans there.start, ?_,
    fun path full j => ?_⟩, fun fuel => ?_⟩
  · rw [written.stop]
    exact there.aligned
  · rw [written.stop]
    exact there.low
  · rw [written.stop]
    exact there.arrived
  · rw [written.find, there.find path full, attributes, Nat.add_sub_cancel, ends]
  · unfold mapContiguousPages
    rw [if_neg (count_accepted count), got]
    exact writePageTableEntry_first there count reached pml2 _ fuel

end Calls

end Tyleros.Boot.Paging
