import Tyleros.Boot.Paging
import Tyleros.Fat.ReadFile

/-!
# The boot loader's page tables form a tree

Every table that is reached from the first one lies on a page of its own between
`page_tables_start` and `page_tables_end`, no table is reached on two paths, and all entries
are zero or made by the loader (`Tree`). Linking an empty page into an absent entry keeps this
and no page is found elsewhere (`Tree.link`), and an entry of a PML1 table that is written is the
only one that leads elsewhere afterwards (`Tree.setEntry`).
-/

namespace Tyleros.Boot.Paging

open Fat (readU16 readU32 readU16_toNat)
open Lib

/-! ## Words in memory -/

section Words

variable {mem mem' : Memory} {a b : Nat} {v : UInt32}

theorem readU32_toNat (mem : Memory) (a : Nat) : (readU32 mem a).toNat =
    (mem a).toNat + 256 * (mem (a + 1)).toNat + 65536 * (mem (a + 2)).toNat +
      16777216 * (mem (a + 3)).toNat := by
  have low := readU16_toNat mem a
  have high := readU16_toNat mem (a + 2)
  have lowFits := (readU16 mem a).toNat_lt
  have highFits := (readU16 mem (a + 2)).toNat_lt
  rw [readU32, UInt32.toNat_ofNat_of_lt' (by show _ < 4294967296; omega), low, high]
  show _ + 65536 * (_ + 256 * (mem (a + 3)).toNat) = _
  omega

theorem readU32_congr (same : ∀ x, a ≤ x → x < a + 4 → mem' x = mem x) :
    readU32 mem' a = readU32 mem a := by
  apply UInt32.toNat_inj.mp
  rw [readU32_toNat, readU32_toNat, same a (by omega) (by omega), same (a + 1) (by omega) (by omega),
    same (a + 2) (by omega) (by omega), same (a + 3) (by omega) (by omega)]

theorem readU32_blank (blank : ∀ x, a ≤ x → x < a + 4 → mem x = 0) : readU32 mem a = 0 := by
  apply UInt32.toNat_inj.mp
  rw [readU32_toNat, blank a (by omega) (by omega), blank (a + 1) (by omega) (by omega),
    blank (a + 2) (by omega) (by omega), blank (a + 3) (by omega) (by omega)]
  rfl

theorem writeU32_byte {j : Nat} (inside : j < 4) :
    (writeU32 mem a v (a + j)).toNat = v.toNat / 2 ^ (8 * j) % 256 := by
  unfold writeU32
  rw [if_pos ⟨Nat.le_add_right a j, by omega⟩, Nat.add_sub_cancel_left, UInt8.toNat_ofNat']

theorem readU32_writeU32 (mem : Memory) (a : Nat) (v : UInt32) :
    readU32 (writeU32 mem a v) a = v := by
  have bound := v.toNat_lt
  have first : (writeU32 mem a v a).toNat = _ := writeU32_byte (j := 0) (by decide)
  apply UInt32.toNat_inj.mp
  rw [readU32_toNat, first, writeU32_byte (j := 1) (by decide), writeU32_byte (j := 2) (by decide),
    writeU32_byte (j := 3) (by decide)]
  omega

theorem readU32_writeU32_of_apart (mem : Memory) (v : UInt32) (apart : a + 4 ≤ b ∨ b + 4 ≤ a) :
    readU32 (writeU32 mem a v) b = readU32 mem b := by
  apply readU32_congr
  intro x first last
  unfold writeU32
  rw [if_neg (by omega)]

end Words

/-! ## Entries -/

section Entries

variable {mem mem' : Memory} {table : Nat} {i : Fin 512}

/-- An entry is zero, or a page with the two attributes. -/
structure Plain (mem : Memory) (table : Nat) (i : Fin 512) : Prop where
  high : readU32 mem (table + 8 * i + 4) = 0
  low : readU32 mem (table + 8 * i) = 0 ∨ (readU32 mem (table + 8 * i)).toNat % PAGE_SIZE = 3

theorem Plain.entry (plain : Plain mem table i) :
    entry mem table i = (readU32 mem (table + 8 * i)).toNat := by
  unfold Paging.entry
  rw [plain.high]
  rfl

theorem target_of_zero (plain : Plain mem table i) (zero : readU32 mem (table + 8 * i) = 0) :
    target mem table i = none := by
  unfold target
  rw [plain.entry, zero]
  rfl

theorem target_of_page (plain : Plain mem table i)
    (page : (readU32 mem (table + 8 * i)).toNat % PAGE_SIZE = 3) :
    target mem table i = some ((readU32 mem (table + 8 * i)).toNat - 3) := by
  have bound := (readU32 mem (table + 8 * i)).toNat_lt
  unfold PAGE_SIZE at page
  unfold target
  rw [plain.entry, if_pos (by omega)]
  congr 1
  omega

/-- A blank page has no entries. -/
theorem blank_page (blank : ∀ x, table ≤ x → x < table + PAGE_SIZE → mem x = 0) (i : Fin 512) :
    Plain mem table i ∧ target mem table i = none := by
  unfold PAGE_SIZE at blank
  have low : readU32 mem (table + 8 * i) = 0 :=
    readU32_blank fun x first last => blank x (by omega) (by omega)
  have high : readU32 mem (table + 8 * i + 4) = 0 :=
    readU32_blank fun x first last => blank x (by omega) (by omega)
  have plain : Plain mem table i := ⟨high, Or.inl low⟩
  exact ⟨plain, target_of_zero plain low⟩

theorem target_congr (low : readU32 mem' (table + 8 * i) = readU32 mem (table + 8 * i))
    (high : readU32 mem' (table + 8 * i + 4) = readU32 mem (table + 8 * i + 4)) :
    target mem' table i = target mem table i := by
  unfold target Paging.entry
  rw [low, high]

theorem Plain.congr (plain : Plain mem table i)
    (low : readU32 mem' (table + 8 * i) = readU32 mem (table + 8 * i))
    (high : readU32 mem' (table + 8 * i + 4) = readU32 mem (table + 8 * i + 4)) :
    Plain mem' table i := by
  refine ⟨high.trans plain.high, ?_⟩
  rw [low]
  exact plain.low

/-- What an entry leads to is a page below 4 GiB. -/
theorem Plain.target_lt (plain : Plain mem table i) {page : Nat}
    (leads : target mem table i = some page) : page % PAGE_SIZE = 0 ∧ page + PAGE_SIZE ≤ 2 ^ 32 := by
  have bound := (readU32 mem (table + 8 * i)).toNat_lt
  rcases plain.low with zero | here
  · rw [target_of_zero plain zero] at leads
    cases leads
  · rw [target_of_page plain here] at leads
    cases leads
    unfold PAGE_SIZE at *
    omega

end Entries

/-! ## The tree -/

/-- A path leads from the first table to this one of a level. -/
def Tables.Reaches (t : Tables) (path : List (Fin 512)) (node : Nat × Nat) : Prop :=
  walk (child t.mem) (3, t.pageTablesStart.toNat) path = some node

/-- A page for a table. -/
structure Tables.Inside (t : Tables) (table : Nat) : Prop where
  aligned : table % PAGE_SIZE = 0
  first : t.pageTablesStart.toNat ≤ table
  last : table + PAGE_SIZE ≤ t.pageTablesEnd.toNat

structure Tree (t : Tables) : Prop where
  inside : ∀ path level table, t.Reaches path (level, table) → t.Inside table
  apart : ∀ path path' level level' table, t.Reaches path (level, table) →
    t.Reaches path' (level', table) → path = path'
  plain : ∀ path level table i, t.Reaches path (level, table) → Plain t.mem table i

theorem walk_level {mem : Memory} {node below : Nat × Nat} {path : List (Fin 512)}
    (reached : walk (child mem) node path = some below) : below.1 + path.length = node.1 := by
  induction path generalizing node with
  | nil =>
      cases reached
      rfl
  | cons i path ih =>
      obtain ⟨next, edge, rest⟩ := Option.bind_eq_some_iff.mp reached
      have levels := ih rest
      rcases node with ⟨_ | level, table⟩
      · cases edge
      · obtain ⟨page, -, rfl⟩ := Option.map_eq_some_iff.mp edge
        rw [List.length_cons]
        dsimp only at levels ⊢
        omega

theorem Tables.Reaches.level {t : Tables} {path : List (Fin 512)} {node : Nat × Nat}
    (reaches : t.Reaches path node) : node.1 + path.length = 3 := walk_level reaches

/-- There is a first table. -/
theorem Tree.nonempty {t : Tables} (tree : Tree t) : t.pageTablesStart ≠ t.pageTablesEnd := by
  have root := (tree.inside [] 3 t.pageTablesStart.toNat rfl).last
  intro same
  rw [same] at root
  unfold PAGE_SIZE at root
  omega

/-- The tables that are reached. -/
def Tables.Used (t : Tables) (node : Nat × Nat) : Prop := ∃ path, t.Reaches path node

theorem Tables.reaches_root (t : Tables) : t.Reaches [] (3, t.pageTablesStart.toNat) := rfl

theorem Tables.Reaches.concat {t : Tables} {path : List (Fin 512)} {node below : Nat × Nat}
    {i : Fin 512} (reaches : t.Reaches path node) (edge : child t.mem node i = some below) :
    t.Reaches (path ++ [i]) below := by
  unfold Tables.Reaches
  rw [walk_append, reaches]
  show (child t.mem node i).bind _ = _
  rw [edge]
  rfl

theorem Tables.closed_used (t : Tables) : Closed (child t.mem) t.Used := by
  rintro node i below ⟨path, reaches⟩ edge
  exact ⟨_, reaches.concat edge⟩

/-- A table of a level that has an entry leading to a page. -/
theorem child_eq {mem : Memory} {level table page : Nat} {i : Fin 512}
    (leads : target mem table i = some page) :
    child mem (level + 1, table) i = some (level, page) := by
  show (target mem table i).map _ = _
  rw [leads]
  rfl

theorem child_eq_none {mem : Memory} {level table : Nat} {i : Fin 512}
    (absent : target mem table i = none) : child mem (level, table) i = none := by
  rcases level with _ | level
  · rfl
  · show (target mem table i).map _ = _
    rw [absent]
    rfl

theorem child_congr {mem mem' : Memory} {level table : Nat} {i : Fin 512}
    (same : target mem' table i = target mem table i) :
    child mem' (level, table) i = child mem (level, table) i := by
  rcases level with _ | level
  · rfl
  · show (target mem' table i).map _ = (target mem table i).map _
    rw [same]

/-- What is written next to the tables does not matter to them. -/
theorem Tree.congr {t : Tables} (tree : Tree t) {mem : Memory}
    (same : ∀ x, t.pageTablesStart.toNat ≤ x → x < t.pageTablesEnd.toNat → mem x = t.mem x) :
    Tree { t with mem } := by
  have word {table : Nat} (inside : t.Inside table) (i : Fin 512) :
      readU32 mem (table + 8 * i) = readU32 t.mem (table + 8 * i) ∧
        readU32 mem (table + 8 * i + 4) = readU32 t.mem (table + 8 * i + 4) := by
    have first := inside.first
    have last := inside.last
    unfold PAGE_SIZE at last
    constructor
    · exact readU32_congr fun x lower upper => same x (by omega) (by omega)
    · exact readU32_congr fun x lower upper => same x (by omega) (by omega)
  have edges (node : Nat × Nat) (i : Fin 512) (used : t.Used node) :
      child mem node i = child t.mem node i := by
    obtain ⟨path, reaches⟩ := used
    rcases node with ⟨level, table⟩
    obtain ⟨low, high⟩ := word (tree.inside _ _ _ reaches) i
    exact child_congr (target_congr low high)
  have before {path : List (Fin 512)} {node : Nat × Nat}
      (reaches : Tables.Reaches { t with mem } path node) : t.Reaches path node :=
    (walk_congr t.closed_used edges ⟨[], t.reaches_root⟩ path).symm.trans reaches
  refine ⟨fun path level table reaches => ?_, fun path path' level level' table left right => ?_,
    fun path level table i reaches => ?_⟩
  · have inside := tree.inside _ _ _ (before reaches)
    exact ⟨inside.aligned, inside.first, inside.last⟩
  · exact tree.apart _ _ _ _ _ (before left) (before right)
  · obtain ⟨low, high⟩ := word (tree.inside _ _ _ (before reaches)) i
    exact (tree.plain _ _ _ i (before reaches)).congr low high

/-- A page that is found lies below 4 GiB. -/
theorem Tree.find_lt {t : Tables} (tree : Tree t) {path : List (Fin 512)} {i : Fin 512} {page : Nat}
    (found : t.find path i = some page) : page + PAGE_SIZE ≤ 2 ^ 32 := by
  unfold Tables.find at found
  rw [if_neg tree.nonempty] at found
  obtain ⟨⟨level, table⟩, reaches, leads⟩ := Option.bind_eq_some_iff.mp found
  exact ((tree.plain _ _ _ i reaches).target_lt leads).2

/-! ## Changing one entry -/

section Slots

variable {mem : Memory} {table table' : Nat} {i j : Fin 512} {v : UInt32}

theorem readU32_slot (aligned : table % PAGE_SIZE = 0) (aligned' : table' % PAGE_SIZE = 0) :
    readU32 (writeU32 mem (table + 8 * i) v) (table' + 8 * j) =
      if table' = table ∧ j = i then v else readU32 mem (table' + 8 * j) := by
  unfold PAGE_SIZE at aligned aligned'
  split
  · next here =>
      obtain ⟨rfl, rfl⟩ := here
      exact readU32_writeU32 _ _ _
  · next other =>
      have apart : table' + 8 * (j : Nat) ≠ table + 8 * i := by
        intro same
        apply other
        constructor
        · omega
        · apply Fin.ext
          omega
      apply readU32_writeU32_of_apart
      omega

theorem readU32_slot_high (aligned : table % PAGE_SIZE = 0) (aligned' : table' % PAGE_SIZE = 0) :
    readU32 (writeU32 mem (table + 8 * i) v) (table' + 8 * j + 4) =
      readU32 mem (table' + 8 * j + 4) := by
  unfold PAGE_SIZE at aligned aligned'
  apply readU32_writeU32_of_apart
  omega

theorem target_slot (aligned : table % PAGE_SIZE = 0) (aligned' : table' % PAGE_SIZE = 0)
    (other : ¬ (table' = table ∧ j = i)) :
    target (writeU32 mem (table + 8 * i) v) table' j = target mem table' j := by
  apply target_congr
  · rw [readU32_slot aligned aligned', if_neg other]
  · exact readU32_slot_high aligned aligned'

theorem Plain.slot (plain : Plain mem table' j) (aligned : table % PAGE_SIZE = 0)
    (aligned' : table' % PAGE_SIZE = 0) (page : v.toNat % PAGE_SIZE = 3) :
    Plain (writeU32 mem (table + 8 * i) v) table' j := by
  refine ⟨(readU32_slot_high aligned aligned').trans plain.high, ?_⟩
  rw [readU32_slot aligned aligned']
  split
  · exact Or.inr page
  · exact plain.low

end Slots

section Entry

variable {t : Tables} {path : List (Fin 512)} {table : Nat} {i : Fin 512} {v : UInt32}

/-- The memory behind an entry of a table. -/
def Tables.setEntry (t : Tables) (table : Nat) (i : Fin 512) (v : UInt32) : Tables :=
  { t with mem := writeU32 t.mem (table + 8 * i) v }

theorem Tree.child_setEntry (tree : Tree t) (leaf : t.Reaches path (0, table))
    {node : Nat × Nat} (used : t.Used node) (j : Fin 512) :
    child (t.setEntry table i v).mem node j = child t.mem node j := by
  obtain ⟨path', reaches⟩ := used
  rcases node with ⟨_ | level, table'⟩
  · rfl
  · apply child_congr
    have aligned := (tree.inside _ _ _ leaf).aligned
    have aligned' := (tree.inside _ _ _ reaches).aligned
    apply target_slot aligned aligned'
    rintro ⟨rfl, -⟩
    -- a PML1 table is on no level but its own
    obtain rfl := tree.apart _ _ _ _ _ leaf reaches
    have same := leaf.symm.trans reaches
    cases same

theorem Tree.walk_setEntry (tree : Tree t) (leaf : t.Reaches path (0, table))
    (path' : List (Fin 512)) :
    walk (child (t.setEntry table i v).mem) (3, t.pageTablesStart.toNat) path' =
      walk (child t.mem) (3, t.pageTablesStart.toNat) path' :=
  walk_congr t.closed_used (fun _ j used => tree.child_setEntry leaf used j) ⟨[], t.reaches_root⟩ path'

theorem Tree.reaches_setEntry (tree : Tree t) (leaf : t.Reaches path (0, table))
    (path' : List (Fin 512)) (node : Nat × Nat) :
    (t.setEntry table i v).Reaches path' node ↔ t.Reaches path' node :=
  iff_of_eq (congrArg (· = some node) (tree.walk_setEntry leaf path'))

theorem Tree.setEntry (tree : Tree t) (leaf : t.Reaches path (0, table))
    (page : v.toNat % PAGE_SIZE = 3) : Tree (t.setEntry table i v) := by
  have same := tree.reaches_setEntry (i := i) (v := v) leaf
  refine ⟨fun path' level table' reaches => ?_, fun path₁ path₂ l₁ l₂ table' left right => ?_,
    fun path' level table' j reaches => ?_⟩
  · have inside := tree.inside _ _ _ ((same _ _).mp reaches)
    exact ⟨inside.aligned, inside.first, inside.last⟩
  · exact tree.apart _ _ _ _ _ ((same _ _).mp left) ((same _ _).mp right)
  · have before := (same _ _).mp reaches
    exact (tree.plain _ _ _ j before).slot (tree.inside _ _ _ leaf).aligned
      (tree.inside _ _ _ before).aligned page

/-- The entry that is written leads to its page, and all others where they led before. -/
theorem Tree.find_setEntry (tree : Tree t) (leaf : t.Reaches path (0, table))
    (page : v.toNat % PAGE_SIZE = 3) (path' : List (Fin 512)) (j : Fin 512) :
    (t.setEntry table i v).find path' j =
      if path' = path ∧ j = i then some (v.toNat - 3) else t.find path' j := by
  unfold Tables.find
  show (if t.pageTablesStart = t.pageTablesEnd then _ else
    (walk _ (3, t.pageTablesStart.toNat) path').bind _) = _
  rw [if_neg tree.nonempty, if_neg tree.nonempty, tree.walk_setEntry leaf]
  cases found : walk (child t.mem) (3, t.pageTablesStart.toNat) path' with
  | none =>
      have elsewhere : ¬ (path' = path ∧ j = i) := by
        rintro ⟨rfl, -⟩
        cases found.symm.trans leaf
      rw [if_neg elsewhere]
      rfl
  | some node =>
      have reaches : t.Reaches path' node := found
      have aligned := (tree.inside _ _ _ leaf).aligned
      have aligned' := (tree.inside _ _ _ reaches).aligned
      show target (writeU32 t.mem (table + 8 * i) v) node.2 j = _
      split
      · next here =>
          obtain ⟨rfl, rfl⟩ := here
          cases leaf.symm.trans reaches
          have plain := (tree.plain _ _ _ j leaf).slot (v := v) (i := j) aligned aligned page
          have leads := target_of_page plain (by rw [readU32_writeU32]; exact page)
          rw [readU32_writeU32] at leads
          exact leads
      · next other =>
          apply target_slot aligned aligned'
          rintro ⟨here, rfl⟩
          apply other
          rcases node with ⟨level, table'⟩
          obtain rfl : table' = table := here
          exact ⟨(tree.apart _ _ _ _ _ leaf reaches).symm, rfl⟩

end Entry

/-! ## Linking a page -/

/-- The page behind the tables is blank now, and an entry leads to it. -/
structure Linked (t t' : Tables) (table : Nat) (i : Fin 512) : Prop where
  start : t'.pageTablesStart = t.pageTablesStart
  stop : t'.pageTablesEnd.toNat = t.pageTablesEnd.toNat + PAGE_SIZE
  entry : (readU32 t'.mem (table + 8 * i)).toNat = t.pageTablesEnd.toNat + 3
  blank : ∀ x, t.pageTablesEnd.toNat ≤ x → x < t.pageTablesEnd.toNat + PAGE_SIZE → t'.mem x = 0
  same : ∀ a, a % 4 = 0 → t.pageTablesStart.toNat ≤ a → a + 4 ≤ t.pageTablesEnd.toNat →
    a ≠ table + 8 * i → readU32 t'.mem a = readU32 t.mem a

section Link

variable {t t' : Tables} {path : List (Fin 512)} {level table : Nat} {i : Fin 512}

theorem Linked.low_same (linked : Linked t t' table i) (parent : t.Inside table) {table' : Nat}
    (inside : t.Inside table') {j : Fin 512} (other : ¬ (table' = table ∧ j = i)) :
    readU32 t'.mem (table' + 8 * j) = readU32 t.mem (table' + 8 * j) := by
  have aligned := parent.aligned
  have aligned' := inside.aligned
  have first := inside.first
  have last := inside.last
  unfold PAGE_SIZE at aligned aligned' last
  apply linked.same _ (by omega) (by omega) (by omega)
  intro same
  apply other
  constructor
  · omega
  · apply Fin.ext
    omega

theorem Linked.high_same (linked : Linked t t' table i) (parent : t.Inside table) {table' : Nat}
    (inside : t.Inside table') (j : Fin 512) :
    readU32 t'.mem (table' + 8 * j + 4) = readU32 t.mem (table' + 8 * j + 4) := by
  have aligned := parent.aligned
  have aligned' := inside.aligned
  have first := inside.first
  have last := inside.last
  unfold PAGE_SIZE at aligned aligned' last
  exact linked.same _ (by omega) (by omega) (by omega) (by omega)

theorem Linked.target_same (linked : Linked t t' table i) (parent : t.Inside table) {table' : Nat}
    (inside : t.Inside table') {j : Fin 512} (other : ¬ (table' = table ∧ j = i)) :
    target t'.mem table' j = target t.mem table' j :=
  target_congr (linked.low_same parent inside other) (linked.high_same parent inside j)

variable (tree : Tree t) (aligned : t.pageTablesEnd.toNat % PAGE_SIZE = 0)
  (parent : t.Reaches path (level + 1, table)) (absent : target t.mem table i = none)
  (linked : Linked t t' table i)

include tree aligned parent linked in
theorem Tree.plain_linked : Plain t'.mem table i ∧
    (readU32 t'.mem (table + 8 * i)).toNat % PAGE_SIZE = 3 := by
  have inside := tree.inside _ _ _ parent
  have page : (readU32 t'.mem (table + 8 * i)).toNat % PAGE_SIZE = 3 := by
    rw [linked.entry]
    unfold PAGE_SIZE at aligned ⊢
    omega
  have high := (linked.high_same inside inside i).trans (tree.plain _ _ _ i parent).high
  exact ⟨⟨high, Or.inr page⟩, page⟩

include tree aligned parent linked in
theorem Tree.child_linked :
    child t'.mem (level + 1, table) i = some (level, t.pageTablesEnd.toNat) := by
  obtain ⟨plain, page⟩ := tree.plain_linked aligned parent linked
  apply child_eq
  rw [target_of_page plain page, linked.entry, Nat.add_sub_cancel]

include tree parent linked in
theorem Tree.child_other {node : Nat × Nat} (used : t.Used node) {j : Fin 512}
    (other : ¬ (node = (level + 1, table) ∧ j = i)) : child t'.mem node j = child t.mem node j := by
  obtain ⟨path', reaches⟩ := used
  rcases node with ⟨level', table'⟩
  apply child_congr
  apply linked.target_same (tree.inside _ _ _ parent) (tree.inside _ _ _ reaches)
  rintro ⟨rfl, rfl⟩
  obtain rfl := tree.apart _ _ _ _ _ parent reaches
  exact other ⟨Option.some.inj (reaches.symm.trans parent), rfl⟩

include tree aligned parent absent linked in
/-- A path leads where it led, or to the new page. -/
theorem Tree.walk_linked (path' : List (Fin 512)) :
    walk (child t'.mem) (3, t.pageTablesStart.toNat) path' =
        walk (child t.mem) (3, t.pageTablesStart.toNat) path' ∨
      walk (child t.mem) (3, t.pageTablesStart.toNat) path' = none ∧
        walk (child t'.mem) (3, t.pageTablesStart.toNat) path' =
          some (level, t.pageTablesEnd.toNat) :=
  walk_link t.closed_used (child_eq_none absent) (tree.child_linked aligned parent linked)
    (fun j => child_eq_none (blank_page linked.blank j).2)
    (fun _ _ used other => tree.child_other parent linked used other) ⟨[], t.reaches_root⟩ path'

include tree in
/-- The new page was not a table. -/
theorem Tree.not_reaches_end {path' : List (Fin 512)} {level' : Nat} :
    ¬ t.Reaches path' (level', t.pageTablesEnd.toNat) := by
  intro reaches
  have last := (tree.inside _ _ _ reaches).last
  unfold PAGE_SIZE at last
  omega

include tree aligned parent absent linked in
theorem Tree.reaches_linked {path' : List (Fin 512)} {node : Nat × Nat}
    (reaches : t'.Reaches path' node) :
    t.Reaches path' node ∨ node = (level, t.pageTablesEnd.toNat) := by
  unfold Tables.Reaches at reaches
  rw [linked.start] at reaches
  rcases tree.walk_linked aligned parent absent linked path' with same | ⟨-, new⟩
  · exact Or.inl (same.symm.trans reaches)
  · exact Or.inr (Option.some.inj (reaches.symm.trans new))

include tree aligned parent absent linked in
/-- Only one path leads to the new page. -/
theorem Tree.path_linked {path' : List (Fin 512)} {level' : Nat}
    (reaches : t'.Reaches path' (level', t.pageTablesEnd.toNat)) : path' = path ++ [i] := by
  rcases List.eq_nil_or_concat path' with rfl | ⟨front, j, rfl⟩
  · have root : t'.pageTablesStart.toNat = t.pageTablesEnd.toNat :=
      congrArg Prod.snd (Option.some.inj reaches)
    rw [linked.start] at root
    exact absurd (UInt32.toNat_inj.mp root) tree.nonempty
  · rw [List.concat_eq_append] at reaches ⊢
    obtain ⟨node, before, edge⟩ := walk_snoc_eq_some reaches
    rcases tree.reaches_linked aligned parent absent linked before with old | rfl
    · by_cases here : node = (level + 1, table) ∧ j = i
      · obtain ⟨rfl, rfl⟩ := here
        rw [tree.apart _ _ _ _ _ old parent]
      · rw [tree.child_other parent linked ⟨front, old⟩ here] at edge
        exact absurd (old.concat edge) tree.not_reaches_end
    · rw [child_eq_none (blank_page linked.blank j).2] at edge
      cases edge

include tree aligned parent absent linked in
theorem Tree.link : Tree t' := by
  have start := congrArg UInt32.toNat linked.start
  have stop := linked.stop
  have here := tree.inside _ _ _ parent
  have cases_ {path' : List (Fin 512)} {node : Nat × Nat} (reaches : t'.Reaches path' node) :=
    tree.reaches_linked aligned parent absent linked reaches
  refine ⟨fun path' level' table' reaches => ?_, fun path₁ path₂ l₁ l₂ table' left right => ?_,
    fun path' level' table' j reaches => ?_⟩
  · rcases cases_ reaches with old | new
    · have inside := tree.inside _ _ _ old
      have last := inside.last
      exact ⟨inside.aligned, start.trans_le inside.first, by omega⟩
    · cases new
      have first := here.first
      have last := here.last
      exact ⟨aligned, by omega, stop.ge⟩
  · rcases cases_ left with old₁ | new₁
    · rcases cases_ right with old₂ | new₂
      · exact tree.apart _ _ _ _ _ old₁ old₂
      · cases new₂
        exact absurd old₁ tree.not_reaches_end
    · cases new₁
      rw [tree.path_linked aligned parent absent linked left,
        tree.path_linked aligned parent absent linked right]
  · rcases cases_ reaches with old | new
    · by_cases slot : table' = table ∧ j = i
      · obtain ⟨rfl, rfl⟩ := slot
        exact (tree.plain_linked aligned parent linked).1
      · have inside := tree.inside _ _ _ old
        exact (tree.plain _ _ _ j old).congr (linked.low_same here inside slot)
          (linked.high_same here inside j)
    · cases new
      exact (blank_page linked.blank j).1

include tree aligned parent absent linked in
/-- The tables there were are still reached. -/
theorem Tree.reaches_old {path' : List (Fin 512)} {node : Nat × Nat}
    (reaches : t.Reaches path' node) : t'.Reaches path' node := by
  unfold Tables.Reaches
  rw [linked.start]
  rcases tree.walk_linked aligned parent absent linked path' with same | ⟨gone, -⟩
  · exact same.trans reaches
  · cases gone.symm.trans reaches

include tree aligned parent absent linked in
theorem Tree.reaches_new : t'.Reaches (path ++ [i]) (level, t.pageTablesEnd.toNat) :=
  (tree.reaches_old aligned parent absent linked parent).concat
    (tree.child_linked aligned parent linked)

include tree aligned parent absent linked in
/-- No page is found that was not found before, and none elsewhere. -/
theorem Tree.find_linked {path' : List (Fin 512)} (full : path'.length = 3) (j : Fin 512) :
    t'.find path' j = t.find path' j := by
  have after := tree.link aligned parent absent linked
  unfold Tables.find
  rw [if_neg after.nonempty, if_neg tree.nonempty, linked.start]
  rcases tree.walk_linked aligned parent absent linked path' with same | ⟨gone, new⟩
  · rw [same]
    cases found : walk (child t.mem) (3, t.pageTablesStart.toNat) path' with
    | none => rfl
    | some node =>
        have reaches : t.Reaches path' node := found
        rcases node with ⟨level', table'⟩
        apply linked.target_same (tree.inside _ _ _ parent) (tree.inside _ _ _ reaches)
        rintro ⟨rfl, -⟩
        -- the entry that was changed is not one of a PML1 table
        obtain rfl := tree.apart _ _ _ _ _ parent reaches
        have depth := parent.level
        dsimp only at depth
        omega
  · rw [gone, new]
    exact (blank_page linked.blank j).2

end Link

end Tyleros.Boot.Paging
