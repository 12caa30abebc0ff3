import Mathlib.Data.List.Nodup
import Mathlib.Data.Nat.ModEq
import Mathlib.Logic.Function.Basic

/-!
# Memory behind a page table

Bytes live in frames; a page table gives each page the frame it is mapped to and
whether it may be written. Whether the accesses of the supervisor, which these are, heed
the latter is up to the processor (`writeProtect`). Words of eight bytes are little-endian
and need no alignment, so a word may lie on two pages. Loads and stores that are not
allowed have no result.

A list of pages that are mapped to different frames (`Maps`) is memory in the plain
sense: what is stored is loaded again, and other words keep their values
(`storeWord_spec`, `storeBytes_spec`); pages come and go without a change to the
words of the others (`map_spec`, `unmap_spec`).
-/

namespace Tyleros.Lib

structure PageEntry where
  frame : Nat
  writable : Bool
  deriving DecidableEq, Repr

/-- Memory with pages of `n` bytes; pages and frames are given by their addresses.
`writeProtect` is the bit WP of CR0: while it is clear, the supervisor writes to every page
that is mapped. -/
structure PagedMemory (n : Nat) where
  tables : Nat → Option PageEntry
  bytes : Nat → UInt8
  writeProtect : Bool

namespace PagedMemory

variable {n : Nat}

/-- The entry for the page of an address. -/
def entry (m : PagedMemory n) (x : Nat) : Option PageEntry := m.tables (x / n * n)

def loadByte (m : PagedMemory n) (x : Nat) : Option UInt8 :=
  (m.entry x).map fun e => m.bytes (e.frame + x % n)

def storeByte (m : PagedMemory n) (x : Nat) (b : UInt8) : Option (PagedMemory n) :=
  match m.entry x with
  | none => none
  | some e =>
    if e.writable || !m.writeProtect then
      some { m with bytes := Function.update m.bytes (e.frame + x % n) b }
    else none

def loadBytes (m : PagedMemory n) : Nat → Nat → Option (List UInt8)
  | _, 0 => some []
  | x, k + 1 => match m.loadByte x, m.loadBytes (x + 1) k with
    | some b, some bs => some (b :: bs)
    | _, _ => none

def storeBytes (m : PagedMemory n) : Nat → List UInt8 → Option (PagedMemory n)
  | _, [] => some m
  | x, b :: bs => match m.storeByte x b with
    | none => none
    | some m' => storeBytes m' (x + 1) bs

/-- The number with these digits to base 256, the least one first. -/
def wordOf : List UInt8 → Nat
  | [] => 0
  | b :: bs => b.toNat + 256 * wordOf bs

/-- The `k` least digits of a number. -/
def bytesOf : Nat → Nat → List UInt8
  | 0, _ => []
  | k + 1, v => UInt8.ofNat v :: bytesOf k (v / 256)

def loadWord (m : PagedMemory n) (a : Nat) : Option Nat := (m.loadBytes a 8).map wordOf

def storeWord (m : PagedMemory n) (a v : Nat) : Option (PagedMemory n) :=
  m.storeBytes a (bytesOf 8 v)

/-- Enter a page into the table. -/
def map (m : PagedMemory n) (v : Nat) (e : PageEntry) : PagedMemory n :=
  { m with tables := Function.update m.tables v (some e) }

/-- Take a page out of the table. -/
def unmap (m : PagedMemory n) (v : Nat) : PagedMemory n :=
  { m with tables := Function.update m.tables v none }

theorem length_bytesOf (k v : Nat) : (bytesOf k v).length = k := by
  induction k generalizing v with
  | zero => rfl
  | succ k ih => rw [bytesOf, List.length_cons, ih]

theorem wordOf_bytesOf (k v : Nat) : wordOf (bytesOf k v) = v % 256 ^ k := by
  induction k generalizing v with
  | zero => rw [bytesOf, wordOf, Nat.pow_zero, Nat.mod_one]
  | succ k ih =>
      rw [bytesOf, wordOf, ih, Nat.pow_succ, Nat.mul_comm (256 ^ k), Nat.mod_mul]
      rfl

/-! ## Pages on different frames -/

/-- These pages are entered in the table, with different frames. -/
structure Maps (m : PagedMemory n) (pages : List (Nat × PageEntry)) : Prop where
  entry : ∀ v e, (v, e) ∈ pages → m.tables v = some e
  aligned : ∀ v e, (v, e) ∈ pages → n ∣ v ∧ n ∣ e.frame
  frames : (pages.map fun p => p.2.frame).Nodup

/-- The `k` bytes from `x` on lie on these pages. -/
def Covered (n : Nat) (pages : List (Nat × PageEntry)) (x k : Nat) : Prop :=
  ∀ i, i < k → ∃ e, ((x + i) / n * n, e) ∈ pages

section Covered

variable {pages pages' : List (Nat × PageEntry)} {x y k l : Nat}

theorem Covered.mono (covered : Covered n pages x k) (subset : ∀ p ∈ pages, p ∈ pages') :
    Covered n pages' x k := by
  intro i hi
  obtain ⟨e, mem⟩ := covered i hi
  exact ⟨e, subset _ mem⟩

/-- A part of a covered range. -/
theorem Covered.part (covered : Covered n pages x k) (first : x ≤ y) (last : y + l ≤ x + k) :
    Covered n pages y l := by
  intro i hi
  have position : y + i = x + (y + i - x) := by omega
  rw [position]
  exact covered _ (by omega)

/-- Ranges on different pages do not overlap. -/
theorem Covered.apart (left : Covered n pages x k) (right : Covered n pages' y l)
    (different : ∀ v e e', (v, e) ∈ pages → (v, e') ∉ pages') (hk : 0 < k) (hl : 0 < l) :
    x + k ≤ y ∨ y + l ≤ x := by
  by_contra overlap
  have both : x + (max x y - x) = y + (max x y - y) := by omega
  obtain ⟨e, mem⟩ := left (max x y - x) (by omega)
  obtain ⟨e', mem'⟩ := right (max x y - y) (by omega)
  rw [both] at mem
  exact different _ _ _ mem mem'

/-- A range inside one page. -/
theorem Covered.of_page {v : Nat} {e : PageEntry} (mem : (v, e) ∈ pages) (aligned : n ∣ v)
    (first : v ≤ x) (last : x + k ≤ v + n) : Covered n pages x k := by
  intro i hi
  obtain ⟨q, rfl⟩ := aligned
  have quotient : (x + i) / n = q := by
    refine Nat.div_eq_of_lt_le ?_ ?_
    · rw [Nat.mul_comm]
      omega
    · rw [Nat.succ_mul, Nat.mul_comm]
      omega
  rw [quotient, Nat.mul_comm]
  exact ⟨e, mem⟩

end Covered

section Spec

variable {m m' : PagedMemory n} {pages : List (Nat × PageEntry)} {x y : Nat}

theorem Maps.of_tables (maps : Maps m pages) (same : m'.tables = m.tables) : Maps m' pages :=
  ⟨fun v e mem => same ▸ maps.entry v e mem, maps.aligned, maps.frames⟩

theorem Maps.perm {pages' : List (Nat × PageEntry)} (maps : Maps m pages)
    (perm : pages.Perm pages') : Maps m pages' := by
  refine ⟨fun v e mem => maps.entry v e (perm.mem_iff.mpr mem),
    fun v e mem => maps.aligned v e (perm.mem_iff.mpr mem), ?_⟩
  exact (perm.map _).nodup_iff.mp maps.frames

/-- A page that is in the table twice is one entry of the list. -/
theorem Maps.different {front back : List (Nat × PageEntry)} (maps : Maps m (front ++ back))
    {v : Nat} {e e' : PageEntry} (mem : (v, e) ∈ front) : (v, e') ∉ back := by
  intro mem'
  have first := maps.entry v e (List.mem_append_left _ mem)
  have second := maps.entry v e' (List.mem_append_right _ mem')
  rw [first] at second
  cases second
  have frames := maps.frames
  rw [List.map_append] at frames
  exact List.disjoint_of_nodup_append frames (List.mem_map_of_mem mem) (List.mem_map_of_mem mem')

/-- Different addresses on the pages are at different places. -/
theorem Maps.address_inj {e e' : PageEntry} (maps : Maps m pages) (hx : (x / n * n, e) ∈ pages)
    (hy : (y / n * n, e') ∈ pages) (same : e.frame + x % n = e'.frame + y % n) : x = y := by
  obtain ⟨a, ha⟩ := (maps.aligned _ _ hx).2
  obtain ⟨b, hb⟩ := (maps.aligned _ _ hy).2
  rcases Nat.eq_zero_or_pos n with rfl | pos
  · simpa only [ha, hb, Nat.zero_mul, Nat.zero_add, Nat.mod_zero] using same
  have quotients : a = b := by
    have := congrArg (· / n) same
    simpa only [ha, hb, Nat.mul_add_div pos, Nat.div_eq_of_lt (Nat.mod_lt _ pos),
      Nat.add_zero] using this
  have frames : e.frame = e'.frame := by rw [ha, hb, quotients]
  have pagesEq : (x / n * n, e) = (y / n * n, e') :=
    List.inj_on_of_nodup_map maps.frames hx hy frames
  have starts : x / n * n = y / n * n := congrArg Prod.fst pagesEq
  have offsets : x % n = y % n := by omega
  rw [← Nat.div_add_mod' x n, ← Nat.div_add_mod' y n, starts, offsets]

theorem storeByte_tables {b : UInt8} (stored : m.storeByte x b = some m') :
    m'.tables = m.tables := by
  unfold storeByte at stored
  split at stored
  · cases stored
  · split at stored <;> cases stored
    rfl

theorem storeByte_self {b : UInt8} (stored : m.storeByte x b = some m') :
    m'.loadByte x = some b := by
  unfold storeByte at stored
  split at stored
  · cases stored
  · next e found =>
      split at stored <;> cases stored
      have entry : PagedMemory.entry
          ⟨m.tables, Function.update m.bytes (e.frame + x % n) b, m.writeProtect⟩ x = some e := found
      rw [loadByte, entry, Option.map_some]
      exact congrArg some (Function.update_self _ _ _)

theorem storeByte_of_ne {b : UInt8} (maps : Maps m pages) (hx : Covered n pages x 1)
    (hy : Covered n pages y 1) (ne : y ≠ x) (stored : m.storeByte x b = some m') :
    m'.loadByte y = m.loadByte y := by
  obtain ⟨e, mem⟩ := hx 0 Nat.zero_lt_one
  obtain ⟨e', mem'⟩ := hy 0 Nat.zero_lt_one
  have at_ : m.entry x = some e := maps.entry _ _ mem
  have at' : m.entry y = some e' := maps.entry _ _ mem'
  unfold storeByte at stored
  rw [at_] at stored
  dsimp only at stored
  split at stored <;> cases stored
  have same : PagedMemory.entry
      ⟨m.tables, Function.update m.bytes (e.frame + x % n) b, m.writeProtect⟩ y = some e' := at'
  rw [loadByte, loadByte, same, at', Option.map_some, Option.map_some]
  exact congrArg some (Function.update_of_ne (fun eq => ne (maps.address_inj mem' mem eq)) _ _)

theorem storeBytes_tables {bs : List UInt8} (stored : m.storeBytes x bs = some m') :
    m'.tables = m.tables := by
  induction bs generalizing m x with
  | nil =>
      cases stored
      rfl
  | cons b bs ih =>
      unfold storeBytes at stored
      split at stored
      · cases stored
      · next mid first => exact (ih stored).trans (storeByte_tables first)

theorem storeBytes_of_apart {bs : List UInt8} (maps : Maps m pages)
    (covered : Covered n pages x bs.length) (hy : Covered n pages y 1)
    (apart : y < x ∨ x + bs.length ≤ y) (stored : m.storeBytes x bs = some m') :
    m'.loadByte y = m.loadByte y := by
  induction bs generalizing m x with
  | nil =>
      cases stored
      rfl
  | cons b bs ih =>
      rw [List.length_cons] at covered apart
      unfold storeBytes at stored
      split at stored
      · cases stored
      · next mid first =>
          have rest := ih (maps.of_tables (storeByte_tables first))
            (covered.part (by omega) (by omega)) (by omega) stored
          rw [rest]
          exact storeByte_of_ne maps (covered.part (Nat.le_refl _) (by omega)) hy (by omega) first

theorem storeBytes_self {bs : List UInt8} (maps : Maps m pages)
    (covered : Covered n pages x bs.length) (stored : m.storeBytes x bs = some m') :
    m'.loadBytes x bs.length = some bs := by
  induction bs generalizing m x with
  | nil => rfl
  | cons b bs ih =>
      rw [List.length_cons] at covered
      unfold storeBytes at stored
      split at stored
      · cases stored
      · next mid first =>
          have maps' := maps.of_tables (storeByte_tables first)
          have covered' : Covered n pages (x + 1) bs.length := covered.part (by omega) (by omega)
          have here : m'.loadByte x = some b := by
            rw [storeBytes_of_apart maps' covered' (covered.part (Nat.le_refl _) (by omega))
              (by omega) stored]
            exact storeByte_self first
          rw [List.length_cons, loadBytes, here, ih maps' covered' stored]

theorem loadBytes_congr {k : Nat} (same : ∀ i, i < k → m'.loadByte (x + i) = m.loadByte (x + i)) :
    m'.loadBytes x k = m.loadBytes x k := by
  induction k generalizing x with
  | zero => rfl
  | succ k ih =>
      have rest : m'.loadBytes (x + 1) k = m.loadBytes (x + 1) k := by
        refine ih fun i hi => ?_
        rw [Nat.add_assoc, Nat.add_comm 1]
        exact same (i + 1) (by omega)
      have here : m'.loadByte x = m.loadByte x := same 0 (Nat.succ_pos k)
      rw [loadBytes, loadBytes, here, rest]

/-- Storing bytes keeps the words elsewhere. -/
theorem storeBytes_spec {bs : List UInt8} (maps : Maps m pages)
    (covered : Covered n pages x bs.length) (stored : m.storeBytes x bs = some m') :
    m'.tables = m.tables ∧ ∀ a, Covered n pages a 8 → a + 8 ≤ x ∨ x + bs.length ≤ a →
      m'.loadWord a = m.loadWord a := by
  refine ⟨storeBytes_tables stored, fun a inPages apart => ?_⟩
  refine congrArg (Option.map wordOf) (loadBytes_congr fun i hi => ?_)
  exact storeBytes_of_apart maps covered (inPages.part (by omega) (by omega)) (by omega) stored

/-- Storing a word gives it its value and keeps the words elsewhere. -/
theorem storeWord_spec {v : Nat} (maps : Maps m pages) (covered : Covered n pages x 8)
    (small : v < 2 ^ 64) (stored : m.storeWord x v = some m') :
    m'.tables = m.tables ∧ m'.loadWord x = some v ∧
      ∀ a, Covered n pages a 8 → a + 8 ≤ x ∨ x + 8 ≤ a → m'.loadWord a = m.loadWord a := by
  have length := length_bytesOf 8 v
  have covered' : Covered n pages x (bytesOf 8 v).length := by rwa [length]
  have self := storeBytes_self maps covered' stored
  obtain ⟨tables, others⟩ := storeBytes_spec maps covered' stored
  rw [length] at self others
  have digits : 256 ^ 8 = 2 ^ 64 := by decide
  refine ⟨tables, ?_, others⟩
  rw [loadWord, self, Option.map_some, wordOf_bytesOf, digits, Nat.mod_eq_of_lt small]

/-- Writable pages can be written. -/
theorem storeBytes_isSome {bs : List UInt8}
    (writable : ∀ i, i < bs.length → ∃ e, m.entry (x + i) = some e ∧ e.writable = true) :
    ∃ m', m.storeBytes x bs = some m' := by
  induction bs generalizing m x with
  | nil => exact ⟨m, rfl⟩
  | cons b bs ih =>
      obtain ⟨e, found, allowed⟩ := writable 0 (Nat.succ_pos _)
      have first : m.storeByte x b =
          some { m with bytes := Function.update m.bytes (e.frame + x % n) b } := by
        unfold storeByte
        rw [Nat.add_zero] at found
        rw [found]
        exact if_pos (by rw [allowed, Bool.true_or])
      unfold storeBytes
      rw [first]
      refine ih fun i hi => ?_
      obtain ⟨e', found', allowed'⟩ := writable (i + 1) (Nat.succ_lt_succ hi)
      refine ⟨e', ?_, allowed'⟩
      rw [Nat.add_assoc, Nat.add_comm 1]
      exact found'

theorem loadByte_congr (bytes : m'.bytes = m.bytes) (same : m'.entry x = m.entry x) :
    m'.loadByte x = m.loadByte x := by
  rw [loadByte, loadByte, same, bytes]

/-- A new page on a frame of its own. -/
theorem map_spec {v : Nat} {e : PageEntry} (maps : Maps m pages) (free : m.tables v = none)
    (page : n ∣ v) (frame : n ∣ e.frame) (own : ∀ p ∈ pages, p.2.frame ≠ e.frame) :
    Maps (m.map v e) ((v, e) :: pages) ∧
      ∀ a, Covered n pages a 8 → (m.map v e).loadWord a = m.loadWord a := by
  have kept : ∀ w e', (w, e') ∈ pages → (m.map v e).tables w = m.tables w := by
    intro w e' mem
    refine Function.update_of_ne (fun eq => ?_) _ _
    rw [eq] at mem
    exact nomatch (maps.entry v e' mem).symm.trans free
  refine ⟨⟨fun w e' mem => ?_, fun w e' mem => ?_, ?_⟩, fun a covered => ?_⟩
  · rcases List.mem_cons.mp mem with eq | mem
    · cases eq
      exact Function.update_self _ _ _
    · rw [kept w e' mem]
      exact maps.entry w e' mem
  · rcases List.mem_cons.mp mem with eq | mem
    · cases eq
      exact ⟨page, frame⟩
    · exact maps.aligned w e' mem
  · rw [List.map_cons, List.nodup_cons]
    refine ⟨fun mem => ?_, maps.frames⟩
    obtain ⟨p, hp, eq⟩ := List.mem_map.mp mem
    exact own p hp eq
  · refine congrArg (Option.map wordOf) (loadBytes_congr fun i hi => loadByte_congr rfl ?_)
    obtain ⟨e', mem⟩ := covered i hi
    exact kept _ e' mem

theorem unmap_spec {v : Nat} {e : PageEntry} (maps : Maps m ((v, e) :: pages)) :
    Maps (m.unmap v) pages ∧
      ∀ a, Covered n pages a 8 → (m.unmap v).loadWord a = m.loadWord a := by
  have kept : ∀ w e', (w, e') ∈ pages → (m.unmap v).tables w = m.tables w := by
    intro w e' mem
    refine Function.update_of_ne (fun eq => ?_) _ _
    rw [eq] at mem
    have front : Maps m ([(v, e)] ++ pages) := maps
    exact front.different (List.mem_singleton.mpr rfl) mem
  refine ⟨⟨fun w e' mem => ?_, fun w e' mem => ?_, ?_⟩, fun a covered => ?_⟩
  · rw [kept w e' mem]
    exact maps.entry w e' (List.mem_cons_of_mem _ mem)
  · exact maps.aligned w e' (List.mem_cons_of_mem _ mem)
  · exact (List.nodup_cons.mp maps.frames).2
  · refine congrArg (Option.map wordOf) (loadBytes_congr fun i hi => loadByte_congr rfl ?_)
    obtain ⟨e', mem⟩ := covered i hi
    exact kept _ e' mem

end Spec

/-! ## Places -/

section Places

variable {m m' : PagedMemory n} {x y : Nat}

/-- Where the byte at an address lies. -/
def place (m : PagedMemory n) (x : Nat) : Option Nat := (m.entry x).map fun e => e.frame + x % n

theorem place_of_tables (same : m'.tables = m.tables) (x : Nat) : m'.place x = m.place x := by
  rw [place, place, entry, entry, same]

theorem loadByte_eq_place (m : PagedMemory n) (x : Nat) : m.loadByte x = (m.place x).map m.bytes := by
  rw [loadByte, place, Option.map_map]
  rfl

/-- What a store of one byte does to the bytes. -/
theorem storeByte_eq {b : UInt8} (stored : m.storeByte x b = some m') :
    ∃ a, m.place x = some a ∧ m' = { m with bytes := Function.update m.bytes a b } := by
  unfold storeByte at stored
  split at stored
  · cases stored
  · next e found =>
      split at stored
      · cases stored
        exact ⟨e.frame + x % n, by rw [place, found]; rfl, rfl⟩
      · cases stored

/-- A byte that lies at none of the places that are written. -/
theorem storeBytes_of_place {bs : List UInt8}
    (other : ∀ i, i < bs.length → ∀ a, m.place (x + i) = some a → m.place y ≠ some a)
    (stored : m.storeBytes x bs = some m') : m'.loadByte y = m.loadByte y := by
  induction bs generalizing m x with
  | nil =>
      cases stored
      rfl
  | cons b bs ih =>
      unfold storeBytes at stored
      split at stored
      · cases stored
      · next mid first =>
          have tables := storeByte_tables first
          obtain ⟨a, here, rfl⟩ := storeByte_eq first
          have rest := ih (fun i hi c at_ => ?_) stored
          · rw [rest, loadByte_eq_place, loadByte_eq_place, place_of_tables tables]
            cases at_ : m.place y with
            | none => rfl
            | some c =>
                have ne : c ≠ a := fun eq => other 0 (Nat.succ_pos _) a here (eq ▸ at_)
                exact congrArg some (Function.update_of_ne ne _ _)
          · rw [place_of_tables tables] at at_ ⊢
            refine other (i + 1) (Nat.succ_lt_succ hi) c ?_
            rw [Nat.add_comm i, ← Nat.add_assoc]
            exact at_

/-- Bytes that are less than a page apart lie at different places. -/
theorem place_ne {i j a : Nat} (aligned : ∀ v e, m.tables v = some e → n ∣ e.frame) (first : i < j)
    (last : j < i + n) (at_ : m.place (x + i) = some a) : m.place (x + j) ≠ some a := by
  intro at'
  obtain ⟨e, found, rfl⟩ := Option.map_eq_some_iff.mp at_
  obtain ⟨e', found', same⟩ := Option.map_eq_some_iff.mp at'
  obtain ⟨c, frame⟩ := aligned _ _ found
  obtain ⟨c', frame'⟩ := aligned _ _ found'
  have residues : x + j ≡ x + i [MOD n] := by
    have equal := congrArg (· % n) same
    simp only [frame, frame', Nat.mul_add_mod_self_left, Nat.mod_mod] at equal
    exact equal
  have shifted : j - i ≡ 0 [MOD n] := by
    have split_ : x + j = x + i + (j - i) := by omega
    rw [split_] at residues
    exact Nat.ModEq.add_left_cancel' (x + i) residues
  have small := Nat.le_of_dvd (by omega) ((Nat.modEq_zero_iff_dvd).mp shifted)
  omega

/-- What is stored is loaded again, if it is not longer than a page. -/
theorem storeBytes_self_of_aligned {bs : List UInt8}
    (aligned : ∀ v e, m.tables v = some e → n ∣ e.frame) (short : bs.length ≤ n)
    (stored : m.storeBytes x bs = some m') : m'.loadBytes x bs.length = some bs := by
  induction bs generalizing m x with
  | nil => rfl
  | cons b bs ih =>
      rw [List.length_cons] at short
      unfold storeBytes at stored
      split at stored
      · cases stored
      · next mid first =>
          have tables := storeByte_tables first
          have kept : ∀ v e, mid.tables v = some e → n ∣ e.frame := fun v e at_ =>
            aligned v e (tables ▸ at_)
          have here : m'.loadByte x = some b := by
            rw [storeBytes_of_place (fun i hi a at_ => ?_) stored]
            · exact storeByte_self first
            · intro at'
              refine place_ne (x := x) (i := 0) (j := i + 1) kept (Nat.succ_pos i) (by omega) at' ?_
              rw [Nat.add_comm i, ← Nat.add_assoc]
              exact at_
          rw [List.length_cons, loadBytes, here, ih kept (by omega) stored]

end Places

end PagedMemory

end Tyleros.Lib
