import Tyleros.Basic
import Mathlib.Data.List.Dedup

/-!
# The hash map

`adt::hash_map` of `libadt/hash_map.h`: open addressing, where the last entry of the array is
the sentinel at which a search wraps around. `insert`, `reserve` and the copy into the larger
array call each other. A loop that is still running when its fuel is used up is
`Stop.hang`, so that a call terminates if some fuel is enough.

`reserve` fills the new array with zeros, and so no entry is marked as empty. Nothing is ever
inserted then (`insert_present`), and the map does what a finite map does only as long as it is
not called (`refines_iff`).
-/

namespace Tyleros.Adt

/-- An integral type. -/
structure IntegralType where
  bits : Nat
  signed : Bool
  deriving DecidableEq, Repr

/-- The values of an integral type. -/
abbrev IntegralType.Value (T : IntegralType) : Type := BitVec T.bits

/-- `hash_traits<T>::hash`: the conversion to `unsigned long long`. -/
def IntegralType.hash (T : IntegralType) (value : T.Value) : BitVec 64 :=
  if T.signed then value.signExtend 64 else value.setWidth 64

namespace HashMap

/-- `hash_map::entry`; `data` is the pair of `first` and `second`. -/
structure Entry (T : IntegralType) (V : Type) where
  empty : Bool
  sentinel : Bool
  first : T.Value
  second : V
  deriving DecidableEq, Repr

end HashMap

/-- `hash_map`. The array is `none` for the null pointer. -/
structure HashMap (T : IntegralType) (V : Type) where
  log2capacity : BitVec 64
  numElems : BitVec 64
  data : Option (List (HashMap.Entry T V))
  deriving DecidableEq, Repr

namespace HashMap

variable {T : IntegralType} {V : Type}

/-- `hash_map()`. -/
def initial : HashMap T V := ⟨0, 0, none⟩

/-- `capacity()`: `1 << log2capacity` is an `int`. -/
def capacity (m : HashMap T V) : BitVec 64 := ((1 : BitVec 32) <<< m.log2capacity).signExtend 64

/-- `size()`. -/
def size (m : HashMap T V) : BitVec 64 := m.numElems

/-- `bucket`. -/
def bucket (m : HashMap T V) (k : T.Value) : Nat := (T.hash k &&& (m.capacity - 1)).toNat

/-- `data[idx]`. -/
def entryAt (data : Option (List (Entry T V))) (idx : Nat) : Except Stop (Entry T V) :=
  match data.bind (·[idx]?) with
  | some e => .ok e
  | none => .error (.fault "page fault")

/-! ## `iterator` -/

/-- `advance_til_non_empty_or_end`. -/
def advanceTilNonEmptyOrEnd (data : Option (List (Entry T V))) :
    Nat → Nat → Except Stop (Option Nat)
  | 0, _ => .error .hang
  | fuel + 1, current => do
    let e ← entryAt data current
    if e.empty ∧ ¬ e.sentinel then advanceTilNonEmptyOrEnd data fuel (current + 1)
    else if e.sentinel then return none
    else return some current

/-- `begin()`: `iterator(data)`. -/
def begin_ (fuel : Nat) (data : Option (List (Entry T V))) : Except Stop (Option Nat) :=
  if data.isSome then do
    let e ← entryAt data 0
    if e.empty then advanceTilNonEmptyOrEnd data fuel 0
    else if e.sentinel then return none
    else return some 0
  else .ok none

/-- `operator++`. -/
def increment (fuel : Nat) (data : Option (List (Entry T V))) :
    Option Nat → Except Stop (Option Nat)
  | some current => advanceTilNonEmptyOrEnd data fuel current
  | none => .ok none

/-! ## The calls -/

/-- The loop of `insert`: `none` if it finds the key, or else the index that it stops at. -/
def insertLoop (data : Option (List (Entry T V))) (k : T.Value) :
    Nat → Nat → Except Stop (Option Nat)
  | 0, _ => .error .hang
  | fuel + 1, idx => do
    let e ← entryAt data idx
    if e.first = k then return none
    else if e.empty then return some idx
    else if e.sentinel then insertLoop data k fuel 0
    else insertLoop data k fuel (idx + 1)

/-- The loop of `lookup`. -/
def lookupLoop (data : Option (List (Entry T V))) (k : T.Value) :
    Nat → Nat → Except Stop (Option V)
  | 0, _ => .error .hang
  | fuel + 1, idx => do
    let e ← entryAt data idx
    if e.empty then return none
    else if e.first = k then return some e.second
    else if e.sentinel then lookupLoop data k fuel 0
    else lookupLoop data k fuel idx

/-- `lookup`; the result is the value that the pointer points to. -/
def lookup (fuel : Nat) (m : HashMap T V) (k : T.Value) : Except Stop (Option V) :=
  lookupLoop m.data k fuel (m.bucket k)

/-- `contains`. -/
def contains (fuel : Nat) (m : HashMap T V) (k : T.Value) : Except Stop Bool := do
  return (← m.lookup fuel k).isSome

/-- `data[idx].data = kv; data[idx].empty = false`. -/
def store (data : Option (List (Entry T V))) (idx : Nat) (k : T.Value) (v : V) :
    Option (List (Entry T V)) :=
  data.map (·.modify idx fun e => { e with empty := false, first := k, second := v })

/-- The array that `reserve` allocates and fills with zeros; the last entry is the sentinel. -/
def zeroed (zero : V) (capacity : Nat) : List (Entry T V) :=
  (List.replicate capacity ⟨false, false, 0, zero⟩).modify (capacity - 1)
    fun e => { e with sentinel := true }

mutual

/-- `insert`, where `zero` is the value of which all bytes are zero. -/
def insert (zero : V) : Nat → HashMap T V → T.Value → V → Except Stop (Bool × HashMap T V)
  | 0, _, _, _ => .error .hang
  | fuel + 1, m, k, v => do
    let m ← reserve zero fuel m (m.size + 1)
    match ← insertLoop m.data k fuel (m.bucket k) with
    | none => return (true, m)
    | some idx =>
      return (false, { m with data := store m.data idx k v, numElems := m.numElems + 1 })

/-- `reserve`. -/
def reserve (zero : V) : Nat → HashMap T V → BitVec 64 → Except Stop (HashMap T V)
  | 0, _, _ => .error .hang
  | fuel + 1, m, bytes =>
    if bytes + 1 ≤ m.capacity - 1 then .ok m
    else do
      let m := { m with log2capacity := if m.capacity = 0 then 6 else m.log2capacity + 1 }
      let newMap := { (initial : HashMap T V) with
        log2capacity := m.log2capacity
        data := some (zeroed zero m.capacity.toNat) }
      let newMap ← insertAll zero fuel m.data (← begin_ fuel m.data) newMap
      return { m with data := newMap.data }

/-- The loop `for (auto &[key, value] : *this)` of `reserve`. -/
def insertAll (zero : V) : Nat → Option (List (Entry T V)) → Option Nat → HashMap T V →
    Except Stop (HashMap T V)
  | 0, _, _, _ => .error .hang
  | _ + 1, _, none, newMap => .ok newMap
  | fuel + 1, data, some current, newMap => do
    let e ← entryAt data current
    let (_, newMap) ← insert zero fuel newMap e.first e.second
    insertAll zero fuel data (← increment fuel data (some current)) newMap

end

/-! ## Finite maps -/

inductive Call (T : IntegralType) (V : Type) where
  | insert (k : T.Value) (v : V)
  | lookup (k : T.Value)
  | contains (k : T.Value)
  deriving DecidableEq, Repr

inductive Answer (V : Type) where
  | inserted (present : Bool)
  | found (value : Option V)
  | contained (present : Bool)
  deriving DecidableEq, Repr

/-- Execute a call. -/
def Call.execute (zero : V) (fuel : Nat) (m : HashMap T V) :
    Call T V → Except Stop (Answer V × HashMap T V)
  | .insert k v => do
    let (present, m) ← m.insert zero fuel k v
    return (.inserted present, m)
  | .lookup k => do return (.found (← m.lookup fuel k), m)
  | .contains k => do return (.contained (← m.contains fuel k), m)

/-- What a finite map answers, after these pairs were inserted in this order. -/
def Call.answer (pairs : List (T.Value × V)) : Call T V → Answer V
  | .insert k _ => .inserted (k ∈ pairs.map Prod.fst)
  | .lookup k => .found (pairs.lookup k)
  | .contains k => .contained (k ∈ pairs.map Prod.fst)

/-- The pairs that were inserted after a call. -/
def Call.pairs (pairs : List (T.Value × V)) : Call T V → List (T.Value × V)
  | .insert k v => pairs ++ [(k, v)]
  | _ => pairs

/-- Every call terminates with the answer of the finite map, and the size is the number of
different keys. -/
def Refines (zero : V) : HashMap T V → List (T.Value × V) → List (Call T V) → Prop
  | _, _, [] => True
  | m, pairs, call :: calls => ∃ fuel m',
    call.execute zero fuel m = .ok (call.answer pairs, m') ∧
      m'.size.toNat = ((call.pairs pairs).map Prod.fst).dedup.length ∧
      Refines zero m' (call.pairs pairs) calls

/-! ## An array without room -/

section NoRoom

variable {zero : V} {data : Option (List (Entry T V))} {m m' : HashMap T V} {k : T.Value}
  {fuel idx : Nat}

/-- No entry is marked as empty. -/
def NoRoom (data : Option (List (Entry T V))) : Prop :=
  ∀ entries, data = some entries → ∀ e ∈ entries, e.empty = false

theorem noRoom_none : NoRoom (none : Option (List (Entry T V))) := fun _ h => nomatch h

theorem entryAt_mem {e : Entry T V} (h : entryAt data idx = .ok e) :
    ∃ entries, data = some entries ∧ e ∈ entries := by
  unfold entryAt at h
  cases data with
  | none => cases h
  | some entries =>
      rw [Option.bind_some] at h
      cases read : entries[idx]? with
      | none =>
          rw [read] at h
          cases h
      | some e' =>
          rw [read] at h
          cases h
          exact ⟨entries, rfl, List.mem_of_getElem? read⟩

theorem NoRoom.entryAt {e : Entry T V} (noRoom : NoRoom data) (h : entryAt data idx = .ok e) :
    e.empty = false := by
  obtain ⟨entries, array, mem⟩ := entryAt_mem h
  exact noRoom entries array e mem

/-- The entries of a new array: all are zero, and one is the sentinel. -/
theorem mem_zeroed {capacity : Nat} {e : Entry T V} (mem : e ∈ zeroed zero capacity) :
    e.empty = false ∧ e.first = 0 := by
  obtain ⟨i, read⟩ := List.mem_iff_getElem?.mp mem
  unfold zeroed at read
  rw [List.getElem?_modify, List.getElem?_replicate] at read
  obtain ⟨e', blank, changed⟩ := Option.map_eq_some_iff.mp read
  split at blank
  · cases blank
    subst changed
    dsimp only
    split
    · exact ⟨rfl, rfl⟩
    · exact ⟨rfl, rfl⟩
  · cases blank

theorem noRoom_zeroed (capacity : Nat) : NoRoom (some (zeroed (T := T) zero capacity)) := by
  intro entries array e mem
  cases array
  exact (mem_zeroed mem).1

/-- Without an empty entry, the loop of `insert` ends with the key only. -/
theorem NoRoom.insertLoop {found : Option Nat} (noRoom : NoRoom data)
    (h : insertLoop data k fuel idx = .ok found) : found = none := by
  induction fuel generalizing idx with
  | zero => cases h
  | succ fuel ih =>
      unfold HashMap.insertLoop at h
      obtain ⟨e, read, h⟩ := bind_eq_ok h
      rw [noRoom.entryAt read] at h
      split at h
      · cases h
        rfl
      · rw [if_neg Bool.false_ne_true] at h
        split at h
        · exact ih h
        · exact ih h

/-- Nothing is ever inserted into an array without room: `insert` says that the key is there,
and the size stays. It holds of all three functions together, by induction on the fuel. -/
theorem noRoom_calls (zero : V) (fuel : Nat) :
    (∀ (m : HashMap T V) k v present m', NoRoom m.data →
      insert zero fuel m k v = .ok (present, m') →
        present = true ∧ NoRoom m'.data ∧ m'.numElems = m.numElems) ∧
    (∀ (m : HashMap T V) bytes m', NoRoom m.data → reserve zero fuel m bytes = .ok m' →
      NoRoom m'.data ∧ m'.numElems = m.numElems) ∧
    (∀ data current (newMap newMap' : HashMap T V), NoRoom newMap.data →
      insertAll zero fuel data current newMap = .ok newMap' → NoRoom newMap'.data) := by
  induction fuel with
  | zero =>
      refine ⟨?_, ?_, ?_⟩
      · intro m k v present m' _ h
        cases h
      · intro m bytes m' _ h
        cases h
      · intro data current newMap newMap' _ h
        cases h
  | succ fuel ih =>
      obtain ⟨insert_, reserve_, insertAll_⟩ := ih
      refine ⟨?_, ?_, ?_⟩
      · intro m k v present m' noRoom h
        unfold insert at h
        obtain ⟨m₁, reserved, h⟩ := bind_eq_ok h
        obtain ⟨found, searched, h⟩ := bind_eq_ok h
        obtain ⟨noRoom₁, size⟩ := reserve_ m _ m₁ noRoom reserved
        have none_ := noRoom₁.insertLoop searched
        subst none_
        cases h
        exact ⟨rfl, noRoom₁, size⟩
      · intro m bytes m' noRoom h
        unfold reserve at h
        split at h
        · cases h
          exact ⟨noRoom, rfl⟩
        · obtain ⟨current, begins, h⟩ := bind_eq_ok h
          obtain ⟨newMap, copied, h⟩ := bind_eq_ok h
          cases h
          have noRoom' := insertAll_ _ _ _ _ (noRoom_zeroed _) copied
          exact ⟨noRoom', rfl⟩
      · intro data current newMap newMap' noRoom h
        cases current with
        | none =>
            cases h
            exact noRoom
        | some current =>
            unfold insertAll at h
            obtain ⟨e, read, h⟩ := bind_eq_ok h
            obtain ⟨⟨present, newMap₁⟩, inserted, h⟩ := bind_eq_ok h
            obtain ⟨next, incremented, h⟩ := bind_eq_ok h
            obtain ⟨-, noRoom₁, -⟩ := insert_ _ _ _ _ _ noRoom inserted
            exact insertAll_ _ _ _ _ noRoom₁ h

/-- On an array without room `insert` finds every key, if it returns. -/
theorem insert_present {v : V} {present : Bool} (noRoom : NoRoom m.data)
    (h : insert zero fuel m k v = .ok (present, m')) :
    present = true ∧ NoRoom m'.data ∧ m'.numElems = m.numElems :=
  (noRoom_calls zero fuel).1 m k v present m' noRoom h

/-- There is no array to look into. -/
theorem lookup_initial (k : T.Value) {value : Option V} : lookup fuel initial k ≠ .ok value := by
  cases fuel with
  | zero => exact fun h => nomatch h
  | succ fuel => exact fun h => nomatch h

/-- Without an empty entry and without the key, the loop of `insert` goes around for ever. -/
theorem insertLoop_hangs {entries : List (Entry T V)}
    (others : ∀ e ∈ entries, e.empty = false ∧ e.first ≠ k)
    (wraps : ∀ e, entries[entries.length - 1]? = some e → e.sentinel = true)
    (inside : idx < entries.length) : insertLoop (some entries) k fuel idx = .error .hang := by
  induction fuel generalizing idx with
  | zero => rfl
  | succ fuel ih =>
      have at_ : entries[idx]? = some entries[idx] := List.getElem?_eq_getElem inside
      have read : entryAt (some entries) idx = .ok entries[idx] := by
        unfold entryAt
        rw [Option.bind_some, at_]
      obtain ⟨full, other⟩ := others _ (List.getElem_mem inside)
      unfold insertLoop
      rw [read, ok_bind, full, if_neg other, if_neg Bool.false_ne_true]
      split
      · exact ih (by omega)
      · next inner =>
          have notLast : idx ≠ entries.length - 1 := by
            rintro last
            exact inner (wraps _ (last ▸ at_))
          exact ih (by omega)

theorem capacity_initial : (initial : HashMap T V).capacity = 1 :=
  show ((1 : BitVec 32) <<< (0 : BitVec 64)).signExtend 64 = 1 by decide

theorem capacity_one (n : BitVec 64) (data : Option (List (Entry T V))) :
    (⟨1, n, data⟩ : HashMap T V).capacity = 2 :=
  show ((1 : BitVec 32) <<< (1 : BitVec 64)).signExtend 64 = 2 by decide

/-- The first array has two entries, and nothing is copied into it. -/
theorem reserve_initial (zero : V) (fuel : Nat) :
    reserve zero (fuel + 1) (initial : HashMap T V) 1 =
      (insertAll zero fuel none none ⟨1, 0, some (zeroed zero 2)⟩).map
        fun newMap => ⟨1, 0, newMap.data⟩ := by
  unfold reserve
  rw [capacity_initial, if_neg (by decide), if_neg (by decide)]
  have log2capacity : (initial : HashMap T V).log2capacity + 1 = 1 := rfl
  rw [log2capacity]
  dsimp only
  rw [capacity_one]
  show Except.bind (insertAll zero fuel none none ⟨1, 0, some (zeroed zero 2)⟩) _ = _
  cases insertAll zero fuel none none (⟨1, 0, some (zeroed zero 2)⟩ : HashMap T V) <;> rfl

/-- The first `insert` does not return unless the key is 0. -/
theorem insert_hangs (zero : V) (other : k ≠ 0) (v : V) (fuel : Nat) :
    insert zero fuel initial k v = .error .hang := by
  have size : (initial : HashMap T V).size + 1 = 1 := rfl
  match fuel with
  | 0 => rfl
  | 1 => rfl
  | 2 =>
    unfold insert
    rw [size, reserve_initial]
    rfl
  | fuel + 3 =>
    have others : ∀ e ∈ zeroed (T := T) zero 2, e.empty = false ∧ e.first ≠ k := by
      intro e mem
      obtain ⟨full, blank⟩ := mem_zeroed mem
      exact ⟨full, fun same => other (same.symm.trans blank)⟩
    have wraps : ∀ e, (zeroed (T := T) zero 2)[1]? = some e → e.sentinel = true := by
      intro e last
      cases last
      rfl
    have inside : bucket (⟨1, 0, some (zeroed zero 2)⟩ : HashMap T V) k < 2 := by
      unfold bucket
      rw [capacity_one, BitVec.toNat_and]
      exact Nat.lt_succ_of_le Nat.and_le_right
    have reserved : reserve zero (fuel + 2) (initial : HashMap T V) 1 =
        .ok ⟨1, 0, some (zeroed zero 2)⟩ := reserve_initial zero (fuel + 1)
    unfold insert
    rw [size, reserved, ok_bind, insertLoop_hangs others wraps inside]
    rfl

end NoRoom

/-! ## Calls -/

/-- Already the first call does not do what a finite map does. -/
theorem first_call (zero : V) (fuel : Nat) (m : HashMap T V) (call : Call T V) :
    call.execute zero fuel initial ≠ .ok (call.answer [], m) := by
  intro h
  cases call with
  | insert k v =>
      obtain ⟨⟨present, m'⟩, inserted, h⟩ := bind_eq_ok h
      obtain ⟨rfl, -, -⟩ := insert_present noRoom_none inserted
      cases h
  | lookup k =>
      obtain ⟨value, found, -⟩ := bind_eq_ok h
      exact lookup_initial k found
  | contains k =>
      obtain ⟨present, contained, -⟩ := bind_eq_ok h
      obtain ⟨value, found, -⟩ := bind_eq_ok contained
      exact lookup_initial k found

/-- A map that starts empty does what a finite map does exactly if it is never called. -/
theorem refines_iff (zero : V) (calls : List (Call T V)) :
    Refines zero initial [] calls ↔ calls = [] := by
  cases calls with
  | nil => exact iff_of_true trivial rfl
  | cons call calls =>
      refine iff_of_false ?_ (List.cons_ne_nil _ _)
      rintro ⟨fuel, m, answered, -, -⟩
      exact first_call zero fuel m call answered

/-- `int`, and a map to numbers in which 5 is inserted. -/
theorem not_refines_insert :
    ¬ Refines (T := ⟨32, true⟩) 0 initial [] [.insert 5 7, .lookup 5] := by
  rintro ⟨fuel, m, answered, -, -⟩
  exact first_call 0 fuel m _ answered

end HashMap

end Tyleros.Adt
