import Tyleros.Basic
import Tyleros.Lib.Machine
import Mathlib.Data.List.Count
import Mathlib.Logic.Function.Basic

/-!
# The lifetimes in an optional

`libadt/optional.h`: an `optional<T>` is raw storage for a `T` and a flag. The model keeps
apart what the flag says and whether a `T` is alive in the storage; the `T`s that are
brought to life are numbered, and those that are destroyed are kept in a list.

`set_value` assigns to the storage, also where `destroy` has just ended the life of what was
there. So the discipline is kept exactly by the programs that never copy or move a value
into an optional (`disciplined_iff`).
-/

namespace Tyleros.Adt.Optional

open Lib

/-- `optional_storage<T>`, with the number of the `T` that is alive in `data`. -/
structure Storage where
  value : Option Nat
  hasValue : Bool
  deriving DecidableEq, Repr

/-- Storage without a `T`. -/
def Storage.empty : Storage := ⟨none, false⟩

/-- The optionals that exist; `none` is a temporary. -/
structure State (ι : Type) where
  optionals : Option ι → Option Storage
  constructed : Nat
  destroyed : List Nat

inductive Op (ι : Type) where
  /-- `optional()` and `optional(none)`. -/
  | constructEmpty (x : ι)
  /-- `optional(const T &)` and `optional(T &&)`. -/
  | constructValue (x : ι)
  /-- `optional(const optional &)`. -/
  | constructCopy (x y : ι)
  /-- `optional(optional &&)`. -/
  | constructMove (x y : ι)
  /-- `operator=(const optional &)`. -/
  | assignCopy (x y : ι)
  /-- `operator=(optional &&)`. -/
  | assignMove (x y : ι)
  /-- `operator=(T)`. -/
  | assignValue (x : ι)
  /-- `operator=(none_t)`. -/
  | assignNone (x : ι)
  /-- `~optional()`. -/
  | destruct (x : ι)
  deriving DecidableEq, Repr

namespace State

variable {ι : Type} [DecidableEq ι]

/-- Write the storage of an optional. -/
def put (s : State ι) (x : Option ι) (storage : Option Storage) : State ι :=
  { s with optionals := Function.update s.optionals x storage }

/-- The storage of an optional that exists. -/
def storageOf (s : State ι) (x : Option ι) : Except Stop Storage :=
  match s.optionals x with
  | some storage => .ok storage
  | none => .error (.fault "no such optional")

/-- `optional_storage(const T &)` and `optional_storage(T &&)`. -/
def construct (s : State ι) (x : Option ι) : State ι :=
  { s.put x (some ⟨some s.constructed, true⟩) with constructed := s.constructed + 1 }

/-- `destroy()`. -/
def destroy (s : State ι) (x : Option ι) : Except Stop (State ι) := do
  let storage ← s.storageOf x
  if storage.hasValue then
    match storage.value with
    | some id => .ok { s.put x (some .empty) with destroyed := id :: s.destroyed }
    | none => .error (.fault "~T() where no T is alive")
  else return s.put x (some { storage with hasValue := false })

/-- `has_data()`. -/
def hasData (s : State ι) (x : Option ι) : Except Stop Bool := do
  return (← s.storageOf x).hasValue

/-- `set_value(const T &)` and `set_value(T &&)`. -/
def setValue (s : State ι) (x : Option ι) : Except Stop (State ι) := do
  let storage ← s.storageOf x
  match storage.value with
  | some _ => .ok (s.put x (some { storage with hasValue := true }))
  | none => .error (.fault "T::operator= where no T is alive")

/-- `get() &&`. -/
def take (s : State ι) (x : Option ι) : Except Stop (State ι) := do
  return s.put x (some { (← s.storageOf x) with hasValue := false })

/-- `operator=(const optional &)`. -/
def assignCopy (s : State ι) (x y : Option ι) : Except Stop (State ι) :=
  if x = y then .ok s
  else do
    let s ← s.destroy x
    if ← s.hasData y then s.setValue x else return s

/-- `operator=(optional &&)`. -/
def assignMove (s : State ι) (x y : Option ι) : Except Stop (State ι) := do
  let s ← s.destroy x
  if ← s.hasData y then (← s.take y).setValue x else return s

/-- `~optional()`, after which its storage is gone. -/
def destruct (s : State ι) (x : Option ι) : Except Stop (State ι) := do
  return (← s.destroy x).put x none

def step (s : State ι) : Op ι → Except Stop (State ι)
  | .constructEmpty x => .ok (s.put (some x) (some .empty))
  | .constructValue x => .ok (s.construct (some x))
  | .constructCopy x y => (s.put (some x) (some .empty)).assignCopy (some x) (some y)
  | .constructMove x y => (s.put (some x) (some .empty)).assignMove (some x) (some y)
  | .assignCopy x y => s.assignCopy (some x) (some y)
  | .assignMove x y => s.assignMove (some x) (some y)
  | .assignValue x => do
    -- `*this = optional(value)`
    let s ← (s.construct none).assignMove (some x) none
    s.destruct none
  | .assignNone x => s.destroy (some x)
  | .destruct x => s.destruct (some x)

end State

def machine (ι : Type) [DecidableEq ι] : Machine (State ι) (Op ι) Stop := ⟨State.step⟩

/-- No optional exists. -/
def initial (ι : Type) : State ι := ⟨fun _ => none, 0, []⟩

section Discipline

variable {ι : Type}

/-- The storage of `x` holds the `T` with this number. -/
def State.Holds (s : State ι) (x : Option ι) (id : Nat) : Prop :=
  ∃ storage, s.optionals x = some storage ∧ storage.value = some id

/-- The flag of `x` is set. -/
def State.Full (s : State ι) (x : ι) : Prop :=
  ∃ storage, s.optionals (some x) = some storage ∧ storage.hasValue = true

/-- Every `T` that was brought to life is alive in the storage of an optional that exists,
and was not destroyed, or it was destroyed once. -/
def State.Accounted (s : State ι) : Prop :=
  ∀ id < s.constructed, ((∃ x, s.Holds x id) ∧ s.destroyed.count id = 0) ∨
    ((∀ x, ¬ s.Holds x id) ∧ s.destroyed.count id = 1)

/-- An optional is constructed where there is none, and used where there is one. -/
def Legal (s : State ι) : Op ι → Prop
  | .constructEmpty x => s.optionals (some x) = none
  | .constructValue x => s.optionals (some x) = none
  | .constructCopy x y => s.optionals (some x) = none ∧ s.optionals (some y) ≠ none
  | .constructMove x y => s.optionals (some x) = none ∧ s.optionals (some y) ≠ none
  | .assignCopy x y => s.optionals (some x) ≠ none ∧ s.optionals (some y) ≠ none
  | .assignMove x y => s.optionals (some x) ≠ none ∧ s.optionals (some y) ≠ none
  | .assignValue x => s.optionals (some x) ≠ none
  | .assignNone x => s.optionals (some x) ≠ none
  | .destruct x => s.optionals (some x) ≠ none

/-- The operation puts no value into an optional that exists: nothing is copied or moved
from another optional that has a value, and no value is assigned. -/
def Spares (s : State ι) : Op ι → Prop
  | .constructCopy _ y => ¬ s.Full y
  | .constructMove _ y => ¬ s.Full y
  | .assignCopy x y => x = y ∨ ¬ s.Full y
  | .assignMove x y => x = y ∨ ¬ s.Full y
  | .assignValue _ => False
  | _ => True

instance (s : State ι) (x : ι) : Decidable (s.Full x) :=
  decidable_of_iff ((s.optionals (some x)).any (·.hasValue) = true) (Option.any_eq_true _ _)

instance (s : State ι) : (o : Op ι) → Decidable (Legal s o)
  | .constructEmpty _ => inferInstanceAs (Decidable (_ = _))
  | .constructValue _ => inferInstanceAs (Decidable (_ = _))
  | .constructCopy _ _ => inferInstanceAs (Decidable (_ ∧ _))
  | .constructMove _ _ => inferInstanceAs (Decidable (_ ∧ _))
  | .assignCopy _ _ => inferInstanceAs (Decidable (_ ∧ _))
  | .assignMove _ _ => inferInstanceAs (Decidable (_ ∧ _))
  | .assignValue _ => inferInstanceAs (Decidable (_ ≠ _))
  | .assignNone _ => inferInstanceAs (Decidable (_ ≠ _))
  | .destruct _ => inferInstanceAs (Decidable (_ ≠ _))

instance [DecidableEq ι] (s : State ι) : (o : Op ι) → Decidable (Spares s o)
  | .constructCopy _ _ => inferInstanceAs (Decidable (¬ _))
  | .constructMove _ _ => inferInstanceAs (Decidable (¬ _))
  | .assignCopy _ _ => inferInstanceAs (Decidable (_ ∨ _))
  | .assignMove _ _ => inferInstanceAs (Decidable (_ ∨ _))
  | .assignValue _ => inferInstanceAs (Decidable False)
  | .constructEmpty _ | .constructValue _ | .assignNone _ | .destruct _ =>
    inferInstanceAs (Decidable True)

/-- The flags tell the truth, and the `T`s are where they are counted. -/
structure Inv (s : State ι) : Prop where
  temporary : s.optionals none = none
  flag : ∀ x storage, s.optionals x = some storage → storage.value.isSome = storage.hasValue
  unique : ∀ x y id, s.Holds x id → s.Holds y id → x = y
  old : ∀ x id, s.Holds x id → id < s.constructed
  past : ∀ id ∈ s.destroyed, id < s.constructed
  accounted : s.Accounted

variable {s s' : State ι} {x y : Option ι} {id : Nat} {storage : Option Storage} {o : Op ι}

theorem inv_initial : Inv (initial ι) where
  temporary := rfl
  flag := by rintro x storage ⟨⟩
  unique := by rintro x y id ⟨st, ⟨⟩, value⟩
  old := by rintro x id ⟨st, ⟨⟩, value⟩
  past := by rintro id ⟨⟩
  accounted := by rintro id ⟨⟩

theorem nothing_of_empty (empty : s.optionals x = none ∨ s.optionals x = some .empty) (id : Nat) :
    ¬ s.Holds x id := by
  rintro ⟨st, there, value⟩
  rcases empty with none_ | empty
  · cases none_.symm.trans there
  · cases empty.symm.trans there
    cases value

/-- The optional exists, and its flag tells the truth. -/
def State.Shaped (s : State ι) (x : Option ι) : Prop :=
  s.optionals x = some .empty ∨ ∃ id, s.optionals x = some ⟨some id, true⟩

theorem Inv.shaped (inv : Inv s) (exists_ : s.optionals x ≠ none) : s.Shaped x := by
  obtain ⟨⟨value, hasValue⟩, there⟩ := Option.ne_none_iff_exists'.mp exists_
  have flag := inv.flag x _ there
  cases value with
  | none =>
      obtain rfl : hasValue = false := flag.symm
      exact Or.inl there
  | some id =>
      obtain rfl : hasValue = true := flag.symm
      exact Or.inr ⟨id, there⟩

theorem Inv.empty_of_not_full {x : ι} (inv : Inv s) (exists_ : s.optionals (some x) ≠ none)
    (notFull : ¬ s.Full x) : s.optionals (some x) = some .empty := by
  rcases inv.shaped exists_ with empty | ⟨id, full⟩
  · exact empty
  · exact absurd ⟨_, full, rfl⟩ notFull

theorem hasData_eq {st : Storage} (there : s.optionals x = some st) :
    s.hasData x = .ok st.hasValue := by
  unfold State.hasData State.storageOf
  rw [there]
  rfl

variable [DecidableEq ι]

/-- The operation applies assignments and destructors of `T` to living `T`s only, and every
`T` is accounted for afterwards. -/
def Disciplined (s : State ι) (o : Op ι) : Prop := ∃ s', s.step o = .ok s' ∧ s'.Accounted

/-! ## What the storage of an optional holds -/

theorem State.put_self (s : State ι) (x : Option ι) (storage : Option Storage) :
    (s.put x storage).optionals x = storage := Function.update_self _ _ _

theorem State.put_ne (s : State ι) (storage : Option Storage) (other : y ≠ x) :
    (s.put x storage).optionals y = s.optionals y := Function.update_of_ne other _ _

theorem State.put_same (here : s.optionals x = storage) : s.put x storage = s := by
  unfold State.put
  rw [← here, Function.update_eq_self]

theorem State.holds_put_self :
    (s.put x storage).Holds x id ↔ ∃ st, storage = some st ∧ st.value = some id := by
  unfold State.Holds
  rw [State.put_self]

theorem State.holds_put_ne (other : y ≠ x) : (s.put x storage).Holds y id ↔ s.Holds y id := by
  unfold State.Holds
  rw [State.put_ne s storage other]

/-- Storage without a `T` is put where there is none. -/
theorem State.holds_put_blank (blank : storage = none ∨ storage = some .empty)
    (nothing : ∀ id, ¬ s.Holds x id) : (s.put x storage).Holds y id ↔ s.Holds y id := by
  by_cases other : y = x
  · subst other
    rw [State.holds_put_self]
    constructor
    · rintro ⟨st, there, value⟩
      rcases blank with rfl | rfl
      · cases there
      · cases there
        cases value
    · intro holds
      exact absurd holds (nothing id)
  · exact State.holds_put_ne other

/-! ## The invariant -/

/-- An optional is emptied that holds no `T`, or it goes, or a new one comes. -/
theorem Inv.put_blank (inv : Inv s) (blank : storage = none ∨ storage = some .empty)
    (named : x = none → storage = none)
    (empty : s.optionals x = none ∨ s.optionals x = some .empty) : Inv (s.put x storage) := by
  have nothing := nothing_of_empty empty
  have holds : ∀ {y id}, (s.put x storage).Holds y id ↔ s.Holds y id :=
    State.holds_put_blank blank nothing
  refine ⟨?_, fun y st there => ?_, fun y z id left right => ?_, fun y id held => ?_, inv.past, ?_⟩
  · by_cases here : x = none
    · rw [here, State.put_self]
      exact named here
    · rw [State.put_ne s storage (Ne.symm here)]
      exact inv.temporary
  · by_cases other : y = x
    · rw [other, State.put_self] at there
      rcases blank with rfl | rfl
      · cases there
      · cases there
        rfl
    · rw [State.put_ne s storage other] at there
      exact inv.flag y st there
  · exact inv.unique y z id (holds.mp left) (holds.mp right)
  · exact inv.old y id (holds.mp held)
  · intro id old
    simp only [holds]
    exact inv.accounted id old

/-- A `T` is brought to life in a new optional. -/
theorem Inv.construct {x : ι} (inv : Inv s) (fresh : s.optionals (some x) = none) :
    Inv (s.construct (some x)) := by
  have nothing := nothing_of_empty (Or.inl fresh)
  have here : ∀ id, (s.construct (some x)).Holds (some x) id ↔ id = s.constructed := by
    intro id
    show (s.put (some x) _).Holds (some x) id ↔ _
    rw [State.holds_put_self]
    constructor
    · rintro ⟨st, ⟨⟩, value⟩
      exact (Option.some.inj value).symm
    · rintro rfl
      exact ⟨_, rfl, rfl⟩
  have there : ∀ {y id}, y ≠ some x → ((s.construct (some x)).Holds y id ↔ s.Holds y id) :=
    fun other => State.holds_put_ne other
  refine ⟨?_, fun y st at_ => ?_, fun y z id left right => ?_, fun y id held => ?_, ?_, ?_⟩
  · have other : (none : Option ι) ≠ some x := nofun
    exact (State.put_ne s (some ⟨some s.constructed, true⟩) other).trans inv.temporary
  · by_cases other : y = some x
    · subst other
      cases (State.put_self s (some x) _).symm.trans at_
      rfl
    · exact inv.flag y st ((State.put_ne s _ other).symm.trans at_)
  · -- the new number is only where it was put
    by_cases isLeft : y = some x <;> by_cases isRight : z = some x
    · rw [isLeft, isRight]
    · rw [isLeft, here] at left
      have old := inv.old z id ((there isRight).mp right)
      omega
    · rw [isRight, here] at right
      have old := inv.old y id ((there isLeft).mp left)
      omega
    · exact inv.unique y z id ((there isLeft).mp left) ((there isRight).mp right)
  · show id < s.constructed + 1
    by_cases other : y = some x
    · rw [other, here] at held
      omega
    · have old := inv.old y id ((there other).mp held)
      omega
  · intro id mem
    have old := inv.past id mem
    show id < s.constructed + 1
    omega
  · intro id old
    have old : id < s.constructed + 1 := old
    by_cases new : id = s.constructed
    · have notYet : id ∉ s.destroyed := fun mem => by
        have before := inv.past id mem
        omega
      exact Or.inl ⟨⟨some x, (here id).mpr new⟩, List.count_eq_zero.mpr notYet⟩
    · rcases inv.accounted id (by omega) with ⟨⟨y, held⟩, alive⟩ | ⟨nowhere, once⟩
      · have other : y ≠ some x := by
          rintro rfl
          exact nothing id held
        exact Or.inl ⟨⟨y, (there other).mpr held⟩, alive⟩
      · refine Or.inr ⟨fun y held => ?_, once⟩
        by_cases other : y = some x
        · rw [other, here] at held
          exact new held
        · exact nowhere y ((there other).mp held)

/-- The `T` in an optional is destroyed. -/
theorem Inv.kill (inv : Inv s) (held : s.Holds x id) :
    Inv { s.put x (some .empty) with destroyed := id :: s.destroyed } := by
  have named : x ≠ none := by
    rintro rfl
    obtain ⟨st, there, -⟩ := held
    cases inv.temporary.symm.trans there
  have holds : ∀ {y id'}, (s.put x (some .empty)).Holds y id' ↔ s.Holds y id' ∧ id' ≠ id := by
    intro y id'
    by_cases other : y = x
    · subst other
      rw [State.holds_put_self]
      constructor
      · rintro ⟨st, ⟨⟩, value⟩
        cases value
      · rintro ⟨⟨st, there, value⟩, ne⟩
        obtain ⟨st', there', value'⟩ := held
        cases there.symm.trans there'
        cases value.symm.trans value'
        exact absurd rfl ne
    · rw [State.holds_put_ne other]
      constructor
      · intro held'
        refine ⟨held', ?_⟩
        rintro rfl
        exact other (inv.unique y x id' held' held)
      · exact And.left
  refine ⟨?_, fun y st there => ?_, fun y z id' left right => ?_, fun y id' held' => ?_, ?_, ?_⟩
  · exact (State.put_ne s _ (Ne.symm named)).trans inv.temporary
  · by_cases other : y = x
    · subst other
      cases (State.put_self s y _).symm.trans there
      rfl
    · exact inv.flag y st ((State.put_ne s _ other).symm.trans there)
  · exact inv.unique y z id' (holds.mp left).1 (holds.mp right).1
  · exact inv.old y id' (holds.mp held').1
  · intro id' mem
    rcases List.mem_cons.mp mem with rfl | before
    · exact inv.old x id' held
    · exact inv.past id' before
  · intro id' old
    have counted := inv.accounted id' old
    by_cases same : id' = id
    · subst same
      refine Or.inr ⟨fun y held' => (holds.mp held').2 rfl, ?_⟩
      show (id' :: s.destroyed).count id' = 1
      rcases counted with ⟨-, alive⟩ | ⟨nowhere, -⟩
      · rw [List.count_cons_self, alive]
      · exact absurd held (nowhere x)
    · have others : (id :: s.destroyed).count id' = s.destroyed.count id' :=
        List.count_cons_of_ne (Ne.symm same)
      rcases counted with ⟨⟨y, held'⟩, alive⟩ | ⟨nowhere, once⟩
      · exact Or.inl ⟨⟨y, holds.mpr ⟨held', same⟩⟩, others.trans alive⟩
      · exact Or.inr ⟨fun y held' => nowhere y (holds.mp held').1, others.trans once⟩

/-! ## The parts of the operations -/

theorem destroy_empty (empty : s.optionals x = some .empty) : s.destroy x = .ok s := by
  unfold State.destroy State.storageOf
  rw [empty]
  show Except.ok (s.put x (some .empty)) = _
  rw [State.put_same empty]

theorem destroy_full (full : s.optionals x = some ⟨some id, true⟩) :
    s.destroy x = .ok { s.put x (some .empty) with destroyed := id :: s.destroyed } := by
  unfold State.destroy State.storageOf
  rw [full]
  rfl

/-- `destroy()` leaves an empty optional. -/
theorem destroy_shaped (shaped : s.Shaped x) :
    ∃ s', s.destroy x = .ok s' ∧ s'.optionals x = some .empty ∧
      (∀ y, y ≠ x → s'.optionals y = s.optionals y) ∧ (Inv s → Inv s') := by
  rcases shaped with empty | ⟨id, full⟩
  · exact ⟨s, destroy_empty empty, empty, fun _ _ => rfl, fun inv => inv⟩
  · exact ⟨_, destroy_full full, State.put_self s x _, fun y other => State.put_ne s _ other,
      fun inv => inv.kill ⟨_, full, rfl⟩⟩

/-- `set_value` assigns to a `T` that is not alive. -/
theorem setValue_empty (empty : s.optionals x = some .empty) :
    s.setValue x = .error (.fault "T::operator= where no T is alive") := by
  unfold State.setValue State.storageOf
  rw [empty]
  rfl

/-- Nothing is copied from an empty optional. -/
theorem Inv.assignCopy (inv : Inv s) (target : s.optionals x ≠ none)
    (spares : x = y ∨ s.optionals y = some .empty) :
    ∃ s', s.assignCopy x y = .ok s' ∧ Inv s' := by
  unfold State.assignCopy
  split
  · exact ⟨s, rfl, inv⟩
  · next other =>
      obtain ⟨s', destroyed, -, others, keeps⟩ := destroy_shaped (inv.shaped target)
      have empty : s'.optionals y = some .empty := by
        rw [others y (Ne.symm other)]
        exact spares.resolve_left other
      refine ⟨s', ?_, keeps inv⟩
      rw [destroyed, ok_bind, hasData_eq empty]
      rfl

/-- An optional that is moved to itself is destroyed before it is looked at. -/
theorem Inv.assignMove (inv : Inv s) (target : s.optionals x ≠ none)
    (spares : x = y ∨ s.optionals y = some .empty) :
    ∃ s', s.assignMove x y = .ok s' ∧ Inv s' := by
  unfold State.assignMove
  obtain ⟨s', destroyed, here, others, keeps⟩ := destroy_shaped (inv.shaped target)
  have empty : s'.optionals y = some .empty := by
    by_cases same : y = x
    · rw [same]
      exact here
    · rw [others y same]
      exact spares.resolve_left (Ne.symm same)
  refine ⟨s', ?_, keeps inv⟩
  rw [destroyed, ok_bind, hasData_eq empty]
  rfl

/-- A copy from an optional with a value ends in an assignment to a dead `T`. -/
theorem assignCopy_full (target : s.Shaped x) (other : y ≠ x) {st : Storage}
    (source : s.optionals y = some st) (full : st.hasValue = true) :
    s.assignCopy x y = .error (.fault "T::operator= where no T is alive") := by
  obtain ⟨s', destroyed, here, others, -⟩ := destroy_shaped target
  unfold State.assignCopy
  rw [if_neg (Ne.symm other), destroyed, ok_bind,
    hasData_eq ((others y other).trans source), ok_bind, if_pos full]
  exact setValue_empty here

/-- So does a move. -/
theorem assignMove_full (target : s.Shaped x) (other : y ≠ x) {st : Storage}
    (source : s.optionals y = some st) (full : st.hasValue = true) :
    s.assignMove x y = .error (.fault "T::operator= where no T is alive") := by
  obtain ⟨s', destroyed, here, others, -⟩ := destroy_shaped target
  have there := (others y other).trans source
  have taken : s'.take y = .ok (s'.put y (some { st with hasValue := false })) := by
    unfold State.take State.storageOf
    rw [there]
    rfl
  unfold State.assignMove
  rw [destroyed, ok_bind, hasData_eq there, ok_bind, if_pos full, taken, ok_bind]
  exact setValue_empty ((State.put_ne s' _ (Ne.symm other)).trans here)

/-! ## The operations -/

/-- An operation that puts no value into an optional keeps the discipline. -/
theorem step_spares (inv : Inv s) (legal : Legal s o) (spares : Spares s o) :
    ∃ s', s.step o = .ok s' ∧ Inv s' := by
  cases o with
  | constructEmpty x =>
      exact ⟨_, rfl, inv.put_blank (Or.inr rfl) nofun (Or.inl legal)⟩
  | constructValue x => exact ⟨_, rfl, inv.construct legal⟩
  | constructCopy x y =>
      obtain ⟨fresh, source⟩ := legal
      have different : (some y : Option ι) ≠ some x := fun same => source (same ▸ fresh)
      have kept := State.put_ne s (some .empty) different
      have inv' := inv.put_blank (x := some x) (Or.inr rfl) nofun (Or.inl fresh)
      exact inv'.assignCopy (by rw [State.put_self]; simp)
        (Or.inr (kept.trans (inv.empty_of_not_full source spares)))
  | constructMove x y =>
      obtain ⟨fresh, source⟩ := legal
      have different : (some y : Option ι) ≠ some x := fun same => source (same ▸ fresh)
      have kept := State.put_ne s (some .empty) different
      have inv' := inv.put_blank (x := some x) (Or.inr rfl) nofun (Or.inl fresh)
      exact inv'.assignMove (by rw [State.put_self]; simp)
        (Or.inr (kept.trans (inv.empty_of_not_full source spares)))
  | assignCopy x y =>
      obtain ⟨target, source⟩ := legal
      exact inv.assignCopy target (spares.imp (congrArg some) (inv.empty_of_not_full source))
  | assignMove x y =>
      obtain ⟨target, source⟩ := legal
      exact inv.assignMove target (spares.imp (congrArg some) (inv.empty_of_not_full source))
  | assignValue x => exact absurd spares id
  | assignNone x =>
      obtain ⟨s', destroyed, -, -, keeps⟩ := destroy_shaped (inv.shaped legal)
      exact ⟨s', destroyed, keeps inv⟩
  | destruct x =>
      obtain ⟨s', destroyed, empty, -, keeps⟩ := destroy_shaped (inv.shaped legal)
      refine ⟨s'.put (some x) none, ?_, (keeps inv).put_blank (Or.inl rfl) nofun (Or.inr empty)⟩
      show s.destruct (some x) = _
      unfold State.destruct
      rw [destroyed]
      rfl

/-- Every other operation assigns to a `T` that is not alive. -/
theorem step_not_spares (inv : Inv s) (legal : Legal s o) (stores : ¬ Spares s o) :
    s.step o = .error (.fault "T::operator= where no T is alive") := by
  cases o with
  | constructEmpty x => exact absurd trivial stores
  | constructValue x => exact absurd trivial stores
  | constructCopy x y =>
      obtain ⟨fresh, source⟩ := legal
      obtain ⟨st, there, full⟩ := not_not.mp stores
      have different : (some y : Option ι) ≠ some x := fun same => source (same ▸ fresh)
      exact assignCopy_full (Or.inl (State.put_self s _ _)) different
        ((State.put_ne s _ different).trans there) full
  | constructMove x y =>
      obtain ⟨fresh, source⟩ := legal
      obtain ⟨st, there, full⟩ := not_not.mp stores
      have different : (some y : Option ι) ≠ some x := fun same => source (same ▸ fresh)
      exact assignMove_full (Or.inl (State.put_self s _ _)) different
        ((State.put_ne s _ different).trans there) full
  | assignCopy x y =>
      obtain ⟨different, full⟩ := not_or.mp stores
      obtain ⟨st, there, full⟩ := not_not.mp full
      exact assignCopy_full (inv.shaped legal.1) (fun same => different (Option.some.inj same).symm)
        there full
  | assignMove x y =>
      obtain ⟨different, full⟩ := not_or.mp stores
      obtain ⟨st, there, full⟩ := not_not.mp full
      exact assignMove_full (inv.shaped legal.1) (fun same => different (Option.some.inj same).symm)
        there full
  | assignValue x =>
      -- the temporary has a value
      have different : (none : Option ι) ≠ some x := nofun
      have target : (s.construct none).Shaped (some x) := by
        have same : (s.construct none).optionals (some x) = s.optionals (some x) :=
          State.put_ne s (some ⟨some s.constructed, true⟩) (Ne.symm different)
        unfold State.Shaped
        rw [same]
        exact inv.shaped legal
      have source : (s.construct none).optionals none = some ⟨some s.constructed, true⟩ :=
        State.put_self s none _
      show ((s.construct none).assignMove (some x) none >>= fun s => s.destruct none) = _
      rw [assignMove_full target different source rfl]
      rfl
  | assignNone x => exact absurd trivial stores
  | destruct x => exact absurd trivial stores

/-! ## Every run -/

/-- In every program, all operations keep the discipline exactly if none of them puts a value
into an optional that exists. -/
theorem disciplined_iff {ops : List (Op ι)} (legal : (machine ι).EachStep Legal (initial ι) ops) :
    (machine ι).EachStep Disciplined (initial ι) ops ↔
      (machine ι).EachStep Spares (initial ι) ops := by
  refine Machine.eachStep_iff (fun s o s' inv legal spares step => ?_) (fun s o inv legal => ?_)
    inv_initial legal
  · obtain ⟨next, done, inv'⟩ := step_spares inv legal spares
    cases done.symm.trans step
    exact inv'
  · constructor
    · rintro ⟨s', done, -⟩
      by_contra stores
      cases (step_not_spares inv legal stores).symm.trans done
    · intro spares
      obtain ⟨s', done, inv'⟩ := step_spares inv legal spares
      exact ⟨s', done, inv'.accounted⟩

end Discipline

/-- Two optionals of which only the first one ever has a value. -/
def sampleProgram : List (Op Nat) :=
  [.constructValue 0, .constructEmpty 1, .constructCopy 2 1, .assignMove 0 0, .assignCopy 0 1,
    .destruct 0, .constructValue 0, .assignNone 0, .destruct 0]

theorem disciplined_sample :
    (machine Nat).EachStep Disciplined (initial Nat) sampleProgram :=
  (disciplined_iff (by decide)).mpr (by decide)

/-- A copy is constructed of an optional with a value. -/
theorem not_disciplined_copy :
    (machine Nat).EachStep Legal (initial Nat) [.constructValue 0, .constructCopy 1 0] ∧
      ¬ (machine Nat).EachStep Disciplined (initial Nat) [.constructValue 0, .constructCopy 1 0] := by
  refine ⟨by decide, fun disciplined => ?_⟩
  obtain ⟨s', done, -⟩ := (disciplined.2 _ rfl).1
  cases done

end Tyleros.Adt.Optional
