import Tyleros.Mutex.Model

/-!
# Mutual exclusion by guards

`locked_iff_owned` is about every state and every step of every run: a mutex is locked
exactly when it has one owner, and only its owner unlocks it. The invariant is `Owned`,
over the guards and the operations in progress; each step takes a mutex, gives one up,
or passes pointers on among the owners.
-/

namespace Tyleros.Mutex

open Tyleros.Lib

variable {M G T : Type}

/-! ## The invariant -/

/-- What an operation in progress knows about its guards. -/
def State.Fits (s : State M G T) : Doing M G → Prop
  | .acquiring g m => s.alive g = false ∧ s.mtx g = some m
  | .swapping a b saved => s.mtx a = saved ∧ s.alive b = true
  | .swapped _ b _ => s.alive b = true
  | _ => True

structure Inv [DecidableEq G] (s : State M G T) : Prop where
  owned : Owned s.locked s.owner
  users : ∀ t g, s.user g = some t ↔ g ∈ (s.doing t).guards
  dead : ∀ g, s.alive g = false → s.user g = none → s.mtx g = none
  fits : ∀ t, s.Fits (s.doing t)

variable {s s' : State M G T} {t : T} {g : G} {m : M} {d : Doing M G}

theorem State.fits_congr (same : ∀ g ∈ d.guards, s'.alive g = s.alive g ∧ s'.mtx g = s.mtx g) :
    s'.Fits d ↔ s.Fits d := by
  cases d <;> simp_all [Fits, Doing.guards]

theorem State.fresh_iff : s.fresh g = true ↔ s.alive g = false ∧ s.user g = none := by
  simp [fresh]

theorem State.usable_iff : s.usable g = true ↔ s.alive g = true ∧ s.user g = none := by
  simp [usable]

/-- Writes to the fields of the given guards, and to mutexes. -/
structure Touches (s s₁ : State M G T) (gs : List G) : Prop where
  doing : s₁.doing = s.doing
  user : s₁.user = s.user
  same : ∀ g, g ∉ gs → s₁.alive g = s.alive g ∧ s₁.mtx g = s.mtx g

theorem Doing.guards_subset_of_idle {d' : Doing M G} (idle : d' = .idle) :
    d'.guards ⊆ d.guards := by
  rw [idle]
  exact List.nil_subset _

theorem mine_of_unused (unused : ∀ g ∈ d.guards, s.user g = none) :
    ∀ g ∈ d.guards, ∀ t', s.user g = some t' → t' = t := by
  intro g mem t' using_
  rw [unused g mem] at using_
  cases using_

section Owners

variable [DecidableEq G]

theorem inv_initial : Inv (initial : State M G T) where
  owned := Owned.none_taken.congr fun h => by cases h <;> rfl
  users _ _ := ⟨nofun, nofun⟩
  dead _ _ _ := rfl
  fits _ := trivial

theorem State.owner_unused (unused : s.user g = none) : s.owner (.inl g) = s.mtx g := by
  simp [owner, unused]

theorem State.owner_task_of_idle (idle : s.doing t = .idle) : s.owner (.inr t) = none := by
  simp [owner, idle, Doing.carried]

/-- What a guard owns while task `t` is at work on it. -/
theorem Inv.owner_mem (inv : Inv s) (mem : g ∈ (s.doing t).guards) :
    s.owner (.inl g) = (s.doing t).owned g (s.mtx g) := by
  simp [State.owner, (inv.users t g).mpr mem]

/-- A guard that is not constructed owns nothing. -/
theorem Inv.owner_fresh (inv : Inv s) (fresh : s.fresh g = true) : s.owner (.inl g) = none := by
  obtain ⟨dead, unused⟩ := State.fresh_iff.mp fresh
  rw [State.owner_unused unused, inv.dead g dead unused]

/-- A guard that points nowhere comes to life or dies. -/
theorem Inv.set_alive (inv : Inv s) (unused : s.user g = none) (null : s.mtx g = none)
    (alive : Bool) : Inv { s with alive := Function.update s.alive g alive } := by
  refine ⟨inv.owned.congr fun h => by cases h <;> rfl, inv.users, fun g' hdead huser => ?_,
    fun t => ?_⟩
  · by_cases eq : g' = g
    · rw [eq]
      exact null
    · exact inv.dead g' (by simpa [eq] using hdead) huser
  · rw [State.fits_congr (s := s)]
    · exact inv.fits t
    · intro g' mem
      have ne : g' ≠ g := fun eq => by
        rw [← inv.users t g', eq, unused] at mem
        cases mem
      simp [ne]

theorem Inv.exclusive (inv : Inv s) : Exclusive s where
  owner m := inv.owned.existsUnique_iff m
  guard settled m := by
    have task : ∀ t, s.owner (.inr t) ≠ some m := fun t eq => by
      have here := settled t
      cases doing : s.doing t <;> simp_all [State.owner, Doing.carried, Doing.Settled]
    have guard : ∀ g, s.owner (.inl g) = some m ↔ s.alive g = true ∧ s.mtx g = some m := by
      intro g
      cases using_ : s.user g with
      | none =>
          rw [State.owner_unused using_]
          refine ⟨fun points => ⟨?_, points⟩, And.right⟩
          cases alive : s.alive g with
          | true => rfl
          | false => rw [inv.dead g alive using_] at points; cases points
      | some t =>
          -- a guard in use waits for its mutex: it is not alive yet and owns nothing
          have mem := (inv.users t g).mp using_
          have here := settled t
          have fits := inv.fits t
          rw [inv.owner_mem mem]
          cases doing : s.doing t <;>
            simp_all [Doing.owned, Doing.Settled, Doing.guards, State.Fits]
    rw [inv.owned.existsUnique_iff m]
    constructor
    · rintro ⟨g | t, hh, unique⟩
      · refine ⟨g, (guard g).mp hh, fun g' hg' => ?_⟩
        exact Sum.inl.inj (unique (.inl g') ((guard g').mpr hg'))
      · exact absurd hh (task t)
    · rintro ⟨g, hg, unique⟩
      refine ⟨.inl g, (guard g).mpr hg, ?_⟩
      rintro (g' | t) hh
      · rw [unique g' ((guard g').mp hh)]
      · exact absurd hh (task t)

end Owners

/-! ## The steps -/

section Operations

variable [DecidableEq G] [DecidableEq T] {s₁ : State M G T}

theorem State.owner_enter_mem (mem : g ∈ d.guards) :
    (s₁.enter t d).owner (.inl g) = d.owned g (s₁.mtx g) := by
  simp [owner, enter, mem]

theorem State.owner_enter_task : (s₁.enter t d).owner (.inr t) = d.carried := by
  simp [owner, enter]

theorem State.owner_enter_other_task {t' : T} (touch : Touches s s₁ d.guards) (ne : t' ≠ t) :
    (s₁.enter t d).owner (.inr t') = s.owner (.inr t') := by
  simp [owner, enter, ne, touch.doing]

theorem State.owner_enter_not_mem (inv : Inv s) (keeps : (s.doing t).guards ⊆ d.guards)
    (touch : Touches s s₁ d.guards) (not_mem : g ∉ d.guards) :
    (s₁.enter t d).owner (.inl g) = s.owner (.inl g) := by
  simp only [owner, enter, if_neg not_mem, touch.user, touch.doing, (touch.same g not_mem).2]
  cases using_ : s.user g with
  | none => rfl
  | some t' =>
      have ne : t' ≠ t := fun eq => not_mem (keeps (eq ▸ (inv.users t' g).mp using_))
      simp [ne]

/-- An owner keeps what it has, if its own guards and the operation itself do. -/
theorem Inv.owner_enter (inv : Inv s) (keeps : (s.doing t).guards ⊆ d.guards)
    (touch : Touches s s₁ d.guards) (h : G ⊕ T)
    (guards : ∀ g ∈ d.guards, h = .inl g → d.owned g (s₁.mtx g) = s.owner (.inl g))
    (task : h = .inr t → d.carried = s.owner (.inr t)) :
    (s₁.enter t d).owner h = s.owner h := by
  rcases h with g | t'
  · by_cases mem : g ∈ d.guards
    · rw [State.owner_enter_mem mem]
      exact guards g mem rfl
    · exact State.owner_enter_not_mem inv keeps touch mem
  · by_cases eq : t' = t
    · subst eq
      rw [State.owner_enter_task]
      exact task rfl
    · exact State.owner_enter_other_task touch eq

/-- A step into or inside an operation, on guards that nobody else uses. -/
theorem Inv.enter (inv : Inv s) (keeps : (s.doing t).guards ⊆ d.guards)
    (mine : ∀ g ∈ d.guards, ∀ t', s.user g = some t' → t' = t) (touch : Touches s s₁ d.guards)
    (fits : s₁.Fits d) (owned : Owned s₁.locked (s₁.enter t d).owner) : Inv (s₁.enter t d) where
  owned := owned
  users t' g := by
    by_cases eq : t' = t
    · subst eq
      by_cases mem : g ∈ d.guards
      · simp [State.enter, mem]
      · have not_mine : s.user g ≠ some t' := fun using_ =>
          mem (keeps ((inv.users t' g).mp using_))
        simp [State.enter, mem, touch.user, not_mine]
    · by_cases mem : g ∈ d.guards
      · have other : g ∉ (s.doing t').guards := fun mem' =>
          eq (mine g mem t' ((inv.users t' g).mpr mem'))
        simp [State.enter, eq, mem, touch.doing, other, Ne.symm eq]
      · simp [State.enter, eq, mem, touch.doing, touch.user, inv.users t' g]
  dead g hdead huser := by
    by_cases mem : g ∈ d.guards
    · simp [State.enter, mem] at huser
    · simp only [State.enter, if_neg mem, touch.user] at huser
      simp only [State.enter, (touch.same g mem).1] at hdead
      simp only [State.enter, (touch.same g mem).2]
      exact inv.dead g hdead huser
  fits t' := by
    by_cases eq : t' = t
    · have now : (s₁.enter t d).doing t' = d := by simp [State.enter, eq]
      rw [now]
      exact (State.fits_congr fun _ _ => ⟨rfl, rfl⟩).mpr fits
    · have kept : (s₁.enter t d).doing t' = s.doing t' := by simp [State.enter, eq, touch.doing]
      rw [kept, State.fits_congr (s := s)]
      · exact inv.fits t'
      · intro g mem
        exact touch.same g fun mem' => eq (mine g mem' t' ((inv.users t' g).mpr mem))

theorem State.owner_leave_mem (touch : Touches s s₁ (s.doing t).guards)
    (mem : g ∈ (s.doing t).guards) : (s₁.leave t).owner (.inl g) = s₁.mtx g := by
  simp [owner, leave, touch.doing, mem]

theorem State.owner_leave_task : (s₁.leave t).owner (.inr t) = none := by
  simp [owner, leave, Doing.carried]

theorem State.owner_leave_other_task {t' : T} (touch : Touches s s₁ (s.doing t).guards)
    (ne : t' ≠ t) : (s₁.leave t).owner (.inr t') = s.owner (.inr t') := by
  simp [owner, leave, ne, touch.doing]

theorem State.owner_leave_not_mem (inv : Inv s) (touch : Touches s s₁ (s.doing t).guards)
    (not_mem : g ∉ (s.doing t).guards) : (s₁.leave t).owner (.inl g) = s.owner (.inl g) := by
  simp only [owner, leave, touch.doing, if_neg not_mem, touch.user, (touch.same g not_mem).2]
  cases using_ : s.user g with
  | none => rfl
  | some t' =>
      have ne : t' ≠ t := fun eq => not_mem (eq ▸ (inv.users t' g).mp using_)
      simp [ne]

theorem Inv.owner_leave (inv : Inv s) (touch : Touches s s₁ (s.doing t).guards) (h : G ⊕ T)
    (guards : ∀ g ∈ (s.doing t).guards, h = .inl g → s₁.mtx g = s.owner (.inl g))
    (task : h = .inr t → s.owner (.inr t) = none) :
    (s₁.leave t).owner h = s.owner h := by
  rcases h with g | t'
  · by_cases mem : g ∈ (s.doing t).guards
    · rw [State.owner_leave_mem touch mem]
      exact guards g mem rfl
    · exact State.owner_leave_not_mem inv touch mem
  · by_cases eq : t' = t
    · subst eq
      rw [State.owner_leave_task]
      exact (task rfl).symm
    · exact State.owner_leave_other_task touch eq

/-- The last step of an operation. -/
theorem Inv.leave (inv : Inv s) (touch : Touches s s₁ (s.doing t).guards)
    (dead : ∀ g ∈ (s.doing t).guards, s₁.alive g = false → s₁.mtx g = none)
    (owned : Owned s₁.locked (s₁.leave t).owner) : Inv (s₁.leave t) where
  owned := owned
  users t' g := by
    by_cases eq : t' = t
    · subst eq
      by_cases mem : g ∈ (s.doing t').guards
      · simp [State.leave, mem, touch.doing]
      · simp [State.leave, touch.doing, touch.user, inv.users t' g]
    · by_cases mem : g ∈ (s.doing t).guards
      · have other : g ∉ (s.doing t').guards := fun mem' => by
          rw [← inv.users t' g, (inv.users t g).mpr mem] at mem'
          exact eq (Option.some.inj mem').symm
        simp [State.leave, eq, mem, touch.doing, other]
      · simp [State.leave, eq, mem, touch.doing, touch.user, inv.users t' g]
  dead g hdead huser := by
    by_cases mem : g ∈ (s.doing t).guards
    · exact dead g mem hdead
    · simp only [State.leave, touch.doing, if_neg mem, touch.user] at huser
      simp only [State.leave, (touch.same g mem).1] at hdead
      simp only [State.leave, (touch.same g mem).2]
      exact inv.dead g hdead huser
  fits t' := by
    by_cases eq : t' = t
    · subst eq
      simp [State.leave, State.Fits]
    · have kept : (s₁.leave t).doing t' = s.doing t' := by simp [State.leave, eq, touch.doing]
      rw [kept, State.fits_congr (s := s)]
      · exact inv.fits t'
      · intro g mem
        refine touch.same g fun mem' => ?_
        rw [← inv.users t' g, (inv.users t g).mpr mem'] at mem
        exact eq (Option.some.inj mem).symm

/-! ### Steps on the guards only -/

/-- `guard(m)` begins to wait. -/
theorem Inv.lock (inv : Inv s) (idle : s.doing t = .idle) (fresh : s.fresh g = true) (m : M) :
    Inv ({ s with mtx := Function.update s.mtx g (some m) }.enter t (.acquiring g m)) := by
  obtain ⟨dead, unused⟩ := State.fresh_iff.mp fresh
  have keeps := Doing.guards_subset_of_idle (d := .acquiring g m) idle
  have touch : Touches s { s with mtx := Function.update s.mtx g (some m) }
      (Doing.acquiring g m).guards :=
    ⟨rfl, rfl, fun g' not_mem => by simp_all [Doing.guards]⟩
  refine inv.enter keeps (mine_of_unused (by simpa [Doing.guards] using unused)) touch
    ⟨dead, Function.update_self ..⟩ (inv.owned.congr fun h => inv.owner_enter keeps touch h ?_ ?_)
  · intro g' mem _
    rw [List.mem_singleton.mp mem, inv.owner_fresh fresh]
    rfl
  · intro _
    rw [State.owner_task_of_idle idle]
    rfl

/-- A move begins. -/
theorem Inv.move (inv : Inv s) (idle : s.doing t = .idle) {a b : G}
    (unused : s.user a = none) (usable : s.usable b = true) :
    Inv (s.enter t (.swapping a b (s.mtx a))) := by
  obtain ⟨alive, unused'⟩ := State.usable_iff.mp usable
  have keeps := Doing.guards_subset_of_idle (d := .swapping a b (s.mtx a)) idle
  have touch : Touches s s (Doing.swapping a b (s.mtx a)).guards :=
    ⟨rfl, rfl, fun _ _ => ⟨rfl, rfl⟩⟩
  have noUser : ∀ g ∈ (Doing.swapping a b (s.mtx a)).guards, s.user g = none := by
    simp [Doing.guards, unused, unused']
  refine inv.enter keeps (mine_of_unused noUser) touch ⟨rfl, alive⟩
    (inv.owned.congr fun h => inv.owner_enter keeps touch h (fun g' mem _ => ?_) fun _ => ?_)
  · rw [State.owner_unused (noUser g' mem)]
    rfl
  · rw [State.owner_task_of_idle idle]
    rfl

/-- `guard(m, already_locked)` takes the mutex over from the operation. -/
theorem Inv.adopted (inv : Inv s) (doing : s.doing t = .tried g m) :
    Inv ({ s with
      alive := Function.update s.alive g true
      mtx := Function.update s.mtx g (some m) }.leave t) := by
  have mem : g ∈ (s.doing t).guards := by simp [doing, Doing.guards]
  have only : ∀ g' ∈ (s.doing t).guards, g' = g := by simp [doing, Doing.guards]
  have touch : Touches s { s with
      alive := Function.update s.alive g true
      mtx := Function.update s.mtx g (some m) } (s.doing t).guards :=
    ⟨rfl, rfl, fun g' not_mem => by simp_all [Doing.guards]⟩
  refine inv.leave touch (fun g' mem' hdead => ?_) ?_
  · rw [only g' mem'] at hdead
    simp at hdead
  have carried : s.owner (.inr t) = some m := by simp [State.owner, doing, Doing.carried]
  have empty : s.owner (.inl g) = none := by
    rw [inv.owner_mem mem, doing]
    rfl
  refine inv.owned.permute (Equiv.swap (.inl g) (.inr t)) fun h => ?_
  by_cases hg : h = .inl g
  · rw [hg, Equiv.swap_apply_left, carried, State.owner_leave_mem touch mem]
    exact Function.update_self ..
  by_cases ht : h = .inr t
  · rw [ht, Equiv.swap_apply_right, empty, State.owner_leave_task]
  rw [Equiv.swap_apply_of_ne_of_ne hg ht]
  refine inv.owner_leave touch h (fun g' mem' eq => ?_) fun eq => absurd eq ht
  exact absurd (eq.trans (by rw [only g' mem'])) hg

/-- The first half of a swap: the two pointers and the saved one go round. -/
theorem Inv.swapping (inv : Inv s) {a b : G} {saved : Option M}
    (doing : s.doing t = .swapping a b saved) :
    Inv ({ s with mtx := Function.update s.mtx a (s.mtx b) }.enter t (.swapped a b saved)) := by
  obtain ⟨hsaved, alive⟩ : s.mtx a = saved ∧ s.alive b = true := by
    have fits := inv.fits t
    rw [doing] at fits
    exact fits
  have guards_eq : (s.doing t).guards = (Doing.swapped a b saved).guards := by rw [doing]; rfl
  have keeps : (s.doing t).guards ⊆ (Doing.swapped a b saved).guards := guards_eq ▸ List.Subset.refl _
  have owner_eq : ∀ g ∈ (s.doing t).guards, s.owner (.inl g) = s.mtx g := fun g mem => by
    rw [inv.owner_mem mem, doing]
    rfl
  have empty : s.owner (.inr t) = none := by simp [State.owner, doing, Doing.carried]
  have touch : Touches s { s with mtx := Function.update s.mtx a (s.mtx b) }
      (Doing.swapped a b saved).guards :=
    ⟨rfl, rfl, fun g' not_mem => by simp_all [Doing.guards]⟩
  have ha : a ∈ (Doing.swapped a b saved).guards := by simp [Doing.guards]
  have hb : b ∈ (Doing.swapped a b saved).guards := by simp [Doing.guards]
  refine inv.enter keeps (fun g mem t' using_ => ?_) touch alive ?_
  · rw [← guards_eq] at mem
    exact Option.some.inj (using_.symm.trans ((inv.users t g).mpr mem))
  have now_b : ∀ s₁ : State M G T, (s₁.enter t (.swapped a b saved)).owner (.inl b) = none :=
    fun s₁ => by rw [State.owner_enter_mem hb]; exact if_pos rfl
  by_cases eq : a = b
  · -- a self-move: the operation has taken over what the guard had
    subst eq
    refine inv.owned.permute (Equiv.swap (.inl a) (.inr t)) fun h => ?_
    by_cases hh : h = .inl a
    · rw [hh, Equiv.swap_apply_left, empty, now_b]
    by_cases ht : h = .inr t
    · rw [ht, Equiv.swap_apply_right, State.owner_enter_task, owner_eq a (guards_eq ▸ ha), hsaved]
      rfl
    rw [Equiv.swap_apply_of_ne_of_ne hh ht]
    refine inv.owner_enter keeps touch h (fun g mem eq => ?_) fun eq => absurd eq ht
    exact absurd (eq.trans (by simp_all [Doing.guards])) hh
  · -- `a` gets what `b` had, the operation what `a` had, and `b` nothing
    refine inv.owned.permute
      ((Equiv.swap (.inl a) (.inr t)).trans (Equiv.swap (.inl b) (.inr t))) fun h => ?_
    rw [Equiv.trans_apply]
    by_cases hha : h = .inl a
    · rw [hha, Equiv.swap_apply_left, Equiv.swap_apply_right, owner_eq b (guards_eq ▸ hb),
        State.owner_enter_mem ha]
      simp [Doing.owned, eq]
    by_cases ht : h = .inr t
    · rw [ht, Equiv.swap_apply_right, Equiv.swap_apply_of_ne_of_ne (by simpa using eq) (by simp),
        owner_eq a (guards_eq ▸ ha), hsaved, State.owner_enter_task]
      rfl
    rw [Equiv.swap_apply_of_ne_of_ne hha ht]
    by_cases hhb : h = .inl b
    · rw [hhb, Equiv.swap_apply_left, empty, now_b]
    rw [Equiv.swap_apply_of_ne_of_ne hhb ht]
    refine inv.owner_enter keeps touch h (fun g mem here => ?_) fun here => absurd here ht
    rcases List.mem_cons.mp mem with rfl | mem
    · exact absurd here hha
    · rw [List.mem_singleton.mp mem] at here
      exact absurd here hhb

/-- The second half of a swap: `b` gets the saved pointer. -/
theorem Inv.swapped (inv : Inv s) {a b : G} {saved : Option M}
    (doing : s.doing t = .swapped a b saved) :
    Inv ({ s with
      alive := Function.update s.alive a true
      mtx := Function.update s.mtx b saved }.leave t) := by
  have alive : s.alive b = true := by
    have fits := inv.fits t
    rw [doing] at fits
    exact fits
  have mem_iff : ∀ g, g ∈ (s.doing t).guards ↔ g = a ∨ g = b := by simp [doing, Doing.guards]
  have hb : b ∈ (s.doing t).guards := (mem_iff b).mpr (.inr rfl)
  have touch : Touches s { s with
      alive := Function.update s.alive a true
      mtx := Function.update s.mtx b saved } (s.doing t).guards :=
    ⟨rfl, rfl, fun g' not_mem => by simp_all⟩
  refine inv.leave touch (fun g mem hdead => ?_) ?_
  · by_cases eq : g = a
    · simp [eq] at hdead
    · rcases (mem_iff g).mp mem with rfl | rfl
      · exact absurd rfl eq
      · simp [eq, alive] at hdead
  have carried : s.owner (.inr t) = saved := by simp [State.owner, doing, Doing.carried]
  have empty : s.owner (.inl b) = none := by
    rw [inv.owner_mem hb, doing]
    exact if_pos rfl
  refine inv.owned.permute (Equiv.swap (.inl b) (.inr t)) fun h => ?_
  by_cases hhb : h = .inl b
  · rw [hhb, Equiv.swap_apply_left, carried, State.owner_leave_mem touch hb]
    exact Function.update_self ..
  by_cases ht : h = .inr t
  · rw [ht, Equiv.swap_apply_right, empty, State.owner_leave_task]
  rw [Equiv.swap_apply_of_ne_of_ne hhb ht]
  refine inv.owner_leave touch h (fun g mem eq => ?_) fun eq => absurd eq ht
  have ne : g ≠ b := fun eq' => hhb (eq.trans (by rw [eq']))
  rw [inv.owner_mem mem, doing]
  simp [Doing.owned, ne]

/-- `mtx = nullptr` of `release`. -/
theorem Inv.unlocked (inv : Inv s) (doing : s.doing t = .unlocked g) :
    Inv ({ s with mtx := Function.update s.mtx g none }.leave t) := by
  have only : ∀ g' ∈ (s.doing t).guards, g' = g := by simp [doing, Doing.guards]
  have touch : Touches s { s with mtx := Function.update s.mtx g none } (s.doing t).guards :=
    ⟨rfl, rfl, fun g' not_mem => by simp_all [Doing.guards]⟩
  refine inv.leave touch (fun g' mem _ => ?_)
    (inv.owned.congr fun h => inv.owner_leave touch h (fun g' mem _ => ?_) fun _ => ?_)
  · rw [only g' mem]
    exact Function.update_self ..
  · rw [inv.owner_mem mem, doing, only g' mem]
    exact Function.update_self ..
  · simp [State.owner, doing, Doing.carried]

end Operations

/-! ### Steps that lock or unlock a mutex -/

variable [DecidableEq M] [DecidableEq G] [DecidableEq T]

/-- `try_acquire` succeeds. -/
theorem Inv.tryLock (inv : Inv s) (idle : s.doing t = .idle) (fresh : s.fresh g = true)
    (free : s.locked m = false) :
    Inv ({ s with locked := Function.update s.locked m true }.enter t (.tried g m)) := by
  obtain ⟨dead, unused⟩ := State.fresh_iff.mp fresh
  have keeps := Doing.guards_subset_of_idle (d := .tried g m) idle
  have touch : Touches s { s with locked := Function.update s.locked m true }
      (Doing.tried g m).guards := ⟨rfl, rfl, fun _ _ => ⟨rfl, rfl⟩⟩
  refine inv.enter keeps (mine_of_unused (by simpa [Doing.guards] using unused)) touch trivial ?_
  refine inv.owned.take free (State.owner_task_of_idle idle) State.owner_enter_task ?_ ?_
  · refine fun h ne => inv.owner_enter keeps touch h (fun g' mem _ => ?_) fun eq => absurd eq ne
    rw [List.mem_singleton.mp mem, inv.owner_fresh fresh]
    rfl
  · intro q
    by_cases eq : q = m <;> simp [eq]

/-- `release` and the destructor unlock the mutex the guard points to. -/
theorem Inv.unlock_some (inv : Inv s) (idle : s.doing t = .idle) (unused : s.user g = none)
    (points : s.mtx g = some m) (alive : Bool) :
    Inv ({ s with
      alive := Function.update s.alive g alive
      locked := Function.update s.locked m false }.enter t (.unlocked g)) := by
  have keeps := Doing.guards_subset_of_idle (d := .unlocked (M := M) g) idle
  have touch : Touches s { s with
      alive := Function.update s.alive g alive
      locked := Function.update s.locked m false } (Doing.unlocked (M := M) g).guards :=
    ⟨rfl, rfl, fun g' not_mem => by simp_all [Doing.guards]⟩
  refine inv.enter keeps (mine_of_unused (by simpa [Doing.guards] using unused)) touch trivial ?_
  refine inv.owned.give (x := .inl g) (r := m) ?_ ?_ ?_ ?_
  · rw [State.owner_unused unused, points]
  · exact State.owner_enter_mem (by simp [Doing.guards])
  · refine fun h ne => inv.owner_enter keeps touch h (fun g' mem eq => ?_) fun _ => ?_
    · rw [List.mem_singleton.mp mem] at eq
      exact absurd eq ne
    · rw [State.owner_task_of_idle idle]
      rfl
  · intro q
    by_cases eq : q = m <;> simp [eq]

/-- `acquire` succeeds, and with it `guard(m)`. -/
theorem Inv.acquired (inv : Inv s) (doing : s.doing t = .acquiring g m)
    (free : s.locked m = false) :
    Inv ({ s with
      locked := Function.update s.locked m true
      alive := Function.update s.alive g true }.leave t) := by
  have points : s.mtx g = some m := by
    have fits := inv.fits t
    rw [doing] at fits
    exact fits.2
  have mem : g ∈ (s.doing t).guards := by simp [doing, Doing.guards]
  have only : ∀ g' ∈ (s.doing t).guards, g' = g := by simp [doing, Doing.guards]
  have touch : Touches s { s with
      locked := Function.update s.locked m true
      alive := Function.update s.alive g true } (s.doing t).guards :=
    ⟨rfl, rfl, fun g' not_mem => by simp_all [Doing.guards]⟩
  refine inv.leave touch (fun g' mem' hdead => ?_) ?_
  · rw [only g' mem'] at hdead
    simp at hdead
  refine inv.owned.take (x := .inl g) free ?_ ?_ ?_ ?_
  · rw [inv.owner_mem mem, doing]
    rfl
  · rw [State.owner_leave_mem touch mem]
    exact points
  · refine fun h ne => inv.owner_leave touch h (fun g' mem' eq => ?_) fun _ => ?_
    · rw [only g' mem'] at eq
      exact absurd eq ne
    · simp [State.owner, doing, Doing.carried]
  · intro q
    by_cases eq : q = m <;> simp [eq]

/-! ## Every run -/

theorem Inv.resume (inv : Inv s) : Inv (s.resume t) := by
  unfold State.resume
  cases doing : s.doing t with
  | idle => exact inv
  | acquiring g m =>
      dsimp only
      split
      · exact inv
      · next free => exact inv.acquired doing (by simpa using free)
  | tried g m => exact inv.adopted doing
  | swapping a b saved => exact inv.swapping doing
  | swapped a b saved => exact inv.swapped doing
  | unlocked g => exact inv.unlocked doing

theorem Inv.begin (inv : Inv s) (idle : s.doing t = .idle) {op : Op M G}
    (h : s.begin t op = .ok s') : Inv s' := by
  cases op with
  | construct g =>
      simp only [State.begin] at h
      split at h
      · next fresh =>
          cases h
          obtain ⟨dead, unused⟩ := State.fresh_iff.mp fresh
          have null := inv.dead g dead unused
          have same : Function.update s.mtx g none = s.mtx := by
            rw [← null, Function.update_eq_self]
          rw [same]
          exact inv.set_alive unused null true
      · cases h
  | lock g m =>
      simp only [State.begin] at h
      split at h
      · next fresh =>
          cases h
          exact inv.lock idle fresh m
      · cases h
  | tryLock g m =>
      simp only [State.begin] at h
      split at h
      · next fresh =>
          split at h
          · cases h
            exact inv
          · next free =>
              cases h
              exact inv.tryLock idle fresh (by simpa using free)
      · cases h
  | moveConstruct a b =>
      simp only [State.begin] at h
      split at h
      · next both =>
          cases h
          obtain ⟨fresh, usable⟩ := Bool.and_eq_true_iff.mp both
          obtain ⟨dead, unused⟩ := State.fresh_iff.mp fresh
          have null := inv.dead a dead unused
          have same : Function.update s.mtx a none = s.mtx := by
            rw [← null, Function.update_eq_self]
          rw [same]
          simpa [null] using inv.move idle unused usable
      · cases h
  | moveAssign a b =>
      simp only [State.begin] at h
      split at h
      · next both =>
          cases h
          obtain ⟨usable, usable'⟩ := Bool.and_eq_true_iff.mp both
          exact inv.move idle (State.usable_iff.mp usable).2 usable'
      · cases h
  | release g =>
      simp only [State.begin] at h
      split at h
      · next usable =>
          cases h
          obtain ⟨alive, unused⟩ := State.usable_iff.mp usable
          unfold State.unlock
          cases points : s.mtx g with
          | none => exact inv
          | some m => simpa [← alive] using inv.unlock_some idle unused points true
      · cases h
  | destroy g =>
      simp only [State.begin] at h
      split at h
      · next usable =>
          cases h
          obtain ⟨alive, unused⟩ := State.usable_iff.mp usable
          unfold State.unlock
          cases points : s.mtx g with
          | none => exact inv.set_alive unused points false
          | some m => exact inv.unlock_some idle unused points false
      · cases h

theorem Inv.machine_step (inv : Inv s) {o : T × Op M G} (h : machine.step s o = .ok s') :
    Inv s' := by
  simp only [machine] at h
  split at h
  · next idle => exact inv.begin idle h
  · cases h
    exact inv.resume

/-- An operation that goes on unlocks nothing. -/
theorem State.locked_resume (h : s.locked m = true) : (s.resume t).locked m = true := by
  unfold resume
  split <;> try exact h
  split
  · exact h
  · simp [leave, Function.update_apply, h]

theorem State.locked_unlock (h : s.locked m = true) (off : (s.unlock t g).locked m = false) :
    s.mtx g = some m := by
  unfold unlock at off
  cases points : s.mtx g with
  | none => simp [points, h] at off
  | some q =>
      by_cases eq : m = q
      · rw [eq]
      · simp [points, enter, eq, h] at off

theorem Inv.unlocksOwn (inv : Inv s) (o : T × Op M G) : UnlocksOwn s o := by
  intro s' m hstep on off
  obtain ⟨t, op⟩ := o
  have owns : ∀ g, s.usable g = true → s.mtx g = some m →
      s.alive g = true ∧ s.mtx g = some m ∧ ∀ h, s.owner h = some m ↔ h = .inl g := by
    intro g usable points
    obtain ⟨alive, unused⟩ := State.usable_iff.mp usable
    have owner : s.owner (.inl g) = some m := by rw [State.owner_unused unused, points]
    refine ⟨alive, points, fun h => ⟨fun hh => inv.owned.unique h _ m hh owner, ?_⟩⟩
    rintro rfl
    exact owner
  simp only [machine] at hstep
  split at hstep
  · cases op with
    | construct g =>
        simp only [State.begin] at hstep
        split at hstep
        · cases hstep
          rw [on] at off
          cases off
        · cases hstep
    | lock g q =>
        simp only [State.begin] at hstep
        split at hstep
        · cases hstep
          simp [State.enter, on] at off
        · cases hstep
    | tryLock g q =>
        simp only [State.begin] at hstep
        split at hstep
        · split at hstep
          · cases hstep
            rw [on] at off
            cases off
          · cases hstep
            simp [State.enter, Function.update_apply, on] at off
        · cases hstep
    | moveConstruct a b =>
        simp only [State.begin] at hstep
        split at hstep
        · cases hstep
          simp [State.enter, on] at off
        · cases hstep
    | moveAssign a b =>
        simp only [State.begin] at hstep
        split at hstep
        · cases hstep
          simp [State.enter, on] at off
        · cases hstep
    | release g =>
        simp only [State.begin] at hstep
        split at hstep
        · next usable =>
            cases hstep
            exact ⟨g, .inl rfl, owns g usable (State.locked_unlock on off)⟩
        · cases hstep
    | destroy g =>
        simp only [State.begin] at hstep
        split at hstep
        · next usable =>
            cases hstep
            have points := State.locked_unlock
              (s := { s with alive := Function.update s.alive g false }) on off
            exact ⟨g, .inr rfl, owns g usable points⟩
        · cases hstep
  · cases hstep
    rw [State.locked_resume on] at off
    cases off

/-- Mutual exclusion by guards, in every interleaving of the steps of any tasks. -/
theorem locked_iff_owned (ops : List (T × Op M G)) :
    (machine (M := M) (G := G) (T := T)).Always Exclusive initial ops ∧
      (machine (M := M) (G := G) (T := T)).EachStep UnlocksOwn initial ops := by
  have guard : (machine (M := M) (G := G) (T := T)).EachStep (fun _ _ => True) initial ops :=
    Machine.eachStep_true
  constructor
  · exact Machine.always_of_inv (fun _ _ _ inv _ hstep => inv.machine_step hstep)
      (fun _ inv => inv.exclusive) inv_initial guard
  · exact Machine.eachStep_of_inv (fun _ _ _ inv _ hstep => inv.machine_step hstep)
      (fun _ o inv _ => inv.unlocksOwn o) inv_initial guard

/-- Task 1 spins while guard 0 of task 0 has the mutex; the guard is moved and its
successor destroyed, and task 1 gets the mutex. -/
example : completesWith
    ((machine (M := Unit) (G := Nat) (T := Nat)).run initial
      [(0, .lock 0 ()), (0, .release 0), (1, .lock 1 ()), (1, .release 1),
        (0, .moveConstruct 2 0), (0, .release 0), (0, .release 0), (0, .destroy 2), (1, .release 1),
        (0, .release 2)])
    (fun s => s.locked () && s.alive 1 && s.mtx 1 == some () && s.mtx 2 == none) = true := by
  decide

end Tyleros.Mutex
