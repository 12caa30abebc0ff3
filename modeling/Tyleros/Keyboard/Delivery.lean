import Tyleros.Keyboard.Model
import Tyleros.Lib.Ownership

/-!
# Key events are delivered once and in order

`delivers_accepted` is about every state of every run with room for another
subscriber: the scancodes that were read while there was room in the ring and nobody
held the lock reach every subscriber exactly once and in the order they were read,
and the dispatcher gets them there as soon as it is left alone.

What is read while somebody holds the lock is lost (`drops_while_locked`).
-/

namespace Tyleros.Keyboard

open Tyleros.Lib Tyleros.Adt

variable {H T : Type} {s : State H T} {e : Event} {idx : Nat} {h : H} {t : T}

/-! ## Who holds the lock -/

/-- The dispatcher (`none`) and the tasks that have the pump's lock. -/
def State.owner (s : State H T) : Option T → Option Unit
  | none => match s.dispatcher with
    | .idle => none
    | _ => some ()
  | some t => match s.tasks t with
    | .pushing _ => some ()
    | .releasing => some ()
    | _ => none

/-- What the calls and the dispatcher keep to as long as the ring of the subscribers
is not full. -/
structure State.Flight (s : State H T) : Prop where
  handles : ∀ c ∈ s.calls, s.subscribers.contents[c.index]? = some c.handle
  joined : ∀ j ∈ s.history.joined, j ≤ s.history.taken.length
  calling : ∀ e idx, s.dispatcher = .calling e idx → idx ≤ s.subscribers.count
  handling : ∀ e idx, s.dispatcher = .handling e idx → idx < s.subscribers.count
  calls : ∀ i j, s.history.joined[i]? = some j →
    s.callsTo i ++ s.inFlight i = s.history.taken.drop j

structure Inv (s : State H T) : Prop where
  owned : Owned (fun _ : Unit => s.locked) s.owner
  events : s.events.Holds s.events.contents
  subscribers : s.subscribers.Holds s.subscribers.contents
  first : s.subscribers.begin_ = 0
  length : s.history.joined.length = s.subscribers.count
  log : s.history.accepted = s.history.taken ++ s.events.contents
  flight : s.subscribers.count < CAPACITY → s.Flight

theorem inv_initial [Inhabited H] : Inv (initial H T) where
  owned := Owned.none_taken.congr fun x => by cases x <;> rfl
  events := RingBuffer.holds_ofArray _ (by decide) (Nat.zero_le _)
  subscribers := RingBuffer.holds_ofArray _ (by decide) (Nat.zero_le _)
  first := rfl
  length := rfl
  log := rfl
  flight _ :=
    { handles := nofun
      joined := nofun
      calling := nofun
      handling := nofun
      calls := nofun }

/-- While a task has the lock, the dispatcher is idle. -/
theorem Inv.idle_of_owner (inv : Inv s) (owns : s.owner (some t) = some ()) :
    s.dispatcher = .idle := by
  have not_both : s.owner none ≠ some () := fun both => by
    cases inv.owned.unique none (some t) () both owns
  cases here : s.dispatcher with
  | idle => rfl
  | _ => exact absurd (by simp [State.owner, here]) not_both

/-! ## The interrupt handler -/

/-- The scancode goes into the ring. -/
def State.Accepts (s : State H T) (scancode : UInt8) : Prop :=
  (offset scancode < 0x40 ∧ s.events.size < CAPACITY) ∧ scancode ≠ 0 ∧ s.locked = false

instance (s : State H T) (scancode : UInt8) : Decidable (s.Accepts scancode) :=
  inferInstanceAs (Decidable (_ ∧ _))

theorem State.record_accepted (s : State H T) (scancode : UInt8) :
    (s.record scancode).accepted =
      s.history.accepted ++ if s.Accepts scancode then [eventOf scancode] else [] := by
  unfold record
  split
  · next fits => simp only [Accepts, fits, true_and, and_self]
  · next fits => rw [if_neg fun ok : s.Accepts scancode => fits ok.1, List.append_nil]

theorem State.record_taken (s : State H T) (scancode : UInt8) :
    (s.record scancode).taken = s.history.taken := by
  unfold record
  split <;> rfl

theorem State.record_joined (s : State H T) (scancode : UInt8) :
    (s.record scancode).joined = s.history.joined := by
  unfold record
  split <;> rfl

/-- Nothing but the ring of the events changes. -/
theorem State.handleScancode_eq (s : State H T) (scancode : UInt8) :
    s.handleScancode scancode = { s with events := (s.handleScancode scancode).events } := by
  unfold handleScancode
  split
  · split <;> rfl
  · rfl

theorem Inv.handleScancode_holds (inv : Inv s) {scancode : UInt8} (ne : scancode ≠ 0) :
    (s.handleScancode scancode).events.Holds
      (s.events.contents ++ if s.Accepts scancode then [eventOf scancode] else []) := by
  unfold State.handleScancode
  split
  · next low =>
      split
      · next locked =>
          have refused : ¬ s.Accepts scancode := fun ok => by
            cases locked.symm.trans ok.2.2
          rw [if_neg refused, List.append_nil]
          exact inv.events
      · next free =>
          by_cases room : s.events.size < CAPACITY
          · rw [if_pos ⟨⟨low, room⟩, ne, by simpa using free⟩]
            exact (inv.events.pushBack (inv.events.count ▸ room) _).1
          · rw [if_neg fun ok => room ok.1.2, List.append_nil]
            have full : s.events.full = true := by
              have fits := inv.events.fits
              rw [inv.events.full_iff]
              rw [RingBuffer.size, inv.events.count] at room
              omega
            unfold RingBuffer.pushBack
            rw [if_pos full]
            exact inv.events
  · next high =>
      rw [if_neg fun ok => high ok.1.1, List.append_nil]
      exact inv.events

/-- The ring may change, as long as the history goes along. -/
theorem Inv.with_events (inv : Inv s) {events : RingBuffer Event CAPACITY} {history : History}
    (holds : events.Holds events.contents)
    (log : history.accepted = history.taken ++ events.contents)
    (taken : history.taken = s.history.taken) (joined : history.joined = s.history.joined) :
    Inv { s with events := events, history := history } where
  owned := inv.owned.congr fun x => by cases x <;> rfl
  events := holds
  subscribers := inv.subscribers
  first := inv.first
  length := by
    dsimp only
    rw [joined]
    exact inv.length
  log := log
  flight room := by
    have flight := inv.flight room
    refine ⟨flight.handles, ?_, flight.calling, flight.handling, ?_⟩
    · dsimp only
      rw [joined, taken]
      exact flight.joined
    · dsimp only
      rw [joined, taken]
      exact flight.calls

theorem Inv.handleInterrupt (inv : Inv s) (scancodes : List UInt8) :
    Inv (s.handleInterrupt scancodes) := by
  induction scancodes generalizing s with
  | nil => exact inv
  | cons scancode rest ih =>
      unfold State.handleInterrupt
      split
      · next zero =>
          refine inv.with_events inv.events ?_ (s.record_taken _) (s.record_joined _)
          rw [s.record_accepted, if_neg fun ok => ok.2.1 zero, List.append_nil, s.record_taken]
          exact inv.log
      · next ne =>
          have holds := inv.handleScancode_holds ne
          apply ih
          rw [s.handleScancode_eq]
          refine inv.with_events (by rw [holds.contents]; exact holds) ?_
            (s.record_taken _) (s.record_joined _)
          rw [s.record_accepted, s.record_taken, holds.contents, inv.log, List.append_assoc]

/-! ## The dispatcher -/

theorem State.callsTo_append {s' : State H T} {c : Call H} (eq : s'.calls = s.calls ++ [c])
    (i : Nat) : s'.callsTo i = s.callsTo i ++ if c.index = i then [c.event] else [] := by
  unfold callsTo
  rw [eq]
  by_cases here : c.index = i <;> simp [here]

/-- The dispatcher moves on without touching the rings or the history. -/
theorem Inv.with_dispatcher (inv : Inv s) {d : Dispatcher H} {calls : List (Call H)}
    (busy : s.dispatcher ≠ .idle) (busy' : d ≠ .idle)
    (flight : s.subscribers.count < CAPACITY → s.Flight →
      ({ s with dispatcher := d, calls := calls } : State H T).Flight) :
    Inv { s with dispatcher := d, calls := calls } where
  owned := inv.owned.congr fun x => by
    cases x with
    | none =>
        cases d <;> cases here : s.dispatcher <;> simp_all [State.owner]
    | some t => rfl
  events := inv.events
  subscribers := inv.subscribers
  first := inv.first
  length := inv.length
  log := inv.log
  flight room := flight room (inv.flight room)

theorem Inv.calling_call (inv : Inv s) (here : s.dispatcher = .calling e idx)
    (more : idx ≠ s.subscribers.end_) :
    Inv { s with
      dispatcher := .handling e idx
      calls := s.calls ++ [⟨idx, s.subscribers.storage idx, e⟩] } := by
  refine inv.with_dispatcher (by rw [here]; nofun) nofun fun room flight => ?_
  have last := inv.subscribers.last
  have count := inv.subscribers.count
  rw [inv.first, RingBuffer.place, Nat.zero_add, ← count, Nat.mod_eq_of_lt room] at last
  have below : idx < s.subscribers.count := by
    have := flight.calling e idx here
    omega
  have handle : s.subscribers.contents[idx]? = some (s.subscribers.storage idx) := by
    have at_ := List.getElem?_eq_getElem (count ▸ below)
    have element := inv.subscribers.elements idx _ at_
    rw [inv.first, RingBuffer.place, Nat.zero_add, Nat.mod_eq_of_lt (by omega)] at element
    rw [at_, element]
  refine ⟨fun c mem => ?_, flight.joined, nofun, ?_, fun i j at_ => ?_⟩
  · rcases List.mem_append.mp mem with mem | mem
    · exact flight.handles c mem
    · rw [List.mem_singleton.mp mem]
      exact handle
  · intro e' idx' eq
    cases eq
    exact below
  · rw [← flight.calls i j at_, State.callsTo_append (s := s) rfl, List.append_assoc]
    congr 1
    simp only [State.inFlight, here]
    -- the subscriber called, the ones after it and the ones before it
    rcases Nat.lt_trichotomy idx i with lt | rfl | gt
    · simp [lt, Nat.ne_of_lt lt, Nat.le_of_lt lt]
    · simp
    · simp [Nat.ne_of_gt gt, Nat.not_lt_of_gt gt, Nat.not_le_of_gt gt]

theorem Inv.calling_end (inv : Inv s) (here : s.dispatcher = .calling e idx)
    (done : idx = s.subscribers.end_) : Inv { s with dispatcher := .popping } := by
  refine inv.with_dispatcher (by rw [here]; nofun) nofun fun room flight => ?_
  have last := inv.subscribers.last
  have count := inv.subscribers.count
  rw [inv.first, RingBuffer.place, Nat.zero_add, ← count, Nat.mod_eq_of_lt room] at last
  refine ⟨flight.handles, flight.joined, nofun, nofun, fun i j at_ => ?_⟩
  -- nobody is left who has not been called
  have below : i < s.subscribers.count := by
    rw [← inv.length]
    exact (List.getElem?_eq_some_iff.mp at_).1
  have empty : s.inFlight i = [] := by
    simp only [State.inFlight, here]
    exact if_neg (by omega)
  have before := flight.calls i j at_
  rw [empty] at before
  exact before

theorem Inv.handling (inv : Inv s) (here : s.dispatcher = .handling e idx) :
    Inv { s with dispatcher := .calling e (RingBuffer.forwardWrap CAPACITY idx) } := by
  refine inv.with_dispatcher (by rw [here]; nofun) nofun fun room flight => ?_
  have below := flight.handling e idx here
  have next : RingBuffer.forwardWrap CAPACITY idx = idx + 1 := if_pos (by omega)
  rw [next]
  refine ⟨flight.handles, flight.joined, ?_, nofun, fun i j at_ => ?_⟩
  · intro e' idx' eq
    cases eq
    exact below
  · have before := flight.calls i j at_
    simp only [State.inFlight, here] at before
    exact before

theorem Inv.handlerSubscribe (inv : Inv s) (h : H) : Inv (s.handlerSubscribe h) := by
  unfold State.handlerSubscribe
  split
  · next e idx here =>
      refine inv.with_dispatcher (by rw [here]; nofun) nofun fun _ flight => ?_
      refine ⟨flight.handles, flight.joined, nofun, nofun, fun i j at_ => ?_⟩
      have before := flight.calls i j at_
      simp only [State.inFlight, here] at before
      exact before
  · exact inv

/-- The dispatcher takes the lock. -/
theorem Inv.dispatcher_lock (inv : Inv s) (here : s.dispatcher = .idle)
    (free : s.locked = false) : Inv { s with locked := true, dispatcher := .popping } := by
  refine ⟨?_, inv.events, inv.subscribers, inv.first, inv.length, inv.log, fun room => ?_⟩
  · refine inv.owned.take (x := none) (r := ()) free ?_ rfl ?_ (fun _ => by simp)
    · simp [State.owner, here]
    · rintro (_ | t) ne
      · exact absurd rfl ne
      · rfl
  · have flight := inv.flight room
    refine ⟨flight.handles, flight.joined, nofun, nofun, fun i j at_ => ?_⟩
    have before := flight.calls i j at_
    simp only [State.inFlight, here] at before
    exact before

/-- An event is taken out of the ring. -/
theorem Inv.pop_some (inv : Inv s) (here : s.dispatcher = .popping)
    {events : RingBuffer Event CAPACITY} (pop : s.events.popFront = (some e, events)) :
    Inv { s with
      events := events
      dispatcher := .calling e s.subscribers.begin_
      history := { s.history with taken := s.history.taken ++ [e] } } := by
  obtain ⟨holds, head⟩ := inv.events.popFront
  rw [pop] at holds head
  have contents : s.events.contents = e :: s.events.contents.tail :=
    List.eq_cons_of_mem_head? (Option.mem_def.mpr head.symm)
  refine ⟨?_, by dsimp only; rw [holds.contents]; exact holds, inv.subscribers, inv.first,
    inv.length, ?_, fun room => ?_⟩
  · refine inv.owned.congr ?_
    rintro (_ | t)
    · simp [State.owner, here]
    · rfl
  · dsimp only
    rw [holds.contents, inv.log, List.append_assoc, List.singleton_append, ← contents]
  · have flight := inv.flight room
    refine ⟨flight.handles, fun j mem => ?_, ?_, nofun, fun i j at_ => ?_⟩
    · have := flight.joined j mem
      simp only [List.length_append, List.length_singleton]
      omega
    · intro e' idx' eq
      cases eq
      rw [inv.first]
      exact Nat.zero_le _
    · have before := flight.calls i j at_
      have bound := flight.joined j (List.mem_of_getElem? at_)
      simp only [State.inFlight, here, List.append_nil] at before
      simp only [State.inFlight, inv.first, if_pos (Nat.zero_le i)]
      rw [List.drop_append_of_le_length bound, ← before]
      rfl

/-- The ring is empty and the dispatcher releases the lock. -/
theorem Inv.pop_none (inv : Inv s) (here : s.dispatcher = .popping)
    {events : RingBuffer Event CAPACITY} (pop : s.events.popFront = (none, events)) :
    Inv { s with events := events, locked := false, dispatcher := .idle } := by
  obtain ⟨holds, head⟩ := inv.events.popFront
  rw [pop] at holds head
  have contents : s.events.contents = [] := List.head?_eq_none_iff.mp head.symm
  refine ⟨?_, by dsimp only; rw [holds.contents]; exact holds, inv.subscribers, inv.first,
    inv.length, ?_, fun room => ?_⟩
  · refine inv.owned.give (x := none) (r := ()) ?_ rfl ?_ (fun _ => by simp)
    · simp [State.owner, here]
    · rintro (_ | t) ne
      · exact absurd rfl ne
      · rfl
  · dsimp only
    rw [holds.contents, inv.log, contents]
    rfl
  · have flight := inv.flight room
    refine ⟨flight.handles, flight.joined, nofun, nofun, fun i j at_ => ?_⟩
    have before := flight.calls i j at_
    simp only [State.inFlight, here] at before
    exact before

theorem Inv.dispatchKeyEvents (inv : Inv s) : Inv s.dispatchKeyEvents := by
  unfold State.dispatchKeyEvents
  cases here : s.dispatcher with
  | idle =>
      dsimp only
      split
      · exact inv
      · next free => exact inv.dispatcher_lock here (by simpa using free)
  | popping =>
      dsimp only
      split
      · next e events pop => exact inv.pop_some here pop
      · next events pop => exact inv.pop_none here pop
  | calling e idx =>
      dsimp only
      split
      · next more => exact inv.calling_call here more
      · next done => exact inv.calling_end here (not_not.mp done)
  | handling e idx => exact inv.handling here
  | stuck e idx h => exact inv

/-! ## The subscribers -/

/-- A task moves on, and the lock with it. -/
theorem Inv.with_task (inv : Inv s) {tasks : T → Subscribing H} {locked : Bool}
    (owned : Owned (fun _ : Unit => locked)
      ({ s with tasks := tasks, locked := locked } : State H T).owner) :
    Inv { s with tasks := tasks, locked := locked } :=
  ⟨owned, inv.events, inv.subscribers, inv.first, inv.length, inv.log, fun room =>
    let flight := inv.flight room
    ⟨flight.handles, flight.joined, flight.calling, flight.handling, flight.calls⟩⟩

/-- A subscriber is added while the dispatcher waits for the lock. -/
theorem Inv.push (inv : Inv s) (idle : s.dispatcher = .idle) (h : H) :
    Inv { s with
      subscribers := (s.subscribers.pushBack h).2
      history := { s.history with
        joined := s.history.joined ++
          if s.subscribers.size < CAPACITY then [s.history.taken.length] else [] } } := by
  have size : s.subscribers.size = s.subscribers.count := rfl
  by_cases room : s.subscribers.size < CAPACITY
  · rw [if_pos room]
    obtain ⟨holds, _⟩ := inv.subscribers.pushBack (inv.subscribers.count ▸ room) h
    have count : (s.subscribers.pushBack h).2.count = s.subscribers.count + 1 := by
      rw [holds.count, List.length_append, ← inv.subscribers.count, List.length_singleton]
    have first : (s.subscribers.pushBack h).2.begin_ = s.subscribers.begin_ := by
      unfold RingBuffer.pushBack
      split <;> rfl
    have flight := inv.flight room
    refine ⟨inv.owned.congr fun x => by cases x <;> rfl, inv.events, ?_, first.trans inv.first,
      ?_, inv.log, fun _ => ?_⟩
    · dsimp only
      rw [holds.contents]
      exact holds
    · dsimp only
      rw [count, List.length_append, inv.length, List.length_singleton]
    refine ⟨fun c mem => ?_, fun j mem => ?_, ?_, ?_, fun i j at_ => ?_⟩
    · dsimp only
      rw [holds.contents, List.getElem?_append_left]
      · exact flight.handles c mem
      · exact (List.getElem?_eq_some_iff.mp (flight.handles c mem)).1
    · rcases List.mem_append.mp mem with mem | mem
      · exact flight.joined j mem
      · rw [List.mem_singleton.mp mem]
    · intro e idx here
      cases idle.symm.trans here
    · intro e idx here
      cases idle.symm.trans here
    · rw [List.getElem?_append] at at_
      split at at_
      · exact flight.calls i j at_
      · next behind =>
          -- the new subscriber has not been called yet
          obtain ⟨at0, eq⟩ := List.getElem?_eq_some_iff.mp at_
          rw [List.getElem_singleton] at eq
          have none : s.calls.filter (·.index == i) = [] := by
            refine List.filter_eq_nil_iff.mpr fun c mem here => behind ?_
            have below := (List.getElem?_eq_some_iff.mp (flight.handles c mem)).1
            rw [← inv.subscribers.count, ← inv.length, beq_iff_eq.mp here] at below
            exact below
          rw [← eq, List.drop_length]
          simp [State.callsTo, State.inFlight, none, idle]
  · have full : s.subscribers.full = true := by
      have fits := inv.subscribers.fits
      rw [inv.subscribers.full_iff]
      rw [size, inv.subscribers.count] at room
      omega
    unfold RingBuffer.pushBack
    rw [if_neg room, if_pos full, List.append_nil]
    exact inv

theorem State.owner_update [DecidableEq T] (s : State H T) (t : T) (p : Subscribing H)
    (locked : Bool) (x : Option T) (ne : x ≠ some t) :
    ({ s with tasks := Function.update s.tasks t p, locked := locked } : State H T).owner x
      = s.owner x := by
  cases x with
  | none => rfl
  | some t' =>
      have other : t' ≠ t := fun eq => ne (by rw [eq])
      simp [owner, other]

theorem Inv.subscribe [DecidableEq T] (inv : Inv s) (t : T) (h : H) : Inv (s.subscribe t h) := by
  unfold State.subscribe
  cases here : s.tasks t with
  | idle =>
      refine inv.with_task (inv.owned.congr fun x => ?_)
      by_cases eq : x = some t
      · simp [eq, State.owner, here]
      · exact s.owner_update t _ _ x eq
  | acquiring h =>
      dsimp only
      split
      · exact inv
      · next free =>
          refine inv.with_task (inv.owned.take (x := some t) (r := ()) (by simpa using free) ?_ ?_
            (s.owner_update t _ _) fun _ => by simp)
          · simp [State.owner, here]
          · simp [State.owner]
  | pushing h =>
      have idle : s.dispatcher = .idle := inv.idle_of_owner (t := t) (by simp [State.owner, here])
      have pushed := inv.push idle h
      refine pushed.with_task (pushed.owned.congr fun x => ?_)
      by_cases eq : x = some t
      · simp [eq, State.owner, here]
      · exact State.owner_update _ t _ _ x eq
  | releasing =>
      refine inv.with_task (inv.owned.give (x := some t) (r := ()) ?_ ?_
        (s.owner_update t _ _) fun _ => by simp)
      · simp [State.owner, here]
      · simp [State.owner]

/-! ## Every run -/

theorem Inv.machine_step [DecidableEq T] (inv : Inv s) {s' : State H T} {o : Op H T}
    (hstep : (machine H T).step s o = .ok s') : Inv s' := by
  cases o with
  | interrupt scancodes =>
      cases hstep
      exact inv.handleInterrupt scancodes
  | dispatch =>
      cases hstep
      exact inv.dispatchKeyEvents
  | handlerSubscribe h =>
      cases hstep
      exact inv.handlerSubscribe h
  | subscribe t h =>
      cases hstep
      exact inv.subscribe t h

theorem Inv.delivers (inv : Inv s) (room : s.subscribers.size < CAPACITY) :
    s.Delivers s.history.accepted := by
  have flight := inv.flight room
  intro i j at_
  have bound := flight.joined j (List.mem_of_getElem? at_)
  rw [State.pending, ← List.append_assoc, flight.calls i j at_, inv.log,
    List.drop_append_of_le_length bound]

/-! ## The dispatcher gets there -/

/-- The dispatcher takes events out of the ring and calls handlers; everything else
stays. -/
theorem State.dispatchKeyEvents_frame (s : State H T) :
    s.dispatchKeyEvents.history.accepted = s.history.accepted ∧
      s.dispatchKeyEvents.history.joined = s.history.joined ∧
      s.dispatchKeyEvents.subscribers = s.subscribers ∧
      s.dispatchKeyEvents.tasks = s.tasks := by
  unfold dispatchKeyEvents
  cases s.dispatcher with
  | idle =>
      dsimp only
      split <;> exact ⟨rfl, rfl, rfl, rfl⟩
  | popping =>
      dsimp only
      split <;> exact ⟨rfl, rfl, rfl, rfl⟩
  | calling e idx =>
      dsimp only
      split <;> exact ⟨rfl, rfl, rfl, rfl⟩
  | handling e idx => exact ⟨rfl, rfl, rfl, rfl⟩
  | stuck e idx h => exact ⟨rfl, rfl, rfl, rfl⟩

theorem State.CanDispatch.dispatchKeyEvents (can : s.CanDispatch) :
    s.dispatchKeyEvents.CanDispatch := by
  obtain ⟨others, notStuck⟩ := can
  refine ⟨fun t => ?_, ?_⟩
  · rw [s.dispatchKeyEvents_frame.2.2.2]
    exact others t
  · unfold State.dispatchKeyEvents
    cases here : s.dispatcher with
    | idle =>
        dsimp only
        split
        · rw [here]
          nofun
        · nofun
    | popping =>
        dsimp only
        split <;> nofun
    | calling e idx =>
        dsimp only
        split <;> nofun
    | handling e idx => nofun
    | stuck e idx h => exact absurd here (notStuck e idx h)

/-- An idle dispatcher finds the lock free, if no task has it. -/
theorem Inv.unlocked (inv : Inv s) (can : s.CanDispatch) (idle : s.dispatcher = .idle) :
    s.locked = false := by
  cases locked : s.locked with
  | false => rfl
  | true =>
      obtain ⟨x, owns⟩ := (inv.owned.taken_iff ()).mp locked
      cases x with
      | none => simp [State.owner, idle] at owns
      | some t =>
          obtain ⟨notReleasing, notPushing⟩ := can.1 t
          cases here : s.tasks t <;> simp_all [State.owner]

/-- How many steps the dispatcher needs at most until the ring is empty. -/
def State.steps (s : State H T) : Nat :=
  let n := s.subscribers.count
  let k := s.events.count * (2 * n + 3)
  match s.dispatcher with
  | .idle => if s.events.count = 0 then 0 else k + 2
  | .popping => k + 1
  | .calling _ idx => k + 2 * (n - idx) + 2
  | .handling _ idx => k + 2 * (n - idx) + 1
  | .stuck _ _ _ => 0

theorem Inv.steps_lt (inv : Inv s) (can : s.CanDispatch) (room : s.subscribers.size < CAPACITY)
    (busy : s.steps ≠ 0) : s.dispatchKeyEvents.steps < s.steps := by
  have flight := inv.flight room
  unfold State.dispatchKeyEvents
  cases here : s.dispatcher with
  | idle =>
      rw [inv.unlocked can here]
      simp only [State.steps, here] at busy ⊢
      split at busy
      · exact absurd rfl busy
      · next some_ => simp [some_]
  | popping =>
      dsimp only
      obtain ⟨holds, head⟩ := inv.events.popFront
      have count := inv.events.count
      have count' := holds.count
      split
      · next e events pop =>
          rw [pop] at head count'
          have contents : s.events.contents = e :: s.events.contents.tail :=
            List.eq_cons_of_mem_head? (Option.mem_def.mpr head.symm)
          have length : s.events.count = events.count + 1 := by
            rw [count, contents, List.length_cons, ← count']
          simp only [State.steps, here, inv.first, length, Nat.add_mul]
          omega
      · next events pop =>
          rw [pop] at head count'
          have contents : s.events.contents = [] := List.head?_eq_none_iff.mp head.symm
          rw [contents, List.tail_nil, List.length_nil] at count'
          have empty : events.count = 0 := count'
          simp only [State.steps, here, if_pos empty]
          omega
  | calling e idx =>
      dsimp only
      split <;> simp only [State.steps, here] <;> omega
  | handling e idx =>
      have below := flight.handling e idx here
      have next : RingBuffer.forwardWrap CAPACITY idx = idx + 1 := if_pos (by
        rw [RingBuffer.size] at room
        omega)
      simp only [State.steps, here, next]
      omega
  | stuck e idx h => exact absurd here (can.2 e idx h)

theorem run_dispatch [DecidableEq T] (s : State H T) (n : Nat) :
    (machine H T).run s (List.replicate n .dispatch) = .ok (State.dispatchKeyEvents^[n] s) := by
  induction n generalizing s with
  | zero => rfl
  | succ n ih =>
      rw [List.replicate_succ, Machine.run, Function.iterate_succ_apply]
      exact ih s.dispatchKeyEvents

/-- Left alone, the dispatcher empties the ring. -/
theorem Inv.exists_empty (inv : Inv s) (can : s.CanDispatch)
    (room : s.subscribers.size < CAPACITY) :
    ∃ n, let s' := State.dispatchKeyEvents^[n] s
      Inv s' ∧ s'.steps = 0 ∧ s'.CanDispatch ∧ s'.subscribers = s.subscribers ∧
        s'.history.accepted = s.history.accepted ∧ s'.history.joined = s.history.joined := by
  induction fuel : s.steps using Nat.strong_induction_on generalizing s with
  | _ fuel_ ih =>
      by_cases done : s.steps = 0
      · exact ⟨0, inv, done, can, rfl, rfl, rfl⟩
      · obtain ⟨accepted, joined, subscribers, -⟩ := s.dispatchKeyEvents_frame
        obtain ⟨n, inv', rest⟩ := ih s.dispatchKeyEvents.steps
          (fuel ▸ inv.steps_lt can room done) inv.dispatchKeyEvents can.dispatchKeyEvents
          (by rw [subscribers]; exact room) rfl
        rw [subscribers, accepted, joined] at rest
        exact ⟨n + 1, inv', rest⟩

theorem Inv.drains [DecidableEq T] (inv : Inv s) (can : s.CanDispatch)
    (room : s.subscribers.size < CAPACITY) : s.Drains s.history.accepted := by
  obtain ⟨n, inv', done, can', subscribers, accepted, joined⟩ := inv.exists_empty can room
  refine ⟨n, State.dispatchKeyEvents^[n] s, run_dispatch s n, joined, fun i j at_ => ?_⟩
  have delivers := inv'.delivers (by rw [subscribers]; exact room) i j (by rw [joined]; exact at_)
  -- nothing is pending
  have idle : (State.dispatchKeyEvents^[n] s).dispatcher = .idle ∧
      (State.dispatchKeyEvents^[n] s).events.count = 0 := by
    generalize State.dispatchKeyEvents^[n] s = s' at done can'
    cases here : s'.dispatcher with
    | idle =>
        simp only [State.steps, here] at done
        split at done
        · next none => exact ⟨rfl, none⟩
        · cases done
    | stuck e idx h => exact absurd here (can'.2 e idx h)
    | _ => simp [State.steps, here] at done
  have none : (State.dispatchKeyEvents^[n] s).pending i = [] := by
    rw [State.pending, List.eq_nil_of_length_eq_zero (inv'.events.count.symm.trans idle.2)]
    simp [State.inFlight, idle.1]
  rw [none, List.append_nil, accepted] at delivers
  exact delivers

/-- Every subscriber gets the accepted events exactly once and in order, and is the
one that was called. -/
theorem delivers_accepted [DecidableEq T] [Inhabited H] (ops : List (Op H T)) :
    (machine H T).Always (fun s => s.subscribers.size < CAPACITY →
      s.Delivers s.history.accepted ∧
        (∀ c ∈ s.calls, s.subscribers.contents[c.index]? = some c.handle) ∧
        (s.CanDispatch → s.Drains s.history.accepted)) (initial H T) ops :=
  Machine.always_of_inv (fun _ _ _ inv _ hstep => inv.machine_step hstep)
    (fun _ inv room => ⟨inv.delivers room, (inv.flight room).handles,
      fun can => inv.drains can room⟩) inv_initial Machine.eachStep_true

/-- A key is pressed, the dispatcher takes the lock, and another key is pressed. -/
def pressTwice : List (Op Unit Unit) :=
  [.subscribe () (), .subscribe () (), .subscribe () (), .subscribe () (),
    .interrupt [0x1E], .dispatch, .interrupt [0x1F]]

/-- The second key was read with room in the ring, and is neither pending nor was the
subscriber called with it. -/
theorem drops_while_locked :
    ¬ (machine Unit Unit).Always (fun s => s.subscribers.size < CAPACITY → s.Delivers s.history.read)
      (initial Unit Unit) pressTwice := by
  intro always
  have evaluated : completesWith ((machine Unit Unit).run (initial Unit Unit) pressTwice)
      (fun s => decide (s.subscribers.size < CAPACITY) && !decide (s.Delivers s.history.read))
      = true := by decide
  obtain ⟨s, hrun, final⟩ := exists_of_completesWith evaluated
  obtain ⟨room, lost⟩ := Bool.and_eq_true_iff.mp final
  exact absurd (always.last hrun (of_decide_eq_true room)) (by simpa using lost)

end Tyleros.Keyboard
