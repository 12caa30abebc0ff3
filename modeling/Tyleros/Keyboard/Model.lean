import Tyleros.Basic
import Tyleros.Lib.Machine
import Tyleros.Adt.RingBuffer

/-!
# The keyboard

`kernel/input.cpp`: the interrupt handler reads scancodes and puts events into the
ring of `main_event_pump`, one task takes them out and calls the subscribers, and any
task may subscribe. All three go through the pump's mutex; the interrupt handler and
the dispatcher only try to lock it.

A step of the machine is a keyboard interrupt, which runs with interrupts off and so
as a whole, or what a task does between two points where an interrupt or another task
can come in. The dispatcher holds the lock while a handler runs, and a handler may do
anything with the keyboard that a task can: subscribe, which never returns then.

`History` records what a run has read, taken out of the ring and joined; no code
reads it.
-/

namespace Tyleros.Keyboard

open Tyleros.Lib Tyleros.Adt

/-- `keyboard::event`. -/
structure Event where
  code : UInt8
  pressed : Bool
  deriving DecidableEq, Repr

/-- `scancode_to_key`. -/
def SCANCODE_TO_KEY : List UInt8 :=
  [0x00, 0x20, 0x31, 0x32, 0x33, 0x34, 0x35, 0x36, 0x37, 0x38, 0x39, 0x30,
    0x2D, 0x3D, 0x08, 0x09, 0x71, 0x77, 0x65, 0x72, 0x74, 0x79, 0x75, 0x69,
    0x6F, 0x70, 0x5B, 0x5D, 0x0A, 0x00, 0x61, 0x73, 0x64, 0x66, 0x67, 0x68,
    0x6A, 0x6B, 0x6C, 0x3B, 0x27, 0x60, 0x01, 0x5C, 0x7A, 0x78, 0x63, 0x76,
    0x62, 0x6E, 0x6D, 0x2C, 0x2E, 0x2F, 0x02, 0x00, 0x02, 0x20,
    0x00, 0x00, 0x00, 0x00, 0x00, 0x00]

def pressed (scancode : UInt8) : Bool := scancode &&& 0x80 == 0

/-- `scancode_offset`. -/
def offset (scancode : UInt8) : UInt8 :=
  if pressed scancode then scancode else scancode &&& 0x7F

/-- The event of a scancode with an offset below 0x40. -/
def eventOf (scancode : UInt8) : Event :=
  ⟨SCANCODE_TO_KEY.getD (offset scancode).toNat 0, pressed scancode⟩

/-- The capacity of both rings. -/
def CAPACITY : Nat := 0x100

/-- Where the dispatcher is in `dispatch_key_events`. -/
inductive Dispatcher (H : Type) where
  /-- Before `try_lock`. -/
  | idle
  /-- Before `pop_front`. -/
  | popping
  /-- In the loop over the subscribers, before `iterator != end`. -/
  | calling (e : Event) (idx : Nat)
  /-- In `subscriber.handle(e)`. -/
  | handling (e : Event) (idx : Nat)
  /-- In `subscribe`, called by a handler: `acquire` waits for the dispatcher itself. -/
  | stuck (e : Event) (idx : Nat) (h : H)
  deriving DecidableEq, Repr

/-- Where a task is in `subscribe`. -/
inductive Subscribing (H : Type) where
  | idle
  | acquiring (h : H)
  | pushing (h : H)
  | releasing
  deriving DecidableEq, Repr

/-- A call of a handler: the index of the subscriber and what it was called with. -/
structure Call (H : Type) where
  index : Nat
  handle : H
  event : Event
  deriving DecidableEq, Repr

structure History where
  /-- Events of the scancodes with an offset below 0x40 that were read while there
  was room in the ring. -/
  read : List Event
  /-- Those of them that were read while nobody held the lock, other than `0x00`. -/
  accepted : List Event
  /-- Events that the dispatcher took out of the ring. -/
  taken : List Event
  /-- For every subscriber, how many events had been taken out when it subscribed. -/
  joined : List Nat
  deriving DecidableEq, Repr

structure State (H T : Type) where
  locked : Bool
  events : RingBuffer Event CAPACITY
  subscribers : RingBuffer H CAPACITY
  dispatcher : Dispatcher H
  tasks : T → Subscribing H
  calls : List (Call H)
  history : History

namespace State

variable {H T : Type}

/-- The body of the loop of `handle_interrupt`, for a scancode other than `0x00`. The
lock is released before anybody can see that it was taken. -/
def handleScancode (s : State H T) (scancode : UInt8) : State H T :=
  if offset scancode < 0x40 then
    if s.locked then s else { s with events := (s.events.pushBack (eventOf scancode)).2 }
  else s

/-- What the history records of a scancode that is read. -/
def record (s : State H T) (scancode : UInt8) : History :=
  if offset scancode < 0x40 ∧ s.events.size < CAPACITY then
    { s.history with
      read := s.history.read ++ [eventOf scancode]
      accepted := s.history.accepted ++
        if scancode ≠ 0 ∧ s.locked = false then [eventOf scancode] else [] }
  else s.history

/-- `handle_interrupt`, with the scancodes that the controller has ready. -/
def handleInterrupt (s : State H T) : List UInt8 → State H T
  | [] => s
  | scancode :: rest =>
    if scancode = 0 then { s with history := s.record scancode }
    else
      handleInterrupt { s.handleScancode scancode with history := s.record scancode } rest

/-- The next step of `dispatch_key_events`. A handler returns when it takes a step. -/
def dispatchKeyEvents (s : State H T) : State H T :=
  match s.dispatcher with
  | .idle => if s.locked then s else { s with locked := true, dispatcher := .popping }
  | .popping =>
    match s.events.popFront with
    | (some e, events) =>
      { s with
        events := events
        dispatcher := .calling e s.subscribers.begin_
        history := { s.history with taken := s.history.taken ++ [e] } }
    | (none, events) => { s with events := events, locked := false, dispatcher := .idle }
  | .calling e idx =>
    if idx ≠ s.subscribers.end_ then
      { s with
        dispatcher := .handling e idx
        calls := s.calls ++ [⟨idx, s.subscribers.storage idx, e⟩] }
    else { s with dispatcher := .popping }
  | .handling e idx => { s with dispatcher := .calling e (RingBuffer.forwardWrap CAPACITY idx) }
  | .stuck _ _ _ => s

/-- A handler calls `subscribe`. -/
def handlerSubscribe (s : State H T) (h : H) : State H T :=
  match s.dispatcher with
  | .handling e idx => { s with dispatcher := .stuck e idx h }
  | _ => s

/-- The next step of task `t` in `subscribe`; it calls it with `h` if it is in none. -/
def subscribe [DecidableEq T] (s : State H T) (t : T) (h : H) : State H T :=
  match s.tasks t with
  | .idle => { s with tasks := Function.update s.tasks t (.acquiring h) }
  | .acquiring h =>
    if s.locked then s
    else { s with locked := true, tasks := Function.update s.tasks t (.pushing h) }
  | .pushing h =>
    { s with
      subscribers := (s.subscribers.pushBack h).2
      tasks := Function.update s.tasks t .releasing
      history := { s.history with
        joined := s.history.joined ++
          if s.subscribers.size < CAPACITY then [s.history.taken.length] else [] } }
  | .releasing => { s with locked := false, tasks := Function.update s.tasks t .idle }

end State

inductive Op (H T : Type) where
  | interrupt (scancodes : List UInt8)
  | dispatch
  | handlerSubscribe (h : H)
  | subscribe (t : T) (h : H)
  deriving DecidableEq, Repr

def machine (H T : Type) [DecidableEq T] : Machine (State H T) (Op H T) Stop where
  step s
    | .interrupt scancodes => .ok (s.handleInterrupt scancodes)
    | .dispatch => .ok s.dispatchKeyEvents
    | .handlerSubscribe h => .ok (s.handlerSubscribe h)
    | .subscribe t h => .ok (s.subscribe t h)

/-- Both rings are empty and nobody has subscribed. -/
def initial (H T : Type) [Inhabited H] : State H T where
  locked := false
  events := .ofArray ⟨0, false⟩ []
  subscribers := .ofArray default []
  dispatcher := .idle
  tasks _ := .idle
  calls := []
  history := ⟨[], [], [], []⟩

/-! ## What is delivered -/

namespace State

variable {H T : Type}

/-- The events that subscriber `i` was called with, in order. -/
def callsTo (s : State H T) (i : Nat) : List Event :=
  (s.calls.filter (·.index == i)).map (·.event)

/-- The event that is on its way to subscriber `i`. -/
def inFlight (s : State H T) (i : Nat) : List Event :=
  match s.dispatcher with
  | .calling e idx => if idx ≤ i then [e] else []
  | .handling e idx => if idx < i then [e] else []
  | .stuck e idx _ => if idx < i then [e] else []
  | _ => []

/-- The events that subscriber `i` has still to be called with. -/
def pending (s : State H T) (i : Nat) : List Event := s.inFlight i ++ s.events.contents

/-- Every subscriber was called, or is going to be called, exactly once and in order
with the events of `log`, from the ones on that were in the ring when it subscribed. -/
def Delivers (s : State H T) (log : List Event) : Prop :=
  ∀ i j, s.history.joined[i]? = some j → s.callsTo i ++ s.pending i = log.drop j

instance (s : State H T) (log : List Event) : Decidable (s.Delivers log) :=
  decidable_of_iff (∀ p ∈ s.history.joined.zipIdx, s.callsTo p.2 ++ s.pending p.2 = log.drop p.1)
    ⟨fun h i j at_ => h (j, i) (List.mk_mem_zipIdx_iff_getElem?.mpr at_),
      fun h p mem => h p.2 p.1 (List.mk_mem_zipIdx_iff_getElem?.mp mem)⟩

/-- No task other than the dispatcher holds the lock, and the dispatcher does not wait
for itself. -/
def CanDispatch (s : State H T) : Prop :=
  (∀ t, s.tasks t ≠ .releasing ∧ ∀ h, s.tasks t ≠ .pushing h) ∧
    ∀ e idx h, s.dispatcher ≠ .stuck e idx h

/-- Left alone, the dispatcher calls every subscriber with everything in `log`. -/
def Drains [DecidableEq T] (s : State H T) (log : List Event) : Prop :=
  ∃ n s', (machine H T).run s (List.replicate n .dispatch) = .ok s' ∧
    s'.history.joined = s.history.joined ∧
    ∀ i j, s.history.joined[i]? = some j → s'.callsTo i = log.drop j

end State

end Tyleros.Keyboard
