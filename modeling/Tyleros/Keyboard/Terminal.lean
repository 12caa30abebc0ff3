import Tyleros.Keyboard.Delivery
import Tyleros.Minishell

/-!
# The terminal

The whole way from a key to a command: interrupts of the keyboard, the task that runs
`dispatch_key_events`, and the boot task, which runs `minishell::loop` and so makes the shell the
only subscriber, one step at a time and in any order.

`Typist` is the shell without its buffer: a line, and the world that the commands act on.

`terminal_types`: as long as nobody presses backspace behind a line that fills the buffer, the
world is in every state what the typist has made of the keys that were delivered; those are the
accepted ones from the subscription on, once and in order; and no key makes the shell access
its buffer behind the end, or stops it where the typist is not stopped. What other tasks do to
the screen is not part of it.
-/

namespace Tyleros.Terminal

open Lib
open Keyboard (Event CAPACITY)
open Minishell (Shell World Environment Halt Line Command ENTER BACKSPACE UPPERS isprint isprint_ne)

variable {ω : Type}

/-! ## The machine -/

/-- Where the boot task is in `minishell::loop`. -/
inductive Loop where
  | printing
  /-- In `keyboard::subscribe`. -/
  | subscribing
  | yielding
  deriving DecidableEq, Repr

structure State (ω : Type) where
  keyboard : Keyboard.State Unit Unit
  shell : Shell ω
  loop : Loop

inductive Op where
  | interrupt (scancodes : List UInt8)
  /-- The next step of `dispatch_key_events`. -/
  | dispatch
  /-- The next step of `minishell::loop`. -/
  | loop
  deriving DecidableEq, Repr

/-- `vga::string::print("> ")`. -/
def prompt (w : World ω) : World ω := w.onScreen (Vga.print (Libc.asciiOf "> ".toList))

namespace State

/-- The event that `handle_key_event` is called with in the next step of the dispatcher. -/
def called (s : State ω) : Option Event :=
  match s.keyboard.dispatcher with
  | .calling e idx => if idx ≠ s.keyboard.subscribers.end_ then some e else none
  | _ => none

def dispatch (env : Environment ω) (s : State ω) : Except Halt (State ω) :=
  let keyboard := s.keyboard.dispatchKeyEvents
  match s.called with
  | some e => do return { s with keyboard, shell := ← s.shell.handleKeyEvent env e }
  | none => .ok { s with keyboard }

def stepLoop (s : State ω) : State ω :=
  match s.loop with
  | .printing =>
    { s with shell := { s.shell with world := prompt s.shell.world }, loop := .subscribing }
  | .subscribing =>
    { s with
      keyboard := s.keyboard.subscribe () ()
      loop := if s.keyboard.tasks () = .releasing then .yielding else .subscribing }
  | .yielding => s

def step (env : Environment ω) (s : State ω) : Op → Except Halt (State ω)
  | .interrupt scancodes => .ok { s with keyboard := s.keyboard.handleInterrupt scancodes }
  | .dispatch => s.dispatch env
  | .loop => .ok s.stepLoop

/-- Nothing is typed, and nobody has subscribed. -/
def initial (w : World ω) : State ω where
  keyboard := Keyboard.initial Unit Unit
  shell := ⟨Vector.replicate 0x100 0, 0, false, w⟩
  loop := .printing

end State

/-- All interleavings. -/
def machine (env : Environment ω) : Machine (State ω) Op Halt := ⟨State.step env⟩

/-! ## The typist -/

/-- Somebody who types, and what comes of it. -/
structure Typist (ω : Type) where
  line : Line
  world : World ω

/-- The character that a key shows. -/
def echo (l : Line) (e : Event) : Option UInt8 :=
  if e.code = 0x1 ∨ e.pressed = false then none
  else if e.code = 0x08 then if l.chars = [] then none else some 0x08
  else if isprint e.code ∧ l.chars.length < 0x100 then
    some (if l.shift then UPPERS.getD e.code.toNat 0 else e.code)
  else none

/-- The world with a character printed. -/
def showChar (w : World ω) : Option UInt8 → World ω
  | some c => w.onScreen (Vga.Screen.printChar c .white .black)
  | none => w

/-- Enter executes the command that the line is, cut to 255 characters; every other key edits the
line. -/
def Typist.next (env : Environment ω) (t : Typist ω) (e : Event) : Except Stop (Typist ω) :=
  if e = ENTER then do
    let world ← (Command.ofLine (t.line.chars.take 255)).execute env
      (t.world.onScreen Vga.Screen.advanceCursorToNewline)
    return ⟨t.line.next e, prompt world⟩
  else return ⟨t.line.next e, showChar t.world (echo t.line e)⟩

/-- What comes of these keys. -/
def typed (env : Environment ω) (w : World ω) (events : List Event) : Except Stop (Typist ω) :=
  events.foldlM (Typist.next env) ⟨⟨[], false⟩, w⟩

/-- The world in which the typist begins. -/
def State.beginning (s : State ω) (w : World ω) : World ω :=
  if s.loop = .printing then w else prompt w

/-- The world is what the typist has made of the keys that the shell was called with. -/
def State.Types (env : Environment ω) (w : World ω) (s : State ω) : Prop :=
  ∃ t, typed env (s.beginning w) (s.keyboard.callsTo 0) = .ok t ∧ s.shell.world = t.world

/-- No access to the buffer is behind its end, and where the kernel is stopped the typist is
stopped by the same key. -/
structure State.Stops (env : Environment ω) (w : World ω) (s : State ω) (o : Op) : Prop where
  inBounds : ∀ index, s.step env o ≠ .error (.outOfBounds index)
  stopped : ∀ reason, s.step env o = .error (.stopped reason) →
    ∃ e, s.called = some e ∧
      typed env (s.beginning w) (s.keyboard.callsTo 0 ++ [e]) = .error reason

/-- The shell is called with backspace behind a line that fills the buffer. -/
def State.Overruns (s : State ω) (o : Op) : Prop :=
  o = .dispatch ∧ s.called = some BACKSPACE ∧ s.shell.bufferCount = 0x100

instance (s : State ω) (o : Op) : Decidable (s.Overruns o) :=
  inferInstanceAs (Decidable (_ ∧ _ ∧ _))

/-! ## The shell follows the typist -/

section Shell

variable {env : Environment ω} {shell shell' : Shell ω} {line : Line} {e : Event}

/-- What a key shows. -/
theorem world_of_typeKey (holds : Minishell.State.Holds ⟨shell, line⟩)
    (done : shell.typeKey e = .ok (false, shell')) :
    shell'.world = showChar shell.world (echo line e) := by
  have count : shell.bufferCount = line.chars.length := holds.count
  have shift : shell.shiftHeld = line.shift := holds.shift
  unfold Shell.typeKey at done
  unfold echo
  split at done
  · next isShift =>
      cases done
      rw [if_pos (Or.inl isShift)]
      rfl
  · next notShift =>
      split at done
      · next pressed =>
          have acts : ¬ (e.code = 0x1 ∨ e.pressed = false) := by
            rintro (isShift | released)
            · exact notShift isShift
            · cases pressed.symm.trans released
          rw [if_neg acts]
          split at done
          · cases done
          · split at done
            · next printable =>
                rw [if_neg (isprint_ne printable (by decide)), ← count, ← shift]
                revert done
                generalize (if shell.shiftHeld = true then UPPERS.getD e.code.toNat 0
                  else e.code) = code
                intro done
                by_cases room : shell.bufferCount < 0x100
                · rw [if_pos room, Shell.write_inside room] at done
                  cases done
                  rw [if_pos ⟨printable, room⟩]
                  rfl
                · rw [if_neg room] at done
                  cases done
                  rw [if_neg fun both => room both.2]
                  rfl
            · next control =>
                split at done
                · next backspace =>
                    rw [if_pos backspace]
                    split at done
                    · next some_ =>
                        have nonempty : line.chars ≠ [] := by
                          rintro empty
                          rw [empty, List.length_nil] at count
                          omega
                        obtain ⟨written, write, done⟩ := bind_eq_ok done
                        unfold Shell.write at write
                        split at write
                        · cases write
                          cases done
                          rw [if_neg nonempty, backspace]
                          rfl
                        · cases write
                    · next none_ =>
                        cases done
                        rw [if_pos (List.length_eq_zero_iff.mp (by omega))]
                        rfl
                · next other =>
                    cases done
                    rw [if_neg other, if_neg fun both => control both.1]
                    rfl
      · next released =>
          cases done
          rw [if_pos (Or.inr (Bool.eq_false_iff.mpr released))]
          rfl

theorem terminate_world (terminate : shell.terminate = .ok shell') :
    shell'.world = shell.world.onScreen Vga.Screen.advanceCursorToNewline := by
  unfold Shell.terminate at terminate
  rw [Shell.write_inside (by omega)] at terminate
  cases terminate
  rfl

/-- The shell does what the typist does, and stops when the typist stops. -/
theorem handleKeyEvent_types (env : Environment ω) (holds : Minishell.State.Holds ⟨shell, line⟩)
    (fits : ¬ (line.chars.length = 0x100 ∧ e = BACKSPACE)) :
    match Typist.next env ⟨line, shell.world⟩ e with
    | .ok t => ∃ shell', shell.handleKeyEvent env e = .ok shell' ∧ shell'.world = t.world ∧
        Minishell.State.Holds ⟨shell', t.line⟩
    | .error reason => shell.handleKeyEvent env e = .error (.stopped reason) := by
  by_cases enter : e = ENTER
  · subst enter
    obtain ⟨shell', terminate, -, handled⟩ := holds.enter env
    have world : shell'.world = shell.world.onScreen Vga.Screen.advanceCursorToNewline :=
      terminate_world terminate
    have shift := (Shell.terminate_shiftHeld terminate).trans holds.shift
    have next : Typist.next env ⟨line, shell.world⟩ ENTER =
        ((Command.ofLine (line.chars.take 255)).execute env
          (shell.world.onScreen Vga.Screen.advanceCursorToNewline)).map
            fun world => ⟨line.next ENTER, prompt world⟩ := by
      unfold Typist.next
      rw [if_pos rfl]
      cases (Command.ofLine (line.chars.take 255)).execute env
        (shell.world.onScreen Vga.Screen.advanceCursorToNewline) <;> rfl
    rw [next, handled, world]
    cases (Command.ofLine (line.chars.take 255)).execute env
        (shell.world.onScreen Vga.Screen.advanceCursorToNewline) with
    | error reason => rfl
    | ok world =>
        exact ⟨_, rfl, rfl, rfl, Nat.zero_le _, List.nil_prefix, List.not_mem_nil, shift⟩
  · obtain ⟨shell', done, held⟩ := holds.typeKey fits enter
    have next : Typist.next env ⟨line, shell.world⟩ e =
        .ok ⟨line.next e, showChar shell.world (echo line e)⟩ := if_neg enter
    rw [next]
    exact ⟨shell', Shell.handleKeyEvent_key done, world_of_typeKey holds done, held⟩

end Shell

/-! ## Runs -/

/-- The boot task subscribes once. -/
def Subscribes (loop : Loop) (tasks : Keyboard.Subscribing Unit) (count : Nat) : Prop :=
  match loop, tasks with
  | .printing, .idle => count = 0
  | .subscribing, .releasing => count = 1
  | .subscribing, _ => count = 0
  | .yielding, .idle => count = 1
  | _, _ => False

structure State.Inv (env : Environment ω) (w : World ω) (s : State ω) : Prop where
  keyboard : Keyboard.Inv s.keyboard
  subscribes : Subscribes s.loop (s.keyboard.tasks ()) s.keyboard.subscribers.count
  typed : ∃ t, typed env (s.beginning w) (s.keyboard.callsTo 0) = .ok t ∧
    s.shell.world = t.world ∧ Minishell.State.Holds ⟨s.shell, t.line⟩

theorem Subscribes.count_le {loop : Loop} {tasks : Keyboard.Subscribing Unit} {count : Nat}
    (subscribes : Subscribes loop tasks count) : count ≤ 1 := by
  unfold Subscribes at subscribes
  split at subscribes
  · exact subscribes ▸ Nat.zero_le _
  · exact Nat.le_of_eq subscribes
  · exact subscribes ▸ Nat.zero_le _
  · exact Nat.le_of_eq subscribes
  · exact subscribes.elim

/-- Before the boot task is in `subscribe` it has not subscribed. -/
theorem Subscribes.printing {tasks : Keyboard.Subscribing Unit} {count : Nat}
    (subscribes : Subscribes .printing tasks count) : tasks = .idle ∧ count = 0 := by
  cases tasks with
  | idle => exact ⟨rfl, subscribes⟩
  | _ => exact subscribes.elim

section Keyboard

variable {H T : Type}

/-- An interrupt changes the ring of the events and the history only. -/
theorem handleInterrupt_frame (k : Keyboard.State H T) (scancodes : List UInt8) :
    (k.handleInterrupt scancodes).calls = k.calls ∧
      (k.handleInterrupt scancodes).subscribers = k.subscribers ∧
      (k.handleInterrupt scancodes).tasks = k.tasks := by
  induction scancodes generalizing k with
  | nil => exact ⟨rfl, rfl, rfl⟩
  | cons scancode rest ih =>
      unfold Keyboard.State.handleInterrupt
      split
      · exact ⟨rfl, rfl, rfl⟩
      · have after := ih { k.handleScancode scancode with history := k.record scancode }
        rw [k.handleScancode_eq] at after ⊢
        exact after

theorem subscribe_calls [DecidableEq T] (k : Keyboard.State H T) (t : T) (h : H) :
    (k.subscribe t h).calls = k.calls := by
  unfold Keyboard.State.subscribe
  split
  · rfl
  · split <;> rfl
  · rfl
  · rfl

end Keyboard

section Runs

variable {env : Environment ω} {w : World ω} {s s' : State ω} {o : Op} {e : Event}

theorem State.Inv.room (inv : s.Inv env w) : s.keyboard.subscribers.size < CAPACITY :=
  Nat.lt_of_le_of_lt inv.subscribes.count_le (by decide)

theorem initial_inv : (State.initial w).Inv env w where
  keyboard := Keyboard.inv_initial
  subscribes := rfl
  typed := ⟨_, rfl, rfl, Minishell.holds_initial w⟩

/-- What the boot task and the shell keep to is about the calls, the subscribers and the task. -/
theorem State.Inv.with_keyboard (inv : s.Inv env w) {k : Keyboard.State Unit Unit}
    (keyboard : Keyboard.Inv k) (calls : k.calls = s.keyboard.calls)
    (subscribers : k.subscribers = s.keyboard.subscribers) (tasks : k.tasks = s.keyboard.tasks) :
    ({ s with keyboard := k } : State ω).Inv env w where
  keyboard := keyboard
  subscribes := by
    show Subscribes s.loop (k.tasks ()) k.subscribers.count
    rw [subscribers, tasks]
    exact inv.subscribes
  typed := by
    show ∃ t, Terminal.typed env (s.beginning w) (k.callsTo 0) = .ok t ∧ _
    rw [Keyboard.State.callsTo, calls]
    exact inv.typed

/-- The dispatcher is in front of a call of the shell. -/
theorem called_eq_some (called : s.called = some e) :
    ∃ idx, s.keyboard.dispatcher = .calling e idx ∧ idx ≠ s.keyboard.subscribers.end_ := by
  unfold State.called at called
  split at called
  · next e' idx here =>
      split at called
      · next more =>
          cases called
          exact ⟨idx, here, more⟩
      · cases called
  · cases called

theorem dispatchKeyEvents_calls (silent : s.called = none) :
    s.keyboard.dispatchKeyEvents.calls = s.keyboard.calls := by
  unfold State.called at silent
  unfold Keyboard.State.dispatchKeyEvents
  split
  · split <;> rfl
  · split <;> rfl
  · next e idx here =>
      rw [here] at silent
      dsimp only at silent
      split at silent
      · cases silent
      · next last => rw [if_neg last]
  · rfl
  · rfl

/-- The boot task has subscribed, and the shell is called with the event. -/
theorem State.Inv.dispatch_called (inv : s.Inv env w) (called : s.called = some e) :
    s.keyboard.dispatchKeyEvents.callsTo 0 = s.keyboard.callsTo 0 ++ [e] ∧
      s.loop ≠ .printing := by
  obtain ⟨idx, here, more⟩ := called_eq_some called
  have calls : s.keyboard.dispatchKeyEvents.calls =
      s.keyboard.calls ++ [⟨idx, s.keyboard.subscribers.storage idx, e⟩] := by
    unfold Keyboard.State.dispatchKeyEvents
    rw [here]
    dsimp only
    rw [if_pos more]
  obtain ⟨-, -, subscribers, -⟩ := s.keyboard.dispatchKeyEvents_frame
  have keyboard := inv.keyboard.dispatchKeyEvents
  have flight := keyboard.flight (subscribers ▸ inv.room)
  have below : idx < s.keyboard.subscribers.count := by
    have handle := flight.handles ⟨idx, s.keyboard.subscribers.storage idx, e⟩ (by simp [calls])
    have inside := (List.getElem?_eq_some_iff.mp handle).1
    rw [← keyboard.subscribers.count, subscribers] at inside
    exact inside
  have one := inv.subscribes.count_le
  constructor
  · rw [Keyboard.State.callsTo_append calls, if_pos (show idx = 0 by omega)]
  · intro printing
    have subscribes := inv.subscribes
    rw [printing] at subscribes
    have none := subscribes.printing.2
    omega

/-- The shell is called with backspace behind a line that fills the buffer. -/
theorem State.overruns_of_count (called : s.called = some e) (fits : ¬ s.Overruns .dispatch) :
    ¬ (s.shell.bufferCount = 0x100 ∧ e = BACKSPACE) := by
  rintro ⟨full, rfl⟩
  exact fits ⟨rfl, called, full⟩

theorem typed_append {events : List Event} {t : Typist ω}
    (before : typed env w events = .ok t) (e : Event) :
    typed env w (events ++ [e]) = t.next env e := by
  unfold typed at before ⊢
  rw [List.foldlM_append, before, ok_bind]
  show (t.next env e >>= pure) = _
  exact bind_pure _

/-- What a step of the dispatcher does: without a call, nothing to the shell, and with a call
what the typist does. -/
theorem State.Inv.dispatch (inv : s.Inv env w) (fits : ¬ s.Overruns .dispatch) :
    (∃ s', s.dispatch env = .ok s' ∧ s'.Inv env w) ∨
      ∃ e reason, s.called = some e ∧ s.dispatch env = .error (.stopped reason) ∧
        Terminal.typed env (s.beginning w) (s.keyboard.callsTo 0 ++ [e]) = .error reason := by
  obtain ⟨-, -, subscribers, tasks⟩ := s.keyboard.dispatchKeyEvents_frame
  have keyboard := inv.keyboard.dispatchKeyEvents
  unfold State.dispatch
  cases called : s.called with
  | none =>
      left
      exact ⟨_, rfl, inv.with_keyboard keyboard (dispatchKeyEvents_calls called) subscribers tasks⟩
  | some e =>
      obtain ⟨calls, -⟩ := inv.dispatch_called called
      obtain ⟨t, before, world, holds⟩ := inv.typed
      have count : s.shell.bufferCount = t.line.chars.length := holds.count
      have room : ¬ (t.line.chars.length = 0x100 ∧ e = BACKSPACE) := by
        rw [← count]
        exact State.overruns_of_count called fits
      have types := handleKeyEvent_types env holds room
      have next := typed_append before e
      obtain ⟨line, world'⟩ := t
      dsimp only at world
      subst world
      cases result : Typist.next env ⟨line, s.shell.world⟩ e with
      | ok t =>
          rw [result] at types
          obtain ⟨shell', handled, world, held⟩ := types
          left
          refine ⟨{ s with keyboard := s.keyboard.dispatchKeyEvents, shell := shell' }, ?_,
            keyboard, ?_, t, ?_, world, held⟩
          · dsimp only
            rw [handled]
            rfl
          · dsimp only
            rw [subscribers, tasks]
            exact inv.subscribes
          · show Terminal.typed env (s.beginning w) (s.keyboard.dispatchKeyEvents.callsTo 0) = _
            rw [calls, next, result]
      | error reason =>
          rw [result] at types
          right
          refine ⟨e, reason, rfl, ?_, next.trans result⟩
          dsimp only at types ⊢
          rw [types]
          rfl

/-- Nobody has been called, as nobody has subscribed. -/
theorem State.Inv.callsTo_nil (inv : s.Inv env w) (none : s.keyboard.subscribers.count = 0) :
    s.keyboard.callsTo 0 = [] := by
  have nobody : s.keyboard.calls = [] := by
    refine List.eq_nil_iff_forall_not_mem.mpr fun c mem => ?_
    have handle := (inv.keyboard.flight inv.room).handles c mem
    have inside := (List.getElem?_eq_some_iff.mp handle).1
    rw [← inv.keyboard.subscribers.count, none] at inside
    exact Nat.not_lt_zero _ inside
  unfold Keyboard.State.callsTo
  rw [nobody]
  rfl

/-- The prompt is printed before anybody is called. -/
theorem State.Inv.printing (inv : s.Inv env w) (here : s.loop = .printing) :
    s.stepLoop.Inv env w := by
  have subscribes := inv.subscribes
  rw [here] at subscribes
  obtain ⟨idle, count⟩ := subscribes.printing
  have none := inv.callsTo_nil count
  obtain ⟨t, before, world, holds⟩ := inv.typed
  unfold State.beginning at before
  rw [none, if_pos here] at before
  cases before
  have loop : s.stepLoop = { s with
      shell := { s.shell with world := prompt s.shell.world }, loop := .subscribing } := by
    unfold State.stepLoop
    rw [here]
  rw [loop]
  refine ⟨inv.keyboard, ?_, ⟨⟨[], false⟩, prompt w⟩, ?_, ?_, holds.count, holds.room, holds.front,
    holds.noNul, holds.shift⟩
  · dsimp only
    rw [idle, count]
    rfl
  · dsimp only
    rw [none]
    rfl
  · exact congrArg prompt world

/-- The boot task goes through `subscribe` once. -/
theorem Subscribes.subscribe {k : Keyboard.State Unit Unit} (inv : Keyboard.Inv k)
    (subscribes : Subscribes .subscribing (k.tasks ()) k.subscribers.count) :
    Subscribes (if k.tasks () = .releasing then .yielding else .subscribing)
      ((k.subscribe () ()).tasks ()) (k.subscribe () ()).subscribers.count := by
  unfold Keyboard.State.subscribe
  cases here : k.tasks () with
  | idle =>
      rw [here] at subscribes
      exact subscribes
  | acquiring h =>
      rw [here] at subscribes
      rw [if_neg (fun same => by cases same)]
      cases k.locked with
      | true =>
          show Subscribes .subscribing (k.tasks ()) k.subscribers.count
          rw [here]
          exact subscribes
      | false => exact subscribes
  | pushing h =>
      rw [here] at subscribes
      have none : k.subscribers.count = 0 := subscribes
      have empty : k.subscribers.contents.length < CAPACITY := by
        rw [← inv.subscribers.count, none]
        decide
      have holds := (inv.subscribers.pushBack empty h).1
      have count : (k.subscribers.pushBack h).2.count = 1 := by
        rw [holds.count, List.length_append, ← inv.subscribers.count, none]
        rfl
      exact count
  | releasing =>
      rw [here] at subscribes
      exact subscribes

theorem State.Inv.subscribing (inv : s.Inv env w) (here : s.loop = .subscribing) :
    s.stepLoop.Inv env w := by
  have subscribes := inv.subscribes
  rw [here] at subscribes
  have loop : s.stepLoop = { s with
      keyboard := s.keyboard.subscribe () ()
      loop := if s.keyboard.tasks () = .releasing then .yielding else .subscribing } := by
    unfold State.stepLoop
    rw [here]
  rw [loop]
  refine ⟨inv.keyboard.subscribe () (), subscribes.subscribe inv.keyboard, ?_⟩
  have behind : (if s.keyboard.tasks () = .releasing then Loop.yielding else .subscribing) ≠
      .printing := by
    split <;> decide
  obtain ⟨t, before, world, holds⟩ := inv.typed
  refine ⟨t, ?_, world, holds⟩
  unfold State.beginning at before ⊢
  rw [if_neg (by rw [here]; decide)] at before
  rw [if_neg behind, Keyboard.State.callsTo, subscribe_calls]
  exact before

theorem State.Inv.stepLoop (inv : s.Inv env w) : s.stepLoop.Inv env w := by
  cases here : s.loop with
  | printing => exact inv.printing here
  | subscribing => exact inv.subscribing here
  | yielding =>
      have stays : s.stepLoop = s := by
        unfold State.stepLoop
        rw [here]
      rw [stays]
      exact inv

theorem State.Inv.interrupt (inv : s.Inv env w) (scancodes : List UInt8) :
    ({ s with keyboard := s.keyboard.handleInterrupt scancodes } : State ω).Inv env w := by
  obtain ⟨calls, subscribers, tasks⟩ := handleInterrupt_frame s.keyboard scancodes
  exact inv.with_keyboard (inv.keyboard.handleInterrupt scancodes) calls subscribers tasks

/-- A step that does not overrun the buffer. -/
theorem State.Inv.step (inv : s.Inv env w) (fits : ¬ s.Overruns o)
    (stepped : s.step env o = .ok s') : s'.Inv env w := by
  cases o with
  | interrupt scancodes =>
      cases stepped
      exact inv.interrupt scancodes
  | dispatch =>
      obtain ⟨after, done, inv'⟩ | ⟨e, reason, -, stopped, -⟩ := inv.dispatch fits
      · cases done.symm.trans stepped
        exact inv'
      · cases stopped.symm.trans stepped
  | loop =>
      cases stepped
      exact inv.stepLoop

theorem State.Inv.stops (inv : s.Inv env w) (fits : ¬ s.Overruns o) : s.Stops env w o := by
  cases o with
  | interrupt => exact ⟨fun _ stops => (by cases stops), fun _ stops => (by cases stops)⟩
  | loop => exact ⟨fun _ stops => (by cases stops), fun _ stops => (by cases stops)⟩
  | dispatch =>
      obtain ⟨after, done, -⟩ | ⟨e, reason, called, stopped, types⟩ := inv.dispatch fits
      · have never : ∀ halt, s.step env .dispatch ≠ .error halt :=
          fun halt stops => by cases done.symm.trans stops
        exact ⟨fun _ => never _, fun _ stops => absurd stops (never _)⟩
      · refine ⟨fun index stops => ?_, fun reason' stops => ?_⟩
        · cases stopped.symm.trans stops
        · cases stopped.symm.trans stops
          exact ⟨e, called, types⟩

/-- As long as the buffer is not overrun, the world is what the typist has made of the keys that
were delivered. -/
theorem terminal_types (env : Environment ω) (w : World ω) (ops : List Op)
    (fits : (machine env).EachStep (fun s o => ¬ s.Overruns o) (State.initial w) ops) :
    (machine env).Always
        (fun s => s.Types env w ∧ s.keyboard.Delivers s.keyboard.history.accepted)
        (State.initial w) ops ∧
      (machine env).EachStep (fun s o => s.Stops env w o) (State.initial w) ops := by
  constructor
  · refine Machine.always_of_inv (fun _ _ _ (inv : State.Inv env w _) ok step => inv.step ok step)
      (fun s inv => ?_) initial_inv fits
    obtain ⟨t, before, world, -⟩ := inv.typed
    exact ⟨⟨t, before, world⟩, inv.keyboard.delivers inv.room⟩
  · exact Machine.eachStep_of_inv (fun _ _ _ (inv : State.Inv env w _) ok step => inv.step ok step)
      (fun _ _ inv ok => inv.stops ok) initial_inv fits

end Runs

/-- An environment that counts the calls of `dump_dir`. -/
def countingEnvironment : Environment Nat :=
  ⟨.ok, fun _ w => .ok { w with rest := w.rest + 1 }, fun _ w => .ok (none, w), fun _ _ => .ok,
    fun _ => .ok⟩

def countingWorld : World Nat := ⟨Minishell.sampleWorld.screen, 0⟩

/-- The boot task subscribes while `l` is pressed; then come `q`, which is deleted again, `s` and
Enter. -/
def typeLs : List Op :=
  [.loop, .loop, .interrupt [0x26], .loop, .loop, .loop, .interrupt [0x10]] ++
    List.replicate 10 .dispatch ++ [.interrupt [0x0E]] ++ List.replicate 6 .dispatch ++
    [.interrupt [0x1F, 0x1C]] ++ List.replicate 10 .dispatch

/-- `ls` is executed once. -/
theorem terminal_ls :
    let M := machine countingEnvironment
    let s := State.initial countingWorld
    M.EachStep (fun s o => ¬ s.Overruns o) s typeLs ∧
      M.Always (fun s => s.Types countingEnvironment countingWorld ∧
        s.keyboard.Delivers s.keyboard.history.accepted) s typeLs ∧
      M.EachStep (fun s o => s.Stops countingEnvironment countingWorld o) s typeLs ∧
      (M.run s typeLs).toOption.map (fun s => s.shell.world.rest) = some 1 := by
  have fits : (machine countingEnvironment).EachStep (fun s o => ¬ s.Overruns o)
      (State.initial countingWorld) typeLs := by
    decide +kernel
  obtain ⟨types, stops⟩ := terminal_types _ _ typeLs fits
  exact ⟨fits, types, stops, by decide +kernel⟩

end Tyleros.Terminal
