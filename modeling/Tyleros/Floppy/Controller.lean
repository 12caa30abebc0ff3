import Tyleros.Floppy.Driver

/-!
# The floppy controller

The other side of the FIFO: a controller that takes a command and its parameters, executes it,
and hands out the result, with the main status register telling how far it is. What its commands
do is a parameter (`Firmware`), and it may take its time before it is ready for the next byte, and
to execute a command. Only between the bytes of a result it has to hurry, since `readResult` does
not look at `RQM`.

* `issueAll_executes`: on such a controller every command of a sequence is executed exactly once,
  in order, and each result arrives whole.
-/

namespace Tyleros.Floppy

open Lib
open Io (Code inb outb Request)

/-! ## The controller's side -/

/-- What commands do to a drive, and to the rest of the machine. -/
structure Firmware (δ : Type) where
  /-- How many parameters a command has. -/
  parameters : UInt8 → Nat
  /-- The result of a command with its parameters. -/
  execute : UInt8 → List UInt8 → δ → List UInt8 × δ
  /-- Whether there is an interrupt after the execution. -/
  interrupts : UInt8 → Bool
  /-- The ports of other devices. -/
  outb : UInt16 → UInt8 → δ → δ

inductive Phase where
  | idle
  /-- There are more parameters to come. -/
  | command (command : UInt8) (args : List UInt8)
  | execution (command : UInt8) (args : List UInt8)
  /-- These bytes of the result are not yet read. -/
  | result (rest : List UInt8)
  deriving DecidableEq, Repr

structure Machine (δ : Type) where
  phase : Phase
  /-- How many requests it takes until the controller goes on. -/
  busy : Nat
  /-- The same for its next pauses. -/
  delays : Nat → Nat
  /-- The same between the bytes of a result. -/
  between : Nat
  diskInterruptHandled : Bool
  /-- The mask of the first interrupt controller. -/
  mask : UInt8
  drive : δ

namespace Machine

variable {δ : Type} (f : Firmware δ)

/-- The controller is busy for a while. -/
def pause (m : Machine δ) : Machine δ :=
  { m with busy := m.delays 0, delays := fun n => m.delays (n + 1) }

/-- The next phase, for a result. -/
def Phase.ofResult (result : List UInt8) : Phase := if result = [] then .idle else .result result

/-- The execution ends, and `handle_floppy_interrupt` runs. -/
def finish (command : UInt8) (args : List UInt8) (m : Machine δ) : Machine δ :=
  pause { m with
    phase := Phase.ofResult (f.execute command args m.drive).1
    drive := (f.execute command args m.drive).2
    diskInterruptHandled := m.diskInterruptHandled || f.interrupts command }

/-- Time goes by, up to the next request. -/
def tick (m : Machine δ) : Machine δ :=
  if m.busy = 0 then
    match m.phase with
    | .execution command args => m.finish f command args
    | _ => m
  else { m with busy := m.busy - 1 }

def status (m : Machine δ) : UInt8 :=
  match m.phase with
  | .idle => if m.busy = 0 then MSR_RQM else 0
  | .command _ _ => if m.busy = 0 then MSR_RQM ||| MSR_CMD_BSY else MSR_CMD_BSY
  | .execution _ _ => MSR_CMD_BSY
  | .result _ => if m.busy = 0 then MSR_RQM ||| MSR_DIO ||| MSR_CMD_BSY else MSR_DIO ||| MSR_CMD_BSY

/-- A command with the parameters so far. -/
def receive (command : UInt8) (args : List UInt8) (m : Machine δ) : Machine δ :=
  pause { m with
    phase := if args.length < f.parameters command then .command command args
      else .execution command args }

/-- Bytes that come too early are lost. -/
def writeFifo (val : UInt8) (m : Machine δ) : Machine δ :=
  if m.busy = 0 then
    match m.phase with
    | .idle => m.receive f val []
    | .command command args => m.receive f command (args ++ [val])
    | _ => m
  else m

def readFifo (m : Machine δ) : UInt8 × Machine δ :=
  if m.busy = 0 then
    match m.phase with
    | .result [val] => (val, pause { m with phase := .idle })
    | .result (val :: rest) => (val, { m with phase := .result rest, busy := m.between })
    | _ => (0xFF, m)
  else (0xFF, m)

/-- The surroundings of the driver. -/
def devices : (o : Request) → Machine δ → o.Answer × Machine δ
  | .inb port, m =>
    let m := m.tick f
    if port = MAIN_STATUS_REGISTER then (m.status, m)
    else if port = DATA_FIFO then m.readFifo
    else if port = Pic.PIC1_DATA then (m.mask, m)
    else ((0xFF : UInt8), m)
  | .outb port val, m =>
    let m := m.tick f
    ((), if port = DATA_FIFO then m.writeFifo f val
      else { m with drive := f.outb port val m.drive })
  | .load, m => ((m.tick f).diskInterruptHandled, m.tick f)
  | .store val, m => ((), { m.tick f with diskInterruptHandled := val })

end Machine

/-! ## States on the way -/

section States

variable {δ : Type} {f : Firmware δ} {m₀ m : Machine δ} {bound fuel : Nat} {phase : Phase}
  {drive : δ} {command : UInt8} {args : List UInt8}

/-- The controller is in this phase, and no pause of it is as long as `bound`. The rest is as it
was in `m₀`. -/
structure Machine.In (m m₀ : Machine δ) (bound : Nat) (phase : Phase) (drive : δ) : Prop where
  phase : m.phase = phase
  drive : m.drive = drive
  mask : m.mask = m₀.mask
  between : m.between = m₀.between
  busy : m.busy < bound
  delays : ∀ n, m.delays n < bound

/-- The controller waits for a command, hurries when it should, and makes no pause as long as
`bound`. -/
structure Machine.Idle (m : Machine δ) (bound : Nat) : Prop where
  phase : m.phase = .idle
  busy : m.busy = 0
  hurries : m.between ≤ 2 ∧ 2 < bound
  delays : ∀ n, m.delays n < bound

theorem Machine.Idle.here (idle : m.Idle bound) : m.In m bound .idle m.drive :=
  ⟨idle.phase, rfl, rfl, rfl, by rw [idle.busy]; exact Nat.lt_of_le_of_lt (Nat.zero_le _) (idle.delays 0),
    idle.delays⟩

theorem Machine.In.pause (here : m.In m₀ bound phase drive) (next : Phase) (drive' : δ)
    (handled : Bool) :
    (Machine.pause { m with
      phase := next, drive := drive', diskInterruptHandled := handled }).In m₀ bound next drive' :=
  ⟨rfl, rfl, here.mask, here.between, here.delays 0, fun n => here.delays (n + 1)⟩

/-- In every phase but the execution, time only makes the controller ready. -/
theorem Machine.In.tick (here : m.In m₀ bound phase drive)
    (waits : ∀ command args, phase ≠ .execution command args) :
    (m.tick f).In m₀ bound phase drive ∧ (m.tick f).busy = m.busy - 1 := by
  have busy := here.busy
  unfold Machine.tick
  by_cases ready : m.busy = 0
  · rw [if_pos ready]
    have still : (match m.phase with
        | .execution command args => m.finish f command args
        | _ => m) = m := by
      cases inPhase : m.phase with
      | execution command args => exact absurd (here.phase.symm.trans inPhase) (waits command args)
      | idle => rfl
      | command command args => rfl
      | result rest => rfl
    rw [still]
    exact ⟨here, by omega⟩
  · rw [if_neg ready]
    exact ⟨⟨here.phase, here.drive, here.mask, here.between, by dsimp only; omega, here.delays⟩, rfl⟩

/-- The state after the execution of a command. -/
def Machine.Finished (m : Machine δ) (f : Firmware δ) (m₀ : Machine δ) (bound : Nat)
    (command : UInt8) (args : List UInt8) (drive : δ) : Prop :=
  m.In m₀ bound (Machine.Phase.ofResult (f.execute command args drive).1)
    (f.execute command args drive).2

theorem Machine.ofResult_ne_execution (result : List UInt8) (command : UInt8) (args : List UInt8) :
    Machine.Phase.ofResult result ≠ .execution command args := by
  unfold Machine.Phase.ofResult
  split
  · exact fun h => by cases h
  · exact fun h => by cases h

/-- During the execution, time brings its end closer. -/
theorem Machine.In.tick_execution (here : m.In m₀ bound (.execution command args) drive) :
    ((m.tick f).In m₀ bound (.execution command args) drive ∧ (m.tick f).busy < m.busy ∧
      (m.tick f).diskInterruptHandled = m.diskInterruptHandled) ∨
    ((m.tick f).Finished f m₀ bound command args drive ∧
      (m.tick f).diskInterruptHandled = (m.diskInterruptHandled || f.interrupts command)) := by
  have busy := here.busy
  unfold Machine.tick
  by_cases ready : m.busy = 0
  · rw [if_pos ready, here.phase]
    right
    refine ⟨?_, rfl⟩
    show (m.finish f command args).In _ _ _ _
    rw [← here.drive]
    exact here.pause _ _ _
  · rw [if_neg ready]
    left
    exact ⟨⟨here.phase, here.drive, here.mask, here.between, by dsimp only; omega, here.delays⟩,
      by dsimp only; omega, rfl⟩

/-- The execution goes on, or it is over. -/
def Machine.Working (m : Machine δ) (f : Firmware δ) (m₀ : Machine δ) (bound : Nat)
    (command : UInt8) (args : List UInt8) (drive : δ) : Prop :=
  m.In m₀ bound (.execution command args) drive ∨ m.Finished f m₀ bound command args drive

theorem Machine.Working.tick (working : m.Working f m₀ bound command args drive) :
    (m.tick f).Working f m₀ bound command args drive := by
  obtain here | done := working
  · obtain ⟨here, -⟩ | ⟨done, -⟩ := here.tick_execution (f := f)
    · exact Or.inl here
    · exact Or.inr done
  · exact Or.inr (Machine.In.tick done (Machine.ofResult_ne_execution _)).1

/-! ## Looks at the main status register -/

/-- The bits of the status that the driver looks at. -/
theorem status_bits :
    (MSR_RQM ≠ 0 ∧ (MSR_RQM ||| MSR_CMD_BSY) &&& MSR_RQM ≠ 0 ∧
      (MSR_RQM ||| MSR_DIO ||| MSR_CMD_BSY) &&& MSR_RQM ≠ 0 ∧ MSR_CMD_BSY &&& MSR_RQM = 0 ∧
      ( MSR_DIO ||| MSR_CMD_BSY) &&& MSR_RQM = 0) ∧
    MSR_RQM &&& MSR_DIO = 0 ∧ (MSR_RQM ||| MSR_CMD_BSY) &&& MSR_DIO = 0 ∧
      (MSR_RQM ||| MSR_DIO ||| MSR_CMD_BSY) &&& MSR_DIO ≠ 0 ∧ MSR_CMD_BSY &&& MSR_DIO = 0 ∧
      ( MSR_DIO ||| MSR_CMD_BSY) &&& MSR_DIO ≠ 0 := by
  decide

theorem status_ready (m : Machine δ) :
    (m.status &&& MSR_RQM ≠ 0) ↔ m.busy = 0 ∧ ∀ command args, m.phase ≠ .execution command args := by
  have bits := status_bits.1
  unfold Machine.status
  by_cases ready : m.busy = 0
  all_goals
    cases inPhase : m.phase with
    | idle => simp [ready, bits]
    | command command args => simp [ready, bits]
    | execution command args => simp [bits]
    | result rest => simp [ready, bits]

theorem status_dio (m : Machine δ) : (m.status &&& MSR_DIO = 0) ↔ ∀ rest, m.phase ≠ .result rest := by
  have bits := status_bits.2
  unfold Machine.status
  by_cases ready : m.busy = 0
  all_goals
    cases inPhase : m.phase with
    | idle => simp [ready, bits]
    | command command args => simp [ready, bits]
    | execution command args => simp [bits]
    | result rest => simp [ready, bits]

theorem Machine.In.busy_of_status (here : m.In m₀ bound phase drive)
    (waits : ∀ command args, phase ≠ .execution command args)
    (notReady : (m.status &&& MSR_RQM != 0) = false) : m.busy ≠ 0 := by
  intro ready
  have rqm := (status_ready m).mpr ⟨ready, fun command args => here.phase ▸ waits command args⟩
  exact rqm (bne_eq_false_iff_eq.mp notReady)

theorem run_waitTilFifoReady (here : m.In m₀ bound phase drive)
    (waits : ∀ command args, phase ≠ .execution command args) (enough : bound ≤ fuel) :
    ∃ m', (waitTilFifoReady fuel).run (Machine.devices f) m = .ok ((), m') ∧
      m'.In m₀ bound phase drive ∧ m'.busy = 0 := by
  have busy := here.busy
  refine Program.run_spin (I := fun m => m.In m₀ bound phase drive) (v := Machine.busy)
    (fun m here => ?_) here (Nat.lt_of_lt_of_le busy enough)
  obtain ⟨here', closer⟩ := here.tick (f := f) waits
  refine ⟨_, m.tick f, rfl, fun ready => ⟨here', ?_⟩, fun notReady => ⟨here', ?_⟩⟩
  · exact ((status_ready _).mp (bne_iff_ne.mp ready)).1
  · have waiting := here'.busy_of_status waits notReady
    omega

/-- How long it takes until the controller is ready, at most. -/
def Machine.remaining (bound : Nat) (m : Machine δ) : Nat :=
  match m.phase with
  | .execution _ _ => m.busy + bound
  | _ => m.busy

theorem Machine.In.remaining_execution (here : m.In m₀ bound (.execution command args) drive) :
    m.remaining bound = m.busy + bound := by
  unfold Machine.remaining
  rw [here.phase]

theorem Machine.In.remaining (here : m.In m₀ bound phase drive)
    (waits : ∀ command args, phase ≠ .execution command args) : m.remaining bound = m.busy := by
  unfold Machine.remaining
  cases inPhase : m.phase with
  | execution command args => exact absurd (here.phase.symm.trans inPhase) (waits command args)
  | idle => rfl
  | command command args => rfl
  | result rest => rfl

/-- `RQM` is set again when the execution is over. -/
theorem run_waitTilFifoReady_working (working : m.Working f m₀ bound command args drive)
    (enough : 2 * bound ≤ fuel) :
    ∃ m', (waitTilFifoReady fuel).run (Machine.devices f) m = .ok ((), m') ∧
      m'.Finished f m₀ bound command args drive ∧ m'.busy = 0 := by
  have waits := Machine.ofResult_ne_execution (f.execute command args drive).1
  have start : m.remaining bound < fuel := by
    obtain here | done := working
    · have busy := here.busy
      rw [here.remaining_execution]
      omega
    · have busy := Machine.In.busy done
      rw [Machine.In.remaining done waits]
      omega
  refine Program.run_spin (I := fun m => m.Working f m₀ bound command args drive)
    (v := Machine.remaining bound) (fun m working => ?_) working start
  refine ⟨_, m.tick f, rfl, fun ready => ?_, fun notReady => ⟨working.tick, ?_⟩⟩
  · obtain ⟨ready, ended⟩ := (status_ready _).mp (bne_iff_ne.mp ready)
    obtain here | done := working.tick
    · exact absurd here.phase (ended command args)
    · exact ⟨done, ready⟩
  · obtain here | done := working
    · rw [here.remaining_execution]
      obtain ⟨here', closer, -⟩ | ⟨done, -⟩ := here.tick_execution (f := f)
      · rw [here'.remaining_execution]
        omega
      · have busy := Machine.In.busy done
        rw [Machine.In.remaining done waits]
        omega
    · obtain ⟨done', closer⟩ := Machine.In.tick (f := f) done waits
      rw [Machine.In.remaining done waits, Machine.In.remaining done' waits]
      have waiting := Machine.In.busy_of_status done' waits notReady
      omega

/-! ## The interrupt -/

theorem Machine.Working.handled (working : m.Working f m₀ bound command args drive) (val : Bool) :
    Machine.Working { m with diskInterruptHandled := val } f m₀ bound command args drive := by
  obtain here | done := working
  · exact Or.inl ⟨here.phase, here.drive, here.mask, here.between, here.busy, here.delays⟩
  · exact Or.inr ⟨done.phase, done.drive, done.mask, done.between, done.busy, done.delays⟩

/-- The interrupt was handled, or it is still to come. -/
def Machine.Awaited (m : Machine δ) (f : Firmware δ) (m₀ : Machine δ) (bound : Nat)
    (command : UInt8) (args : List UInt8) (drive : δ) : Prop :=
  m.Working f m₀ bound command args drive ∧
    (m.diskInterruptHandled = true ∨ m.In m₀ bound (.execution command args) drive)

theorem Machine.tick_handled (handled : m.diskInterruptHandled = true) :
    (m.tick f).diskInterruptHandled = true := by
  unfold Machine.tick
  split
  · split
    · show (m.diskInterruptHandled || _) = true
      rw [handled, Bool.true_or]
    · exact handled
  · exact handled

theorem Machine.Awaited.tick (awaited : m.Awaited f m₀ bound command args drive)
    (interrupts : f.interrupts command = true) :
    (m.tick f).Awaited f m₀ bound command args drive := by
  obtain ⟨working, handled | here⟩ := awaited
  · exact ⟨working.tick, Or.inl (Machine.tick_handled handled)⟩
  · refine ⟨working.tick, ?_⟩
    obtain ⟨here', -⟩ | ⟨-, handled⟩ := here.tick_execution (f := f)
    · exact Or.inr here'
    · left
      rw [handled, interrupts, Bool.or_true]

/-- The driver waits for the interrupt, or goes on at once if it finds that of another command. -/
theorem run_waitForDiskInterrupt (here : m.In m₀ bound (.execution command args) drive)
    (interrupts : f.interrupts command = true) (unmasked : m₀.mask &&& Pic.Irq.FLOPPY.mask = 0)
    (enough : bound ≤ fuel) :
    ∃ m', (waitForDiskInterrupt fuel).run (Machine.devices f) m = .ok ((), m') ∧
      m'.Working f m₀ bound command args drive := by
  have awaited : (m.tick f).Awaited f m₀ bound command args drive :=
    Machine.Awaited.tick ⟨Or.inl here, Or.inr here⟩ interrupts
  have mask : (m.tick f).mask = m₀.mask := by
    obtain here | done := awaited.1
    · exact here.mask
    · exact Machine.In.mask done
  have looked : (Pic.irqIsMasked .FLOPPY).run (Machine.devices f) m = .ok (false, m.tick f) := by
    show Except.ok ((m.tick f).mask &&& Pic.Irq.FLOPPY.mask != 0, m.tick f) = _
    rw [mask, unmasked]
    rfl
  have busy : (m.tick f).busy < fuel := by
    obtain here | done := awaited.1
    · exact Nat.lt_of_lt_of_le here.busy enough
    · exact Nat.lt_of_lt_of_le (Machine.In.busy done) enough
  obtain ⟨m', spun, working⟩ : ∃ m', (Program.spin (Program.ask Request.load) .hang fuel : Code Unit).run
      (Machine.devices f) (m.tick f) = .ok ((), m') ∧ m'.Working f m₀ bound command args drive := by
    refine Program.run_spin (I := fun m => m.Awaited f m₀ bound command args drive)
      (v := Machine.busy) (fun m awaited => ?_) awaited busy
    refine ⟨_, m.tick f, rfl, fun _ => awaited.1.tick, fun notHandled => ⟨awaited.tick interrupts, ?_⟩⟩
    obtain handled | here := awaited.2
    · exact absurd ((Machine.tick_handled handled).symm.trans notHandled) (by decide)
    · obtain ⟨-, closer, -⟩ | ⟨-, handled⟩ := here.tick_execution (f := f)
      · exact closer
      · rw [interrupts, Bool.or_true] at handled
        exact absurd (handled.symm.trans notHandled) (by decide)
  refine ⟨{ m'.tick f with diskInterruptHandled := false }, ?_, working.tick.handled false⟩
  refine (Program.run_bind_of_ok _ looked).trans ?_
  exact Program.run_bind_of_ok _ spun

/-! ## The phases of a command -/

/-- The phase in which so many parameters have arrived. -/
def Machine.Phase.ofArgs (f : Firmware δ) (command : UInt8) (args : List UInt8) : Phase :=
  if args.length < f.parameters command then .command command args else .execution command args

theorem Machine.In.receive (here : m.In m₀ bound phase drive) (command : UInt8) (args : List UInt8) :
    (m.receive f command args).In m₀ bound (Machine.Phase.ofArgs f command args) drive :=
  ⟨rfl, here.drive, here.mask, here.between, here.delays 0, fun n => here.delays (n + 1)⟩

/-- Each parameter is taken once, and with the last one the execution begins. -/
theorem run_issueParameterCommands {sent : List UInt8} (rest : List UInt8)
    (here : m.In m₀ bound (Machine.Phase.ofArgs f command sent) drive)
    (all : sent.length + rest.length = f.parameters command) (enough : bound ≤ fuel) :
    ∃ m', (issueParameterCommands fuel rest).run (Machine.devices f) m = .ok (true, m') ∧
      m'.In m₀ bound (.execution command (sent ++ rest)) drive := by
  induction rest generalizing sent m with
  | nil =>
      refine ⟨m, rfl, ?_⟩
      unfold Machine.Phase.ofArgs at here
      rw [List.length_nil, Nat.add_zero] at all
      rw [if_neg (by omega)] at here
      rwa [List.append_nil]
  | cons param rest ih =>
      rw [List.length_cons] at all
      have takes : Machine.Phase.ofArgs f command sent = .command command sent :=
        if_pos (by omega)
      rw [takes] at here
      obtain ⟨m₁, waited, here₁, ready⟩ :=
        run_waitTilFifoReady (f := f) here (fun c a h => by cases h) enough
      obtain ⟨here₂, closer⟩ := here₁.tick (f := f) (fun c a h => by cases h)
      obtain ⟨here₃, closer'⟩ := here₂.tick (f := f) (fun c a h => by cases h)
      have input : (m₁.tick f).status &&& MSR_DIO = 0 :=
        (status_dio _).mpr fun r h => by cases here₂.phase.symm.trans h
      have written : ((m₁.tick f).tick f).writeFifo f param =
          ((m₁.tick f).tick f).receive f command (sent ++ [param]) := by
        unfold Machine.writeFifo
        rw [if_pos (by omega), here₃.phase]
      obtain ⟨m', issued, here'⟩ := ih (here₃.receive command (sent ++ [param]))
        (by rw [List.length_append, List.length_singleton]; omega)
      refine ⟨m', ?_, by rwa [List.append_assoc] at here'⟩
      have first : (issueParameterCommand fuel param).run (Machine.devices f) m =
          .ok (true, ((m₁.tick f).tick f).receive f command (sent ++ [param])) := by
        refine (Program.run_bind_of_ok _ waited).trans ?_
        show (if (m₁.tick f).status &&& MSR_DIO = 0 then _ else _ : Code Bool).run _ (m₁.tick f) = _
        rw [if_pos input, ← written]
        rfl
      exact (Program.run_bind_of_ok _ first).trans issued

/-- The state after a byte of the result is read. -/
def Machine.taken (rest : List UInt8) (m : Machine δ) : Machine δ :=
  if rest = [] then pause { m with phase := .idle }
  else { m with phase := .result rest, busy := m.between }

theorem Machine.readFifo_eq {val : UInt8} {rest : List UInt8} (ready : m.busy = 0)
    (inPhase : m.phase = .result (val :: rest)) : m.readFifo = (val, m.taken rest) := by
  unfold Machine.readFifo
  rw [if_pos ready, inPhase]
  cases rest with
  | nil => rfl
  | cons _ _ => rfl

theorem Machine.In.taken (here : m.In m₀ bound phase drive) (rest : List UInt8)
    (hurries : m₀.between ≤ 2 ∧ 2 < bound) :
    (m.taken rest).In m₀ bound (Machine.Phase.ofResult rest) drive ∧
      (rest ≠ [] → (m.taken rest).busy ≤ 2) := by
  unfold Machine.taken Machine.Phase.ofResult
  by_cases last : rest = []
  · rw [if_pos last, if_pos last]
    exact ⟨⟨rfl, here.drive, here.mask, here.between, here.delays 0, fun n => here.delays (n + 1)⟩,
      fun more => absurd last more⟩
  · rw [if_neg last, if_neg last]
    have between : m.between ≤ 2 := here.between ▸ hurries.1
    exact ⟨⟨rfl, here.drive, here.mask, here.between, Nat.lt_of_le_of_lt between hurries.2,
      here.delays⟩, fun _ => between⟩

/-- The loop ends when there is no more byte. -/
theorem run_readResult_over (result : List UInt8) (left : Nat)
    (ended : (m.tick f).status &&& MSR_DIO = 0) :
    (readResult result left).run (Machine.devices f) m = .ok (result, m.tick f) := by
  cases left with
  | zero =>
      show (if (m.tick f).status &&& MSR_DIO = 0 then _ else _ : Code (List UInt8)).run _ _ = _
      rw [if_pos ended]
      rfl
  | succ left =>
      show (if (m.tick f).status &&& MSR_DIO = 0 then _ else _ : Code (List UInt8)).run _ _ = _
      rw [if_pos ended]
      rfl

/-- One round of the loop. -/
theorem run_readResult_more {val byte : UInt8} {rest taken old : List UInt8}
    (here : m.In m₀ bound (.result (val :: rest)) drive) (soon : m.busy ≤ 2) :
    (readResult (taken ++ byte :: old) (byte :: old).length).run (Machine.devices f) m =
      (readResult (taken ++ [val] ++ old) old.length).run (Machine.devices f)
        (((m.tick f).tick f).taken rest) := by
  obtain ⟨here₁, closer⟩ := here.tick (f := f) (fun c a h => by cases h)
  obtain ⟨here₂, closer'⟩ := here₁.tick (f := f) (fun c a h => by cases h)
  have more : ¬ (m.tick f).status &&& MSR_DIO = 0 := fun ended =>
    (status_dio _).mp ended _ here₁.phase
  have read := Machine.readFifo_eq (by omega) here₂.phase
  have set : (taken ++ byte :: old).set ((taken ++ byte :: old).length - (old.length + 1)) val =
      taken ++ [val] ++ old := by
    rw [List.length_append, List.length_cons, Nat.add_sub_cancel, List.set_append_right _ _
      (Nat.le_refl _), Nat.sub_self, List.append_assoc]
    rfl
  show (if (m.tick f).status &&& MSR_DIO = 0 then _ else _ : Code (List UInt8)).run _ (m.tick f) = _
  rw [if_neg more, ← set]
  show (readResult ((taken ++ byte :: old).set _ ((m.tick f).tick f).readFifo.1) old.length).run _
    ((m.tick f).tick f).readFifo.2 = _
  rw [read]

/-- All bytes of the result are read, as long as the controller hurries. -/
theorem run_readResult {rest old : List UInt8} (taken : List UInt8) (hurries : m₀.between ≤ 2 ∧ 2 < bound)
    (here : m.In m₀ bound (Machine.Phase.ofResult rest) drive) (soon : rest ≠ [] → m.busy ≤ 2)
    (room : rest.length ≤ old.length) :
    ∃ m', (readResult (taken ++ old) old.length).run (Machine.devices f) m =
        .ok (taken ++ rest ++ old.drop rest.length, m') ∧ m'.In m₀ bound .idle drive := by
  induction rest generalizing m taken old with
  | nil =>
      obtain ⟨here', -⟩ := here.tick (f := f) (Machine.ofResult_ne_execution [])
      have ended := (status_dio (m.tick f)).mpr fun rest h => by cases here'.phase.symm.trans h
      refine ⟨m.tick f, ?_, here'⟩
      rw [run_readResult_over _ _ ended, List.append_nil]
      rfl
  | cons val rest ih =>
      cases old with
      | nil => exact absurd room (by simp)
      | cons byte old =>
          have soon := soon (List.cons_ne_nil _ _)
          have room : rest.length ≤ old.length := Nat.le_of_succ_le_succ room
          obtain ⟨here₁, -⟩ := Machine.In.tick (f := f) here (Machine.ofResult_ne_execution _)
          obtain ⟨here₂, -⟩ := Machine.In.tick (f := f) here₁ (Machine.ofResult_ne_execution _)
          obtain ⟨next, soon'⟩ := here₂.taken rest hurries
          obtain ⟨m', done, idle⟩ := ih (taken ++ [val]) next soon' room
          refine ⟨m', ?_, idle⟩
          rw [run_readResult_more here soon, done, List.append_assoc taken]
          rfl

/-- Whether `result` has room for what a command answers. -/
def Fits (answer : List UInt8) : Option (List UInt8) → Prop
  | none => answer = []
  | some result => answer.length ≤ result.length

/-- `result` with the answer. -/
def filled (answer : List UInt8) (result : Option (List UInt8)) : Option (List UInt8) :=
  result.map fun old => answer ++ old.drop answer.length

/-- The command is one that the driver waits for. -/
def Waits (command : UInt16) : Prop :=
  command &&& 0xF = COMMAND_READ ∨ command &&& 0xF = COMMAND_WRITE

/-- The result phase, from the execution to the next command. -/
theorem run_takeResult {command : UInt16} {result : Option (List UInt8)}
    (hurries : m₀.between ≤ 2 ∧ 2 < bound) (enough : 2 * bound ≤ fuel)
    (here : m.In m₀ bound (.execution command.toUInt8 args) drive)
    (fits : Fits (f.execute command.toUInt8 args drive).1 result)
    (interrupts : result ≠ none → Waits command →
      f.interrupts command.toUInt8 = true ∧ m₀.mask &&& Pic.Irq.FLOPPY.mask = 0) :
    ∃ m' m'', (takeResult fuel command result).run (Machine.devices f) m =
        .ok (filled (f.execute command.toUInt8 args drive).1 result, m') ∧
      (waitTilFifoReady fuel).run (Machine.devices f) m' = .ok ((), m'') ∧
      m''.In m₀ bound .idle (f.execute command.toUInt8 args drive).2 ∧ m''.busy = 0 := by
  cases result with
  | none =>
      obtain ⟨m', waited, done, ready⟩ := run_waitTilFifoReady_working (Or.inl here) enough
      refine ⟨m, m', rfl, waited, ?_, ready⟩
      unfold Machine.Finished at done
      rwa [show (f.execute command.toUInt8 args drive).1 = [] from fits] at done
  | some old =>
      have waited : ∃ m₁, (if command &&& 0xF = COMMAND_READ ∨ command &&& 0xF = COMMAND_WRITE then
          waitForDiskInterrupt fuel else pure () : Code Unit).run (Machine.devices f) m = .ok ((), m₁) ∧
          m₁.Working f m₀ bound command.toUInt8 args drive := by
        by_cases waits : command &&& 0xF = COMMAND_READ ∨ command &&& 0xF = COMMAND_WRITE
        · rw [if_pos waits]
          obtain ⟨interrupts, unmasked⟩ := interrupts (by simp) waits
          exact run_waitForDiskInterrupt here interrupts unmasked (by omega)
        · rw [if_neg waits]
          exact ⟨m, rfl, Or.inl here⟩
      obtain ⟨m₁, waited, working⟩ := waited
      obtain ⟨m₂, waited', done, ready⟩ := run_waitTilFifoReady_working working.tick enough
      obtain ⟨m₃, read, idle⟩ := run_readResult [] hurries done
        (fun _ => by omega) (show (f.execute command.toUInt8 args drive).1.length ≤ old.length from fits)
      rw [List.nil_append, List.nil_append] at read
      obtain ⟨m₄, waited'', idle', ready'⟩ :=
        run_waitTilFifoReady (f := f) idle (fun c a h => by cases h) (show bound ≤ fuel by omega)
      refine ⟨m₃, m₄, ?_, waited'', idle', ready'⟩
      refine (Program.run_bind_of_ok _ waited).trans ?_
      refine (Program.run_bind_of_ok _ waited').trans ?_
      refine (Program.run_bind_of_ok _ read).trans ?_
      rfl

/-- A command is executed in the first round. -/
theorem run_tryCommand {command : UInt16} {result : Option (List UInt8)} (idle : m.Idle bound)
    (enough : 2 * bound ≤ fuel) (all : args.length = f.parameters command.toUInt8)
    (fits : Fits (f.execute command.toUInt8 args m.drive).1 result)
    (interrupts : result ≠ none → Waits command →
      f.interrupts command.toUInt8 = true ∧ m.mask &&& Pic.Irq.FLOPPY.mask = 0) :
    ∃ m', (tryCommand fuel command result args).run (Machine.devices f) m =
        .ok ((true, filled (f.execute command.toUInt8 args m.drive).1 result), m') ∧
      m'.Idle bound ∧ m'.mask = m.mask ∧
      m'.drive = (f.execute command.toUInt8 args m.drive).2 := by
  have here := idle.here
  obtain ⟨here₁, closer⟩ := here.tick (f := f) (fun c a h => by cases h)
  obtain ⟨here₂, closer'⟩ := here₁.tick (f := f) (fun c a h => by cases h)
  have busy := idle.busy
  have accepts : ¬ ((m.tick f).status &&& MSR_RQM = 0 ∨ (m.tick f).status &&& MSR_DIO ≠ 0) := by
    rintro (notReady | output)
    · exact (status_ready _).mpr ⟨by omega, fun c a h => by cases here₁.phase.symm.trans h⟩ notReady
    · exact output ((status_dio _).mpr fun rest h => by cases here₁.phase.symm.trans h)
  have written : ((m.tick f).tick f).writeFifo f command.toUInt8 =
      ((m.tick f).tick f).receive f command.toUInt8 [] := by
    unfold Machine.writeFifo
    rw [if_pos (by omega), here₂.phase]
  obtain ⟨m₁, issued, working⟩ := run_issueParameterCommands args (here₂.receive command.toUInt8 [])
    (by rw [List.length_nil, Nat.zero_add]; exact all) (show bound ≤ fuel by omega)
  obtain ⟨m₂, m₃, taken, waited, idle₃, ready⟩ :=
    run_takeResult idle.hurries enough working fits interrupts
  obtain ⟨idle₄, closer''⟩ := idle₃.tick (f := f) (fun c a h => by cases h)
  have succeeded : (m₃.tick f).status = MSR_RQM := by
    unfold Machine.status
    rw [idle₄.phase]
    exact if_pos (by omega)
  refine ⟨m₃.tick f, ?_, ⟨idle₄.phase, by omega, by rw [idle₄.between]; exact idle.hurries,
    idle₄.delays⟩, idle₄.mask, idle₄.drive⟩
  show (if (m.tick f).status &&& MSR_RQM = 0 ∨ (m.tick f).status &&& MSR_DIO ≠ 0 then _ else _ :
    Code (Bool × Option (List UInt8))).run _ (m.tick f) = _
  rw [if_neg accepts]
  show (issueParameterCommands fuel args >>= _ : Code (Bool × Option (List UInt8))).run _
    (((m.tick f).tick f).writeFifo f command.toUInt8) = _
  rw [written]
  refine (Program.run_bind_of_ok _ issued).trans ?_
  refine (Program.run_bind_of_ok _ taken).trans ?_
  refine (Program.run_bind_of_ok _ waited).trans ?_
  show Except.ok ((decide ((m₃.tick f).status &&& MSR_RQM ≠ 0 ∧ (m₃.tick f).status &&& MSR_DIO = 0 ∧
    (m₃.tick f).status &&& MSR_CMD_BSY = 0), _), m₃.tick f) = _
  rw [succeeded]
  rfl

/-- What a command does, and its result. -/
theorem run_issueCommandWithResult {command : UInt16} {result : Option (List UInt8)}
    (idle : m.Idle bound) (enough : 2 * bound ≤ fuel)
    (all : args.length = f.parameters command.toUInt8)
    (fits : Fits (f.execute command.toUInt8 args m.drive).1 result)
    (interrupts : result ≠ none → Waits command →
      f.interrupts command.toUInt8 = true ∧ m.mask &&& Pic.Irq.FLOPPY.mask = 0) :
    ∃ m', (issueCommandWithResult fuel command result args).run (Machine.devices f) m =
        .ok (filled (f.execute command.toUInt8 args m.drive).1 result, m') ∧
      m'.Idle bound ∧ m'.mask = m.mask ∧
      m'.drive = (f.execute command.toUInt8 args m.drive).2 := by
  obtain ⟨m', tried, rest⟩ := run_tryCommand idle enough all fits interrupts
  refine ⟨m', ?_, rest⟩
  exact (Program.run_bind_of_ok _ tried).trans rfl

end States

/-! ## Sequences of commands -/

/-- A call of `issue_command_with_result`. -/
structure Call where
  command : UInt16
  result : Option (List UInt8)
  args : List UInt8

/-- The driver issues commands, one after the other. -/
def issueAll (fuel : Nat) : List Call → Code (List (Option (List UInt8)))
  | [] => return []
  | call :: rest => do
    let result ← issueCommandWithResult fuel call.command call.result call.args
    let results ← issueAll fuel rest
    return result :: results

/-- The commands are executed once each, in order. -/
def executeAll {δ : Type} (f : Firmware δ) : List Call → δ → List (Option (List UInt8)) × δ
  | [], drive => ([], drive)
  | call :: rest, drive =>
    let answer := f.execute call.command.toUInt8 call.args drive
    let answers := executeAll f rest answer.2
    (filled answer.1 call.result :: answers.1, answers.2)

/-- The call has the parameters of the command and room for its result, and if the driver waits
for an interrupt, there is one. -/
structure Call.Legal {δ : Type} (call : Call) (f : Firmware δ) (mask : UInt8) : Prop where
  parameters : call.args.length = f.parameters call.command.toUInt8
  fits : ∀ drive, Fits (f.execute call.command.toUInt8 call.args drive).1 call.result
  interrupts : call.result ≠ none → Waits call.command →
    f.interrupts call.command.toUInt8 = true ∧ mask &&& Pic.Irq.FLOPPY.mask = 0

/-- Whatever pauses the controller makes, and whenever its interrupts came before, each command of
a sequence is executed once, in the order of the sequence, and its result arrives whole. -/
theorem issueAll_executes {δ : Type} {f : Firmware δ} {m : Machine δ} {bound fuel : Nat}
    (idle : m.Idle bound) (enough : 2 * bound ≤ fuel) (calls : List Call)
    (legal : ∀ call ∈ calls, call.Legal f m.mask) :
    ∃ m', (issueAll fuel calls).run (Machine.devices f) m =
        .ok ((executeAll f calls m.drive).1, m') ∧
      m'.Idle bound ∧ m'.drive = (executeAll f calls m.drive).2 := by
  induction calls generalizing m with
  | nil => exact ⟨m, rfl, idle, rfl⟩
  | cons call rest ih =>
      obtain ⟨here, others⟩ := List.forall_mem_cons.mp legal
      obtain ⟨m₁, issued, idle₁, mask, drive⟩ := run_issueCommandWithResult idle enough
        here.parameters (here.fits m.drive) here.interrupts
      obtain ⟨m₂, done, idle₂, drive'⟩ := ih idle₁ (by rw [mask]; exact others)
      rw [drive] at done drive'
      refine ⟨m₂, ?_, idle₂, drive'⟩
      refine (Program.run_bind_of_ok _ issued).trans ?_
      exact (Program.run_bind_of_ok _ done).trans rfl

/-- A controller that knows its version, and what it was asked to read. -/
def readLog : Firmware (List (List UInt8)) where
  parameters command := if command = 0xC6 then 8 else 0
  execute command args log :=
    if command = 0xC6 then ([0, 0, 0, 0, 0, 1, 2], log ++ [args]) else ([0x90], log)
  interrupts command := command == 0xC6
  outb _ _ log := log

/-- `COMMAND_READ | MFM | MT` of two sectors, and `COMMAND_VERSION` between them. -/
def sampleCalls : List Call :=
  [⟨0xC6, some [0, 0, 0, 0, 0, 0, 0], [0, 0, 0, 1, 2, 18, 0x1B, 0xFF]⟩, ⟨0x10, some [0], []⟩,
    ⟨0xC6, some [0, 0, 0, 0, 0, 0, 0], [4, 0, 1, 2, 2, 18, 0x1B, 0xFF]⟩]

/-- Two sectors are read, and the version between them, from a controller that is slow. The flag
of an earlier interrupt is still set. -/
theorem issueAll_read : ∃ m',
    (issueAll 8 sampleCalls).run (Machine.devices readLog)
        ⟨.idle, 0, fun _ => 3, 1, true, 0xBF, []⟩ =
      .ok ([some [0, 0, 0, 0, 0, 1, 2], some [0x90], some [0, 0, 0, 0, 0, 1, 2]], m') ∧
      m'.Idle 4 ∧
      m'.drive = [[0, 0, 0, 1, 2, 18, 0x1B, 0xFF], [4, 0, 1, 2, 2, 18, 0x1B, 0xFF]] := by
  have reads : ∀ args, args.length = 8 →
      Call.Legal ⟨0xC6, some [0, 0, 0, 0, 0, 0, 0], args⟩ readLog 0xBF := fun args eight =>
    ⟨eight, fun _ => Nat.le_refl 7, fun _ _ => ⟨rfl, by decide⟩⟩
  have version : Call.Legal ⟨0x10, some [0], []⟩ readLog 0xBF :=
    ⟨rfl, fun _ => Nat.le_refl 1, fun _ waits => absurd waits (by unfold Waits; decide)⟩
  have legal : ∀ call ∈ sampleCalls, call.Legal readLog 0xBF := by
    unfold sampleCalls
    rw [List.forall_mem_cons, List.forall_mem_cons, List.forall_mem_singleton]
    exact ⟨reads _ rfl, version, reads _ rfl⟩
  exact issueAll_executes (f := readLog) (m := ⟨.idle, 0, fun _ => 3, 1, true, 0xBF, []⟩)
    ⟨rfl, rfl, by decide, fun _ => Nat.lt_succ_self 3⟩ (by decide) sampleCalls legal

end Tyleros.Floppy
