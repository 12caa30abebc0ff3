import Tyleros.Pic.Driver

/-!
# Commands for the floppy controller

`issue_command_with_result` of `kernel/floppy.cpp` sends a command and its parameters through the
FIFO of the controller, waits for its interrupt if it transfers data, and takes the result from the
FIFO. It tries up to five times.

* `issueCommand_follows`: whatever the controller answers, the driver writes to the FIFO only after
  the main status register asked for a byte (`RQM`) and last said that the FIFO takes one (`DIO`
  clear), reads from it only after it last said that there is one (`DIO` set), and accesses it a
  bounded number of times. It returns only if the last bytes it sent are the command, with what it
  received after it, and if the controller was idle then.
-/

namespace Tyleros.Floppy

open Lib
open Io (Code inb outb Request)

/-! ## The driver -/

def MT : UInt16 := (1 : UInt16) <<< 7

def MFM : UInt16 := (1 : UInt16) <<< 6

def COMMAND_WRITE : UInt16 := 0x05

def COMMAND_READ : UInt16 := 0x06

def MAIN_STATUS_REGISTER : UInt16 := 0x3F4

def DATA_FIFO : UInt16 := 0x3F5

def MSR_RQM : UInt8 := (1 : UInt8) <<< 7

def MSR_DIO : UInt8 := (1 : UInt8) <<< 6

def MSR_CMD_BSY : UInt8 := (1 : UInt8) <<< 4

/-- `wait_for_disk_interrupt`, with at most `fuel` rounds for the loop. -/
def waitForDiskInterrupt (fuel : Nat) : Code Unit := do
  let masked ← Pic.irqIsMasked .FLOPPY
  Program.lift (kassert (!masked)
    "floppy interrupt was not enabled, can't wait for disk interrupt!")
  Program.spin (Program.ask Request.load) .hang fuel
  Program.ask (Request.store false)

/-- `wait_til_fifo_ready`. -/
def waitTilFifoReady (fuel : Nat) : Code Unit :=
  Program.spin (do
    let status ← inb MAIN_STATUS_REGISTER
    return status &&& MSR_RQM != 0) .hang fuel

def issueParameterCommand (fuel : Nat) (param : UInt8) : Code Bool := do
  waitTilFifoReady fuel
  let status ← inb MAIN_STATUS_REGISTER
  if status &&& MSR_DIO = 0 then do
    outb DATA_FIFO param
    return true
  else return false

/-- `(issue_parameter_command(args) && ...)`. -/
def issueParameterCommands (fuel : Nat) : List UInt8 → Code Bool
  | [] => return true
  | param :: rest => do
    if ← issueParameterCommand fuel param then issueParameterCommands fuel rest else return false

/-- The loop that fills `result`, of which the last `left` bytes are not yet written. -/
def readResult (result : List UInt8) : Nat → Code (List UInt8)
  | 0 => do
    let status ← inb MAIN_STATUS_REGISTER
    if status &&& MSR_DIO = 0 then return result
    else .stop (.assertion "Result buffer not large enough!")
  | left + 1 => do
    let status ← inb MAIN_STATUS_REGISTER
    if status &&& MSR_DIO = 0 then return result
    else do
      let val ← inb DATA_FIFO
      readResult (result.set (result.length - (left + 1)) val) left

/-- The result phase, which is skipped if `result` is null. -/
def takeResult (fuel : Nat) (command : UInt16) : Option (List UInt8) → Code (Option (List UInt8))
  | none => return none
  | some result => do
    let commandLo := command &&& 0xF
    (if commandLo = COMMAND_READ ∨ commandLo = COMMAND_WRITE then waitForDiskInterrupt fuel
      else pure ())
    let _ ← inb MAIN_STATUS_REGISTER
    waitTilFifoReady fuel
    let result ← readResult result result.length
    return some result

/-- One round of `issue_command_with_result`: whether it succeeded, and `result`. -/
def tryCommand (fuel : Nat) (command : UInt16) (result : Option (List UInt8)) (args : List UInt8) :
    Code (Bool × Option (List UInt8)) := do
  let status ← inb MAIN_STATUS_REGISTER
  if status &&& MSR_RQM = 0 ∨ status &&& MSR_DIO ≠ 0 then return (false, result)
  else do
    outb DATA_FIFO command.toUInt8
    let commandsSucceeded ← issueParameterCommands fuel args
    if !commandsSucceeded then return (false, result)
    else do
      let result ← takeResult fuel command result
      waitTilFifoReady fuel
      let status ← inb MAIN_STATUS_REGISTER
      return (decide (status &&& MSR_RQM ≠ 0 ∧ status &&& MSR_DIO = 0 ∧
        status &&& MSR_CMD_BSY = 0), result)

/-- The rounds that are left. -/
def retryCommand (fuel : Nat) (command : UInt16) (args : List UInt8) :
    Nat → Option (List UInt8) → Code (Option (List UInt8))
  | 0, _ => .stop (.assertion "ran out of tries issuing floppy command")
  | retries + 1, result => do
    let (succeeded, result) ← tryCommand fuel command result args
    if succeeded then return result else retryCommand fuel command args retries result

/-- `issue_command_with_result`; a null `result` is `none`. -/
def issueCommandWithResult (fuel : Nat) (command : UInt16) (result : Option (List UInt8))
    (args : List UInt8) : Code (Option (List UInt8)) :=
  retryCommand fuel command args 5 result

/-! ## The protocol of the FIFO -/

/-- What was seen at the FIFO and the main status register. -/
structure Watch where
  /-- `RQM` was set since the last byte was written. -/
  ready : Bool
  /-- The main status register, since the last access to the FIFO. -/
  status : Option UInt8
  sent : List UInt8
  /-- What was read since the last byte was written. -/
  received : List UInt8
  /-- How many bytes were read at all. -/
  reads : Nat

/-- A look at the main status register. -/
def Watch.look (q : Watch) (val : UInt8) : Watch :=
  { q with ready := q.ready || decide (val &&& MSR_RQM ≠ 0), status := some val }

def Watch.write (q : Watch) (val : UInt8) : Watch :=
  { q with ready := false, status := none, sent := q.sent ++ [val], received := [] }

def Watch.read (q : Watch) (val : UInt8) : Watch :=
  { q with status := none, received := q.received ++ [val], reads := q.reads + 1 }

/-- The driver accesses the FIFO when the status register said so, for at most so many bytes each
way, writes to nothing else, and clears `disk_interrupt_handled` only. -/
def fifoProtocol (maxSent maxReads : Nat) : Monitor Request Request.Answer Watch where
  allows q
    | .inb port => port = DATA_FIFO →
      q.ready = true ∧ (∃ status, q.status = some status ∧ status &&& MSR_DIO ≠ 0) ∧
        q.reads < maxReads
    | .outb port _ => port = DATA_FIFO ∧
      q.ready = true ∧ (∃ status, q.status = some status ∧ status &&& MSR_DIO = 0) ∧
        q.sent.length < maxSent
    | .load => True
    | .store val => val = false
  next q
    | .inb port, val =>
      if port = MAIN_STATUS_REGISTER then q.look val
      else if port = DATA_FIFO then q.read val
      else q
    | .outb _ val, _ => q.write val
    | .load, _ => q
    | .store _, _ => q

/-- Nothing was seen. -/
def Watch.start : Watch := ⟨false, none, [], [], 0⟩

/-- Nothing went through the FIFO in between. -/
structure Watch.Same (q q' : Watch) : Prop where
  sent : q'.sent = q.sent
  received : q'.received = q.received
  reads : q'.reads = q.reads

theorem Watch.Same.refl (q : Watch) : q.Same q := ⟨rfl, rfl, rfl⟩

theorem Watch.Same.trans {q q' q'' : Watch} (first : q.Same q') (second : q'.Same q'') :
    q.Same q'' :=
  ⟨second.sent.trans first.sent, second.received.trans first.received,
    second.reads.trans first.reads⟩

/-- The size of the buffer that `result` points to. -/
def resultSize (result : Option (List UInt8)) : Nat := (result.map List.length).getD 0

/-- The command was the last thing that was sent, `result` starts with all that was received
after it, and then the controller said that it is idle. -/
structure Watch.Answered (q : Watch) (command : UInt16) (args : List UInt8)
    (result : Option (List UInt8)) : Prop where
  sent : command.toUInt8 :: args <:+ q.sent
  received : ∀ filled, result = some filled → q.received <+: filled
  idle : ∃ status, q.status = some status ∧
    status &&& MSR_RQM ≠ 0 ∧ status &&& MSR_DIO = 0 ∧ status &&& MSR_CMD_BSY = 0

section Protocol

variable {maxSent maxReads : Nat} {q : Watch} {β : Type} {command : UInt16} {args : List UInt8}

theorem obeys_look {f : UInt8 → Code β} {post : β → Watch → Prop}
    (rest : ∀ val, (f val).Obeys (fifoProtocol maxSent maxReads) post (q.look val)) :
    (inb MAIN_STATUS_REGISTER >>= f).Obeys (fifoProtocol maxSent maxReads) post q :=
  Program.obeys_ask (fun fifo => absurd fifo (by decide)) rest

theorem obeys_outb {val : UInt8} {f : Unit → Code β} {post : β → Watch → Prop}
    (ready : q.ready = true) (status : ∃ status, q.status = some status ∧ status &&& MSR_DIO = 0)
    (more : q.sent.length < maxSent)
    (rest : (f ()).Obeys (fifoProtocol maxSent maxReads) post (q.write val)) :
    (outb DATA_FIFO val >>= f).Obeys (fifoProtocol maxSent maxReads) post q :=
  Program.obeys_ask ⟨rfl, ready, status, more⟩ fun _ => rest

theorem obeys_inb {f : UInt8 → Code β} {post : β → Watch → Prop} (ready : q.ready = true)
    (status : ∃ status, q.status = some status ∧ status &&& MSR_DIO ≠ 0) (more : q.reads < maxReads)
    (rest : ∀ val, (f val).Obeys (fifoProtocol maxSent maxReads) post (q.read val)) :
    (inb DATA_FIFO >>= f).Obeys (fifoProtocol maxSent maxReads) post q :=
  Program.obeys_ask (fun _ => ⟨ready, status, more⟩) rest

theorem Watch.ready_look (ready : q.ready = true) (val : UInt8) : (q.look val).ready = true := by
  unfold look
  rw [ready, Bool.true_or]

theorem obeys_waitTilFifoReady (fuel : Nat) :
    (waitTilFifoReady fuel).Obeys (fifoProtocol maxSent maxReads)
      (fun _ q' => q'.ready = true ∧ q.Same q') q := by
  refine Program.obeys_spin (I := q.Same) (fun q' same => ?_) fuel (.refl q)
  refine obeys_look fun val => ?_
  show if _ then _ else _
  by_cases ready : val &&& MSR_RQM = 0
  · rw [if_neg (by simp [ready])]
    exact same.trans ⟨rfl, rfl, rfl⟩
  · rw [if_pos (by simp [ready])]
    exact ⟨by simp [Watch.look, ready], same.trans ⟨rfl, rfl, rfl⟩⟩

theorem obeys_waitForDiskInterrupt (fuel : Nat) :
    (waitForDiskInterrupt fuel).Obeys (fifoProtocol maxSent maxReads) (fun _ => q.Same) q := by
  have looked : (Pic.irqIsMasked .FLOPPY).Obeys (fifoProtocol maxSent maxReads)
      (fun _ => q.Same) q :=
    Program.obeys_ask (fun fifo => absurd fifo (by decide)) fun _ => .refl q
  refine Program.obeys_bind looked fun masked q' same => ?_
  have unmasked : (Program.lift (kassert (!masked)
      "floppy interrupt was not enabled, can't wait for disk interrupt!") : Code Unit).Obeys
      (fifoProtocol maxSent maxReads) (fun _ => q.Same) q' :=
    Program.obeys_lift fun _ _ => same
  refine Program.obeys_bind unmasked fun _ q' same => ?_
  refine Program.obeys_bind (Program.obeys_spin (I := q.Same) (P := q.Same)
    (fun q' same => ?_) fuel same) fun _ q' same => ?_
  · refine ⟨trivial, fun handled => ?_⟩
    cases (show Bool from handled) with
    | false => exact same
    | true => exact same
  · exact ⟨rfl, fun _ => same⟩

theorem obeys_issueParameterCommand (fuel : Nat) (param : UInt8) (more : q.sent.length < maxSent) :
    (issueParameterCommand fuel param).Obeys (fifoProtocol maxSent maxReads)
      (fun issued q' => if issued then
          q'.sent = q.sent ++ [param] ∧ q'.received = [] ∧ q'.reads = q.reads
        else q.Same q') q := by
  refine Program.obeys_bind (obeys_waitTilFifoReady fuel) fun _ q' ⟨ready, same⟩ => ?_
  refine obeys_look fun val => ?_
  by_cases input : val &&& MSR_DIO = 0
  · rw [if_pos input]
    refine obeys_outb (Watch.ready_look ready val) ⟨val, rfl, input⟩ ?_ ?_
    · show q'.sent.length < maxSent
      rwa [same.sent]
    · exact ⟨congrArg (· ++ [param]) same.sent, rfl, same.reads⟩
  · rw [if_neg input]
    exact same.trans ⟨rfl, rfl, rfl⟩

/-- All parameters are sent, or only some. -/
theorem obeys_issueParameterCommands (fuel : Nat) (args : List UInt8) (fresh : q.received = [])
    (more : q.sent.length + args.length ≤ maxSent) :
    (issueParameterCommands fuel args).Obeys (fifoProtocol maxSent maxReads)
      (fun issued q' => q'.reads = q.reads ∧ q'.sent.length ≤ q.sent.length + args.length ∧
        (issued = true → q'.sent = q.sent ++ args ∧ q'.received = [])) q := by
  induction args generalizing q with
  | nil => exact ⟨rfl, Nat.le_refl _, fun _ => ⟨(List.append_nil _).symm, fresh⟩⟩
  | cons param rest ih =>
      rw [List.length_cons] at more ⊢
      refine Program.obeys_bind (obeys_issueParameterCommand fuel param (by omega))
        fun issued q' first => ?_
      cases issued with
      | false => exact ⟨first.reads, by rw [first.sent]; omega, fun h => by cases h⟩
      | true =>
          obtain ⟨sent, received, reads⟩ := first
          have length : q'.sent.length = q.sent.length + 1 := by
            rw [sent, List.length_append, List.length_singleton]
          refine Program.obeys_mono (ih received (by omega)) fun issued q'' ⟨reads', few, all⟩ => ?_
          refine ⟨reads'.trans reads, by omega, fun done => ?_⟩
          obtain ⟨sent', received'⟩ := all done
          exact ⟨by rw [sent', sent, List.append_assoc]; rfl, received'⟩

/-- The loop writes the bytes to `result` in the order in which it reads them, and none behind
its end. -/
theorem obeys_readResult {old : List UInt8} (ready : q.ready = true)
    (more : q.reads + old.length ≤ maxReads) :
    (readResult (q.received ++ old) old.length).Obeys (fifoProtocol maxSent maxReads)
      (fun filled q' => filled.length = q.received.length + old.length ∧
        q'.received <+: filled ∧ q'.sent = q.sent ∧ q'.reads ≤ q.reads + old.length) q := by
  have complete : ∀ val, (q.received ++ old).length = q.received.length + old.length ∧
      (q.look val).received <+: q.received ++ old ∧ (q.look val).sent = q.sent ∧
        (q.look val).reads ≤ q.reads + old.length :=
    fun val => ⟨List.length_append, List.prefix_append _ _, rfl, Nat.le_add_right _ _⟩
  induction old generalizing q with
  | nil =>
      refine obeys_look fun val => ?_
      by_cases ends : val &&& MSR_DIO = 0
      · rw [if_pos ends]
        exact complete val
      · rw [if_neg ends]
        trivial
  | cons byte old ih =>
      refine obeys_look fun val => ?_
      by_cases ends : val &&& MSR_DIO = 0
      · rw [if_pos ends]
        exact complete val
      · rw [if_neg ends]
        rw [List.length_cons] at more
        refine obeys_inb (Watch.ready_look ready val) ⟨val, rfl, ends⟩
          (show q.reads < maxReads by omega) fun taken => ?_
        have set : (q.received ++ byte :: old).set
            ((q.received ++ byte :: old).length - (old.length + 1)) taken =
            ((q.look val).read taken).received ++ old := by
          rw [List.length_append, List.length_cons, Nat.add_sub_cancel, List.set_append_right _ _
            (Nat.le_refl _), Nat.sub_self]
          exact (List.append_assoc q.received [taken] old).symm
        have length : ((q.look val).read taken).received.length = q.received.length + 1 :=
          List.length_append
        have rest := ih (q := (q.look val).read taken) (Watch.ready_look ready val)
          (show q.reads + 1 + old.length ≤ maxReads by omega)
          fun val => ⟨List.length_append, List.prefix_append _ _, rfl, Nat.le_add_right _ _⟩
        rw [set]
        refine Program.obeys_mono rest fun filled q' ⟨size, first, sent, reads⟩ => ?_
        refine ⟨?_, first, sent, Nat.le_trans reads ?_⟩
        · rw [size, length, List.length_cons, Nat.add_assoc, Nat.add_comm 1]
        · show q.reads + 1 + old.length ≤ q.reads + (old.length + 1)
          omega

theorem obeys_takeResult (fuel : Nat) (result : Option (List UInt8)) (fresh : q.received = [])
    (more : q.reads + resultSize result ≤ maxReads) :
    (takeResult fuel command result).Obeys (fifoProtocol maxSent maxReads)
      (fun result' q' => resultSize result' = resultSize result ∧
        (∀ filled, result' = some filled → q'.received <+: filled) ∧
        q'.sent = q.sent ∧ q'.reads ≤ q.reads + resultSize result) q := by
  cases result with
  | none =>
      refine ⟨rfl, fun filled h => ?_, rfl, Nat.le_add_right _ _⟩
      cases h
  | some result =>
      have waited : (if command &&& 0xF = COMMAND_READ ∨ command &&& 0xF = COMMAND_WRITE then
          waitForDiskInterrupt fuel else pure () : Code Unit).Obeys
          (fifoProtocol maxSent maxReads) (fun _ => q.Same) q := by
        split
        · exact obeys_waitForDiskInterrupt fuel
        · exact .refl q
      refine Program.obeys_bind waited fun _ q₁ first => ?_
      refine obeys_look fun val => ?_
      refine Program.obeys_bind (obeys_waitTilFifoReady fuel) fun _ q₂ ⟨ready, second⟩ => ?_
      have same : q.Same q₂ := first.trans ⟨second.sent, second.received, second.reads⟩
      have empty : q₂.received = [] := same.received.trans fresh
      have taken : (readResult (q₂.received ++ result) result.length).Obeys
          (fifoProtocol maxSent maxReads) (fun filled q' => filled.length = _ ∧ _) q₂ :=
        obeys_readResult ready (by rw [same.reads]; exact more)
      rw [empty, List.nil_append] at taken
      refine Program.obeys_bind taken fun filled q₃ ⟨size, start, sent, reads⟩ => ?_
      refine ⟨?_, fun filled' here => Option.some.inj here ▸ start, sent.trans same.sent, ?_⟩
      · show filled.length = result.length
        rw [size, List.length_nil, Nat.zero_add]
      · rwa [same.reads] at reads

/-- One round. -/
theorem obeys_tryCommand (fuel : Nat) (result : Option (List UInt8))
    (more : q.sent.length + (1 + args.length) ≤ maxSent)
    (more' : q.reads + resultSize result ≤ maxReads) :
    (tryCommand fuel command result args).Obeys (fifoProtocol maxSent maxReads)
      (fun r q' => resultSize r.2 = resultSize result ∧
        q'.sent.length ≤ q.sent.length + (1 + args.length) ∧
        q'.reads ≤ q.reads + resultSize result ∧
        (r.1 = true → q'.Answered command args r.2)) q := by
  refine obeys_look fun val => ?_
  by_cases notReady : val &&& MSR_RQM = 0 ∨ val &&& MSR_DIO ≠ 0
  · rw [if_pos notReady]
    exact ⟨rfl, Nat.le_add_right _ _, Nat.le_add_right _ _, fun h => by cases h⟩
  · rw [if_neg notReady]
    rw [not_or, not_not] at notReady
    refine obeys_outb (by simp [Watch.look, notReady.1]) ⟨val, rfl, notReady.2⟩
      (show q.sent.length < maxSent by omega) ?_
    have length : ((q.look val).write command.toUInt8).sent.length = q.sent.length + 1 :=
      List.length_append
    refine Program.obeys_bind (obeys_issueParameterCommands fuel args rfl (by omega))
      fun issued q₁ ⟨reads, few, all⟩ => ?_
    replace reads : q₁.reads = q.reads := reads
    cases issued with
    | false => exact ⟨rfl, by omega, by omega, fun h => by cases h⟩
    | true =>
        obtain ⟨sent, fresh⟩ := all rfl
        refine Program.obeys_bind (obeys_takeResult fuel result fresh (by omega))
          fun result' q₂ ⟨size, start, sent', reads'⟩ => ?_
        refine Program.obeys_bind (obeys_waitTilFifoReady fuel) fun _ q₃ ⟨_, same⟩ => ?_
        refine obeys_look fun val' => ⟨size, ?_, ?_, fun succeeded => ⟨?_, ?_, val', rfl, ?_⟩⟩
        · show q₃.sent.length ≤ _
          rw [same.sent, sent']
          omega
        · show q₃.reads ≤ _
          rw [same.reads]
          omega
        · show _ <:+ q₃.sent
          rw [same.sent, sent', sent]
          exact ⟨q.sent, (List.append_assoc q.sent [command.toUInt8] args).symm⟩
        · show ∀ filled, _ → q₃.received <+: filled
          rw [same.received]
          exact start
        · exact of_decide_eq_true succeeded

theorem obeys_retryCommand (fuel : Nat) (retries : Nat) (result : Option (List UInt8))
    (more : q.sent.length + retries * (1 + args.length) ≤ maxSent)
    (more' : q.reads + retries * resultSize result ≤ maxReads) :
    (retryCommand fuel command args retries result).Obeys (fifoProtocol maxSent maxReads)
      (fun result' q' => q'.Answered command args result') q := by
  induction retries generalizing q result with
  | zero => trivial
  | succ retries ih =>
      rw [Nat.succ_mul] at more more'
      refine Program.obeys_bind (obeys_tryCommand fuel result (by omega) (by omega))
        fun r q' ⟨size, sent, reads, answered⟩ => ?_
      obtain ⟨succeeded, result'⟩ := r
      dsimp only at size answered
      cases succeeded with
      | true => exact answered rfl
      | false =>
          refine ih result' (by omega) ?_
          rw [size]
          omega

end Protocol

/-- Whatever the controller answers, the driver keeps to the protocol of the FIFO in all of its
rounds, and if it returns, then with the answer to its command. -/
theorem issueCommand_follows {σ : Type} (devices : (o : Request) → σ → o.Answer × σ) (s : σ)
    (fuel : Nat) (command : UInt16) (result : Option (List UInt8)) (args : List UInt8) :
    let code := issueCommandWithResult fuel command result args
    let protocol := fifoProtocol (5 * (1 + args.length)) (5 * resultSize result)
    protocol.Follows .start (code.trace devices s) ∧
      ∀ result' s', code.run devices s = .ok (result', s') →
        (protocol.after .start (code.trace devices s)).Answered command args result' := by
  have obeys : (issueCommandWithResult fuel command result args).Obeys
      (fifoProtocol (5 * (1 + args.length)) (5 * resultSize result))
      (fun result' q => q.Answered command args result') .start :=
    obeys_retryCommand fuel 5 result (Nat.le_of_eq (Nat.zero_add _)) (Nat.le_of_eq (Nat.zero_add _))
  exact ⟨Program.follows_trace devices obeys s, fun _ _ done => Program.post_of_run obeys done⟩

end Tyleros.Floppy
