import Tyleros.Scheduler.Model
import Tyleros.Lib.Machine
import Mathlib.Data.Finset.Card

/-!
# The tick count

`scheduler_interrupt` of `kernel/task.asm` serves two kinds of interrupts: the ticks of the
CMOS clock, and the `int $0x28` of `scheduler::yield`. Only the first kind is to be counted in
`ticks_since_boot`, and `yield` says so by storing `no_scheduler_tick` one instruction before.

A clock tick may come between the two instructions. Then it is the tick that is not counted,
and the `int $0x28` is counted in its place, if the task ever gets there. A clock tick may also
come in `scheduler_interrupt` itself, once `task_switch` has enabled interrupts: in front of the
instruction that clears `no_scheduler_tick` it is not counted either, and nothing is counted in
its place. The context that it interrupts there is the one of the task that was switched to, and
goes on with the rest of `scheduler_interrupt` when that task is resumed.

* `ticks_count_interrupts`: the count is behind by the tasks that are stopped between the two
  instructions and by the ticks that came too late, in every state of every run.
-/

namespace Tyleros.Scheduler

open Tyleros.Lib

/-! ## `scheduler_interrupt` and `yield` -/

/-- The scheduler, the variables of `kernel/task.asm` and where the tasks are. -/
structure Clock where
  sched : State
  ticksSinceBoot : UInt64
  noSchedulerTick : Bool
  taskSwitchingEnabled : Bool
  /-- The slots whose task goes on with the `int $0x28` of `yield`. -/
  atInt : Finset Nat
  /-- For every slot, how many times its context has to go through the end of
  `scheduler_interrupt` first. -/
  endings : Nat → Nat

/-- The start of `scheduler_interrupt`. -/
def Clock.tick (c : Clock) : Clock :=
  if c.noSchedulerTick then c else { c with ticksSinceBoot := c.ticksSinceBoot + 1 }

/-- `scheduler_interrupt` up to the return of `task_switch`, with the context it interrupts. If
tasks are not switched, it is done. -/
def beginInterrupt (tcb : TaskFrame) (fxsave : FxsaveData) (c : Clock) : Except Stop Clock :=
  if c.taskSwitchingEnabled then do
    let sched ← taskSwitch tcb fxsave c.sched
    let next := sched.currentTaskId
    return { c.tick with sched, endings := Function.update c.endings next (c.endings next + 1) }
  else return c.tick

/-- `scheduler_interrupt` from the return of `task_switch` on. -/
def endInterrupt (c : Clock) : Clock :=
  let id := c.sched.currentTaskId
  { c with
    noSchedulerTick := false
    endings := Function.update c.endings id (c.endings id - 1) }

/-- `yield` up to its `int $0x28`. -/
def beginYield (interruptsEnabled : Bool) (c : Clock) : Clock :=
  if interruptsEnabled && c.taskSwitchingEnabled then
    { c with noSchedulerTick := true, atInt := insert c.sched.currentTaskId c.atInt }
  else c

/-- What the code of a task does next. -/
inductive TaskOp where
  | yield (interruptsEnabled : Bool)
  | enableTaskSwitch
  /-- `schedule_kernel_task` or `schedule_user_task`. -/
  | schedule (isKernel : Bool) (newTask context : UInt64) (stackTop : Nat)
  | kill (id : Nat)

/-- An interrupt of the clock, or the next step of the current task. -/
inductive ClockOp where
  | tick (tcb : TaskFrame) (fxsave : FxsaveData)
  | task (op : TaskOp) (tcb : TaskFrame) (fxsave : FxsaveData)

/-- The current task goes on with the end of `scheduler_interrupt`. -/
def Clock.ending (c : Clock) : Prop := c.endings c.sched.currentTaskId ≠ 0

instance (c : Clock) : Decidable c.ending := instDecidableNot

/-- The current task has set `no_scheduler_tick` and goes on with its `int $0x28`. -/
def Clock.announced (c : Clock) : Bool := c.noSchedulerTick && !decide c.ending

/-- An interrupt would now find `no_scheduler_tick` still set for the one before it. -/
def Clock.late (c : Clock) : Bool := c.noSchedulerTick && decide c.ending

/-- The clock and its past: the interrupts of the clock, the slots that were scheduled again
while their task was in front of its `int $0x28`, and the interrupts of the clock between the
return of `task_switch` and the instruction that clears `no_scheduler_tick`. -/
structure Counted where
  clock : Clock
  interrupts : Nat
  lost : Nat
  late : Nat

/-- A step of the code of a task. -/
def Counted.taskStep (exitAddress : UInt64) (h : Counted) : TaskOp → Except Stop Counted
  | .yield interruptsEnabled => return { h with clock := beginYield interruptsEnabled h.clock }
  | .enableTaskSwitch => return { h with clock := { h.clock with taskSwitchingEnabled := true } }
  | .schedule isKernel newTask context stackTop => do
      let (id, sched) ←
        scheduleTask isKernel newTask context exitAddress stackTop h.clock.sched
      return { h with
        clock := { h.clock with
          sched
          atInt := h.clock.atInt.erase id
          endings := Function.update h.clock.endings id 0 }
        lost := if id ∈ h.clock.atInt then h.lost + 1 else h.lost }
  | .kill id => do
      let sched ← kill id h.clock.sched
      return { h with clock := { h.clock with sched } }

/-- One step. A task in `scheduler_interrupt` or in front of its `int $0x28` does nothing else
first. -/
def Counted.step (exitAddress : UInt64) (h : Counted) : ClockOp → Except Stop Counted
  | .tick tcb fxsave => do
      let clock ← beginInterrupt tcb fxsave h.clock
      return { h with
        clock
        interrupts := h.interrupts + 1
        late := h.late + h.clock.late.toNat }
  | .task op tcb fxsave =>
      if h.clock.ending then return { h with clock := endInterrupt h.clock }
      else if h.clock.sched.currentTaskId ∈ h.clock.atInt then do
        let clock ← beginInterrupt tcb fxsave
          { h.clock with atInt := h.clock.atInt.erase h.clock.sched.currentTaskId }
        return { h with clock }
      else h.taskStep exitAddress op

/-- The machine of all interleavings. -/
def clockMachine (exitAddress : UInt64) : Machine Counted ClockOp Stop := ⟨Counted.step exitAddress⟩

/-- After `scheduler::init`. -/
def Counted.init : Counted := ⟨⟨Scheduler.init, 0, false, false, ∅, fun _ => 0⟩, 0, 0, 0⟩

/-! ## What a step does -/

section Steps

variable {exitAddress : UInt64} {tcb : TaskFrame} {fxsave : FxsaveData} {c c' : Clock}
  {h h' : Counted} {o : ClockOp} {op : TaskOp}

theorem Clock.tick_eq (c : Clock) : c.tick = { c with
    ticksSinceBoot := if c.noSchedulerTick then c.ticksSinceBoot else c.ticksSinceBoot + 1 } := by
  unfold Clock.tick
  split
  · rfl
  · rfl

/-- An interrupt is counted unless `no_scheduler_tick` is set. It leaves the flag as it is, and if
tasks are switched, the current task is in `scheduler_interrupt` then. -/
theorem beginInterrupt_cases (done : beginInterrupt tcb fxsave c = .ok c') :
    c'.ticksSinceBoot = (if c.noSchedulerTick then c.ticksSinceBoot else c.ticksSinceBoot + 1) ∧
      c'.atInt = c.atInt ∧ c'.noSchedulerTick = c.noSchedulerTick ∧
      c'.taskSwitchingEnabled = c.taskSwitchingEnabled ∧
      (c.taskSwitchingEnabled = true → c'.ending) := by
  unfold beginInterrupt at done
  rw [Clock.tick_eq] at done
  split at done
  · next enabled =>
      obtain ⟨sched, -, done⟩ := bind_eq_ok done
      cases done
      refine ⟨rfl, rfl, rfl, rfl, fun _ => ?_⟩
      show Function.update c.endings sched.currentTaskId _ sched.currentTaskId ≠ 0
      rw [Function.update_self]
      exact Nat.succ_ne_zero _
  · next disabled =>
      cases done
      exact ⟨rfl, rfl, rfl, rfl, fun enabled => absurd enabled disabled⟩

/-- Together with the flag that it finds an interrupt counts once. -/
theorem beginInterrupt_count (done : beginInterrupt tcb fxsave c = .ok c') :
    c'.ticksSinceBoot + UInt64.ofNat c.noSchedulerTick.toNat = c.ticksSinceBoot + 1 := by
  rw [(beginInterrupt_cases done).1]
  cases c.noSchedulerTick with
  | false => exact UInt64.add_zero _
  | true => rfl

/-- The flag is announced or has been found by an interrupt. -/
theorem Clock.announced_add_late (c : Clock) :
    c.announced.toNat + c.late.toNat = c.noSchedulerTick.toNat := by
  unfold Clock.announced Clock.late
  cases c.noSchedulerTick <;> cases decide c.ending <;> rfl

theorem Clock.announced_of_clear (clear : c.noSchedulerTick = false) : c.announced = false := by
  rw [Clock.announced, clear, Bool.false_and]

/-- The balance of the counts, and whose flag `no_scheduler_tick` is. -/
structure Counted.Balanced (h : Counted) : Prop where
  count : h.clock.ticksSinceBoot + UInt64.ofNat (h.clock.atInt.card + h.lost + h.late) =
    UInt64.ofNat (h.interrupts + h.clock.announced.toNat)
  flag : h.clock.noSchedulerTick = true → h.clock.taskSwitchingEnabled = true ∧
    (h.clock.ending ∨ h.clock.sched.currentTaskId ∈ h.clock.atInt)

/-- While the flag is clear, all interrupts have been accounted for. -/
theorem Counted.balanced_of_clear (clear : h.clock.noSchedulerTick = false)
    (count : h.clock.ticksSinceBoot + UInt64.ofNat (h.clock.atInt.card + h.lost + h.late) =
      UInt64.ofNat h.interrupts) : h.Balanced := by
  refine ⟨?_, fun flag => nomatch clear.symm.trans flag⟩
  rw [Clock.announced_of_clear clear]
  exact count

theorem Counted.Balanced.count_of_clear (balanced : h.Balanced)
    (clear : h.clock.noSchedulerTick = false) :
    h.clock.ticksSinceBoot + UInt64.ofNat (h.clock.atInt.card + h.lost + h.late) =
      UInt64.ofNat h.interrupts := by
  have count := balanced.count
  rwa [Clock.announced_of_clear clear] at count

theorem Counted.init_balanced : Counted.init.Balanced := Counted.balanced_of_clear rfl rfl

/-- Behind an interrupt the flag, if it is set, has been found. -/
theorem Counted.Balanced.found (balanced : h.Balanced) {atInt : Finset Nat}
    (done : beginInterrupt tcb fxsave { h.clock with atInt } = .ok c') :
    c'.announced = false ∧
      (c'.noSchedulerTick = true → c'.taskSwitchingEnabled = true ∧ c'.ending) := by
  obtain ⟨-, -, flag, switching, ending⟩ := beginInterrupt_cases done
  have set_ : c'.noSchedulerTick = true → c'.taskSwitchingEnabled = true ∧ c'.ending := by
    intro set_
    have enabled := (balanced.flag (flag.symm.trans set_)).1
    exact ⟨switching.trans enabled, ending enabled⟩
  refine ⟨?_, set_⟩
  cases flag : c'.noSchedulerTick with
  | false => exact Clock.announced_of_clear flag
  | true => rw [Clock.announced, flag, decide_eq_true (set_ flag).2, Bool.not_true, Bool.and_false]

theorem Counted.Balanced.tick (balanced : h.Balanced)
    (done : beginInterrupt tcb fxsave h.clock = .ok c') :
    Counted.Balanced { h with
      clock := c', interrupts := h.interrupts + 1, late := h.late + h.clock.late.toNat } := by
  obtain ⟨found, set_⟩ := balanced.found done
  have count := balanced.count
  have once := beginInterrupt_count done
  refine ⟨?_, fun flag => ⟨(set_ flag).1, Or.inl (set_ flag).2⟩⟩
  dsimp only
  rw [found, (beginInterrupt_cases done).2.1]
  rw [← h.clock.announced_add_late] at once
  simp only [UInt64.ofNat_add, Bool.toNat_false] at count once ⊢
  grind

theorem Counted.Balanced.int (balanced : h.Balanced) (elsewhere : ¬ h.clock.ending)
    (inFront : h.clock.sched.currentTaskId ∈ h.clock.atInt)
    (done : beginInterrupt tcb fxsave
      { h.clock with atInt := h.clock.atInt.erase h.clock.sched.currentTaskId } = .ok c') :
    Counted.Balanced { h with clock := c' } := by
  obtain ⟨found, set_⟩ := balanced.found done
  have count := balanced.count
  have once := beginInterrupt_count done
  have one := Finset.card_erase_add_one inFront
  have announced : h.clock.announced = h.clock.noSchedulerTick := by
    rw [Clock.announced, decide_eq_false elsewhere, Bool.not_false, Bool.and_true]
  refine ⟨?_, fun flag => ⟨(set_ flag).1, Or.inl (set_ flag).2⟩⟩
  dsimp only
  rw [found, (beginInterrupt_cases done).2.1]
  rw [← one, announced] at count
  simp only [UInt64.ofNat_add, Bool.toNat_false] at count once ⊢
  grind

/-- The end of an interrupt clears a flag that has been found. -/
theorem Counted.Balanced.end_ (balanced : h.Balanced) (ending : h.clock.ending) :
    Counted.Balanced { h with clock := endInterrupt h.clock } := by
  have count := balanced.count
  have found : h.clock.announced = false := by
    rw [Clock.announced, decide_eq_true ending, Bool.not_true, Bool.and_false]
  rw [found] at count
  exact Counted.balanced_of_clear rfl count

/-- No other step of a task changes the balance. -/
theorem Counted.Balanced.task (balanced : h.Balanced) (outside : ¬ h.clock.ending)
    (elsewhere : h.clock.sched.currentTaskId ∉ h.clock.atInt)
    (done : h.taskStep exitAddress op = .ok h') : h'.Balanced := by
  have clear : h.clock.noSchedulerTick = false := by
    cases flag : h.clock.noSchedulerTick with
    | false => rfl
    | true => exact absurd (balanced.flag flag).2 (not_or.mpr ⟨outside, elsewhere⟩)
  have count := balanced.count_of_clear clear
  cases op with
  | yield interruptsEnabled =>
      cases done
      unfold beginYield
      split
      · next both =>
          have announced : Clock.announced { h.clock with
              noSchedulerTick := true
              atInt := insert h.clock.sched.currentTaskId h.clock.atInt } = true :=
            congrArg Bool.not (decide_eq_false outside)
          refine ⟨?_, fun _ => ⟨(Bool.and_eq_true_iff.mp both).2,
            Or.inr (Finset.mem_insert_self _ _)⟩⟩
          dsimp only
          rw [announced, Finset.card_insert_of_notMem elsewhere]
          simp only [UInt64.ofNat_add, Bool.toNat_true] at count ⊢
          grind
      · exact balanced
  | enableTaskSwitch =>
      cases done
      exact Counted.balanced_of_clear clear count
  | schedule isKernel newTask context stackTop =>
      obtain ⟨⟨id, sched⟩, -, done⟩ := bind_eq_ok done
      cases done
      refine Counted.balanced_of_clear clear ?_
      dsimp only
      by_cases caught : id ∈ h.clock.atInt
      · have one := Finset.card_erase_add_one caught
        rw [if_pos caught]
        rw [show (h.clock.atInt.erase id).card + (h.lost + 1) = h.clock.atInt.card + h.lost by omega]
        exact count
      · rw [if_neg caught, Finset.erase_eq_of_notMem caught]
        exact count
  | kill id =>
      obtain ⟨sched, -, done⟩ := bind_eq_ok done
      cases done
      exact Counted.balanced_of_clear clear count

theorem Counted.Balanced.step (balanced : h.Balanced) (done : h.step exitAddress o = .ok h') :
    h'.Balanced := by
  cases o with
  | tick tcb fxsave =>
      obtain ⟨c', interrupted, done⟩ := bind_eq_ok done
      cases done
      exact balanced.tick interrupted
  | task op tcb fxsave =>
      unfold Counted.step at done
      dsimp only at done
      split at done
      · next ending =>
          cases done
          exact balanced.end_ ending
      · next outside =>
          split at done
          · next inFront =>
              obtain ⟨c', interrupted, done⟩ := bind_eq_ok done
              cases done
              exact balanced.int outside inFront interrupted
          · next elsewhere => exact balanced.task outside elsewhere done

end Steps

/-- However the clock interrupts the tasks, `ticks_since_boot` is behind the number of its
interrupts by the tasks that are stopped in front of an `int $0x28`, or were when their slot was
scheduled again, and by the interrupts that came too late for `no_scheduler_tick` to be cleared;
while the flag is announced, the task that runs is not one of them. -/
theorem ticks_count_interrupts (exitAddress : UInt64) (ops : List ClockOp) :
    (clockMachine exitAddress).Always
      (fun h => h.clock.ticksSinceBoot + UInt64.ofNat (h.clock.atInt.card + h.lost + h.late) =
        UInt64.ofNat (h.interrupts + h.clock.announced.toNat))
      Counted.init ops := by
  have preserves : ∀ h o h', Counted.Balanced h → True → h.step exitAddress o = .ok h' →
      h'.Balanced := fun _ _ _ balanced _ done => balanced.step done
  have entails : ∀ h : Counted, h.Balanced → _ := fun _ balanced => balanced.count
  exact Machine.always_of_inv preserves entails Counted.init_balanced Machine.eachStep_true

end Tyleros.Scheduler
