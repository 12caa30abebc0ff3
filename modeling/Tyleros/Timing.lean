import Tyleros.Basic
import Mathlib.Logic.Function.Iterate

/-!
# The clocks

`kernel/timing.cpp`: the timer interrupt calls `tick`, which counts ticks, carries full
microseconds into one counter and full milliseconds into another one. `busy_sleep` waits
until one of the two counters has advanced far enough.

Both carries test with `>` where a full unit is already reached at equality.
`ticks_succ` gives the counters after any number of ticks: from the first tick on the
microseconds are one behind, and the milliseconds are a thousandth of that, one
microsecond late (`inProportion_iff`).
-/

namespace Tyleros.Timing

/-- `ticks_per_second`. -/
def TICKS_PER_SECOND : UInt64 := 1193182

/-- `millis_per_second`. -/
def MILLIS_PER_SECOND : UInt64 := 1000

/-- `micros_per_milli`. -/
def MICROS_PER_MILLI : UInt32 := 1000

/-- `ticks_per_micro`. -/
def TICKS_PER_MICRO : UInt64 := TICKS_PER_SECOND / MILLIS_PER_SECOND / MICROS_PER_MILLI.toUInt64

structure State where
  microsSinceStart : UInt64
  millisSinceStart : UInt64
  ticksInThisMicro : UInt32
  microsInThisMilli : UInt32
  deriving DecidableEq, Repr

def start : State := ⟨0, 0, 0, 0⟩

/-- The inner `if` of `tick`. -/
def carryMilli (s : State) : State :=
  if s.microsInThisMilli > MICROS_PER_MILLI then
    { s with
      millisSinceStart := s.millisSinceStart + 1
      microsInThisMilli := s.microsInThisMilli - MICROS_PER_MILLI }
  else s

def tick (s : State) : State :=
  let s := { s with ticksInThisMicro := s.ticksInThisMicro + 1 }
  if s.ticksInThisMicro.toUInt64 > TICKS_PER_MICRO then
    let s := carryMilli { s with
      microsSinceStart := s.microsSinceStart + 1
      microsInThisMilli := s.microsInThisMilli + 1 }
    { s with ticksInThisMicro := (s.ticksInThisMicro.toUInt64 - TICKS_PER_MICRO).toUInt32 }
  else s

/-- The state after `n` ticks. -/
def ticks (n : Nat) : State := tick^[n] start

/-- `get_micros_since_start`. -/
def getMicrosSinceStart (s : State) : UInt64 := s.microsSinceStart

/-- `get_millis_since_start`. -/
def getMillisSinceStart (s : State) : UInt64 := s.millisSinceStart

/-- The condition on which `busy_sleep` goes on, for the clock that it reads. -/
def sleeping (clock : State → UInt64) (val : UInt64) (begin_ now : State) : Bool :=
  clock now - clock begin_ < val

/-- Both clocks count what they are named after. -/
structure InProportion (n : Nat) (s : State) : Prop where
  micros : getMicrosSinceStart s = UInt64.ofNat (n / TICKS_PER_MICRO.toNat)
  millis : getMillisSinceStart s = getMicrosSinceStart s / MICROS_PER_MILLI.toUInt64

/-! ## The counters after any number of ticks -/

theorem TICKS_PER_MICRO_toNat : TICKS_PER_MICRO.toNat = 1 := rfl

/-- The microseconds of the current millisecond, after `micros` microseconds. The last
one stays: it is carried with the first microsecond of the next millisecond. -/
def sinceCarry (micros : Nat) : Nat := if micros = 0 then 0 else (micros - 1) % 1000 + 1

/-- The counters `micros + 1` ticks after the start. -/
def after (micros : Nat) : State where
  microsSinceStart := UInt64.ofNat micros
  millisSinceStart := UInt64.ofNat ((micros - 1) / 1000)
  ticksInThisMicro := 1
  microsInThisMilli := UInt32.ofNat (sinceCarry micros)

theorem sinceCarry_le (micros : Nat) : sinceCarry micros ≤ 1000 := by
  unfold sinceCarry
  split <;> omega

/-- The comparison of `tick`, for a counter of at most 1001 microseconds. -/
theorem ofNat_gt_iff {k : Nat} (small : k ≤ 1001) :
    UInt32.ofNat k > MICROS_PER_MILLI ↔ k = 1001 := by
  have value : (UInt32.ofNat k).toNat = k := UInt32.toNat_ofNat_of_lt' (Nat.lt_of_le_of_lt small (by decide))
  have limit : MICROS_PER_MILLI.toNat = 1000 := rfl
  rw [gt_iff_lt, UInt32.lt_iff_toNat_lt, value, limit]
  omega

/-- The microseconds of the next millisecond are counted from one on again. -/
theorem sinceCarry_succ (micros : Nat) :
    (sinceCarry micros < 1000 ∧ sinceCarry (micros + 1) = sinceCarry micros + 1 ∧
      micros / 1000 = (micros - 1) / 1000) ∨
    (sinceCarry micros = 1000 ∧ sinceCarry (micros + 1) = 1 ∧
      micros / 1000 = (micros - 1) / 1000 + 1) := by
  unfold sinceCarry
  rw [if_neg (Nat.succ_ne_zero micros)]
  split <;> omega

theorem carryMilli_after (micros : Nat) :
    carryMilli { after micros with
      microsSinceStart := (after micros).microsSinceStart + 1
      microsInThisMilli := (after micros).microsInThisMilli + 1
      ticksInThisMicro := 2 } = { after (micros + 1) with ticksInThisMicro := 2 } := by
  have next : UInt64.ofNat (micros + 1) = UInt64.ofNat micros + 1 := UInt64.ofNat_add micros 1
  have counted : UInt32.ofNat (sinceCarry micros) + 1 = UInt32.ofNat (sinceCarry micros + 1) :=
    (UInt32.ofNat_add _ 1).symm
  have small := sinceCarry_le micros
  have full := ofNat_gt_iff (show sinceCarry micros + 1 ≤ 1001 by omega)
  unfold carryMilli after
  dsimp only
  rw [counted, next, Nat.add_sub_cancel]
  rcases sinceCarry_succ micros with ⟨room, count, millis⟩ | ⟨last, count, millis⟩
  · rw [if_neg (fun gt => absurd (full.mp gt) (by omega)), count, millis]
  · rw [if_pos (full.mpr (by omega)), count, millis, last, UInt64.ofNat_add]
    rfl

theorem tick_after (micros : Nat) : tick (after micros) = after (micros + 1) := by
  have ends : (2 : UInt32).toUInt64 > TICKS_PER_MICRO := by decide
  have left : ((2 : UInt32).toUInt64 - TICKS_PER_MICRO).toUInt32 = 1 := by decide
  have carry := carryMilli_after micros
  unfold tick
  dsimp only
  rw [show (after micros).ticksInThisMicro + 1 = 2 from rfl, if_pos ends, carry]
  exact congrArg (fun t => { after (micros + 1) with ticksInThisMicro := t }) left

/-- The first tick only starts a microsecond; every later one ends one. -/
theorem ticks_succ (micros : Nat) : ticks (micros + 1) = after micros := by
  induction micros with
  | zero => decide
  | succ micros ih =>
      rw [ticks, Function.iterate_succ_apply', ← ticks, ih]
      exact tick_after micros

theorem micros_ticks_succ (n : Nat) : getMicrosSinceStart (ticks (n + 1)) = UInt64.ofNat n := by
  rw [ticks_succ]
  rfl

theorem millis_ticks_succ (n : Nat) :
    getMillisSinceStart (ticks (n + 1)) = UInt64.ofNat ((n - 1) / 1000) := by
  rw [ticks_succ]
  rfl

/-- The milliseconds are a thousandth of the microseconds except on the microsecond that
completes a millisecond. -/
theorem millis_proportional_iff (n : Nat) (fits : n < 2 ^ 64) :
    getMillisSinceStart (ticks (n + 1)) =
        getMicrosSinceStart (ticks (n + 1)) / MICROS_PER_MILLI.toUInt64 ↔
      n = 0 ∨ n % 1000 ≠ 0 := by
  have limit : (MICROS_PER_MILLI.toUInt64).toNat = 1000 := rfl
  have late : (UInt64.ofNat ((n - 1) / 1000)).toNat = (n - 1) / 1000 :=
    UInt64.toNat_ofNat_of_lt' (by show _ < 2 ^ 64; omega)
  rw [micros_ticks_succ, millis_ticks_succ, ← UInt64.toNat_inj, UInt64.toNat_div, late, limit,
    UInt64.toNat_ofNat_of_lt' fits]
  omega

/-- The clocks are in proportion before the first tick, and never again: the counter of
microseconds stays one behind. -/
theorem inProportion_iff (n : Nat) : InProportion n (ticks n) ↔ n = 0 := by
  constructor
  · intro both
    by_contra started
    obtain ⟨n, rfl⟩ := Nat.exists_eq_succ_of_ne_zero started
    have behind := both.micros
    rw [Nat.succ_eq_add_one, micros_ticks_succ, TICKS_PER_MICRO_toNat, Nat.div_one,
      UInt64.ofNat_add] at behind
    exact absurd (UInt64.left_eq_add.mp behind) (by decide)
  · rintro rfl
    exact ⟨by decide, by decide⟩

/-- After 1001 ticks a thousand microseconds are counted, and no millisecond. -/
theorem not_inProportion :
    ¬ InProportion 1001 (ticks 1001) ∧ getMicrosSinceStart (ticks 1001) = 1000 ∧
      getMillisSinceStart (ticks 1001) = 0 := by
  refine ⟨fun both => ?_, micros_ticks_succ 1000, millis_ticks_succ 1000⟩
  have behind := both.micros
  rw [micros_ticks_succ 1000] at behind
  exact absurd behind (by decide)

/-! ## What the sleeps measure -/

/-- A sleep on the counter of microseconds that begins behind the first tick takes as
many ticks as it should. -/
theorem sleeping_micros (begin_ elapsed : Nat) (fits : elapsed < 2 ^ 64) (us : UInt64) :
    sleeping getMicrosSinceStart us (ticks (begin_ + 1)) (ticks (begin_ + 1 + elapsed)) = true ↔
      elapsed < us.toNat := by
  have difference : UInt64.ofNat (begin_ + elapsed) - UInt64.ofNat begin_ = UInt64.ofNat elapsed := by
    rw [UInt64.ofNat_add, UInt64.add_comm, UInt64.add_sub_cancel]
  unfold sleeping
  rw [Nat.add_right_comm, micros_ticks_succ, micros_ticks_succ, difference, decide_eq_true_eq,
    UInt64.lt_iff_toNat_lt, UInt64.toNat_ofNat_of_lt' fits]

/-- A sleep on the counter of milliseconds ends with the carry that makes it full: the
carries come one microsecond after the multiples of a thousand. -/
theorem sleeping_millis (begin_ elapsed : Nat) (fits : begin_ + elapsed < 2 ^ 64) (ms : UInt64) :
    sleeping getMillisSinceStart ms (ticks (begin_ + 1)) (ticks (begin_ + 1 + elapsed)) = true ↔
      (begin_ + elapsed - 1) / 1000 - (begin_ - 1) / 1000 < ms.toNat := by
  have grows : (begin_ - 1) / 1000 ≤ (begin_ + elapsed - 1) / 1000 := by omega
  have difference : UInt64.ofNat ((begin_ + elapsed - 1) / 1000) - UInt64.ofNat ((begin_ - 1) / 1000) =
      UInt64.ofNat ((begin_ + elapsed - 1) / 1000 - (begin_ - 1) / 1000) :=
    (UInt64.ofNat_sub grows).symm
  unfold sleeping
  rw [Nat.add_right_comm, millis_ticks_succ, millis_ticks_succ, difference, decide_eq_true_eq,
    UInt64.lt_iff_toNat_lt, UInt64.toNat_ofNat_of_lt' (by show _ < 2 ^ 64; omega)]

end Tyleros.Timing
