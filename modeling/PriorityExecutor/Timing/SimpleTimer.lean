import PriorityExecutor.Foundation.Extremes
import PriorityExecutor.Foundation.WordSum

/-!
# Timing statistics

`CycleTimer` measures the time from one tick to the next, `PeriodTimer` the time from a
start to a stop.  Both wait for a start delay before they record, and both keep the
extremes with 0 for "not set yet".

A tick is a stop and a start at the same reading.  The results about `PeriodTimer` are
for starts and stops in any order, so they hold for the ticks as well.
-/

namespace PriorityExecutor

/-- The members of `CycleTimer`.  `PeriodTimer` has the same ones, under the names
`last_period_time`, `max_period`, `min_period` and `last_period`. -/
structure SimpleTimer where
  startDelayTime : UInt64
  startTime : UInt64 := 0
  lastCycleTime : UInt64 := 0
  maxDiff : UInt64 := 0
  minDiff : UInt64 := 0
  lastDiff : UInt64 := 0
  recording : Bool := false

namespace SimpleTimer

/-- The constructors: a delay in milliseconds, kept in microseconds. -/
def new (startDelay : Int64) : SimpleTimer where
  startDelayTime := (startDelay * 1000).toUInt64

/-- The branch of a timer that is not recording. -/
def awaitDelay (timer : SimpleTimer) (currentWallTime : UInt64) : SimpleTimer :=
  if timer.startTime = 0 then
    { timer with startTime := currentWallTime }
  else if currentWallTime - timer.startTime > timer.startDelayTime then
    { timer with
      recording := true
      lastCycleTime := currentWallTime
      startTime := currentWallTime }
  else
    timer

/-- The update of the statistics. -/
def measure (timer : SimpleTimer) (currentWallTime : UInt64) : SimpleTimer :=
  let timeDiff := currentWallTime - timer.lastCycleTime
  { timer with
    minDiff :=
      if timeDiff < timer.minDiff ∨ timer.minDiff = 0 then timeDiff else timer.minDiff
    maxDiff :=
      if timeDiff > timer.maxDiff ∨ timer.maxDiff = 0 then timeDiff else timer.maxDiff
    lastDiff := timeDiff }

end SimpleTimer

/-- `CycleTimer::tick`. -/
def CycleTimer.tick (timer : SimpleTimer) (currentWallTime : UInt64) : SimpleTimer :=
  if ¬ timer.recording then
    timer.awaitDelay currentWallTime
  else
    { timer.measure currentWallTime with lastCycleTime := currentWallTime }

/-- `PeriodTimer::start`. -/
def PeriodTimer.start (timer : SimpleTimer) (currentWallTime : UInt64) : SimpleTimer :=
  if ¬ timer.recording then
    timer.awaitDelay currentWallTime
  else
    { timer with lastCycleTime := currentWallTime }

/-- `PeriodTimer::stop`. -/
def PeriodTimer.stop (timer : SimpleTimer) (currentWallTime : UInt64) : SimpleTimer :=
  if ¬ timer.recording then
    timer
  else
    timer.measure currentWallTime

/-- A call of `PeriodTimer` and the reading of the clock in it. -/
inductive PeriodCall where
  | start (reading : UInt64)
  | stop (reading : UInt64)
  deriving Repr, DecidableEq

namespace PeriodCall

def reading : PeriodCall → UInt64
  | start reading => reading
  | stop reading => reading

def perform (timer : SimpleTimer) : PeriodCall → SimpleTimer
  | start reading => PeriodTimer.start timer reading
  | stop reading => PeriodTimer.stop timer reading

/-- The calls that a tick amounts to. -/
def ofTick (reading : UInt64) : List PeriodCall := [.stop reading, .start reading]

end PeriodCall

/-! ## The intervals -/

/-- The intervals between the readings after one at `since`. -/
def gapsAfter (since : UInt64) : List UInt64 → List Nat
  | [] => []
  | reading :: rest => (reading.toNat - since.toNat) :: gapsAfter reading rest

/-- The intervals from a start to a stop, after a start at `since`. -/
def periodsAfter (since : UInt64) : List PeriodCall → List Nat
  | [] => []
  | .start reading :: rest => periodsAfter reading rest
  | .stop reading :: rest => (reading.toNat - since.toNat) :: periodsAfter since rest

/-- All intervals between ticks from the one that switches recording on. -/
def CycleTimer.measured (timer : SimpleTimer) : List UInt64 → List Nat
  | [] => []
  | reading :: rest =>
      if (tick timer reading).recording then
        gapsAfter reading rest
      else
        measured (tick timer reading) rest

/-- All intervals from a start to a stop, from the start that switches recording on. -/
def PeriodTimer.measured (timer : SimpleTimer) : List PeriodCall → List Nat
  | [] => []
  | call :: rest =>
      if (call.perform timer).recording then
        periodsAfter call.reading rest
      else
        measured (call.perform timer) rest

def CycleTimer.run (timer : SimpleTimer) (readings : List UInt64) : SimpleTimer :=
  readings.foldl tick timer

def PeriodTimer.run (timer : SimpleTimer) (calls : List PeriodCall) : SimpleTimer :=
  calls.foldl PeriodCall.perform timer

/-- The statistics as natural numbers. -/
def SimpleTimer.extremes (timer : SimpleTimer) : Extremes Nat :=
  ⟨timer.minDiff.toNat, timer.maxDiff.toNat, timer.lastDiff.toNat⟩

/-! ## Single calls -/

namespace SimpleTimer

@[simp] theorem measure_recording (timer : SimpleTimer) (reading : UInt64) :
    (timer.measure reading).recording = timer.recording := rfl

@[simp] theorem awaitDelay_extremes (timer : SimpleTimer) (reading : UInt64) :
    (timer.awaitDelay reading).extremes = timer.extremes := by
  unfold awaitDelay
  split
  · rfl
  · split <;> rfl

/-- The reading that switches recording on is where the first interval begins. -/
theorem awaitDelay_lastCycleTime {timer : SimpleTimer} {reading : UInt64}
    (waiting : timer.recording = false)
    (switchedOn : (timer.awaitDelay reading).recording = true) :
    (timer.awaitDelay reading).lastCycleTime = reading := by
  unfold awaitDelay at switchedOn ⊢
  split at switchedOn
  next => exact absurd switchedOn (by simp [waiting])
  next started =>
    rw [if_neg started]
    split at switchedOn
    next delayed => rw [if_pos delayed]
    next => exact absurd switchedOn (by simp [waiting])

/-- The update of the statistics records the interval since the last reading. -/
theorem measure_extremes {timer : SimpleTimer} {reading : UInt64}
    (ordered : timer.lastCycleTime ≤ reading) :
    (timer.measure reading).extremes =
      timer.extremes.record (reading.toNat - timer.lastCycleTime.toNat) := by
  have diff : (reading - timer.lastCycleTime).toNat =
      reading.toNat - timer.lastCycleTime.toNat :=
    UInt64.toNat_sub_of_le _ _ ordered
  have zeroIff (word : UInt64) : word = 0 ↔ word.toNat = ⊥ := UInt64.toNat_inj.symm
  rw [← diff]
  simp only [measure, extremes, Extremes.record, apply_ite UInt64.toNat, gt_iff_lt,
    UInt64.lt_iff_toNat_lt, zeroIff]
  congr

end SimpleTimer

/-- A tick stops the interval that is open and starts the next one. -/
theorem CycleTimer.tick_eq_start_stop (timer : SimpleTimer) (reading : UInt64) :
    tick timer reading = PeriodTimer.start (PeriodTimer.stop timer reading) reading := by
  cases recording : timer.recording with
  | false => simp [tick, PeriodTimer.start, PeriodTimer.stop, recording]
  | true => simp [tick, PeriodTimer.start, PeriodTimer.stop, recording]

/-! ## Runs of `PeriodTimer` -/

namespace PeriodTimer

/-- The readings of the calls do not decrease. -/
def NonDecreasing (calls : List PeriodCall) : Prop :=
  calls.Pairwise fun earlier later => earlier.reading ≤ later.reading

instance (calls : List PeriodCall) : Decidable (NonDecreasing calls) :=
  inferInstanceAs (Decidable (calls.Pairwise _))

/-- A timer that is recording adds the intervals of the calls to those it has seen. -/
theorem run_of_recording {timer : SimpleTimer} {calls : List PeriodCall} {seen : List Nat}
    (recording : timer.recording = true)
    (recorded : timer.extremes = Extremes.recordAll seen)
    (since : ∀ call ∈ calls, timer.lastCycleTime ≤ call.reading)
    (ordered : NonDecreasing calls) :
    (run timer calls).extremes =
      Extremes.recordAll (seen ++ periodsAfter timer.lastCycleTime calls) := by
  induction calls generalizing timer seen with
  | nil => simpa [run, periodsAfter] using recorded
  | cons call rest ih =>
      obtain ⟨sinceCall, sinceRest⟩ := List.forall_mem_cons.mp since
      obtain ⟨callFirst, restOrdered⟩ := List.pairwise_cons.mp ordered
      cases call with
      | start reading =>
          have after : run timer (.start reading :: rest) =
              run { timer with lastCycleTime := reading } rest := by
            simp [run, PeriodCall.perform, start, recording]
          rw [after]
          exact ih recording recorded callFirst restOrdered
      | stop reading =>
          have after : run timer (.stop reading :: rest) =
              run (timer.measure reading) rest := by
            simp [run, PeriodCall.perform, stop, recording]
          have measured : (timer.measure reading).extremes =
              Extremes.recordAll (seen ++ [reading.toNat - timer.lastCycleTime.toNat]) := by
            have sinceReading : timer.lastCycleTime ≤ reading := sinceCall
            rw [SimpleTimer.measure_extremes sinceReading, recorded,
              Extremes.recordAll_concat]
          have stillRecording : (timer.measure reading).recording = true := recording
          have restRun := ih stillRecording measured sinceRest restOrdered
          rw [after, restRun, List.append_assoc]
          rfl

/-- The statistics of a timer that starts without any are those of the intervals since
recording began. -/
theorem run_extremes {timer : SimpleTimer} {calls : List PeriodCall}
    (waiting : timer.recording = false) (unset : timer.extremes = Extremes.fresh)
    (ordered : NonDecreasing calls) :
    (run timer calls).extremes = Extremes.recordAll (measured timer calls) := by
  induction calls generalizing timer with
  | nil => exact unset
  | cons call rest ih =>
      obtain ⟨callFirst, restOrdered⟩ := List.pairwise_cons.mp ordered
      cases call with
      | stop reading =>
          have same : stop timer reading = timer := by simp [stop, waiting]
          have restRun := ih waiting unset restOrdered
          simpa [run, measured, PeriodCall.perform, same, waiting] using restRun
      | start reading =>
          have after : start timer reading = timer.awaitDelay reading := by
            simp [start, waiting]
          have stillUnset : (start timer reading).extremes = Extremes.recordAll [] := by
            rw [after, SimpleTimer.awaitDelay_extremes, unset, Extremes.recordAll_nil]
          cases switchedOn : (start timer reading).recording with
          | false =>
              have restRun := ih switchedOn stillUnset restOrdered
              simpa [run, measured, PeriodCall.perform, switchedOn] using restRun
          | true =>
              have began : (start timer reading).lastCycleTime = reading := by
                rw [after] at switchedOn ⊢
                exact SimpleTimer.awaitDelay_lastCycleTime waiting switchedOn
              have restRun := run_of_recording switchedOn stillUnset
                (by rw [began]; exact callFirst) restOrdered
              rw [began, List.nil_append] at restRun
              simpa [run, measured, PeriodCall.perform, PeriodCall.reading, switchedOn]
                using restRun

end PeriodTimer

/-! ## Runs of `CycleTimer` -/

namespace CycleTimer

theorem run_eq_periods (timer : SimpleTimer) (readings : List UInt64) :
    run timer readings = PeriodTimer.run timer (readings.flatMap PeriodCall.ofTick) := by
  induction readings generalizing timer with
  | nil => rfl
  | cons reading rest ih =>
      have restRun := ih (tick timer reading)
      rw [tick_eq_start_stop] at restRun
      exact (congrArg (run · rest) (tick_eq_start_stop timer reading)).trans restRun

theorem gapsAfter_eq_periodsAfter (since : UInt64) (readings : List UInt64) :
    gapsAfter since readings =
      periodsAfter since (readings.flatMap PeriodCall.ofTick) := by
  induction readings generalizing since with
  | nil => rfl
  | cons reading rest ih => exact congrArg _ (ih reading)

theorem measured_eq_periods {timer : SimpleTimer} (waiting : timer.recording = false)
    (readings : List UInt64) :
    measured timer readings =
      PeriodTimer.measured timer (readings.flatMap PeriodCall.ofTick) := by
  induction readings generalizing timer with
  | nil => rfl
  | cons reading rest ih =>
      have stopped : PeriodTimer.stop timer reading = timer := by
        simp [PeriodTimer.stop, waiting]
      have ticked : tick timer reading = PeriodTimer.start timer reading := by
        rw [tick_eq_start_stop, stopped]
      simp only [List.flatMap_cons, PeriodCall.ofTick, List.cons_append, List.nil_append,
        measured, PeriodTimer.measured, PeriodCall.perform, PeriodCall.reading, stopped,
        waiting, ticked]
      cases switchedOn : (PeriodTimer.start timer reading).recording with
      | false => exact ih switchedOn
      | true => exact gapsAfter_eq_periodsAfter reading rest

theorem nonDecreasing_ofTick {readings : List UInt64}
    (ordered : readings.Pairwise (· ≤ ·)) :
    PeriodTimer.NonDecreasing (readings.flatMap PeriodCall.ofTick) := by
  refine List.pairwise_flatMap.mpr ⟨?_, ordered.imp ?_⟩
  · intro reading _
    simp [PeriodCall.ofTick, PeriodCall.reading]
  · intro earlier later le
    simp [PeriodCall.ofTick, PeriodCall.reading, le]

theorem run_extremes {timer : SimpleTimer} {readings : List UInt64}
    (waiting : timer.recording = false) (unset : timer.extremes = Extremes.fresh)
    (ordered : readings.Pairwise (· ≤ ·)) :
    (run timer readings).extremes = Extremes.recordAll (measured timer readings) := by
  rw [run_eq_periods, measured_eq_periods waiting]
  exact PeriodTimer.run_extremes waiting unset (nonDecreasing_ofTick ordered)

end CycleTimer

/-- Once an interval is measured, the statistics of either timer are the true ones if and
only if no interval had length 0 or the last one has. -/
theorem statistics_accurate_iff (startDelay : Int64) :
    (∀ readings : List UInt64, readings.Pairwise (· ≤ ·) →
      CycleTimer.measured (.new startDelay) readings ≠ [] →
      ((CycleTimer.run (.new startDelay) readings).extremes.Accurate
          (CycleTimer.measured (.new startDelay) readings) ↔
        0 ∉ CycleTimer.measured (.new startDelay) readings ∨
          (CycleTimer.measured (.new startDelay) readings).getLast? = some 0)) ∧
    ∀ calls : List PeriodCall, PeriodTimer.NonDecreasing calls →
      PeriodTimer.measured (.new startDelay) calls ≠ [] →
      ((PeriodTimer.run (.new startDelay) calls).extremes.Accurate
          (PeriodTimer.measured (.new startDelay) calls) ↔
        0 ∉ PeriodTimer.measured (.new startDelay) calls ∨
          (PeriodTimer.measured (.new startDelay) calls).getLast? = some 0) := by
  constructor
  · intro readings ordered nonempty
    rw [CycleTimer.run_extremes rfl rfl ordered]
    exact Extremes.recordAll_accurate_iff nonempty
  · intro calls ordered nonempty
    rw [PeriodTimer.run_extremes rfl rfl ordered]
    exact Extremes.recordAll_accurate_iff nonempty

/-- Ticks at 1, 2, 4 and 9 measure 2 and 5.  Two periods, of which the delay leaves the
second, measure 4. -/
theorem typical_statistics_accurate :
    (CycleTimer.run (.new 0) [1, 2, 4, 9]).extremes.Accurate [2, 5] ∧
      (PeriodTimer.run (.new 0) [.start 1, .stop 2, .start 3, .stop 7]).extremes.Accurate
        [4] :=
  ⟨((statistics_accurate_iff 0).1 [1, 2, 4, 9] (by decide) (by decide)).mpr (by decide),
    ((statistics_accurate_iff 0).2 [.start 1, .stop 2, .start 3, .stop 7] (by decide)
      (by decide)).mpr (by decide)⟩

/-- Two readings in one microsecond, and then a later one: the interval of length 0 is
forgotten. -/
theorem zero_interval_forgotten :
    ((CycleTimer.run (.new 0) [1, 2, 2, 7]).minDiff = 5 ∧
      CycleTimer.measured (.new 0) [1, 2, 2, 7] = [0, 5] ∧
      ¬ (CycleTimer.run (.new 0) [1, 2, 2, 7]).extremes.Accurate [0, 5]) ∧
    (PeriodTimer.run (.new 0) [.start 1, .stop 1, .start 3, .stop 3, .start 4, .stop 9]).minDiff
        = 5 ∧
      PeriodTimer.measured (.new 0) [.start 1, .stop 1, .start 3, .stop 3, .start 4, .stop 9]
        = [0, 5] ∧
      ¬ (PeriodTimer.run (.new 0)
          [.start 1, .stop 1, .start 3, .stop 3, .start 4, .stop 9]).extremes.Accurate [0, 5] := by
  have notLeast : ¬ IsLeast {interval : Nat | interval ∈ [0, 5]} 5 := fun least =>
    absurd (least.2 (List.mem_cons_self : 0 ∈ [0, 5])) (by decide)
  refine ⟨⟨by decide, by decide, ?_⟩, by decide, by decide, ?_⟩
  · exact fun accurate => notLeast accurate.least
  · exact fun accurate => notLeast accurate.least

end PriorityExecutor
