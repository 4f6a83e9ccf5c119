import Mathlib.Order.Bounds.Basic
import PriorityExecutor.Strategy.DispatchSafety

/-!
# The release time of a chain

The first executable of a `DEADLINE` chain keeps the next release of its timer
in `release_time`.  A run here is any number of its dispatches; everything else
in the strategy may change between two of them.

Two readings of the same update are compared.  Against the clock: a dispatch
leaves the release within two periods of the clock exactly when it came no more
than one period early.  Against the rcl timer: as long as the timer is dispatched
when it is ready, `release_time` and the timer's next call are the same instant.

Both need the number of periods to fit an `int`; a dispatch that comes 2^31 periods
late has no defined result.  The deques hold a `uint`, so the value that is pushed is
the deadline only below 2^32.
-/

namespace PriorityExecutor

namespace Strategy

/-- `handle` is the first executable of a `DEADLINE` chain with these parameters. -/
def FirstInChain (strategy : Strategy) (handle : Handle) (period deadline : Int) : Prop :=
  ∃ executable, strategy.priorityMap handle = some executable ∧
    executable.schedType = .deadline ∧ executable.isFirstInChain = true ∧
    executable.period = period ∧ executable.deadline = deadline

/-- `current` comes from `before` by rounds, which change the flag of `handle`, and by
dispatches of others, which may change every other part of the strategy. -/
def SameTimer (handle : Handle) (before current : Strategy) : Prop :=
  ∃ flag, current.priorityMap handle = (before.priorityMap handle).map
    fun executable => { executable with canBeRun := flag }

theorem SameTimer.refl (handle : Handle) (strategy : Strategy) :
    SameTimer handle strategy strategy := by
  cases entry : strategy.priorityMap handle with
  | none => exact ⟨true, by rw [entry, Option.map_none]⟩
  | some executable => exact ⟨executable.canBeRun, by rw [entry, Option.map_some]⟩

theorem SameTimer.firstInChain {handle : Handle} {before current : Strategy}
    {period deadline : Int} (same : SameTimer handle before current)
    (first : before.FirstInChain handle period deadline) :
    current.FirstInChain handle period deadline := by
  rcases same with ⟨flag, entryEq⟩
  rcases first with ⟨executable, entry, rest⟩
  rw [entry] at entryEq
  exact ⟨_, entryEq, rest⟩

theorem SameTimer.releaseTimeOf {handle : Handle} {before current : Strategy}
    (same : SameTimer handle before current) :
    current.releaseTimeOf handle = before.releaseTimeOf handle := by
  rcases same with ⟨flag, entryEq⟩
  cases entry : before.priorityMap handle with
  | none => simp [Strategy.releaseTimeOf, entryEq, entry]
  | some executable => simp [Strategy.releaseTimeOf, entryEq, entry]

end Strategy

/-- One dispatch of a timer that returned: the release recorded before it, the clock it
reads, the release recorded after it, and the value it pushed. -/
structure Dispatch where
  before : Int
  now : Int
  after : Int
  pushed : Nat
  deriving DecidableEq, Repr

/-- The dispatch of `handle` in `current` returns. -/
def Dispatch.Returns (dispatch : Dispatch) (handle : Handle) (input : DispatchInput)
    (current after : Strategy) : Prop :=
  input.millis = dispatch.now ∧
    current.releaseTimeOf handle = some dispatch.before ∧
    current.bookkeeping input handle = .ok after ∧
    after.releaseTimeOf handle = some dispatch.after ∧
    ∃ executable released pushed, current.priorityMap handle = some executable ∧
      current.releaseStage input { executable with sum := executable.sum + 1 } =
        .ok (released, pushed) ∧
      current.Pushes input executable dispatch.pushed pushed

/-- A dispatch of `handle`, with anything done to the rest since the previous one. -/
def TimerStep (handle : Handle) (before : Strategy) (dispatch : Dispatch)
    (after : Strategy) : Prop :=
  ∃ (current : Strategy) (input : DispatchInput),
    before.SameTimer handle current ∧ dispatch.Returns handle input current after

theorem TimerStep.of_returns {handle : Handle} {before after : Strategy}
    {dispatch : Dispatch} (input : DispatchInput)
    (returns : dispatch.Returns handle input before after) :
    TimerStep handle before dispatch after :=
  ⟨before, input, .refl handle before, returns⟩

section Update

variable {handle : Handle} {current before after : Strategy} {input : DispatchInput}
  {dispatch : Dispatch} {period deadline : Int}

/-- What one dispatch does to the release, and what it pushes. -/
theorem Dispatch.Returns.update (returns : dispatch.Returns handle input current after)
    (first : current.FirstInChain handle period deadline) :
    after.FirstInChain handle period deadline ∧
      dispatch.pushed = toUint (dispatch.after + deadline) ∧
      ∃ executable : PriorityExecutable, executable.period = period ∧
        executable.nextRelease dispatch.now dispatch.before = .ok dispatch.after := by
  rcases returns with ⟨clock, recorded, result, written, own, released, deques, ownEntry,
    stage, pushes⟩
  rcases first with ⟨executable, entry, schedType, isFirst, periodEq, deadlineEq⟩
  cases ownEntry.symm.trans entry
  rcases Strategy.bookkeeping_first entry schedType isFirst result with
    ⟨release, index, next, _, _, releaseEq, _, nextEq, stage', pushes', _, entryAfter⟩
  have beforeEq : release = dispatch.before := by
    simpa [Strategy.releaseTimeOf, entry, releaseEq] using recorded
  have afterEq : next = dispatch.after := by
    simpa [Strategy.releaseTimeOf, entryAfter, PriorityExecutable.afterDispatch] using written
  cases stage.symm.trans stage'
  subst beforeEq afterEq periodEq deadlineEq
  refine ⟨⟨_, entryAfter, schedType, isFirst, rfl, rfl⟩, pushes.unique pushes', own, rfl, ?_⟩
  rwa [← clock]

theorem TimerStep.firstInChain (step : TimerStep handle before dispatch after)
    (first : before.FirstInChain handle period deadline) :
    after.FirstInChain handle period deadline := by
  rcases step with ⟨current, input, same, returns⟩
  exact (returns.update (same.firstInChain first)).1

/-- With the deques in place a dispatch returns if its update does. -/
theorem Strategy.Accessible.exists_returns {lengths : DequesPtr → Nat} {shared : Option Nat}
    (accessible : current.Accessible lengths shared) (positive : 1 ≤ period)
    (first : current.FirstInChain handle period deadline) {release : Int}
    (recorded : current.releaseTimeOf handle = some release)
    (near : |input.millis - release| < 2 ^ 53)
    (spans : |input.millis - release| ≤ (2 ^ 31 - 1) * period) :
    ∃ (dispatch : Dispatch) (after : Strategy),
      dispatch.Returns handle input current after ∧ dispatch.now = input.millis ∧
        dispatch.before = release ∧
        dispatch.after = followingRelease period release input.millis := by
  rcases first with ⟨executable, entry, schedType, isFirst, periodEq, _⟩
  have releaseTime : executable.releaseTime = some release := by
    simpa [Strategy.releaseTimeOf, entry] using recorded
  have nextEq : executable.nextRelease input.millis release =
      .ok (followingRelease period release input.millis) := by
    subst periodEq
    exact PriorityExecutable.nextRelease_eq (by omega) near spans
  cases result : current.bookkeeping input handle with
  | error fault =>
      rcases accessible.bookkeeping_clock entry result with ⟨_, _, found, foundEq, failed⟩
      cases releaseTime.symm.trans foundEq
      rw [nextEq] at failed
      cases failed
  | ok after =>
      rcases Strategy.bookkeeping_first entry schedType isFirst result with
        ⟨found, _, next, _, _, foundEq, _, nextEq', stage, pushes, _, entryAfter⟩
      cases releaseTime.symm.trans foundEq
      cases nextEq.symm.trans nextEq'
      have written : after.releaseTimeOf handle =
          some (followingRelease period release input.millis) := by
        rw [Strategy.releaseTimeOf, entryAfter]
        rfl
      exact ⟨⟨release, input.millis, _, _⟩, after, ⟨rfl, recorded, result, written, _, _, _,
        entry, stage, pushes⟩, rfl, rfl, rfl⟩

end Update

/-! ## Against the clock -/

/-- A dispatch moves the release by a positive number of periods, to between the
clock and two periods after it, and the deadline it pushes is at most two periods
and the relative deadline ahead of the clock. -/
def Dispatch.InBand (dispatch : Dispatch) (period deadline : Int) : Prop :=
  (∃ periods : Int, 1 ≤ periods ∧ dispatch.after = dispatch.before + periods * period) ∧
    dispatch.now ≤ dispatch.after ∧ dispatch.after ≤ dispatch.now + 2 * period ∧
    dispatch.pushed = toUint (dispatch.after + deadline) ∧
    (dispatch.pushed : Int) ≤ dispatch.now + (2 * period + deadline)

/-- The recorded release is no more than one period ahead of the clock, and its distance to
the clock is one that the update can count in periods. -/
def ReleaseOnTime (period release now : Int) : Prop :=
  |now - release| < 2 ^ 53 ∧ now - (2 ^ 31 - 1) * period ≤ release ∧ release ≤ now + period

theorem ReleaseOnTime.spans {period release now : Int} (positive : 1 ≤ period)
    (onTime : ReleaseOnTime period release now) : |now - release| ≤ (2 ^ 31 - 1) * period := by
  rcases onTime with ⟨_, late, early⟩
  rw [abs_le]
  constructor
  · linarith only [early, positive]
  · linarith only [late]

/-- The update stays in the band exactly when the recorded release is no more
than one period ahead of the clock.  Further ahead, the absolute difference makes
the update add the distance once more. -/
theorem followingRelease_in_band_iff {period release now : Int} (positive : 1 ≤ period) :
    now ≤ followingRelease period release now ∧
        followingRelease period release now ≤ now + 2 * period ↔
      release ≤ now + period := by
  have periodPos : 0 < period := by omega
  rcases followingRelease_cases periodPos release now with
    ⟨periods, onePeriod, following, distanceCases⟩
  rw [following]
  constructor
  · rintro ⟨_, upper⟩
    by_contra early
    have distance : |now - release| = release - now := by
      rw [abs_sub_comm, abs_of_pos (by omega)]
    rcases distanceCases with ⟨near, _⟩ | ⟨_, _, spans⟩
    · omega
    · rw [distance] at spans
      omega
  · intro notEarly
    rcases distanceCases with ⟨near, rfl⟩ | ⟨far, least, spans⟩
    · rw [abs_lt] at near
      omega
    · rcases le_or_gt release now with late | early
      · rw [abs_of_nonneg (by omega)] at least spans
        have expanded : (periods - 1) * period = periods * period - period := by ring
        omega
      · rw [abs_sub_comm, abs_of_pos (by omega)] at far least
        have exact : periods = 1 := by
          by_contra more
          have : 1 * period ≤ (periods - 1) * period :=
            mul_le_mul_of_nonneg_right (by omega) (by omega)
          omega
        subst periods
        omega

/-- The value pushed for an instant that is not negative is at most that instant. -/
theorem toUint_le {value : Int} (nonneg : 0 ≤ value) : (toUint value : Int) ≤ value := by
  unfold toUint
  omega

section Band

variable {handle : Handle} {current after : Strategy} {input : DispatchInput}
  {dispatch : Dispatch} {period deadline release : Int}

/-- A dispatch that finds the release on time returns and stays in the band. -/
theorem ReleaseOnTime.exists_inBand {lengths : DequesPtr → Nat} {shared : Option Nat}
    (onTime : ReleaseOnTime period release input.millis) (positive : 1 ≤ period)
    (deadlinePos : 1 ≤ deadline) (first : current.FirstInChain handle period deadline)
    (accessible : current.Accessible lengths shared)
    (recorded : current.releaseTimeOf handle = some release) (clock : 0 ≤ input.millis) :
    ∃ (dispatch : Dispatch) (after : Strategy),
      dispatch.Returns handle input current after ∧ dispatch.InBand period deadline := by
  rcases accessible.exists_returns positive first recorded onTime.1
    (onTime.spans positive) with ⟨dispatch, after, returns, nowEq, beforeEq, afterEq⟩
  have periodPos : 0 < period := by omega
  rcases followingRelease_cases periodPos release input.millis with
    ⟨periods, onePeriod, following, _⟩
  have band := (followingRelease_in_band_iff positive).mpr onTime.2.2
  rw [← afterEq, ← nowEq] at band
  rw [← nowEq] at clock
  have pushed : dispatch.pushed = toUint (dispatch.after + deadline) :=
    (returns.update first).2.1
  have stored : (toUint (dispatch.after + deadline) : Int) ≤ dispatch.after + deadline :=
    toUint_le (by omega)
  refine ⟨dispatch, after, returns, ?_, band.1, band.2, pushed, ?_⟩
  · exact ⟨periods, onePeriod, by rw [afterEq, beforeEq, following]⟩
  · rw [pushed]
    omega

/-- A dispatch that returns and stays in the band has found the release on time. -/
theorem Dispatch.InBand.onTime (inBand : dispatch.InBand period deadline)
    (returns : dispatch.Returns handle input current after) (positive : 1 ≤ period)
    (first : current.FirstInChain handle period deadline)
    (recorded : current.releaseTimeOf handle = some release)
    (near : |input.millis - release| < 2 ^ 53) :
    ReleaseOnTime period release input.millis := by
  rcases (returns.update first).2.2 with ⟨executable, rfl, update⟩
  rcases returns with ⟨nowEq, beforeEq, _⟩
  cases recorded.symm.trans beforeEq
  rw [nowEq] at near ⊢
  rcases PriorityExecutable.nextRelease_eq_ok (by omega) near update with
    ⟨following, spans⟩
  have notEarly : dispatch.before ≤ dispatch.now + executable.period := by
    apply (followingRelease_in_band_iff positive).mp
    rw [← following]
    exact ⟨inBand.2.1, inBand.2.2.1⟩
  rw [abs_le] at spans
  exact ⟨near, by omega, notEarly⟩

end Band

/-- In every run of dispatches, the next one returns and stays in the band if it finds the
release on time, and otherwise it does not. -/
theorem release_in_band_iff {handle : Handle} {start before current : Strategy}
    {dispatches : List Dispatch} {input : DispatchInput} {period deadline release : Int}
    {lengths : DequesPtr → Nat} {shared : Option Nat} (positive : 1 ≤ period)
    (deadlinePos : 1 ≤ deadline) (first : start.FirstInChain handle period deadline)
    (run : Steps (TimerStep handle) start dispatches before)
    (same : before.SameTimer handle current) (accessible : current.Accessible lengths shared)
    (recorded : current.releaseTimeOf handle = some release) (clock : 0 ≤ input.millis) :
    (ReleaseOnTime period release input.millis →
      ∃ (dispatch : Dispatch) (after : Strategy),
        dispatch.Returns handle input current after ∧ dispatch.InBand period deadline) ∧
    (|input.millis - release| < 2 ^ 53 →
      ∀ (dispatch : Dispatch) (after : Strategy),
        dispatch.Returns handle input current after → dispatch.InBand period deadline →
        ReleaseOnTime period release input.millis) := by
  have firstNow : current.FirstInChain handle period deadline :=
    same.firstInChain (run.invariant (fun strategy =>
      strategy.FirstInChain handle period deadline) first
        fun held step => step.firstInChain held)
  constructor
  · intro onTime
    exact onTime.exists_inBand positive deadlinePos firstNow accessible recorded clock
  · intro near dispatch after returns inBand
    exact inBand.onTime returns positive firstNow recorded near

/-! A timer on which the results are tried: its chain has two deques. -/

def pendingTimer (period release : Int) : Strategy where
  priorityMap := Function.update (fun _ => none) 0 (some
    { PriorityExecutable.ofDeadline period (2 * period) .timer .deadline with
      isFirstInChain := true, releaseTime := some release, deadlines := some 0 })
  deques := fun _ => [[toUint (release + 2 * period)], []]

theorem pendingTimer_first (period release : Int) :
    (pendingTimer period release).FirstInChain 0 period (2 * period) :=
  ⟨_, rfl, rfl, rfl, rfl, rfl⟩

theorem pendingTimer_accessible (release : Int) :
    (pendingTimer 10 release).Accessible (fun _ => 2) none where
  vectors _ := rfl
  isF1tenth := rfl
  entries := by
    intro handle executable entry
    simp only [pendingTimer, Function.update_apply] at entry
    split at entry
    · cases entry
      exact ⟨fun _ => ⟨0, rfl, rfl, Nat.zero_lt_two, Int.sign_eq_one_iff_pos.mp rfl, fun _ => rfl⟩,
        nofun, nofun⟩
    · cases entry

/-- A timer that three threads select at the instant of its release, before any
of them has called it: the third selection leaves the release 40 ahead. -/
theorem release_runs_away :
    (pendingTimer 10 0).FirstInChain 0 10 20 ∧
      (pendingTimer 10 0).Accessible (fun _ => 2) none ∧
      (∃ stop, Steps (TimerStep 0) (pendingTimer 10 0)
        [⟨0, 0, 10, 30⟩, ⟨10, 0, 20, 40⟩, ⟨20, 0, 40, 60⟩] stop) ∧
      ¬ Dispatch.InBand ⟨20, 0, 40, 60⟩ 10 20 := by
  have run : ∃ stop, Steps (TimerStep 0) (pendingTimer 10 0)
      [⟨0, 0, 10, 30⟩, ⟨10, 0, 20, 40⟩, ⟨20, 0, 40, 60⟩] stop :=
    ⟨_, .snoc
      (.snoc
        (.singleton (.of_returns { millis := 0 }
          ⟨rfl, rfl, rfl, rfl, _, _, _, rfl, rfl, _, _, rfl, rfl, rfl⟩))
        (.of_returns { millis := 0 }
          ⟨rfl, rfl, rfl, rfl, _, _, _, rfl, rfl, _, _, rfl, rfl, rfl⟩))
      (.of_returns { millis := 0 }
          ⟨rfl, rfl, rfl, rfl, _, _, _, rfl, rfl, _, _, rfl, rfl, rfl⟩)⟩
  refine ⟨pendingTimer_first 10 0, pendingTimer_accessible 0, run, ?_⟩
  rintro ⟨_, _, upper, _⟩
  simp at upper

/-- The same timer dispatched once in time and then 37 milliseconds late. -/
theorem release_in_band_iff_late :
    ∃ before, Steps (TimerStep 0) (pendingTimer 10 0) [⟨0, 0, 10, 30⟩] before ∧
      ∃ (dispatch : Dispatch) (after : Strategy),
        dispatch.Returns 0 { millis := 47 } before after ∧ dispatch.InBand 10 20 := by
  have runs : ∃ before, Dispatch.Returns ⟨0, 0, 10, 30⟩ 0 { millis := 0 }
      (pendingTimer 10 0) before :=
    ⟨_, rfl, rfl, rfl, rfl, _, _, _, rfl, rfl, _, _, rfl, rfl, rfl⟩
  rcases runs with ⟨before, returns⟩
  have run : Steps (TimerStep 0) (pendingTimer 10 0) [⟨0, 0, 10, 30⟩] before :=
    .singleton (.of_returns _ returns)
  have accessible := (pendingTimer_accessible 0).bookkeeping returns.2.2.1
  have onTime : ReleaseOnTime 10 10 47 := ⟨by decide, by decide, by decide⟩
  have clock : 0 ≤ DispatchInput.millis { millis := 47 } := by decide
  have inBand := (release_in_band_iff (by decide) (by decide) (pendingTimer_first 10 0) run
    (.refl 0 before) accessible returns.2.2.2.1 clock).1 onTime
  exact ⟨before, run, inBand⟩

/-! ## Against the rcl timer -/

/-- The documented rule of a timer call at `now`: the timer must be ready, its
next call moves by one period, and if that is past already, by the least whole
number of further periods that makes it no longer past. -/
def RclTimerCall (period now nextCall after : Int) : Prop :=
  nextCall ≤ now ∧ ∃ further : Nat,
    IsLeast {blocks : Nat | now ≤ nextCall + period + blocks * period} further ∧
      after = nextCall + period + further * period

/-- The lateness of a call is one that can be counted in periods, and the deadline of the
call after it is a `uint`. -/
def CallFits (period deadline now nextCall after : Int) : Prop :=
  now - nextCall < 2 ^ 53 ∧ now - nextCall ≤ (2 ^ 31 - 1) * period ∧
    0 ≤ after + deadline ∧ after + deadline < 2 ^ 32

/-- A dispatch of the chain's timer together with the call it leads to. -/
def TimerCallStep (handle : Handle) (period deadline : Int) (before : Strategy × Int)
    (dispatch : Dispatch) (after : Strategy × Int) : Prop :=
  TimerStep handle before.1 dispatch after.1 ∧
    RclTimerCall period dispatch.now before.2 after.2 ∧
    CallFits period deadline dispatch.now before.2 after.2

/-- The two catch-up rules agree at every lateness. -/
theorem followingRelease_eq_call {period now nextCall after : Int} (positive : 1 ≤ period)
    (call : RclTimerCall period now nextCall after) :
    followingRelease period nextCall now = after := by
  rcases call with ⟨ready, further, ⟨covers, least⟩, rfl⟩
  have periodPos : 0 < period := by omega
  rcases followingRelease_cases periodPos nextCall now with
    ⟨periods, onePeriod, following, distanceCases⟩
  have late : |now - nextCall| = now - nextCall := abs_of_nonneg (by omega)
  rw [late] at distanceCases
  rw [Set.mem_ofPred_eq] at covers
  have enough : now ≤ nextCall + period + (periods - 1).toNat * period := by
    rw [Int.toNat_of_nonneg (by omega), sub_one_mul]
    rcases distanceCases with ⟨near, rfl⟩ | ⟨_, _, spans⟩ <;> omega
  have upper : (further : Int) ≤ periods - 1 := by
    have := least enough
    omega
  have lower : periods - 1 ≤ (further : Int) := by
    rcases distanceCases with ⟨_, rfl⟩ | ⟨_, short, _⟩
    · omega
    · by_contra fewer
      have : ((further : Int) + 1) * period ≤ (periods - 1) * period :=
        mul_le_mul_of_nonneg_right (by omega) (by omega)
      linarith [add_one_mul (further : Int) period]
  have exact : periods = further + 1 := by omega
  rw [following, exact]
  ring

/-- What a dispatch of a ready timer keeps: the recorded release is the timer's
next call. -/
def SameRelease (handle : Handle) (period deadline : Int) (state : Strategy × Int) : Prop :=
  state.1.FirstInChain handle period deadline ∧
    state.1.releaseTimeOf handle = some state.2

/-- A dispatch that finds the timer's next call in `release_time` leaves the following call
there and pushes its deadline. -/
def Dispatch.Simulates (dispatch : Dispatch) (deadline nextCall after : Int) : Prop :=
  dispatch.before = nextCall ∧ dispatch.after = after ∧
    (dispatch.pushed : Int) = after + deadline

theorem TimerCallStep.keeps {handle : Handle} {period deadline : Int}
    (positive : 1 ≤ period) {before after : Strategy × Int} {dispatch : Dispatch}
    (same : SameRelease handle period deadline before)
    (step : TimerCallStep handle period deadline before dispatch after) :
    SameRelease handle period deadline after := by
  rcases step with ⟨⟨current, input, sameTimer, returns⟩, call, ⟨near, _⟩⟩
  rcases returns.update (sameTimer.firstInChain same.1) with
    ⟨first, _, executable, rfl, update⟩
  rcases returns with ⟨_, releaseBefore, _, releaseAfter, _⟩
  rw [sameTimer.releaseTimeOf] at releaseBefore
  have beforeEq : dispatch.before = before.2 :=
    Option.some.inj (releaseBefore.symm.trans same.2)
  rw [beforeEq] at update
  have distance : |dispatch.now - before.2| < 2 ^ 53 := by
    rwa [abs_of_nonneg (sub_nonneg.mpr call.1)]
  have following := (PriorityExecutable.nextRelease_eq_ok (by omega) distance update).1
  rw [following, followingRelease_eq_call positive call] at releaseAfter
  exact ⟨first, releaseAfter⟩

section Call

variable {handle : Handle} {current after : Strategy} {input : DispatchInput}
  {dispatch : Dispatch} {period deadline called nextCall : Int}

/-- A dispatch whose call fits returns, leaves the following call in `release_time` and
pushes its deadline. -/
theorem CallFits.exists_simulates {lengths : DequesPtr → Nat} {shared : Option Nat}
    (fits : CallFits period deadline input.millis called nextCall) (positive : 1 ≤ period)
    (first : current.FirstInChain handle period deadline)
    (accessible : current.Accessible lengths shared)
    (recorded : current.releaseTimeOf handle = some called)
    (call : RclTimerCall period input.millis called nextCall) :
    ∃ (dispatch : Dispatch) (after : Strategy),
      dispatch.Returns handle input current after ∧
        dispatch.Simulates deadline called nextCall := by
  rcases fits with ⟨near, spans, nonneg, upper⟩
  rw [← abs_of_nonneg (sub_nonneg.mpr call.1)] at near spans
  rcases accessible.exists_returns positive first recorded near spans with
    ⟨dispatch, after, returns, _, beforeEq, afterEq⟩
  rw [followingRelease_eq_call positive call] at afterEq
  refine ⟨dispatch, after, returns, beforeEq, afterEq, ?_⟩
  rw [(returns.update first).2.1, afterEq]
  exact toUint_of_range nonneg upper

/-- A dispatch that returns and follows the timer had a call that fits. -/
theorem Dispatch.Simulates.fits (simulates : dispatch.Simulates deadline called nextCall)
    (returns : dispatch.Returns handle input current after) (positive : 1 ≤ period)
    (first : current.FirstInChain handle period deadline)
    (call : RclTimerCall period input.millis called nextCall)
    (near : input.millis - called < 2 ^ 53) :
    CallFits period deadline input.millis called nextCall := by
  rcases simulates with ⟨beforeEq, afterEq, pushed⟩
  have late : |input.millis - called| = input.millis - called :=
    abs_of_nonneg (sub_nonneg.mpr call.1)
  rcases (returns.update first).2 with ⟨stored, executable, rfl, update⟩
  rw [← returns.1, beforeEq] at update
  rw [← late] at near
  have spans := (PriorityExecutable.nextRelease_eq_ok (by omega) near update).2
  rw [late] at near spans
  rw [stored, afterEq] at pushed
  refine ⟨near, spans, ?_⟩
  unfold toUint at pushed
  omega

end Call

/-- Along every run of dispatches of a ready timer whose calls fit, `release_time` is the
timer's next call, and one more dispatch returns, leaves the following call there and pushes
its deadline exactly when its call fits as well. -/
theorem release_simulates_timer {handle : Handle} {period deadline : Int}
    {start before : Strategy × Int} {dispatches : List Dispatch} {current : Strategy}
    {input : DispatchInput} {nextCall : Int} {lengths : DequesPtr → Nat}
    {shared : Option Nat} (positive : 1 ≤ period)
    (first : start.1.FirstInChain handle period deadline)
    (shares : start.1.releaseTimeOf handle = some start.2)
    (run : Steps (TimerCallStep handle period deadline) start dispatches before)
    (same : before.1.SameTimer handle current) (accessible : current.Accessible lengths shared)
    (call : RclTimerCall period input.millis before.2 nextCall) :
    before.1.releaseTimeOf handle = some before.2 ∧
    (CallFits period deadline input.millis before.2 nextCall →
      ∃ (dispatch : Dispatch) (after : Strategy),
        dispatch.Returns handle input current after ∧
          dispatch.Simulates deadline before.2 nextCall) ∧
    (input.millis - before.2 < 2 ^ 53 →
      ∀ (dispatch : Dispatch) (after : Strategy),
        dispatch.Returns handle input current after →
        dispatch.Simulates deadline before.2 nextCall →
        CallFits period deadline input.millis before.2 nextCall) := by
  have shared : SameRelease handle period deadline before :=
    run.invariant (SameRelease handle period deadline) ⟨first, shares⟩
      (TimerCallStep.keeps positive)
  have firstNow := same.firstInChain shared.1
  have recorded : current.releaseTimeOf handle = some before.2 :=
    same.releaseTimeOf.trans shared.2
  refine ⟨shared.2, ?_, ?_⟩
  · intro fits
    exact fits.exists_simulates positive firstNow accessible recorded call
  · intro near dispatch after returns simulates
    exact simulates.fits returns positive firstNow call near

/-- A timer of period 10, called on time and then 37 late. -/
theorem release_simulates_timer_late :
    ∃ before : Strategy × Int,
      Steps (TimerCallStep 0 10 20) (pendingTimer 10 0, 0) [⟨0, 0, 10, 30⟩] before ∧
      ∃ (dispatch : Dispatch) (after : Strategy),
        dispatch.Returns 0 { millis := 47 } before.1 after ∧ dispatch.Simulates 20 10 50 := by
  have onTime : RclTimerCall 10 0 0 10 :=
    ⟨le_refl 0, 0, ⟨by simp, fun _ _ => Nat.zero_le _⟩, rfl⟩
  have onTimeFits : CallFits 10 20 0 0 10 := ⟨by decide, by decide, by decide, by decide⟩
  have runs : ∃ before, Dispatch.Returns ⟨0, 0, 10, 30⟩ 0 { millis := 0 }
      (pendingTimer 10 0) before :=
    ⟨_, rfl, rfl, rfl, rfl, _, _, _, rfl, rfl, _, _, rfl, rfl, rfl⟩
  rcases runs with ⟨before, returns⟩
  have run : Steps (TimerCallStep 0 10 20) (pendingTimer 10 0, 0) [⟨0, 0, 10, 30⟩]
      (before, 10) :=
    .singleton ⟨.of_returns _ returns, onTime, onTimeFits⟩
  have accessible := (pendingTimer_accessible 0).bookkeeping returns.2.2.1
  have late : RclTimerCall 10 (DispatchInput.millis { millis := 47 }) 10 50 := by
    refine ⟨by decide, 3, ⟨by simp, ?_⟩, rfl⟩
    intro blocks covers
    change (47 : Int) ≤ 10 + 10 + blocks * 10 at covers
    omega
  have fits : CallFits 10 20 47 10 50 := ⟨by decide, by decide, by decide, by decide⟩
  have simulated := release_simulates_timer (by decide) (pendingTimer_first 10 0) rfl run
    (.refl 0 before) accessible late
  exact ⟨(before, 10), run, simulated.2.1 fits⟩

/-- After a pause of 214748365 periods the timer's next call is at 4294967290, and 14 is
pushed for the deadline 4294967310.  A timer that comes 2^31 periods late has no next
release. -/
theorem release_push_truncated :
    (pendingTimer 10 2147483640).FirstInChain 0 10 20 ∧
      (pendingTimer 10 2147483640).Accessible (fun _ => 2) none ∧
      RclTimerCall 10 4294967290 2147483640 4294967290 ∧
      (∃ after, Dispatch.Returns ⟨2147483640, 4294967290, 4294967290, 14⟩ 0
        { millis := 4294967290 } (pendingTimer 10 2147483640) after) ∧
      ¬ Dispatch.Simulates ⟨2147483640, 4294967290, 4294967290, 14⟩ 20 2147483640
        4294967290 ∧
      (pendingTimer 10 0).bookkeeping { millis := 21474836480 } 0 = .error .intConversion := by
  refine ⟨pendingTimer_first 10 _, pendingTimer_accessible _, ?_, ?_, ?_, rfl⟩
  · refine ⟨by decide, 214748364, ⟨by decide, ?_⟩, by decide⟩
    intro blocks covers
    rw [Set.mem_ofPred_eq] at covers
    omega
  · exact ⟨_, rfl, rfl, rfl, rfl, _, _, _, rfl, rfl, _, _, rfl, rfl, rfl⟩
  · rintro ⟨_, _, pushed⟩
    simp at pushed

end PriorityExecutor
