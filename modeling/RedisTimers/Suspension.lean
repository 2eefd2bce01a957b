/-
  File:      RedisTimers/Suspension.lean
  Subject:   WHEN THE POLL LOOP GIVES THE THREAD AWAY (subscriber/usecase.py: _consume, _get_msgs;
             subscriber/schedule.py). The handler tasks that hold the limiter move only while the
             loop is suspended: in `due`, or in the sleep at the end of an iteration.

  Configurations carry floats here, the special ones included. What `due` comes to, the limiter
  and the jitter are arbitrary; the limiter stands still over an iteration that does not suspend.

  * `FloatSchedule` -- `PollSchedule` on floats; `delayAfterFetch_finite` connects the two;
  * `Iteration`, `iterate` -- one pass through the loop, and whether it suspends;
  * `LoopRun` -- the endless runs of the loop;
  * `suspends_iff` -- an iteration fails to suspend exactly if it is back-pressured with a zero
    polling interval; `loop_suspends_iff` -- so that value alone makes the loop spin.
-/
import RedisTimers.Poll
import RedisTimers.Schemas

namespace RedisTimers

open Replay

/-! ## 1. The schedule on floats -/

structure FloatSchedule where
  base : PyFloat
  maxIdle : PyFloat
  idleCount : Nat
  errorAttempt : Nat
  deriving DecidableEq

namespace FloatSchedule

/-- The schedule `_consume` makes. -/
def fresh (a : TimerSubFields) : FloatSchedule := ⟨a.pollingInterval, a.maxPollingInterval, 0, 0⟩

/-- `delay_after_fetch`, with the draw of `self._jitter`. -/
def delayAfterFetch (s : FloatSchedule) (count : Int) (jitter : ℚ) : PyFloat × FloatSchedule :=
  if count > 0 then (.finite 0, { s with errorAttempt := 0, idleCount := 0 })
  else if count = 0 then
    let idleCount := min (s.idleCount + 1) maxExponent
    (((s.base.mul (.finite (2 ^ (idleCount - 1)))).mul (.finite jitter)).pyMin s.maxIdle,
      { s with errorAttempt := 0, idleCount := idleCount })
  else (s.base, { s with errorAttempt := 0 })

/-- `delay_after_error`. -/
def delayAfterError (s : FloatSchedule) (jitter : ℚ) : PyFloat × FloatSchedule :=
  let errorAttempt := min (s.errorAttempt + 1) maxExponent
  ((PyFloat.mul (.finite (2 ^ (errorAttempt - 1))) (.finite jitter)).pyMin (.finite maxErrorDelay),
    { s with errorAttempt := errorAttempt })

end FloatSchedule

/-- A schedule of rationals as one of floats. -/
def PollSchedule.toFloats (s : PollSchedule) : FloatSchedule :=
  ⟨.finite s.base, .finite s.maxIdle, s.idleCount, s.errorAttempt⟩

namespace FloatSchedule

/-- **On finite configurations the two schedules are one.** -/
theorem delayAfterFetch_finite (s : PollSchedule) (count : Int) (jitter : ℚ) :
    s.toFloats.delayAfterFetch count jitter =
      (.finite (s.delayAfterFetch count jitter).1, (s.delayAfterFetch count jitter).2.toFloats) := by
  unfold delayAfterFetch PollSchedule.delayAfterFetch PollSchedule.toFloats
  split
  · rfl
  · split
    · simp only [PyFloat.mul_finite, PyFloat.pyMin_finite]
    · rfl

theorem delayAfterError_finite (s : PollSchedule) (jitter : ℚ) :
    s.toFloats.delayAfterError jitter =
      (.finite (s.delayAfterError jitter).1, (s.delayAfterError jitter).2.toFloats) := by
  unfold delayAfterError PollSchedule.delayAfterError PollSchedule.toFloats
  simp only [PyFloat.mul_finite, PyFloat.pyMin_finite]

end FloatSchedule

/-! ## 2. One pass through the loop -/

/-- What becomes of the `due` call. -/
inductive DueCall where
  /-- Raised before anything was awaited: the broker has no client. -/
  | refused
  /-- Raised once awaited: by Redis, the connection, or `fail_after`. -/
  | raised
  | returned (count : Nat)
  deriving DecidableEq

/-- What one pass meets: the limiter, `due`, and the jitter. -/
structure Iteration where
  borrowed : Nat
  waiting : Nat
  due : DueCall
  jitter : ℚ
  deriving DecidableEq

/-- What one pass does: whether `due` was awaited, its delay, and the schedule it leaves. -/
structure Passed where
  awaited : Bool
  delay : PyFloat
  schedule : FloatSchedule
  deriving DecidableEq

/-- `free` of `_get_msgs`. -/
def Iteration.free (a : TimerSubFields) (i : Iteration) : Int :=
  a.maxConcurrent - i.borrowed - i.waiting

def Iteration.BackPressured (a : TimerSubFields) (i : Iteration) : Prop := i.free a ≤ 0

instance (a : TimerSubFields) (i : Iteration) : Decidable (i.BackPressured a) :=
  inferInstanceAs (Decidable (_ ≤ _))

/-- One pass through `while self.running`. -/
def iterate (a : TimerSubFields) (s : FloatSchedule) (i : Iteration) : Passed :=
  if i.BackPressured a then
    ⟨false, (s.delayAfterFetch (-1) i.jitter).1, (s.delayAfterFetch (-1) i.jitter).2⟩
  else match i.due with
    | .refused => ⟨false, (s.delayAfterError i.jitter).1, (s.delayAfterError i.jitter).2⟩
    | .raised => ⟨true, (s.delayAfterError i.jitter).1, (s.delayAfterError i.jitter).2⟩
    | .returned count =>
        ⟨true, (s.delayAfterFetch count i.jitter).1, (s.delayAfterFetch count i.jitter).2⟩

/-- `await anyio.sleep(delay)` is reached: `if delay`. For a negative or nan delay `anyio.sleep` may
    raise instead of sleeping; it stands outside the `try`, so that ends the loop: it never spins. -/
def Passed.Sleeps (p : Passed) : Prop := p.delay.truthy = true

/-- The pass awaited `due` or ends in a sleep. -/
def Passed.Suspends (p : Passed) : Prop := p.awaited = true ∨ p.Sleeps

/-- What can be met: no more tokens borrowed than there are, and a jitter of the default source. -/
structure Iteration.Possible (a : TimerSubFields) (i : Iteration) : Prop where
  borrowed : i.borrowed ≤ a.maxConcurrent
  jitter : 1 / 2 ≤ i.jitter ∧ i.jitter ≤ 3 / 2

section Pass

variable {a : TimerSubFields} {s : FloatSchedule} {i : Iteration}

/-- A pass never changes the bounds of its schedule. -/
theorem iterate_base : (iterate a s i).schedule.base = s.base := by
  unfold iterate FloatSchedule.delayAfterFetch FloatSchedule.delayAfterError
  split
  · split <;> [rfl; split <;> rfl]
  · split
    · rfl
    · rfl
    · split <;> [rfl; split <;> rfl]

/-- After an error the loop sleeps: the delay is at least the jitter, or the cap. -/
theorem delayAfterError_truthy (hj : 0 < i.jitter) :
    (s.delayAfterError i.jitter).1.truthy = true := by
  unfold FloatSchedule.delayAfterError
  simp only [PyFloat.mul_finite, PyFloat.pyMin_finite, PyFloat.truthy_finite, maxErrorDelay]
  have hpos : (0 : ℚ) < min (2 ^ (min (s.errorAttempt + 1) maxExponent - 1) * i.jitter) 30 :=
    lt_min (mul_pos (pow_pos two_pos _) hj) (by decide +kernel)
  exact hpos.ne'

/-- **A pass suspends unless it is back-pressured and the polling interval is zero.** -/
theorem suspends_iff (hi : i.Possible a) :
    (iterate a s i).Suspends ↔ ¬ i.BackPressured a ∨ s.base.truthy = true := by
  have hj : 0 < i.jitter := lt_of_lt_of_le (by decide +kernel) hi.jitter.1
  unfold iterate Passed.Suspends Passed.Sleeps
  by_cases hb : i.BackPressured a
  · rw [if_pos hb]
    simp [hb, FloatSchedule.delayAfterFetch]
  · rw [if_neg hb]
    cases i.due <;> simp [hb, delayAfterError_truthy hj]

end Pass

/-! ## 3. Endless runs -/

/-- The schedule before the pass with a number. -/
def scheduleBefore (a : TimerSubFields) (passes : ℕ → Iteration) : ℕ → FloatSchedule
  | 0 => .fresh a
  | n + 1 => (iterate a (scheduleBefore a passes n) (passes n)).schedule

/-- What the pass with a number does. -/
def passedAt (a : TimerSubFields) (passes : ℕ → Iteration) (n : ℕ) : Passed :=
  iterate a (scheduleBefore a passes n) (passes n)

/-- An endless run of the loop, from a limiter nobody holds. -/
structure LoopRun (a : TimerSubFields) where
  passes : ℕ → Iteration
  starts : (passes 0).borrowed = 0 ∧ (passes 0).waiting = 0
  possible : ∀ n, (passes n).Possible a
  /-- Over a pass that does not suspend no task moves. -/
  frozen : ∀ n, ¬ (passedAt a passes n).Suspends →
    (passes (n + 1)).borrowed = (passes n).borrowed ∧ (passes (n + 1)).waiting = (passes n).waiting

namespace LoopRun

variable {a : TimerSubFields}

def passed (r : LoopRun a) (n : ℕ) : Passed := passedAt a r.passes n

/-- Every pass awaits `due` or sleeps, and a back-pressured one sleeps. -/
def Paced (r : LoopRun a) : Prop := ∀ n, (r.passed n).Suspends ∧
  ((r.passes n).BackPressured a → (r.passed n).Sleeps)

/-- From some pass on none suspends: no handler task ever moves again. -/
def Freezes (r : LoopRun a) : Prop := ∃ n, ∀ m, n ≤ m → ¬ (r.passed m).Suspends

end LoopRun

section Runs

variable {a : TimerSubFields}

theorem scheduleBefore_base (passes : ℕ → Iteration) (n : ℕ) :
    (scheduleBefore a passes n).base = a.pollingInterval := by
  induction n with
  | zero => rfl
  | succ n ih => exact iterate_base.trans ih

/-- Whether a pass of a run suspends does not depend on the passes before it. -/
theorem passedAt_suspends_iff {passes : ℕ → Iteration} {n : ℕ} (hi : (passes n).Possible a) :
    (passedAt a passes n).Suspends ↔
      ¬ (passes n).BackPressured a ∨ a.pollingInterval.truthy = true := by
  unfold passedAt
  rw [suspends_iff hi, scheduleBefore_base]

/-- With a polling interval other than zero every run is paced. -/
theorem LoopRun.paced (h : a.pollingInterval.truthy = true) (r : LoopRun a) : r.Paced := by
  intro n
  have hs : (r.passed n).Suspends := (passedAt_suspends_iff (r.possible n)).mpr (Or.inr h)
  refine ⟨hs, fun hb => hs.resolve_left ?_⟩
  -- a back-pressured pass awaits nothing
  unfold LoopRun.passed passedAt iterate
  rw [if_pos hb]
  exact Bool.false_ne_true

/-- A full batch is fetched, its tasks take every token, and the loop passes on and on. -/
def saturatedPasses (a : TimerSubFields) : ℕ → Iteration
  | 0 => ⟨0, 0, .returned a.maxConcurrent.toNat, 1⟩
  | _ + 1 => ⟨a.maxConcurrent.toNat, 0, .refused, 1⟩

theorem saturated_backPressured (n : ℕ) :
    (saturatedPasses a (n + 1)).BackPressured a := by
  show a.maxConcurrent - ((a.maxConcurrent.toNat : ℕ) : Int) - ((0 : ℕ) : Int) ≤ 0
  omega

theorem one_jitter : (1 : ℚ) / 2 ≤ 1 ∧ (1 : ℚ) ≤ 3 / 2 := by decide +kernel

theorem saturated_possible (hmax : 1 ≤ a.maxConcurrent) (n : ℕ) :
    (saturatedPasses a n).Possible a := by
  cases n with
  | zero =>
      refine ⟨?_, one_jitter⟩
      show ((0 : ℕ) : Int) ≤ a.maxConcurrent
      omega
  | succ n =>
      refine ⟨?_, one_jitter⟩
      show ((a.maxConcurrent.toNat : ℕ) : Int) ≤ a.maxConcurrent
      omega

/-- With a zero polling interval the saturated loop never suspends again. -/
theorem saturated_suspends (hmax : 1 ≤ a.maxConcurrent) (hzero : a.pollingInterval.truthy = false)
    (n : ℕ) : (passedAt a (saturatedPasses a) n).Suspends ↔ n = 0 := by
  rw [passedAt_suspends_iff (saturated_possible hmax n), hzero]
  cases n with
  | zero =>
      have hfree : ¬ (saturatedPasses a 0).BackPressured a := by
        show ¬ a.maxConcurrent - ((0 : ℕ) : Int) - ((0 : ℕ) : Int) ≤ 0
        omega
      simp [hfree]
  | succ n => simp [saturated_backPressured n]

/-- The run of a zero polling interval that freezes. -/
def saturatedRun (hmax : 1 ≤ a.maxConcurrent) (hzero : a.pollingInterval.truthy = false) :
    LoopRun a where
  passes := saturatedPasses a
  starts := ⟨rfl, rfl⟩
  possible := saturated_possible hmax
  frozen n hn := by
    cases n with
    | zero => exact absurd ((saturated_suspends hmax hzero 0).mpr rfl) hn
    | succ n => exact ⟨rfl, rfl⟩

theorem saturatedRun_freezes (hmax : 1 ≤ a.maxConcurrent) (hzero : a.pollingInterval.truthy = false) :
    (saturatedRun hmax hzero).Freezes :=
  ⟨1, fun m hm hs => by
    have := (saturated_suspends hmax hzero m).mp hs
    omega⟩

theorem LoopRun.Freezes.not_paced {r : LoopRun a} (h : r.Freezes) : ¬ r.Paced := by
  obtain ⟨n, hn⟩ := h
  exact fun hp => hn n le_rfl (hp n).1

end Runs

/-- **THE LOOP NEVER SPINS exactly if the polling interval is not zero.** Of a configuration that
    is accepted every run is paced where it is not; where it is, some run freezes for ever. -/
theorem loop_suspends_iff (a : AcceptedSub) (hmax : 1 ≤ a.maxConcurrent) :
    ((∀ r : LoopRun a.toTimerSubFields, r.Paced) ↔ a.pollingInterval ≠ .finite 0) ∧
      ((∃ r : LoopRun a.toTimerSubFields, r.Freezes) ↔ a.pollingInterval = .finite 0) := by
  cases hzero : a.pollingInterval.truthy with
  | true =>
      have hne : a.pollingInterval ≠ .finite 0 := fun h => by
        rw [h] at hzero
        exact absurd hzero (by decide)
      refine ⟨iff_of_true (fun r => r.paced hzero) hne, iff_of_false ?_ hne⟩
      rintro ⟨r, hr⟩
      exact hr.not_paced (r.paced hzero)
  | false =>
      have heq := PyFloat.truthy_eq_false.mp hzero
      have hfreeze := saturatedRun_freezes hmax hzero
      exact ⟨iff_of_false (fun h => hfreeze.not_paced (h _)) (fun h => h heq),
        iff_of_true ⟨_, hfreeze⟩ heq⟩

/-- The defaults with another polling interval. -/
def everySeconds (pollingInterval : PyFloat) : AcceptedSub where
  toTimerSubFields := { TimerSubFields.defaults "t" with pollingInterval := pollingInterval }
  accepted _ := rfl

/-- The defaults of `TimerSub` are paced. -/
theorem loop_suspends_defaults : 1 ≤ (everySeconds (.finite (1 / 20))).maxConcurrent ∧
    ∀ r : LoopRun (everySeconds (.finite (1 / 20))).toTimerSubFields, r.Paced :=
  ⟨by decide, ((loop_suspends_iff (everySeconds (.finite (1 / 20))) (by decide)).1.mpr
    (by decide +kernel))⟩

/-! ## 4. The loop among its tasks -/

section Loop

variable {sub : TimerSub} {s s' : PollLoop}

/-- In `LoopStep` too, only a back-pressured pass of a zero interval leads back to the head of the
    loop with nothing awaited. -/
theorem spin_cases (h : LoopStep sub s s') (hs : s.pc = .top) (hs' : s'.pc = .top) :
    s.free sub ≤ 0 ∧ s.schedule.base = 0 := by
  cases h with
  | stopped => cases hs'
  | fetch => cases hs'
  | backPressured jitter _ hfree =>
      refine ⟨hfree, ?_⟩
      have hpc : (if s.schedule.base = 0 then LoopPc.top else .sleeping s.schedule.base) = .top := hs'
      by_contra hne
      rw [if_neg hne] at hpc
      cases hpc
  | fetched limit _ _ _ _ _ hpc => rw [hs] at hpc; cases hpc
  | failed limit _ hpc => rw [hs] at hpc; cases hpc
  | wake delay hpc => rw [hs] at hpc; cases hpc
  | cancelled hpc => exact absurd hs hpc
  | enter _ _ _ hpc => exact absurd hs hpc
  | acquire _ _ hpc => exact absurd hs hpc
  | finish _ _ hpc => exact absurd hs hpc

end Loop

/-- One token and a zero interval. -/
def zeroInterval : TimerSub := ⟨0, 5, 1⟩

/-- One timer due: its task takes the token, and from then on the loop steps to where it is. The
    configuration is accepted, and a run of it freezes. -/
theorem zero_interval_spins :
    (∃ s, Reaches (LoopStep zeroInterval) (.init zeroInterval) s ∧ s.pc = .top ∧ s.unfinished = 1 ∧
      LoopStep zeroInterval s s) ∧
    1 ≤ (everySeconds (.finite 0)).maxConcurrent ∧
    ∃ r : LoopRun (everySeconds (.finite 0)).toTimerSubFields, ¬ r.Paced := by
  refine ⟨⟨⟨.top, ⟨0, 5, 1, 0⟩, [⟨"a", .borrowing⟩]⟩, ?_, rfl, rfl, ?_⟩, by decide, ?_⟩
  · have hdue : ((TopicStore.empty.schedule "a" [1] 0).due .bytes 0 1).1 = .ok ["a"] := by
      decide +kernel
    have hnone : (TopicStore.empty.due .bytes 0 1).1 = .ok [] := by decide +kernel
    have h1 : LoopStep zeroInterval (.init zeroInterval) ⟨.fetching 1, .fresh 0 5, []⟩ :=
      .fetch rfl (by decide)
    have h2 : LoopStep zeroInterval ⟨.fetching 1, .fresh 0 5, []⟩
        ⟨.top, .fresh 0 5, [⟨"a", .spawned⟩]⟩ := .fetched 1 .bytes _ 0 1 ["a"] rfl rfl hdue
    have h3 : LoopStep zeroInterval ⟨.top, .fresh 0 5, [⟨"a", .spawned⟩]⟩
        ⟨.fetching 1, .fresh 0 5, [⟨"a", .spawned⟩]⟩ := .fetch rfl (by decide)
    have h4 : LoopStep zeroInterval ⟨.fetching 1, .fresh 0 5, [⟨"a", .spawned⟩]⟩
        ⟨.fetching 1, .fresh 0 5, [⟨"a", .borrowing⟩]⟩ :=
      .enter 0 ⟨"a", .spawned⟩ .borrowing (by decide) rfl rfl (Or.inr ⟨rfl, by decide⟩)
    -- the second `due` finds nothing, and its idle delay is zero as well
    have h5 : LoopStep zeroInterval ⟨.fetching 1, .fresh 0 5, [⟨"a", .borrowing⟩]⟩
        ⟨.top, ⟨0, 5, 1, 0⟩, [⟨"a", .borrowing⟩]⟩ := by
      have hidle : (PollSchedule.fresh 0 5).delayAfterFetch ([] : List String).length 1 =
          (0, ⟨0, 5, 1, 0⟩) := by decide +kernel
      have h : LoopStep zeroInterval ⟨.fetching 1, .fresh 0 5, [⟨"a", .borrowing⟩]⟩
          (PollLoop.pause ⟨.fetching 1, .fresh 0 5, [⟨"a", .borrowing⟩]⟩
            ((PollSchedule.fresh 0 5).delayAfterFetch ([] : List String).length 1)) :=
        .fetched 1 .bytes _ 0 1 [] rfl rfl hnone
      rw [hidle] at h
      exact h
    exact ((((Relation.ReflTransGen.single h1).tail h2).tail h3).tail h4).tail h5
  · exact .backPressured 1 rfl (by decide)
  · exact ⟨_, (saturatedRun_freezes (by decide) (by decide)).not_paced⟩

end RedisTimers
