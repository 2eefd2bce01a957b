/-
  File:      RedisTimers/Backoff.lean
  Subject:   THE DELAYS OF A POLL SCHEDULE ARE WHAT ITS HISTORY SAYS (subscriber/schedule.py). The
             two counters of `PollSchedule` against a specification that knows no counters.

  * `ScheduleCall`, `PollSchedule.delays` -- any calls on one schedule, with their jitter draws;
  * `idlePolls`, `errorRun` -- what the specification reads off the history;
  * `counters_eq` -- the counters are these two numbers, cut at the cap;
  * `backoff_eq_history` -- every delay is the specified one; the caps and the growth follow.
-/
import RedisTimers.Library.Tally
import RedisTimers.Poll

namespace RedisTimers

open Replay Tally

/-! ## 1. Calls and their history -/

/-- A call of a schedule: after a fetch that returned `count`, or after an error. -/
inductive ScheduleCall where
  | afterFetch (count : Int)
  | afterError
  deriving DecidableEq

namespace ScheduleCall

def isBusy : ScheduleCall → Bool
  | afterFetch count => decide (0 < count)
  | afterError => false

def isIdle : ScheduleCall → Bool
  | afterFetch count => decide (count = 0)
  | afterError => false

def isError : ScheduleCall → Bool
  | afterFetch _ => false
  | afterError => true

end ScheduleCall

open ScheduleCall

/-- The idle polls since the last busy one. -/
def idlePolls (history : List ScheduleCall) : Nat := tally isBusy isIdle history

/-- The length of the unbroken run of errors at the end. -/
def errorRun (history : List ScheduleCall) : Nat := tally (fun c => !isError c) isError history

/-- The delay the history asks for, after the calls `before` and the call itself. -/
def specDelay (base maxIdle : ℚ) (before : List ScheduleCall) (c : ScheduleCall) (jitter : ℚ) : ℚ :=
  match c with
  | .afterFetch count =>
      if count > 0 then 0
      else if count < 0 then base
      else min (base * 2 ^ (min (idlePolls (before ++ [c])) 30 - 1) * jitter) maxIdle
  | .afterError => min (2 ^ (min (errorRun (before ++ [c])) 30 - 1) * jitter) 30

namespace PollSchedule

/-- A call with its jitter draw: the delay, and the schedule it leaves. -/
def call (s : PollSchedule) (c : ScheduleCall × ℚ) : ℚ × PollSchedule :=
  match c.1 with
  | .afterFetch count => s.delayAfterFetch count c.2
  | .afterError => s.delayAfterError c.2

def afterCalls (s : PollSchedule) (cs : List (ScheduleCall × ℚ)) : PollSchedule :=
  replay (fun s c => (s.call c).2) s cs

/-- The delays of the calls `cs`, one after the other. -/
def delays (s : PollSchedule) : List (ScheduleCall × ℚ) → List ℚ
  | [] => []
  | c :: cs => (s.call c).1 :: delays (s.call c).2 cs

/-! ## 2. The counters -/

/-- What a call does to the fields: the counters tick, the bounds stay. -/
theorem call_fields (s : PollSchedule) (c : ScheduleCall × ℚ) :
    (s.call c).2.base = s.base ∧ (s.call c).2.maxIdle = s.maxIdle ∧
      (s.call c).2.idleCount = tick isBusy isIdle maxExponent s.idleCount c.1 ∧
      (s.call c).2.errorAttempt =
        tick (fun c => !isError c) isError maxExponent s.errorAttempt c.1 := by
  obtain ⟨c, j⟩ := c
  cases c with
  | afterError => exact ⟨rfl, rfl, rfl, rfl⟩
  | afterFetch count =>
      unfold call delayAfterFetch tick
      by_cases hpos : 0 < count
      · simp [hpos, isBusy, isError]
      · by_cases hzero : count = 0
        · simp [hzero, isBusy, isIdle, isError]
        · simp [hpos, hzero, isBusy, isIdle, isError]

/-- A field that ticks at every call holds its count over the calls. -/
theorem replay_calls {f : PollSchedule → Nat} {reset bump : ScheduleCall → Bool}
    (hf : ∀ s c, f (call s c).2 = tick reset bump maxExponent (f s) c.1) (s : PollSchedule)
    (cs : List (ScheduleCall × ℚ)) :
    f (s.afterCalls cs) = replay (tick reset bump maxExponent) (f s) (cs.map Prod.fst) := by
  have hsim : f (s.afterCalls cs) =
      replay (fun n (c : ScheduleCall × ℚ) => tick reset bump maxExponent n c.1) (f s) cs :=
    replay_sim (f := f) (I := fun _ => True) (fun _ _ _ _ => trivial) (fun s c _ _ => hf s c) trivial
  rw [hsim]
  exact List.foldl_map.symm

theorem bounds_afterCalls (s : PollSchedule) (cs : List (ScheduleCall × ℚ)) :
    (s.afterCalls cs).base = s.base ∧ (s.afterCalls cs).maxIdle = s.maxIdle :=
  replay_invariant (I := fun t : PollSchedule => t.base = s.base ∧ t.maxIdle = s.maxIdle)
    (fun (t : PollSchedule) c _ h => ⟨(t.call_fields c).1.trans h.1, (t.call_fields c).2.1.trans h.2⟩) ⟨rfl, rfl⟩

/-- **The counters are read off the history**, cut at their cap. -/
theorem counters_eq (base maxIdle : ℚ) (cs : List (ScheduleCall × ℚ)) :
    (fresh base maxIdle).afterCalls cs =
      ⟨base, maxIdle, min (idlePolls (cs.map Prod.fst)) maxExponent,
        min (errorRun (cs.map Prod.fst)) maxExponent⟩ := by
  obtain ⟨hb, hm⟩ := bounds_afterCalls (fresh base maxIdle) cs
  have hi : ((fresh base maxIdle).afterCalls cs).idleCount = min (idlePolls (cs.map Prod.fst)) maxExponent :=
    (replay_calls (fun s c => (s.call_fields c).2.2.1) _ cs).trans (replay_tick _ _)
  have he : ((fresh base maxIdle).afterCalls cs).errorAttempt = min (errorRun (cs.map Prod.fst)) maxExponent :=
    (replay_calls (fun s c => (s.call_fields c).2.2.2) _ cs).trans (replay_tick _ _)
  cases hs : (fresh base maxIdle).afterCalls cs
  simp_all [fresh]

/-! ## 3. The delays -/

theorem delays_append (s : PollSchedule) (xs ys : List (ScheduleCall × ℚ)) :
    s.delays (xs ++ ys) = s.delays xs ++ (s.afterCalls xs).delays ys := by
  induction xs generalizing s with
  | nil => rfl
  | cons x xs ih =>
      rw [List.cons_append, delays, delays, ih, List.cons_append]
      rfl

theorem length_delays (s : PollSchedule) (cs : List (ScheduleCall × ℚ)) :
    (s.delays cs).length = cs.length := by
  induction cs generalizing s with
  | nil => rfl
  | cons c cs ih => rw [delays, List.length_cons, List.length_cons, ih]

/-- The delay at a position is the one its call gives the schedule the calls before left. -/
theorem getElem?_delays (s : PollSchedule) (xs ys : List (ScheduleCall × ℚ)) (c : ScheduleCall × ℚ) :
    (s.delays (xs ++ c :: ys))[xs.length]? = some ((s.afterCalls xs).call c).1 := by
  rw [delays_append, List.getElem?_append_right (by rw [length_delays]), length_delays,
    Nat.sub_self]
  rfl

/-- A call on the counters the history gives returns the specified delay. -/
theorem call_eq_spec (base maxIdle : ℚ) (xs : List (ScheduleCall × ℚ)) (c : ScheduleCall) (j : ℚ) :
    (((fresh base maxIdle).afterCalls xs).call (c, j)).1 =
      specDelay base maxIdle (xs.map Prod.fst) c j := by
  rw [counters_eq]
  cases c with
  | afterError =>
      have hm : errorRun (xs.map Prod.fst ++ [.afterError]) = errorRun (xs.map Prod.fst) + 1 :=
        tally_concat _ _ _ _
      simp only [call, delayAfterError, specDelay, hm, maxExponent, maxErrorDelay]
      congr 4
      omega
  | afterFetch count =>
      simp only [call, delayAfterFetch, specDelay]
      by_cases hpos : count > 0
      · simp [hpos]
      · by_cases hzero : count = 0
        · have hk : idlePolls (xs.map Prod.fst ++ [.afterFetch 0]) = idlePolls (xs.map Prod.fst) + 1 :=
            tally_concat _ _ _ _
          subst hzero
          simp only [gt_iff_lt, lt_irrefl, if_false, if_true, hk, maxExponent]
          congr 5
          omega
        · have hneg : count < 0 := by omega
          simp [hpos, hzero, hneg]

/-! ## 4. The history specification -/

/-- Doubling, capped: what a longer count asks for is no shorter a delay. -/
theorem capped_doubling_mono {a j cap : ℚ} (ha : 0 ≤ a) (hj : 0 ≤ j) {k m : Nat} (h : k ≤ m) :
    min (a * 2 ^ (min k 30 - 1) * j) cap ≤ min (a * 2 ^ (min m 30 - 1) * j) cap := by
  have hexp : min k 30 - 1 ≤ min m 30 - 1 := by omega
  have hpow : (2 : ℚ) ^ (min k 30 - 1) ≤ 2 ^ (min m 30 - 1) := pow_le_pow_right₀ one_le_two hexp
  exact min_le_min_right cap (mul_le_mul_of_nonneg_right (mul_le_mul_of_nonneg_left hpow ha) hj)

/-- The delays of the calls `cs` on a fresh schedule, read off the history alone. -/
structure FollowsHistory (base maxIdle : ℚ) (cs : List (ScheduleCall × ℚ)) : Prop where
  delay : ∀ xs c j ys, cs = xs ++ (c, j) :: ys →
    ((fresh base maxIdle).delays cs)[xs.length]? = some (specDelay base maxIdle (xs.map Prod.fst) c j)
  idleCapped : ∀ xs j ys d, cs = xs ++ (.afterFetch 0, j) :: ys →
    ((fresh base maxIdle).delays cs)[xs.length]? = some d → d ≤ maxIdle
  errorCapped : ∀ xs j ys d, cs = xs ++ (.afterError, j) :: ys →
    ((fresh base maxIdle).delays cs)[xs.length]? = some d → d ≤ 30
  /-- Between two busy fetches the idle delays of equal jitter never decrease. -/
  idleGrows : ∀ xs j ys zs d d', cs = xs ++ (.afterFetch 0, j) :: (ys ++ (.afterFetch 0, j) :: zs) →
    (∀ c ∈ ys, c.1.isBusy = false) → ((fresh base maxIdle).delays cs)[xs.length]? = some d →
    ((fresh base maxIdle).delays cs)[xs.length + 1 + ys.length]? = some d' → d ≤ d'
  /-- Along one run of errors the delays of equal jitter never decrease. -/
  errorsGrow : ∀ xs j ys zs d d', cs = xs ++ (.afterError, j) :: (ys ++ (.afterError, j) :: zs) →
    (∀ c ∈ ys, c.1 = .afterError) → ((fresh base maxIdle).delays cs)[xs.length]? = some d →
    ((fresh base maxIdle).delays cs)[xs.length + 1 + ys.length]? = some d' → d ≤ d'

section History

variable {base maxIdle : ℚ} {xs ys zs : List (ScheduleCall × ℚ)} {c : ScheduleCall} {j d : ℚ}

theorem delay_eq (h : ((fresh base maxIdle).delays (xs ++ (c, j) :: ys))[xs.length]? = some d) :
    d = specDelay base maxIdle (xs.map Prod.fst) c j := by
  rw [getElem?_delays, Option.some.injEq] at h
  rw [← h, call_eq_spec]

/-- The same for the second of two calls. -/
theorem second_delay_eq {b : ScheduleCall × ℚ}
    (h : ((fresh base maxIdle).delays (xs ++ b :: (ys ++ (c, j) :: zs)))[xs.length + 1 + ys.length]? =
      some d) : d = specDelay base maxIdle ((xs ++ b :: ys).map Prod.fst) c j := by
  have hsplit : xs ++ b :: (ys ++ (c, j) :: zs) = (xs ++ b :: ys) ++ (c, j) :: zs := by simp
  have hlen : xs.length + 1 + ys.length = (xs ++ b :: ys).length := by
    rw [List.length_append, List.length_cons]
    omega
  rw [hsplit, hlen] at h
  exact delay_eq h

/-- The count at the second of two calls is at least the one at the first, where nothing between
    them resets it. -/
theorem tally_le_second {reset bump : ScheduleCall → Bool} (hc : reset c = false)
    (hys : ∀ e ∈ ys, reset e.1 = false) : tally reset bump (xs.map Prod.fst ++ [c]) ≤
      tally reset bump ((xs ++ (c, j) :: ys).map Prod.fst ++ [c]) := by
  have hsplit : (xs ++ (c, j) :: ys).map Prod.fst ++ [c] =
      (xs.map Prod.fst ++ [c]) ++ (ys.map Prod.fst ++ [c]) := by simp
  rw [hsplit]
  refine tally_append_le fun e he => ?_
  rcases List.mem_append.mp he with he | he
  · obtain ⟨y, hy, rfl⟩ := List.mem_map.mp he
    exact hys y hy
  · rw [List.mem_singleton.mp he, hc]

end History

/-- **BACKOFF EQUALS ITS HISTORY.** Whatever calls are made on a fresh schedule, each delay is the
    one the calls before it specify; no delay exceeds its cap, and none of one row shrinks. -/
theorem backoff_eq_history {base maxIdle : ℚ} (hbase : 0 ≤ base) {cs : List (ScheduleCall × ℚ)}
    (hjitter : ∀ c ∈ cs, 0 ≤ c.2) : FollowsHistory base maxIdle cs where
  delay xs c j ys hcs := by
    rw [hcs, getElem?_delays, call_eq_spec]
  idleCapped xs j ys d hcs hd := by
    subst hcs
    rw [delay_eq hd]
    exact min_le_right _ _
  errorCapped xs j ys d hcs hd := by
    subst hcs
    rw [delay_eq hd]
    exact min_le_right _ _
  idleGrows xs j ys zs d d' hcs hys hd hd' := by
    subst hcs
    have hj : 0 ≤ j := hjitter (.afterFetch 0, j) (by simp)
    rw [delay_eq hd, second_delay_eq hd']
    exact capped_doubling_mono hbase hj (tally_le_second rfl hys)
  errorsGrow xs j ys zs d d' hcs hys hd hd' := by
    subst hcs
    have hj : 0 ≤ j := hjitter (.afterError, j) (by simp)
    have hle : errorRun (xs.map Prod.fst ++ [.afterError]) ≤
        errorRun ((xs ++ (.afterError, j) :: ys).map Prod.fst ++ [.afterError]) :=
      tally_le_second rfl fun e he => by rw [hys e he]; rfl
    rw [delay_eq hd, second_delay_eq hd']
    simpa only [specDelay, one_mul] using capped_doubling_mono zero_le_one hj hle

/-- An idle poll, an error and a second idle poll: the idle delays double across the error. -/
theorem backoff_eq_history_three :
    (fresh 1 5).delays [(.afterFetch 0, 1), (.afterError, 1), (.afterFetch 0, 1)] = [1, 1, 2] ∧
      FollowsHistory 1 5 [(.afterFetch 0, 1), (.afterError, 1), (.afterFetch 0, 1)] :=
  ⟨by decide +kernel, backoff_eq_history zero_le_one (by decide +kernel)⟩

end PollSchedule

end RedisTimers
