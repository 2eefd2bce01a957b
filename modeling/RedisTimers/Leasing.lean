/-
  File:      RedisTimers/Leasing.lean
  Subject:   A HANDLER STARTS WITHIN ITS LEASE (subscriber/usecase.py: _claim_and_consume; schemas.py:
             effective_command_timeout; store.py: claim).

  The task reads the clock once it is through the limiter, asks for a lease from that reading, and
  waits for the reply under `fail_after`. The wait for the limiter, the execution in Redis and the
  way of the reply take any time. Of anyio: a block under `fail_after(d)` entered at `s` completes
  by `s + d`, or raises. The clocks of event loop and wall run together.

  * `ClaimTask`, `claimAndConsume` -- the task, and the message its handler is started with;
  * `TimedCommand` -- commands with the time Redis executes them;
  * `OnLease` -- started by the end of the lease, on which nobody else was granted the timer;
  * `starts_within_lease` -- so it is for every configuration that is accepted.
-/
import RedisTimers.Inspection
import RedisTimers.Message
import RedisTimers.Schemas

namespace RedisTimers

open Lease Replay

/-! ## 1. The task -/

/-- What the awaited `store.claim` comes to: a reply at some time, or an error. -/
inductive ClaimReply where
  | returned (payload : Option Bytes) (arrives : ℚ)
  | raised
  deriving DecidableEq

/-- What a task meets: when it starts, how long the limiter holds it, and its claim. -/
structure ClaimTask where
  spawned : ℚ
  waited : ℚ
  reply : ClaimReply
  deriving DecidableEq

/-- `now = time.time()`, read in the limiter. -/
def ClaimTask.now (r : ClaimTask) : ℚ := r.spawned + r.waited

/-- `_claim_and_consume`: the message `consume` is called with, and when. `failAfter d s t` tells
    whether a block under `fail_after(d)`, entered at `s` and done at `t`, completes normally. -/
def claimAndConsume (failAfter : PyFloat → ℚ → ℚ → Bool) (a : TimerSubFields) (fullTopic : String)
    (timerId : String) (r : ClaimTask) : Option (TimerMessage × ℚ) :=
  match r.reply with
  | .raised => none
  | .returned payload arrives =>
    if failAfter a.effectiveCommandTimeout r.now arrives then
      match payload with
      | none => none
      | some data => some (⟨fullTopic, timerId, data⟩, arrives)
    else none

/-- What anyio promises of `fail_after`. -/
def Timely (failAfter : PyFloat → ℚ → ℚ → Bool) : Prop :=
  ∀ d s t, failAfter (.finite d) s t = true → t ≤ s + d

/-! ## 2. The commands around it -/

/-- A command with the time Redis executes it. -/
structure TimedCommand where
  command : Command
  time : ℚ
  deriving DecidableEq

/-- Commands listed as Redis executes them. -/
def InOrder (ys : List TimedCommand) : Prop :=
  ys.Pairwise fun y z : TimedCommand => y.time ≤ z.time

/-- A claim whose clock agrees: it was not ahead of the time of its execution. -/
def TimedCommand.Agrees (x : TimedCommand) : Prop :=
  ∀ timerId now leaseTtl, x.command = .claim timerId now leaseTtl → now ≤ x.time

/-- A claim that asks for a lease, not for a time in its past. -/
def TimedCommand.LeasesForward (x : TimedCommand) : Prop :=
  ∀ timerId now leaseTtl, x.command = .claim timerId now leaseTtl → 0 ≤ leaseTtl

/-- The handler was started with `msg` at `t`, on the lease of the claim at `r.now`. -/
structure OnLease (a : TimerSubFields) (timerId : String) (r : ClaimTask) (msg : TimerMessage) (t : ℚ) :
    Prop where
  timely : t ≤ r.now + a.leaseTtl
  payload : ∃ arrives, r.reply = .returned (some msg.data) arrives ∧ t = arrives
  /-- That is the score the claim wrote, whatever commands it was executed after. -/
  score : ∀ xs, ((TopicStore.afterAll xs).claim timerId r.now a.leaseTtl).1 = some msg.data →
    (TopicStore.afterAll (xs ++ [.claim timerId r.now a.leaseTtl])).timeline.lookup (encode timerId) =
      some (r.now + a.leaseTtl)
  /-- A claim of the same timer that Redis executes before `t`, by a clock that agrees, is not
      granted, unless the timer was scheduled again in between. -/
  exclusive : ∀ xs (ys : List TimedCommand) x now ttl,
    ((TopicStore.afterAll xs).claim timerId r.now a.leaseTtl).1 = some msg.data →
    InOrder (ys ++ [x]) →
    (∀ y ∈ ys, y.Agrees ∨ y.LeasesForward) → (∀ p ts, ∀ y ∈ ys, y.command ≠ .schedule timerId p ts) →
    x.command = .claim timerId now ttl → x.Agrees → x.time < t →
    ((TopicStore.afterAll (xs ++ .claim timerId r.now a.leaseTtl :: ys.map TimedCommand.command)).claim
      timerId now ttl).1 = none

section Task

variable {failAfter : PyFloat → ℚ → ℚ → Bool} {a : AcceptedSub} {fullTopic timerId : String}
  {r : ClaimTask} {msg : TimerMessage} {t : ℚ}

/-- A handler is started with the payload of a reply that came in time. -/
theorem claimAndConsume_eq_some
    (h : claimAndConsume failAfter a.toTimerSubFields fullTopic timerId r = some (msg, t)) :
    r.reply = .returned (some msg.data) t ∧ msg.timerId = timerId ∧
      failAfter a.effectiveCommandTimeout r.now t = true := by
  unfold claimAndConsume at h
  cases hr : r.reply with
  | raised => rw [hr] at h; cases h
  | returned payload arrives =>
      rw [hr] at h
      simp only at h
      split at h
      · rename_i hin
        cases payload with
        | none => cases h
        | some data =>
            cases h
            exact ⟨rfl, rfl, hin⟩
      · cases h

/-- **The handler starts by the end of the lease**: the timeout is within it. -/
theorem start_le (hfail : Timely failAfter)
    (h : claimAndConsume failAfter a.toTimerSubFields fullTopic timerId r = some (msg, t)) :
    t ≤ r.now + a.leaseTtl := by
  obtain ⟨_, _, hin⟩ := claimAndConsume_eq_some h
  obtain ⟨d, hd, hle⟩ := a.effective_eq
  rw [hd] at hin
  calc t ≤ r.now + d := hfail d r.now t hin
    _ ≤ r.now + a.leaseTtl := by linarith

/-- A reply that comes late, or never, starts no handler. -/
theorem late_starts_nothing (hfail : Timely failAfter) {d : ℚ}
    (hd : a.effectiveCommandTimeout = .finite d)
    (hlate : r.reply = .raised ∨ ∃ payload arrives, r.reply = .returned payload arrives ∧ r.now + d < arrives) :
    claimAndConsume failAfter a.toTimerSubFields fullTopic timerId r = none := by
  unfold claimAndConsume
  rcases hlate with hr | ⟨payload, arrives, hr, hlt⟩
  · rw [hr]
  · rw [hr, hd]
    simp only
    rw [if_neg fun hin => absurd (hfail d r.now arrives hin) (not_le.mpr hlt)]

/-- Before `t` no claim whose clock agrees finds the timer due. -/
theorem ungranted_before {xs : List Command} {ys : List TimedCommand} {x : TimedCommand} {p : Bytes}
    {c lease now ttl : ℚ} (hclaim : ((TopicStore.afterAll xs).claim timerId c lease).1 = some p)
    (ht : t ≤ c + lease) (hsorted : InOrder (ys ++ [x]))
    (hys : ∀ y ∈ ys, y.Agrees ∨ y.LeasesForward)
    (hput : ∀ p ts, ∀ y ∈ ys, y.command ≠ .schedule timerId p ts)
    (hx : x.command = .claim timerId now ttl) (hagrees : x.Agrees) (hbefore : x.time < t) :
    ((TopicStore.afterAll (xs ++ .claim timerId c lease :: ys.map TimedCommand.command)).claim
      timerId now ttl).1 = none := by
  have hnow : now < c + lease := by
    have hle := hagrees timerId now ttl hx
    linarith
  have hnoput : NoPut (Command.act timerId) (ys.map TimedCommand.command) := fun e he q ts hact => by
    obtain ⟨y, hy, rfl⟩ := List.mem_map.mp he
    exact hput q ts y hy (act_eq_put.mp hact)
  -- every claim in between comes before the end of the lease as well, or leases forward
  have htimely : ∀ e ∈ ys.map TimedCommand.command, ∀ n till,
      Command.act timerId e = some (.claim n till) → n < c + lease ∨ n ≤ till := by
    intro e he n till hact
    obtain ⟨y, hy, rfl⟩ := List.mem_map.mp he
    obtain ⟨ttl', hcmd, rfl⟩ := act_eq_claim.mp hact
    have hle : y.time ≤ x.time := (List.pairwise_append.mp hsorted).2.2 y hy x (List.mem_singleton_self x)
    rcases hys y hy with h | h
    · have := h timerId n ttl' hcmd
      exact Or.inl (by linarith)
    · have := h timerId n ttl' hcmd
      exact Or.inr (by linarith)
  have hcut : xs ++ .claim timerId c lease :: ys.map TimedCommand.command =
      (xs ++ [.claim timerId c lease]) ++ ys.map TimedCommand.command := by simp
  have hleast : AtLeast (c + lease) (after (Command.act timerId) none
      (xs ++ .claim timerId c lease :: ys.map TimedCommand.command)) := by
    rw [hcut, after_append, TopicStore.after_granted hclaim]
    exact atLeast_after_timely hnoput (atLeast_some.mpr le_rfl) htimely
  rw [TopicStore.claim_eq_grant (TopicStore.agree_afterAll _), TopicStore.cell_afterAll,
    Option.eq_none_iff_forall_ne_some]
  intro q hq
  obtain ⟨s, hs, hle⟩ := grant_eq_some.mp hq
  exact absurd hnow (not_lt.mpr (le_trans (hleast q s hs) hle))

end Task

/-- **A HANDLER NEVER STARTS ON A LEASE THAT HAS RUN OUT**, under any accepted configuration and
    however long limiter, Redis and reply take; and where the claim does not return in time it is
    not started at all. -/
theorem starts_within_lease {failAfter : PyFloat → ℚ → ℚ → Bool} (hfail : Timely failAfter)
    (a : AcceptedSub) (fullTopic timerId : String) (r : ClaimTask) :
    (∀ msg t, claimAndConsume failAfter a.toTimerSubFields fullTopic timerId r = some (msg, t) →
      OnLease a.toTimerSubFields timerId r msg t) ∧
    ∃ d : ℚ, a.effectiveCommandTimeout = .finite d ∧
      ((r.reply = .raised ∨
        ∃ payload arrives, r.reply = .returned payload arrives ∧ r.now + d < arrives) →
        claimAndConsume failAfter a.toTimerSubFields fullTopic timerId r = none) := by
  refine ⟨fun msg t h => ?_, ?_⟩
  · refine ⟨start_le hfail h, ⟨t, (claimAndConsume_eq_some h).1, rfl⟩, fun xs hclaim => ?_, ?_⟩
    · rw [(TopicStore.agree_afterAll _).timeline_lookup, TopicStore.cell_afterAll,
        TopicStore.after_granted hclaim]
      rfl
    · exact fun xs ys x now ttl hclaim hsorted hys hput hx hagrees hbefore =>
        ungranted_before hclaim (start_le hfail h) hsorted hys hput hx hagrees hbefore
  · obtain ⟨d, hd, _⟩ := a.effective_eq
    exact ⟨d, hd, late_starts_nothing hfail hd⟩

/-- A block that completes exactly by its deadline, and a reply that comes with it: the handler
    starts at the last moment of its lease. -/
theorem starts_within_lease_last :
    let failAfter : PyFloat → ℚ → ℚ → Bool := fun d s t => match d with
      | .finite q => decide (t ≤ s + q)
      | _ => false
    let a : AcceptedSub := ⟨TimerSubFields.defaults "t", fun _ => rfl⟩
    let r : ClaimTask := ⟨0, 2, .returned (some [1]) 32⟩
    claimAndConsume failAfter a.toTimerSubFields "t" "a" r = some (⟨"t", "a", [1]⟩, 32) ∧
      OnLease a.toTimerSubFields "a" r ⟨"t", "a", [1]⟩ 32 := by
  intro failAfter a r
  have hfail : Timely failAfter := fun d s t h => of_decide_eq_true h
  have h : claimAndConsume failAfter a.toTimerSubFields "t" "a" r = some (⟨"t", "a", [1]⟩, 32) := by
    decide +kernel
  exact ⟨h, (starts_within_lease hfail a "t" "a" r).1 _ _ h⟩

end RedisTimers
