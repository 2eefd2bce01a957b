/-
  File:      RedisTimers/Poll.lean
  Subject:   THE POLL LOOP OF ONE SUBSCRIBER (subscriber/usecase.py: _consume, _get_msgs,
             _claim_and_consume; subscriber/schedule.py; schemas.py: TimerSub).

  The loop and its tasks share one thread: a task moves only while the loop is suspended, in a
  `due` call or a sleep, and when the loop resumes every task spawned before has entered the
  limiter. What `due` meets in Redis, how long anything takes, the jitter and the order of the
  tasks are arbitrary.

  * `PollSchedule` -- the delays;
  * `PollLoop`, `LoopStep` -- the loop, its limiter and the tasks it spawned;
  * `Bounded`, `bounded_step` -- the free slots cannot see the last batch, so a fetch may be made
    on top of a full batch; no third batch is, since the second await lets the first one enter;
  * `bounded_dispatch` -- never more than 2 * max_concurrent unfinished tasks.
-/
import RedisTimers.Library.Replay
import RedisTimers.Store

namespace RedisTimers

open Replay

/-! ## 1. The delays -/

/-- The fields of `TimerSub` the loop reads. -/
structure TimerSub where
  pollingInterval : ℚ
  maxPollingInterval : ℚ
  maxConcurrent : Nat
  deriving DecidableEq

def maxExponent : Nat := 30

def maxErrorDelay : ℚ := 30

structure PollSchedule where
  base : ℚ
  maxIdle : ℚ
  idleCount : Nat
  errorAttempt : Nat
  deriving DecidableEq

namespace PollSchedule

def fresh (base maxIdle : ℚ) : PollSchedule := ⟨base, maxIdle, 0, 0⟩

/-- `delay_after_fetch`, with the draw of `self._jitter`: the delay, and the counters it leaves. -/
def delayAfterFetch (s : PollSchedule) (count : Int) (jitter : ℚ) : ℚ × PollSchedule :=
  if count > 0 then (0, { s with errorAttempt := 0, idleCount := 0 })
  else if count = 0 then
    let idleCount := min (s.idleCount + 1) maxExponent
    (min (s.base * 2 ^ (idleCount - 1) * jitter) s.maxIdle,
      { s with errorAttempt := 0, idleCount := idleCount })
  else (s.base, { s with errorAttempt := 0 })

/-- `delay_after_error`. -/
def delayAfterError (s : PollSchedule) (jitter : ℚ) : ℚ × PollSchedule :=
  let errorAttempt := min (s.errorAttempt + 1) maxExponent
  (min (2 ^ (errorAttempt - 1) * jitter) maxErrorDelay, { s with errorAttempt := errorAttempt })

end PollSchedule

/-! ## 2. The loop -/

/-- How far a dispatched `_claim_and_consume` got. -/
inductive Phase where
  /-- Given to `start_soon`, no step taken yet. -/
  | spawned
  /-- In `async with limiter`, without a token. -/
  | waiting
  /-- It holds a token: claim and handler. -/
  | borrowing
  /-- Returned, raised or cancelled. -/
  | finished
  deriving DecidableEq

structure Dispatched where
  timerId : String
  phase : Phase
  deriving DecidableEq

/-- Where `_consume` is: at the head of its loop, suspended in `due` with the limit it passed,
    suspended in `anyio.sleep`, or out of the loop. -/
inductive LoopPc where
  | top
  | fetching (limit : Int)
  | sleeping (delay : ℚ)
  | exited
  deriving DecidableEq

structure PollLoop where
  pc : LoopPc
  schedule : PollSchedule
  tasks : List Dispatched

namespace PollLoop

/-- `_consume` as it reaches its loop. -/
def init (sub : TimerSub) : PollLoop :=
  ⟨.top, .fresh sub.pollingInterval sub.maxPollingInterval, []⟩

variable (s : PollLoop)

def inPhase (ph : Phase) : Nat := s.tasks.countP (·.phase = ph)

/-- `limiter.statistics().borrowed_tokens`. -/
def borrowedTokens : Nat := s.inPhase .borrowing

/-- `limiter.statistics().tasks_waiting`. -/
def tasksWaiting : Nat := s.inPhase .waiting

/-- `free` of `_get_msgs`. -/
def free (sub : TimerSub) : Int := sub.maxConcurrent - s.borrowedTokens - s.tasksWaiting

/-- The dispatched tasks that have not finished. -/
def unfinished : Nat := s.tasks.countP (·.phase ≠ .finished)

/-- `tg.start_soon` for each id. -/
def spawn (timerIds : List String) : PollLoop :=
  { s with tasks := s.tasks ++ timerIds.map (⟨·, .spawned⟩) }

/-- The end of an iteration: `if delay: await anyio.sleep(delay)`. -/
def pause (d : ℚ × PollSchedule) : PollLoop :=
  { s with pc := if d.1 = 0 then .top else .sleeping d.1, schedule := d.2 }

/-- A task takes a step. -/
def setPhase (n : Nat) (t : Dispatched) (ph : Phase) : PollLoop :=
  { s with tasks := s.tasks.set n { t with phase := ph } }

end PollLoop

/-- A step of the loop or, while it is suspended or out of its loop, of a task. -/
inductive LoopStep (sub : TimerSub) (s : PollLoop) : PollLoop → Prop where
  /-- `self.running` is false. -/
  | stopped (hpc : s.pc = .top) : LoopStep sub s { s with pc := .exited }
  /-- `_get_msgs` returns -1. -/
  | backPressured (jitter : ℚ) (hpc : s.pc = .top) (hfree : s.free sub ≤ 0) :
      LoopStep sub s (s.pause (s.schedule.delayAfterFetch (-1) jitter))
  | fetch (hpc : s.pc = .top) (hfree : ¬ s.free sub ≤ 0) :
      LoopStep sub s { s with pc := .fetching (s.free sub) }
  /-- `due` returns, from whatever the keys hold. -/
  | fetched (limit : Int) (mode : ClientMode) (k : TopicStore) (now jitter : ℚ)
      (timerIds : List String) (hpc : s.pc = .fetching limit) (hentered : s.inPhase .spawned = 0)
      (hdue : (k.due mode now limit).1 = .ok timerIds) :
      LoopStep sub s ((s.spawn timerIds).pause (s.schedule.delayAfterFetch timerIds.length jitter))
  /-- `due` raises, or `fail_after` does. -/
  | failed (limit : Int) (jitter : ℚ) (hpc : s.pc = .fetching limit) :
      LoopStep sub s (s.pause (s.schedule.delayAfterError jitter))
  | wake (delay : ℚ) (hpc : s.pc = .sleeping delay) (hentered : s.inPhase .spawned = 0) :
      LoopStep sub s { s with pc := .top }
  | cancelled (hpc : s.pc ≠ .top) : LoopStep sub s { s with pc := .exited }
  /-- The first step of a task: it takes a free token or waits for one. -/
  | enter (n : Nat) (t : Dispatched) (ph : Phase) (hpc : s.pc ≠ .top) (ht : s.tasks[n]? = some t)
      (hspawned : t.phase = .spawned)
      (hph : ph = .waiting ∨ ph = .borrowing ∧ s.borrowedTokens < sub.maxConcurrent) :
      LoopStep sub s (s.setPhase n t ph)
  | acquire (n : Nat) (t : Dispatched) (hpc : s.pc ≠ .top) (ht : s.tasks[n]? = some t)
      (hwaiting : t.phase = .waiting) (hfree : s.borrowedTokens < sub.maxConcurrent) :
      LoopStep sub s (s.setPhase n t .borrowing)
  | finish (n : Nat) (t : Dispatched) (hpc : s.pc ≠ .top) (ht : s.tasks[n]? = some t) :
      LoopStep sub s (s.setPhase n t .finished)

/-! ## 3. Counting tasks -/

namespace PollLoop

variable {s : PollLoop}

/-- The tasks that entered the limiter and have not finished: `statistics()` counts each once. -/
def entered (s : PollLoop) : Nat := s.borrowedTokens + s.tasksWaiting

theorem unfinished_eq (s : PollLoop) : s.unfinished = s.inPhase .spawned + s.entered := by
  unfold unfinished entered borrowedTokens tasksWaiting inPhase
  induction s.tasks with
  | nil => rfl
  | cons t ts ih =>
      simp only [List.countP_cons, ih]
      cases t.phase <;> simp <;> omega

@[simp] theorem inPhase_spawn (ids : List String) (ph : Phase) :
    (s.spawn ids).inPhase ph = s.inPhase ph + if ph = .spawned then ids.length else 0 := by
  unfold inPhase spawn
  rw [List.countP_append, List.countP_map]
  congr 1
  split
  · rename_i h
    exact List.countP_eq_length.mpr fun _ _ => by simp [h]
  · rename_i h
    exact List.countP_eq_zero.mpr fun _ _ => by simpa using Ne.symm h

/-- A task that changes its phase leaves one count and joins another. -/
theorem inPhase_setPhase {n : Nat} {t : Dispatched} (ht : s.tasks[n]? = some t) (ph q : Phase) :
    (s.setPhase n t ph).inPhase q + (if t.phase = q then 1 else 0) =
      s.inPhase q + if ph = q then 1 else 0 := by
  obtain ⟨hn, hget⟩ := List.getElem?_eq_some_iff.mp ht
  unfold inPhase setPhase
  rw [List.countP_set hn, hget]
  have hpos : t.phase = q → 0 < s.tasks.countP (·.phase = q) := fun h =>
    List.countP_pos_iff.mpr ⟨t, List.mem_of_getElem? ht, by simpa using h⟩
  simp only [decide_eq_true_eq]
  split
  · rename_i h
    have := hpos h
    omega
  · omega

theorem pause_pc (s : PollLoop) (d : ℚ × PollSchedule) (limit : Int) :
    (s.pause d).pc ≠ .fetching limit := by
  unfold pause
  split <;> simp

end PollLoop

/-! ## 4. Bounded dispatch -/

/-- What keeps the tasks of a loop bounded: the batch that has not started fits the limiter, and
    so does, on top of everything unfinished, the batch a pending `due` may return. -/
structure Bounded (M : Nat) (s : PollLoop) : Prop where
  batch : s.inPhase .spawned ≤ M
  total : s.inPhase .spawned + s.entered ≤ 2 * M
  pending : ∀ limit, s.pc = .fetching limit →
    0 < limit ∧ limit ≤ M ∧ limit + s.inPhase .spawned + s.entered ≤ 2 * M

section Steps

variable {sub : TimerSub} {s : PollLoop}

/-- Where the tasks stay, an iteration that ends outside `due` keeps the bound. -/
theorem Bounded.leave {M : Nat} (h : Bounded M s) {pc : LoopPc} {sched : PollSchedule}
    (hpc : ∀ limit, pc ≠ .fetching limit) : Bounded M ⟨pc, sched, s.tasks⟩ :=
  ⟨h.batch, h.total, fun limit hl => absurd hl (hpc limit)⟩

/-- A task that moves on to a phase of its future keeps the bound: it is counted once before and
    at most once after, and nothing enters the batch that has not started. -/
theorem Bounded.setPhase {M : Nat} (h : Bounded M s) {n : Nat} {t : Dispatched} {ph : Phase}
    (ht : s.tasks[n]? = some t) (hph : ph ≠ .spawned) (hlive : ph = .finished ∨ t.phase ≠ .finished) :
    Bounded M (s.setPhase n t ph) := by
  have hspawned := PollLoop.inPhase_setPhase ht ph .spawned
  have hborrowing := PollLoop.inPhase_setPhase ht ph .borrowing
  have hwaiting := PollLoop.inPhase_setPhase ht ph .waiting
  have hbatch : (s.setPhase n t ph).inPhase .spawned ≤ s.inPhase .spawned := by
    rw [if_neg hph] at hspawned
    omega
  have htotal : (s.setPhase n t ph).inPhase .spawned + (s.setPhase n t ph).entered ≤
      s.inPhase .spawned + s.entered := by
    unfold PollLoop.entered PollLoop.borrowedTokens PollLoop.tasksWaiting
    cases hp : t.phase <;> cases ph <;> simp_all <;> omega
  refine ⟨le_trans hbatch h.batch, le_trans htotal h.total, fun limit hl => ?_⟩
  obtain ⟨hpos, hle, hsum⟩ := h.pending limit hl
  exact ⟨hpos, hle, by omega⟩

/-- **Every step keeps the bound.** -/
theorem bounded_step {s' : PollLoop} (h : Bounded sub.maxConcurrent s) (hs : LoopStep sub s s') :
    Bounded sub.maxConcurrent s' := by
  cases hs with
  | stopped => exact h.leave fun _ => nofun
  | backPressured => exact h.leave fun limit => s.pause_pc _ limit
  | failed => exact h.leave fun limit => s.pause_pc _ limit
  | wake => exact h.leave fun _ => nofun
  | cancelled => exact h.leave fun _ => nofun
  | enter n t ph _ ht hspawned hph =>
      refine h.setPhase ht ?_ (Or.inr (by rw [hspawned]; decide))
      rcases hph with rfl | ⟨rfl, _⟩ <;> decide
  | acquire n t _ ht hwaiting => exact h.setPhase ht (by decide) (Or.inr (by rw [hwaiting]; decide))
  | finish n t _ ht => exact h.setPhase ht (by decide) (Or.inl rfl)
  | fetch hpc hfree =>
      -- what is entered and the free slots make up the limiter; the batch comes on top
      refine ⟨h.batch, h.total, fun limit hl => ?_⟩
      have hlimit : s.free sub = limit := by simpa using hl
      have hent : s.free sub + s.entered = sub.maxConcurrent := by
        unfold PollLoop.free PollLoop.entered
        omega
      have hbatch := h.batch
      show 0 < limit ∧ limit ≤ sub.maxConcurrent ∧
        limit + (s.inPhase .spawned : Int) + s.entered ≤ 2 * sub.maxConcurrent
      omega
  | fetched limit mode k now jitter ids hpc hentered hdue =>
      -- the batch before has entered the limiter, so the one that comes takes its place
      obtain ⟨hpos, hle, hsum⟩ := h.pending limit hpc
      have hlen := TopicStore.length_due_le (by omega) hdue
      have hnew : (s.spawn ids).inPhase .spawned = ids.length := by
        rw [PollLoop.inPhase_spawn, hentered, if_pos rfl, Nat.zero_add]
      have hold : (s.spawn ids).entered = s.entered := by
        simp [PollLoop.entered, PollLoop.borrowedTokens, PollLoop.tasksWaiting]
      have hspawn : Bounded sub.maxConcurrent ⟨.exited, s.schedule, (s.spawn ids).tasks⟩ := by
        refine ⟨?_, ?_, fun _ => nofun⟩
        · show (s.spawn ids).inPhase .spawned ≤ _
          omega
        · show (s.spawn ids).inPhase .spawned + (s.spawn ids).entered ≤ _
          omega
      exact hspawn.leave fun limit => (s.spawn ids).pause_pc _ limit

theorem bounded_init (sub : TimerSub) : Bounded sub.maxConcurrent (.init sub) :=
  ⟨Nat.zero_le _, Nat.zero_le _, fun _ => nofun⟩

/-- **BOUNDED DISPATCH.** In every run of the loop of a subscriber the dispatched and unfinished
    tasks are at most twice its `max_concurrent`. -/
theorem bounded_dispatch (sub : TimerSub) {s : PollLoop}
    (h : Reaches (LoopStep sub) (.init sub) s) : s.unfinished ≤ 2 * sub.maxConcurrent := by
  have hinv := reaches_invariant (bounded_init sub) (fun _ _ => bounded_step) h
  rw [s.unfinished_eq]
  exact hinv.total

/-- One timer due, fetched twice with `max_concurrent = 1`: the first task holds the token and the
    second was just spawned. -/
theorem bounded_dispatch_two :
    let sub : TimerSub := ⟨1, 5, 1⟩
    let s : PollLoop := ⟨.top, .fresh 1 5, [⟨"a", .borrowing⟩, ⟨"a", .spawned⟩]⟩
    s.unfinished = 2 ∧ s.unfinished ≤ 2 * sub.maxConcurrent := by
  intro sub s
  have hdue : ((TopicStore.empty.schedule "a" [1] 0).due .bytes 0 1).1 = .ok ["a"] := by
    decide +kernel
  have h1 : LoopStep sub (.init sub) ⟨.fetching 1, .fresh 1 5, []⟩ := .fetch rfl (by decide)
  have h2 : LoopStep sub ⟨.fetching 1, .fresh 1 5, []⟩ ⟨.top, .fresh 1 5, [⟨"a", .spawned⟩]⟩ :=
    .fetched 1 .bytes _ 0 1 ["a"] rfl rfl hdue
  have h3 : LoopStep sub ⟨.top, .fresh 1 5, [⟨"a", .spawned⟩]⟩
      ⟨.fetching 1, .fresh 1 5, [⟨"a", .spawned⟩]⟩ := .fetch rfl (by decide)
  have h4 : LoopStep sub ⟨.fetching 1, .fresh 1 5, [⟨"a", .spawned⟩]⟩
      ⟨.fetching 1, .fresh 1 5, [⟨"a", .borrowing⟩]⟩ :=
    .enter 0 ⟨"a", .spawned⟩ .borrowing (by decide) rfl rfl (Or.inr ⟨rfl, by decide⟩)
  have h5 : LoopStep sub ⟨.fetching 1, .fresh 1 5, [⟨"a", .borrowing⟩]⟩ s :=
    .fetched 1 .bytes _ 0 1 ["a"] rfl rfl hdue
  have h : Reaches (LoopStep sub) (.init sub) s :=
    ((((Relation.ReflTransGen.single h1).tail h2).tail h3).tail h4).tail h5
  exact ⟨rfl, bounded_dispatch sub h⟩

end Steps

end RedisTimers
