/-
  File:      RedisTimers/Workers.lean
  Subject:   THE FLEET AND THE POLL LOOPS OF ITS WORKERS, TOGETHER (subscriber/usecase.py: _consume,
             _get_msgs, _claim_and_consume; subscriber/factory.py).

  A crew is the fleet with the subscribers that work in it. Each subscriber's loop polls with its
  free slots and spawns its tasks; a task claims, hands over and settles while it holds a token of
  that loop's limiter, and only while the loop is suspended. What was sent Redis executes when it
  likes, and everybody else does what they like.

  * `Worker`, `Crew`, `CrewStep` -- the two levels, moving together;
  * `Staffed`, `staffed_step` -- every task of the fleet stands in one loop, and has a claim on its
    way or a handler running only while it holds a token there;
  * `Orderly`, `crew_orderly` -- so a run of a crew is a run of the fleet and of every loop at once, a
    topic never has more handlers than its subscribers have tokens, and no poll asks for more.
-/
import RedisTimers.Library.Shares
import RedisTimers.Poll
import RedisTimers.Recovery

namespace RedisTimers

open Replay Shares

/-! ## 1. Loops and fleet -/

/-- What `create_subscriber` is given, and the reply mode of the client. -/
structure Subscription where
  fullTopic : String
  mode : ClientMode
  sub : TimerSub
  leaseTtl : ℚ

/-- A subscriber at work: its loop, and the number in the fleet of each task of the loop. -/
structure Worker where
  subscription : Subscription
  loop : PollLoop
  numbers : List Nat

/-- A subscriber as it reaches its loop. -/
def Subscription.started (c : Subscription) : Worker := ⟨c, .init c.sub, []⟩

structure Crew where
  fleet : Fleet
  workers : List Worker

def Crew.init (cs : List Subscription) : Crew := ⟨.init, cs.map Subscription.started⟩

/-- The loop of a worker moves on. -/
def Crew.setLoop (s : Crew) (i : Nat) (w : Worker) (l : PollLoop) : Crew :=
  { s with workers := s.workers.set i { w with loop := l } }

/-- The actions of publishers and users, and of Redis on what was sent. -/
def Action.ofOthers : Action → Bool
  | .publish .. | .cancel .. | .cancelAll _ | .heal .. | .executeClaim _ | .executeRemoval .. => true
  | .fetch .. | .sendClaim .. | .claimReply .. | .sendRemoval .. | .finish .. => false

/-- The task an action is a step of inside `async with limiter`. -/
def Action.inLimiter : Action → Option Nat
  | .sendClaim m _ | .claimReply m _ | .sendRemoval m _ => some m
  | .publish .. | .cancel .. | .cancelAll _ | .heal .. | .fetch .. | .executeClaim _
  | .executeRemoval .. | .finish .. => none

/-- A step of the crew; a worker that crashed takes no more steps. -/
inductive CrewStep (s : Crew) : Crew → Prop where
  | others (a : Action) (ha : a.ofOthers) : CrewStep s { s with fleet := s.fleet.step a }
  /-- A loop that is not in `due` goes on. -/
  | goesOn (i : Nat) (w : Worker) (l : PollLoop) (hw : s.workers[i]? = some w)
      (hpc : ∀ limit, w.loop.pc ≠ .fetching limit) (hstep : LoopStep w.subscription.sub w.loop l)
      (htasks : l.tasks = w.loop.tasks) : CrewStep s (s.setLoop i w l)
  /-- `due` returns; each id gets a task, in the loop and in the fleet. -/
  | polled (i : Nat) (w : Worker) (limit : Int) (now jitter : ℚ) (timerIds : List String)
      (hw : s.workers[i]? = some w) (hpc : w.loop.pc = .fetching limit)
      (hentered : w.loop.inPhase .spawned = 0)
      (hdue : ((s.fleet.stores w.subscription.fullTopic).due w.subscription.mode now limit).1 =
        .ok timerIds) :
      CrewStep s ⟨s.fleet.step (.fetch w.subscription.fullTopic w.subscription.mode now limit
          w.subscription.leaseTtl),
        s.workers.set i ⟨w.subscription,
          (w.loop.spawn timerIds).pause (w.loop.schedule.delayAfterFetch timerIds.length jitter),
          w.numbers ++ (List.range timerIds.length).map (s.fleet.tasks.length + ·)⟩⟩
  /-- `due` raises, or `fail_after` does. -/
  | failed (i : Nat) (w : Worker) (limit : Int) (jitter : ℚ) (hw : s.workers[i]? = some w)
      (hpc : w.loop.pc = .fetching limit) :
      CrewStep s (s.setLoop i w (w.loop.pause (w.loop.schedule.delayAfterError jitter)))
  | cancelled (i : Nat) (w : Worker) (hw : s.workers[i]? = some w) (hpc : w.loop.pc ≠ .top) :
      CrewStep s (s.setLoop i w { w.loop with pc := .exited })
  /-- A task of a loop enters the limiter, or acquires a token there. -/
  | enters (i n : Nat) (w : Worker) (d : Dispatched) (ph : Phase) (hw : s.workers[i]? = some w)
      (hd : w.loop.tasks[n]? = some d) (hph : ph ≠ .finished) (hidle : d.phase ≠ .borrowing)
      (hstep : LoopStep w.subscription.sub w.loop (w.loop.setPhase n d ph)) :
      CrewStep s (s.setLoop i w (w.loop.setPhase n d ph))
  /-- A task that holds a token takes a step. -/
  | works (a : Action) (i n m : Nat) (w : Worker) (d : Dispatched) (ha : a.inLimiter = some m)
      (hw : s.workers[i]? = some w) (hpc : w.loop.pc ≠ .top) (hm : w.numbers[n]? = some m)
      (hd : w.loop.tasks[n]? = some d) (hphase : d.phase = .borrowing) :
      CrewStep s { s with fleet := s.fleet.step a }
  /-- A task ends. -/
  | ends (i n m : Nat) (w : Worker) (d : Dispatched) (ending : Ending) (hw : s.workers[i]? = some w)
      (hpc : w.loop.pc ≠ .top) (hm : w.numbers[n]? = some m) (hd : w.loop.tasks[n]? = some d) :
      CrewStep s { s.setLoop i w (w.loop.setPhase n d .finished) with
        fleet := s.fleet.step (.finish m ending) }

/-! ## 2. What a step leaves of the fleet -/

theorem Action.task_of_inLimiter {a : Action} {m : Nat} (ha : a.inLimiter = some m) :
    a.task = some m := by
  cases a <;> first | exact ha | cases ha

namespace Fleet

variable {s : Fleet} {a : Action}

/-- The steps of others leave the tasks alone. -/
theorem tasks_step_others (ha : a.ofOthers) : (s.step a).tasks = s.tasks := by
  cases a with
  | publish | cancel | cancelAll | heal => rfl
  | executeClaim m =>
      simp only [step]
      split
      · split <;> rfl
      · rfl
  | executeRemoval m why =>
      simp only [step]
      split
      · split <;> rfl
      · rfl
  | fetch | sendClaim | claimReply | sendRemoval | finish => cases ha

/-- Only a poll spawns tasks. -/
theorem length_tasks_step (ha : ∀ topic mode now limit ttl, a ≠ .fetch topic mode now limit ttl) :
    (s.step a).tasks.length = s.tasks.length := by
  have heff := step_effect s a
  generalize s.step a = s' at heff
  cases heff with
  | poll => exact (ha _ _ _ _ _ rfl).elim
  | idle | outside | claim | removal => rfl
  | move => exact List.length_set
  | send => exact List.length_set
  | deliver => exact List.length_set

/-- Only a poll has a `due` of a poll executed. -/
theorem polls_step (ha : ∀ topic mode now limit ttl, a ≠ .fetch topic mode now limit ttl) {e : Entry}
    (he : e ∈ (s.step a).log) (ho : e.origin = .poll) : e ∈ s.log := by
  have heff := step_effect s a
  generalize s.step a = s' at heff he
  have hnew : ∀ (o : Origin) topic c, o ≠ .poll → e ∈ (s.execute o topic c).log → e ∈ s.log := by
    intro o topic c hne hmem
    rcases List.mem_append.mp hmem with hold | hlast
    · exact hold
    · rw [List.mem_singleton.mp hlast] at ho
      exact absurd ho hne
  cases heff with
  | poll => exact (ha _ _ _ _ _ rfl).elim
  | idle | move | send | deliver => exact he
  | outside hout => exact hnew _ _ _ (by cases hout <;> nofun) he
  | claim => exact hnew _ _ _ (fun h => by cases h) he
  | removal => exact hnew _ _ _ (fun h => by cases h) he

end Fleet

/-! ## 3. Every task stands in one loop -/

/-- The task `m` of the fleet is the task `d` of a loop: it is of the loop's topic and lease, it has
    not finished while it lives, and then it has sent a claim only if it holds a token. -/
def Job (c : Subscription) (tasks : List Task) (d : Dispatched) (m : Nat) : Prop :=
  ∃ t, tasks[m]? = some t ∧ t.topic = c.fullTopic ∧ t.timerId = d.timerId ∧ t.leaseTtl = c.leaseTtl ∧
    (t.live = true → d.phase ≠ .finished ∧ (t.claimNow ≠ none → d.phase = .borrowing))

/-- What holds of a worker beside the tasks of the fleet. -/
structure Worker.Sound (w : Worker) (tasks : List Task) : Prop where
  loop : Reaches (LoopStep w.subscription.sub) (.init w.subscription.sub) w.loop
  length : w.numbers.length = w.loop.tasks.length
  jobs : ∀ (n m : Nat) (d : Dispatched), w.numbers[n]? = some m → w.loop.tasks[n]? = some d →
    Job w.subscription tasks d m

/-- A poll of a subscriber: of its own topic, for at least one timer and at most as many as it has
    tokens. -/
def Subscription.Polls (c : Subscription) (e : Entry) : Prop :=
  ∃ now limit, e.topic = c.fullTopic ∧ e.command = .due c.mode now limit ∧ 0 < limit ∧
    limit ≤ c.sub.maxConcurrent

structure Staffed (cs : List Subscription) (s : Crew) : Prop where
  fleet : ∃ as, s.fleet = Fleet.run as
  subscriptions : s.workers.map Worker.subscription = cs
  sound : ∀ w ∈ s.workers, w.Sound s.fleet.tasks
  owned : SharedOut (s.workers.map Worker.numbers) s.fleet.tasks.length
  polls : ∀ e ∈ s.fleet.log, e.origin = .poll → ∃ c ∈ cs, c.Polls e

section Jobs

variable {c : Subscription} {fleet : Fleet} {a : Action} {d : Dispatched} {m n : Nat} {w : Worker}
  {tasks : List Task}

/-- A step of the fleet leaves a job one, if it is not the task's own or the task holds a token. -/
theorem Job.step (h : Job c fleet.tasks d m) (hown : a.task = some m → d.phase = .borrowing) :
    Job c (fleet.step a).tasks d m := by
  obtain ⟨t, ht, htopic, hid, httl, hbusy⟩ := h
  by_cases ha : a.task = some m
  · obtain ⟨t', ht', hg⟩ := (Fleet.effect_extends (Fleet.step_effect fleet a)).tasks m t ht
    exact ⟨t', ht', hg.topic.trans htopic, hg.timerId.trans hid, hg.leaseTtl.trans httl,
      fun _ => ⟨by rw [hown ha]; decide, fun _ => hown ha⟩⟩
  · exact ⟨t, Fleet.task_step_other ha ht, htopic, hid, httl, hbusy⟩

theorem Worker.Sound.step (h : w.Sound fleet.tasks)
    (hown : ∀ (n m : Nat) (d : Dispatched), w.numbers[n]? = some m → w.loop.tasks[n]? = some d →
      a.task = some m → d.phase = .borrowing) : w.Sound (fleet.step a).tasks where
  loop := h.loop
  length := h.length
  jobs n m d hm hd := (h.jobs n m d hm hd).step (hown n m d hm hd)

/-- A loop that goes on with the tasks it has stays sound. -/
theorem Worker.Sound.goesOn (h : w.Sound tasks) {l : PollLoop}
    (hstep : LoopStep w.subscription.sub w.loop l) (htasks : l.tasks = w.loop.tasks) :
    Worker.Sound { w with loop := l } tasks where
  loop := h.loop.tail hstep
  length := by
    show w.numbers.length = l.tasks.length
    rw [htasks]
    exact h.length
  jobs n m d hm hd := h.jobs n m d hm (htasks ▸ hd)

/-- A task whose phase changes leaves its loop sound, where its job is one after the change. -/
theorem Worker.Sound.setPhase (h : w.Sound tasks) {tasks' : List Task} {ph : Phase}
    (hstep : LoopStep w.subscription.sub w.loop (w.loop.setPhase n d ph))
    (hd : w.loop.tasks[n]? = some d)
    (hself : ∀ m : Nat, w.numbers[n]? = some m → Job w.subscription tasks' { d with phase := ph } m)
    (hrest : ∀ (n' m : Nat) (d' : Dispatched), n' ≠ n → w.numbers[n']? = some m → Job w.subscription tasks d' m →
      Job w.subscription tasks' d' m) :
    Worker.Sound { w with loop := w.loop.setPhase n d ph } tasks' where
  loop := h.loop.tail hstep
  length := by
    show w.numbers.length = (w.loop.tasks.set n _).length
    rw [List.length_set]
    exact h.length
  jobs n' m d' hm hd' := by
    have hset : (w.loop.tasks.set n { d with phase := ph })[n']? = some d' := hd'
    by_cases hn : n' = n
    · subst hn
      rw [List.getElem?_set_self (List.getElem?_eq_some_iff.mp hd).1] at hset
      cases hset
      exact hself m hm
    · rw [List.getElem?_set_ne (Ne.symm hn)] at hset
      exact hrest n' m d' hn hm (h.jobs n' m d' hm hset)

end Jobs

section Steps

variable {cs : List Subscription} {s : Crew} {i : Nat} {w w' : Worker} {fleet' : Fleet} {a : Action}

/-- A worker replaced in what was recorded of it. -/
theorem map_set_same {α : Type} (f : Worker → α) (hw : s.workers[i]? = some w) (hf : f w' = f w) :
    (s.workers.set i w').map f = s.workers.map f := by
  obtain ⟨hi, rfl⟩ := List.getElem?_eq_some_iff.mp hw
  rw [List.map_set, hf, ← List.getElem_map f (h := by rwa [List.length_map]), List.set_getElem_self]

/-- One worker moves, alone or with the fleet. -/
theorem Staffed.set (h : Staffed cs s) (hw : s.workers[i]? = some w)
    (hfleet : ∃ as, fleet' = Fleet.run as) (hsub : w'.subscription = w.subscription)
    (hself : w'.Sound fleet'.tasks)
    (hothers : ∀ j w₁, j ≠ i → s.workers[j]? = some w₁ → w₁.Sound fleet'.tasks)
    (howned : SharedOut ((s.workers.set i w').map Worker.numbers) fleet'.tasks.length)
    (hpolls : ∀ e ∈ fleet'.log, e.origin = .poll → ∃ c ∈ cs, c.Polls e) :
    Staffed cs ⟨fleet', s.workers.set i w'⟩ where
  fleet := hfleet
  subscriptions := (map_set_same _ hw hsub).trans h.subscriptions
  sound w₁ hw₁ := by
    obtain ⟨j, hj⟩ := List.getElem?_of_mem hw₁
    have hset : (s.workers.set i w')[j]? = some w₁ := hj
    by_cases hij : j = i
    · subst hij
      rw [List.getElem?_set_self (List.getElem?_eq_some_iff.mp hw).1] at hset
      cases hset
      exact hself
    · rw [List.getElem?_set_ne (Ne.symm hij)] at hset
      exact hothers j w₁ hij hset
  owned := howned
  polls := hpolls

/-- The loop of a worker moves, and the fleet stands still. -/
theorem Staffed.setLoop (h : Staffed cs s) (hw : s.workers[i]? = some w) {l : PollLoop}
    (hself : Worker.Sound { w with loop := l } s.fleet.tasks) : Staffed cs (s.setLoop i w l) := by
  have hnumbers : (s.workers.set i { w with loop := l }).map Worker.numbers =
      s.workers.map Worker.numbers := map_set_same _ hw rfl
  refine h.set hw h.fleet rfl hself (fun j w₁ _ hj => h.sound w₁ (List.mem_of_getElem? hj)) ?_ h.polls
  rw [hnumbers]
  exact h.owned

/-- The runs of the fleet, one action longer. -/
theorem Staffed.fleet_step (h : Staffed cs s) (a : Action) : ∃ as, s.fleet.step a = Fleet.run as := by
  obtain ⟨as, has⟩ := h.fleet
  exact ⟨as ++ [a], by rw [has]; exact (replay_concat ..).symm⟩

/-- The fleet moves, without a poll, and the loops stand still. -/
theorem Staffed.act (h : Staffed cs s)
    (ha : ∀ topic mode now limit ttl, a ≠ .fetch topic mode now limit ttl)
    (hsound : ∀ w ∈ s.workers, w.Sound (s.fleet.step a).tasks) :
    Staffed cs { s with fleet := s.fleet.step a } where
  fleet := h.fleet_step a
  subscriptions := h.subscriptions
  sound := hsound
  owned := by
    rw [Fleet.length_tasks_step ha]
    exact h.owned
  polls e he ho := h.polls e (Fleet.polls_step ha he ho) ho

/-- A task has one place, in one loop. -/
theorem Staffed.unique (h : Staffed cs s) {j n n' m : Nat} {w₁ : Worker} (hw : s.workers[i]? = some w)
    (hj : s.workers[j]? = some w₁) (hn : w.numbers[n]? = some m) (hn' : w₁.numbers[n']? = some m) :
    i = j ∧ n = n' :=
  h.owned.unique (by rw [List.getElem?_map, hw]; rfl) (by rw [List.getElem?_map, hj]; rfl) hn hn'

/-- A poll spawns a task of the fleet for each id it returns. -/
theorem Fleet.tasks_step_fetch {fleet : Fleet} {topic : String} {mode : ClientMode} {now : ℚ}
    {limit : Int} {timerIds : List String} (ttl : ℚ)
    (hdue : ((fleet.stores topic).due mode now limit).1 = .ok timerIds) :
    (fleet.step (.fetch topic mode now limit ttl)).tasks =
      fleet.tasks ++ timerIds.map (.spawned topic ttl) := by
  have hids : idsOf ((fleet.stores topic).run (.due mode now limit)).1 = timerIds := by
    show idsOf (((fleet.stores topic).due mode now limit).1.map .ids) = timerIds
    rw [hdue]
    rfl
  show fleet.tasks ++ List.map _ _ = _
  rw [hids]

/-- The loop that polled is sound beside the tasks the poll spawned. -/
theorem Worker.Sound.polled {tasks : List Task} (h : w.Sound tasks) {l : PollLoop}
    {timerIds : List String} (hstep : LoopStep w.subscription.sub w.loop l)
    (htasks : l.tasks = w.loop.tasks ++ timerIds.map (⟨·, .spawned⟩)) :
    Worker.Sound ⟨w.subscription, l,
        w.numbers ++ (List.range timerIds.length).map (tasks.length + ·)⟩
      (tasks ++ timerIds.map (.spawned w.subscription.fullTopic w.subscription.leaseTtl)) where
  loop := h.loop.tail hstep
  length := by
    rw [htasks]
    simp [h.length]
  jobs n m d hm hd := by
    have hd' : l.tasks[n]? = some d := hd
    have hm' : (w.numbers ++ (List.range timerIds.length).map (tasks.length + ·))[n]? = some m := hm
    rw [htasks] at hd'
    by_cases hn : n < w.numbers.length
    · -- a task of an earlier poll
      rw [List.getElem?_append_left hn] at hm'
      rw [List.getElem?_append_left (h.length ▸ hn)] at hd'
      obtain ⟨t, ht, hrest⟩ := h.jobs n m d hm' hd'
      refine ⟨t, ?_, hrest⟩
      rw [List.getElem?_append_left (List.getElem?_eq_some_iff.mp ht).1]
      exact ht
    · rw [List.getElem?_append_right (Nat.not_lt.mp hn), List.getElem?_map] at hm'
      rw [List.getElem?_append_right (h.length ▸ Nat.not_lt.mp hn), List.getElem?_map,
        ← h.length] at hd'
      obtain ⟨id, hid, rfl⟩ := Option.map_eq_some_iff.mp hd'
      obtain ⟨k, hk, rfl⟩ := Option.map_eq_some_iff.mp hm'
      obtain ⟨_, hkn⟩ := List.getElem?_eq_some_iff.mp hk
      rw [List.getElem_range] at hkn
      subst hkn
      refine ⟨.spawned w.subscription.fullTopic w.subscription.leaseTtl id, ?_, rfl, rfl, rfl,
        fun _ => ⟨nofun, fun hc => absurd rfl hc⟩⟩
      rw [List.getElem?_append_right (Nat.le_add_right _ _), Nat.add_sub_cancel_left,
        List.getElem?_map, hid]
      rfl

/-- **A poll keeps a crew staffed**, and is one its loop may make. -/
theorem Staffed.polled (h : Staffed cs s) {limit : Int} {now jitter : ℚ} {timerIds : List String}
    (hw : s.workers[i]? = some w) (hpc : w.loop.pc = .fetching limit)
    (hentered : w.loop.inPhase .spawned = 0)
    (hdue : ((s.fleet.stores w.subscription.fullTopic).due w.subscription.mode now limit).1 =
      .ok timerIds) :
    Staffed cs ⟨s.fleet.step (.fetch w.subscription.fullTopic w.subscription.mode now limit
        w.subscription.leaseTtl),
      s.workers.set i ⟨w.subscription,
        (w.loop.spawn timerIds).pause (w.loop.schedule.delayAfterFetch timerIds.length jitter),
        w.numbers ++ (List.range timerIds.length).map (s.fleet.tasks.length + ·)⟩⟩ := by
  have hmem := List.mem_of_getElem? hw
  have hsound := h.sound w hmem
  have htasks := Fleet.tasks_step_fetch w.subscription.leaseTtl hdue
  refine h.set hw (h.fleet_step _) rfl ?_ (fun j w₁ _ hj => ?_) ?_ fun e he ho => ?_
  · rw [htasks]
    exact hsound.polled (.fetched limit _ _ now jitter timerIds hpc hentered hdue) rfl
  · exact (h.sound w₁ (List.mem_of_getElem? hj)).step fun _ _ _ _ _ => nofun
  · have hset : (s.workers.map Worker.numbers)[i]? = some w.numbers := by
      rw [List.getElem?_map, hw]
      rfl
    rw [List.map_set, htasks, List.length_append, List.length_map]
    exact h.owned.extend hset timerIds.length
  · rcases List.mem_append.mp he with hold | hlast
    · exact h.polls e hold ho
    · have hlimit := (reaches_invariant (bounded_init w.subscription.sub) (fun _ _ => bounded_step)
        hsound.loop).pending limit hpc
      rw [List.mem_singleton.mp hlast]
      exact ⟨w.subscription, h.subscriptions ▸ List.mem_map_of_mem hmem, now, limit, rfl, rfl,
        hlimit.1, hlimit.2.1⟩

/-- The end of a task keeps a crew staffed. -/
theorem Staffed.ends (h : Staffed cs s) {n m : Nat} {d : Dispatched} (ending : Ending)
    (hw : s.workers[i]? = some w) (hpc : w.loop.pc ≠ .top) (hm : w.numbers[n]? = some m)
    (hd : w.loop.tasks[n]? = some d) :
    Staffed cs { s.setLoop i w (w.loop.setPhase n d .finished) with
      fleet := s.fleet.step (.finish m ending) } := by
  have hsound := h.sound w (List.mem_of_getElem? hw)
  have hnumbers : (s.workers.set i { w with loop := w.loop.setPhase n d .finished }).map
      Worker.numbers = s.workers.map Worker.numbers := map_set_same _ hw rfl
  refine h.set hw (h.fleet_step _) rfl ?_ (fun j w₁ hij hj => ?_) ?_ fun e he ho => ?_
  · refine hsound.setPhase (.finish n d hpc hd) hd (fun m' hm' => ?_) fun n' m' d' hn hm' hjob => ?_
    · rw [hm] at hm'
      cases hm'
      obtain ⟨t, ht, htopic, hid, httl, _⟩ := hsound.jobs n m d hm hd
      rw [Fleet.step_finish ht ending]
      exact ⟨_, Fleet.getElem?_setTask_self ht _, htopic, hid, httl,
        fun hl => by simp [Task.live] at hl⟩
    · refine hjob.step fun ha => absurd (h.unique hw hw hm' ?_).2 hn
      rw [hm, Option.some.inj ha]
  · refine (h.sound w₁ (List.mem_of_getElem? hj)).step fun n' m' d' hm' _ ha => ?_
    exact absurd (h.unique hj hw hm' (by rw [hm, Option.some.inj ha])).1 hij
  · rw [hnumbers, Fleet.length_tasks_step (by nofun)]
    exact h.owned
  · exact h.polls e (Fleet.polls_step (by nofun) he ho) ho

/-- **Every step keeps a crew staffed.** -/
theorem staffed_step {s' : Crew} (h : Staffed cs s) (hs : CrewStep s s') : Staffed cs s' := by
  cases hs with
  | others a ha =>
      refine h.act (fun _ _ _ _ _ he => by rw [he] at ha; cases ha) fun w hw => ?_
      rw [Fleet.tasks_step_others ha]
      exact h.sound w hw
  | goesOn i w l hw _ hstep htasks =>
      exact h.setLoop hw ((h.sound w (List.mem_of_getElem? hw)).goesOn hstep htasks)
  | polled i w limit now jitter timerIds hw hpc hentered hdue => exact h.polled hw hpc hentered hdue
  | failed i w limit jitter hw hpc =>
      exact h.setLoop hw
        ((h.sound w (List.mem_of_getElem? hw)).goesOn (.failed limit jitter hpc) rfl)
  | cancelled i w hw hpc =>
      exact h.setLoop hw ((h.sound w (List.mem_of_getElem? hw)).goesOn (.cancelled hpc) rfl)
  | enters i n w d ph hw hd hph hidle hstep =>
      have hsound := h.sound w (List.mem_of_getElem? hw)
      refine h.setLoop hw (hsound.setPhase hstep hd (fun m hm => ?_) fun _ _ _ _ _ hjob => hjob)
      -- it held no token before, so it has sent no claim
      obtain ⟨t, ht, htopic, hid, httl, hbusy⟩ := hsound.jobs n m d hm hd
      exact ⟨t, ht, htopic, hid, httl, fun hl => ⟨hph, fun hc => absurd ((hbusy hl).2 hc) hidle⟩⟩
  | works a i n m w d ha hw _ hm hd hphase =>
      refine h.act (fun _ _ _ _ _ he => by rw [he] at ha; cases ha) fun w₁ hw₁ => ?_
      obtain ⟨j, hj⟩ := List.getElem?_of_mem hw₁
      refine (h.sound w₁ hw₁).step fun n' m' d' hm' hd' ha' => ?_
      rw [Action.task_of_inLimiter ha] at ha'
      cases ha'
      obtain ⟨rfl, rfl⟩ := h.unique hj hw hm' hm
      rw [hw] at hj
      cases hj
      rw [hd] at hd'
      cases hd'
      exact hphase
  | ends i n m w d ending hw hpc hm hd => exact h.ends ending hw hpc hm hd

theorem staffed_init (cs : List Subscription) : Staffed cs (.init cs) where
  fleet := ⟨[], rfl⟩
  subscriptions := by
    show (cs.map Subscription.started).map Worker.subscription = cs
    rw [List.map_map]
    exact List.map_id _
  sound w hw := by
    obtain ⟨c, _, rfl⟩ := List.mem_map.mp hw
    exact ⟨.refl, rfl, fun n m d hm => by cases hm⟩
  owned := by
    have hnil : (cs.map Subscription.started).map Worker.numbers = List.replicate cs.length [] := by
      rw [List.map_map]
      exact List.map_const' ..
    show SharedOut ((cs.map Subscription.started).map Worker.numbers) 0
    rw [hnil]
    exact sharedOut_nil _
  polls e he := by cases he
end Steps

/-! ## 4. Tokens -/

/-- A task that sent its claim and has not ended. -/
def Task.engaged (t : Task) : Bool := t.live && t.claimNow.isSome

/-- A task whose handler runs. -/
def Task.handling (t : Task) : Bool := t.live && t.payload.isSome

/-- **The limiter grants no more tokens than it has.** -/
theorem tokens_step {sub : TimerSub} {l l' : PollLoop} (h : l.borrowedTokens ≤ sub.maxConcurrent)
    (hs : LoopStep sub l l') : l'.borrowedTokens ≤ sub.maxConcurrent := by
  cases hs with
  | stopped | backPressured | fetch | failed | wake | cancelled => exact h
  | fetched limit mode k now jitter ids =>
      have hspawn := l.inPhase_spawn ids .borrowing
      show (l.spawn ids).inPhase .borrowing ≤ _
      rw [hspawn, if_neg (by decide)]
      exact h
  | enter n t ph _ ht hspawned hph =>
      have hcount := PollLoop.inPhase_setPhase ht ph .borrowing
      rw [hspawned, if_neg (by decide)] at hcount
      show (l.setPhase n t ph).inPhase .borrowing ≤ _
      unfold PollLoop.borrowedTokens at h hph
      rcases hph with rfl | ⟨rfl, hfree⟩
      · rw [if_neg (by decide)] at hcount
        omega
      · rw [if_pos rfl] at hcount
        omega
  | acquire n t _ ht hwaiting hfree =>
      have hcount := PollLoop.inPhase_setPhase ht .borrowing .borrowing
      rw [hwaiting, if_neg (by decide), if_pos rfl] at hcount
      show (l.setPhase n t .borrowing).inPhase .borrowing ≤ _
      unfold PollLoop.borrowedTokens at hfree
      omega
  | finish n t _ ht =>
      have hcount := PollLoop.inPhase_setPhase ht .finished .borrowing
      rw [if_neg (show ¬ Phase.finished = .borrowing by decide)] at hcount
      show (l.setPhase n t .finished).inPhase .borrowing ≤ _
      unfold PollLoop.borrowedTokens at h
      omega

/-- A task that was handed a payload has sent its claim. -/
theorem Fleet.Inv.claimed {s : Fleet} (h : Fleet.Inv s) {m : Nat} {t : Task} (ht : s.tasks[m]? = some t)
    (hp : t.payload ≠ none) : t.claimNow ≠ none := by
  obtain ⟨d, hd, rfl⟩ := (h.handed m t ht).mp hp
  obtain ⟨e, _, hk, ho, _⟩ := h.backed d hd
  have hsent := h.sent _ e hk
  unfold Fleet.SentBy at hsent
  rw [ho] at hsent
  obtain ⟨t', now, ht', hnow, _⟩ := hsent
  rw [ht] at ht'
  cases ht'
  rw [hnow]
  nofun

section Counts

variable {w : Worker} {tasks : List Task}

/-- What the fleet has for a task of the loop. -/
theorem Worker.Sound.task_at (h : w.Sound tasks) {n m : Nat} {d : Dispatched} {t : Task}
    (hm : w.numbers[n]? = some m) (hd : w.loop.tasks[n]? = some d) (ht : tasks[m]? = some t) :
    t.topic = w.subscription.fullTopic ∧ t.leaseTtl = w.subscription.leaseTtl ∧
      (t.live = true → d.phase ≠ .finished ∧ (t.claimNow ≠ none → d.phase = .borrowing)) := by
  obtain ⟨t', ht', htopic, _, httl, hbusy⟩ := h.jobs n m d hm hd
  rw [ht] at ht'
  cases ht'
  exact ⟨htopic, httl, hbusy⟩

theorem Worker.Sound.tokens (h : w.Sound tasks) :
    w.loop.borrowedTokens ≤ w.subscription.sub.maxConcurrent :=
  reaches_invariant (I := fun l => l.borrowedTokens ≤ w.subscription.sub.maxConcurrent)
    (Nat.zero_le _) (fun _ _ => tokens_step) h.loop

/-- A worker has no more claims and handlers on their way than its limiter has tokens. -/
theorem Worker.Sound.engaged (h : w.Sound tasks) :
    countOf tasks Task.engaged w.numbers ≤ w.subscription.sub.maxConcurrent := by
  refine le_trans (countOf_le h.length fun n m d t hm hd ht he => ?_) h.tokens
  obtain ⟨_, _, hbusy⟩ := h.task_at hm hd ht
  obtain ⟨hl, hc⟩ := Bool.and_eq_true_iff.mp he
  exact decide_eq_true ((hbusy hl).2 (Option.isSome_iff_ne_none.mp hc))

/-- Its tasks that live are at most twice as many. -/
theorem Worker.Sound.live (h : w.Sound tasks) :
    countOf tasks Task.live w.numbers ≤ 2 * w.subscription.sub.maxConcurrent := by
  have hbound := reaches_invariant (bounded_init w.subscription.sub) (fun _ _ => bounded_step) h.loop
  have hunfinished : w.loop.unfinished ≤ 2 * w.subscription.sub.maxConcurrent := by
    rw [w.loop.unfinished_eq]
    exact hbound.total
  refine le_trans (countOf_le h.length fun n m d t hm hd ht hl => ?_) hunfinished
  obtain ⟨_, _, hbusy⟩ := h.task_at hm hd ht
  exact decide_eq_true (hbusy hl).1

/-- Its handlers are on its topic, one for each token at most. -/
theorem Worker.Sound.handling {fleet : Fleet} (h : w.Sound fleet.tasks) (hinv : Fleet.Inv fleet)
    (topic : String) : countOf fleet.tasks (fun t => t.handling && decide (t.topic = topic)) w.numbers ≤
      if decide (w.subscription.fullTopic = topic) then w.subscription.sub.maxConcurrent else 0 := by
  have hall : countOf fleet.tasks (fun t => t.handling && decide (t.topic = topic)) w.numbers ≤
      w.loop.tasks.countP fun d => decide (d.phase = .borrowing ∧ w.subscription.fullTopic = topic) := by
    refine countOf_le h.length fun n m d t hm hd ht hp => ?_
    obtain ⟨htopic, _, hbusy⟩ := h.task_at hm hd ht
    obtain ⟨hhandling, heq⟩ := Bool.and_eq_true_iff.mp hp
    obtain ⟨hl, hpayload⟩ := Bool.and_eq_true_iff.mp hhandling
    have hclaimed := hinv.claimed ht (Option.isSome_iff_ne_none.mp hpayload)
    exact decide_eq_true ⟨(hbusy hl).2 hclaimed, htopic ▸ of_decide_eq_true heq⟩
  refine hall.trans ?_
  by_cases hc : w.subscription.fullTopic = topic
  · rw [if_pos (decide_eq_true hc)]
    refine le_trans (List.countP_mono_left fun d _ hd => ?_) h.tokens
    exact decide_eq_true (of_decide_eq_true hd).1
  · rw [if_neg (by rw [decide_eq_true_eq]; exact hc), Nat.le_zero, List.countP_eq_zero]
    exact fun d _ hd => hc (of_decide_eq_true hd).2

end Counts

/-- What holds of a crew in every reachable state. -/
structure Orderly (cs : List Subscription) (s : Crew) : Prop where
  /-- It is a run of the fleet, -/
  fleet : ∃ as, s.fleet = Fleet.run as
  subscriptions : s.workers.map Worker.subscription = cs
  /-- and a run of each loop. -/
  loops : ∀ w ∈ s.workers, Reaches (LoopStep w.subscription.sub) (.init w.subscription.sub) w.loop
  /-- A worker that dies takes at most as many claims and handlers with it as it has tokens. -/
  engaged : ∀ w ∈ s.workers,
    countOf s.fleet.tasks Task.engaged w.numbers ≤ w.subscription.sub.maxConcurrent
  live : ∀ w ∈ s.workers,
    countOf s.fleet.tasks Task.live w.numbers ≤ 2 * w.subscription.sub.maxConcurrent
  handlers : ∀ topic, s.fleet.tasks.countP (fun t => t.handling && decide (t.topic = topic)) ≤
    ((cs.filter fun c => decide (c.fullTopic = topic)).map fun c => c.sub.maxConcurrent).sum
  polls : ∀ e ∈ s.fleet.log, e.origin = .poll → ∃ c ∈ cs, c.Polls e
  /-- Claims are for the lease of a subscriber of the topic. -/
  claims : ∀ e ∈ s.fleet.log, ∀ m, e.origin = .claimOf m →
    ∃ c ∈ cs, ∃ timerId now, e.IsClaim c.fullTopic timerId now c.leaseTtl

/-- **A CREW IS ORDERLY.** In every order of the steps of any number of subscribers' loops, of their
    tasks, of Redis and of everybody else, with every failure and crash: the crew is a run of the
    fleet and of each loop at once, no worker has more claims and handlers on their way than its
    `max_concurrent`, no topic more handlers than its subscribers allow together, every poll is for at
    least one timer and at most `max_concurrent`, and every claim for its subscriber's lease. -/
theorem crew_orderly (cs : List Subscription) {s : Crew} (h : Reaches CrewStep (.init cs) s) :
    Orderly cs s := by
  have hst : Staffed cs s := reaches_invariant (staffed_init cs) (fun _ _ => staffed_step) h
  have hinv : Fleet.Inv s.fleet := by
    obtain ⟨as, has⟩ := hst.fleet
    exact has ▸ Fleet.inv_run as
  refine ⟨hst.fleet, hst.subscriptions, fun w hw => (hst.sound w hw).loop,
    fun w hw => (hst.sound w hw).engaged, fun w hw => (hst.sound w hw).live, fun topic => ?_, hst.polls,
    fun e he m ho => ?_⟩
  · rw [hst.owned.countP_eq, List.map_map, ← hst.subscriptions]
    exact sum_le_of_kept fun w hw => (hst.sound w hw).handling hinv topic
  · obtain ⟨k, hk⟩ := List.getElem?_of_mem he
    have hsent := hinv.sent k e hk
    unfold Fleet.SentBy at hsent
    rw [ho] at hsent
    obtain ⟨t, now, ht, _, hclaim⟩ := hsent
    -- the worker the task belongs to
    obtain ⟨numbers, hnumbers, hm⟩ := hst.owned.owner (List.getElem?_eq_some_iff.mp ht).1
    obtain ⟨w, hw, rfl⟩ := List.mem_map.mp hnumbers
    obtain ⟨n, hn⟩ := List.getElem?_of_mem hm
    have hlt : n < w.loop.tasks.length :=
      (hst.sound w hw).length ▸ (List.getElem?_eq_some_iff.mp hn).1
    obtain ⟨htopic, httl, _⟩ := (hst.sound w hw).task_at hn (List.getElem?_eq_getElem hlt) ht
    refine ⟨w.subscription, hst.subscriptions ▸ List.mem_map_of_mem hw, t.timerId, now, ?_⟩
    rw [← htopic, ← httl]
    exact hclaim

/-- Two subscribers of one topic, with one token and with two. -/
def oneToken : Subscription := ⟨"t", .bytes, ⟨1, 5, 1⟩, 30⟩

def twoTokens : Subscription := ⟨"t", .bytes, ⟨1, 5, 2⟩, 60⟩

/-- The worker of a subscription whose one task `n`, of the timer "a", is at a phase. -/
def Subscription.withTask (c : Subscription) (n : Nat) (pc : LoopPc) (ph : Phase) : Worker :=
  ⟨c, ⟨pc, .fresh 1 5, [⟨"a", ph⟩]⟩, [n]⟩

/-- Both fetched the one timer of the topic: the first runs its handler, the claim of the second was
    refused. -/
def bothFetched : Crew :=
  ⟨Fleet.run [.publish "t" "a" [1] 0, .fetch "t" .bytes 1 1 30, .fetch "t" .bytes 1 2 60, .sendClaim 0 1,
      .sendClaim 1 1, .executeClaim 0, .executeClaim 1, .claimReply 0 3, .claimReply 1 4,
      .finish 1 .contested],
    [oneToken.withTask 0 (.fetching 1) .borrowing, twoTokens.withTask 1 (.fetching 2) .finished]⟩

section Both

variable {cs : List Subscription} {f : Fleet}

/-- Both loops poll before either task enters its limiter. -/
theorem reaches_fetched (h : Reaches CrewStep (.init cs) ⟨f, [oneToken.started, twoTokens.started]⟩)
    (hnone : f.tasks.length = 0) (hdue : ((f.stores "t").due .bytes 1 1).1 = .ok ["a"])
    (hone : (f.step (.fetch "t" .bytes 1 1 30)).tasks.length = 1)
    (hdue' : (((f.step (.fetch "t" .bytes 1 1 30)).stores "t").due .bytes 1 2).1 = .ok ["a"]) :
    Reaches CrewStep (.init cs)
      ⟨(f.step (.fetch "t" .bytes 1 1 30)).step (.fetch "t" .bytes 1 2 60),
        [oneToken.withTask 0 (.fetching 1) .borrowing, twoTokens.withTask 1 (.fetching 2) .borrowing]⟩ := by
  let polling : Worker := ⟨oneToken, ⟨.fetching 1, .fresh 1 5, []⟩, []⟩
  let polling' : Worker := ⟨twoTokens, ⟨.fetching 2, .fresh 1 5, []⟩, []⟩
  have h₁ : CrewStep ⟨f, [oneToken.started, twoTokens.started]⟩ ⟨f, [polling, twoTokens.started]⟩ :=
    .goesOn 0 oneToken.started polling.loop rfl nofun (.fetch rfl (by decide)) rfl
  have h₂ : CrewStep ⟨f, [polling, twoTokens.started]⟩ ⟨f, [polling, polling']⟩ :=
    .goesOn 1 twoTokens.started polling'.loop rfl nofun (.fetch rfl (by decide)) rfl
  have h₃ : CrewStep ⟨f, [polling, polling']⟩
      ⟨f.step (.fetch "t" .bytes 1 1 30), [oneToken.withTask 0 .top .spawned, polling']⟩ := by
    have hpolled := CrewStep.polled (s := ⟨f, [polling, polling']⟩) 0 polling 1 1 1 ["a"] rfl rfl rfl hdue
    simp only [hnone] at hpolled
    exact hpolled
  generalize f.step (.fetch "t" .bytes 1 1 30) = f' at hone hdue' h₃ ⊢
  have h₄ : CrewStep ⟨f', [oneToken.withTask 0 .top .spawned, polling']⟩
      ⟨f'.step (.fetch "t" .bytes 1 2 60),
        [oneToken.withTask 0 .top .spawned, twoTokens.withTask 1 .top .spawned]⟩ := by
    have hpolled := CrewStep.polled (s := ⟨f', [oneToken.withTask 0 .top .spawned, polling']⟩) 1 polling' 2
      1 1 ["a"] rfl rfl rfl hdue'
    simp only [hone] at hpolled
    exact hpolled
  generalize f'.step (.fetch "t" .bytes 1 2 60) = f'' at h₄ ⊢
  -- each task enters its limiter and gets a token
  have h₅ : CrewStep ⟨f'', [oneToken.withTask 0 .top .spawned, twoTokens.withTask 1 .top .spawned]⟩
      ⟨f'', [oneToken.withTask 0 (.fetching 1) .spawned, twoTokens.withTask 1 .top .spawned]⟩ :=
    .goesOn 0 (oneToken.withTask 0 .top .spawned) _ rfl nofun (.fetch rfl (by decide)) rfl
  have h₆ : CrewStep ⟨f'', [oneToken.withTask 0 (.fetching 1) .spawned, twoTokens.withTask 1 .top .spawned]⟩
      ⟨f'', [oneToken.withTask 0 (.fetching 1) .spawned, twoTokens.withTask 1 (.fetching 2) .spawned]⟩ :=
    .goesOn 1 (twoTokens.withTask 1 .top .spawned) _ rfl nofun (.fetch rfl (by decide)) rfl
  have h₇ : CrewStep
      ⟨f'', [oneToken.withTask 0 (.fetching 1) .spawned, twoTokens.withTask 1 (.fetching 2) .spawned]⟩
      ⟨f'', [oneToken.withTask 0 (.fetching 1) .borrowing, twoTokens.withTask 1 (.fetching 2) .spawned]⟩ :=
    .enters 0 0 (oneToken.withTask 0 (.fetching 1) .spawned) ⟨"a", .spawned⟩ .borrowing rfl rfl (by decide)
      (by decide) (.enter 0 ⟨"a", .spawned⟩ .borrowing nofun rfl rfl (Or.inr ⟨rfl, by decide⟩))
  have h₈ : CrewStep
      ⟨f'', [oneToken.withTask 0 (.fetching 1) .borrowing, twoTokens.withTask 1 (.fetching 2) .spawned]⟩
      ⟨f'', [oneToken.withTask 0 (.fetching 1) .borrowing, twoTokens.withTask 1 (.fetching 2) .borrowing]⟩ :=
    .enters 1 0 (twoTokens.withTask 1 (.fetching 2) .spawned) ⟨"a", .spawned⟩ .borrowing rfl rfl (by decide)
      (by decide) (.enter 0 ⟨"a", .spawned⟩ .borrowing nofun rfl rfl (Or.inr ⟨rfl, by decide⟩))
  exact (((((((h.tail h₁).tail h₂).tail h₃).tail h₄).tail h₅).tail h₆).tail h₇).tail h₈

/-- With their tokens the tasks take any steps, among those of others. -/
theorem reaches_worked {ws : List Worker} (as : List Action)
    (hws : ws =
      [oneToken.withTask 0 (.fetching 1) .borrowing, twoTokens.withTask 1 (.fetching 2) .borrowing])
    (has : ∀ a ∈ as, a.ofOthers = true ∨ a.inLimiter = some 0 ∨ a.inLimiter = some 1)
    (h : Reaches CrewStep (.init cs) ⟨f, ws⟩) : Reaches CrewStep (.init cs) ⟨replay Fleet.step f as, ws⟩ := by
  induction as generalizing f with
  | nil => exact h
  | cons a as ih =>
      have hstep : CrewStep ⟨f, ws⟩ ⟨f.step a, ws⟩ := by
        subst hws
        rcases has a List.mem_cons_self with ha | ha | ha
        · exact CrewStep.others (s := ⟨f, _⟩) a ha
        · exact CrewStep.works (s := ⟨f, _⟩) a 0 0 0 (oneToken.withTask 0 (.fetching 1) .borrowing)
            ⟨"a", .borrowing⟩ ha rfl nofun rfl rfl rfl
        · exact CrewStep.works (s := ⟨f, _⟩) a 1 0 1 (twoTokens.withTask 1 (.fetching 2) .borrowing)
            ⟨"a", .borrowing⟩ ha rfl nofun rfl rfl rfl
      exact ih (fun x hx => has x (List.mem_cons_of_mem _ hx)) (h.tail hstep)

/-- The task of the second ends with its claim refused. -/
theorem reaches_refused (h : Reaches CrewStep (.init cs)
      ⟨f, [oneToken.withTask 0 (.fetching 1) .borrowing, twoTokens.withTask 1 (.fetching 2) .borrowing]⟩) :
    Reaches CrewStep (.init cs) ⟨f.step (.finish 1 .contested),
      [oneToken.withTask 0 (.fetching 1) .borrowing, twoTokens.withTask 1 (.fetching 2) .finished]⟩ :=
  h.tail (.ends 1 0 1 (twoTokens.withTask 1 (.fetching 2) .borrowing) ⟨"a", .borrowing⟩ .contested rfl
    nofun rfl rfl)

end Both

theorem reaches_bothFetched : Reaches CrewStep (.init [oneToken, twoTokens]) bothFetched := by
  let published : Fleet := Fleet.init.step (.publish "t" "a" [1] 0)
  have hpublished : Reaches CrewStep (.init [oneToken, twoTokens])
      ⟨published, [oneToken.started, twoTokens.started]⟩ :=
    .single (CrewStep.others (s := .init [oneToken, twoTokens]) (.publish "t" "a" [1] 0) rfl)
  have hnone : published.tasks.length = 0 := rfl
  have hone : (published.step (.fetch "t" .bytes 1 1 30)).tasks.length = 1 := by decide +kernel
  have hdue : ((published.stores "t").due .bytes 1 1).1 = .ok ["a"] := by decide +kernel
  have hdue' : (((published.step (.fetch "t" .bytes 1 1 30)).stores "t").due .bytes 1 2).1 = .ok ["a"] := by
    decide +kernel
  have hend := reaches_refused (reaches_worked [.sendClaim 0 1, .sendClaim 1 1, .executeClaim 0,
    .executeClaim 1, .claimReply 0 3, .claimReply 1 4] rfl (by decide)
    (reaches_fetched hpublished hnone hdue hone hdue'))
  have hrun : bothFetched.fleet = (replay Fleet.step ((published.step (.fetch "t" .bytes 1 1 30)).step
      (.fetch "t" .bytes 1 2 60)) [.sendClaim 0 1, .sendClaim 1 1, .executeClaim 0, .executeClaim 1,
        .claimReply 0 3, .claimReply 1 4]).step (.finish 1 .contested) := by
    simp only [bothFetched, Fleet.run, replay_cons, replay_nil, published]
  rw [← hrun] at hend
  exact hend

theorem crew_orderly_two : Reaches CrewStep (.init [oneToken, twoTokens]) bothFetched ∧
    Orderly [oneToken, twoTokens] bothFetched :=
  ⟨reaches_bothFetched, crew_orderly [oneToken, twoTokens] reaches_bothFetched⟩

end RedisTimers
