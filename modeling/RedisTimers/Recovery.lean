/-
  File:      RedisTimers/Recovery.lean
  Subject:   A POLL THAT NOTHING GOES WRONG FOR (subscriber/usecase.py: _get_msgs,
             _claim_and_consume; store.py: due, claim, remove; message.py: ack), in any reachable
             state, and what one worker alone makes of whatever crashes left behind.

  * `course` -- the steps of a task whose handler returns, in their order;
  * `step_sendClaim` .. `step_finish` -- what each of them does where it is enabled;
  * `Stage`, `stage_own`, `stage_other` -- how far a task got, among the steps of everybody else;
  * `poll_served` -- a poll hands over each timer it fetched exactly once and leaves none of them,
    in every order of its tasks' steps and of everybody else's;
  * `round`, `recoverable` -- NO DEAD END: from every reachable state a worker that handles one timer
    at a time can hand over all that is pending.
-/
import Mathlib.Data.Finset.Order
import RedisTimers.Guarantees

namespace RedisTimers

open Lease Replay

/-- The task an action is a step of. -/
def Action.task : Action → Option Nat
  | .sendClaim n _ | .executeClaim n | .claimReply n _ | .sendRemoval n _ | .executeRemoval n _
  | .finish n _ => some n
  | .publish .. | .cancel .. | .cancelAll _ | .heal .. | .fetch .. => none

namespace Fleet

/-- The steps of a task whose handler returns: it claims at the clock reading `c`, reads the reply at
    position `k` of the log, acks, and ends. -/
def course (n : Nat) (c : ℚ) (k : Nat) : List Action :=
  [.sendClaim n c, .executeClaim n, .claimReply n k, .sendRemoval n .ack, .executeRemoval n .ack,
    .finish n (.consumed .returned)]

/-! ## 1. The steps of a course, where they are enabled -/

section Steps

variable {s : Fleet} {n k : Nat} {task : Task} {e : Entry} {now : ℚ} {p : Bytes} {why : Removal}

theorem step_sendClaim (ht : s.tasks[n]? = some task) (hl : task.live = true)
    (hc : task.claimNow = none) (now : ℚ) :
    step s (.sendClaim n now) = s.setTask n { task with claimNow := some now } := by
  simp only [step, ht]
  exact if_pos ⟨hl, hc⟩

theorem step_executeClaim (ht : s.tasks[n]? = some task) (hc : task.claimNow = some now) :
    step s (.executeClaim n) =
      s.execute (.claimOf n) task.topic (.claim task.timerId now task.leaseTtl) := by
  simp only [step, ht, hc]

theorem step_claimReply (ht : s.tasks[n]? = some task) (hl : task.live = true)
    (hp : task.payload = none) (hk : s.log[k]? = some e) (ho : e.origin = .claimOf n)
    (hg : e.granted = some p) :
    step s (.claimReply n k) = { s.setTask n { task with payload := some p } with
      delivered := s.delivered ++ [⟨n, k, task.topic, task.timerId, p⟩] } := by
  simp only [step, ht, hk, hg]
  exact if_pos ⟨hl, hp, ho⟩

theorem step_executeRemoval (ht : s.tasks[n]? = some task) (hw : why ∈ task.removals) :
    step s (.executeRemoval n why) =
      s.execute (.removalBy n why) task.topic (.remove task.timerId) := by
  simp only [step, ht]
  exact if_pos hw

theorem step_finish (ht : s.tasks[n]? = some task) (ending : Ending) :
    step s (.finish n ending) = s.setTask n { task with ending := task.ending.or (some ending) } := by
  simp only [step, ht]

theorem getElem?_setTask_self (ht : s.tasks[n]? = some task) (t : Task) :
    (s.setTask n t).tasks[n]? = some t :=
  List.getElem?_set_self (List.getElem?_eq_some_iff.mp ht).1

end Steps

/-! ## 2. The steps of everybody else -/

section Others

variable {s : Fleet} {n : Nat} {task : Task} {a : Action}

/-- What a step leaves of the tasks and of the log, and whose step it is: it replaces its own task or
    spawns new ones, and the claims it has Redis execute are its own task's. -/
theorem step_own (s : Fleet) (a : Action) :
    ((∃ new, (step s a).tasks = s.tasks ++ new) ∨
      ∃ m t, a.task = some m ∧ (step s a).tasks = s.tasks.set m t) ∧
    ((step s a).log = s.log ∨ ∃ e, (step s a).log = s.log ++ [e] ∧
      ∀ m, e.origin = .claimOf m → a.task = some m) := by
  have hsame : ∃ new, s.tasks = s.tasks ++ new := ⟨[], by simp⟩
  cases a with
  | publish | cancel | cancelAll | heal => exact ⟨Or.inl hsame, Or.inr ⟨_, rfl, fun m h => by cases h⟩⟩
  | fetch => exact ⟨Or.inl ⟨_, rfl⟩, Or.inr ⟨_, rfl, fun m h => by cases h⟩⟩
  | sendClaim m now =>
      simp only [step]
      split
      · split
        · exact ⟨Or.inr ⟨m, _, rfl, rfl⟩, Or.inl rfl⟩
        · exact ⟨Or.inl hsame, Or.inl rfl⟩
      · exact ⟨Or.inl hsame, Or.inl rfl⟩
  | executeClaim m =>
      simp only [step]
      split
      · split
        · exact ⟨Or.inl hsame, Or.inr ⟨_, rfl, fun _ h => by cases h; rfl⟩⟩
        · exact ⟨Or.inl hsame, Or.inl rfl⟩
      · exact ⟨Or.inl hsame, Or.inl rfl⟩
  | claimReply m k =>
      simp only [step]
      split
      · split
        · split <;> exact ⟨Or.inr ⟨m, _, rfl, rfl⟩, Or.inl rfl⟩
        · exact ⟨Or.inl hsame, Or.inl rfl⟩
      · exact ⟨Or.inl hsame, Or.inl rfl⟩
  | sendRemoval m why =>
      simp only [step]
      split
      · split
        · exact ⟨Or.inr ⟨m, _, rfl, rfl⟩, Or.inl rfl⟩
        · exact ⟨Or.inl hsame, Or.inl rfl⟩
      · exact ⟨Or.inl hsame, Or.inl rfl⟩
  | executeRemoval m why =>
      simp only [step]
      split
      · split
        · exact ⟨Or.inl hsame, Or.inr ⟨_, rfl, fun _ h => by cases h⟩⟩
        · exact ⟨Or.inl hsame, Or.inl rfl⟩
      · exact ⟨Or.inl hsame, Or.inl rfl⟩
  | finish m ending =>
      simp only [step]
      split
      · exact ⟨Or.inr ⟨m, _, rfl, rfl⟩, Or.inl rfl⟩
      · exact ⟨Or.inl hsame, Or.inl rfl⟩

/-- A step that is not its own leaves a task as it is. -/
theorem task_step_other (ha : a.task ≠ some n) (ht : s.tasks[n]? = some task) :
    (step s a).tasks[n]? = some task := by
  rcases (step_own s a).1 with ⟨new, h⟩ | ⟨m, t, hm, h⟩
  · rw [h, List.getElem?_append_left (List.getElem?_eq_some_iff.mp ht).1]
    exact ht
  · have hmn : m ≠ n := fun he => ha (he ▸ hm)
    rw [h, List.getElem?_set_ne hmn]
    exact ht

/-- A step that is not its own executes no claim of a task. -/
theorem claims_step_other (ha : a.task ≠ some n) {e : Entry} (he : e ∈ (step s a).log)
    (ho : e.origin = .claimOf n) : e ∈ s.log := by
  rcases (step_own s a).2 with h | ⟨x, h, hown⟩
  · exact h ▸ he
  · rw [h] at he
    rcases List.mem_append.mp he with hold | hlast
    · exact hold
    · rw [List.mem_singleton.mp hlast] at ho
      exact absurd (hown n ho) ha

end Others

/-! ## 3. How far a task got -/

/-- A task after the first `i` steps of its course, with the clock reading `c` and the payload `p`. -/
def taskAt (topic id : String) (ttl c : ℚ) (p : Bytes) : Nat → Task
  | 0 => .spawned topic ttl id
  | 1 | 2 => ⟨topic, id, ttl, some c, none, [], none⟩
  | 3 => ⟨topic, id, ttl, some c, some p, [], none⟩
  | 4 | 5 => ⟨topic, id, ttl, some c, some p, [.ack], none⟩
  | _ => ⟨topic, id, ttl, some c, some p, [.ack], some (.consumed .returned)⟩

/-- The leased cell of its timer after them: as it was, under the task's lease, empty. -/
def cellAt (p : Bytes) (score till : ℚ) : Nat → Cell Bytes ℚ
  | 0 | 1 => some (p, score)
  | 2 | 3 | 4 => some (p, till)
  | _ => none

/-- The task `n` is as given, and so is the cell of its timer; its claims were granted `p`. -/
structure Stage (s : Fleet) (n : Nat) (task : Task) (cell : Cell Bytes ℚ) (p : Bytes) : Prop where
  agree : s.stores.Agree
  reached : s.tasks[n]? = some task
  stored : (s.stores task.topic).cell (encode task.timerId) = cell
  granted : ∀ e ∈ s.log, e.origin = .claimOf n → e.granted = some p

/-- No step but the task's own has Redis execute a command on the timer. -/
def Alone (n : Nat) (topic id : String) (s : Fleet) (a : Action) : Prop :=
  ∀ e ∈ (step s a).log.drop s.log.length, (e.act topic id).isSome → a.task = some n

/-- A reply the task reads is that of a claim Redis executed for it. -/
def Answers (n : Nat) (s : Fleet) : Action → Prop
  | .claimReply m k => m = n → s.log[k]?.map Entry.origin = some (.claimOf n)
  | _ => True

instance (n : Nat) (topic id : String) (s : Fleet) : DecidablePred (Alone n topic id s) := fun a =>
  inferInstanceAs (Decidable (∀ e ∈ (step s a).log.drop s.log.length, (e.act topic id).isSome →
    a.task = some n))

instance (n : Nat) (s : Fleet) : DecidablePred (Answers n s)
  | .claimReply m k => inferInstanceAs (Decidable (m = n → s.log[k]?.map Entry.origin = some (.claimOf n)))
  | .publish .. | .cancel .. | .cancelAll _ | .heal .. | .fetch .. | .sendClaim .. | .executeClaim _
  | .sendRemoval .. | .executeRemoval .. | .finish .. => .isTrue trivial

section Stages

variable {s : Fleet} {n k i : Nat} {topic id : String} {task t : Task} {cell : Cell Bytes ℚ}
  {p : Bytes} {ttl c score : ℚ} {a : Action}

/-- A step of its own that leaves Redis alone. -/
theorem Stage.move (h : Stage s n task cell p) (htopic : t.topic = task.topic)
    (hid : t.timerId = task.timerId) : Stage (s.setTask n t) n t cell p where
  agree := h.agree
  reached := getElem?_setTask_self h.reached t
  stored := by
    rw [htopic, hid]
    exact h.stored
  granted := h.granted

/-- A command of its own on its timer. -/
theorem Stage.execute (h : Stage s n task cell p) {o : Origin} {command : Command}
    {cell' : Cell Bytes ℚ} (hcell : stepCell (Command.act task.timerId) cell command = cell')
    (hg : o = .claimOf n → (⟨o, task.topic, command,
      ((s.stores task.topic).run command).1⟩ : Entry).granted = some p) :
    Stage (s.execute o task.topic command) n task cell' p where
  agree := agree_applyEntry _ _ h.agree
  reached := h.reached
  stored := by
    rw [← hcell, ← h.stored, ← TopicStore.cell_run (h.agree _)]
    show (applyEntry s.stores _ task.topic).cell _ = _
    rw [applyEntry, Function.update_self]
  granted e he ho := by
    rcases List.mem_append.mp he with hold | hlast
    · exact h.granted e hold ho
    · rw [List.mem_singleton.mp hlast] at ho ⊢
      exact hg ho

/-- **Each step of a course takes its task to the next stage.** -/
theorem stage_own (h : Stage s n (taskAt topic id ttl c p i) (cellAt p score (c + ttl) i) p)
    (ha : (course n c k)[i]? = some a) (hle : score ≤ c) (hans : Answers n s a) :
    Stage (step s a) n (taskAt topic id ttl c p (i + 1)) (cellAt p score (c + ttl) (i + 1)) p := by
  match i with
  | 0 =>
      cases ha
      rw [step_sendClaim h.reached rfl rfl]
      exact h.move rfl rfl
  | 1 =>
      cases ha
      rw [step_executeClaim h.reached rfl]
      have hstored : (s.stores topic).cell (encode id) = some (p, score) := h.stored
      have hgrant : ((s.stores topic).claim id c ttl).1 = some p := by
        rw [TopicStore.claim_eq_grant (h.agree topic), hstored, grant_some, if_pos hle]
      have hcell : stepCell (Command.act id) (some (p, score)) (.claim id c ttl) = some (p, c + ttl) := by
        rw [stepCell_of _ (act_eq_claim.mpr ⟨ttl, rfl, rfl⟩), apply_claim_some, if_pos hle]
      exact h.execute hcell fun _ => hgrant
  | 2 =>
      cases ha
      obtain ⟨e, hk, ho⟩ := Option.map_eq_some_iff.mp (hans rfl)
      have hg := h.granted e (List.mem_of_getElem? hk) ho
      rw [step_claimReply h.reached rfl rfl hk ho hg]
      have hnext := h.move (t := taskAt topic id ttl c p 3) rfl rfl
      exact ⟨hnext.agree, hnext.reached, hnext.stored, hnext.granted⟩
  | 3 =>
      cases ha
      rw [step_sendRemoval h.reached rfl (fun hn => by cases hn)]
      exact h.move rfl rfl
  | 4 =>
      cases ha
      rw [step_executeRemoval h.reached (List.mem_singleton_self _)]
      have hcell : stepCell (Command.act id) (some (p, c + ttl)) (.remove id) = none := by
        rw [stepCell_of _ (act_eq_drop.mpr (Or.inl rfl)), apply_drop]
      exact h.execute hcell fun ho => by cases ho
  | 5 =>
      cases ha
      rw [step_finish h.reached (.consumed .returned)]
      exact h.move rfl rfl
  | j + 6 => cases ha

/-- **The steps of everybody else leave a task at its stage**, as long as they leave its timer
    alone. -/
theorem stage_other (h : Stage s n task cell p) (ha : a.task ≠ some n)
    (halone : Alone n task.topic task.timerId s a) : Stage (step s a) n task cell p where
  agree := by
    rcases step_logged s a with ⟨hst, _⟩ | ⟨e, _, hst, _⟩
    · rw [hst]
      exact h.agree
    · rw [hst]
      exact agree_applyEntry _ _ h.agree
  reached := task_step_other ha h.reached
  stored := by
    rcases step_logged s a with ⟨hst, _⟩ | ⟨e, _, hst, hlog⟩
    · rw [hst]
      exact h.stored
    · have hact : e.act task.topic task.timerId = none := by
        by_contra hne
        have hmem : e ∈ (step s a).log.drop s.log.length := by
          rw [hlog, List.drop_left]
          exact List.mem_singleton_self e
        exact ha (halone e hmem (Option.isSome_iff_ne_none.mpr hne))
      rw [hst, cell_applyEntry _ _ _ _ h.agree, stepCell_none hact]
      exact h.stored
  granted e he ho := h.granted e (claims_step_other ha he ho) ho

end Stages


/-! ## 4. A poll whose tasks complete -/

theorem run_append (as es : List Action) : run (as ++ es) = replay step (run as) es :=
  replay_append _ _ _ _

/-- The two keys of every topic agree after any run. -/
theorem agree_run_stores (as : List Action) : (run as).stores.Agree := by
  rw [(executed_run as).2]
  exact agree_storesAfter _

/-- From `s` on the task `n` does its course, in its order, on the timer `id`, with a clock that did
    not go back since `now`; nobody else has Redis execute a command on that timer. -/
structure Completes (s : Fleet) (n : Nat) (topic id : String) (now : ℚ) (es : List Action) : Prop where
  course : ∃ c k, now ≤ c ∧ es.filter (fun a => a.task = some n) = course n c k
  alone : Along step (Alone n topic id) s es
  answered : Along step (Answers n) s es

/-- The deliveries of a task. -/
def deliveredBy (s : Fleet) (n : Nat) : List Delivery := s.delivered.filter fun d => d.task = n

section Served

variable {s : Fleet} {n : Nat} {topic id : String} {p : Bytes} {ttl now score : ℚ}

/-- A task that was just spawned has claimed nothing yet. -/
theorem Inv.unclaimed (h : Inv s) (hn : ∀ task, s.tasks[n]? = some task → task.claimNow = none)
    {e : Entry} (he : e ∈ s.log) : e.origin ≠ .claimOf n := by
  intro ho
  obtain ⟨k, hk⟩ := List.getElem?_of_mem he
  have hsent := h.sent k e hk
  unfold SentBy at hsent
  rw [ho] at hsent
  obtain ⟨task, c, ht, hc, _⟩ := hsent
  rw [hn task ht] at hc
  cases hc

/-- The only delivery of a task that was handed a payload is the one its granted claims name. -/
theorem Inv.deliveredBy_eq (h : Inv s) {task : Task} (ht : s.tasks[n]? = some task)
    (hp : task.payload ≠ none) (hg : ∀ e ∈ s.log, e.origin = .claimOf n → e.granted = some p) :
    ∃ k, s.deliveredBy n = [⟨n, k, task.topic, task.timerId, p⟩] := by
  obtain ⟨d, hd, rfl⟩ := (h.handed n task ht).mp hp
  obtain ⟨e, t, hk, ho, hgr, ht', htopic, hid⟩ := h.backed d hd
  rw [ht] at ht'
  cases ht'
  rw [hg e (List.mem_of_getElem? hk) ho] at hgr
  have hd' : d = ⟨d.task, d.claimAt, task.topic, task.timerId, p⟩ := by
    rw [htopic, hid, Option.some.inj hgr]
  have hmem : d ∈ s.deliveredBy d.task := List.mem_filter.mpr ⟨hd, decide_eq_true rfl⟩
  have hone : (s.deliveredBy d.task).length ≤ 1 := by
    refine length_le_one ((h.once.of_map _).filter _) fun a ha b hb => ?_
    obtain ⟨ha, hat⟩ := List.mem_filter.mp ha
    obtain ⟨hb, hbt⟩ := List.mem_filter.mp hb
    exact List.inj_on_of_nodup_map h.once ha hb
      ((of_decide_eq_true hat).trans (of_decide_eq_true hbt).symm)
  refine ⟨d.claimAt, ?_⟩
  rw [← hd']
  match hl : s.deliveredBy d.task, hmem, hone with
  | [x], hmem, _ => rw [List.mem_singleton.mp hmem]
  | x :: y :: rest, _, hone =>
      rw [List.length_cons, List.length_cons] at hone
      omega

/-- **A task that completes** hands over what was stored and removes it, among the steps of
    everybody else. -/
theorem served (as es : List Action) (ht : (run as).tasks[n]? = some (.spawned topic ttl id))
    (hcell : ((run as).stores topic).cell (encode id) = some (p, score)) (hle : score ≤ now)
    (h : Completes (run as) n topic id now es) :
    (∃ k, (run (as ++ es)).deliveredBy n = [⟨n, k, topic, id, p⟩]) ∧
      ((run (as ++ es)).stores topic).cell (encode id) = none := by
  obtain ⟨c, k, hc, hplan⟩ := h.course
  have hunclaimed : ∀ e ∈ (run as).log, e.origin ≠ .claimOf n := fun e he =>
    (inv_run as).unclaimed (fun task hs => by
      rw [ht] at hs
      cases hs
      rfl) he
  have hstart : Stage (run as) n (taskAt topic id ttl c p 0) (cellAt p score (c + ttl) 0) p :=
    ⟨agree_run_stores as, ht, hcell, fun e he ho => absurd ho (hunclaimed e he)⟩
  have hsteps : Along step (fun s a => Alone n topic id s a ∧ Answers n s a) (run as) es :=
    h.alone.and h.answered
  have htopic : ∀ i, (taskAt topic id ttl c p i).topic = topic ∧
      (taskAt topic id ttl c p i).timerId = id := fun i => by
    match i with
    | 0 | 1 | 2 | 3 | 4 | 5 | _ + 6 => exact ⟨rfl, rfl⟩
  have hend := hsteps.follows (P := fun i s =>
      Stage s n (taskAt topic id ttl c p i) (cellAt p score (c + ttl) i) p) hplan
    (fun s i a ha hok hst => stage_own hst ha (hle.trans hc) hok.2)
    (fun s i a ha hok hst => stage_other hst (of_decide_eq_false ha) (by
      rw [(htopic i).1, (htopic i).2]
      exact hok.1)) hstart
  rw [← run_append] at hend
  exact ⟨(inv_run (as ++ es)).deliveredBy_eq hend.reached (fun hn => by cases hn) hend.granted,
    hend.stored⟩

end Served

section Fetched

variable {k : TopicStore} {mode : ClientMode} {now ttl : ℚ} {limit : Int} {topic id : String}

/-- On agreeing keys a fetched id is a due timer with its payload. -/
theorem due_of_fetched (h : k.Agree) (hid : id ∈ idsOf (k.run (.due mode now limit)).1) :
    ∃ p score, k.payloads.lookup (encode id) = some p ∧ k.timeline.lookup (encode id) = some score ∧
      score ≤ now := by
  obtain ⟨ids, hdue, henc⟩ := h.due_eq mode now limit
  have hrun : idsOf (k.run (.due mode now limit)).1 = ids := by
    show idsOf ((k.due mode now limit).1.map .ids) = ids
    rw [hdue]
    rfl
  rw [hrun] at hid
  have hmem : encode id ∈ zrangebyscore k.timeline (some now) (some limit) := by
    rw [← henc]
    exact List.mem_map_of_mem hid
  obtain ⟨score, hs, hle⟩ := Ranked.mem_upTo.mp (zrangebyscore_subset hmem)
  have hsome := (h.lookup_isSome (encode id)).mp (by rw [hs]; rfl)
  obtain ⟨p, hp⟩ := Option.isSome_iff_exists.mp hsome
  exact ⟨p, score, hp, hs, Ranked.atMost_some now score |>.mp hle⟩

/-- A poll leaves every store that agrees as it is. -/
theorem stores_fetch {s : Fleet} (h : s.stores.Agree) :
    (step s (.fetch topic mode now limit ttl)).stores = s.stores := by
  obtain ⟨ids, hdue, _⟩ := (h topic).due_eq mode now limit
  have hsame : ((s.stores topic).run (.due mode now limit)).2 = s.stores topic := by
    show ((s.stores topic).due mode now limit).2 = _
    rw [hdue]
  show Function.update s.stores topic ((s.stores topic).run (.due mode now limit)).2 = s.stores
  rw [hsame, Function.update_eq_self]

end Fetched

/-- **EVERY FETCHED TIMER IS SERVED.** In every reachable state, a timer that a poll fetched and whose
    task completes, among any steps of everybody else that leave that timer alone, is handed over
    exactly once, with the payload stored when it was fetched, and is not pending any more. -/
theorem poll_served (as : List Action) (topic : String) (mode : ClientMode) (now : ℚ) (limit : Int)
    (ttl : ℚ) (es : List Action) (j : Nat) (id : String)
    (hid : (idsOf (((run as).stores topic).run (.due mode now limit)).1)[j]? = some id)
    (hcompletes : Completes (run (as ++ [.fetch topic mode now limit ttl]))
      ((run as).tasks.length + j) topic id now es) :
    let s' := run (as ++ .fetch topic mode now limit ttl :: es)
    ∃ p score k, ((run as).stores topic).payloads.lookup (encode id) = some p ∧
      ((run as).stores topic).timeline.lookup (encode id) = some score ∧ score ≤ now ∧
      s'.deliveredBy ((run as).tasks.length + j) = [⟨(run as).tasks.length + j, k, topic, id, p⟩] ∧
      (s'.stores topic).isPending id = false := by
  intro s'
  have hagree := agree_run_stores as
  obtain ⟨p, score, hp, hscore, hle⟩ := due_of_fetched (hagree topic) (List.mem_of_getElem? hid)
  have hcell : ((run as).stores topic).cell (encode id) = some (p, score) := by
    unfold TopicStore.cell
    rw [hp, hscore]
  have hrun : run (as ++ [.fetch topic mode now limit ttl]) =
      step (run as) (.fetch topic mode now limit ttl) := replay_concat _ _ _ _
  have hspawned : (run (as ++ [.fetch topic mode now limit ttl])).tasks[(run as).tasks.length + j]? =
      some (.spawned topic ttl id) := by
    rw [hrun]
    show ((run as).tasks ++ List.map _ _)[_]? = _
    rw [List.getElem?_append_right (Nat.le_add_right _ _), Nat.add_sub_cancel_left, List.getElem?_map,
      hid]
    rfl
  have hst : (step (run as) (.fetch topic mode now limit ttl)).stores = (run as).stores :=
    stores_fetch hagree
  rw [← hst, ← hrun] at hcell
  obtain ⟨⟨k, hdel⟩, hgone⟩ := served _ es hspawned hcell hle hcompletes
  rw [List.append_assoc, List.singleton_append] at hdel hgone
  refine ⟨p, score, k, hp, hscore, hle, hdel, ?_⟩
  rw [TopicStore.isPending, (agree_run_stores _ topic).cell_eq_none.mp hgone]
  rfl

/-- Two timers, fetched by one poll. -/
def twoPublished : List Action := [.publish "t" "a" [1] 0, .publish "t" "b" [2] 1]

/-- The steps of their tasks in turns, and a publish of a third timer between them. -/
def inTurns : List Action :=
  [.sendClaim 1 6, .sendClaim 0 5, .executeClaim 1, .publish "t" "c" [3] 0, .executeClaim 0,
    .claimReply 0 5, .claimReply 1 3, .sendRemoval 1 .ack, .sendRemoval 0 .ack, .executeRemoval 0 .ack,
    .executeRemoval 1 .ack, .finish 0 (.consumed .returned), .finish 1 (.consumed .returned)]

theorem poll_served_in_turns : ∃ p score k,
    ((run twoPublished).stores "t").payloads.lookup (encode "b") = some p ∧
      ((run twoPublished).stores "t").timeline.lookup (encode "b") = some score ∧ score ≤ 5 ∧
      (run (twoPublished ++ .fetch "t" .bytes 5 2 30 :: inTurns)).deliveredBy 1 = [⟨1, k, "t", "b", p⟩] ∧
      ((run (twoPublished ++ .fetch "t" .bytes 5 2 30 :: inTurns)).stores "t").isPending "b" = false :=
  poll_served twoPublished "t" .bytes 5 2 30 inTurns 1 "b" (by decide +kernel)
    ⟨⟨6, 3, by norm_num, rfl⟩, by decide +kernel, by decide +kernel⟩

/-! ## 5. One worker alone -/

section Solo

variable {s : Fleet} {n : Nat} {topic id : String} {mode : ClientMode} {now ttl : ℚ} {p : Bytes}

/-- A course that nothing interrupts, of a task whose claim is granted. -/
theorem replay_course (ht : s.tasks[n]? = some (.spawned topic ttl id))
    (hg : ((s.stores topic).claim id now ttl).1 = some p) :
    let s' := replay step s (course n now s.log.length)
    s'.delivered = s.delivered ++ [⟨n, s.log.length, topic, id, p⟩] ∧
      s'.tasks.length = s.tasks.length ∧
      s'.stores = Function.update s.stores topic (((s.stores topic).claim id now ttl).2.remove id) := by
  intro s'
  let claimed : Entry := ⟨.claimOf n, topic, .claim id now ttl, .ok (.payload (some p))⟩
  let s₁ := s.setTask n (taskAt topic id ttl now p 1)
  have ht₁ : s₁.tasks[n]? = some (taskAt topic id ttl now p 1) := getElem?_setTask_self ht _
  have h₁ : step s (.sendClaim n now) = s₁ := step_sendClaim ht rfl rfl now
  let s₂ := s₁.execute (.claimOf n) topic (.claim id now ttl)
  have h₂ : step s₁ (.executeClaim n) = s₂ := step_executeClaim ht₁ rfl
  have hk : s₂.log[s.log.length]? = some claimed := by
    show (s.log ++ [_])[s.log.length]? = _
    rw [List.getElem?_concat_length]
    show some (Entry.mk _ _ _ (.ok (.payload ((s.stores topic).claim id now ttl).1))) = some claimed
    rw [hg]
  let s₃ : Fleet := { s₂.setTask n (taskAt topic id ttl now p 3) with
    delivered := s.delivered ++ [⟨n, s.log.length, topic, id, p⟩] }
  have ht₃ : s₃.tasks[n]? = some (taskAt topic id ttl now p 3) := getElem?_setTask_self (s := s₂) ht₁ _
  have h₃ : step s₂ (.claimReply n s.log.length) = s₃ :=
    step_claimReply (s := s₂) ht₁ rfl rfl hk rfl rfl
  let s₄ := s₃.setTask n (taskAt topic id ttl now p 4)
  have ht₄ : s₄.tasks[n]? = some (taskAt topic id ttl now p 4) := getElem?_setTask_self ht₃ _
  have h₄ : step s₃ (.sendRemoval n .ack) = s₄ := step_sendRemoval ht₃ rfl (fun h => by cases h) .ack
  let s₅ := s₄.execute (.removalBy n .ack) topic (.remove id)
  have h₅ : step s₄ (.executeRemoval n .ack) = s₅ :=
    step_executeRemoval ht₄ (List.mem_singleton_self _)
  have hend : s' = s₅.setTask n (taskAt topic id ttl now p 6) := by
    show step (step (step (step (step (step s _) _) _) _) _) (.finish n _) = _
    rw [h₁, h₂, h₃, h₄, h₅]
    exact step_finish (s := s₅) ht₄ (.consumed .returned)
  rw [hend]
  refine ⟨rfl, ?_, ?_⟩
  · simp [s₅, s₄, s₃, s₂, s₁, setTask, execute]
  · show applyEntry (applyEntry s.stores _) _ = _
    rw [applyEntry, applyEntry, Function.update_self, Function.update_idem]
    rfl

/-- Some timer is due: a worker with room for one fetches one. -/
theorem fetched_one {k : TopicStore} (h : k.Agree) (mode : ClientMode) {m : Bytes} {score : ℚ}
    (hm : k.timeline.lookup m = some score) (hle : score ≤ now) :
    ∃ id, idsOf (k.run (.due mode now 1)).1 = [id] := by
  obtain ⟨ids, hdue, henc⟩ := h.due_eq mode now 1
  have hrun : idsOf (k.run (.due mode now 1)).1 = ids := by
    show idsOf ((k.due mode now 1).1.map .ids) = ids
    rw [hdue]
    rfl
  have hmem : m ∈ Ranked.upTo k.timeline (some now) :=
    Ranked.mem_upTo.mpr ⟨score, hm, (Ranked.atMost_some now score).mpr hle⟩
  have hpos := List.length_pos_of_mem hmem
  have hone : (ids.map encode).length = 1 := by
    rw [henc]
    show ((Ranked.upTo k.timeline (some now)).take 1).length = 1
    rw [List.length_take]
    omega
  rw [List.length_map] at hone
  obtain ⟨id, rfl⟩ := List.length_eq_one_iff.mp hone
  exact ⟨id, hrun⟩

/-- A worker with room for one timer polls, and its task does its course. -/
def round (s : Fleet) (topic : String) (mode : ClientMode) (now ttl : ℚ) : List Action :=
  .fetch topic mode now 1 ttl :: course s.tasks.length now (s.log.length + 1)

/-- **A round hands over the timer it fetches and removes it.** -/
theorem replay_round {score : ℚ} (ttl : ℚ) (h : s.stores.Agree)
    (hids : idsOf (((s.stores topic).run (.due mode now 1)).1) = [id])
    (hcell : (s.stores topic).cell (encode id) = some (p, score)) (hle : score ≤ now) :
    let s' := replay step s (s.round topic mode now ttl)
    s'.delivered = s.delivered ++ [⟨s.tasks.length, s.log.length + 1, topic, id, p⟩] ∧
      s'.tasks.length = s.tasks.length + 1 ∧
      s'.stores = Function.update s.stores topic (((s.stores topic).claim id now ttl).2.remove id) := by
  intro s'
  let s₁ := step s (.fetch topic mode now 1 ttl)
  have hst : s₁.stores = s.stores := stores_fetch h
  have htasks : s₁.tasks = s.tasks ++ [.spawned topic ttl id] := by
    show s.tasks ++ List.map _ _ = _
    rw [hids]
    rfl
  have hlog : s₁.log.length = s.log.length + 1 := List.length_append
  have ht : s₁.tasks[s.tasks.length]? = some (.spawned topic ttl id) := by
    rw [htasks]
    exact List.getElem?_concat_length
  have hg : ((s₁.stores topic).claim id now ttl).1 = some p := by
    rw [hst, TopicStore.claim_eq_grant (h topic), hcell, grant_some, if_pos hle]
  obtain ⟨hdel, hlen, hstores⟩ := replay_course ht hg
  rw [hlog] at hdel hlen hstores
  have hs' : s' = replay step s₁ (course s.tasks.length now (s.log.length + 1)) := replay_cons _ _ _ _
  rw [hs']
  refine ⟨hdel, ?_, ?_⟩
  · rw [htasks, List.length_append] at hlen
    exact hlen
  · rw [hst] at hstores
    exact hstores

/-- What the cells say after a granted claim and the removal of its id. -/
theorem cell_claim_remove (k : TopicStore) (id : String) (now ttl : ℚ) (m : Bytes) :
    ((k.claim id now ttl).2.remove id).cell m = if m = encode id then none else k.cell m := by
  by_cases hm : m = encode id
  · rw [if_pos hm, hm]
    exact TopicStore.cell_commitLua
  · rw [if_neg hm]
    exact (TopicStore.cell_commitLua_ne hm).trans (TopicStore.cell_claimLua_ne hm)

end Solo

/-- Between two states one timer of a topic was handed over, with the payload stored for it, and
    removed. -/
structure OneLess (s s₁ : Fleet) (topic : String) (d : Delivery) : Prop where
  delivered : s₁.delivered = s.delivered ++ [d]
  ofTopic : d.topic = topic
  stored : (s.stores topic).payloads.lookup (encode d.timerId) = some d.payload
  cells : ∀ m, (s₁.stores topic).cell m =
    if m = encode d.timerId then none else (s.stores topic).cell m
  others : ∀ t, t ≠ topic → s₁.stores t = s.stores t

/-- Between two states the timers pending under a topic in the first were handed over, each once and
    with the payload stored for it; none is left, and the other topics are as they were. -/
structure Emptied (s s' : Fleet) (topic : String) (new : List Delivery) : Prop where
  delivered : s'.delivered = s.delivered ++ new
  ofTopic : ∀ d ∈ new, d.topic = topic
  once : (new.map Delivery.timerId).Nodup
  stored : ∀ id p, (∃ d ∈ new, d.timerId = id ∧ d.payload = p) ↔
    (s.stores topic).payloads.lookup (encode id) = some p
  gone : ∀ id, (s'.stores topic).isPending id = false
  others : ∀ t, t ≠ topic → s'.stores t = s.stores t

/-- The steps of a worker with room for one timer whose tasks have numbers from `m` on. -/
def OfWorker (topic : String) (mode : ClientMode) (now ttl : ℚ) (m : Nat) (a : Action) : Prop :=
  a = .fetch topic mode now 1 ttl ∨ ∃ n k, m ≤ n ∧ a ∈ course n now k

section Emptying

variable {s s₁ s' : Fleet} {topic : String} {mode : ClientMode} {now ttl : ℚ} {d : Delivery}
  {new : List Delivery}

/-- Where some timer is due, a round leaves one less. -/
theorem oneLess_round (h : s.stores.Agree) (mode : ClientMode) (ttl : ℚ) {m : Bytes} {score : ℚ}
    (hm : (s.stores topic).timeline.lookup m = some score) (hle : score ≤ now) :
    ∃ d, OneLess s (replay step s (s.round topic mode now ttl)) topic d ∧
      (replay step s (s.round topic mode now ttl)).tasks.length = s.tasks.length + 1 := by
  obtain ⟨id, hids⟩ := fetched_one (h topic) mode hm hle
  obtain ⟨p, score, hp, hs, hle⟩ := due_of_fetched (h topic) (hids ▸ List.mem_singleton_self id)
  have hcell : (s.stores topic).cell (encode id) = some (p, score) := by
    unfold TopicStore.cell
    rw [hp, hs]
  obtain ⟨hdel, hlen, hstores⟩ := replay_round ttl h hids hcell hle
  refine ⟨_, ⟨hdel, rfl, hp, fun m => ?_, fun t ht => ?_⟩, hlen⟩
  · rw [hstores, Function.update_self]
    exact cell_claim_remove _ id now ttl m
  · rw [hstores, Function.update_of_ne ht]

/-- The scores of the timers that are left are what they were. -/
theorem OneLess.timeline (hd : OneLess s s₁ topic d) (h : (s.stores topic).Agree)
    (h₁ : (s₁.stores topic).Agree) (m : Bytes) : (s₁.stores topic).timeline.lookup m =
      if m = encode d.timerId then none else (s.stores topic).timeline.lookup m := by
  rw [h₁.timeline_lookup, h.timeline_lookup, hd.cells]
  split <;> rfl

/-- The payloads that are left are what they were. -/
theorem OneLess.payloads (hd : OneLess s s₁ topic d) (h : (s.stores topic).Agree)
    (h₁ : (s₁.stores topic).Agree) (m : Bytes) : (s₁.stores topic).payloads.lookup m =
      if m = encode d.timerId then none else (s.stores topic).payloads.lookup m := by
  rw [h₁.payloads_lookup, h.payloads_lookup, hd.cells]
  split <;> rfl

theorem OneLess.card (hd : OneLess s s₁ topic d) (h : (s.stores topic).Agree)
    (h₁ : (s₁.stores topic).Agree) : (s₁.stores topic).timeline.keys.toFinset.card + 1 =
      (s.stores topic).timeline.keys.toFinset.card := by
  have hmem : encode d.timerId ∈ (s.stores topic).timeline.keys.toFinset := by
    refine List.mem_toFinset.mpr ((h.keys _).mpr (AList.lookup_isSome.mp ?_))
    rw [hd.stored]
    rfl
  have hkeys : (s₁.stores topic).timeline.keys.toFinset =
      (s.stores topic).timeline.keys.toFinset.erase (encode d.timerId) := by
    ext m
    rw [Finset.mem_erase, List.mem_toFinset, List.mem_toFinset]
    show m ∈ (s₁.stores topic).timeline ↔ m ≠ _ ∧ m ∈ (s.stores topic).timeline
    rw [← AList.lookup_isSome, ← AList.lookup_isSome, hd.timeline h h₁]
    by_cases hm : m = encode d.timerId <;> simp [hm]
  rw [hkeys]
  exact Finset.card_erase_add_one hmem

theorem emptied_refl (h : (s.stores topic).Agree) (hnone : ∀ m, (s.stores topic).timeline.lookup m = none) :
    Emptied s s topic [] where
  delivered := (List.append_nil _).symm
  ofTopic d hd := by cases hd
  once := List.nodup_nil
  stored id p := by
    have hempty : (s.stores topic).payloads.lookup (encode id) = none := by
      rw [h.payloads_lookup, h.cell_eq_none.mpr (hnone _)]
      rfl
    rw [hempty]
    constructor
    · intro hs
      obtain ⟨d, hd, _⟩ := hs
      cases hd
    · intro hs
      cases hs
  gone id := by
    rw [TopicStore.isPending, hnone]
    rfl
  others _ _ := rfl

/-- One timer first, and then the others. -/
theorem OneLess.emptied (hd : OneLess s s₁ topic d) (h : (s.stores topic).Agree)
    (h₁ : (s₁.stores topic).Agree) (hrest : Emptied s₁ s' topic new) :
    Emptied s s' topic (d :: new) := by
  have hfresh : ∀ x ∈ new, x.timerId ≠ d.timerId := fun x hx he => by
    have hstored := (hrest.stored x.timerId x.payload).mp ⟨x, hx, rfl, rfl⟩
    rw [he, hd.payloads h h₁, if_pos rfl] at hstored
    cases hstored
  refine ⟨?_, ?_, ?_, fun id p => ?_, hrest.gone, fun t ht => (hrest.others t ht).trans (hd.others t ht)⟩
  · rw [hrest.delivered, hd.delivered, List.append_assoc]
    rfl
  · intro x hx
    rcases List.mem_cons.mp hx with rfl | hx
    · exact hd.ofTopic
    · exact hrest.ofTopic x hx
  · rw [List.map_cons, List.nodup_cons]
    refine ⟨fun hmem => ?_, hrest.once⟩
    obtain ⟨x, hx, he⟩ := List.mem_map.mp hmem
    exact hfresh x hx he
  · by_cases hid : id = d.timerId
    · subst hid
      rw [hd.stored]
      constructor
      · intro hs
        obtain ⟨x, hx, hxid, rfl⟩ := hs
        rcases List.mem_cons.mp hx with rfl | hx
        · rfl
        · exact absurd hxid (hfresh x hx)
      · intro he
        exact ⟨d, List.mem_cons_self, rfl, Option.some.inj he⟩
    · have hstored := hrest.stored id p
      rw [hd.payloads h h₁, if_neg fun he => hid (encode_inj.mp he)] at hstored
      rw [← hstored]
      constructor
      · intro hs
        obtain ⟨x, hx, hxid, hxp⟩ := hs
        rcases List.mem_cons.mp hx with rfl | hx
        · exact absurd hxid.symm hid
        · exact ⟨x, hx, hxid, hxp⟩
      · intro hs
        obtain ⟨x, hx, hxid, hxp⟩ := hs
        exact ⟨x, List.mem_cons_of_mem _ hx, hxid, hxp⟩

/-- A worker alone empties a topic whose timers are all due, one round for each of them. -/
theorem emptied_alone (mode : ClientMode) (ttl : ℚ) {count : ℕ} (as : List Action)
    (hcount : ((run as).stores topic).timeline.keys.toFinset.card = count)
    (hdue : ∀ m score, ((run as).stores topic).timeline.lookup m = some score → score ≤ now) :
    ∃ es new, (∀ a ∈ es, OfWorker topic mode now ttl (run as).tasks.length a) ∧
      Emptied (run as) (run (as ++ es)) topic new := by
  induction count generalizing as with
  | zero =>
      have hnone : ∀ m, ((run as).stores topic).timeline.lookup m = none := fun m => by
        refine AList.lookup_eq_none.mpr fun hm => ?_
        have hmem : m ∈ ((run as).stores topic).timeline.keys.toFinset := List.mem_toFinset.mpr hm
        rw [Finset.card_eq_zero.mp hcount] at hmem
        cases hmem
      refine ⟨[], [], (fun a ha => by cases ha), ?_⟩
      rw [List.append_nil]
      exact emptied_refl (agree_run_stores as topic) hnone
  | succ count ih =>
      obtain ⟨m, hm⟩ : ∃ m, m ∈ ((run as).stores topic).timeline.keys.toFinset :=
        Finset.card_pos.mp (by omega)
      obtain ⟨score, hscore⟩ :=
        Option.isSome_iff_exists.mp (AList.lookup_isSome.mpr (List.mem_toFinset.mp hm))
      obtain ⟨d, hless, hlen⟩ := oneLess_round (agree_run_stores as) mode ttl hscore (hdue m score hscore)
      rw [← run_append] at hless hlen
      have hag := agree_run_stores as topic
      have hag₁ := agree_run_stores (as ++ (run as).round topic mode now ttl) topic
      have hcard := hless.card hag hag₁
      obtain ⟨es, new, hes, hrest⟩ := ih (as ++ (run as).round topic mode now ttl) (by omega)
        fun m score hm => by
          rw [hless.timeline hag hag₁] at hm
          split at hm
          · cases hm
          · exact hdue m score hm
      rw [List.append_assoc] at hrest
      refine ⟨_, _, fun a ha => ?_, hless.emptied hag hag₁ hrest⟩
      rcases List.mem_append.mp ha with ha | ha
      · rcases List.mem_cons.mp ha with rfl | ha
        · exact Or.inl rfl
        · exact Or.inr ⟨_, _, Nat.le_refl _, ha⟩
      · rcases hes a ha with hpoll | ⟨n, k, hn, hstep⟩
        · exact Or.inl hpoll
        · exact Or.inr ⟨n, k, by omega, hstep⟩

end Emptying

/-- **NO DEAD END.** From every reachable state, whatever crashed on the way and whatever was in flight
    then, a worker with room for one timer at a time can, from some clock reading on, hand over every
    timer pending under its topic, each exactly once and with the payload stored for it, and leave
    none; it touches no other topic. -/
theorem recoverable (as : List Action) (topic : String) (mode : ClientMode) (ttl : ℚ) :
    ∃ last, ∀ now, last ≤ now → ∃ es new,
      (∀ a ∈ es, OfWorker topic mode now ttl (run as).tasks.length a) ∧
      Emptied (run as) (run (as ++ es)) topic new := by
  obtain ⟨last, hlast⟩ :=
    Finset.exists_le (((run as).stores topic).timeline.entries.map Sigma.snd).toFinset
  refine ⟨last, fun now hnow => emptied_alone mode ttl as rfl fun m score hm => ?_⟩
  refine (hlast score (List.mem_toFinset.mpr ?_)).trans hnow
  exact List.mem_map.mpr ⟨_, AList.mem_lookup_iff.mp hm, rfl⟩

end Fleet

end RedisTimers
