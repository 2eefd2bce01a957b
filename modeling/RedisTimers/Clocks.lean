/-
  File:      RedisTimers/Clocks.lean
  Subject:   HANDLERS UNDER CLOCKS THAT DIFFER (subscriber/usecase.py: _claim_and_consume; store.py:
             claim). What is due and when a lease ends is read off each worker's own clock.

  * `TimedAction`, `Clocks` -- a run of the fleet in time, and how far the workers' clocks differ;
  * `InTime` -- a handler is over before its lease, less the skew, has passed;
  * `sentClaim_run` -- the clock reading of a task is the one it sent its claim with;
  * `handlers_exclusive` -- MUTUAL EXCLUSION: then no two handlers of one scheduled timer ever run at
    once, in whatever order the parties act;
  * `handlers_overlap` -- no handler may run any longer: at the skew short of the end of its lease a
    second one can start.
-/
import RedisTimers.Guarantees

namespace RedisTimers

open Replay

/-! ## 1. Time -/

/-- An action of the fleet, and the time at which it is taken. -/
abbrev TimedAction := ℚ × Action

namespace Fleet

def stepAt (s : Fleet) (e : TimedAction) : Fleet := step s e.2

/-- The fleet after timed actions. -/
def runAt (es : List TimedAction) : Fleet := replay stepAt .init es

theorem runAt_eq_run (es : List TimedAction) : runAt es = run (es.map Prod.snd) := by
  unfold runAt run replay
  rw [List.foldl_map]
  rfl

theorem runAt_concat (es : List TimedAction) (e : TimedAction) :
    runAt (es ++ [e]) = step (runAt es) e.2 :=
  replay_concat _ _ _ _

/-- Actions in the order of their times, under clocks that differ by at most `skew`; `ahead n` is how
    far the clock of the worker that runs task `n` is ahead of the time. -/
structure Clocks (ahead : Nat → ℚ) (skew : ℚ) (es : List TimedAction) : Prop where
  within : ∀ n m, ahead n - ahead m ≤ skew
  chronological : es.Pairwise fun a b => a.1 ≤ b.1
  /-- A claim is sent with what the worker's clock reads. -/
  reading : ∀ t n now, (t, Action.sendClaim n now) ∈ es → now = t + ahead n

/-- The task runs its handler: it was handed a payload and has not ended. -/
def Handling (s : Fleet) (n : Nat) (task : Task) : Prop :=
  s.tasks[n]? = some task ∧ task.live = true ∧ task.payload ≠ none

/-- The task runs the handler for the timer that the schedule at position `i` of the log put in the
    store. -/
def Handles (s : Fleet) (topic id : String) (i n : Nat) : Prop :=
  (∃ task, s.Handling n task) ∧ ∃ d ∈ s.deliveriesOf topic id i, d.task = n

/-- At the time `t` every handler that runs is short of the end of its lease by more than the skew,
    counted from the time its clock was read. -/
def InTime (ahead : Nat → ℚ) (skew t : ℚ) (s : Fleet) : Prop :=
  ∀ n task now, s.Handling n task → task.claimNow = some now →
    t < now - ahead n + task.leaseTtl - skew

/-! ## 2. The clock reading of a task -/

section Readings

variable {s : Fleet} {n m : Nat} {task t t' : Task} {now : ℚ}

/-- A task that moves on with the clock reading it had. -/
theorem claimNow_setTask (hm : s.tasks[m]? = some t) (ht : (s.setTask m t').tasks[n]? = some task)
    (hn : task.claimNow = some now) (hsame : t'.claimNow = t.claimNow) :
    ∃ task', s.tasks[n]? = some task' ∧ task'.claimNow = some now := by
  rcases getElem?_setTask_cases hm ht with ⟨rfl, rfl⟩ | ⟨_, hold⟩
  · exact ⟨t, hm, hsame ▸ hn⟩
  · exact ⟨task, hold, hn⟩

/-- A step gives a task no clock reading but the one it sends its claim with. -/
theorem sentClaim_step {a : Action} (ht : (step s a).tasks[n]? = some task)
    (hn : task.claimNow = some now) :
    (∃ task', s.tasks[n]? = some task' ∧ task'.claimNow = some now) ∨ a = .sendClaim n now := by
  cases a with
  | publish topic timerId payload ts => exact Or.inl ⟨task, ht, hn⟩
  | cancel topic timerId => exact Or.inl ⟨task, ht, hn⟩
  | cancelAll topic => exact Or.inl ⟨task, ht, hn⟩
  | heal topic rawId => exact Or.inl ⟨task, ht, hn⟩
  | fetch topic mode limit now' ttl =>
      rw [step, List.getElem?_append] at ht
      split at ht
      · exact Or.inl ⟨task, ht, hn⟩
      · obtain ⟨id, _, rfl⟩ := List.mem_map.mp (List.mem_of_getElem? ht)
        cases hn
  | sendClaim m now' =>
      simp only [step] at ht
      split at ht
      · rename_i t hm
        split at ht
        · rcases getElem?_setTask_cases hm ht with ⟨rfl, rfl⟩ | ⟨_, hold⟩
          · cases hn
            exact Or.inr rfl
          · exact Or.inl ⟨task, hold, hn⟩
        · exact Or.inl ⟨task, ht, hn⟩
      · exact Or.inl ⟨task, ht, hn⟩
  | executeClaim m =>
      simp only [step] at ht
      split at ht
      · split at ht <;> exact Or.inl ⟨task, ht, hn⟩
      · exact Or.inl ⟨task, ht, hn⟩
  | claimReply m k =>
      simp only [step] at ht
      split at ht
      · rename_i t e hm hk
        split at ht
        · split at ht <;> exact Or.inl (claimNow_setTask hm ht hn rfl)
        · exact Or.inl ⟨task, ht, hn⟩
      · exact Or.inl ⟨task, ht, hn⟩
  | sendRemoval m why =>
      simp only [step] at ht
      split at ht
      · rename_i t hm
        split at ht
        · exact Or.inl (claimNow_setTask hm ht hn rfl)
        · exact Or.inl ⟨task, ht, hn⟩
      · exact Or.inl ⟨task, ht, hn⟩
  | executeRemoval m why =>
      simp only [step] at ht
      split at ht
      · split at ht <;> exact Or.inl ⟨task, ht, hn⟩
      · exact Or.inl ⟨task, ht, hn⟩
  | finish m ending =>
      simp only [step] at ht
      split at ht
      · rename_i t hm
        exact Or.inl (claimNow_setTask hm ht hn rfl)
      · exact Or.inl ⟨task, ht, hn⟩

/-- **The clock reading of a task is the one it sent its claim with.** -/
theorem sentClaim_run {es : List TimedAction} (ht : (runAt es).tasks[n]? = some task)
    (hn : task.claimNow = some now) : ∃ t, (t, Action.sendClaim n now) ∈ es := by
  induction es using List.reverseRecOn generalizing task with
  | nil => cases ht
  | append_singleton es e ih =>
      rw [runAt_concat] at ht
      rcases sentClaim_step ht hn with ⟨task', ht', hn'⟩ | he
      · obtain ⟨t, hmem⟩ := ih ht' hn'
        exact ⟨t, List.mem_append_left _ hmem⟩
      · exact ⟨e.1, List.mem_append_right _ (by rw [← he]; exact List.mem_singleton_self _)⟩

/-- The lease of a task is that of the poll that spawned it. -/
theorem lease_run {es : List TimedAction} (ht : (runAt es).tasks[n]? = some task) :
    ∃ t topic mode now limit, (t, Action.fetch topic mode now limit task.leaseTtl) ∈ es := by
  induction es using List.reverseRecOn generalizing task with
  | nil => cases ht
  | append_singleton es e ih =>
      have hold : ∀ {task' : Task}, (runAt es).tasks[n]? = some task' → task'.leaseTtl = task.leaseTtl →
          ∃ t topic mode now limit,
            (t, Action.fetch topic mode now limit task.leaseTtl) ∈ es ++ [e] := fun h heq => by
        obtain ⟨t, topic, mode, now, limit, hmem⟩ := ih h
        exact ⟨t, topic, mode, now, limit, List.mem_append_left _ (heq ▸ hmem)⟩
      rw [runAt_concat] at ht
      obtain ⟨t, a⟩ := e
      have heff := step_effect (runAt es) a
      generalize step (runAt es) a = s' at heff ht
      cases heff with
      | idle => exact hold ht rfl
      | outside => exact hold ht rfl
      | claim => exact hold ht rfl
      | removal => exact hold ht rfl
      | move _ m task₁ task₂ hm hmoves =>
          rcases getElem?_setTask_cases hm ht with ⟨rfl, rfl⟩ | ⟨_, h⟩
          · exact hold hm hmoves.leaseTtl.symm
          · exact hold h rfl
      | send m task₁ why hm =>
          rcases getElem?_setTask_cases hm ht with ⟨rfl, rfl⟩ | ⟨_, h⟩
          · exact hold hm rfl
          · exact hold h rfl
      | deliver _ m k task₁ e payload hm =>
          rcases getElem?_setTask_cases hm ht with ⟨rfl, rfl⟩ | ⟨_, h⟩
          · exact hold hm rfl
          · exact hold h rfl
      | poll topic mode now limit ttl ids =>
          rw [List.getElem?_append] at ht
          split at ht
          · exact hold ht rfl
          · obtain ⟨id, _, rfl⟩ := List.mem_map.mp (List.mem_of_getElem? ht)
            exact ⟨t, topic, mode, now, limit, List.mem_append_right _ (List.mem_singleton_self _)⟩

/-- The polls of a run ask for no lease that ends before it starts. -/
def PollsNonneg (es : List TimedAction) : Prop :=
  ∀ t topic mode now limit ttl, (t, Action.fetch topic mode now limit ttl) ∈ es → 0 ≤ ttl

/-- The leases that claims ask for are those of the polls. -/
theorem leasesNonneg_run {es : List TimedAction} (h : PollsNonneg es) : LeasesNonneg (runAt es).log := by
  intro e he topic id now ttl hc
  have hinv : Inv (runAt es) := runAt_eq_run es ▸ inv_run _
  obtain ⟨k, hk⟩ := List.getElem?_of_mem he
  have hsent := hinv.sent k e hk
  unfold SentBy at hsent
  split at hsent
  · obtain ⟨task, now', ht, _, _, hcmd⟩ := hsent
    rw [hc.2] at hcmd
    cases hcmd
    obtain ⟨t, topic', mode, now'', limit, hmem⟩ := lease_run ht
    exact h _ _ _ _ _ _ hmem
  · obtain ⟨_, _, _, _, hcmd, _⟩ := hsent
    rw [hc.2] at hcmd
    cases hcmd
  · obtain ⟨_, _, _, hcmd⟩ := hsent
    rw [hc.2] at hcmd
    cases hcmd
  · obtain ⟨a, hout⟩ := hsent
    rw [hc.2] at hout
    generalize e.origin = o at hout
    cases hout

end Readings

/-! ## 3. Mutual exclusion -/

/-- The claim of a delivery carries the clock reading and the lease of its task. -/
theorem Inv.claim_of_task {s : Fleet} (h : Inv s) {d : Delivery} (hd : d ∈ s.delivered) {task : Task}
    (ht : s.tasks[d.task]? = some task) {c : Entry} (hc : s.log[d.claimAt]? = some c) {topic id : String}
    {now ttl : ℚ} (hclaim : c.IsClaim topic id now ttl) :
    task.claimNow = some now ∧ task.leaseTtl = ttl := by
  obtain ⟨e, task', hk, ho, _⟩ := h.backed d hd
  rw [hc] at hk
  cases hk
  have hsent := h.sent _ c hc
  unfold SentBy at hsent
  rw [ho] at hsent
  obtain ⟨task'', now', ht'', hn, _, hcmd⟩ := hsent
  rw [ht] at ht''
  cases ht''
  rw [hclaim.2] at hcmd
  cases hcmd
  exact ⟨hn, rfl⟩

/-- Of two handlers of one scheduled timer that are both in time, neither claim comes first. -/
theorem Clocks.not_before {ahead : Nat → ℚ} {skew t : ℚ} {es : List TimedAction} {a : Action}
    {rest : List TimedAction} (hclocks : Clocks ahead skew (es ++ (t, a) :: rest))
    (hpos : LeasesNonneg (runAt es).log) (hin : InTime ahead skew t (runAt es)) {topic id : String}
    {i n m : Nat} {d d' : Delivery} (hn : ∃ task, (runAt es).Handling n task)
    (hm : ∃ task, (runAt es).Handling m task) (hd : d ∈ (runAt es).deliveriesOf topic id i)
    (hd' : d' ∈ (runAt es).deliveriesOf topic id i) (hdn : d.task = n) (hdm : d'.task = m) :
    ¬ d.claimAt < d'.claimAt := by
  intro hlt
  obtain ⟨task, hhandling⟩ := hn
  obtain ⟨task', hhandling'⟩ := hm
  have hrun := runAt_eq_run es
  have hinv : Inv (runAt es) := hrun ▸ inv_run _
  have hex : Executed (runAt es).log := hrun ▸ (executed_run _).1
  obtain ⟨c, now, ttl, c', now', ttl', hc, hclaim, hc', hclaim', hapart⟩ :=
    hinv.deliveries_apart hex hpos hd hd' hlt
  subst hdn hdm
  obtain ⟨hnow, rfl⟩ :=
    hinv.claim_of_task (List.mem_filter.mp hd).1 hhandling.1 hc hclaim
  obtain ⟨hnow', _⟩ := hinv.claim_of_task (List.mem_filter.mp hd').1 hhandling'.1 hc' hclaim'
  -- the second claim was sent before now, with a clock that is `skew` ahead at most
  obtain ⟨t', hsent⟩ := sentClaim_run hhandling'.1 hnow'
  have hread := hclocks.reading t' _ now' (List.mem_append_left _ hsent)
  have hbefore : t' ≤ t :=
    (List.pairwise_append.mp hclocks.chronological).2.2 _ hsent _ List.mem_cons_self
  have hend := hin _ _ now hhandling hnow
  have hskew := hclocks.within d'.task d.task
  linarith

/-- **MUTUAL EXCLUSION.** Where the workers' clocks differ by at most `skew`, and every handler is
    over before its lease less the skew has passed, no two handlers of one scheduled timer ever run
    at once: in any order of the parties' actions, and however late Redis executes what was sent. -/
theorem handlers_exclusive (ahead : Nat → ℚ) (skew : ℚ) (es : List TimedAction)
    (hclocks : Clocks ahead skew es) (hpos : PollsNonneg es)
    (htime : Along stepAt (fun s e => InTime ahead skew e.1 s) .init es) :
    Along stepAt (fun s _ => ∀ topic id i n m, s.Handles topic id i n → s.Handles topic id i m → n = m)
      .init es := by
  refine along_of_split fun xs e ys hes topic id i n m hn hm => ?_
  obtain ⟨t, a⟩ := e
  subst hes
  have hin : InTime ahead skew t (runAt xs) := htime.at
  have hposx : LeasesNonneg (runAt xs).log := leasesNonneg_run fun t' topic mode now limit ttl hmem =>
    hpos t' topic mode now limit ttl (List.mem_append_left _ hmem)
  obtain ⟨hhn, d, hd, hdn⟩ := hn
  obtain ⟨hhm, d', hd', hdm⟩ := hm
  have hle := hclocks.not_before hposx hin hhn hhm hd hd' hdn hdm
  have hge := hclocks.not_before hposx hin hhm hhn hd' hd hdm hdn
  have hsame : d = d' := (runAt_eq_run xs ▸ inv_run _).claimAt_inj (List.mem_filter.mp hd).1
    (List.mem_filter.mp hd').1 (by omega)
  rw [← hdn, ← hdm, hsame]

/-- Handlers are in time in a run that ends before the lease, less the margin, of any claim has
    passed. -/
theorem along_inTime {ahead : Nat → ℚ} {margin ttl last : ℚ} {es : List TimedAction}
    (hpolls : ∀ t topic mode now limit ttl', (t, Action.fetch topic mode now limit ttl') ∈ es → ttl' = ttl)
    (hlast : ∀ e ∈ es, e.1 ≤ last)
    (hsent : ∀ t n now, (t, Action.sendClaim n now) ∈ es → last < now - ahead n + ttl - margin) :
    Along stepAt (fun s e => InTime ahead margin e.1 s) .init es := by
  refine along_of_split fun xs e ys hes n task now hh hnow => ?_
  subst hes
  obtain ⟨t', hclaim⟩ := sentClaim_run hh.1 hnow
  obtain ⟨t'', topic, mode, now', limit, hpoll⟩ := lease_run hh.1
  rw [hpolls _ _ _ _ _ _ (List.mem_append_left _ hpoll)]
  exact lt_of_le_of_lt (hlast e (by simp)) (hsent t' n now (List.mem_append_left _ hclaim))

/-- The clocks of two workers, the one of the second `skew` ahead. -/
def secondAhead (skew : ℚ) (n : Nat) : ℚ := if n = 0 then 0 else skew

theorem secondAhead_within {skew : ℚ} (h : 0 ≤ skew) (n m : Nat) :
    secondAhead skew n - secondAhead skew m ≤ skew := by
  unfold secondAhead
  split <;> split <;> linarith

/-- Two workers, the clock of the second ten seconds ahead, and leases of a minute: the second is
    refused while the first runs its handler. -/
def refusedSecond : List TimedAction :=
  [(0, .publish "t" "a" [1] 0), (0, .fetch "t" .bytes 0 1 60), (0, .fetch "t" .bytes 0 1 60),
    (0, .sendClaim 0 0), (0, .executeClaim 0), (0, .claimReply 0 3), (20, .sendClaim 1 30),
    (20, .executeClaim 1), (20, .claimReply 1 4),
    (20, .finish 0 (.consumed .returned))]

theorem handlers_exclusive_two :
    Along stepAt (fun s _ => ∀ topic id i n m, s.Handles topic id i n → s.Handles topic id i m → n = m)
      .init refusedSecond := by
  have hsent : ∀ t n now, (t, Action.sendClaim n now) ∈ refusedSecond →
      t = 0 ∧ n = 0 ∧ now = 0 ∨ t = 20 ∧ n = 1 ∧ now = 30 := fun t n now hmem => by
    simpa [refusedSecond] using hmem
  have hpolls : ∀ t topic mode now limit ttl, (t, Action.fetch topic mode now limit ttl) ∈ refusedSecond →
      ttl = 60 := fun t topic mode now limit ttl hmem => by
    simp [refusedSecond] at hmem
    exact hmem.2.2.2.2.2
  refine handlers_exclusive (secondAhead 10) 10 refusedSecond
    ⟨secondAhead_within (by norm_num), by simp [refusedSecond], fun t n now hmem => ?_⟩
    (fun t topic mode now limit ttl hmem => ?_)
    (along_inTime hpolls (by simp [refusedSecond] : ∀ e ∈ refusedSecond, e.1 ≤ 20) fun t n now hmem => ?_)
  · rcases hsent t n now hmem with ⟨rfl, rfl, rfl⟩ | ⟨rfl, rfl, rfl⟩ <;> norm_num [secondAhead]
  · rw [hpolls t topic mode now limit ttl hmem]
    norm_num
  · rcases hsent t n now hmem with ⟨rfl, rfl, rfl⟩ | ⟨rfl, rfl, rfl⟩ <;> norm_num [secondAhead]

/-! ## 4. The bound is met -/

/-- Two polls dispatch one timer to two workers; the clock of the second is `skew` ahead, and it
    claims when the first one's lease ends by its own clock. -/
def overlapping (ttl skew : ℚ) : List TimedAction :=
  [(0, .publish "t" "a" [1] 0), (0, .fetch "t" .bytes 0 1 ttl), (0, .fetch "t" .bytes 0 1 ttl),
    (0, .sendClaim 0 0), (0, .executeClaim 0), (0, .claimReply 0 3), (ttl - skew, .sendClaim 1 ttl),
    (ttl - skew, .executeClaim 1), (ttl - skew, .claimReply 1 4)]

/-- A claim of what is due is granted, and leaves it under its lease. -/
theorem run_claim_due {k : TopicStore} (h : k.Agree) {id : String} {p : Bytes} {s : ℚ}
    (hc : k.cell (encode id) = some (p, s)) (now ttl : ℚ) (hle : s ≤ now) :
    (k.run (.claim id now ttl)).1 = .ok (.payload (some p)) ∧ (k.run (.claim id now ttl)).2.Agree ∧
      (k.run (.claim id now ttl)).2.cell (encode id) = some (p, now + ttl) := by
  refine ⟨?_, TopicStore.agree_run h _, ?_⟩
  · show Except.ok (Reply.payload (k.claim id now ttl).1) = _
    rw [TopicStore.claim_eq_grant h, hc, Lease.grant_some, if_pos hle]
  · rw [TopicStore.cell_run h, hc, Lease.stepCell_of _ (act_eq_claim.mpr ⟨ttl, rfl, rfl⟩),
      Lease.apply_claim_some, if_pos hle]

/-- Both claims are granted, and both workers run the handler. -/
theorem overlapping_run (ttl skew : ℚ) : (runAt (overlapping ttl skew)).log =
      [⟨.publisher, "t", .schedule "a" [1] 0, .ok .done⟩,
        ⟨.poll, "t", .due .bytes 0 1, .ok (.ids ["a"])⟩, ⟨.poll, "t", .due .bytes 0 1, .ok (.ids ["a"])⟩,
        ⟨.claimOf 0, "t", .claim "a" 0 ttl, .ok (.payload (some [1]))⟩,
        ⟨.claimOf 1, "t", .claim "a" ttl ttl, .ok (.payload (some [1]))⟩] ∧
    (runAt (overlapping ttl skew)).tasks =
      [⟨"t", "a", ttl, some 0, some [1], [], none⟩, ⟨"t", "a", ttl, some ttl, some [1], [], none⟩] ∧
    (runAt (overlapping ttl skew)).delivered = [⟨0, 3, "t", "a", [1]⟩, ⟨1, 4, "t", "a", [1]⟩] := by
  have hag : (TopicStore.empty.schedule "a" [1] 0).Agree :=
    TopicStore.agree_schedule TopicStore.agree_empty "a"
  have hpublish : TopicStore.empty.run (.schedule "a" [1] 0) =
      (.ok .done, TopicStore.empty.schedule "a" [1] 0) := rfl
  have hdue : ((TopicStore.empty.schedule "a" [1] 0).run (.due .bytes 0 1)).1 = .ok (.ids ["a"]) := by
    decide +kernel
  have hsame : ((TopicStore.empty.schedule "a" [1] 0).run (.due .bytes 0 1)).2 =
      TopicStore.empty.schedule "a" [1] 0 := by
    obtain ⟨ids, h, _⟩ := hag.due_eq .bytes 0 1
    simp only [TopicStore.run, h]
  obtain ⟨hfirst, hag', hcell⟩ := run_claim_due hag
    (TopicStore.cell_schedule (k := .empty) (p := [1]) (s := 0) "a") 0 ttl le_rfl
  obtain ⟨hsecond, _⟩ := run_claim_due hag' hcell ttl ttl (by linarith)
  simp [runAt, overlapping, stepAt, step, execute, applyEntry, Fleet.init, idsOf, Stores.empty,
    hpublish, hdue, hsame, hfirst, hsecond, Task.spawned, Task.live, setTask, Entry.granted]

theorem overlapping_handles (ttl skew : ℚ) : (runAt (overlapping ttl skew)).Handles "t" "a" 0 0 ∧
    (runAt (overlapping ttl skew)).Handles "t" "a" 0 1 := by
  obtain ⟨hlog, htasks, hdelivered⟩ := overlapping_run ttl skew
  have hof : ∀ d ∈ (runAt (overlapping ttl skew)).delivered,
      d ∈ (runAt (overlapping ttl skew)).deliveriesOf "t" "a" 0 := fun d hd => by
    refine List.mem_filter.mpr ⟨hd, ?_⟩
    rw [hdelivered] at hd
    rw [hlog]
    rcases List.mem_pair.mp hd with rfl | rfl <;>
      simp [occurrence, Lease.holder, Lease.holderFrom, Entry.act, Command.act]
  have hrunning : ∀ n task, (runAt (overlapping ttl skew)).tasks[n]? = some task →
      (runAt (overlapping ttl skew)).Handling n task := fun n task ht => by
    refine ⟨ht, ?_⟩
    have hmem := List.mem_of_getElem? ht
    rw [htasks] at hmem
    rcases List.mem_pair.mp hmem with rfl | rfl <;> exact ⟨rfl, Option.some_ne_none _⟩
  constructor
  · exact ⟨⟨_, hrunning 0 _ (by rw [htasks]; rfl)⟩, _, hof ⟨0, 3, "t", "a", [1]⟩ (by simp [hdelivered]), rfl⟩
  · exact ⟨⟨_, hrunning 1 _ (by rw [htasks]; rfl)⟩, _, hof ⟨1, 4, "t", "a", [1]⟩ (by simp [hdelivered]), rfl⟩

/-- **THE BOUND IS MET.** A margin for the skew that falls short of it by anything does not do: with
    clocks that differ by `skew` there is a run, whatever the lease, in which every handler is in
    time for the smaller margin and two handlers of one timer run at once. -/
theorem handlers_overlap (ttl skew margin : ℚ) (hskew : 0 ≤ skew) (httl : skew ≤ ttl)
    (hmargin : margin < skew) : ∃ ahead es, Clocks ahead skew es ∧ PollsNonneg es ∧
      Along stepAt (fun s e => InTime ahead margin e.1 s) .init es ∧
      ¬ Along stepAt (fun s _ => ∀ topic id i n m, s.Handles topic id i n → s.Handles topic id i m →
        n = m) .init es := by
  have hpos : 0 ≤ ttl - skew := by linarith
  have hsent : ∀ t n now, (t, Action.sendClaim n now) ∈ overlapping ttl skew ++ [(ttl - skew, .finish 0 .crashed)] →
      t = 0 ∧ n = 0 ∧ now = 0 ∨ t = ttl - skew ∧ n = 1 ∧ now = ttl := fun t n now hmem => by
    simpa [overlapping] using hmem
  have hpolls : ∀ t topic mode now limit ttl',
      (t, Action.fetch topic mode now limit ttl') ∈ overlapping ttl skew ++ [(ttl - skew, .finish 0 .crashed)] →
      ttl' = ttl := fun t topic mode now limit ttl' hmem => by
    simp [overlapping] at hmem
    exact hmem.2.2.2.2.2
  have hlast : ∀ e ∈ overlapping ttl skew ++ [(ttl - skew, .finish 0 .crashed)], e.1 ≤ ttl - skew := by
    simp [overlapping, hpos]
  refine ⟨secondAhead skew, overlapping ttl skew ++ [(ttl - skew, .finish 0 .crashed)],
    ⟨secondAhead_within hskew, by simp [overlapping, hpos], fun t n now hmem => ?_⟩,
    fun t topic mode now limit ttl' hmem => ?_, along_inTime hpolls hlast fun t n now hmem => ?_, ?_⟩
  · rcases hsent t n now hmem with ⟨rfl, rfl, rfl⟩ | ⟨rfl, rfl, rfl⟩
    · exact (add_zero 0).symm
    · exact (sub_add_cancel _ _).symm
  · rw [hpolls t topic mode now limit ttl' hmem]
    linarith
  · rcases hsent t n now hmem with ⟨_, rfl, rfl⟩ | ⟨_, rfl, rfl⟩
    · show ttl - skew < 0 - 0 + ttl - margin
      linarith
    · show now - skew < now - skew + now - margin
      linarith
  · intro h
    have hboth : ∀ topic id i n m, (runAt (overlapping ttl skew)).Handles topic id i n →
        (runAt (overlapping ttl skew)).Handles topic id i m → n = m := h.at
    exact absurd (hboth _ _ _ _ _ (overlapping_handles ttl skew).1 (overlapping_handles ttl skew).2)
      (by decide)

theorem handlers_overlap_half_minute : ∃ ahead es, Clocks ahead 10 es ∧ PollsNonneg es ∧
    Along stepAt (fun s e => InTime ahead 9 e.1 s) .init es ∧
    ¬ Along stepAt (fun s _ => ∀ topic id i n m, s.Handles topic id i n → s.Handles topic id i m →
      n = m) .init es :=
  handlers_overlap 30 10 9 (by norm_num) (by norm_num) (by norm_num)

end Fleet

end RedisTimers
