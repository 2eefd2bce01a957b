/-
  File:      RedisTimers/Guarantees.lean
  Subject:   WHAT HOLDS OF A TIMER OVER EVERY RUN OF THE FLEET: retention until it is removed, one
             holder at a time, freshness of what is delivered, and how a timer can leave the store.

  The log of a run is executed (`executed_run`), and each timer is a leased cell over that log
  (`cell_storesAfter`), so each guarantee is the rule of `Lease` of the same name, read back in
  terms of schedules, claims and removals.
-/
import Mathlib.Tactic.Linarith
import RedisTimers.Consumption

namespace RedisTimers

open Lease Replay

/-! ## 1. Timers in an executed log -/

/-- No entry of the list schedules the timer. -/
def NotScheduled (topic id : String) (es : List Entry) : Prop :=
  ∀ e ∈ es, ∀ p ts, ¬ e.IsSchedule topic id p ts

/-- No entry of the list removes the timer. -/
def NotRemoved (topic id : String) (es : List Entry) : Prop := ∀ e ∈ es, ¬ e.Removes topic id

/-- No claim of the list was answered with the timer's payload. -/
def NotClaimed (topic id : String) (es : List Entry) : Prop :=
  ∀ e ∈ es, ∀ now ttl, e.IsClaim topic id now ttl → e.granted = none

/-- Every lease the list's claims ask for is non-negative. -/
def LeasesNonneg (es : List Entry) : Prop :=
  ∀ e ∈ es, ∀ topic id now ttl, e.IsClaim topic id now ttl → 0 ≤ ttl

section Positions

variable {α : Type} {l : List α} {a b : α} {j k : Nat}

theorem split_at (h : l[k]? = some a) : ∃ xs ys, l = xs ++ a :: ys ∧ xs.length = k := by
  obtain ⟨hk, ha⟩ := List.getElem?_eq_some_iff.mp h
  refine ⟨l.take k, l.drop (k + 1), ?_, by rw [List.length_take]; omega⟩
  rw [← ha, ← List.drop_eq_getElem_cons hk, List.take_append_drop]

theorem split_at_two (hj : l[j]? = some a) (hk : l[k]? = some b) (hjk : j < k) :
    ∃ xs ys zs, l = xs ++ a :: (ys ++ b :: zs) ∧ xs.length = j ∧ xs.length + 1 + ys.length = k := by
  obtain ⟨xs, rest, rfl, rfl⟩ := split_at hj
  rw [List.getElem?_append_right (by omega)] at hk
  obtain ⟨m, hm⟩ : ∃ m, k - xs.length = m + 1 := ⟨k - xs.length - 1, by omega⟩
  rw [hm, List.getElem?_cons_succ] at hk
  obtain ⟨ys, zs, rfl, hys⟩ := split_at hk
  exact ⟨xs, ys, zs, rfl, rfl, by omega⟩

/-- The element after a first part is at the position of its length. -/
theorem getElem?_middle (xs : List α) (a : α) (ys : List α) : (xs ++ a :: ys)[xs.length]? = some a := by
  rw [List.getElem?_append_right le_rfl, Nat.sub_self]
  rfl

/-- An element of the middle part has a position between those of its ends. -/
theorem position_of_mem (xs : List α) (a : α) {ys : List α} (zs : List α) {e : α} (he : e ∈ ys) :
    ∃ j, xs.length < j ∧ j < xs.length + 1 + ys.length ∧ (xs ++ a :: (ys ++ zs))[j]? = some e := by
  obtain ⟨m, hm, rfl⟩ := List.getElem_of_mem he
  refine ⟨xs.length + (m + 1), by omega, by omega, ?_⟩
  rw [List.getElem?_append_right (by omega), Nat.add_sub_cancel_left, List.getElem?_cons_succ,
    List.getElem?_append_left hm]
  exact List.getElem?_eq_getElem hm

/-- An element of the last part has a position after the element before it. -/
theorem position_after {xs ys : List α} (h : l = xs ++ a :: ys) {e : α} (he : e ∈ ys) :
    ∃ j, xs.length < j ∧ l[j]? = some e := by
  obtain ⟨j, hj, _, hje⟩ := position_of_mem xs a [] he
  rw [List.append_nil, ← h] at hje
  exact ⟨j, hj, hje⟩

end Positions

section Views

variable {topic id : String} {es xs ys : List Entry} {e c : Entry} {p : Bytes} {ts now ttl : ℚ}

theorem NotScheduled.noPut (h : NotScheduled topic id es) : NoPut (Entry.act topic id) es :=
  fun e he p ts hv => h e he p ts (Entry.act_put.mp hv)

theorem NotRemoved.noDrop (h : NotRemoved topic id es) : NoDrop (Entry.act topic id) es :=
  fun e he hv => h e he (Entry.act_drop.mp hv)

theorem NotClaimed.noGrant (h : NotClaimed topic id es) :
    NoGrant (Entry.act topic id) Entry.granted es := by
  intro e he now till hv
  obtain ⟨ttl, hc, _⟩ := Entry.act_claim.mp hv
  exact h e he now ttl hc

theorem LeasesNonneg.forward (h : LeasesNonneg es) : Forward (Entry.act topic id) es := by
  intro e he now till hv
  obtain ⟨ttl, hc, rfl⟩ := Entry.act_claim.mp hv
  have hpos := h e he topic id now ttl hc
  linarith

theorem LeasesNonneg.sub (h : LeasesNonneg es) (hsub : ∀ e ∈ xs, e ∈ es) : LeasesNonneg xs :=
  fun e he => h e (hsub e he)

theorem notScheduled_of_noPut (h : NoPut (Entry.act topic id) es) : NotScheduled topic id es :=
  fun e he p ts hs => h e he p ts (Entry.act_put.mpr hs)

theorem notRemoved_of_noDrop (h : NoDrop (Entry.act topic id) es) : NotRemoved topic id es :=
  fun e he hr => h e he (Entry.act_drop.mpr hr)

/-- A claim in the log was answered as the cell before it grants it. -/
theorem granted_eq (h : Executed (xs ++ c :: ys)) (hc : c.IsClaim topic id now ttl) :
    c.granted = grant (after (Entry.act topic id) none xs) now :=
  (h.answers topic id).at now (now + ttl) (Entry.act_claim.mpr ⟨ttl, hc, rfl⟩)

/-- What the store says about a timer whose last schedule is in the log and that was not removed
    since: the payload of that schedule, and the end of its last lease. -/
theorem retained (h : Executed (xs ++ e :: ys)) (he : e.IsSchedule topic id p ts)
    (hs : NotScheduled topic id ys) (hr : NotRemoved topic id ys) :
    (storesAfter (xs ++ e :: ys) topic).cell (encode id) =
      some (p, leasedTill (Entry.act topic id) Entry.granted ts ys) := by
  have hput : stepCell (Entry.act topic id) (after (Entry.act topic id) none xs) e = some (p, ts) := by
    rw [stepCell_of _ (Entry.act_put.mpr he)]
    rfl
  have hal := (h.answers topic id).rest.2
  rw [cell_storesAfter, after_append, after_cons, hput]
  exact after_put hs.noPut hr.noDrop (hput ▸ hal)

end Views

/-! ## 2. Retention -/

/-- What the two keys of a topic hold of a timer, and what claims of it answer. -/
structure Retains (k : TopicStore) (id : String) (p : Bytes) (score : ℚ) : Prop where
  stored : k.payloads.lookup (encode id) = some p
  scored : k.timeline.lookup (encode id) = some score
  claimable : ∀ now ttl, score ≤ now → (k.claim id now ttl).1 = some p

theorem retains_of_cell {k : TopicStore} (h : k.Agree) {id : String} {p : Bytes} {score : ℚ}
    (hc : k.cell (encode id) = some (p, score)) : Retains k id p score where
  stored := by rw [h.payloads_lookup, hc]; rfl
  scored := by rw [h.timeline_lookup, hc]; rfl
  claimable now ttl hle := by
    rw [TopicStore.claim_eq_grant h, hc, grant_some, if_pos hle]

/-- What a claim leaves under the keys of its topic: the payloads, and the timeline with at most
    one score moved, that of its own id to the end of its own lease. -/
theorem claim_effect {k : TopicStore} (h : k.Agree) (id : String) (now ttl : ℚ) :
    (k.claim id now ttl).2.payloads = k.payloads ∧
      ((k.claim id now ttl).2.timeline = k.timeline ∨
        (k.claim id now ttl).2.timeline = k.timeline.insert (encode id) (now + ttl)) := by
  have hb : k.claimBranch (encode id) now ≠ .orphan := h.claimBranch_ne_orphan
  unfold TopicStore.claim TopicStore.claimLua
  cases hc : k.claimBranch (encode id) now with
  | notDue => exact ⟨rfl, Or.inl rfl⟩
  | orphan => exact absurd hc hb
  | leased p => exact ⟨rfl, Or.inr rfl⟩

/-- What the store says about a timer whose last schedule is in the log of a run and that was not
    removed since. -/
theorem retains_run {s : Fleet} (hex : Executed s.log) (hst : s.stores = storesAfter s.log)
    {topic id : String} {p : Bytes} {ts : ℚ} {xs ys : List Entry} {e : Entry}
    (hlog : s.log = xs ++ e :: ys) (he : e.IsSchedule topic id p ts)
    (hs : NotScheduled topic id ys) (hr : NotRemoved topic id ys) :
    ∃ score, Retains (s.stores topic) id p score ∧ (NotClaimed topic id ys → score = ts) ∧
      ∀ (us : List Entry) (c : Entry) (vs : List Entry) (now ttl : ℚ), ys = us ++ c :: vs →
        c.IsClaim topic id now ttl → c.granted.isSome → NotClaimed topic id vs →
        score = now + ttl := by
  rw [hlog] at hex hst
  rw [hst]
  refine ⟨_, retains_of_cell (agree_storesAfter _ topic) (retained hex he hs hr), ?_, ?_⟩
  · intro hnc
    exact leasedTill_of_noGrant hnc.noGrant
  · rintro us c vs now ttl rfl hc hg hnc
    exact leasedTill_of_last (Entry.act_claim.mpr ⟨ttl, hc, rfl⟩) hg hnc.noGrant

section OwnCommands

variable {s : Fleet} {n : Nat} {task : Task} {us vs : List Entry} {x : Entry}

/-- A claim of a task is the claim it sent, and moves no score but that of the task's id. -/
theorem Fleet.Inv.own_claim (h : Fleet.Inv s) (ht : s.tasks[n]? = some task)
    (hlog : s.log = us ++ x :: vs) (ho : x.origin = .claimOf n) :
    ∃ now, task.claimNow = some now ∧ x.IsClaim task.topic task.timerId now task.leaseTtl ∧
      let k := storesAfter us task.topic
      let k' := storesAfter (us ++ [x]) task.topic
      k'.payloads = k.payloads ∧ (k'.timeline = k.timeline ∨
        k'.timeline = k.timeline.insert (encode task.timerId) (now + task.leaseTtl)) := by
  have hsent := h.sent us.length x (hlog ▸ getElem?_middle us x vs)
  unfold Fleet.SentBy at hsent
  rw [ho] at hsent
  obtain ⟨task', now, ht', hn, hc⟩ := hsent
  rw [ht] at ht'
  cases ht'
  refine ⟨now, hn, hc, ?_⟩
  have hafter : storesAfter (us ++ [x]) task.topic =
      ((storesAfter us task.topic).claim task.timerId now task.leaseTtl).2 := by
    rw [storesAfter_concat, applyEntry, hc.1, Function.update_self, hc.2]
    rfl
  rw [hafter]
  exact claim_effect (agree_storesAfter us _) task.timerId now task.leaseTtl

/-- A removal of a task is one it sent, after it was handed a payload. -/
theorem Fleet.Inv.own_removal (h : Fleet.Inv s) (ht : s.tasks[n]? = some task)
    (hlog : s.log = us ++ x :: vs) {why : Removal} (ho : x.origin = .removalBy n why) :
    why ∈ task.removals ∧ task.payload ≠ none := by
  have hsent := h.sent us.length x (hlog ▸ getElem?_middle us x vs)
  unfold Fleet.SentBy at hsent
  rw [ho] at hsent
  obtain ⟨task', ht', hw, _⟩ := hsent
  rw [ht] at ht'
  cases ht'
  exact ⟨hw, h.sender n task ht (List.ne_nil_of_mem hw)⟩

end OwnCommands

/-- Only users send removals from outside a delivery. -/
theorem outside_user {a : Action} {o : Origin} {topic : String} {c : Command} {id : String}
    (h : Fleet.Outside a o topic c) (hc : c = .remove id ∨ c = .cancelAll) : o = .user := by
  cases h with
  | schedule => rcases hc with hc | hc <;> cases hc
  | remove => rfl
  | cancelAll => rfl
  | discard => rcases hc with hc | hc <;> cases hc

/-- A timer is removed by a user, or by a delivery of its id. -/
theorem Fleet.Inv.remover {s : Fleet} (h : Fleet.Inv s) {topic id : String} {k : Nat} {x : Entry}
    (hk : s.log[k]? = some x) (hr : x.Removes topic id) :
    x.origin = .user ∨ ∃ d ∈ s.delivered, ∃ why, x.origin = .removalBy d.task why ∧
      d.topic = topic ∧ d.timerId = id ∧ d.claimAt < k := by
  have hsent := h.sent k x hk
  unfold Fleet.SentBy at hsent
  split at hsent
  · obtain ⟨_, _, _, _, hc⟩ := hsent
    rcases hr.2 with hr | hr <;> rw [hc.2] at hr <;> cases hr
  · rename_i n why ho
    obtain ⟨task, ht, _, htopic, hcmd, d, hd, rfl, hdk⟩ := hsent
    obtain ⟨_, task', _, _, _, ht', htop', hid'⟩ := h.backed d hd
    rw [ht] at ht'
    cases ht'
    refine Or.inr ⟨d, hd, why, ho, htop'.symm.trans (htopic.symm.trans hr.1), ?_, hdk⟩
    rcases hr.2 with hr | hr
    · rw [hcmd] at hr
      cases hr
      exact hid'.symm
    · rw [hcmd] at hr
      cases hr
  · obtain ⟨_, _, _, hc⟩ := hsent
    rcases hr.2 with hr | hr <;> rw [hc] at hr <;> cases hr
  · obtain ⟨_, hout⟩ := hsent
    exact Or.inl (outside_user hout hr.2)

/-- No user removes the timer: it is not cancelled, and its topic not cleared. -/
def NotCancelled (topic id : String) (es : List Entry) : Prop :=
  ∀ e ∈ es, e.origin = .user → ¬ e.Removes topic id

/-- A timer that no user removed, and that every task of it failed, is not removed. -/
theorem Consumption.Sound.notRemoved {middleware : Middleware}
    {parse : Bytes → Except PyError (Bytes × Headers)} {s : Consumption}
    (h : Sound middleware parse s) (hm : NacksOnError middleware) {topic id : String} {es : List Entry}
    (hes : ∀ x ∈ es, x ∈ s.fleet.log) (huser : NotCancelled topic id es)
    (hfail : ∀ (n : Nat) (task : Task), s.fleet.tasks[n]? = some task → task.topic = topic →
      task.timerId = id → Failing s n task ∧ LeftToRetry parse task (s.handlings n)) :
    NotRemoved topic id es := by
  intro x hx hr
  have hinv := h.inv
  obtain ⟨k, hk⟩ := List.getElem?_of_mem (hes x hx)
  rcases hinv.remover hk hr with hu | ⟨d, hd, why, ho, htopic, hid, _⟩
  · exact huser x hx hu hr
  · obtain ⟨_, task, _, _, _, ht, htop, htid⟩ := hinv.backed d hd
    obtain ⟨hf, hleft⟩ := hfail d.task task ht (htop.trans htopic) (htid.trans hid)
    exact (h.failing_path hm ht hf hleft).2 x (hes x hx) why ho

/-- **AT LEAST ONCE.** After any run, a timer not removed since its last schedule is stored with
    that schedule's payload, at its activation time or at the end of the last lease Redis granted,
    and every claim from then on returns it. A task has Redis execute its own claim, which moves
    the score of its own id to the end of its own lease, and the removals it sent; it sends none
    unless it was handed a payload. Each of these is an ack or reject of its message or the discard of
    a corrupt one, and on a path that fails there is none: so a timer that was only handled on such
    paths since its schedule is stored like that. -/
theorem at_least_once :
    (∀ (as : List Action) (topic id : String) (p : Bytes) (ts : ℚ) (xs : List Entry) (e : Entry)
      (ys : List Entry), (Fleet.run as).log = xs ++ e :: ys → e.IsSchedule topic id p ts →
      NotScheduled topic id ys → NotRemoved topic id ys →
      ∃ score, Retains ((Fleet.run as).stores topic) id p score ∧
        (NotClaimed topic id ys → score = ts) ∧
        ∀ (us : List Entry) (c : Entry) (vs : List Entry) (now ttl : ℚ), ys = us ++ c :: vs →
          c.IsClaim topic id now ttl → c.granted.isSome → NotClaimed topic id vs →
          score = now + ttl) ∧
    (∀ (as : List Action) (n : Nat) (task : Task) (us : List Entry) (x : Entry) (vs : List Entry),
      (Fleet.run as).tasks[n]? = some task → (Fleet.run as).log = us ++ x :: vs →
      (x.origin = .claimOf n → ∃ now, task.claimNow = some now ∧
        x.IsClaim task.topic task.timerId now task.leaseTtl ∧
        let k := storesAfter us task.topic
        let k' := storesAfter (us ++ [x]) task.topic
        k'.payloads = k.payloads ∧ (k'.timeline = k.timeline ∨
          k'.timeline = k.timeline.insert (encode task.timerId) (now + task.leaseTtl))) ∧
      ∀ why, x.origin = .removalBy n why → why ∈ task.removals ∧ task.payload ≠ none) ∧
    ∀ (middleware : Middleware) (parse : Bytes → Except PyError (Bytes × Headers)) (ids : KeptIds)
      (es : List Consumption.Event), NacksOnError middleware →
      let s := Consumption.run middleware parse ids es
      (∃ as, s.fleet = Fleet.run as) ∧
      -- every removal executed for a task is an ack, a reject or the discard of its message
      (∀ (n : Nat) (why : Removal), ∀ x ∈ s.fleet.log, x.origin = .removalBy n why →
        ∃ task, s.fleet.tasks[n]? = some task ∧ x.topic = task.topic ∧
          x.command = .remove task.timerId ∧ Consumption.Asked parse task (s.handlings n) why) ∧
      -- a path that fails sends none
      (∀ (n : Nat) (task : Task), s.fleet.tasks[n]? = some task → Consumption.Failing s n task →
        Consumption.LeftToRetry parse task (s.handlings n) →
        task.removals = [] ∧ ∀ x ∈ s.fleet.log, ∀ why, x.origin ≠ .removalBy n why) ∧
      -- and a timer handled on such paths alone is not removed
      ∀ (topic id : String) (xs : List Entry) (e : Entry) (ys : List Entry),
        s.fleet.log = xs ++ e :: ys → NotCancelled topic id ys →
        (∀ (n : Nat) (task : Task), s.fleet.tasks[n]? = some task → task.topic = topic →
          task.timerId = id → Consumption.Failing s n task ∧
            Consumption.LeftToRetry parse task (s.handlings n)) →
        NotRemoved topic id ys := by
  refine ⟨?_, ?_, ?_⟩
  · intro as topic id p ts xs e ys hlog he hs hr
    obtain ⟨hex, hst⟩ := Fleet.executed_run as
    exact retains_run hex hst hlog he hs hr
  · intro as n task us x vs ht hlog
    have hinv := Fleet.inv_run as
    exact ⟨hinv.own_claim ht hlog, fun why => hinv.own_removal ht hlog⟩
  · intro middleware parse ids es hm s
    have hsound : Consumption.Sound middleware parse s := Consumption.sound_run es
    refine ⟨hsound.fleet, fun n why x hx ho => ?_, fun n task ht hf hleft => ?_,
      fun topic id xs e ys hlog huser hfail => ?_⟩
    · obtain ⟨task, ht, _, htopic, hc, hasked⟩ := hsound.sent_of_executed hx ho
      exact ⟨task, ht, htopic, hc, hasked⟩
    · exact hsound.failing_path hm ht hf hleft
    · exact hsound.notRemoved hm (fun x hx => by rw [hlog]; simp [hx]) huser hfail

/-- Two workers compete for a timer; the handler of the one that is granted it raises. -/
def contested : List Action :=
  [.publish "t" "a" [1] 0, .fetch "t" .bytes 0 1 30, .fetch "t" .bytes 0 1 30, .sendClaim 0 0,
    .sendClaim 1 0, .executeClaim 1, .executeClaim 0, .claimReply 1 3, .claimReply 0 4]

def handlerRaised : List Consumption.Event :=
  contested.map .fleet ++ [.ends 1 .raised, .call 1 .middleware .nack,
    .fleet (.finish 1 (.consumed .raised))]

/-- The log of the two: a refused claim has no payload. -/
theorem contested_log : (Fleet.run contested).log =
    [⟨.publisher, "t", .schedule "a" [1] 0, .ok .done⟩,
      ⟨.poll, "t", .due .bytes 0 1, .ok (.ids ["a"])⟩, ⟨.poll, "t", .due .bytes 0 1, .ok (.ids ["a"])⟩,
      ⟨.claimOf 1, "t", .claim "a" 0 30, .ok (.payload (some [1]))⟩,
      ⟨.claimOf 0, "t", .claim "a" 0 30, .ok (.payload none)⟩] := by
  decide +kernel

theorem at_least_once_raised :
    let s := Consumption.run nackingMiddleware (fun payload => .ok (payload, [])) fillIds
      handlerRaised
    (∀ n < 2, ∀ x ∈ s.fleet.log, ∀ why, x.origin ≠ .removalBy n why) ∧
      ∃ score, Retains ((Fleet.run contested).stores "t") "a" [1] score ∧ score = 0 + 30 := by
  intro s
  obtain ⟨hretained, _, hruns⟩ := at_least_once
  obtain ⟨_, _, hfailing, _⟩ := hruns nackingMiddleware (fun payload => .ok (payload, []))
    fillIds handlerRaised nackingMiddleware_nacks
  constructor
  · have hfirst : s.fleet.tasks[0]? = some ⟨"t", "a", 30, some 0, none, [], some .contested⟩ := by
      decide +kernel
    have hsecond : s.fleet.tasks[1]? =
        some ⟨"t", "a", 30, some 0, some [1], [], some (.consumed .raised)⟩ := by
      decide +kernel
    have hcalls : (s.handlings 0).calls = [] ∧ (s.handlings 1).calls = [(.middleware, .nack)] := by
      decide +kernel
    have hreadable : ∀ payload : Bytes,
        ¬ Corrupt (fun payload => .ok (payload, ([] : Headers))) payload := by
      rintro _ ⟨e, he, _⟩
      cases he
    intro n hn
    rcases (by omega : n = 0 ∨ n = 1) with rfl | rfl
    · exact (hfailing 0 _ hfirst (.contested rfl) ⟨by rw [hcalls.1]; nofun, fun p _ => hreadable p⟩).2
    · exact (hfailing 1 _ hsecond (.consumed .raised rfl rfl)
        ⟨by rw [hcalls.2]; simp, fun p _ => hreadable p⟩).2
  · -- the refused claim after the granted one leaves the score where it is
    obtain ⟨score, hret, _, hlease⟩ := hretained contested "t" "a" [1] 0 [] _ _ contested_log ⟨rfl, rfl⟩
      (by simp [NotScheduled, Entry.IsSchedule]) (by simp [NotRemoved, Entry.Removes])
    refine ⟨score, hret, hlease [_, _] _ [_] 0 30 rfl ⟨rfl, rfl⟩ rfl ?_⟩
    simp [NotClaimed, Entry.granted]

/-! ## 3. Exclusivity -/

/-- The position in the log of the schedule whose timer the store holds under an id. -/
def occurrence (topic id : String) (log : List Entry) : Option Nat :=
  holder (Entry.act topic id) log

/-- The store holds under an id the timer of its last schedule, with no removal since. -/
theorem occurrence_eq_some {topic id : String} {l : List Entry} {k i : Nat}
    (h : occurrence topic id (l.take k) = some i) :
    i < k ∧ (∃ e p ts, l[i]? = some e ∧ e.IsSchedule topic id p ts) ∧
      ∀ (j : Nat) (x : Entry), i < j → j < k → l[j]? = some x →
        (∀ p ts, ¬ x.IsSchedule topic id p ts) ∧ ¬ x.Removes topic id := by
  obtain ⟨xs, e, ys, p, ts, hl, rfl, hv, hp, hd⟩ := holder_eq_some h
  have hlen : xs.length + (ys.length + 1) ≤ k := by
    have hle := congrArg List.length hl
    rw [List.length_take, List.length_append, List.length_cons] at hle
    omega
  have hat : ∀ j, j < k → l[j]? = (xs ++ e :: ys)[j]? := fun j hj => by
    rw [← hl, List.getElem?_take_of_lt hj]
  refine ⟨by omega, ⟨e, p, ts, ?_, Entry.act_put.mp hv⟩, fun j x hij hjk hx => ?_⟩
  · rw [hat _ (by omega)]
    exact getElem?_middle xs e ys
  · rw [hat j hjk, List.getElem?_append_right (by omega)] at hx
    obtain ⟨m, hm⟩ : ∃ m, j - xs.length = m + 1 := ⟨j - xs.length - 1, by omega⟩
    rw [hm, List.getElem?_cons_succ] at hx
    have hmem := List.mem_of_getElem? hx
    exact ⟨notScheduled_of_noPut hp x hmem, notRemoved_of_noDrop hd x hmem⟩

/-- A timer not scheduled or removed since its schedule is the one the store holds. -/
theorem occurrence_of_schedule {topic id : String} {us ys : List Entry} {e : Entry} {p : Bytes}
    {ts : ℚ} (he : e.IsSchedule topic id p ts) (hs : NotScheduled topic id ys)
    (hr : NotRemoved topic id ys) : occurrence topic id (us ++ e :: ys) = some us.length := by
  by_contra hne
  rcases replaced_or_dropped (Entry.act_put.mpr he) hne with ⟨x, hx, q, u, hv⟩ | ⟨x, hx, hv⟩
  · exact hs x hx q u (Entry.act_put.mp hv)
  · exact hr x hx (Entry.act_drop.mp hv)

/-- **Two granted claims of one timer are at least a lease apart**, unless it was scheduled between
    them. -/
theorem claims_apart {topic id : String} {xs ys zs : List Entry} {c₁ c₂ : Entry}
    {now₁ ttl₁ now₂ ttl₂ : ℚ} (h : Executed (xs ++ c₁ :: (ys ++ c₂ :: zs))) (hpos : LeasesNonneg ys)
    (h₁ : c₁.IsClaim topic id now₁ ttl₁) (hg₁ : c₁.granted.isSome)
    (h₂ : c₂.IsClaim topic id now₂ ttl₂) (hg₂ : c₂.granted.isSome)
    (hs : NotScheduled topic id ys) : now₁ + ttl₁ ≤ now₂ := by
  have hv : c₁.act topic id = some (.claim now₁ (now₁ + ttl₁)) := Entry.act_claim.mpr ⟨ttl₁, h₁, rfl⟩
  rw [granted_eq h h₁] at hg₁
  have hsplit : xs ++ c₁ :: (ys ++ c₂ :: zs) = (xs ++ c₁ :: ys) ++ c₂ :: zs := by simp
  rw [hsplit] at h
  rw [granted_eq h h₂, after_append, after_cons] at hg₂
  exact grants_apart hv hg₁ hs.noPut hpos.forward hg₂

/-- Every granted claim of the timer is followed by a removal of it that Redis executes before a
    claim of it reads a clock at or past the end of its lease. -/
def RemovedInTime (topic id : String) (log : List Entry) : Prop :=
  ∀ xs c rest now ttl, log = xs ++ c :: rest → c.IsClaim topic id now ttl → c.granted.isSome →
    ∃ us r vs, rest = us ++ r :: vs ∧ r.Removes topic id ∧
      ∀ e ∈ us, ∀ now' ttl', e.IsClaim topic id now' ttl' → now' < now + ttl

/-- Redis executes a removal of the timer before a claim of it reads a clock at or past `till`. -/
def RemovedBefore (topic id : String) (till : ℚ) (log : List Entry) : Prop :=
  ∃ us r vs, log = us ++ r :: vs ∧ r.Removes topic id ∧
    ∀ e ∈ us, ∀ now ttl, e.IsClaim topic id now ttl → now < till

theorem removedBefore_cons {topic id : String} {till : ℚ} {e : Entry} {log : List Entry} :
    RemovedBefore topic id till (e :: log) ↔ e.Removes topic id ∨
      ((∀ now ttl, e.IsClaim topic id now ttl → now < till) ∧ RemovedBefore topic id till log) := by
  constructor
  · rintro ⟨us, r, vs, hlog, hr, hclock⟩
    cases us with
    | nil =>
        obtain ⟨rfl, _⟩ := List.cons.inj hlog
        exact Or.inl hr
    | cons u us =>
        obtain ⟨rfl, hrest⟩ := List.cons.inj hlog
        exact Or.inr ⟨hclock e List.mem_cons_self, us, r, vs, hrest, hr,
          fun x hx => hclock x (List.mem_cons_of_mem _ hx)⟩
  · rintro (hr | ⟨hnow, us, r, vs, rfl, hr, hclock⟩)
    · exact ⟨[], e, log, rfl, hr, List.forall_mem_nil _⟩
    · exact ⟨e :: us, r, vs, rfl, hr, List.forall_mem_cons.mpr ⟨hnow, hclock⟩⟩

theorem removedInTime_nil {topic id : String} : RemovedInTime topic id [] := by
  intro xs c rest _ _ hlog
  simp at hlog

/-- One entry more in front of a log asks for a removal if it is a granted claim. -/
theorem removedInTime_cons {topic id : String} {e : Entry} {log : List Entry} :
    RemovedInTime topic id (e :: log) ↔
      (∀ now ttl, e.IsClaim topic id now ttl → e.granted.isSome →
        RemovedBefore topic id (now + ttl) log) ∧ RemovedInTime topic id log := by
  constructor
  · intro h
    exact ⟨fun now ttl => h [] e log now ttl rfl,
      fun xs c rest now ttl hlog => h (e :: xs) c rest now ttl (by rw [hlog]; rfl)⟩
  · rintro ⟨hfirst, hrest⟩ xs c rest now ttl hlog
    cases xs with
    | nil =>
        obtain ⟨rfl, rfl⟩ := List.cons.inj hlog
        exact hfirst now ttl
    | cons x xs => exact hrest xs c rest now ttl (List.cons.inj hlog).2

/-- A timer removed in time and not scheduled again is granted to one claim. -/
theorem second_claim_refused {topic id : String} {xs ys zs : List Entry} {c₁ c₂ : Entry}
    {now₁ ttl₁ now₂ ttl₂ : ℚ} (h : Executed (xs ++ c₁ :: (ys ++ c₂ :: zs)))
    (h₁ : c₁.IsClaim topic id now₁ ttl₁) (hg₁ : c₁.granted.isSome)
    (h₂ : c₂.IsClaim topic id now₂ ttl₂) (hs : NotScheduled topic id (ys ++ c₂ :: zs))
    (ht : RemovedInTime topic id (xs ++ c₁ :: (ys ++ c₂ :: zs))) : c₂.granted = none := by
  obtain ⟨us, r, vs, hrest, hr, hclock⟩ := ht xs c₁ _ now₁ ttl₁ rfl h₁ hg₁
  have hv₁ : c₁.act topic id = some (.claim now₁ (now₁ + ttl₁)) := Entry.act_claim.mpr ⟨ttl₁, h₁, rfl⟩
  have hv₂ : c₂.act topic id = some (.claim now₂ (now₂ + ttl₂)) := Entry.act_claim.mpr ⟨ttl₂, h₂, rfl⟩
  rw [granted_eq h h₁] at hg₁
  obtain ⟨p, hp⟩ := Option.isSome_iff_exists.mp hg₁
  have hcell := stepCell_granted hv₁ hp
  have hsplit : xs ++ c₁ :: (ys ++ c₂ :: zs) = (xs ++ c₁ :: ys) ++ c₂ :: zs := by simp
  rw [hsplit] at h
  rw [granted_eq h h₂, after_append, after_cons, hcell]
  refine no_grant_of_timely_drop (hrest ▸ hs.noPut) (Entry.act_drop.mpr hr) ?_ hrest.symm hv₂
  intro e he now u hu
  obtain ⟨ttl, hc, _⟩ := Entry.act_claim.mp hu
  exact hclock e he now ttl hc

namespace Fleet

/-- The deliveries of the timer that the schedule at position `i` of the log put in the store. -/
def deliveriesOf (s : Fleet) (topic id : String) (i : Nat) : List Delivery :=
  s.delivered.filter fun d => d.topic = topic ∧ d.timerId = id ∧
    occurrence topic id (s.log.take d.claimAt) = some i

/-- The claim a delivery comes from. -/
theorem Inv.claim {s : Fleet} (h : Inv s) {d : Delivery} (hd : d ∈ s.delivered) :
    ∃ (e : Entry) (now ttl : ℚ), s.log[d.claimAt]? = some e ∧ e.IsClaim d.topic d.timerId now ttl ∧
      e.granted = some d.payload ∧ e.origin = .claimOf d.task := by
  obtain ⟨e, task, hk, ho, hg, ht, htopic, hid⟩ := h.backed d hd
  have hsent := h.sent _ e hk
  unfold SentBy at hsent
  rw [ho] at hsent
  obtain ⟨task', now, ht', _, hc⟩ := hsent
  rw [ht] at ht'
  cases ht'
  exact ⟨e, now, task.leaseTtl, hk, htopic ▸ hid ▸ hc, hg, ho⟩

/-- Deliveries of different tasks come from different claims. -/
theorem Inv.claimAt_inj {s : Fleet} (h : Inv s) {d d' : Delivery} (hd : d ∈ s.delivered)
    (hd' : d' ∈ s.delivered) (he : d.claimAt = d'.claimAt) : d = d' := by
  obtain ⟨e, _, _, hk, _, _, ho⟩ := h.claim hd
  obtain ⟨e', _, _, hk', _, _, ho'⟩ := h.claim hd'
  rw [he, hk'] at hk
  cases hk
  rw [ho] at ho'
  simp only [Origin.claimOf.injEq] at ho'
  exact List.inj_on_of_nodup_map h.once hd hd' ho'

/-- Two deliveries of one timer come from claims with no schedule of it between them. -/
theorem Inv.two_claims {s : Fleet} (h : Inv s) {topic id : String} {i : Nat} {d₁ d₂ : Delivery}
    (h₁ : d₁ ∈ s.deliveriesOf topic id i) (h₂ : d₂ ∈ s.deliveriesOf topic id i)
    (hlt : d₁.claimAt < d₂.claimAt) :
    ∃ (xs : List Entry) (c₁ : Entry) (ys : List Entry) (c₂ : Entry) (zs : List Entry)
      (now₁ ttl₁ now₂ ttl₂ : ℚ), s.log = xs ++ c₁ :: (ys ++ c₂ :: zs) ∧
      xs.length = d₁.claimAt ∧ xs.length + 1 + ys.length = d₂.claimAt ∧ i < xs.length ∧
      c₁.IsClaim topic id now₁ ttl₁ ∧ c₁.granted = some d₁.payload ∧
      c₂.IsClaim topic id now₂ ttl₂ ∧ c₂.granted = some d₂.payload ∧ NotScheduled topic id ys := by
  obtain ⟨hd₁, hof₁⟩ := List.mem_filter.mp h₁
  obtain ⟨hd₂, hof₂⟩ := List.mem_filter.mp h₂
  obtain ⟨rfl, rfl, ho₁⟩ := of_decide_eq_true hof₁
  obtain ⟨ht, hid, ho₂⟩ := of_decide_eq_true hof₂
  obtain ⟨c₁, now₁, ttl₁, hk₁, hc₁, hg₁, _⟩ := h.claim hd₁
  obtain ⟨c₂, now₂, ttl₂, hk₂, hc₂, hg₂, _⟩ := h.claim hd₂
  rw [ht, hid] at hc₂
  obtain ⟨xs, ys, zs, hlog, hx, hy⟩ := split_at_two hk₁ hk₂ hlt
  have hi := (occurrence_eq_some ho₁).1
  refine ⟨xs, c₁, ys, c₂, zs, now₁, ttl₁, now₂, ttl₂, hlog, hx, hy, by omega, hc₁, hg₁, hc₂, hg₂,
    fun e he => ?_⟩
  obtain ⟨j, hj₁, hj₂, hje⟩ := position_of_mem xs c₁ (c₂ :: zs) he
  rw [← hlog] at hje
  exact ((occurrence_eq_some ho₂).2.2 j e (by omega) (by omega) hje).1

end Fleet

/-- A list without duplicates whose elements are all equal has at most one. -/
theorem length_le_one {α : Type} {l : List α} (hn : l.Nodup) (h : ∀ a ∈ l, ∀ b ∈ l, a = b) :
    l.length ≤ 1 := by
  match l with
  | [] => simp
  | [a] => simp
  | a :: b :: rest =>
      have hab : a = b := h a (by simp) b (by simp)
      rw [hab] at hn
      simp at hn

namespace Fleet

/-- The claims of two deliveries of one scheduled timer are at least the first one's lease apart. -/
theorem Inv.deliveries_apart {s : Fleet} (h : Inv s) (hex : Executed s.log)
    (hpos : LeasesNonneg s.log) {topic id : String} {i : Nat} {d₁ d₂ : Delivery}
    (h₁ : d₁ ∈ s.deliveriesOf topic id i) (h₂ : d₂ ∈ s.deliveriesOf topic id i)
    (hlt : d₁.claimAt < d₂.claimAt) :
    ∃ (c₁ : Entry) (now₁ ttl₁ : ℚ) (c₂ : Entry) (now₂ ttl₂ : ℚ),
      s.log[d₁.claimAt]? = some c₁ ∧ c₁.IsClaim topic id now₁ ttl₁ ∧
      s.log[d₂.claimAt]? = some c₂ ∧ c₂.IsClaim topic id now₂ ttl₂ ∧ now₁ + ttl₁ ≤ now₂ := by
  obtain ⟨xs, c₁, ys, c₂, zs, now₁, ttl₁, now₂, ttl₂, hlog, hx, hy, _, hc₁, hg₁, hc₂, hg₂, hs⟩ :=
    h.two_claims h₁ h₂ hlt
  rw [hlog] at hex hpos
  have hys : LeasesNonneg ys := hpos.sub fun e he => by simp [he]
  refine ⟨c₁, now₁, ttl₁, c₂, now₂, ttl₂, ?_, hc₁, ?_, hc₂,
    claims_apart hex hys hc₁ (by simp [hg₁]) hc₂ (by simp [hg₂]) hs⟩
  · rw [hlog, ← hx]
    exact getElem?_middle xs c₁ _
  · have hassoc : xs ++ c₁ :: (ys ++ c₂ :: zs) = (xs ++ c₁ :: ys) ++ c₂ :: zs := by simp
    have hlen : (xs ++ c₁ :: ys).length = d₂.claimAt := by
      rw [List.length_append, List.length_cons]
      omega
    rw [hlog, hassoc, ← hlen]
    exact getElem?_middle _ c₂ zs

/-- Of two deliveries of a timer that is removed in time and not scheduled again, neither claim
    comes before the other. -/
theorem Inv.not_claimed_twice {s : Fleet} (h : Inv s) (hex : Executed s.log) {topic id : String}
    {i : Nat} (hrep : NotScheduled topic id (s.log.drop (i + 1)))
    (htime : RemovedInTime topic id s.log) {d₁ d₂ : Delivery}
    (h₁ : d₁ ∈ s.deliveriesOf topic id i) (h₂ : d₂ ∈ s.deliveriesOf topic id i) :
    ¬ d₁.claimAt < d₂.claimAt := by
  intro hlt
  obtain ⟨xs, c₁, ys, c₂, zs, now₁, ttl₁, now₂, ttl₂, hlog, _, _, hi, hc₁, hg₁, hc₂, hg₂, _⟩ :=
    h.two_claims h₁ h₂ hlt
  rw [hlog] at hex htime hrep
  have hs : NotScheduled topic id (ys ++ c₂ :: zs) := fun e he => by
    refine hrep e ?_
    rw [List.drop_append_of_le_length (by omega)]
    exact List.mem_append_right _ (List.mem_cons_of_mem _ he)
  have href := second_claim_refused hex hc₁ (by simp [hg₁]) hc₂ hs htime
  rw [href] at hg₂
  cases hg₂

/-- A timer that is removed in time and not scheduled again is delivered at most once. -/
theorem Inv.delivered_once {s : Fleet} (h : Inv s) (hex : Executed s.log) {topic id : String}
    {i : Nat} (hrep : NotScheduled topic id (s.log.drop (i + 1)))
    (htime : RemovedInTime topic id s.log) : (s.deliveriesOf topic id i).length ≤ 1 := by
  have hnd : (s.deliveriesOf topic id i).Nodup := (h.once.of_map _).filter _
  refine length_le_one hnd fun d₁ hd₁ d₂ hd₂ => ?_
  have heq : d₁.claimAt = d₂.claimAt := by
    have hle := h.not_claimed_twice hex hrep htime hd₁ hd₂
    have hge := h.not_claimed_twice hex hrep htime hd₂ hd₁
    omega
  exact h.claimAt_inj (List.mem_filter.mp hd₁).1 (List.mem_filter.mp hd₂).1 heq

end Fleet

/-- **LEASE EXCLUSIVITY.** In any executed log two granted claims of a timer with no schedule of it
    between them are at least the first one's lease apart; so are the claims of two deliveries of
    one scheduled timer, and if removals come in time such a timer is delivered at most once. -/
theorem lease_exclusive :
    (∀ (topic id : String) (xs : List Entry) (c₁ : Entry) (ys : List Entry) (c₂ : Entry)
      (zs : List Entry) (now₁ ttl₁ now₂ ttl₂ : ℚ),
      Executed (xs ++ c₁ :: (ys ++ c₂ :: zs)) → LeasesNonneg (xs ++ c₁ :: (ys ++ c₂ :: zs)) →
      c₁.IsClaim topic id now₁ ttl₁ → c₁.granted.isSome →
      c₂.IsClaim topic id now₂ ttl₂ → c₂.granted.isSome →
      NotScheduled topic id ys → now₁ + ttl₁ ≤ now₂) ∧
    ∀ (as : List Action) (topic id : String) (i : Nat), LeasesNonneg (Fleet.run as).log →
      (∀ d₁ ∈ (Fleet.run as).deliveriesOf topic id i, ∀ d₂ ∈ (Fleet.run as).deliveriesOf topic id i,
        d₁.claimAt < d₂.claimAt → ∃ (c₁ : Entry) (now₁ ttl₁ : ℚ) (c₂ : Entry) (now₂ ttl₂ : ℚ),
          (Fleet.run as).log[d₁.claimAt]? = some c₁ ∧ c₁.IsClaim topic id now₁ ttl₁ ∧
          (Fleet.run as).log[d₂.claimAt]? = some c₂ ∧ c₂.IsClaim topic id now₂ ttl₂ ∧
          now₁ + ttl₁ ≤ now₂) ∧
      (NotScheduled topic id ((Fleet.run as).log.drop (i + 1)) →
        RemovedInTime topic id (Fleet.run as).log →
        ((Fleet.run as).deliveriesOf topic id i).length ≤ 1) := by
  refine ⟨?_, fun as topic id i hpos => ⟨?_, ?_⟩⟩
  · intro topic id xs c₁ ys c₂ zs now₁ ttl₁ now₂ ttl₂ h hpos h₁ hg₁ h₂ hg₂ hs
    have hys : LeasesNonneg ys := hpos.sub fun e he => by simp [he]
    exact claims_apart h hys h₁ hg₁ h₂ hg₂ hs
  · intro d₁ hd₁ d₂ hd₂ hlt
    exact (Fleet.inv_run as).deliveries_apart (Fleet.executed_run as).1 hpos hd₁ hd₂ hlt
  · intro hrep htime
    exact (Fleet.inv_run as).delivered_once (Fleet.executed_run as).1 hrep htime

/-- The lease of `contested` runs out, two more tasks are spawned, and one of them is granted the timer
    and acks it; the claim of the other comes after that. -/
def redelivered : List Action :=
  contested ++ [.fetch "t" .bytes 30 1 30, .fetch "t" .bytes 30 1 30, .sendClaim 2 30, .executeClaim 2,
    .claimReply 2 7, .sendRemoval 2 .ack, .executeRemoval 2 .ack, .sendClaim 3 70, .executeClaim 3]

theorem redelivered_log : (Fleet.run redelivered).log =
    [⟨.publisher, "t", .schedule "a" [1] 0, .ok .done⟩,
      ⟨.poll, "t", .due .bytes 0 1, .ok (.ids ["a"])⟩, ⟨.poll, "t", .due .bytes 0 1, .ok (.ids ["a"])⟩,
      ⟨.claimOf 1, "t", .claim "a" 0 30, .ok (.payload (some [1]))⟩,
      ⟨.claimOf 0, "t", .claim "a" 0 30, .ok (.payload none)⟩,
      ⟨.poll, "t", .due .bytes 30 1, .ok (.ids ["a"])⟩, ⟨.poll, "t", .due .bytes 30 1, .ok (.ids ["a"])⟩,
      ⟨.claimOf 2, "t", .claim "a" 30 30, .ok (.payload (some [1]))⟩,
      ⟨.removalBy 2 .ack, "t", .remove "a", .ok .done⟩,
      ⟨.claimOf 3, "t", .claim "a" 70 30, .ok (.payload none)⟩] := by
  decide +kernel

theorem redelivered_delivered : (Fleet.run redelivered).delivered =
    [⟨1, 3, "t", "a", [1]⟩, ⟨2, 7, "t", "a", [1]⟩] := by
  decide +kernel

theorem redelivered_leases : LeasesNonneg (Fleet.run redelivered).log := by
  rw [redelivered_log]
  simp only [LeasesNonneg, Entry.IsClaim, List.forall_mem_cons, Command.claim.injEq, reduceCtorEq]
  refine ⟨by simp, by simp, by simp, ?_, ?_, by simp, by simp, ?_, by simp, ?_, by simp⟩ <;>
    · rintro _ _ _ _ ⟨_, _, _, rfl⟩
      norm_num

/-- `contested`, with the delivery acked within its lease. -/
def acked : List Action := contested ++ [.sendRemoval 1 .ack, .executeRemoval 1 .ack]

theorem acked_log : (Fleet.run acked).log =
    (Fleet.run contested).log ++ [⟨.removalBy 1 .ack, "t", .remove "a", .ok .done⟩] := by
  decide +kernel

theorem lease_exclusive_two :
    (∃ c₁ now₁ ttl₁ c₂ now₂ ttl₂, (Fleet.run redelivered).log[3]? = some c₁ ∧
      c₁.IsClaim "t" "a" now₁ ttl₁ ∧ (Fleet.run redelivered).log[7]? = some c₂ ∧
      c₂.IsClaim "t" "a" now₂ ttl₂ ∧ now₁ + ttl₁ ≤ now₂) ∧
    ((Fleet.run acked).deliveriesOf "t" "a" 0).length ≤ 1 := by
  obtain ⟨_, hruns⟩ := lease_exclusive
  constructor
  · have hof : ∀ d ∈ (Fleet.run redelivered).delivered,
        d ∈ (Fleet.run redelivered).deliveriesOf "t" "a" 0 := by decide +kernel
    rw [redelivered_delivered] at hof
    exact (hruns redelivered "t" "a" 0 redelivered_leases).1 ⟨1, 3, "t", "a", [1]⟩ (hof _ (by simp))
      ⟨2, 7, "t", "a", [1]⟩ (hof _ (by simp)) (by decide)
  · have hleases : LeasesNonneg (Fleet.run acked).log := by
      rw [acked_log, contested_log]
      simp [LeasesNonneg, Entry.IsClaim]
      rintro _ _ _ _ _ _ _ rfl
      norm_num
    refine (hruns acked "t" "a" 0 hleases).2 ?_ ?_
    · rw [acked_log, contested_log]
      simp [NotScheduled, Entry.IsSchedule]
    · rw [acked_log, contested_log]
      simp [removedInTime_cons, removedInTime_nil, removedBefore_cons, Entry.IsClaim, Entry.Removes,
        Entry.granted]

/-! ## 4. Freshness -/

/-- A claim of a timer that was removed and not scheduled since is refused and changes nothing. -/
theorem removed_stays_removed {topic id : String} {us ys zs : List Entry} {r c : Entry} {now ttl : ℚ}
    (h : Executed ((us ++ r :: ys) ++ c :: zs)) (hr : r.Removes topic id)
    (hs : NotScheduled topic id ys) (hc : c.IsClaim topic id now ttl) :
    c.granted = none ∧ storesAfter ((us ++ r :: ys) ++ [c]) topic = storesAfter (us ++ r :: ys) topic ∧
      (storesAfter (us ++ r :: ys) topic).isPending id = false := by
  have hcell : after (Entry.act topic id) none (us ++ r :: ys) = none := by
    rw [after_append, after_cons, stepCell_of _ (Entry.act_drop.mpr hr), apply_drop]
    exact after_none hs.noPut
  have hag := agree_storesAfter (us ++ r :: ys) topic
  have hlook : (storesAfter (us ++ r :: ys) topic).timeline.lookup (encode id) = none := by
    rw [← hag.cell_eq_none, cell_storesAfter]
    exact hcell
  refine ⟨?_, ?_, ?_⟩
  · rw [granted_eq h hc, hcell]
    rfl
  · rw [storesAfter_concat, applyEntry, hc.1, Function.update_self, hc.2]
    simp only [TopicStore.run, TopicStore.claim, TopicStore.claimLua, TopicStore.claimBranch, hlook]
  · rw [TopicStore.isPending, hlook]
    rfl

/-- Where a delivered payload comes from: the last schedule of its id before its claim. -/
theorem Fleet.Inv.source {s : Fleet} (h : Fleet.Inv s) (hex : Executed s.log) {d : Delivery}
    (hd : d ∈ s.delivered) :
    ∃ (us : List Entry) (e : Entry) (ys : List Entry) (c : Entry) (zs : List Entry)
      (ts now ttl : ℚ), s.log = (us ++ e :: ys) ++ c :: zs ∧
      (us ++ e :: ys).length = d.claimAt ∧ c.IsClaim d.topic d.timerId now ttl ∧
      e.IsSchedule d.topic d.timerId d.payload ts ∧ (LeasesNonneg ys → ts ≤ now) ∧
      NotScheduled d.topic d.timerId ys ∧ NotRemoved d.topic d.timerId ys := by
  obtain ⟨c, now, ttl, hk, hc, hg, _⟩ := h.claim hd
  obtain ⟨xs, zs, hlog, hlen⟩ := split_at hk
  rw [hlog] at hex
  rw [granted_eq hex hc] at hg
  obtain ⟨t, hcell, hle⟩ := grant_eq_some.mp hg
  obtain ⟨us, e, ys, ts, rfl, hv, hp, hdrop, hfw⟩ := source_of_some hcell
  exact ⟨us, e, ys, c, zs, ts, now, ttl, hlog, hlen, hc, Entry.act_put.mp hv,
    fun hpos => le_trans (hfw hpos.forward) hle, notScheduled_of_noPut hp, notRemoved_of_noDrop hdrop⟩

/-- **FRESHNESS.** After any run, every delivered payload is that of the last schedule of its id
    before its claim, that schedule was due by the claim's own clock and was not removed in
    between; and a claim of a timer removed before it is refused and puts nothing back. -/
theorem delivered_fresh (as : List Action) :
    (LeasesNonneg (Fleet.run as).log → ∀ d ∈ (Fleet.run as).delivered,
      ∃ (us : List Entry) (e : Entry) (ys : List Entry) (c : Entry) (zs : List Entry)
        (ts now ttl : ℚ), (Fleet.run as).log = (us ++ e :: ys) ++ c :: zs ∧
        (us ++ e :: ys).length = d.claimAt ∧ c.IsClaim d.topic d.timerId now ttl ∧
        e.IsSchedule d.topic d.timerId d.payload ts ∧ ts ≤ now ∧
        NotScheduled d.topic d.timerId ys ∧ NotRemoved d.topic d.timerId ys) ∧
    ∀ (topic id : String) (us : List Entry) (r : Entry) (ys : List Entry) (c : Entry)
      (zs : List Entry) (now ttl : ℚ), (Fleet.run as).log = (us ++ r :: ys) ++ c :: zs →
      r.Removes topic id → NotScheduled topic id ys → c.IsClaim topic id now ttl →
      c.granted = none ∧ storesAfter ((us ++ r :: ys) ++ [c]) topic = storesAfter (us ++ r :: ys) topic ∧
        (storesAfter (us ++ r :: ys) topic).isPending id = false := by
  have hex := (Fleet.executed_run as).1
  refine ⟨fun hpos d hd => ?_, ?_⟩
  · obtain ⟨us, e, ys, c, zs, ts, now, ttl, hlog, hlen, hc, he, hle, hs, hr⟩ :=
      (Fleet.inv_run as).source hex hd
    have hys : LeasesNonneg ys := hpos.sub fun x hx => by rw [hlog]; simp [hx]
    exact ⟨us, e, ys, c, zs, ts, now, ttl, hlog, hlen, hc, he, hle hys, hs, hr⟩
  · intro topic id us r ys c zs now ttl hlog hr hs hc
    rw [hlog] at hex
    exact removed_stays_removed hex hr hs hc

/-- Both deliveries of `redelivered` are of its one publish, and the claim after the ack is refused. -/
theorem delivered_fresh_two :
    (∀ d ∈ (Fleet.run redelivered).delivered, ∃ us e ys c zs ts now ttl,
      (Fleet.run redelivered).log = (us ++ e :: ys) ++ c :: zs ∧ (us ++ e :: ys).length = d.claimAt ∧
      c.IsClaim "t" "a" now ttl ∧ e.IsSchedule "t" "a" d.payload ts ∧ ts ≤ now) ∧
    ∃ us r ys c, (Fleet.run redelivered).log = (us ++ r :: ys) ++ c :: [] ∧ r.Removes "t" "a" ∧
      c.IsClaim "t" "a" 70 30 ∧ c.granted = none := by
  obtain ⟨hfresh, hremoved⟩ := delivered_fresh redelivered
  refine ⟨fun d hd => ?_, ?_⟩
  · obtain ⟨us, e, ys, c, zs, ts, now, ttl, hlog, hlen, hc, he, hle, _⟩ := hfresh redelivered_leases d hd
    have hof : d.topic = "t" ∧ d.timerId = "a" := by
      rw [redelivered_delivered] at hd
      rcases List.mem_pair.mp hd with rfl | rfl <;> exact ⟨rfl, rfl⟩
    rw [hof.1, hof.2] at hc he
    exact ⟨us, e, ys, c, zs, ts, now, ttl, hlog, hlen, hc, he, hle⟩
  · have hlog : (Fleet.run redelivered).log = ((Fleet.run redelivered).log.take 8 ++
        ⟨.removalBy 2 .ack, "t", .remove "a", .ok .done⟩ :: []) ++
        ⟨.claimOf 3, "t", .claim "a" 70 30, .ok (.payload none)⟩ :: [] := by
      rw [redelivered_log]
      rfl
    exact ⟨_, _, _, _, hlog, ⟨rfl, Or.inl rfl⟩, ⟨rfl, rfl⟩,
      (hremoved "t" "a" _ _ [] _ [] 70 30 hlog ⟨rfl, Or.inl rfl⟩ (List.forall_mem_nil _) ⟨rfl, rfl⟩).1⟩

/-! ## 5. How a timer leaves the store -/

/-- The schedule at position `i` was followed by a removal that a delivery with `ok` sent, by a
    cancellation, or by another schedule of its id. -/
inductive Accounted (s : Fleet) (topic id : String) (i : Nat) (ok : Delivery → Prop) : Prop where
  | committed (k : Nat) (e : Entry) (why : Removal) (d : Delivery) (hik : i < k)
      (hk : s.log[k]? = some e) (ho : e.origin = .removalBy d.task why) (hr : e.Removes topic id)
      (hd : d ∈ s.delivered) (ht : d.topic = topic) (hid : d.timerId = id) (hlt : d.claimAt < k)
      (hok : ok d)
  | cancelled (k : Nat) (e : Entry) (hik : i < k) (hk : s.log[k]? = some e) (ho : e.origin = .user)
      (hr : e.Removes topic id)
  | replaced (k : Nat) (e : Entry) (p : Bytes) (ts : ℚ) (hik : i < k) (hk : s.log[k]? = some e)
      (hs : e.IsSchedule topic id p ts)

/-- The claim of the delivery returned the timer scheduled at position `i`. -/
def ClaimedThat (s : Fleet) (topic id : String) (i : Nat) (d : Delivery) : Prop :=
  occurrence topic id (s.log.take d.claimAt) = some i

/-- Every scheduled timer the store no longer holds is accounted for. -/
def NoneLost (s : Fleet) (ok : Fleet → String → String → Nat → Delivery → Prop) : Prop :=
  ∀ (topic id : String) (i : Nat) (e : Entry) (p : Bytes) (ts : ℚ), s.log[i]? = some e → e.IsSchedule topic id p ts →
    occurrence topic id s.log ≠ some i → Accounted s topic id i (ok s topic id i)

/-- What `occurrence` says about the two keys: an id is pending exactly if some schedule of the
    log is held, and then the payload stored for it is that schedule's. -/
theorem occurrence_stored (as : List Action) (topic id : String) :
    ((Fleet.run as).stores topic).isPending id = (occurrence topic id (Fleet.run as).log).isSome ∧
    ∀ i, occurrence topic id (Fleet.run as).log = some i → ∃ e p ts,
      (Fleet.run as).log[i]? = some e ∧ e.IsSchedule topic id p ts ∧
      ((Fleet.run as).stores topic).payloads.lookup (encode id) = some p := by
  obtain ⟨hex, hst⟩ := Fleet.executed_run as
  rw [hst]
  have hag := agree_storesAfter (Fleet.run as).log topic
  refine ⟨?_, fun i hi => ?_⟩
  · rw [TopicStore.isPending, hag.timeline_lookup, Option.isSome_map, cell_storesAfter,
      Bool.eq_iff_iff]
    exact holder_isSome.symm
  · obtain ⟨xs, e, ys, p, ts, hlog, rfl, hv, hp, hd⟩ := holder_eq_some hi
    have hret := retained (hlog ▸ hex) (Entry.act_put.mp hv) (notScheduled_of_noPut hp)
      (notRemoved_of_noDrop hd)
    refine ⟨e, p, ts, ?_, Entry.act_put.mp hv, ?_⟩
    · rw [hlog]
      exact getElem?_middle xs e ys
    · rw [hlog] at hag
      rw [hlog, hag.payloads_lookup, hret]
      rfl

/-- A granted claim returned some scheduled timer. -/
theorem occurrence_of_granted {topic id : String} {log : List Entry} {k : Nat} {c : Entry}
    {now ttl : ℚ} (h : Executed log) (hk : log[k]? = some c) (hc : c.IsClaim topic id now ttl)
    (hg : c.granted.isSome) : ∃ j, occurrence topic id (log.take k) = some j := by
  obtain ⟨xs, zs, rfl, rfl⟩ := split_at hk
  rw [granted_eq h hc] at hg
  obtain ⟨p, hp⟩ := Option.isSome_iff_exists.mp hg
  obtain ⟨t, hcell, _⟩ := grant_eq_some.mp hp
  rw [List.take_left]
  exact Option.isSome_iff_exists.mp (holder_isSome.mpr (by rw [hcell]; rfl))

/-- Of two schedules of an id with none after the first one up to a claim, the claim returned the
    first. -/
theorem claimed_that {topic id : String} {log : List Entry} {i k j : Nat} {e : Entry} {p : Bytes}
    {ts : ℚ} (hi : log[i]? = some e) (he : e.IsSchedule topic id p ts)
    (hnone : ∀ (m : Nat) (x : Entry), i < m → log[m]? = some x → ∀ q u, ¬ x.IsSchedule topic id q u)
    (hik : i < k) (hj : occurrence topic id (log.take k) = some j) : j = i := by
  obtain ⟨hjk, ⟨x, q, u, hx, hs⟩, hquiet⟩ := occurrence_eq_some hj
  rcases lt_trichotomy j i with hlt | rfl | hgt
  · exact absurd he ((hquiet i e hlt hik hi).1 p ts)
  · rfl
  · exact absurd hs (hnone j x hgt hx q u)

/-- A delivery of an id that is not scheduled after position `i` returned the timer scheduled there,
    or was claimed before. -/
theorem Fleet.Inv.claimed_that_or_before {s : Fleet} (h : Fleet.Inv s) (hex : Executed s.log)
    {d : Delivery} (hd : d ∈ s.delivered) {i : Nat} {e : Entry} {p : Bytes} {ts : ℚ}
    (hi : s.log[i]? = some e) (he : e.IsSchedule d.topic d.timerId p ts)
    (hnone : ∀ (m : Nat) (x : Entry), i < m → s.log[m]? = some x →
      ∀ q u, ¬ x.IsSchedule d.topic d.timerId q u) :
    ClaimedThat s d.topic d.timerId i d ∨ d.claimAt < i := by
  obtain ⟨c, now, ttl, hck, hc, hg, _⟩ := h.claim hd
  rcases lt_trichotomy d.claimAt i with hlt | heq | hgt
  · exact Or.inr hlt
  · rw [heq, hi] at hck
    cases hck
    have hclash := he.2.symm.trans hc.2
    cases hclash
  · obtain ⟨j, hj⟩ := occurrence_of_granted hex hck hc (by simp [hg])
    have hji := claimed_that hi he hnone hgt hj
    exact Or.inl (hji ▸ hj)

/-- **NO LOST TIMER.** After any run, a timer that was scheduled and is no longer in the store was
    removed by ack, reject or discard of a delivery that had claimed it, or had claimed its id
    before it was scheduled; or it was cancelled; or replaced by a later schedule of its id. -/
theorem no_lost_timer (as : List Action) :
    NoneLost (Fleet.run as) fun s topic id i d => ClaimedThat s topic id i d ∨ d.claimAt < i := by
  intro topic id i e p ts hi he hlost
  have hinv := Fleet.inv_run as
  by_cases hlater : ∃ k x q u, i < k ∧ (Fleet.run as).log[k]? = some x ∧ x.IsSchedule topic id q u
  · obtain ⟨k, x, q, u, hik, hk, hs⟩ := hlater
    exact .replaced k x q u hik hk hs
  · have hnone : ∀ (m : Nat) (x : Entry), i < m → (Fleet.run as).log[m]? = some x →
        ∀ q u, ¬ x.IsSchedule topic id q u :=
      fun m x him hx q u hs => hlater ⟨m, x, q, u, him, hx, hs⟩
    obtain ⟨xs, ys, hlog, rfl⟩ := split_at hi
    rw [hlog] at hlost
    rcases replaced_or_dropped (Entry.act_put.mpr he) hlost with ⟨x, hx, q, u, hv⟩ | ⟨x, hx, hv⟩
    · obtain ⟨k, hik, hk⟩ := position_after hlog hx
      exact absurd (Entry.act_put.mp hv) (hnone k x hik hk q u)
    · obtain ⟨k, hik, hk⟩ := position_after hlog hx
      have hrem := Entry.act_drop.mp hv
      rcases hinv.remover hk hrem with hu | ⟨d, hd, why, ho, rfl, rfl, hdk⟩
      · exact .cancelled k x hik hk hu hrem
      · exact .committed k x why d hik hk ho hrem hd rfl rfl hdk
          (hinv.claimed_that_or_before (Fleet.executed_run as).1 hd hi he hnone)

/-- The timer of `redelivered` is gone, and what took it is accounted for. -/
theorem no_lost_timer_redelivered : occurrence "t" "a" (Fleet.run redelivered).log = none ∧
    Accounted (Fleet.run redelivered) "t" "a" 0 fun d =>
      ClaimedThat (Fleet.run redelivered) "t" "a" 0 d ∨ d.claimAt < 0 := by
  have hgone : occurrence "t" "a" (Fleet.run redelivered).log = none := by decide +kernel
  exact ⟨hgone, no_lost_timer redelivered "t" "a" 0 ⟨.publisher, "t", .schedule "a" [1] 0, .ok .done⟩ [1] 0
    (by rw [redelivered_log]; rfl) ⟨rfl, rfl⟩ (by simp [hgone])⟩

/-- A handler re-arms its own timer: the id is published again while its delivery is open, and the
    ack of that delivery removes the new timer. -/
def rearmed : List Action :=
  [.publish "t" "a" [1] 0, .fetch "t" .bytes 0 1 30, .sendClaim 0 0, .executeClaim 0,
    .claimReply 0 2, .publish "t" "a" [2] 100, .sendRemoval 0 .ack, .executeRemoval 0 .ack]

theorem rearmed_timer_lost : ¬ ∀ as, NoneLost (Fleet.run as) ClaimedThat := by
  intro h
  have hlen : (Fleet.run rearmed).log.length = 5 := by decide +kernel
  have hlast : (Fleet.run rearmed).log[4]? = some ⟨.removalBy 0 .ack, "t", .remove "a", .ok .done⟩ := by
    decide +kernel
  have hdel : (Fleet.run rearmed).delivered = [⟨0, 2, "t", "a", [1]⟩] := by decide +kernel
  have honly : ∀ (k : Nat) (e : Entry), 3 < k → (Fleet.run rearmed).log[k]? = some e →
      e = ⟨.removalBy 0 .ack, "t", .remove "a", .ok .done⟩ := by
    intro k e hk he
    have hlt := (List.getElem?_eq_some_iff.mp he).1
    have hk4 : k = 4 := by omega
    rw [hk4, hlast] at he
    exact (Option.some.inj he).symm
  have hacc := h rearmed "t" "a" 3 ⟨.publisher, "t", .schedule "a" [2] 100, .ok .done⟩ [2] 100
    (by decide +kernel) ⟨rfl, rfl⟩ (by decide +kernel)
  cases hacc with
  | committed k e why d hik hk ho hr hd ht hid hlt hok =>
      rw [hdel] at hd
      rw [List.mem_singleton.mp hd] at hok
      exact absurd hok (by unfold ClaimedThat; decide +kernel)
  | cancelled k e hik hk ho hr =>
      rw [honly k e hik hk] at ho
      cases ho
  | replaced k e p ts hik hk hs =>
      rw [honly k e hik hk] at hs
      cases hs.2

end RedisTimers
