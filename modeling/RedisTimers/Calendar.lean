/-
  File:      RedisTimers/Calendar.lean
  Subject:   WHAT A TOPIC IS FOR, AND THAT THE STORE IS THAT. A topic is a calendar: which timers it
             has, each with its payload and the time it is due. What the store answers, over any run
             of calls on any topics, is what the calendars of these topics answer.

  * `Calendar`, `Calendar.next`, `Calendar.answer` -- the purpose of the store, with no sorted set,
    no hash, no bytes in it: timers are listed by time, and by id among equals;
  * `encode_lt_encode` -- the byte order of Redis is the order of the ids;
  * `answer_run` -- one call on the two keys answers as the calendar they stand for;
  * `answers_as_calendars` -- REFINEMENT: so does every run of calls over the key space, and nothing
    else would do;
  * `timers_independent` -- what calls about one timer get does not depend on how those about other
    timers stand between them.
-/
import Mathlib.Data.String.Basic
import RedisTimers.Inspection
import RedisTimers.Keys
import RedisTimers.Library.CodeOrder

namespace RedisTimers

open Footprint Lease Replay

/-! ## 1. Calendars -/

/-- The timers of a topic: payload and time by id. -/
abbrev Calendar := String → Option (Bytes × ℚ)

namespace Calendar

/-- No timer. -/
def empty : Calendar := fun _ => none

/-- The one timer comes before the other one: by time, and by id among equals. -/
def Earlier (c : Calendar) (a b : String) : Prop :=
  ∃ p s q t, c a = some (p, s) ∧ c b = some (q, t) ∧ (s < t ∨ s = t ∧ a < b)

/-- The timers due within a bound, earliest first. -/
structure Lists (c : Calendar) (bound : Option ℚ) (ids : List String) : Prop where
  members : ∀ id, id ∈ ids ↔ ∃ p t, c id = some (p, t) ∧ ∀ b, bound = some b → t ≤ b
  order : ids.Pairwise c.Earlier

/-- What a call makes of the calendar. -/
def next (c : Calendar) : Command → Calendar
  | .schedule timerId payload activationTs => Function.update c timerId (some (payload, activationTs))
  | .claim timerId now leaseTtl => match c timerId with
    | some (payload, due) =>
      if due ≤ now then Function.update c timerId (some (payload, now + leaseTtl)) else c
    | none => c
  | .remove timerId => Function.update c timerId none
  | .cancelAll => empty
  | .due .. | .discard _ | .pending .. | .isPending _ => c

/-- What a call is answered. -/
def answer (c : Calendar) : Command → Reply → Prop
  | .schedule .., r => r = .done
  | .discard _, r => r = .done
  | .remove _, r => r = .done
  | .due _ now limit, r => ∃ ids, c.Lists (some now) ids ∧
      r = .ids (if limit < 0 then ids else ids.take limit.toNat)
  | .pending _ before, r => ∃ ids, c.Lists before ids ∧ r = .ids ids
  | .claim timerId now _, r => r = .payload (grant (c timerId) now)
  | .isPending timerId, r => r = .flag (c timerId).isSome
  | .cancelAll, r => ∃ ids, c.Lists none ids ∧ r = .count ids.length

/-- To each timer a call is an act on its cell, or none. -/
theorem next_at (c : Calendar) (call : Command) (id : String) :
    c.next call id = stepCell (Command.act id) (c id) call := by
  unfold stepCell next
  cases call with
  | schedule timerId payload activationTs =>
      by_cases hid : timerId = id
      · subst hid
        simp [Command.act]
      · simp [Command.act, hid, Function.update_of_ne (Ne.symm hid)]
  | claim timerId now leaseTtl =>
      by_cases hid : timerId = id
      · subst hid
        simp only [Command.act, if_true]
        cases hc : c timerId with
        | none => simp [hc]
        | some e =>
            obtain ⟨p, t⟩ := e
            rw [apply_claim_some]
            by_cases ht : t ≤ now
            · simp [ht]
            · simp [ht, hc]
      · simp only [Command.act, if_neg hid]
        cases c timerId with
        | none => rfl
        | some e =>
            simp only
            split
            · exact Function.update_of_ne (Ne.symm hid) _ _
            · rfl
  | remove timerId =>
      by_cases hid : timerId = id
      · subst hid
        simp [Command.act]
      · simp [Command.act, hid, Function.update_of_ne (Ne.symm hid)]
  | cancelAll => rfl
  | due mode now limit => rfl
  | discard rawId => rfl
  | pending mode before => rfl
  | isPending timerId => rfl

/-- The calendars of all topics. -/
abbrev OfTopics := String → Calendar

/-- A call on a topic is a call on its calendar. -/
def OfTopics.next (f : OfTopics) (call : String × Command) : OfTopics :=
  Function.update f call.1 ((f call.1).next call.2)

def OfTopics.answer (f : OfTopics) (call : String × Command) (r : Reply) : Prop :=
  (f call.1).answer call.2 r

/-! ## 2. A calendar answers in one way -/

section Answers

variable {c : Calendar} {bound : Option ℚ} {ids ids' : List String}

theorem Earlier.irrefl (a : String) : ¬ c.Earlier a a := by
  intro he
  obtain ⟨p, s, q, t, ha, hb, h⟩ := he
  rw [ha] at hb
  cases hb
  rcases h with h | ⟨_, h⟩ <;> exact lt_irrefl _ h

theorem Earlier.asymm {a b : String} (h : c.Earlier a b) : ¬ c.Earlier b a := by
  intro he
  obtain ⟨p', s', q', t', hb', ha', h'⟩ := he
  obtain ⟨p, s, q, t, ha, hb, h⟩ := h
  rw [ha] at ha'
  rw [hb] at hb'
  cases ha'
  cases hb'
  rcases h with h | ⟨rfl, h⟩ <;> rcases h' with h' | ⟨he, h'⟩
  · exact lt_asymm h h'
  · exact absurd he.symm h.ne
  · exact absurd h' (lt_irrefl _)
  · exact lt_asymm h h'

theorem Earlier.ne {a b : String} (h : c.Earlier a b) : a ≠ b := by
  intro he
  subst he
  exact Earlier.irrefl a h

theorem Lists.nodup (h : c.Lists bound ids) : ids.Nodup := h.order.imp fun hab => hab.ne

/-- There is one list of the timers within a bound. -/
theorem Lists.unique (h : c.Lists bound ids) (h' : c.Lists bound ids') : ids = ids' := by
  have hperm : ids.Perm ids' := (List.perm_ext_iff_of_nodup h.nodup h'.nodup).mpr fun id =>
    (h.members id).trans (h'.members id).symm
  exact hperm.eq_of_pairwise (fun a b _ _ hab hba => absurd hba hab.asymm) h.order h'.order

theorem answer_unique {call : Command} {r r' : Reply} (h : c.answer call r) (h' : c.answer call r') :
    r = r' := by
  cases call with
  | schedule timerId payload activationTs => exact Eq.trans h (Eq.symm h')
  | discard rawId => exact Eq.trans h (Eq.symm h')
  | remove timerId => exact Eq.trans h (Eq.symm h')
  | claim timerId now leaseTtl => exact Eq.trans h (Eq.symm h')
  | isPending timerId => exact Eq.trans h (Eq.symm h')
  | due mode now limit =>
      obtain ⟨ids, hl, rfl⟩ := h
      obtain ⟨ids', hl', rfl⟩ := h'
      rw [hl.unique hl']
  | pending mode before =>
      obtain ⟨ids, hl, rfl⟩ := h
      obtain ⟨ids', hl', rfl⟩ := h'
      rw [hl.unique hl']
  | cancelAll =>
      obtain ⟨ids, hl, rfl⟩ := h
      obtain ⟨ids', hl', rfl⟩ := h'
      rw [hl.unique hl']

theorem OfTopics.answer_unique (f : OfTopics) (i : String × Command) (r r' : Reply)
    (h : f.answer i r) (h' : f.answer i r') : r = r' :=
  Calendar.answer_unique h h'

end Answers

end Calendar

/-! ## 3. The two keys stand for a calendar -/

open CodeOrder in
/-- **The byte order of Redis is the order of the ids**, by code points. -/
theorem encode_lt_encode {s t : String} : encode s < encode t ↔ s < t := by
  have hcode : ∀ s : String, encode s = s.toList.flatMap String.utf8EncodeChar := fun s => by
    have h : s.toList.utf8Encode = s.toByteArray := String.utf8Encode_toList
    show s.toByteArray.data.toList = _
    rw [← h, List.utf8Encode, List.data_toByteArray]
  rw [hcode, hcode, String.lt_iff_toList_lt]
  exact flatMap_lt_iff (fun c => by rw [utf8EncodeChar_eq]; exact utf8_ne_nil _)
    utf8EncodeChar_turnsBelow

namespace TopicStore

/-- What the two keys say about each id. -/
def calendar (k : TopicStore) : Calendar := fun id => k.cell (encode id)

variable {k : TopicStore} {bound : Option ℚ} {ids : List String}

theorem calendar_empty : empty.calendar = Calendar.empty := rfl

/-- What a call leaves under the two keys stands for what it makes of the calendar. -/
theorem calendar_run (h : k.Agree) (c : Command) : (k.run c).2.calendar = k.calendar.next c := by
  funext id
  rw [calendar, cell_run h, Calendar.next_at]
  rfl

/-- What Redis reads within a bound is the list of the calendar. -/
theorem lists_of_upTo (h : k.Agree) (hids : ids.map encode = Ranked.upTo k.timeline bound) :
    k.calendar.Lists bound ids where
  members id := by
    rw [← List.mem_map_of_injective encode_injective, hids, Ranked.mem_upTo, h.timeline_lookup]
    show _ ↔ ∃ p t, k.cell (encode id) = some (p, t) ∧ _
    cases k.cell (encode id) with
    | none => simp
    | some e =>
        obtain ⟨p, t⟩ := e
        cases bound <;> simp
  order := by
    have hp := Ranked.pairwise_upTo k.timeline bound
    rw [← hids, List.pairwise_map] at hp
    refine hp.imp fun {a b} hab => ?_
    obtain ⟨s, t, hs, ht, hlt⟩ := hab
    rw [h.timeline_lookup, Option.map_eq_some_iff] at hs ht
    obtain ⟨⟨p, _⟩, hp, rfl⟩ := hs
    obtain ⟨⟨q, _⟩, hq, rfl⟩ := ht
    refine ⟨p, _, q, _, hp, hq, ?_⟩
    rcases Prod.Lex.toLex_lt_toLex.mp hlt with h1 | ⟨h1, h2⟩
    · exact Or.inl h1
    · exact Or.inr ⟨h1, encode_lt_encode.mp h2⟩

/-- **One call on the two keys is answered as their calendar answers it**, in either client mode. -/
theorem answer_run (h : k.Agree) (c : Command) :
    ∃ r, (k.run c).1 = .ok r ∧ k.calendar.answer c r := by
  cases c with
  | schedule timerId payload activationTs => exact ⟨_, rfl, rfl⟩
  | discard rawId => exact ⟨_, rfl, rfl⟩
  | remove timerId => exact ⟨_, rfl, rfl⟩
  | claim timerId now leaseTtl =>
      exact ⟨_, rfl, congrArg Reply.payload (claim_eq_grant h timerId now leaseTtl)⟩
  | isPending timerId =>
      refine ⟨_, rfl, congrArg Reply.flag ?_⟩
      rw [isPending, h.timeline_lookup, Option.isSome_map]
      rfl
  | due mode now limit =>
      obtain ⟨ids, hdue, hids⟩ := h.due_eq mode now limit
      obtain ⟨all, _, hall⟩ := h.pending_eq mode (some now)
      refine ⟨.ids ids, ?_, all, lists_of_upTo h hall, congrArg Reply.ids ?_⟩
      · show (k.due mode now limit).1.map _ = _
        rw [hdue]
        rfl
      · -- a limited reading is the beginning of the whole one
        have hinj := List.map_injective_iff.mpr encode_injective
        unfold zrangebyscore at hids
        simp only [← hall] at hids
        split
        · rename_i hneg
          rw [if_pos hneg] at hids
          exact hinj hids
        · rename_i hneg
          rw [if_neg hneg, ← List.map_take] at hids
          exact hinj hids
  | pending mode before =>
      obtain ⟨ids, hp, hids⟩ := h.pending_eq mode before
      refine ⟨.ids ids, ?_, ids, lists_of_upTo h hids, rfl⟩
      show (k.pending mode before).map _ = _
      rw [hp]
      rfl
  | cancelAll =>
      obtain ⟨ids, hp, hids⟩ := h.pending_eq .bytes none
      exact ⟨_, rfl, ids, lists_of_upTo h hids, congrArg Reply.count (cancelAll_count h hp)⟩

end TopicStore

/-! ## 4. Runs over the key space -/

namespace TimerStore

variable {store : TimerStore}

/-- The database holds what the calendars say, under two keys for each topic. -/
def Stands (store : TimerStore) (f : Calendar.OfTopics) (db : Db) : Prop :=
  ∃ stores : Stores, stores.Agree ∧ store.Represents stores db ∧ f = fun t => (stores t).calendar

theorem stands_empty : store.Stands (fun _ => Calendar.empty) fun _ => none :=
  ⟨.empty, fun _ => TopicStore.agree_empty, represents_empty, rfl⟩

/-- One call over the key space is answered as the calendars answer it. -/
theorem stands_call (h : store.Apart) (f : Calendar.OfTopics) (db : Db) (i : String × Command)
    (hs : store.Stands f db) : ∃ r, (exec (store.call i) db).1 = .ok r ∧ f.answer i r ∧
      store.Stands (f.next i) (exec (store.call i) db).2 := by
  obtain ⟨stores, hag, hrep, rfl⟩ := hs
  obtain ⟨hres, hnext⟩ := represents_run h hrep i.1 i.2
  obtain ⟨r, hr, hans⟩ := TopicStore.answer_run (hag i.1) i.2
  refine ⟨r, hres.trans hr, hans, _, fun t => ?_, hnext, ?_⟩
  · by_cases ht : t = i.1
    · subst ht
      rw [Function.update_self]
      exact TopicStore.agree_run (hag _) _
    · rw [Function.update_of_ne ht]
      exact hag t
  · funext t
    unfold Calendar.OfTopics.next
    by_cases ht : t = i.1
    · subst ht
      rw [Function.update_self, Function.update_self, TopicStore.calendar_run (hag _)]
    · rw [Function.update_of_ne ht, Function.update_of_ne ht]

theorem runAll_calendars (h : store.Apart) (calls : List (String × Command)) {f : Calendar.OfTopics}
    {db : Db} (hs : store.Stands f db) : ∃ replies, (runAll store.call calls db).1 = replies.map .ok ∧
      Answered Calendar.OfTopics.next Calendar.OfTopics.answer f calls replies ∧
      store.Stands (replay Calendar.OfTopics.next f calls) (runAll store.call calls db).2 :=
  runAll_answered (fun f db i hs => stands_call h f db i hs) calls hs

/-- The answers of the calendars to a run of calls: there are no two of them. -/
theorem answered_calendars_iff {f : Calendar.OfTopics} {calls : List (String × Command)}
    {replies replies' : List Reply}
    (h : Answered Calendar.OfTopics.next Calendar.OfTopics.answer f calls replies) :
    Answered Calendar.OfTopics.next Calendar.OfTopics.answer f calls replies' ↔ replies' = replies :=
  answered_iff Calendar.OfTopics.answer_unique h

/-- **REFINEMENT. The store is the calendars of its topics**: over key names that are apart every
    run of calls, on any topics and in any order, returns, with the answers that calendars empty at
    first give, and these alone. -/
theorem answers_as_calendars (store : TimerStore) (h : store.Apart) (calls : List (String × Command)) :
    ∃ replies, (runAll store.call calls fun _ => none).1 = replies.map .ok ∧
      ∀ replies', Answered Calendar.OfTopics.next Calendar.OfTopics.answer (fun _ => .empty) calls
        replies' ↔ replies' = replies := by
  obtain ⟨replies, hrun, hans, _⟩ := runAll_calendars h calls stands_empty
  exact ⟨replies, hrun, fun replies' => answered_calendars_iff hans⟩

theorem answers_as_calendars_defaults :
    ∃ replies, (runAll defaults.call [("t", .schedule "b" [2] 5), ("t", .schedule "a" [1] 5),
        ("t", .due .bytes 5 1)] fun _ => none).1 = replies.map .ok ∧
      ∀ replies', Answered Calendar.OfTopics.next Calendar.OfTopics.answer (fun _ => .empty)
        [("t", .schedule "b" [2] 5), ("t", .schedule "a" [1] 5), ("t", .due .bytes 5 1)]
        replies' ↔ replies' = replies :=
  answers_as_calendars defaults (by decide) _

end TimerStore

/-! ## 5. Timers do not depend on one another -/

/-- The call names the timer. -/
def Command.names (id : String) : Command → Bool
  | .schedule timerId .. => decide (timerId = id)
  | .claim timerId .. => decide (timerId = id)
  | .remove timerId => decide (timerId = id)
  | .isPending timerId => decide (timerId = id)
  | .due .. | .discard _ | .pending .. | .cancelAll => false

/-- The call names the timer, or removes all of its topic. -/
def Command.concerns (id : String) (c : Command) : Bool := c.names id || decide (c = .cancelAll)

/-- What a call that names a timer is answered, given what the calendar has of it. -/
def Command.replyAt (e : Option (Bytes × ℚ)) : Command → Reply
  | .claim _ now _ => .payload (grant e now)
  | .isPending _ => .flag e.isSome
  | .schedule .. | .remove _ | .due .. | .discard _ | .pending .. | .cancelAll => .done

/-- A call on `topic` that names the timer. -/
def namesTimer (topic id : String) (i : String × Command) : Bool := decide (i.1 = topic) && i.2.names id

/-- A call on `topic` that names the timer, or removes all of the topic. -/
def concernsTimer (topic id : String) (i : String × Command) : Bool :=
  decide (i.1 = topic) && i.2.concerns id

section Independence

variable {topic id : String} {i : String × Command}

theorem concerns_of_names (h : namesTimer topic id i = true) : concernsTimer topic id i = true := by
  unfold namesTimer at h
  unfold concernsTimer Command.concerns
  rw [Bool.and_eq_true] at h ⊢
  exact ⟨h.1, by rw [h.2]; rfl⟩

/-- A call that does not concern a timer leaves it alone. -/
theorem act_of_not_concerns {c : Command} (h : c.concerns id = false) : c.act id = none := by
  cases c <;> simp_all [Command.concerns, Command.names, Command.act]

/-- What a timer sees of a run: the calls that concern it. -/
theorem timer_next (topic id : String) (f : Calendar.OfTopics) (i : String × Command) :
    f.next i topic id = if concernsTimer topic id i then stepCell (Command.act id) (f topic id) i.2
      else f topic id := by
  unfold Calendar.OfTopics.next concernsTimer
  by_cases ht : topic = i.1
  · subst ht
    rw [Function.update_self, Calendar.next_at]
    cases hc : i.2.concerns id with
    | true => simp
    | false =>
        rw [stepCell_none (act_of_not_concerns hc)]
        simp
  · rw [Function.update_of_ne ht, decide_eq_false (Ne.symm ht)]
    rfl

/-- A call that names a timer is answered from what the calendar has of it. -/
theorem reply_of_names {f : Calendar.OfTopics} {r : Reply} (h : namesTimer topic id i = true)
    (hr : f.answer i r) : r = i.2.replyAt (f topic id) := by
  obtain ⟨t, c⟩ := i
  unfold namesTimer at h
  rw [Bool.and_eq_true, decide_eq_true_eq] at h
  obtain ⟨rfl, hn⟩ := h
  cases c with
  | schedule timerId payload activationTs => exact hr
  | remove timerId => exact hr
  | claim timerId now leaseTtl =>
      have he : timerId = id := of_decide_eq_true hn
      subst he
      exact hr
  | isPending timerId =>
      have he : timerId = id := of_decide_eq_true hn
      subst he
      exact hr
  | due mode now limit => cases hn
  | discard rawId => cases hn
  | pending mode before => cases hn
  | cancelAll => cases hn

/-- One call that concerns a timer, as the timer sees it. -/
def timerStep (id : String) (e : Option (Bytes × ℚ)) (i : String × Command) : Option (Bytes × ℚ) :=
  stepCell (Command.act id) e i.2

/-- What a run answers about a timer, and leaves of it, the calls that concern it say alone. -/
theorem timer_view (topic id : String) {f : Calendar.OfTopics} {calls : List (String × Command)}
    {replies : List Reply}
    (h : Answered Calendar.OfTopics.next Calendar.OfTopics.answer f calls replies) :
    answersTo (namesTimer topic id) calls replies =
        repliesOf (namesTimer topic id) (timerStep id) (fun e i => i.2.replyAt e) (f topic id)
          (calls.filter (concernsTimer topic id)) ∧
      replay Calendar.OfTopics.next f calls topic id =
        replay (timerStep id) (f topic id) (calls.filter (concernsTimer topic id)) :=
  @answers_of_view _ _ _ _ _ _ (fun f : Calendar.OfTopics => f topic id) _ _ _ _
    (timer_next topic id) (fun _ => concerns_of_names) (fun _ _ _ => reply_of_names) _ _ _ h

/-- **TIMERS DO NOT DEPEND ON ONE ANOTHER**, over key names that are apart. In two runs of calls that
    say the same about a timer, and remove its whole topic at the same points among that, the calls
    that name the timer get the same results, whatever else there is and however it stands between
    them. Where this is so of every timer, no later call tells the two runs apart. -/
theorem TimerStore.timers_independent (store : TimerStore) (h : store.Apart)
    (calls calls' : List (String × Command)) :
    let all := runAll store.call calls fun _ => none
    let all' := runAll store.call calls' fun _ => none
    (∀ topic id, calls.filter (concernsTimer topic id) = calls'.filter (concernsTimer topic id) →
      resultsOf (namesTimer topic id) calls all.1 = resultsOf (namesTimer topic id) calls' all'.1) ∧
    ((∀ topic id, calls.filter (concernsTimer topic id) = calls'.filter (concernsTimer topic id)) →
      ∀ later, (runAll store.call later all.2).1 = (runAll store.call later all'.2).1) := by
  intro all all'
  obtain ⟨replies, hrun, hans, hstands⟩ := runAll_calendars h calls stands_empty
  obtain ⟨replies', hrun', hans', hstands'⟩ := runAll_calendars h calls' stands_empty
  constructor
  · intro topic id hsame
    rw [hrun, hrun', resultsOf_map_ok, resultsOf_map_ok, (timer_view topic id hans).1,
      (timer_view topic id hans').1, hsame]
  · intro hsame later
    have hcal : replay Calendar.OfTopics.next (fun _ => Calendar.empty) calls =
        replay Calendar.OfTopics.next (fun _ => Calendar.empty) calls' := by
      funext topic id
      rw [(timer_view topic id hans).2, (timer_view topic id hans').2, hsame]
    obtain ⟨rs, hr, hrs, _⟩ := runAll_calendars h later hstands
    obtain ⟨rs', hr', hrs', _⟩ := runAll_calendars h later hstands'
    rw [hcal] at hrs
    rw [hr, hr', (answered_calendars_iff hrs').mp hrs]

/-- Two timers of a topic, scheduled in the one order and in the other. -/
def bothOrders : List (String × Command) × List (String × Command) :=
  ([("t", .schedule "a" [1] 5), ("t", .schedule "b" [2] 5), ("t", .claim "a" 5 30)],
    [("t", .schedule "b" [2] 5), ("t", .schedule "a" [1] 5), ("t", .claim "a" 5 30)])

theorem timers_independent_two :
    (runAll TimerStore.defaults.call [("t", .due .bytes 5 2), ("t", .claim "b" 5 30)]
      (runAll TimerStore.defaults.call bothOrders.1 fun _ => none).2).1 =
    (runAll TimerStore.defaults.call [("t", .due .bytes 5 2), ("t", .claim "b" 5 30)]
      (runAll TimerStore.defaults.call bothOrders.2 fun _ => none).2).1 := by
  refine (TimerStore.defaults.timers_independent (by decide) bothOrders.1 bothOrders.2).2
    (fun topic id => ?_) _
  have ha : ∀ p, concernsTimer topic id ("t", .schedule "a" p 5) =
      (decide ("t" = topic) && decide ("a" = id)) := fun p => by
    simp [concernsTimer, Command.concerns, Command.names]
  have hb : ∀ p, concernsTimer topic id ("t", .schedule "b" p 5) =
      (decide ("t" = topic) && decide ("b" = id)) := fun p => by
    simp [concernsTimer, Command.concerns, Command.names]
  by_cases hid : "a" = id
  · have hne : ¬ "b" = id := fun he => absurd (hid.trans he.symm) (by decide)
    simp [bothOrders, List.filter_cons, hb, hne]
  · simp [bothOrders, List.filter_cons, ha, hid]

end Independence

end RedisTimers
