/-
  File:      RedisTimers/Log.lean
  Subject:   THE COMMANDS A TOPIC IS SENT, AND THE LOG OF WHAT REDIS EXECUTED. The commands of any
             number of clients reach Redis one at a time; the log lists them in that order.

  * `Command`, `TopicStore.run` -- one call of `TimerStore` on its topic, with its reply. A `due`
    that heals is a read and one `discard` for each undecodable id, with anything in between;
  * `Entry`, `applyEntry`, `RepliedBy` -- an executed command with its origin, topic and reply;
  * `Entry.act` -- the entry as an act on the leased cell of one timer;
  * `cell_run`, `cell_replay` -- SIMULATION: what the two keys say about an id after any log is
    the leased cell after that log, so the rules of `Lease` hold of the store.
-/
import RedisTimers.Store

namespace RedisTimers

open Lease Replay

/-! ## 1. Commands -/

/-- Bytes that are not the encoding of any text. -/
abbrev Undecodable := { b : Bytes // decode b = none }

/-- The calls of `TimerStore` on one topic. -/
inductive Command where
  | schedule (timerId : String) (payload : Bytes) (activationTs : ℚ)
  | due (mode : ClientMode) (now : ℚ) (limit : Int)
  | discard (rawId : Undecodable)
  | claim (timerId : String) (now leaseTtl : ℚ)
  | remove (timerId : String)
  | pending (mode : ClientMode) (before : Option ℚ)
  | isPending (timerId : String)
  | cancelAll
  deriving DecidableEq

inductive Reply where
  | done
  | ids (timerIds : List String)
  | payload (payload : Option Bytes)
  | flag (b : Bool)
  | count (n : Nat)
  deriving DecidableEq

/-- A command on the two keys of its topic: the reply or the exception, and what it leaves. -/
def TopicStore.run (k : TopicStore) : Command → Except PyError Reply × TopicStore
  | .schedule timerId payload activationTs => (.ok .done, k.schedule timerId payload activationTs)
  | .due mode now limit => ((k.due mode now limit).1.map .ids, (k.due mode now limit).2)
  | .discard rawId => (.ok .done, k.commitLua rawId.1)
  | .claim timerId now leaseTtl =>
      (.ok (.payload (k.claim timerId now leaseTtl).1), (k.claim timerId now leaseTtl).2)
  | .remove timerId => (.ok .done, k.remove timerId)
  | .pending mode before => ((k.pending mode before).map .ids, k)
  | .isPending timerId => (.ok (.flag (k.isPending timerId)), k)
  | .cancelAll => (.ok (.count k.cancelAll.1), k.cancelAll.2)

/-- What a command does to the leased cell of an id. -/
def Command.act (id : String) : Command → Option (Act Bytes ℚ)
  | .schedule timerId payload activationTs =>
      if timerId = id then some (.put payload activationTs) else none
  | .claim timerId now leaseTtl => if timerId = id then some (.claim now (now + leaseTtl)) else none
  | .remove timerId => if timerId = id then some .drop else none
  | .cancelAll => some .drop
  | .due .. | .discard _ | .pending .. | .isPending _ => none

section Acts

variable {c : Command} {id : String} {p : Bytes} {ts now till : ℚ}

theorem act_eq_put : c.act id = some (.put p ts) ↔ c = .schedule id p ts := by
  cases c <;> simp [Command.act]

theorem act_eq_claim : c.act id = some (.claim now till) ↔
    ∃ leaseTtl, c = .claim id now leaseTtl ∧ till = now + leaseTtl := by
  cases c with
  | claim timerId now' leaseTtl =>
      simp only [Command.act, Option.ite_none_right_eq_some, Option.some.injEq, Act.claim.injEq,
        Command.claim.injEq]
      constructor
      · rintro ⟨rfl, rfl, rfl⟩
        exact ⟨leaseTtl, ⟨rfl, rfl, rfl⟩, rfl⟩
      · rintro ⟨_, ⟨rfl, rfl, rfl⟩, rfl⟩
        exact ⟨rfl, rfl, rfl⟩
  | _ => simp [Command.act]

theorem act_eq_drop : c.act id = some .drop ↔ c = .remove id ∨ c = .cancelAll := by
  cases c <;> simp [Command.act]

end Acts

namespace TopicStore

variable {k : TopicStore}

/-- **Every command keeps the two keys of its topic together.** -/
theorem agree_run (h : k.Agree) (c : Command) : (k.run c).2.Agree := by
  cases c with
  | schedule timerId payload activationTs => exact agree_schedule h timerId
  | due mode now limit =>
      obtain ⟨ids, hdue, _⟩ := h.due_eq mode now limit
      show (k.due mode now limit).2.Agree
      rw [hdue]
      exact h
  | discard rawId => exact agree_commitLua h
  | claim timerId now leaseTtl => exact agree_claimLua h
  | remove timerId => exact agree_commitLua h
  | pending mode before => exact h
  | isPending timerId => exact h
  | cancelAll => exact agree_empty

/-- **Every command is an act on the leased cell of an id**, or leaves it alone. -/
theorem cell_run (h : k.Agree) (c : Command) (id : String) :
    (k.run c).2.cell (encode id) = stepCell (Command.act id) (k.cell (encode id)) c := by
  have hne : ∀ {timerId}, timerId ≠ id → encode id ≠ encode timerId :=
    fun hti e => hti (encode_inj.mp e).symm
  unfold stepCell
  cases c with
  | schedule timerId payload activationTs =>
      by_cases hti : timerId = id
      · subst hti
        simp [run, Command.act]
      · simp only [run, Command.act, if_neg hti]
        exact cell_schedule_ne (hne hti)
  | due mode now limit =>
      obtain ⟨ids, hdue, _⟩ := h.due_eq mode now limit
      simp only [run, Command.act, hdue]
  | discard rawId =>
      have hraw : encode id ≠ rawId.1 := fun e => by
        have hd := rawId.2
        rw [← e, decode_encode] at hd
        cases hd
      simp only [run, Command.act]
      exact cell_commitLua_ne hraw
  | claim timerId now leaseTtl =>
      by_cases hti : timerId = id
      · subst hti
        simp only [run, Command.act, if_true]
        exact (cell_claimLua h).2
      · simp only [run, Command.act, if_neg hti]
        exact cell_claimLua_ne (hne hti)
  | remove timerId =>
      by_cases hti : timerId = id
      · subst hti
        simp [run, Command.act, remove]
      · simp only [run, Command.act, if_neg hti]
        exact cell_commitLua_ne (hne hti)
  | pending mode before => rfl
  | isPending timerId => rfl
  | cancelAll => rfl

/-- A claim is answered as the leased cell of its id grants it. -/
theorem claim_eq_grant (h : k.Agree) (timerId : String) (now leaseTtl : ℚ) :
    (k.claim timerId now leaseTtl).1 = grant (k.cell (encode timerId)) now :=
  (cell_claimLua h).1

/-- The keys of a topic after the commands `cs`, from missing keys. -/
def afterAll (cs : List Command) : TopicStore := replay (fun k c => (run k c).2) empty cs

theorem agree_afterAll (cs : List Command) : (afterAll cs).Agree :=
  replay_invariant (I := Agree) (fun _ c _ h => agree_run h c) agree_empty

theorem cell_afterAll (cs : List Command) (id : String) :
    (afterAll cs).cell (encode id) = after (Command.act id) none cs :=
  replay_sim (f := fun k : TopicStore => k.cell (encode id)) (I := Agree)
    (fun _ c _ h => agree_run h c) (fun _ c _ h => cell_run h c id) agree_empty

/-- A granted claim leaves its payload under its lease. -/
theorem after_granted {xs : List Command} {id : String} {c ttl : ℚ} {p : Bytes}
    (h : ((afterAll xs).claim id c ttl).1 = some p) :
    after (Command.act id) none (xs ++ [.claim id c ttl]) = some (p, c + ttl) := by
  rw [claim_eq_grant (agree_afterAll xs), cell_afterAll] at h
  rw [after_append, after_cons, after_nil]
  exact stepCell_granted (act_eq_claim.mpr ⟨ttl, rfl, rfl⟩) h

end TopicStore

/-! ## 2. The log of all topics -/

/-- Why a delivery removes its timer. -/
inductive Removal where
  | ack
  | reject
  | discardCorrupt
  deriving DecidableEq

/-- Who sent a command: a publisher, a user who cancels, a poll, the healing of a poll, or the
    task with a number, for its claim or for a removal. -/
inductive Origin where
  | publisher
  | user
  | poll
  | healing
  | claimOf (task : Nat)
  | removalBy (task : Nat) (why : Removal)
  deriving DecidableEq

/-- A command Redis executed, with its reply. -/
structure Entry where
  origin : Origin
  topic : String
  command : Command
  reply : Except PyError Reply
  deriving DecidableEq

/-- What every topic holds. -/
abbrev Stores := String → TopicStore

def Stores.empty : Stores := fun _ => .empty

def applyEntry (f : Stores) (e : Entry) : Stores :=
  Function.update f e.topic ((f e.topic).run e.command).2

/-- The recorded reply is the one the store gave. -/
def RepliedBy (f : Stores) (e : Entry) : Prop := e.reply = ((f e.topic).run e.command).1

/-- The stores after a log. -/
def storesAfter (log : List Entry) : Stores := replay applyEntry .empty log

/-- A log whose replies are the ones the stores gave. -/
def Executed (log : List Entry) : Prop := Along applyEntry RepliedBy .empty log

namespace Entry

/-- The entry as an act on the timer `id` of `topic`. -/
def act (topic id : String) (e : Entry) : Option (Act Bytes ℚ) :=
  if e.topic = topic then e.command.act id else none

/-- The payload a claim was answered with. -/
def granted (e : Entry) : Option Bytes :=
  match e.reply with
  | .ok (.payload p) => p
  | _ => none

def IsSchedule (topic id : String) (payload : Bytes) (activationTs : ℚ) (e : Entry) : Prop :=
  e.topic = topic ∧ e.command = .schedule id payload activationTs

def IsClaim (topic id : String) (now leaseTtl : ℚ) (e : Entry) : Prop :=
  e.topic = topic ∧ e.command = .claim id now leaseTtl

/-- The entry takes the timer out of the store: a removal of its id, or of its whole topic. -/
def Removes (topic id : String) (e : Entry) : Prop :=
  e.topic = topic ∧ (e.command = .remove id ∨ e.command = .cancelAll)

variable {topic id : String} {e : Entry} {p : Bytes} {ts now till : ℚ}

theorem act_put : e.act topic id = some (.put p ts) ↔ e.IsSchedule topic id p ts := by
  unfold act IsSchedule
  by_cases h : e.topic = topic <;> simp [h, act_eq_put]

theorem act_claim : e.act topic id = some (.claim now till) ↔
    ∃ leaseTtl, e.IsClaim topic id now leaseTtl ∧ till = now + leaseTtl := by
  unfold act IsClaim
  by_cases h : e.topic = topic <;> simp [h, act_eq_claim]

theorem act_drop : e.act topic id = some .drop ↔ e.Removes topic id := by
  unfold act Removes
  by_cases h : e.topic = topic <;> simp [h, act_eq_drop]

end Entry

/-! ## 3. The store is a family of leased cells -/

/-- Both keys of every topic agree. -/
def Stores.Agree (f : Stores) : Prop := ∀ t, (f t).Agree

theorem agree_applyEntry (f : Stores) (e : Entry) (h : f.Agree) : (applyEntry f e).Agree := by
  intro t
  unfold applyEntry
  by_cases ht : t = e.topic
  · subst ht
    rw [Function.update_self]
    exact TopicStore.agree_run (h _) _
  · rw [Function.update_of_ne ht]
    exact h t

theorem agree_storesAfter (log : List Entry) : (storesAfter log).Agree :=
  replay_invariant (fun f e _ h => agree_applyEntry f e h) fun _ => TopicStore.agree_empty

section Simulation

variable (topic id : String)

/-- One entry is one act on the leased cell of a timer. -/
theorem cell_applyEntry (f : Stores) (e : Entry) (h : f.Agree) :
    (applyEntry f e topic).cell (encode id) =
      stepCell (Entry.act topic id) ((f topic).cell (encode id)) e := by
  unfold applyEntry stepCell Entry.act
  by_cases ht : e.topic = topic
  · subst ht
    rw [Function.update_self, TopicStore.cell_run (h _), if_pos rfl]
    rfl
  · rw [Function.update_of_ne (Ne.symm ht), if_neg ht]

/-- **SIMULATION**: what the keys of a topic say about an id after a log is the leased cell after
    that log. -/
theorem cell_replay {f : Stores} (h : f.Agree) (log : List Entry) :
    (replay applyEntry f log topic).cell (encode id) =
      after (Entry.act topic id) ((f topic).cell (encode id)) log :=
  replay_sim (f := fun f : Stores => (f topic).cell (encode id)) (I := Stores.Agree)
    (fun f e _ h => agree_applyEntry f e h) (fun f e _ h => cell_applyEntry topic id f e h) h

theorem cell_storesAfter (log : List Entry) :
    (storesAfter log topic).cell (encode id) = after (Entry.act topic id) none log :=
  cell_replay topic id (fun _ => TopicStore.agree_empty) log

/-- A claim in the log was answered as its leased cell grants it. -/
theorem answerOk_of_repliedBy {f : Stores} (h : f.Agree) {e : Entry} (hr : RepliedBy f e) :
    AnswerOk (Entry.act topic id) Entry.granted ((f topic).cell (encode id)) e := by
  intro now till ha
  obtain ⟨leaseTtl, ⟨rfl, hc⟩, _⟩ := Entry.act_claim.mp ha
  unfold RepliedBy at hr
  rw [hc] at hr
  unfold Entry.granted
  rw [hr, ← TopicStore.claim_eq_grant (h _) id now leaseTtl]
  rfl

/-- In an executed log every claim was answered as its leased cell grants it. -/
theorem Executed.answers {log : List Entry} (h : Executed log) :
    Along (stepCell (Entry.act topic id)) (AnswerOk (Entry.act topic id) Entry.granted) none log :=
  Along.sim (f := fun f : Stores => (f topic).cell (encode id)) (I := Stores.Agree)
    (fun f e _ h => agree_applyEntry f e h) (fun f e _ h => cell_applyEntry topic id f e h)
    (fun _ _ _ h hr => answerOk_of_repliedBy topic id h hr) (fun _ => TopicStore.agree_empty) h

end Simulation

/-- The stores after a first part of a log. -/
theorem storesAfter_concat (log : List Entry) (e : Entry) :
    storesAfter (log ++ [e]) = applyEntry (storesAfter log) e :=
  replay_concat _ _ _ _

end RedisTimers
