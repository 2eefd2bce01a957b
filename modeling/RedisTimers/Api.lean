/-
  File:      RedisTimers/Api.lean
  Subject:   THE CALLS OF BROKERS, PUBLISHERS AND SUBSCRIBERS ON ONE REDIS (broker.py: publish,
             cancel_timer, has_pending, get_pending_timers, cancel_all; publisher/usecase.py: publish,
             cancel, fetch_redis_timers; publisher/producer.py; subscriber/usecase.py: its store calls).

  Any number of brokers, under any prefixes, publishers and subscribers share the database, and one
  store with its two key names; a run is the calls of all of them in the order Redis sees them, those
  that raise included, before they send anything or because their reply was lost.

  * `ApiCall`, `ApiCall.run` -- the calls, as programs over the key space;
  * `ApiCall.attempted` -- a call over a connection that may fail, before Redis executed it or after;
  * `ApiCall.request` -- the one call of the store each of them makes, or the exception it raises
    before it makes any; `run_eq`;
  * `PendingSince` -- pending as a matter of history: published, and neither committed nor cancelled
    since;
  * `pending_is_history` -- after any run the inspection calls report exactly that, and a call that
    raises has changed nothing, unless it is its reply that was lost.
-/
import RedisTimers.Calendar
import RedisTimers.Publish

namespace RedisTimers

open Footprint Lease Replay

/-! ## 1. The calls -/

/-- A computation that raises before anything is sent. -/
def ofExcept {α : Type} : Except PyError α → Cmd α
  | .ok a => pure a
  | .error e => throw e

section Calls

variable (store : TimerStore)

namespace TimersBroker

variable (brokerPrefix : String)

def cancelTimer (topic timerId : String) : Cmd Unit := do
  ofExcept (requireTopic topic)
  store.remove (brokerPrefix ++ topic) timerId

def hasPending (topic timerId : String) : Cmd Bool := do
  ofExcept (requireTopic topic)
  store.isPending (brokerPrefix ++ topic) timerId

def getPendingTimers (mode : ClientMode) (topic : String) (before : Option DateTime) :
    Cmd (List String) := do
  ofExcept (requireTopic topic)
  store.pending (brokerPrefix ++ topic) mode (before.map DateTime.timestamp)

def cancelAll (topic : String) : Cmd Nat := do
  ofExcept (requireTopic topic)
  store.cancelAll (brokerPrefix ++ topic)

end TimersBroker

namespace TimersPublisher

def cancel (fullTopic timerId : String) : Cmd Unit := store.remove fullTopic timerId

def fetchRedisTimers (mode : ClientMode) (pathPrefix topic : String) (dt : DateTime) :
    Cmd (List (String × String)) := do
  let timerIds ← store.pending (pathPrefix ++ topic) mode (some dt.timestamp)
  pure (timerIds.map fun timerId => (topic, timerId))

end TimersPublisher

variable {B H : Type} (enc : B → String → Option H → String → Except PyError Bytes)

/-- What a publish has `TimerStore.schedule` called with; `drawn` is what `gen_cor_id` returns, if the
    path calls it. -/
def Publish.scheduled (p : Publish B H) (drawn : String) : Except PyError Stored :=
  (publish (fun _ => drawn) enc .init p).1

/-- A publish on one of its paths, with the id it returns, if any. -/
def Publish.run (p : Publish B H) (drawn : String) : Cmd (Option String) := do
  let o ← ofExcept (p.scheduled enc drawn)
  store.schedule o.topic o.timerId o.payload o.activationTs
  pure (if p.isHandlerReturn then none else some o.timerId)

/-- A call of a broker, of a publisher, or of a subscriber's poll loop and tasks. -/
inductive ApiCall (B H : Type) where
  | publish (p : Publish B H) (drawn : String)
  | cancelTimer (brokerPrefix topic timerId : String)
  | hasPending (brokerPrefix topic timerId : String)
  | getPendingTimers (mode : ClientMode) (brokerPrefix topic : String) (before : Option DateTime)
  | cancelAll (brokerPrefix topic : String)
  | cancel (fullTopic timerId : String)
  | fetchRedisTimers (mode : ClientMode) (pathPrefix topic : String) (dt : DateTime)
  | due (mode : ClientMode) (fullTopic : String) (now : ℚ) (limit : Int)
  | claim (fullTopic timerId : String) (now leaseTtl : ℚ)
  | remove (fullTopic timerId : String)

inductive ApiResult where
  | none
  | timerId (timerId : Option String)
  | flag (b : Bool)
  | ids (timerIds : List String)
  | pairs (timers : List (String × String))
  | count (n : Nat)
  | payload (payload : Option Bytes)
  deriving DecidableEq

namespace ApiCall

def run : ApiCall B H → Cmd ApiResult
  | .publish p drawn => do pure (.timerId (← p.run store enc drawn))
  | .cancelTimer brokerPrefix topic timerId => do
    TimersBroker.cancelTimer store brokerPrefix topic timerId
    pure .none
  | .hasPending brokerPrefix topic timerId => do
    pure (.flag (← TimersBroker.hasPending store brokerPrefix topic timerId))
  | .getPendingTimers mode brokerPrefix topic before => do
    pure (.ids (← TimersBroker.getPendingTimers store brokerPrefix mode topic before))
  | .cancelAll brokerPrefix topic => do pure (.count (← TimersBroker.cancelAll store brokerPrefix topic))
  | .cancel fullTopic timerId => do
    TimersPublisher.cancel store fullTopic timerId
    pure .none
  | .fetchRedisTimers mode pathPrefix topic dt => do
    pure (.pairs (← TimersPublisher.fetchRedisTimers store mode pathPrefix topic dt))
  | .due mode fullTopic now limit => do pure (.ids (← store.due fullTopic mode now limit))
  | .claim fullTopic timerId now leaseTtl => do
    pure (.payload (← store.claim fullTopic timerId now leaseTtl))
  | .remove fullTopic timerId => do
    store.remove fullTopic timerId
    pure .none

/-! ## 2. One call of the store, or none -/

/-- The call of the store a call makes, or the exception it raises instead. -/
def request : ApiCall B H → Except PyError (String × Command)
  | .publish p drawn =>
      (p.scheduled enc drawn).map fun o => (o.topic, .schedule o.timerId o.payload o.activationTs)
  | .cancelTimer brokerPrefix topic timerId =>
      (requireTopic topic).map fun _ => (brokerPrefix ++ topic, .remove timerId)
  | .hasPending brokerPrefix topic timerId =>
      (requireTopic topic).map fun _ => (brokerPrefix ++ topic, .isPending timerId)
  | .getPendingTimers mode brokerPrefix topic before =>
      (requireTopic topic).map fun _ =>
        (brokerPrefix ++ topic, .pending mode (before.map DateTime.timestamp))
  | .cancelAll brokerPrefix topic =>
      (requireTopic topic).map fun _ => (brokerPrefix ++ topic, .cancelAll)
  | .cancel fullTopic timerId => .ok (fullTopic, .remove timerId)
  | .fetchRedisTimers mode pathPrefix topic dt =>
      .ok (pathPrefix ++ topic, .pending mode (some dt.timestamp))
  | .due mode fullTopic now limit => .ok (fullTopic, .due mode now limit)
  | .claim fullTopic timerId now leaseTtl => .ok (fullTopic, .claim timerId now leaseTtl)
  | .remove fullTopic timerId => .ok (fullTopic, .remove timerId)

/-- What becomes of a call on its way. -/
inductive Fate where
  | replied
  /-- The connection fails or a timeout expires, after Redis executed the call or before. -/
  | lost (executed : Bool)
  deriving DecidableEq

/-- A call over a connection that may fail. The topic is checked before anything is sent. -/
def attempted (c : ApiCall B H × Fate) : Cmd ApiResult :=
  match c.2 with
  | .replied => c.1.run store enc
  | .lost true => do
    let _ ← c.1.run store enc
    throw .connectionError
  | .lost false => do
    let _ ← ofExcept (c.1.request enc)
    throw .connectionError

/-- The calls of a run that Redis executed. -/
def executed (calls : List (ApiCall B H × Fate)) : List (ApiCall B H) :=
  calls.filterMap fun c => if c.2 = .lost false then none else some c.1

/-- What a call returns for what the store answered. -/
def result : ApiCall B H → Reply → ApiResult
  | .publish p drawn, _ => .timerId (match p.scheduled enc drawn with
    | .ok o => if p.isHandlerReturn then none else some o.timerId
    | .error _ => none)
  | .fetchRedisTimers _ _ topic _, .ids timerIds => .pairs (timerIds.map fun timerId => (topic, timerId))
  | _, .done => .none
  | _, .ids timerIds => .ids timerIds
  | _, .payload payload => .payload payload
  | _, .flag b => .flag b
  | _, .count n => .count n

/-- **A call makes one call of the store and returns what its answer says, or makes none and
    raises.** -/
theorem run_eq (c : ApiCall B H) : c.run store enc =
    (ofExcept (c.request enc) >>= fun i => store.call i >>= fun r => pure (c.result enc r)) := by
  have hraise : ∀ {α β : Type} (e : PyError) (f : α → Cmd β), (throw e : Cmd α) >>= f = throw e :=
    fun _ _ => rfl
  cases c with
  | publish p drawn =>
      simp only [run, Publish.run, request, result]
      cases p.scheduled enc drawn with
      | error e => simp only [ofExcept, Except.map, hraise]
      | ok o => simp only [ofExcept, Except.map, TimerStore.call, TimerStore.run, pure_bind, bind_assoc]
  | cancelTimer brokerPrefix topic timerId =>
      simp only [run, TimersBroker.cancelTimer, request, result]
      cases requireTopic topic with
      | error e => simp only [ofExcept, Except.map, hraise]
      | ok u => simp only [ofExcept, Except.map, TimerStore.call, TimerStore.run, pure_bind, bind_assoc]
  | hasPending brokerPrefix topic timerId =>
      simp only [run, TimersBroker.hasPending, request, result]
      cases requireTopic topic with
      | error e => simp only [ofExcept, Except.map, hraise]
      | ok u => simp only [ofExcept, Except.map, TimerStore.call, TimerStore.run, pure_bind, bind_assoc]
  | getPendingTimers mode brokerPrefix topic before =>
      simp only [run, TimersBroker.getPendingTimers, request, result]
      cases requireTopic topic with
      | error e => simp only [ofExcept, Except.map, hraise]
      | ok u => simp only [ofExcept, Except.map, TimerStore.call, TimerStore.run, pure_bind, bind_assoc]
  | cancelAll brokerPrefix topic =>
      simp only [run, TimersBroker.cancelAll, request, result]
      cases requireTopic topic with
      | error e => simp only [ofExcept, Except.map, hraise]
      | ok u => simp only [ofExcept, Except.map, TimerStore.call, TimerStore.run, pure_bind, bind_assoc]
  | cancel fullTopic timerId =>
      simp only [run, TimersPublisher.cancel, request, result, ofExcept, TimerStore.call, TimerStore.run,
        pure_bind, bind_assoc]
  | fetchRedisTimers mode pathPrefix topic dt =>
      simp only [run, TimersPublisher.fetchRedisTimers, request, result, ofExcept, TimerStore.call,
        TimerStore.run, pure_bind, bind_assoc]
  | due mode fullTopic now limit =>
      simp only [run, request, result, ofExcept, TimerStore.call, TimerStore.run, pure_bind, bind_assoc]
  | claim fullTopic timerId now leaseTtl =>
      simp only [run, request, result, ofExcept, TimerStore.call, TimerStore.run, pure_bind, bind_assoc]
  | remove fullTopic timerId =>
      simp only [run, request, result, ofExcept, TimerStore.call, TimerStore.run, pure_bind, bind_assoc]

end ApiCall

end Calls

/-! ## 3. Pending, as a matter of history -/

section History

variable {B H : Type}

/-- The call takes the timer out: a cancellation, a commit, or the cancellation of its topic. -/
def ApiCall.Removes (fullTopic timerId : String) : ApiCall B H → Prop
  | .cancelTimer brokerPrefix topic id => topic ≠ "" ∧ brokerPrefix ++ topic = fullTopic ∧ id = timerId
  | .cancelAll brokerPrefix topic => topic ≠ "" ∧ brokerPrefix ++ topic = fullTopic
  | .cancel topic id => topic = fullTopic ∧ id = timerId
  | .remove topic id => topic = fullTopic ∧ id = timerId
  | .publish .. | .hasPending .. | .getPendingTimers .. | .fetchRedisTimers .. | .due .. => False
  | .claim .. => False

/-- The call claims the timer. -/
def ApiCall.Claims (fullTopic timerId : String) : ApiCall B H → Prop
  | .claim topic id _ _ => topic = fullTopic ∧ id = timerId
  | .publish .. | .hasPending .. | .getPendingTimers .. | .fetchRedisTimers .. | .due .. => False
  | .cancelTimer .. | .cancelAll .. | .cancel .. | .remove .. => False

variable (enc : B → String → Option H → String → Except PyError Bytes)

/-- The call is a publish that comes through, on whichever path, and schedules the timer. -/
def ApiCall.Schedules (fullTopic timerId : String) (payload : Bytes) (activationTs : ℚ) :
    ApiCall B H → Prop
  | .publish p drawn => p.scheduled enc drawn = .ok ⟨fullTopic, timerId, payload, activationTs⟩
  | .cancelTimer .. | .cancelAll .. | .cancel .. | .remove .. | .claim .. => False
  | .hasPending .. | .getPendingTimers .. | .fetchRedisTimers .. | .due .. => False

/-- The timer was scheduled, and neither committed nor cancelled since. -/
def PendingSince (calls : List (ApiCall B H)) (fullTopic timerId : String) : Prop :=
  ∃ xs c ys p ts, calls = xs ++ c :: ys ∧ c.Schedules enc fullTopic timerId p ts ∧
    ∀ x ∈ ys, ¬ x.Removes fullTopic timerId

/-- A call as an act on the leased cell of a timer. -/
def ApiCall.act (fullTopic timerId : String) (c : ApiCall B H) : Option (Act Bytes ℚ) :=
  match c.request enc with
  | .ok i => if i.1 = fullTopic then i.2.act timerId else none
  | .error _ => none

/-- What a call makes of the calendars. -/
def ApiCall.next (f : Calendar.OfTopics) (c : ApiCall B H) : Calendar.OfTopics :=
  match c.request enc with
  | .ok i => f.next i
  | .error _ => f

variable {enc} {fullTopic timerId : String} {c : ApiCall B H} {calls ys : List (ApiCall B H)}

theorem ApiCall.next_at (f : Calendar.OfTopics) (c : ApiCall B H) :
    c.next enc f fullTopic timerId =
      stepCell (ApiCall.act enc fullTopic timerId) (f fullTopic timerId) c := by
  unfold next stepCell act
  cases c.request enc with
  | error e => rfl
  | ok i =>
      simp only [Calendar.OfTopics.next]
      by_cases ht : i.1 = fullTopic
      · subst ht
        rw [Function.update_self, Calendar.next_at, if_pos rfl]
        rfl
      · rw [Function.update_of_ne (Ne.symm ht), if_neg ht]

/-- After a run each timer is the leased cell of the calls that act on it. -/
theorem ApiCall.replay_at (calls : List (ApiCall B H)) :
    replay (fun f c => c.next enc f) (fun _ => Calendar.empty) calls fullTopic timerId =
      after (ApiCall.act enc fullTopic timerId) none calls :=
  replay_sim (f := fun f : Calendar.OfTopics => f fullTopic timerId) (I := fun _ => True)
    (fun _ _ _ _ => trivial) (fun f c _ _ => c.next_at f) trivial

theorem ApiCall.act_eq_some {a : Act Bytes ℚ} : c.act enc fullTopic timerId = some a ↔
    ∃ cmd, c.request enc = .ok (fullTopic, cmd) ∧ cmd.act timerId = some a := by
  unfold act
  cases c.request enc with
  | error e => simp
  | ok i =>
      obtain ⟨t, cmd⟩ := i
      by_cases ht : t = fullTopic <;> simp [ht]

/-- What a call that checks its topic sends. -/
theorem requireTopic_map {α : Type} {topic : String} {a b : α} :
    (requireTopic topic).map (fun _ => a) = .ok b ↔ topic ≠ "" ∧ a = b := by
  unfold requireTopic
  by_cases ht : topic = "" <;> simp [ht, Except.map]

theorem scheduled_map {p : Publish B H} {drawn : String} {cmd : Command} :
    (p.scheduled enc drawn).map (fun o => (o.topic, Command.schedule o.timerId o.payload o.activationTs)) =
      .ok (fullTopic, cmd) ↔ ∃ id payload ts, cmd = .schedule id payload ts ∧
        p.scheduled enc drawn = .ok ⟨fullTopic, id, payload, ts⟩ := by
  cases p.scheduled enc drawn with
  | error e => simp [Except.map]
  | ok o =>
      obtain ⟨t, id, payload, ts⟩ := o
      simp only [Except.map, Except.ok.injEq, Prod.mk.injEq, Stored.mk.injEq]
      constructor
      · intro h
        obtain ⟨rfl, rfl⟩ := h
        exact ⟨id, payload, ts, rfl, rfl, rfl, rfl, rfl⟩
      · intro h
        obtain ⟨_, _, _, rfl, rfl, rfl, rfl, rfl⟩ := h
        exact ⟨rfl, rfl⟩

theorem ApiCall.act_put {p : Bytes} {ts : ℚ} : c.act enc fullTopic timerId = some (.put p ts) ↔
    c.Schedules enc fullTopic timerId p ts := by
  simp only [act_eq_some, act_eq_put, exists_eq_right]
  cases c with
  | publish p drawn =>
      simp only [request, scheduled_map, Schedules, Command.schedule.injEq]
      constructor
      · intro hx
        obtain ⟨_, _, _, ⟨rfl, rfl, rfl⟩, h⟩ := hx
        exact h
      · exact fun h => ⟨_, _, _, ⟨rfl, rfl, rfl⟩, h⟩
  | _ => simp [request, requireTopic_map, Schedules]

theorem ApiCall.act_drop : c.act enc fullTopic timerId = some .drop ↔ c.Removes fullTopic timerId := by
  simp only [act_eq_some, act_eq_drop, exists_or, and_or_left, exists_eq_right]
  cases c <;> simp [request, requireTopic_map, scheduled_map, Removes]

theorem ApiCall.act_claim {now till : ℚ} (h : c.act enc fullTopic timerId = some (.claim now till)) :
    c.Claims fullTopic timerId := by
  obtain ⟨cmd, hreq, hact⟩ := act_eq_some.mp h
  obtain ⟨ttl, rfl, _⟩ := act_eq_claim.mp hact
  cases c <;> simp_all [request, requireTopic_map, scheduled_map, Claims]

/-- A timer is pending after a run exactly as its history says. -/
theorem pendingSince_iff (calls : List (ApiCall B H)) :
    (replay (fun f c => c.next enc f) (fun _ => Calendar.empty) calls fullTopic timerId).isSome ↔
      PendingSince enc calls fullTopic timerId := by
  rw [ApiCall.replay_at, isSome_iff_put]
  constructor
  · intro h
    obtain ⟨xs, c, ys, p, ts, hcalls, hput, hdrop⟩ := h
    exact ⟨xs, c, ys, p, ts, hcalls, ApiCall.act_put.mp hput,
      fun x hx hr => hdrop x hx (ApiCall.act_drop.mpr hr)⟩
  · intro h
    obtain ⟨xs, c, ys, p, ts, hcalls, hput, hdrop⟩ := h
    exact ⟨xs, c, ys, p, ts, hcalls, ApiCall.act_put.mpr hput,
      fun x hx hr => hdrop x hx (ApiCall.act_drop.mp hr)⟩

/-- Scheduled last, and neither taken out nor claimed since, a timer is due when it was scheduled
    for. -/
theorem replay_unclaimed {xs ys : List (ApiCall B H)} {p : Bytes} {ts : ℚ}
    (hput : c.Schedules enc fullTopic timerId p ts)
    (hlast : ∀ x ∈ ys, ¬ x.Removes fullTopic timerId ∧ ¬ x.Claims fullTopic timerId ∧
      ∀ q u, ¬ x.Schedules enc fullTopic timerId q u) :
    replay (fun f c => c.next enc f) (fun _ => Calendar.empty) (xs ++ c :: ys) fullTopic timerId =
      some (p, ts) := by
  rw [ApiCall.replay_at, after_append, after_cons, stepCell_of _ (ApiCall.act_put.mpr hput), apply_put]
  exact after_unclaimed (fun x hx q u hv => (hlast x hx).2.2 q u (ApiCall.act_put.mp hv))
    (fun x hx hv => (hlast x hx).1 (ApiCall.act_drop.mp hv))
    (fun x hx now till hv => (hlast x hx).2.1 (ApiCall.act_claim hv))

end History

/-! ## 4. What the calls report -/

section Reports

variable {B H : Type} {store : TimerStore} {enc : B → String → Option H → String → Except PyError Bytes}
variable {f : Calendar.OfTopics} {db : Db}

open TimerStore

/-- A call of the store that leaves its topic as it was leaves the database as it was. -/
theorem TimerStore.exec_unchanged (h : store.Apart) (hs : store.Stands f db) (i : String × Command)
    (hread : ∀ k : TopicStore, (k.run i.2).2 = k) : (exec (store.call i) db).2 = db := by
  obtain ⟨stores, _, hrep, _⟩ := hs
  have hown := (represents_run h hrep i.1 i.2).2 i.1
  rw [Function.update_self, hread] at hown
  funext key
  by_cases hkey : key ∈ store.footprint i.1
  · rcases hkey with rfl | rfl
    · exact hown.1.trans (hrep i.1).1.symm
    · exact hown.2.trans (hrep i.1).2.symm
  · exact (local_run store i.1 i.2).frame db key hkey

/-- A call that makes a request gets the answer of the calendars, and leaves what they make of it. -/
theorem ApiCall.exec_ok (h : store.Apart) (hs : store.Stands f db) {c : ApiCall B H}
    {i : String × Command} (hreq : c.request enc = .ok i) :
    ∃ r, f.answer i r ∧ exec (c.run store enc) db = (.ok (c.result enc r), (exec (store.call i) db).2) ∧
      store.Stands (f.next i) (exec (store.call i) db).2 := by
  obtain ⟨r, hr, hans, hnext⟩ := stands_call h f db i hs
  refine ⟨r, hans, ?_, hnext⟩
  have hpair : exec (store.call i) db = (.ok r, (exec (store.call i) db).2) := Prod.ext hr rfl
  rw [run_eq, hreq]
  show exec (store.call i >>= fun r => pure (c.result enc r)) db = _
  rw [exec_bind, hpair]
  rfl

/-- A call that raises before it makes a request changes nothing. -/
theorem ApiCall.exec_error {c : ApiCall B H} {e : PyError} (hreq : c.request enc = .error e) :
    exec (c.run store enc) db = (.error e, db) := by
  rw [run_eq, hreq]
  rfl

theorem ApiCall.stands_run (c : ApiCall B H) (h : store.Apart) (f : Calendar.OfTopics) (db : Db)
    (hs : store.Stands f db) : store.Stands (c.next enc f) (exec (c.run store enc) db).2 := by
  unfold next
  cases hreq : c.request enc with
  | error e =>
      rw [exec_error hreq]
      exact hs
  | ok i =>
      obtain ⟨r, _, hexec, hnext⟩ := exec_ok h hs hreq
      rw [hexec]
      exact hnext

/-- **A lost reply is no lost call**: what an attempted call leaves is what the call leaves, if Redis
    executed it. -/
theorem ApiCall.exec_attempted (c : ApiCall B H) (fate : Fate) (db : Db) :
    (exec (attempted store enc (c, fate)) db).2 =
      if fate = .lost false then db else (exec (c.run store enc) db).2 := by
  cases fate with
  | replied => rfl
  | lost executed =>
      cases executed with
      | true => exact exec_bind_snd (fun _ _ => rfl) db
      | false =>
          unfold attempted
          cases c.request enc <;> rfl

/-- A run leaves what the calls leave that Redis executed. -/
theorem ApiCall.runAll_attempted (calls : List (ApiCall B H × Fate)) (db : Db) :
    (runAll (attempted store enc) calls db).2 = (runAll (run store enc) (executed calls) db).2 := by
  refine runAll_filterMap (fun c i hi s => ?_) (fun c hc s => ?_) calls db
  · rw [exec_attempted]
    split at hi
    · cases hi
    · rename_i hex
      cases hi
      rw [if_neg hex]
  · rw [exec_attempted]
    split at hc
    · rename_i hlost
      rw [if_pos hlost]
    · cases hc

/-- So it stands for the calendars that these make. -/
theorem ApiCall.stands_attempted (h : store.Apart) (calls : List (ApiCall B H × Fate)) :
    store.Stands (replay (fun f c => c.next enc f) (fun _ => Calendar.empty) (executed calls))
      (runAll (attempted store enc) calls fun _ => none).2 := by
  rw [runAll_attempted]
  exact runAll_stands (fun f db c hs => c.stands_run h f db hs) (executed calls) stands_empty

/-- What the calls report of a database that a run left whose executed calls are `calls`. -/
structure ReportsHistory (store : TimerStore) (enc : B → String → Option H → String → Except PyError Bytes)
    (calls : List (ApiCall B H)) (db : Db) : Prop where
  hasPending : ∀ brokerPrefix topic id, topic ≠ "" → ∃ b,
    exec ((ApiCall.hasPending brokerPrefix topic id : ApiCall B H).run store enc) db =
      (.ok (.flag b), db) ∧ (b = true ↔ PendingSince enc calls (brokerPrefix ++ topic) id)
  /-- The unbounded listing has each pending timer once, and `cancel_all` returns their number. -/
  getPending : ∀ mode brokerPrefix topic, topic ≠ "" → ∃ ids,
    exec ((ApiCall.getPendingTimers mode brokerPrefix topic none : ApiCall B H).run store enc) db =
      (.ok (.ids ids), db) ∧ ids.Nodup ∧
    (∀ id, id ∈ ids ↔ PendingSince enc calls (brokerPrefix ++ topic) id) ∧
    (exec ((ApiCall.cancelAll brokerPrefix topic : ApiCall B H).run store enc) db).1 =
      .ok (.count ids.length)
  /-- The two bounded listings agree, and have a timer that was scheduled and left alone since
      exactly if it is due by then. -/
  before : ∀ mode pathPrefix topic (dt : DateTime), topic ≠ "" → ∃ ids,
    exec ((ApiCall.getPendingTimers mode pathPrefix topic (some dt) : ApiCall B H).run store enc) db =
      (.ok (.ids ids), db) ∧
    exec ((ApiCall.fetchRedisTimers mode pathPrefix topic dt : ApiCall B H).run store enc) db =
      (.ok (.pairs (ids.map fun id => (topic, id))), db) ∧
    (∀ id ∈ ids, PendingSince enc calls (pathPrefix ++ topic) id) ∧
    ∀ xs c ys id p ts, calls = xs ++ c :: ys → c.Schedules enc (pathPrefix ++ topic) id p ts →
      (∀ x ∈ ys, ¬ x.Removes (pathPrefix ++ topic) id ∧ ¬ x.Claims (pathPrefix ++ topic) id ∧
        ∀ q u, ¬ x.Schedules enc (pathPrefix ++ topic) id q u) → (id ∈ ids ↔ ts ≤ dt.timestamp)
  /-- A call that raises has changed nothing; where it raises because its reply was lost, it has done
      what it does when it returns. -/
  raised : ∀ (c : ApiCall B H) (fate : ApiCall.Fate) (e : PyError),
    (exec (ApiCall.attempted store enc (c, fate)) db).1 = .error e →
    (exec (ApiCall.attempted store enc (c, fate)) db).2 =
      if fate = .lost true then (exec (c.run store enc) db).2 else db

/-- A reader that makes a request returns what the calendar answers, and changes nothing. -/
theorem ApiCall.exec_reader (h : store.Apart) (hs : store.Stands f db) {c : ApiCall B H}
    {i : String × Command} (hreq : c.request enc = .ok i) (hread : ∀ k : TopicStore, (k.run i.2).2 = k)
    {r : Reply} (hr : f.answer i r) : exec (c.run store enc) db = (.ok (c.result enc r), db) := by
  obtain ⟨r', hans, hexec, _⟩ := exec_ok h hs hreq
  rw [hexec, exec_unchanged h hs i hread, Calendar.OfTopics.answer_unique f i r' r hans hr]

theorem TimerStore.Stands.lists (hs : store.Stands f db) (topic : String) (bound : Option ℚ) :
    ∃ ids, (f topic).Lists bound ids := by
  obtain ⟨stores, hag, _, rfl⟩ := hs
  obtain ⟨ids, _, hids⟩ := (hag topic).pending_eq .bytes bound
  exact ⟨ids, TopicStore.lists_of_upTo (hag topic) hids⟩

/-- **PENDING IS A MATTER OF HISTORY.** After any run of calls by any brokers, publishers and
    subscribers over one store whose key names are apart, whatever replies are lost, a timer is
    reported pending exactly if a publish of it that Redis executed, on any path and under any prefix
    that leads to its topic, has no executed cancellation and no executed commit of it after it; claims
    in between change nothing of that. -/
theorem pending_is_history (store : TimerStore) (h : store.Apart)
    (enc : B → String → Option H → String → Except PyError Bytes)
    (calls : List (ApiCall B H × ApiCall.Fate)) :
    ReportsHistory store enc (ApiCall.executed calls)
      (runAll (ApiCall.attempted store enc) calls fun _ => none).2 := by
  have hs : store.Stands _ (runAll (ApiCall.attempted store enc) calls fun _ => none).2 :=
    ApiCall.stands_attempted h calls
  generalize (runAll (ApiCall.attempted store enc) calls fun _ => none).2 = db at hs ⊢
  generalize ApiCall.executed calls = calls at hs ⊢
  have hpend : ∀ t id, (replay (fun f c => c.next enc f) (fun _ => Calendar.empty) calls t id).isSome ↔
      PendingSince enc calls t id := fun _ _ => pendingSince_iff calls
  refine ⟨fun brokerPrefix topic id ht => ?_, fun mode brokerPrefix topic ht => ?_,
    fun mode pathPrefix topic dt ht => ?_, fun c fate e he => ?_⟩
  · have hreq : (ApiCall.hasPending brokerPrefix topic id : ApiCall B H).request enc =
        .ok (brokerPrefix ++ topic, .isPending id) := requireTopic_map.mpr ⟨ht, rfl⟩
    exact ⟨_, ApiCall.exec_reader h hs hreq (fun _ => rfl) rfl, hpend _ id⟩
  · have hreq : (ApiCall.getPendingTimers mode brokerPrefix topic none : ApiCall B H).request enc =
        .ok (brokerPrefix ++ topic, .pending mode none) := requireTopic_map.mpr ⟨ht, rfl⟩
    have hall : (ApiCall.cancelAll brokerPrefix topic : ApiCall B H).request enc =
        .ok (brokerPrefix ++ topic, .cancelAll) := requireTopic_map.mpr ⟨ht, rfl⟩
    obtain ⟨ids, hl⟩ := hs.lists (brokerPrefix ++ topic) none
    obtain ⟨r, ⟨ids', hl', rfl⟩, hexec, _⟩ := ApiCall.exec_ok h hs hall
    refine ⟨ids, ApiCall.exec_reader h hs hreq (fun _ => rfl) ⟨ids, hl, rfl⟩, hl.nodup, fun id => ?_, ?_⟩
    · rw [hl.members, ← hpend, Option.isSome_iff_exists]
      simp
    · rw [hexec, hl.unique hl']
      rfl
  · have hreq : (ApiCall.getPendingTimers mode pathPrefix topic (some dt) : ApiCall B H).request enc =
        .ok (pathPrefix ++ topic, .pending mode (some dt.timestamp)) := requireTopic_map.mpr ⟨ht, rfl⟩
    have hfetch : (ApiCall.fetchRedisTimers mode pathPrefix topic dt : ApiCall B H).request enc =
        .ok (pathPrefix ++ topic, .pending mode (some dt.timestamp)) := rfl
    obtain ⟨ids, hl⟩ := hs.lists (pathPrefix ++ topic) (some dt.timestamp)
    refine ⟨ids, ApiCall.exec_reader h hs hreq (fun _ => rfl) ⟨ids, hl, rfl⟩,
      ApiCall.exec_reader h hs hfetch (fun _ => rfl) ⟨ids, hl, rfl⟩, fun id hid => ?_, ?_⟩
    · obtain ⟨p, t, hc, _⟩ := (hl.members id).mp hid
      rw [← hpend, hc]
      rfl
    · rintro xs c ys id p ts rfl hput hlast
      rw [hl.members, replay_unclaimed hput hlast]
      simp
  · rw [ApiCall.exec_attempted]
    cases fate with
    | lost executed => cases executed <;> rfl
    | replied =>
        -- over a working connection only a call that sends nothing raises
        show (exec (c.run store enc) db).2 = db
        cases hreq : c.request enc with
        | error e' => rw [ApiCall.exec_error hreq]
        | ok i =>
            obtain ⟨r, _, hexec, _⟩ := ApiCall.exec_ok h hs hreq
            have herr : (exec (c.run store enc) db).1 = .error e := he
            rw [hexec] at herr
            cases herr

/-- A broker publish without an id whose reply is lost, the claim of the timer it scheduled, a publish
    Redis never sees, and one on another topic that is cancelled. -/
def publishedAndClaimed : List (ApiCall Bytes Unit × ApiCall.Fate) :=
  [(.publish (.broker "" "t" ⟨[1], "", 0, none, none, none⟩ 10) "x", .lost true),
    (.claim "t" "x" 10 30, .replied),
    (.publish (.publisher "t" ⟨[2], "y", 0, none, none, none⟩ 10) "", .lost false),
    (.publish (.publisher "u" ⟨[3], "z", 0, none, none, none⟩ 10) "", .replied),
    (.cancelTimer "" "u" "z", .lost true)]

theorem pending_is_history_claimed :
    ReportsHistory .defaults sampleEnc (ApiCall.executed publishedAndClaimed)
      (runAll (ApiCall.attempted .defaults sampleEnc) publishedAndClaimed fun _ => none).2 :=
  pending_is_history .defaults (by decide) sampleEnc publishedAndClaimed

end Reports

end RedisTimers
