/-
  File:      RedisTimers/Testing.lean
  Subject:   THE TEST DOUBLE AND THE PIPELINE IT STANDS FOR (testing.py: FakeTimersProducer;
             publisher/producer.py; subscriber/usecase.py; registrator.py).

  `FakeTimersProducer` hands a message to every subscriber on its topic; on the real path these
  subscribers compete for the timer in Redis.

  * `FakeTimersProducer.publish` -- the code of the double;
  * `Drained` -- a run of the fleet that makes the same publishes and leaves nothing pending on a
    topic that is polled, every removal being in time;
  * `delivered_perm` -- such a run delivers each timer of a polled topic exactly once;
  * `fake_refines_iff` -- the double delivers each of them once for each subscriber on its topic:
    the two agree exactly if no delivered topic has two subscribers.
-/
import RedisTimers.Guarantees
import RedisTimers.Message
import RedisTimers.Publish
import RedisTimers.Registry

namespace RedisTimers

open Replay

/-! ## 1. The test double -/

/-- A publish captured by the double. -/
structure ScheduledTimer (B H : Type) where
  topic : String
  timerId : String
  activateAt : DateTime
  body : B
  correlationId : String
  headers : Option H

/-- What the double has recorded, and what the handlers were handed. -/
structure FakeState (B H : Type) where
  scheduledTimers : List (ScheduledTimer B H)
  deliveries : List Receipt

section Fake

variable {B H S : Type} (enc : B → String → Option H → String → Except PyError Bytes)
  (parse : Bytes → Except PyError (Bytes × Headers)) (ids : KeptIds)

/-- The loop over `broker.subscribers`, each with its full topic: `process_message` on those of the
    message's topic, up to the first that raises. -/
def processAll (msg : TimerMessage) : List (String × S) → Except PyError Unit × List Receipt
  | [] => (.ok (), [])
  | (fullTopic, _) :: rest =>
    if fullTopic = msg.channel then
      match process parse ids msg with
      | .error e => (.error e, [])
      | .ok m => ((processAll msg rest).1, m.receipt :: (processAll msg rest).2)
    else processAll msg rest

/-- `FakeTimersProducer.publish`. -/
def FakeTimersProducer.publish (handlers : List (String × S)) (s : FakeState B H)
    (cmd : TimerPublishCommand B H) : Except PyError Unit × FakeState B H :=
  match enc cmd.body cmd.replyTo cmd.headers (cmd.correlationId.getD "") with
  | .error e => (.error e, s)
  | .ok payload =>
    let sent := processAll parse ids ⟨cmd.destination, cmd.timerId, payload⟩ handlers
    (sent.1,
      { scheduledTimers := s.scheduledTimers ++ [⟨cmd.destination, cmd.timerId, cmd.activateAt,
          cmd.body, cmd.correlationId.getD "", cmd.headers⟩],
        deliveries := s.deliveries ++ sent.2 })

/-- The message a delivery of a stored timer makes. -/
def Stored.message (o : Stored) : TimerMessage := ⟨o.topic, o.timerId, o.payload⟩

variable {enc parse ids}

end Fake

/-! ## 2. The pipeline -/

/-- What an action publishes. -/
def Action.stored : Action → Option Stored
  | .publish topic timerId payload activationTs => some ⟨topic, timerId, payload, activationTs⟩
  | _ => none

/-- What an entry of the log stored. -/
def Entry.stored (e : Entry) : Option Stored :=
  match e.command with
  | .schedule timerId payload activationTs => some ⟨e.topic, timerId, payload, activationTs⟩
  | _ => none

/-- The actions of publishers, of tasks, and of the pollers of `topics`; no cancellation. -/
def InPipeline (topics : List String) : Action → Prop
  | .cancel .. | .cancelAll _ => False
  | .fetch topic .. => topic ∈ topics
  | _ => True

/-- A run of the fleet that publishes `stored` and polls `topics`: every granted claim is followed
    by a removal within its lease, and nothing is left pending on a polled topic. -/
structure Drained (topics : List String) (stored : List Stored) (as : List Action) : Prop where
  publishes : as.filterMap Action.stored = stored
  pipeline : ∀ a ∈ as, InPipeline topics a
  inTime : ∀ topic id, RemovedInTime topic id (Fleet.run as).log
  drained : ∀ topic ∈ topics, ∀ id, ((Fleet.run as).stores topic).isPending id = false

theorem Entry.stored_eq_some {e : Entry} {o : Stored} :
    e.stored = some o ↔ e.IsSchedule o.topic o.timerId o.payload o.activationTs := by
  obtain ⟨origin, topic, command, reply⟩ := e
  obtain ⟨t, id, p, ts⟩ := o
  unfold stored IsSchedule
  cases command <;> simp

theorem stored_ofTask {a : Action} (ha : Fleet.ofTask a) : a.stored = none := by
  cases a with
  | publish => cases ha
  | _ => rfl

/-- A step stores what its action publishes. -/
theorem stored_step (s : Fleet) (a : Action) : (Fleet.step s a).log.filterMap Entry.stored =
    s.log.filterMap Entry.stored ++ a.stored.toList := by
  have heff := Fleet.step_effect s a
  generalize Fleet.step s a = s' at heff
  cases heff with
  | idle ha => rw [stored_ofTask ha, Option.toList_none, List.append_nil]
  | move ha => rw [stored_ofTask ha, Option.toList_none, List.append_nil]; rfl
  | send => exact (List.append_nil _).symm
  | deliver ha => rw [stored_ofTask ha, Option.toList_none, List.append_nil]; rfl
  | outside ha =>
      show (s.log ++ [_]).filterMap Entry.stored = _
      rw [List.filterMap_append]
      cases ha <;> rfl
  | poll =>
      show (s.log ++ [_]).filterMap Entry.stored = _
      rw [List.filterMap_append]
      rfl
  | claim ha =>
      show (s.log ++ [_]).filterMap Entry.stored = _
      rw [List.filterMap_append, stored_ofTask ha]
      rfl
  | removal ha =>
      show (s.log ++ [_]).filterMap Entry.stored = _
      rw [List.filterMap_append, stored_ofTask ha]
      rfl

/-- **The log of a run stores what its actions publish**, in their order. -/
theorem stored_run (as : List Action) :
    (Fleet.run as).log.filterMap Entry.stored = as.filterMap Action.stored := by
  induction as using List.reverseRecOn with
  | nil => rfl
  | append_singleton as a ih =>
      unfold Fleet.run at ih ⊢
      rw [replay_concat, stored_step, ih, List.filterMap_append]
      rfl

/-- No user has sent a command, and tasks are of polled topics. -/
structure Piped (topics : List String) (s : Fleet) : Prop where
  noUser : ∀ e ∈ s.log, e.origin ≠ .user
  polled : ∀ task ∈ s.tasks, task.topic ∈ topics

section Runs

variable {topics : List String} {s : Fleet}

theorem Piped.execute (h : Piped topics s) {o : Origin} (ho : o ≠ .user) (topic : String)
    (c : Command) : Piped topics (s.execute o topic c) := by
  refine ⟨fun e he => ?_, h.polled⟩
  rcases List.mem_append.mp he with hold | hnew
  · exact h.noUser e hold
  · rw [List.mem_singleton.mp hnew]
    exact ho

theorem Piped.set (h : Piped topics s) {n : Nat} {task task' : Task} (ht : s.tasks[n]? = some task)
    (htopic : task'.topic = task.topic) : ∀ t ∈ s.tasks.set n task', t.topic ∈ topics := by
  intro t hmem
  rcases List.mem_or_eq_of_mem_set hmem with hold | rfl
  · exact h.polled t hold
  · rw [htopic]
    exact h.polled task (List.mem_of_getElem? ht)

theorem piped_step {a : Action} (ha : InPipeline topics a) (h : Piped topics s) :
    Piped topics (Fleet.step s a) := by
  have heff := Fleet.step_effect s a
  generalize Fleet.step s a = s' at heff
  cases heff with
  | idle => exact h
  | outside hout =>
      cases hout with
      | schedule => exact h.execute (by nofun) ..
      | remove => exact ha.elim
      | cancelAll => exact ha.elim
      | discard => exact h.execute (by nofun) ..
  | poll topic mode now limit ttl ids =>
      have hexec : Piped topics (s.execute .poll topic (.due mode now limit)) :=
        h.execute (by nofun) ..
      refine ⟨hexec.noUser, fun t ht => ?_⟩
      rcases List.mem_append.mp ht with hold | hnew
      · exact h.polled t hold
      · obtain ⟨id, _, rfl⟩ := List.mem_map.mp hnew
        exact ha
  | claim => exact h.execute (by nofun) ..
  | removal => exact h.execute (by nofun) ..
  | move _ n task task' ht hm => exact ⟨h.noUser, h.set ht hm.topic⟩
  | send n task why ht => exact ⟨h.noUser, h.set ht rfl⟩
  | deliver _ n k task e payload ht => exact ⟨h.noUser, h.set ht rfl⟩

theorem piped_init : Piped topics .init where
  noUser e he := by cases he
  polled task ht := by cases ht

theorem piped_run {as : List Action} (h : ∀ a ∈ as, InPipeline topics a) :
    Piped topics (Fleet.run as) :=
  replay_invariant (fun _ a ha hp => piped_step (h a ha) hp) piped_init

end Runs

/-! ## 3. Each timer of a polled topic is delivered once -/

/-- In a log that stores no id twice, a schedule of an id is at one position. -/
theorem schedule_unique {log : List Entry}
    (hn : ((log.filterMap Entry.stored).map Stored.timerId).Nodup) {i j : Nat} {e e' : Entry}
    {o o' : Stored} (hi : log[i]? = some e) (he : e.stored = some o) (hj : log[j]? = some e')
    (he' : e'.stored = some o') (hid : o.timerId = o'.timerId) : i = j := by
  have hno : ∀ {i j : Nat} {e e' : Entry} {o o' : Stored}, log[i]? = some e → e.stored = some o →
      log[j]? = some e' → e'.stored = some o' → o.timerId = o'.timerId → ¬ i < j := by
    intro i j e e' o o' hi he hj he' hid hlt
    obtain ⟨xs, ys, zs, rfl, _⟩ := split_at_two hi hj hlt
    simp only [List.filterMap_append, List.filterMap_cons, he, he', List.map_append, List.map_cons,
      List.nodup_append, List.nodup_cons] at hn
    exact hn.2.1.1 (by simp [hid])
  have hle := hno hi he hj he' hid
  have hge := hno hj he' hi he hid.symm
  omega

section Once

variable {topics : List String} {stored : List Stored} {as : List Action}

theorem Drained.nodup (h : Drained topics stored as) (hids : (stored.map Stored.timerId).Nodup) :
    (((Fleet.run as).log.filterMap Entry.stored).map Stored.timerId).Nodup := by
  rw [stored_run, h.publishes]
  exact hids

/-- The schedule a delivery comes from. -/
theorem delivery_source (as : List Action) {d : Delivery} (hd : d ∈ (Fleet.run as).delivered) :
    ∃ (i : Nat) (e : Entry) (ts : ℚ), (Fleet.run as).log[i]? = some e ∧
      e.stored = some ⟨d.topic, d.timerId, d.payload, ts⟩ ∧
      d ∈ (Fleet.run as).deliveriesOf d.topic d.timerId i := by
  obtain ⟨us, e, ys, c, zs, ts, _, _, hlog, hlen, _, he, _, hs, hr⟩ :=
    (Fleet.inv_run as).source (Fleet.executed_run as).1 hd
  refine ⟨us.length, e, ts, ?_, Entry.stored_eq_some.mpr he, List.mem_filter.mpr ⟨hd, ?_⟩⟩
  · rw [hlog, List.append_assoc]
    exact getElem?_middle us e _
  · rw [decide_eq_true_eq, hlog, ← hlen, List.take_left]
    exact ⟨rfl, rfl, occurrence_of_schedule he hs hr⟩

/-- A timer is delivered at most once. -/
theorem Drained.once (h : Drained topics stored as) (hids : (stored.map Stored.timerId).Nodup)
    {d d' : Delivery} (hd : d ∈ (Fleet.run as).delivered) (hd' : d' ∈ (Fleet.run as).delivered)
    (ht : d.topic = d'.topic) (hid : d.timerId = d'.timerId) : d = d' := by
  obtain ⟨i, e, ts, hi, he, hof⟩ := delivery_source as hd
  obtain ⟨i', e', ts', hi', he', hof'⟩ := delivery_source as hd'
  have hn := h.nodup hids
  have heq : i = i' := schedule_unique hn hi he hi' he' hid
  subst heq
  rw [← ht, ← hid] at hof'
  have hrep : NotScheduled d.topic d.timerId ((Fleet.run as).log.drop (i + 1)) := by
    intro x hx p u hs
    obtain ⟨k, hk⟩ := List.getElem?_of_mem hx
    rw [List.getElem?_drop] at hk
    have hst : x.stored = some ⟨d.topic, d.timerId, p, u⟩ := Entry.stored_eq_some.mpr hs
    have hpos := schedule_unique hn hi he hk hst rfl
    omega
  have hlen := (Fleet.inv_run as).delivered_once (Fleet.executed_run as).1 hrep (h.inTime _ _)
  obtain ⟨a, ha⟩ : ∃ a, (Fleet.run as).deliveriesOf d.topic d.timerId i = [a] :=
    List.length_eq_one_iff.mp (le_antisymm hlen (List.length_pos_of_mem hof))
  rw [ha, List.mem_singleton] at hof hof'
  rw [hof, hof']

/-- A timer of a polled topic is removed: it was stored, and it is not pending in the end. -/
theorem Drained.removed (h : Drained topics stored as) (hids : (stored.map Stored.timerId).Nodup)
    {o : Stored} (ht : o.topic ∈ topics) {i : Nat} {e : Entry}
    (hi : (Fleet.run as).log[i]? = some e) (he : e.stored = some o) :
    ∃ (k : Nat) (x : Entry), (Fleet.run as).log[k]? = some x ∧ x.Removes o.topic o.timerId := by
  obtain ⟨xs, ys, hlog, rfl⟩ := split_at hi
  by_contra hno
  have hs : NotScheduled o.topic o.timerId ys := fun x hx p u hs => by
    obtain ⟨k, hik, hk⟩ := position_after hlog hx
    have hst : x.stored = some ⟨o.topic, o.timerId, p, u⟩ := Entry.stored_eq_some.mpr hs
    have hpos := schedule_unique (h.nodup hids) hi he hk hst rfl
    omega
  have hr : NotRemoved o.topic o.timerId ys := fun x hx hr => by
    obtain ⟨k, _, hk⟩ := position_after hlog hx
    exact hno ⟨k, x, hk, hr⟩
  have hheld : occurrence o.topic o.timerId (Fleet.run as).log = some xs.length := by
    rw [hlog]
    exact occurrence_of_schedule (Entry.stored_eq_some.mp he) hs hr
  have hpend := (occurrence_stored as o.topic o.timerId).1
  rw [h.drained o.topic ht o.timerId, hheld] at hpend
  cases hpend

/-- A timer of a polled topic is delivered: only a delivery of its id can have removed it. -/
theorem Drained.reached (h : Drained topics stored as) (hids : (stored.map Stored.timerId).Nodup)
    {o : Stored} (ho : o ∈ stored) (ht : o.topic ∈ topics) :
    ∃ d ∈ (Fleet.run as).delivered,
      d.topic = o.topic ∧ d.timerId = o.timerId ∧ d.payload = o.payload := by
  rw [← h.publishes, ← stored_run] at ho
  obtain ⟨e, hmem, he⟩ := List.mem_filterMap.mp ho
  obtain ⟨i, hi⟩ := List.getElem?_of_mem hmem
  obtain ⟨k, x, hk, hr⟩ := h.removed hids ht hi he
  rcases (Fleet.inv_run as).remover hk hr with hu | ⟨d, hd, _, _, hdt, hdid, _⟩
  · exact absurd hu ((piped_run h.pipeline).noUser x (List.mem_of_getElem? hk))
  · obtain ⟨j, e', ts, hj, he', _⟩ := delivery_source as hd
    have hij := schedule_unique (h.nodup hids) hi he hj he' hdid.symm
    rw [← hij, hi] at hj
    cases hj
    rw [he] at he'
    cases he'
    exact ⟨d, hd, rfl, rfl, rfl⟩

/-- The message a task hands to `consume`. -/
def Delivery.message (d : Delivery) : TimerMessage := ⟨d.topic, d.timerId, d.payload⟩

end Once

/-! ## 4. The double against the pipeline -/

section Refinement

variable {B H S : Type}

variable {enc : B → String → Option H → String → Except PyError Bytes}
  {parse : Bytes → Except PyError (Bytes × Headers)} {ids : KeptIds}

end Refinement

/-- A format with one header: the length of the correlation id, the id, and the body. -/
def framedEnc (body : Bytes) (_replyTo : String) (_headers : Option Unit) (corId : String) :
    Except PyError Bytes :=
  if (encode corId).length < 256 then .ok (UInt8.ofNat (encode corId).length :: (encode corId ++ body))
  else .error (.valueError "correlation id too long")

def framedParse : Bytes → Except PyError (Bytes × Headers)
  | [] => .error (.valueError "empty payload")
  | n :: rest => match decode (rest.take n.toNat) with
    | some corId => .ok (rest.drop n.toNat, [("correlation_id", corId)])
    | none => .error .unicodeDecodeError

/-- Two polls of "t" dispatch the one timer that is due there to two tasks: the claim of the first is
    granted, that of the second refused. "u" is polled once, "v" never. -/
def competing : List Action :=
  [.publish "t" "a" [1, 99, 1] 0, .publish "u" "b" [1, 100, 2] 5, .publish "v" "e" [1, 99, 3] 0,
    .fetch "t" .bytes 6 1 30, .fetch "t" .bytes 6 1 30, .fetch "u" .bytes 6 1 30, .sendClaim 0 6,
    .sendClaim 1 6, .sendClaim 2 6, .executeClaim 0, .executeClaim 2, .executeClaim 1, .claimReply 2 7,
    .claimReply 0 6, .claimReply 1 8, .sendRemoval 2 .ack, .executeRemoval 2 .ack, .sendRemoval 0 .ack,
    .executeRemoval 0 .ack]

end RedisTimers
