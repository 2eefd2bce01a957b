/-
  File:      RedisTimers/Publish.lean
  Subject:   THE THREE PUBLISH PATHS (broker.py: publish; publisher/usecase.py: publish, _publish;
             response.py; publisher/producer.py) and which timers a sequence of publishes leaves.

  FastStream's `gen_cor_id` is a parameter `genCorId`: its n-th result. The wire encoding is a
  parameter `enc`: the payload or the exception. Bodies and headers are of any type.

  * `resolveActivateAt`, `TimerPublishCommand.fromCmd`, `produce`, `publish` -- the code;
  * `publish_ok` -- what an accepted publish stores, and under which id;
  * `NoOverwrite`, `no_overwrite_iff` -- publishes do not overwrite one another exactly if none
    that `_publish` makes of a handler's return value is accepted: that path names no id, and all
    its timers on a topic share the id "".
-/
import RedisTimers.Log

namespace RedisTimers

open Replay

/-! ## 1. Commands -/

/-- A `datetime`: what `timestamp()` returns, and whether `tzinfo` is set. -/
structure DateTime where
  timestamp : ℚ
  aware : Bool
  deriving DecidableEq

/-- The timestamps of `datetime.min` and `datetime.max` in UTC. -/
def minTimestamp : ℚ := -62135596800

def maxTimestamp : ℚ := 253402300799999999 / 1000000

/-- `datetime.now(tz=UTC) + delta`. -/
def utcAfter (now delta : ℚ) : Except PyError DateTime :=
  if minTimestamp ≤ now + delta ∧ now + delta ≤ maxTimestamp then .ok ⟨now + delta, true⟩
  else .error .overflowError

/-- `resolve_activate_at`, with the clock reading of `datetime.now`. -/
def resolveActivateAt (now activateIn : ℚ) (activateAt : Option DateTime) : Except PyError DateTime :=
  match activateAt with
  | none => utcAfter now activateIn
  | some dt =>
    if activateIn ≠ 0 then .error (.valueError "Pass either activate_in or activate_at, not both")
    else if dt.aware = false then
      .error (.valueError "activate_at must be timezone-aware (e.g., datetime.now(tz=UTC))")
    else .ok dt

/-- FastStream's `PublishCommand`: the fields the conversion reads. -/
structure PublishCommand (B H : Type) where
  body : B
  correlationId : Option String
  destination : String
  headers : Option H
  replyTo : String

structure TimerPublishCommand (B H : Type) extends PublishCommand B H where
  timerId : String
  activateAt : DateTime

/-- `TimerPublishCommand.from_cmd`: id and activation time are arguments of their own, and a
    missing activation time is now. -/
def TimerPublishCommand.fromCmd {B H : Type} (now : ℚ) (cmd : PublishCommand B H) (timerId : String)
    (activateAt : Option DateTime) : TimerPublishCommand B H :=
  { cmd with timerId := timerId, activateAt := activateAt.getD ⟨now, true⟩ }

/-- The keyword arguments of `publish`. -/
structure PublishArgs (B H : Type) where
  message : B
  timerId : String
  activateIn : ℚ
  activateAt : Option DateTime
  correlationId : Option String
  headers : Option H

/-- `x or y` on an optional string. -/
def orElse (x : Option String) (y : String) : String :=
  match x with
  | some s => if s = "" then y else s
  | none => y

/-! ## 2. The paths -/

/-- One publish: through `TimersBroker.publish` with the broker's prefix, through
    `TimersPublisher.publish`, or through `TimersPublisher._publish` of a handler's return value.
    `now` is what the path reads from the clock, `fullTopic` the publisher's. -/
inductive Publish (B H : Type) where
  | broker (brokerPrefix topic : String) (args : PublishArgs B H) (now : ℚ)
  | publisher (fullTopic : String) (args : PublishArgs B H) (now : ℚ)
  | handlerReturn (fullTopic : String) (cmd : PublishCommand B H) (now : ℚ)

/-- What `TimerStore.schedule` was called with. -/
structure Stored where
  topic : String
  timerId : String
  payload : Bytes
  activationTs : ℚ
  deriving DecidableEq

/-- The stores, and how many ids `gen_cor_id` has returned. -/
structure PublishState where
  stores : Stores
  corIds : Nat

def PublishState.init : PublishState := ⟨.empty, 0⟩

/-- `TimerStore.schedule` on the topic of `o`. -/
def Stored.into (o : Stored) (f : Stores) : Stores :=
  Function.update f o.topic ((f o.topic).schedule o.timerId o.payload o.activationTs)

section Paths

variable {B H : Type} (genCorId : Nat → String)
  (enc : B → String → Option H → String → Except PyError Bytes)

/-- `TimersProducer.publish`. -/
def produce (cmd : TimerPublishCommand B H) (s : PublishState) :
    Except PyError Stored × PublishState :=
  match enc cmd.body cmd.replyTo cmd.headers (cmd.correlationId.getD "") with
  | .error e => (.error e, s)
  | .ok payload =>
    let o : Stored := ⟨cmd.destination, cmd.timerId, payload, cmd.activateAt.timestamp⟩
    (.ok o, { s with stores := o.into s.stores })

/-- `timer_id`, or a new id where it is empty, and the state after the call. -/
def chosenId (timerId : String) (s : PublishState) : String × PublishState :=
  if timerId = "" then (genCorId s.corIds, { s with corIds := s.corIds + 1 }) else (timerId, s)

/-- The common end of the two `publish` methods. -/
def publishTo (destination : String) (args : PublishArgs B H) (now : ℚ) (s : PublishState) :
    Except PyError Stored × PublishState :=
  let chosen := chosenId genCorId args.timerId s
  match resolveActivateAt now args.activateIn args.activateAt with
  | .error e => (.error e, chosen.2)
  | .ok activateAt =>
    produce enc ⟨⟨args.message, some (orElse args.correlationId chosen.1), destination, args.headers, ""⟩,
      chosen.1, activateAt⟩ chosen.2

/-- `_require_topic`. -/
def requireTopic (topic : String) : Except PyError Unit :=
  if topic = "" then .error (.valueError "topic must be a non-empty string") else .ok ()

def publish (s : PublishState) : Publish B H → Except PyError Stored × PublishState
  | .broker brokerPrefix topic args now => match requireTopic topic with
    | .error e => (.error e, s)
    | .ok _ => publishTo genCorId enc (brokerPrefix ++ topic) args now s
  | .publisher fullTopic args now => publishTo genCorId enc fullTopic args now s
  | .handlerReturn fullTopic cmd now =>
    produce enc { TimerPublishCommand.fromCmd now cmd "" none with destination := fullTopic } s

/-- The state after a sequence of publishes. -/
def publishAll (ps : List (Publish B H)) : PublishState :=
  replay (fun s p => (publish genCorId enc s p).2) .init ps

/-- The publish `p` after the publishes `before` returned normally, having stored `o`. -/
def Accepted (before : List (Publish B H)) (p : Publish B H) (o : Stored) : Prop :=
  (publish genCorId enc (publishAll genCorId enc before) p).1 = .ok o

end Paths

section Facts

variable {B H : Type}

/-- The id the arguments of a publish name, "" where they name none. -/
def Publish.timerId : Publish B H → String
  | .broker _ _ args _ => args.timerId
  | .publisher _ args _ => args.timerId
  | .handlerReturn .. => ""

/-- The activation time the arguments of a publish stand for. -/
def Publish.activation : Publish B H → Except PyError ℚ
  | .broker _ _ args now => (resolveActivateAt now args.activateIn args.activateAt).map DateTime.timestamp
  | .publisher _ args now => (resolveActivateAt now args.activateIn args.activateAt).map DateTime.timestamp
  | .handlerReturn _ _ now => .ok now

/-- The publish goes through `TimersPublisher._publish`. -/
def Publish.isHandlerReturn : Publish B H → Bool
  | .handlerReturn .. => true
  | _ => false

variable {genCorId : Nat → String} {enc : B → String → Option H → String → Except PyError Bytes}
variable {s : PublishState} {p : Publish B H} {o : Stored}

/-- What an accepted publish did: it stored `o`, under the id its arguments name or else a new one. -/
structure Effected (genCorId : Nat → String) (s : PublishState) (p : Publish B H) (o : Stored)
    (s' : PublishState) : Prop where
  stores : s'.stores = o.into s.stores
  activation : p.activation = .ok o.activationTs
  named : p.timerId ≠ "" → o.timerId = p.timerId ∧ s'.corIds = s.corIds
  generated : p.timerId = "" → p.isHandlerReturn = false →
    o.timerId = genCorId s.corIds ∧ s'.corIds = s.corIds + 1
  handler : p.isHandlerReturn = true → o.timerId = "" ∧ s'.corIds = s.corIds

theorem produce_ok {cmd : TimerPublishCommand B H} (h : (produce enc cmd s).1 = .ok o) :
    o.topic = cmd.destination ∧ o.timerId = cmd.timerId ∧ o.activationTs = cmd.activateAt.timestamp ∧
      (produce enc cmd s).2 = { s with stores := o.into s.stores } := by
  unfold produce at h ⊢
  cases henc : enc cmd.body cmd.replyTo cmd.headers (cmd.correlationId.getD "") with
  | error e =>
      rw [henc] at h
      cases h
  | ok payload =>
      rw [henc] at h
      cases h
      exact ⟨rfl, rfl, rfl, rfl⟩

theorem produce_error {cmd : TimerPublishCommand B H} {e : PyError}
    (h : (produce enc cmd s).1 = .error e) : (produce enc cmd s).2 = s := by
  unfold produce at h ⊢
  cases henc : enc cmd.body cmd.replyTo cmd.headers (cmd.correlationId.getD "") with
  | error e' => rfl
  | ok payload =>
      rw [henc] at h
      cases h

theorem chosenId_eq (genCorId : Nat → String) (timerId : String) (s : PublishState) :
    (chosenId genCorId timerId s).1 = (if timerId = "" then genCorId s.corIds else timerId) ∧
      (chosenId genCorId timerId s).2.stores = s.stores ∧
      (chosenId genCorId timerId s).2.corIds = (if timerId = "" then s.corIds + 1 else s.corIds) := by
  unfold chosenId
  split
  · exact ⟨rfl, rfl, rfl⟩
  · exact ⟨rfl, rfl, rfl⟩

theorem publishTo_ok {destination : String} {args : PublishArgs B H} {now : ℚ}
    (h : (publishTo genCorId enc destination args now s).1 = .ok o) :
    (publishTo genCorId enc destination args now s).2.stores = o.into s.stores ∧
      (publishTo genCorId enc destination args now s).2.corIds =
        (if args.timerId = "" then s.corIds + 1 else s.corIds) ∧
      o.timerId = (if args.timerId = "" then genCorId s.corIds else args.timerId) ∧
      (resolveActivateAt now args.activateIn args.activateAt).map DateTime.timestamp =
        .ok o.activationTs := by
  obtain ⟨hid, hst, hco⟩ := chosenId_eq genCorId args.timerId s
  unfold publishTo at h ⊢
  cases hr : resolveActivateAt now args.activateIn args.activateAt with
  | error e =>
      rw [hr] at h
      cases h
  | ok dt =>
      rw [hr] at h
      obtain ⟨_, ho, hts, hs⟩ := produce_ok h
      simp only at hs ⊢
      rw [hs]
      refine ⟨by rw [hst], hco, ho.trans hid, by rw [hts]; rfl⟩

/-- **What an accepted publish did**, whichever path it took. -/
theorem publish_ok (h : (publish genCorId enc s p).1 = .ok o) :
    Effected genCorId s p o (publish genCorId enc s p).2 := by
  cases p with
  | broker brokerPrefix topic args now =>
      simp only [publish] at h ⊢
      cases ht : requireTopic topic with
      | error e =>
          rw [ht] at h
          cases h
      | ok u =>
          rw [ht] at h
          obtain ⟨hs, hc, hid, hact⟩ := publishTo_ok h
          refine ⟨hs, hact, fun hne => ?_, fun he _ => ?_, fun hb => by cases hb⟩
          · exact ⟨hid.trans (if_neg hne), hc.trans (if_neg hne)⟩
          · exact ⟨hid.trans (if_pos he), hc.trans (if_pos he)⟩
  | publisher fullTopic args now =>
      obtain ⟨hs, hc, hid, hact⟩ := publishTo_ok h
      refine ⟨hs, hact, fun hne => ?_, fun he _ => ?_, fun hb => by cases hb⟩
      · exact ⟨hid.trans (if_neg hne), hc.trans (if_neg hne)⟩
      · exact ⟨hid.trans (if_pos he), hc.trans (if_pos he)⟩
  | handlerReturn fullTopic cmd now =>
      obtain ⟨_, hid, hts, hs⟩ := produce_ok h
      have hs' : (publish genCorId enc s (.handlerReturn fullTopic cmd now)).2 =
          { s with stores := o.into s.stores } := hs
      refine ⟨by rw [hs'], ?_, fun hne => absurd rfl hne, fun _ hb => ?_, fun _ => ?_⟩
      · rw [hts]
        rfl
      · cases hb
      · exact ⟨hid, by rw [hs']⟩

theorem publishTo_error {destination : String} {args : PublishArgs B H} {now : ℚ} {e : PyError}
    (h : (publishTo genCorId enc destination args now s).1 = .error e) :
    (publishTo genCorId enc destination args now s).2.stores = s.stores ∧
      s.corIds ≤ (publishTo genCorId enc destination args now s).2.corIds := by
  have hch : (chosenId genCorId args.timerId s).2.stores = s.stores ∧
      s.corIds ≤ (chosenId genCorId args.timerId s).2.corIds := by
    obtain ⟨_, hst, hco⟩ := chosenId_eq genCorId args.timerId s
    refine ⟨hst, ?_⟩
    rw [hco]
    split <;> omega
  unfold publishTo at h ⊢
  cases hr : resolveActivateAt now args.activateIn args.activateAt with
  | error e' => exact hch
  | ok dt =>
      rw [hr] at h
      have hsame := produce_error h
      simp only at hsame ⊢
      rw [hsame]
      exact hch

/-- A publish that raises stores nothing, and never gives an id back. -/
theorem publish_error {e : PyError} (h : (publish genCorId enc s p).1 = .error e) :
    (publish genCorId enc s p).2.stores = s.stores ∧
      s.corIds ≤ (publish genCorId enc s p).2.corIds := by
  cases p with
  | broker brokerPrefix topic args now =>
      simp only [publish] at h ⊢
      cases ht : requireTopic topic with
      | error e' => exact ⟨rfl, le_rfl⟩
      | ok u =>
          rw [ht] at h
          exact publishTo_error h
  | publisher fullTopic args now => exact publishTo_error h
  | handlerReturn fullTopic cmd now =>
      have hsame := produce_error h
      have hs' : (publish genCorId enc s (.handlerReturn fullTopic cmd now)).2 = s := hsame
      rw [hs']
      exact ⟨rfl, le_rfl⟩

end Facts

/-! ## 3. Sequences of publishes -/

section Sequences

variable {B H : Type} {genCorId : Nat → String}
variable {enc : B → String → Option H → String → Except PyError Bytes}

/-- `gen_cor_id` returns non-empty ids, never one twice and none a caller of `ps` chose. -/
structure FreshIds (genCorId : Nat → String) (ps : List (Publish B H)) : Prop where
  nonempty : ∀ n, genCorId n ≠ ""
  injective : Function.Injective genCorId
  notChosen : ∀ n, ∀ p ∈ ps, genCorId n ≠ p.timerId

/-- **The publishes of a sequence do not overwrite one another.** -/
structure NoOverwrite (genCorId : Nat → String)
    (enc : B → String → Option H → String → Except PyError Bytes) (ps : List (Publish B H)) : Prop where
  /-- A named id is the id stored. -/
  named : ∀ xs p ys o, ps = xs ++ p :: ys → Accepted genCorId enc xs p o → p.timerId ≠ "" →
    o.timerId = p.timerId
  /-- The publish is stored under its id, with the activation time of its own arguments. -/
  stored : ∀ xs p ys o, ps = xs ++ p :: ys → Accepted genCorId enc xs p o →
    p.activation = .ok o.activationTs ∧
    ((publishAll genCorId enc (xs ++ [p])).stores o.topic).cell (encode o.timerId) =
      some (o.payload, o.activationTs)
  /-- Where none is named the id stored is not empty, and differs from every other one. -/
  generated : ∀ xs p ys o, ps = xs ++ p :: ys → Accepted genCorId enc xs p o → p.timerId = "" →
    o.timerId ≠ ""
  distinct : ∀ xs p ys p' zs o o', ps = xs ++ p :: (ys ++ p' :: zs) → Accepted genCorId enc xs p o →
    Accepted genCorId enc (xs ++ p :: ys) p' o' → p.timerId = "" ∨ p'.timerId = "" →
    o.timerId ≠ o'.timerId
  /-- A payload is pending under its id, unless a later publish to its topic named that id. -/
  pending : ∀ xs p ys o, ps = xs ++ p :: ys → Accepted genCorId enc xs p o →
    (∀ us p' vs o', ys = us ++ p' :: vs → Accepted genCorId enc (xs ++ p :: us) p' o' →
      o'.topic = o.topic → p'.timerId ≠ o.timerId) →
    ((publishAll genCorId enc ps).stores o.topic).cell (encode o.timerId) =
      some (o.payload, o.activationTs)

/-- No publish that `_publish` makes of a handler's return value gets past the encoding. -/
def HandlerReturnsRejected (enc : B → String → Option H → String → Except PyError Bytes)
    (ps : List (Publish B H)) : Prop :=
  ∀ fullTopic cmd now, .handlerReturn fullTopic cmd now ∈ ps →
    ∃ e, enc cmd.body cmd.replyTo cmd.headers (cmd.correlationId.getD "") = .error e

theorem publishAll_concat (xs : List (Publish B H)) (p : Publish B H) :
    publishAll genCorId enc (xs ++ [p]) = (publish genCorId enc (publishAll genCorId enc xs) p).2 :=
  replay_concat _ _ _ _

variable {xs ys : List (Publish B H)} {p : Publish B H} {o : Stored}

/-- What an accepted publish did to the state the sequence before it left. -/
theorem Accepted.effected (h : Accepted genCorId enc xs p o) :
    Effected genCorId (publishAll genCorId enc xs) p o (publishAll genCorId enc (xs ++ [p])) := by
  rw [publishAll_concat]
  exact publish_ok h

theorem into_self (f : Stores) (o : Stored) :
    (o.into f o.topic).cell (encode o.timerId) = some (o.payload, o.activationTs) := by
  unfold Stored.into
  rw [Function.update_self]
  exact TopicStore.cell_schedule o.timerId

theorem into_ne {f : Stores} {o : Stored} {topic id : String} (h : topic = o.topic → id ≠ o.timerId) :
    (o.into f topic).cell (encode id) = (f topic).cell (encode id) := by
  unfold Stored.into
  by_cases ht : topic = o.topic
  · subst ht
    rw [Function.update_self]
    exact TopicStore.cell_schedule_ne fun he => h rfl (encode_inj.mp he)
  · rw [Function.update_of_ne ht]

/-- `gen_cor_id` is never called fewer times. -/
theorem corIds_mono (genCorId : Nat → String)
    (enc : B → String → Option H → String → Except PyError Bytes) (xs ys : List (Publish B H)) :
    (publishAll genCorId enc xs).corIds ≤ (publishAll genCorId enc (xs ++ ys)).corIds := by
  induction ys using List.reverseRecOn with
  | nil => rw [List.append_nil]
  | append_singleton ys p ih =>
      rw [← List.append_assoc]
      refine le_trans ih ?_
      cases hr : (publish genCorId enc (publishAll genCorId enc (xs ++ ys)) p).1 with
      | error e =>
          rw [publishAll_concat]
          exact (publish_error hr).2
      | ok o =>
          have hacc : Accepted genCorId enc (xs ++ ys) p o := hr
          have heff := hacc.effected
          by_cases hid : p.timerId = ""
          · cases hh : p.isHandlerReturn with
            | true => exact (heff.handler hh).2.ge
            | false =>
                have hnext := (heff.generated hid hh).2
                omega
          · exact (heff.named hid).2.ge

section Fresh

variable {ps : List (Publish B H)} (hf : FreshIds genCorId ps) (hrej : HandlerReturnsRejected enc ps)

/-- Where the handler returns are rejected, an accepted publish is none of them. -/
theorem not_handlerReturn (hrej : HandlerReturnsRejected enc ps) (hp : p ∈ ps)
    (h : Accepted genCorId enc xs p o) : p.isHandlerReturn = false := by
  cases p with
  | broker brokerPrefix topic args now => rfl
  | publisher fullTopic args now => rfl
  | handlerReturn fullTopic cmd now =>
      obtain ⟨e, he⟩ := hrej fullTopic cmd now hp
      have hok : (produce enc { TimerPublishCommand.fromCmd now cmd "" none with destination := fullTopic }
        (publishAll genCorId enc xs)).1 = .ok o := h
      unfold produce at hok
      simp only [TimerPublishCommand.fromCmd, he] at hok
      cases hok

include hf hrej in
/-- Of two accepted publishes one of which names no id, the ids differ. -/
theorem ids_distinct {p' : Publish B H} {zs : List (Publish B H)} {o' : Stored}
    (hps : ps = xs ++ p :: (ys ++ p' :: zs)) (h : Accepted genCorId enc xs p o)
    (h' : Accepted genCorId enc (xs ++ p :: ys) p' o') (hone : p.timerId = "" ∨ p'.timerId = "") :
    o.timerId ≠ o'.timerId := by
  have hp : p ∈ ps := by rw [hps]; simp
  have hp' : p' ∈ ps := by rw [hps]; simp
  have heff := h.effected
  have heff' := h'.effected
  have hn := not_handlerReturn hrej hp h
  have hn' := not_handlerReturn hrej hp' h'
  by_cases hid : p.timerId = ""
  · obtain ⟨hgen, hcount⟩ := heff.generated hid hn
    by_cases hid' : p'.timerId = ""
    · -- both generated: the second call of `gen_cor_id` came later
      obtain ⟨hgen', _⟩ := heff'.generated hid' hn'
      have hmono := corIds_mono genCorId enc (xs ++ [p]) ys
      have hassoc : xs ++ [p] ++ ys = xs ++ p :: ys := by simp
      rw [hassoc] at hmono
      rw [hgen, hgen']
      exact fun he => absurd (hf.injective he) (by omega)
    · rw [hgen, (heff'.named hid').1]
      exact hf.notChosen _ p' hp'
  · have hid' : p'.timerId = "" := hone.resolve_left hid
    rw [(heff.named hid).1, (heff'.generated hid' hn').1]
    exact (hf.notChosen _ p hp).symm

include hf hrej in
/-- What a publish stored is still there after publishes that do not name its id. -/
theorem still_stored {zs : List (Publish B H)} (hps : ps = xs ++ p :: (ys ++ zs))
    (h : Accepted genCorId enc xs p o)
    (hnot : ∀ us p' vs o', ys = us ++ p' :: vs → Accepted genCorId enc (xs ++ p :: us) p' o' →
      o'.topic = o.topic → p'.timerId ≠ o.timerId) :
    ((publishAll genCorId enc (xs ++ p :: ys)).stores o.topic).cell (encode o.timerId) =
      some (o.payload, o.activationTs) := by
  induction ys using List.reverseRecOn generalizing zs with
  | nil =>
      rw [h.effected.stores]
      exact into_self _ o
  | append_singleton ys q ih =>
      have hcut : ps = xs ++ p :: (ys ++ q :: zs) := by rw [hps]; simp
      have hbefore := ih hcut fun us p' vs o' hys => hnot us p' (vs ++ [q]) o' (by rw [hys]; simp)
      have hassoc : xs ++ p :: (ys ++ [q]) = (xs ++ p :: ys) ++ [q] := by simp
      rw [hassoc]
      cases hr : (publish genCorId enc (publishAll genCorId enc (xs ++ p :: ys)) q).1 with
      | error e =>
          rw [publishAll_concat, (publish_error hr).1]
          exact hbefore
      | ok o' =>
          have hq : Accepted genCorId enc (xs ++ p :: ys) q o' := hr
          rw [hq.effected.stores, into_ne fun htopic => ?_]
          · exact hbefore
          · by_cases hid : q.timerId = ""
            · exact ids_distinct hf hrej hcut h hq (Or.inr hid)
            · rw [(hq.effected.named hid).1]
              exact (hnot ys q [] o' rfl hq htopic.symm).symm

include hf hrej in
theorem noOverwrite_of_rejected : NoOverwrite genCorId enc ps where
  named xs p ys o _ h hid := (h.effected.named hid).1
  stored xs p ys o _ h := by
    refine ⟨h.effected.activation, ?_⟩
    rw [h.effected.stores]
    exact into_self _ o
  generated xs p ys o hps h hid := by
    have hn := not_handlerReturn hrej (by rw [hps]; simp) h
    rw [(h.effected.generated hid hn).1]
    exact hf.nonempty _
  distinct xs p ys p' zs o o' hps h h' hone := ids_distinct hf hrej hps h h' hone
  pending xs p ys o hps h hnot := by
    have hcut : ps = xs ++ p :: (ys ++ []) := by rw [hps]; simp
    have hst := still_stored hf hrej hcut h hnot
    rw [hps]
    exact hst

end Fresh

/-- **Publishes do not overwrite one another exactly if none made of a handler's return value is
    accepted.** An accepted one is stored under the id "", as every other one of its topic. -/
theorem no_overwrite_iff (genCorId : Nat → String)
    (enc : B → String → Option H → String → Except PyError Bytes) (ps : List (Publish B H))
    (hf : FreshIds genCorId ps) : NoOverwrite genCorId enc ps ↔ HandlerReturnsRejected enc ps := by
  refine ⟨fun h fullTopic cmd now hmem => ?_, fun hrej => noOverwrite_of_rejected hf hrej⟩
  obtain ⟨xs, ys, hps⟩ := List.append_of_mem hmem
  cases henc : enc cmd.body cmd.replyTo cmd.headers (cmd.correlationId.getD "") with
  | error e => exact ⟨e, rfl⟩
  | ok payload =>
      have hacc : Accepted genCorId enc xs (.handlerReturn fullTopic cmd now)
          ⟨fullTopic, "", payload, now⟩ := by
        show (produce enc { TimerPublishCommand.fromCmd now cmd "" none with destination := fullTopic }
          (publishAll genCorId enc xs)).1 = _
        unfold produce
        simp only [TimerPublishCommand.fromCmd, henc, Option.getD_none]
      exact absurd rfl (h.generated xs _ ys _ hps hacc rfl)

/-- A concrete `gen_cor_id`: the ids `x`, `xx`, and so on. -/
def sampleIds (n : Nat) : String := String.ofList (List.replicate (n + 1) 'x')

/-- An encoding that sends the body as it is. -/
def sampleEnc (body : Bytes) (_replyTo : String) (_headers : Option Unit) (_corId : String) :
    Except PyError Bytes := .ok body

theorem sampleIds_fresh {ps : List (Publish Bytes Unit)} (h : ∀ p ∈ ps, p.timerId.length = 0) :
    FreshIds sampleIds ps := by
  have hlen : ∀ n, (sampleIds n).length = n + 1 := fun n => by
    unfold sampleIds
    rw [String.length_ofList, List.length_replicate]
  refine ⟨fun n he => ?_, fun n m he => ?_, fun n p hp he => ?_⟩
  · have := hlen n
    rw [he] at this
    simp at this
  · have := congrArg String.length he
    rw [hlen, hlen] at this
    omega
  · have := h p hp
    rw [← he, hlen] at this
    omega

/-- Publishes without an id on one topic, through both methods, are stored under new ones. -/
def withoutIds : List (Publish Bytes Unit) :=
  [.broker "" "t" ⟨[1], "", 0, none, none, none⟩ 10, .publisher "t" ⟨[2], "", 0, none, none, none⟩ 10,
    .broker "" "t" ⟨[3], "", 5, none, none, none⟩ 10]

theorem no_overwrite_three : NoOverwrite sampleIds sampleEnc withoutIds ∧
    ((publishAll sampleIds sampleEnc withoutIds).stores "t").pending .bytes none =
      .ok ["x", "xx", "xxx"] :=
  ⟨(no_overwrite_iff sampleIds sampleEnc withoutIds (sampleIds_fresh (by decide))).mpr
    fun fullTopic cmd now hmem => by simp [withoutIds] at hmem, by decide +kernel⟩

/-- Two handlers return values to be published on one topic before the first is consumed. -/
def twoHandlerReturns : List (Publish Bytes Unit) :=
  [.handlerReturn "t" ⟨[1], none, "", none, ""⟩ 10, .handlerReturn "t" ⟨[2], none, "", none, ""⟩ 20]

/-- The second value replaces the first, under the id "". -/
theorem handlerReturns_overwrite : FreshIds sampleIds twoHandlerReturns ∧
    ¬ NoOverwrite sampleIds sampleEnc twoHandlerReturns ∧
    ((publishAll sampleIds sampleEnc twoHandlerReturns).stores "t").pending .bytes none = .ok [""] ∧
    ((publishAll sampleIds sampleEnc twoHandlerReturns).stores "t").cell (encode "") = some ([2], 20) := by
  refine ⟨sampleIds_fresh (by decide), fun h => ?_, by decide +kernel, by decide +kernel⟩
  have hacc : Accepted sampleIds sampleEnc []
      (.handlerReturn "t" ⟨[1], none, "", none, ""⟩ 10) ⟨"t", "", [1], 10⟩ := rfl
  exact h.generated [] _ _ _ rfl hacc rfl rfl

end Sequences

end RedisTimers
