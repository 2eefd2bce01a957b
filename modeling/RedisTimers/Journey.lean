/-
  File:      RedisTimers/Journey.lean
  Subject:   FROM A PUBLISH CALL TO THE HANDLER (broker.py, publisher/usecase.py: publish, _publish;
             response.py; publisher/producer.py; subscriber/usecase.py: _claim_and_consume;
             parser/parser.py: parse_message). What brokers and publishers are called with, whatever
             the fleet does to the timers on their way, is what handlers see.

  * `storedBy` -- what a sequence of publishes stores, the rejected ones nothing;
  * `WireFormat` -- what is relied on of the base format: it reads what it wrote, where the texts of
    that are ASCII, and it writes the correlation id;
  * `Publish.Seen` -- what a handler is to see of a publish, the ids that `StreamMessage` fills in
    included;
  * `handed_as_published` -- every delivery of every run is the last publish of its timer before the
    claim, as its caller made it.
-/
import RedisTimers.Testing

namespace RedisTimers

open Replay

/-! ## 1. What publishes store -/

section Stored

variable {B H : Type} (genCorId : Nat → String)
  (enc : B → String → Option H → String → Except PyError Bytes)

/-- The publishes of a sequence that come through, as they are stored. -/
def storedBy : PublishState → List (Publish B H) → List Stored
  | _, [] => []
  | s, p :: ps =>
    let out := publish genCorId enc s p
    out.1.toOption.toList ++ storedBy out.2 ps

variable {genCorId enc}

/-- What is stored at some place of the sequence, one publish of it stored there. -/
theorem split_storedBy {s : PublishState} {ps : List (Publish B H)} {as bs : List Stored} {o : Stored}
    (h : storedBy genCorId enc s ps = as ++ o :: bs) :
    ∃ xs p ys, ps = xs ++ p :: ys ∧ storedBy genCorId enc s xs = as ∧
      (publish genCorId enc (replay (fun s p => (publish genCorId enc s p).2) s xs) p).1 = .ok o := by
  induction ps generalizing s as with
  | nil => simp [storedBy] at h
  | cons p ps ih =>
      rw [storedBy] at h
      cases hp : (publish genCorId enc s p).1 with
      | error e =>
          simp only [hp, Except.toOption, Option.toList_none, List.nil_append] at h
          obtain ⟨xs, q, ys, rfl, hxs, hq⟩ := ih h
          refine ⟨p :: xs, q, ys, rfl, ?_, hq⟩
          simpa only [storedBy, hp, Except.toOption, Option.toList_none, List.nil_append] using hxs
      | ok o' =>
          simp only [hp, Except.toOption, Option.toList_some, List.singleton_append] at h
          cases as with
          | nil =>
              obtain ⟨rfl, _⟩ := List.cons.inj h
              exact ⟨[], p, ps, rfl, rfl, hp⟩
          | cons a as =>
              obtain ⟨rfl, hrest⟩ := List.cons.inj h
              obtain ⟨xs, q, ys, rfl, hxs, hq⟩ := ih hrest
              refine ⟨p :: xs, q, ys, rfl, ?_, hq⟩
              simp only [storedBy, hp, Except.toOption, Option.toList_some, List.singleton_append, hxs]

end Stored

/-! ## 2. What is written and read -/

section Wire

variable {B H : Type}

namespace Publish

def message : Publish B H → B
  | .broker _ _ args _ | .publisher _ args _ => args.message
  | .handlerReturn _ cmd _ => cmd.body

def replyTo : Publish B H → String
  | .broker .. | .publisher .. => ""
  | .handlerReturn _ cmd _ => cmd.replyTo

def headers : Publish B H → Option H
  | .broker _ _ args _ | .publisher _ args _ => args.headers
  | .handlerReturn _ cmd _ => cmd.headers

/-- The correlation id a publish under `timerId` writes. -/
def correlationId (timerId : String) : Publish B H → String
  | .broker _ _ args _ | .publisher _ args _ => orElse args.correlationId timerId
  | .handlerReturn _ cmd _ => cmd.correlationId.getD ""

end Publish

/-- Of one byte to the character in UTF-8. -/
def Ascii (text : String) : Prop := text.toList.all (·.toNat < 128) = true

def AsciiHeaders (headers : Headers) : Prop := ∀ h ∈ headers, Ascii h.1 ∧ Ascii h.2

instance (text : String) : Decidable (Ascii text) :=
  inferInstanceAs (Decidable (text.toList.all (·.toNat < 128) = true))

instance (headers : Headers) : Decidable (AsciiHeaders headers) :=
  inferInstanceAs (Decidable (∀ h ∈ headers, Ascii h.1 ∧ Ascii h.2))

/-- What is relied on of `TimerMessageFormat`: a payload reads as the serialized body and the headers
    it was written with, where those are ASCII: the base format writes the length of a text in
    characters and reads it in bytes. The headers are the caller's and, unless the caller has one, the
    correlation id. -/
structure WireFormat (enc : B → String → Option H → String → Except PyError Bytes)
    (parse : Bytes → Except PyError (Bytes × Headers)) (serialized : B → Bytes)
    (written : B → String → Option H → String → Headers) : Prop where
  inverse : ∀ body replyTo headers corId payload, AsciiHeaders (written body replyTo headers corId) →
    enc body replyTo headers corId = .ok payload →
    parse payload = .ok (serialized body, written body replyTo headers corId)
  correlation : ∀ body replyTo corId,
    (written body replyTo none corId).lookup "correlation_id" = some corId

/-- The headers written with a publish that is stored under `timerId`. -/
def Publish.writtenHeaders (written : B → String → Option H → String → Headers) (p : Publish B H)
    (timerId : String) : Headers :=
  written p.message p.replyTo p.headers (p.correlationId timerId)

/-- What a handler sees of a publish that came through as `o`. -/
structure Publish.Seen (serialized : B → Bytes) (written : B → String → Option H → String → Headers)
    (p : Publish B H) (o : Stored) (r : Receipt) : Prop where
  fullTopic : r.fullTopic = o.topic
  body : r.body = serialized p.message
  headers : r.headers = p.writtenHeaders written o.timerId
  /-- The id it is stored under; the correlation id for a timer stored under the empty id. -/
  messageId : r.messageId = if o.timerId = "" then r.correlationId else o.timerId
  /-- The one of the headers, or else the id of the timer; where that is empty, a new one. -/
  correlationId : ∀ c, ((p.writtenHeaders written o.timerId).lookup "correlation_id").getD o.timerId = c →
    if c = "" then r.correlationId ≠ "" else r.correlationId = c
  /-- Without headers of the caller's own that is the caller's, or else the id of the timer. -/
  callers : p.headers = none → p.correlationId o.timerId ≠ "" →
    r.correlationId = p.correlationId o.timerId

variable {genCorId : Nat → String} {enc : B → String → Option H → String → Except PyError Bytes}
  {parse : Bytes → Except PyError (Bytes × Headers)} {ids : KeptIds} {serialized : B → Bytes}
  {written : B → String → Option H → String → Headers} {s : PublishState} {p : Publish B H} {o : Stored}

theorem produce_payload {cmd : TimerPublishCommand B H} (h : (produce enc cmd s).1 = .ok o) :
    enc cmd.body cmd.replyTo cmd.headers (cmd.correlationId.getD "") = .ok o.payload := by
  unfold produce at h
  cases henc : enc cmd.body cmd.replyTo cmd.headers (cmd.correlationId.getD "") with
  | error e =>
      rw [henc] at h
      cases h
  | ok payload =>
      rw [henc] at h
      cases h
      rfl

/-- The two `publish` methods write what their caller gave, under the id they store. -/
theorem publishTo_payload {destination : String} {args : PublishArgs B H} {now : ℚ}
    (h : (publishTo genCorId enc destination args now s).1 = .ok o) :
    enc args.message "" args.headers (orElse args.correlationId o.timerId) = .ok o.payload := by
  unfold publishTo at h
  cases hr : resolveActivateAt now args.activateIn args.activateAt with
  | error e =>
      rw [hr] at h
      cases h
  | ok dt =>
      rw [hr] at h
      have hid := (produce_ok h).2.1
      have hpay := produce_payload h
      simp only at hid
      rw [hid]
      exact hpay

/-- What a publish that came through has stored is what its caller gave, encoded. -/
theorem publish_payload (h : (publish genCorId enc s p).1 = .ok o) :
    enc p.message p.replyTo p.headers (p.correlationId o.timerId) = .ok o.payload := by
  cases p with
  | broker brokerPrefix topic args now =>
      simp only [publish] at h
      cases ht : requireTopic topic with
      | error e =>
          rw [ht] at h
          cases h
      | ok u =>
          rw [ht] at h
          exact publishTo_payload h
  | publisher fullTopic args now => exact publishTo_payload h
  | handlerReturn fullTopic cmd now => exact produce_payload h

/-- A message with the body and headers of a publish is seen as that publish. -/
theorem seen_read (hw : WireFormat enc parse serialized written) (hi : StreamIds ids) :
    p.Seen serialized written o
      (o.message.read ids (serialized p.message) (p.writtenHeaders written o.timerId) none).receipt := by
  let headers := p.writtenHeaders written o.timerId
  have hcorrelation : ∀ c, o.message.correlation headers = c → c ≠ "" →
      (ids o.message o.timerId (o.message.correlation headers)).2 = c := fun c hc hne => by
    rw [hc]
    exact hi.correlation _ _ _ hne
  refine ⟨rfl, rfl, rfl, ?_, fun c hc => ?_, fun hh hne => ?_⟩
  · show (ids o.message o.timerId (o.message.correlation headers)).1 =
      if o.timerId = "" then (ids o.message o.timerId (o.message.correlation headers)).2 else o.timerId
    split
    · rename_i hempty
      rw [hempty]
      exact hi.defaulted _ _
    · rename_i hnamed
      exact hi.message _ _ _ hnamed
  · split
    · rename_i hempty
      show (ids o.message o.timerId (o.message.correlation headers)).2 ≠ ""
      have hnone : o.message.correlation headers = "" := hc.trans hempty
      rw [hnone]
      exact hi.drawn _ _
    · rename_i hne
      exact hcorrelation c hc hne
  · refine hcorrelation _ ?_ hne
    show ((written p.message p.replyTo p.headers (p.correlationId o.timerId)).lookup
      "correlation_id").getD o.timerId = _
    rw [hh, hw.correlation, Option.getD_some]

/-- **What a handler is handed of a stored payload is what the publish was made with.** -/
theorem handed_stored (hw : WireFormat enc parse serialized written) (hi : StreamIds ids)
    (h : (publish genCorId enc s p).1 = .ok o)
    (hascii : AsciiHeaders (p.writtenHeaders written o.timerId)) :
    ∃ r, handed parse ids o.message = some r ∧ p.Seen serialized written o r := by
  refine ⟨_, ?_, seen_read hw hi⟩
  unfold handed
  rw [process_eq]
  show ((Except.map _ (parse o.payload)).map _).toOption = _
  rw [hw.inverse _ _ _ _ _ hascii (publish_payload h)]
  rfl

end Wire

/-! ## 3. Every run -/

/-- **EVERY HANDLER SEES WHAT WAS PUBLISHED.** In a run of the fleet whose publishes are those of a
    sequence of calls, on any paths and rejected ones included, every delivery is of a publish of the
    sequence: the last one of its timer before the claim, and not taken out in between. If the headers
    written with that publish are ASCII, the handler is handed its body and headers, and its id, where
    it is stored under one; and the correlation id is the caller's, or else the id of the timer, unless
    the caller wrote headers of its own. -/
theorem handed_as_published {B H : Type} (genCorId : Nat → String)
    (enc : B → String → Option H → String → Except PyError Bytes)
    (parse : Bytes → Except PyError (Bytes × Headers)) (ids : KeptIds) (serialized : B → Bytes)
    (written : B → String → Option H → String → Headers)
    (hw : WireFormat enc parse serialized written) (hi : StreamIds ids) (ps : List (Publish B H))
    (as : List Action) (has : as.filterMap Action.stored = storedBy genCorId enc .init ps) :
    ∀ d ∈ (Fleet.run as).delivered, ∃ xs p ys o us e zs, ps = xs ++ p :: ys ∧
      Accepted genCorId enc xs p o ∧ o.topic = d.topic ∧ o.timerId = d.timerId ∧
      -- it is the publish at this place of the log, and the last one of its timer before the claim
      (Fleet.run as).log.take d.claimAt = us ++ e :: zs ∧ e.stored = some o ∧
      storedBy genCorId enc .init xs = us.filterMap Entry.stored ∧
      NotScheduled d.topic d.timerId zs ∧ NotRemoved d.topic d.timerId zs ∧
      -- and this is what the handler is called with
      (AsciiHeaders (p.writtenHeaders written d.timerId) →
        ∃ r, handed parse ids ⟨d.topic, d.timerId, d.payload⟩ = some r ∧
          p.Seen serialized written o r) := by
  intro d hd
  obtain ⟨us, e, zs, c, rest, ts, now, ttl, hlog, hlen, _, he, _, hs, hr⟩ :=
    (Fleet.inv_run as).source (Fleet.executed_run as).1 hd
  have hstored : e.stored = some ⟨d.topic, d.timerId, d.payload, ts⟩ := Entry.stored_eq_some.mpr he
  have hall : storedBy genCorId enc .init ps = us.filterMap Entry.stored ++
      ⟨d.topic, d.timerId, d.payload, ts⟩ :: (zs ++ c :: rest).filterMap Entry.stored := by
    rw [← has, ← stored_run, hlog, List.append_assoc, List.filterMap_append, List.cons_append,
      List.filterMap_cons, hstored]
  obtain ⟨xs, p, ys, hps, hxs, hp⟩ := split_storedBy hall
  refine ⟨xs, p, ys, _, us, e, zs, hps, hp, rfl, rfl, ?_, hstored, hxs, hs, hr,
    handed_stored hw hi hp⟩
  rw [hlog, ← hlen, List.take_left]

theorem framed_wireFormat : WireFormat framedEnc framedParse (fun body => body)
    fun _ _ _ corId => [("correlation_id", corId)] where
  inverse body replyTo headers corId payload _ h := by
    unfold framedEnc at h
    split at h
    · rename_i hlen
      cases h
      have hn : (UInt8.ofNat (encode corId).length).toNat = (encode corId).length :=
        UInt8.toNat_ofNat_of_lt hlen
      simp only [framedParse, hn, List.take_left, List.drop_left, decode_encode]
    · cases h
  correlation _ _ _ := rfl

/-- A publish on each path: without an id, with an id and a correlation id, and a handler's return. -/
def threePublishes : List (Publish Bytes Unit) :=
  [.broker "" "t" ⟨[1], "", 0, none, none, none⟩ 10, .publisher "t" ⟨[2], "b", 0, none, some "c", none⟩ 10,
    .handlerReturn "u" ⟨[3], some "d", "", none, ""⟩ 10]

/-- They are stored, and two workers compete for those of one topic. -/
def threeJourneys : List Action :=
  [.publish "t" "x" [1, 120, 1] 10, .publish "t" "b" [1, 99, 2] 10, .publish "u" "" [1, 100, 3] 10,
    .fetch "t" .bytes 10 2 30, .fetch "t" .bytes 10 2 30, .fetch "u" .bytes 10 1 30,
    .sendClaim 0 10, .sendClaim 1 10, .sendClaim 2 10, .sendClaim 3 10, .sendClaim 4 10,
    .executeClaim 2, .executeClaim 1, .executeClaim 0, .executeClaim 3, .executeClaim 4,
    .claimReply 2 6, .claimReply 1 7, .claimReply 0 8, .claimReply 3 9, .claimReply 4 10]

theorem handed_as_published_three : (Fleet.run threeJourneys).delivered.length = 3 ∧
    ∀ d ∈ (Fleet.run threeJourneys).delivered, ∃ p ∈ threePublishes, ∃ o r,
      handed framedParse fillIds ⟨d.topic, d.timerId, d.payload⟩ = some r ∧
        p.Seen (fun body => body) (fun _ _ _ corId => [("correlation_id", corId)]) o r := by
  refine ⟨by decide +kernel, fun d hd => ?_⟩
  obtain ⟨xs, p, ys, o, _, _, _, hps, _, _, _, _, _, _, _, _, hseen⟩ :=
    handed_as_published sampleIds framedEnc framedParse fillIds (fun body => body)
      (fun _ _ _ corId => [("correlation_id", corId)]) framed_wireFormat fillIds_streamIds threePublishes
      threeJourneys (by decide +kernel) d hd
  have hmem : p ∈ threePublishes := by rw [hps]; simp
  have hids : ∀ d ∈ (Fleet.run threeJourneys).delivered, d.timerId ∈ ["x", "b", ""] := by decide +kernel
  have hascii : ∀ p ∈ threePublishes, ∀ id ∈ ["x", "b", ""],
      AsciiHeaders (p.writtenHeaders (fun _ _ _ corId => [("correlation_id", corId)]) id) := by
    decide +kernel
  obtain ⟨r, hhanded, hr⟩ := hseen (hascii p hmem d.timerId (hids d hd))
  exact ⟨p, hmem, o, r, hhanded, hr⟩

end RedisTimers
