/-
  File:      RedisTimers/Listing.lean
  Subject:   POLLING AND INSPECTION ON A TIMELINE THAT HOLDS ANYTHING (store.py: due, pending;
             broker.py: get_pending_timers; publisher/usecase.py: fetch_redis_timers).

  Another client of the Redis server may leave any bytes under the timeline key. `due` removes
  what it cannot decode and goes on; `pending` decodes the same members with no such path.

  * `getPendingTimers`, `fetchRedisTimers` -- the two calls over `pending`;
  * `due_bytes`, `pending_bytes` -- what the readers make of any members;
  * `Listed` -- the readers list what polling finds;
  * `listed_iff` -- they do exactly where every member is a text.
-/
import RedisTimers.Log

namespace RedisTimers

/-! ## 1. The calls -/

/-- `TimersBroker.get_pending_timers`, with the broker's prefix and `before` as a timestamp. -/
def getPendingTimers (mode : ClientMode) (pathPrefix : String) (f : Stores) (topic : String)
    (before : Option ℚ) : Except PyError (List String) :=
  if topic = "" then .error (.valueError "topic must be a non-empty string")
  else (f (pathPrefix ++ topic)).pending mode before

/-- `TimersPublisher.fetch_redis_timers`, with its `dt` as a timestamp. -/
def fetchRedisTimers (mode : ClientMode) (pathPrefix : String) (f : Stores) (topic : String) (dt : ℚ) :
    Except PyError (List (String × String)) := do
  let timerIds ← (f (pathPrefix ++ topic)).pending mode (some dt)
  return timerIds.map fun timerId => (topic, timerId)

namespace TopicStore

/-! ## 2. What the readers make of any members -/

/-- The texts among some members, in their order. -/
def readable (ms : List Bytes) : List String := ms.filterMap decode

/-- All of them are texts. -/
def AllReadable (ms : List Bytes) : Prop := ∀ m ∈ ms, (decode m).isSome

/-- The loop of `due` returns the texts and passes over the rest. -/
theorem collect_bytes (k : TopicStore) (ms : List Bytes) :
    (k.collect (ms.map .bytes)).1 = readable ms := by
  induction ms generalizing k with
  | nil => rfl
  | cons m ms ih =>
      rw [List.map_cons]
      unfold collect readable
      cases hd : decode m with
      | some s => rw [List.filterMap_cons_some hd, ← readable, ← ih k]
      | none => rw [List.filterMap_cons_none hd, ← readable, ← ih (k.commitLua m)]

/-- **`due` returns the texts within its bound**, under a limit that holds them all. -/
theorem due_bytes (k : TopicStore) {now : ℚ} {limit : Int}
    (hlimit : ((Ranked.upTo k.timeline (some now)).length : Int) ≤ limit) :
    (k.due .bytes now limit).1 = .ok (readable (Ranked.upTo k.timeline (some now))) := by
  have hall : zrangebyscore k.timeline (some now) (some limit) = Ranked.upTo k.timeline (some now) := by
    unfold zrangebyscore
    have hneg : ¬ limit < 0 := by omega
    simp only [if_neg hneg]
    exact List.take_of_length_le (by omega)
  unfold due
  rw [hall]
  simp only [ClientMode.reply, collect_bytes]

/-- Decoding one after the other succeeds exactly on texts, and then returns them. -/
theorem mapM_decodeRaw_bytes (ms : List Bytes) (ids : List String) :
    (ms.map RawId.bytes).mapM decodeRaw = .ok ids ↔ AllReadable ms ∧ readable ms = ids := by
  induction ms generalizing ids with
  | nil =>
      simp only [List.map_nil, List.mapM_nil, AllReadable, readable, List.filterMap_nil]
      simp [pure, Except.pure]
  | cons m ms ih =>
      rw [List.map_cons, List.mapM_cons]
      cases hd : decode m with
      | none =>
          have hraise : decodeRaw (.bytes m) = .error .unicodeDecodeError := by
            simp only [decodeRaw, hd]
          have hnot : ¬ AllReadable (m :: ms) := fun h => by
            have hm := h m List.mem_cons_self
            rw [hd] at hm
            cases hm
          rw [hraise]
          exact iff_of_false (fun h => by cases h) fun h => hnot h.1
      | some s =>
          have hok : decodeRaw (.bytes m) = .ok s := by simp only [decodeRaw, hd]
          have hall : AllReadable (m :: ms) ↔ AllReadable ms := by simp [AllReadable, hd]
          have hread : readable (m :: ms) = s :: readable ms := List.filterMap_cons_some hd
          rw [hok, hall, hread]
          cases hrest : (ms.map RawId.bytes).mapM decodeRaw with
          | error e =>
              have hno : ¬ AllReadable ms := fun h => by
                have := (ih (readable ms)).mpr ⟨h, rfl⟩
                rw [hrest] at this
                cases this
              exact iff_of_false (fun h => by cases h) fun h => hno h.1
          | ok rest =>
              obtain ⟨hms, hids⟩ := (ih rest).mp hrest
              rw [hids]
              show Except.ok (s :: rest) = Except.ok ids ↔ _
              rw [Except.ok.injEq]
              exact ⟨fun h => ⟨hms, h⟩, fun h => h.2⟩

/-- **`pending` returns exactly where every member within its bound is a text.** -/
theorem pending_bytes (k : TopicStore) (before : Option ℚ) (ids : List String) :
    k.pending .bytes before = .ok ids ↔ AllReadable (Ranked.upTo k.timeline before) ∧
      readable (Ranked.upTo k.timeline before) = ids :=
  mapM_decodeRaw_bytes _ _

/-- Where the whole timeline is texts, so is every part of it. -/
theorem allReadable_upTo {k : TopicStore} (h : ∀ m ∈ k.timeline, (decode m).isSome)
    (before : Option ℚ) : AllReadable (Ranked.upTo k.timeline before) := fun m hm => by
  obtain ⟨s, hs, _⟩ := Ranked.mem_upTo.mp hm
  exact h m (AList.lookup_isSome.mp (by rw [hs]; rfl))

/-- `pending()` reads the whole timeline. -/
theorem readable_of_pending {k : TopicStore} {ids : List String} (h : k.pending .bytes none = .ok ids) :
    ∀ m ∈ k.timeline, (decode m).isSome := fun m hm => by
  obtain ⟨s, hs⟩ := Option.isSome_iff_exists.mp (AList.lookup_isSome.mpr hm)
  exact ((k.pending_bytes none ids).mp h).1 m (Ranked.mem_upTo.mpr ⟨s, hs, rfl⟩)

end TopicStore

/-! ## 3. Agreement -/

/-- The readers of a topic list what polling finds at `now`: they return, `pending(before=now)` the
    ids that `due` returns under any limit large enough, the decodable ones in their order. -/
structure Listed (pathPrefix : String) (f : Stores) (topic : String) (now : ℚ) : Prop where
  due : ∃ ids, (f (pathPrefix ++ topic)).pending .bytes (some now) = .ok ids ∧
    ids = TopicStore.readable (Ranked.upTo (f (pathPrefix ++ topic)).timeline (some now)) ∧
    ∀ limit : Int, ((Ranked.upTo (f (pathPrefix ++ topic)).timeline (some now)).length : Int) ≤ limit →
      ((f (pathPrefix ++ topic)).due .bytes now limit).1 = .ok ids
  all : ∃ ids, (f (pathPrefix ++ topic)).pending .bytes none = .ok ids
  getPending : ∀ before, ∃ ids, getPendingTimers .bytes pathPrefix f topic before = .ok ids
  fetch : ∃ ids, fetchRedisTimers .bytes pathPrefix f topic now = .ok ids

/-- **POLLING AND INSPECTION AGREE on a topic exactly where every member of its timeline is the
    UTF-8 encoding of a text.** -/
theorem listed_iff {pathPrefix : String} {f : Stores} {topic : String} (htopic : topic ≠ "") (now : ℚ) :
    Listed pathPrefix f topic now ↔
      ∀ m ∈ (f (pathPrefix ++ topic)).timeline, (decode m).isSome := by
  constructor
  · intro h
    obtain ⟨ids, hids⟩ := h.all
    exact TopicStore.readable_of_pending hids
  · intro h
    have hpending : ∀ before, (f (pathPrefix ++ topic)).pending .bytes before =
        .ok (TopicStore.readable (Ranked.upTo (f (pathPrefix ++ topic)).timeline before)) :=
      fun before => (TopicStore.pending_bytes _ _ _).mpr ⟨TopicStore.allReadable_upTo h before, rfl⟩
    refine ⟨⟨_, hpending _, rfl, fun limit hlimit => TopicStore.due_bytes _ hlimit⟩,
      ⟨_, hpending none⟩, fun before => ?_, ?_⟩
    · unfold getPendingTimers
      rw [if_neg htopic]
      exact ⟨_, hpending before⟩
    · unfold fetchRedisTimers
      rw [hpending (some now)]
      exact ⟨_, rfl⟩

/-- Two timers on a topic, one of them due at 0. -/
def twoTimers : TopicStore := (TopicStore.empty.schedule "a" [1] 0).schedule "é" [2] 5

theorem listed_two : ("t" : String) ≠ "" ∧ Listed "" (fun _ => twoTimers) "t" 0 := by
  refine ⟨by decide, (listed_iff (by decide) 0).mpr fun m hm => ?_⟩
  have hmem : m ∈ ((TopicStore.empty.schedule "a" [1] 0).schedule "é" [2] 5).timeline := hm
  rcases (AList.mem_insert _).mp hmem with rfl | hmem
  · rw [decode_encode]
    rfl
  · rcases (AList.mem_insert _).mp hmem with rfl | hempty
    · rw [decode_encode]
      rfl
    · exact absurd hempty (AList.notMem_empty m)

/-- A member that is no text, due long after `now`: polling never meets it, `pending()` raises. -/
def strayMember : TopicStore :=
  ⟨(TopicStore.empty.schedule "a" [1] 0).timeline.insert [0xff] 5, ∅⟩

theorem stray_member_blocks : (strayMember.due .bytes 0 1).1 = .ok ["a"] ∧
    strayMember.pending .bytes none = .error .unicodeDecodeError ∧
    ¬ Listed "" (fun _ => strayMember) "t" 0 := by
  have hraise : strayMember.pending .bytes none = .error .unicodeDecodeError := by decide +kernel
  refine ⟨by decide +kernel, hraise, fun h => ?_⟩
  obtain ⟨ids, hids⟩ := h.all
  have hok : strayMember.pending .bytes none = .ok ids := hids
  rw [hraise] at hok
  cases hok

end RedisTimers
