/-
  File:      RedisTimers/Store.lean
  Subject:   THE OPERATIONS OF `TimerStore` ON THE TWO KEYS OF ONE TOPIC (store.py): the claim and
             commit scripts, schedule, due, claim, remove, pending, is_pending, cancel_all.

  * `TopicStore` -- the sorted set and the hash of a topic; each operation as store.py has it;
  * `Agree` -- the two keys hold the same ids, all of them texts; every operation keeps it;
  * `cell` -- what the two keys say about one id, as a leased cell (`Lease.Cell`); every operation
    is an act on that cell (`cell_schedule`, `cell_claimLua`, `cell_commitLua`);
  * `due_eq`, `pending_eq` -- on agreeing keys the readers decode every id and change nothing.
-/
import RedisTimers.Library.Lease
import RedisTimers.Redis

namespace RedisTimers

/-- What the two keys of a topic hold: scores by id, payloads by id. -/
structure TopicStore where
  timeline : ZSet
  payloads : Hash
  deriving DecidableEq

namespace TopicStore

/-- Both keys missing. -/
def empty : TopicStore := ⟨∅, ∅⟩

/-! ## 1. The scripts -/

/-- The branches of `_CLAIM_LUA`. -/
inductive ClaimBranch where
  | notDue
  | orphan
  | leased (payload : Bytes)
  deriving DecidableEq

/-- The branch `_CLAIM_LUA` takes for ARGV[1] = `member` and ARGV[2] = `now`. -/
def claimBranch (k : TopicStore) (member : Bytes) (now : ℚ) : ClaimBranch :=
  match k.timeline.lookup member with
  | none => .notDue
  | some score =>
    if score > now then .notDue
    else match k.payloads.lookup member with
      | none => .orphan
      | some payload => .leased payload

/-- `_CLAIM_LUA`: its reply, and what it leaves under the two keys. -/
def claimLua (k : TopicStore) (member : Bytes) (now claimScore : ℚ) : Option Bytes × TopicStore :=
  match k.claimBranch member now with
  | .notDue => (none, k)
  | .orphan => (none, { k with timeline := k.timeline.erase member })
  | .leased payload => (some payload, { k with timeline := k.timeline.insert member claimScore })

/-- `_COMMIT_LUA`: ZREM and HDEL, whatever is there. -/
def commitLua (k : TopicStore) (member : Bytes) : TopicStore :=
  ⟨k.timeline.erase member, k.payloads.erase member⟩

/-! ## 2. The operations -/

/-- `TimerStore.schedule`: ZADD and HSET in one transaction. -/
def schedule (k : TopicStore) (timerId : String) (payload : Bytes) (activationTs : ℚ) : TopicStore :=
  ⟨k.timeline.insert (encode timerId) activationTs, k.payloads.insert (encode timerId) payload⟩

/-- `TimerStore.claim`: the claim script with `now + lease_ttl` as the new score. -/
def claim (k : TopicStore) (timerId : String) (now leaseTtl : ℚ) : Option Bytes × TopicStore :=
  k.claimLua (encode timerId) now (now + leaseTtl)

/-- `TimerStore.remove`. -/
def remove (k : TopicStore) (timerId : String) : TopicStore := k.commitLua (encode timerId)

/-- The loop of `TimerStore.due`: decodable ids are returned, the others removed. -/
def collect (k : TopicStore) : List RawId → List String × TopicStore
  | [] => ([], k)
  | .bytes b :: rest => match decode b with
    | some s => (s :: (k.collect rest).1, (k.collect rest).2)
    | none => (k.commitLua b).collect rest
  | .str s :: rest => (s :: (k.collect rest).1, (k.collect rest).2)

/-- `TimerStore.due`. -/
def due (mode : ClientMode) (k : TopicStore) (now : ℚ) (limit : Int) :
    Except PyError (List String) × TopicStore :=
  match mode.reply (zrangebyscore k.timeline (some now) (some limit)) with
  | .ok rawIds => (.ok (k.collect rawIds).1, (k.collect rawIds).2)
  | .error e => (.error e, k)

/-- `r.decode() if isinstance(r, bytes) else r`. -/
def decodeRaw : RawId → Except PyError String
  | .bytes b => match decode b with
    | some s => .ok s
    | none => .error .unicodeDecodeError
  | .str s => .ok s

/-- `TimerStore.pending`. -/
def pending (mode : ClientMode) (k : TopicStore) (before : Option ℚ) : Except PyError (List String) := do
  let rawIds ← mode.reply (zrangebyscore k.timeline before none)
  rawIds.mapM decodeRaw

/-- `TimerStore.is_pending`. -/
def isPending (k : TopicStore) (timerId : String) : Bool := (k.timeline.lookup (encode timerId)).isSome

/-- `TimerStore.cancel_all`: the ZCARD reply, and both keys gone. -/
def cancelAll (k : TopicStore) : Nat × TopicStore := (k.timeline.entries.length, empty)

/-! ## 3. What one id sees: the leased cell -/

open Lease

/-- The payload and the score of an id, where both keys have it. -/
def cell (k : TopicStore) (member : Bytes) : Cell Bytes ℚ :=
  match k.timeline.lookup member, k.payloads.lookup member with
  | some score, some payload => some (payload, score)
  | _, _ => none

/-- The two keys of a topic hold the same ids, and every id is the encoding of a text. -/
structure Agree (k : TopicStore) : Prop where
  keys : ∀ m, m ∈ k.timeline ↔ m ∈ k.payloads
  utf8 : ∀ m, m ∈ k.timeline → ∃ s, encode s = m

theorem agree_empty : empty.Agree :=
  ⟨fun _ => Iff.rfl, fun m h => absurd h (AList.notMem_empty m)⟩

section Cells

variable {k : TopicStore} {m n p : Bytes} {now u s : ℚ}

theorem Agree.lookup_isSome (h : k.Agree) (m : Bytes) :
    (k.timeline.lookup m).isSome ↔ (k.payloads.lookup m).isSome := by
  rw [AList.lookup_isSome, AList.lookup_isSome]
  exact h.keys m

/-- On agreeing keys the timeline alone tells whether the cell is full. -/
theorem Agree.cell_eq_none (h : k.Agree) : k.cell m = none ↔ k.timeline.lookup m = none := by
  have hs := h.lookup_isSome m
  unfold cell
  cases ht : k.timeline.lookup m <;> cases hp : k.payloads.lookup m <;> simp_all

theorem Agree.timeline_lookup (h : k.Agree) (m : Bytes) :
    k.timeline.lookup m = (k.cell m).map Prod.snd := by
  have hs := h.lookup_isSome m
  unfold cell
  cases ht : k.timeline.lookup m <;> cases hp : k.payloads.lookup m <;> simp_all

theorem Agree.payloads_lookup (h : k.Agree) (m : Bytes) :
    k.payloads.lookup m = (k.cell m).map Prod.fst := by
  have hs := h.lookup_isSome m
  unfold cell
  cases ht : k.timeline.lookup m <;> cases hp : k.payloads.lookup m <;> simp_all

/-- On agreeing keys the claim script never finds a score without a payload. -/
theorem Agree.claimBranch_ne_orphan (h : k.Agree) : k.claimBranch m now ≠ .orphan := by
  have hs := h.lookup_isSome m
  unfold claimBranch
  cases ht : k.timeline.lookup m with
  | none => simp
  | some score =>
      rw [ht] at hs
      obtain ⟨p, hp⟩ := Option.isSome_iff_exists.mp (hs.mp rfl)
      rw [hp]
      simp only
      split <;> simp

/-- **The claim script is a claim on the cell of its id**: reply and effect. -/
theorem cell_claimLua (h : k.Agree) :
    (k.claimLua m now u).1 = grant (k.cell m) now ∧
      (k.claimLua m now u).2.cell m = (Act.claim now u).apply (k.cell m) := by
  have hs := h.lookup_isSome m
  unfold claimLua claimBranch cell
  cases ht : k.timeline.lookup m with
  | none => simp [ht]
  | some score =>
      rw [ht] at hs
      obtain ⟨p, hp⟩ := Option.isSome_iff_exists.mp (hs.mp rfl)
      simp only [hp, grant_some, apply_claim_some]
      by_cases hle : score ≤ now
      · simp [not_lt.mpr hle, hle, hp, AList.lookup_insert]
      · simp [not_le.mp hle, hle, ht, hp]

/-- A claim of one id leaves the cells of the others. -/
theorem cell_claimLua_ne (hne : n ≠ m) : (k.claimLua m now u).2.cell n = k.cell n := by
  unfold claimLua cell
  cases k.claimBranch m now with
  | notDue => rfl
  | orphan => simp [AList.lookup_erase_ne hne]
  | leased p => simp [AList.lookup_insert_ne hne]

@[simp] theorem cell_commitLua : (k.commitLua m).cell m = none := by
  simp [cell, commitLua, AList.lookup_erase]

theorem cell_commitLua_ne (hne : n ≠ m) : (k.commitLua m).cell n = k.cell n := by
  simp [cell, commitLua, AList.lookup_erase_ne hne]

@[simp] theorem cell_schedule (id : String) : (k.schedule id p s).cell (encode id) = some (p, s) := by
  simp [cell, schedule, AList.lookup_insert]

theorem cell_schedule_ne {id : String} (hne : n ≠ encode id) : (k.schedule id p s).cell n = k.cell n := by
  simp [cell, schedule, AList.lookup_insert_ne hne]

/-! ## 4. Every operation keeps the keys together -/

theorem agree_schedule (h : k.Agree) (id : String) : (k.schedule id p s).Agree where
  keys n := by
    simp only [schedule, AList.mem_insert, h.keys]
  utf8 n hn := by
    rcases (AList.mem_insert _).mp hn with rfl | hn
    · exact ⟨id, rfl⟩
    · exact h.utf8 n hn

theorem agree_claimLua (h : k.Agree) : (k.claimLua m now u).2.Agree := by
  have hb : k.claimBranch m now ≠ .orphan := h.claimBranch_ne_orphan
  unfold claimLua
  cases hc : k.claimBranch m now with
  | notDue => exact h
  | orphan => exact absurd hc hb
  | leased p =>
      -- a leased member was in the timeline already
      have hmem : m ∈ k.timeline := by
        unfold claimBranch at hc
        cases ht : k.timeline.lookup m with
        | none => rw [ht] at hc; cases hc
        | some score => exact AList.lookup_isSome.mp (by rw [ht]; rfl)
      refine ⟨fun n => ?_, fun n hn => ?_⟩
      · rw [AList.mem_insert, ← h.keys]
        exact ⟨fun hn => hn.elim (fun e => e ▸ hmem) id, Or.inr⟩
      · rcases (AList.mem_insert _).mp hn with rfl | hn
        · exact h.utf8 _ hmem
        · exact h.utf8 n hn

theorem agree_commitLua (h : k.Agree) : (k.commitLua m).Agree where
  keys n := by
    simp only [commitLua, AList.mem_erase, h.keys]
  utf8 n hn := h.utf8 n (AList.mem_erase.mp hn).2

end Cells

/-! ## 5. The readers on agreeing keys -/

/-- The raw id a client returns for a text. -/
def rawOf : ClientMode → String → RawId
  | .bytes, s => .bytes (encode s)
  | .str, s => .str s

theorem mapM_decode_encode (ids : List String) : (ids.map encode).mapM decode = some ids := by
  induction ids with
  | nil => rfl
  | cons s ids ih => simp [List.mapM_cons, ih]

theorem reply_encode (mode : ClientMode) (ids : List String) :
    mode.reply (ids.map encode) = .ok (ids.map (rawOf mode)) := by
  cases mode with
  | bytes =>
      simp only [ClientMode.reply, List.map_map]
      rfl
  | str =>
      simp only [ClientMode.reply, mapM_decode_encode]
      rfl

@[simp] theorem decodeRaw_rawOf (mode : ClientMode) (s : String) : decodeRaw (rawOf mode s) = .ok s := by
  cases mode <;> simp [rawOf, decodeRaw]

theorem mapM_decodeRaw (mode : ClientMode) (ids : List String) :
    (ids.map (rawOf mode)).mapM decodeRaw = .ok ids := by
  induction ids with
  | nil => rfl
  | cons s ids ih =>
      rw [List.map_cons, List.mapM_cons, decodeRaw_rawOf, ih]
      rfl

theorem collect_rawOf (k : TopicStore) (mode : ClientMode) (ids : List String) :
    k.collect (ids.map (rawOf mode)) = (ids, k) := by
  induction ids with
  | nil => rfl
  | cons s ids ih => cases mode <;> simp_all [collect, rawOf]

/-- The texts of a list of members that all are texts. -/
theorem exists_texts {ms : List Bytes} (h : ∀ m ∈ ms, ∃ s, encode s = m) :
    ∃ ids : List String, ms = ids.map encode := by
  induction ms with
  | nil => exact ⟨[], rfl⟩
  | cons m ms ih =>
      obtain ⟨s, rfl⟩ := h m List.mem_cons_self
      obtain ⟨ids, rfl⟩ := ih fun n hn => h n (List.mem_cons_of_mem _ hn)
      exact ⟨s :: ids, rfl⟩

theorem Agree.texts {k : TopicStore} (h : k.Agree) (max : Option ℚ) (num : Option Int) :
    ∃ ids : List String, zrangebyscore k.timeline max num = ids.map encode :=
  exists_texts fun m hm => by
    obtain ⟨s, hs, _⟩ := Ranked.mem_upTo.mp (zrangebyscore_subset hm)
    exact h.utf8 m (AList.lookup_isSome.mp (by rw [hs]; rfl))

/-- **On agreeing keys `pending` returns the ids of its range**, in either client mode. -/
theorem Agree.pending_eq {k : TopicStore} (h : k.Agree) (mode : ClientMode) (before : Option ℚ) :
    ∃ ids, pending mode k before = .ok ids ∧ ids.map encode = Ranked.upTo k.timeline before := by
  obtain ⟨ids, hids⟩ := h.texts before none
  refine ⟨ids, ?_, hids.symm⟩
  unfold pending
  rw [hids, reply_encode]
  exact mapM_decodeRaw mode ids

/-- **On agreeing keys `due` heals nothing**: it returns the ids of its range and changes neither
    key. -/
theorem Agree.due_eq {k : TopicStore} (h : k.Agree) (mode : ClientMode) (now : ℚ) (limit : Int) :
    ∃ ids, due mode k now limit = (.ok ids, k) ∧
      ids.map encode = zrangebyscore k.timeline (some now) (some limit) := by
  obtain ⟨ids, hids⟩ := h.texts (some now) (some limit)
  refine ⟨ids, ?_, hids.symm⟩
  unfold due
  simp only [hids, reply_encode, collect_rawOf]

theorem length_collect_le (k : TopicStore) (rawIds : List RawId) :
    (k.collect rawIds).1.length ≤ rawIds.length := by
  induction rawIds generalizing k with
  | nil => simp [collect]
  | cons r rest ih =>
      cases r with
      | bytes b =>
          unfold collect
          split
          · have := ih k
            simp only [List.length_cons]
            omega
          · have := ih (k.commitLua b)
            simp only [List.length_cons]
            omega
      | str s =>
          have := ih k
          simp only [collect, List.length_cons]
          omega

theorem length_mapM_decode {ids : List Bytes} {texts : List String} (h : ids.mapM decode = some texts) :
    texts.length = ids.length := by
  induction ids generalizing texts with
  | nil =>
      simp only [List.mapM_nil, Option.pure_def, Option.some.injEq] at h
      rw [← h]
      rfl
  | cons b ids ih =>
      simp only [List.mapM_cons, Option.pure_def, Option.bind_eq_bind, Option.bind_eq_some_iff] at h
      obtain ⟨s, _, rest, hrest, he⟩ := h
      simp only [Option.some.injEq] at he
      rw [← he, List.length_cons, List.length_cons, ih hrest]

theorem length_reply {mode : ClientMode} {ids : List Bytes} {rawIds : List RawId}
    (h : mode.reply ids = .ok rawIds) : rawIds.length = ids.length := by
  cases mode with
  | bytes =>
      simp only [ClientMode.reply, Except.ok.injEq] at h
      rw [← h, List.length_map]
  | str =>
      simp only [ClientMode.reply] at h
      split at h
      · rename_i texts htexts
        simp only [Except.ok.injEq] at h
        rw [← h, List.length_map]
        exact length_mapM_decode htexts
      · cases h

/-- `due` never returns more ids than its limit, whatever the keys hold. -/
theorem length_due_le {mode : ClientMode} {k : TopicStore} {now : ℚ} {limit : Int} (hl : 0 ≤ limit)
    {ids : List String} (h : (due mode k now limit).1 = .ok ids) : (ids.length : Int) ≤ limit := by
  unfold due at h
  split at h
  · rename_i rawIds hr
    simp only [Except.ok.injEq] at h
    have h1 := k.length_collect_le rawIds
    have h2 := length_reply hr
    have h3 := length_zrangebyscore_le k.timeline (some now) hl
    rw [h] at h1
    omega
  · cases h

end TopicStore

end RedisTimers
