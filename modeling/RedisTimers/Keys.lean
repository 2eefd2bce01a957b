/-
  File:      RedisTimers/Keys.lean
  Subject:   `TimerStore` OVER THE REDIS KEY SPACE (store.py): how the keys of a topic are named,
             the commands each call sends, and what one topic can do to another.

  * `TimerStore.keys`, `TimerStore.run` -- the calls of store.py, command by command;
  * `local_run` -- a call reads and writes the two keys of its topic only;
  * `Apart` -- neither key name starts with the other one and its colon; no call and no constructor
    checks it;
  * `isolated_iff_apart` -- two topics never meet in a key exactly if `Apart`;
  * `run_yields`, `executed_runAll` -- REFINEMENT: over names that are apart, every call does on
    its two keys what `TopicStore.run` does, and every run of calls from an empty database is an
    executed log.
-/
import RedisTimers.Log

namespace RedisTimers

open Footprint Replay

/-- The key names of a store; `__init__` keeps them as given. -/
structure TimerStore where
  timelineKey : String
  payloadsKey : String
  deriving DecidableEq

namespace TimerStore

/-! ## 1. The calls -/

/-- `_keys`: the timeline key and the payloads key of a topic. -/
def keys (store : TimerStore) (fullTopic : String) : String × String :=
  (store.timelineKey ++ ":" ++ fullTopic, store.payloadsKey ++ ":" ++ fullTopic)

/-- `_CLAIM_LUA` on KEYS[1] = `tlKey` and KEYS[2] = `plKey`. -/
def claimScript (tlKey plKey : String) (member : Bytes) (now claimScore : ℚ) : Cmd (Option Bytes) := do
  match ← zscore tlKey member with
  | none => pure none
  | some score =>
    if score > now then pure none
    else match ← hget plKey member with
      | none =>
        let _ ← zrem tlKey member
        pure none
      | some payload =>
        let _ ← zadd tlKey member claimScore
        pure (some payload)

/-- `_COMMIT_LUA`. -/
def commitScript (tlKey plKey : String) (member : Bytes) : Cmd Unit := do
  let _ ← zrem tlKey member
  let _ ← hdel plKey member

/-- The loop of `due`: one commit script for each id that does not decode. -/
def collect (tlKey plKey : String) : List RawId → Cmd (List String)
  | [] => pure []
  | .bytes b :: rest => match decode b with
    | some s => do
      let ids ← collect tlKey plKey rest
      pure (s :: ids)
    | none => do
      commitScript tlKey plKey b
      collect tlKey plKey rest
  | .str s :: rest => do
    let ids ← collect tlKey plKey rest
    pure (s :: ids)

/-- What the client makes of a ZRANGEBYSCORE reply. -/
def rawIds (mode : ClientMode) (tlKey : String) (max : Option ℚ) (num : Option Int) :
    Cmd (List RawId) := do
  match mode.reply (← zrange tlKey max num) with
  | .ok raw => pure raw
  | .error e => throw e

/-- `r.decode() if isinstance(r, bytes) else r` over a reply. -/
def texts (raw : List RawId) : Cmd (List String) :=
  match raw.mapM TopicStore.decodeRaw with
  | .ok ids => pure ids
  | .error e => throw e

variable (store : TimerStore) (fullTopic : String)

def schedule (timerId : String) (payload : Bytes) (activationTs : ℚ) : Cmd Unit := do
  let (tlKey, plKey) := store.keys fullTopic
  let _ ← transaction [zadd tlKey (encode timerId) activationTs, hset plKey (encode timerId) payload]

def due (mode : ClientMode) (now : ℚ) (limit : Int) : Cmd (List String) := do
  let (tlKey, plKey) := store.keys fullTopic
  let raw ← rawIds mode tlKey (some now) (some limit)
  collect tlKey plKey raw

def claim (timerId : String) (now leaseTtl : ℚ) : Cmd (Option Bytes) :=
  let (tlKey, plKey) := store.keys fullTopic
  claimScript tlKey plKey (encode timerId) now (now + leaseTtl)

def remove (timerId : String) : Cmd Unit :=
  let (tlKey, plKey) := store.keys fullTopic
  commitScript tlKey plKey (encode timerId)

def pending (mode : ClientMode) (before : Option ℚ) : Cmd (List String) := do
  let (tlKey, _) := store.keys fullTopic
  let raw ← rawIds mode tlKey before none
  texts raw

def isPending (timerId : String) : Cmd Bool := do
  let (tlKey, _) := store.keys fullTopic
  let score ← zscore tlKey (encode timerId)
  pure score.isSome

def cancelAll : Cmd Nat := do
  let (tlKey, plKey) := store.keys fullTopic
  match ← transaction [zcard tlKey, unlink tlKey, unlink plKey] with
  | count :: _ => pure count
  | [] => throw .indexError

/-- A call of the store, with its result as a reply. -/
def run : Command → Cmd Reply
  | .schedule timerId payload activationTs => do
    store.schedule fullTopic timerId payload activationTs
    pure .done
  | .due mode now limit => do pure (.ids (← store.due fullTopic mode now limit))
  | .discard rawId => do
    commitScript (store.keys fullTopic).1 (store.keys fullTopic).2 rawId.1
    pure .done
  | .claim timerId now leaseTtl => do pure (.payload (← store.claim fullTopic timerId now leaseTtl))
  | .remove timerId => do
    store.remove fullTopic timerId
    pure .done
  | .pending mode before => do pure (.ids (← store.pending fullTopic mode before))
  | .isPending timerId => do pure (.flag (← store.isPending fullTopic timerId))
  | .cancelAll => do pure (.count (← store.cancelAll fullTopic))

/-! ## 2. Footprints -/

/-- The two keys of a topic. -/
def footprint : Set String := {(store.keys fullTopic).1, (store.keys fullTopic).2}

section Footprints

variable {A : Set String} {tlKey plKey : String} (ht : tlKey ∈ A) (hp : plKey ∈ A)

include ht hp in
theorem local_commitScript (m : Bytes) : Local A (commitScript tlKey plKey m) :=
  local_bind (local_zrem ht m) fun _ => local_bind (local_hdel hp m) fun _ => local_pure _

include ht hp in
theorem local_claimScript (m : Bytes) (now till : ℚ) : Local A (claimScript tlKey plKey m now till) :=
  local_bind (local_zscore ht m) fun score => by
    cases score with
    | none => exact local_pure _
    | some s =>
        show Local A (ite _ _ _)
        split
        · exact local_pure _
        · refine local_bind (local_hget hp m) fun payload => ?_
          cases payload with
          | none => exact local_bind (local_zrem ht m) fun _ => local_pure _
          | some p => exact local_bind (local_zadd ht m till) fun _ => local_pure _

include ht hp in
theorem local_collect (raw : List RawId) : Local A (collect tlKey plKey raw) := by
  induction raw with
  | nil => exact local_pure _
  | cons r rest ih =>
      cases r with
      | str s => exact local_bind ih fun _ => local_pure _
      | bytes b =>
          unfold collect
          split
          · exact local_bind ih fun _ => local_pure _
          · exact local_bind (local_commitScript ht hp b) fun _ => ih

include ht in
theorem local_rawIds (mode : ClientMode) (max : Option ℚ) (num : Option Int) :
    Local A (rawIds mode tlKey max num) :=
  local_bind (local_zrange ht max num) fun ids => by
    cases mode.reply ids with
    | ok raw => exact local_pure _
    | error e => exact local_throw _

theorem local_texts (raw : List RawId) : Local A (texts raw) := by
  unfold texts
  split
  · exact local_pure _
  · exact local_throw _

/-- **A call reads and writes the two keys of its topic only.** -/
theorem local_run (c : Command) : Local (store.footprint fullTopic) (store.run fullTopic c) := by
  have ht : (store.keys fullTopic).1 ∈ store.footprint fullTopic := Or.inl rfl
  have hp : (store.keys fullTopic).2 ∈ store.footprint fullTopic := Or.inr rfl
  cases c with
  | schedule timerId payload activationTs =>
      have htx : Local (store.footprint fullTopic)
          (transaction [zadd (store.keys fullTopic).1 (encode timerId) activationTs,
            hset (store.keys fullTopic).2 (encode timerId) payload]) := local_transaction <| by
        intro c hc
        rcases List.mem_pair.mp hc with rfl | rfl
        · exact local_zadd ht _ _
        · exact local_hset hp _ _
      exact local_bind (local_bind htx fun _ => local_pure _) fun _ => local_pure _
  | due mode now limit =>
      have hd := local_bind (local_rawIds ht mode (some now) (some limit)) fun raw =>
        local_collect ht hp raw
      exact local_bind hd fun _ => local_pure _
  | discard rawId => exact local_bind (local_commitScript ht hp _) fun _ => local_pure _
  | claim timerId now leaseTtl =>
      exact local_bind (local_claimScript ht hp _ _ _) fun _ => local_pure _
  | remove timerId => exact local_bind (local_commitScript ht hp _) fun _ => local_pure _
  | pending mode before =>
      have hd := local_bind (local_rawIds ht mode before none) fun raw => local_texts raw
      exact local_bind hd fun _ => local_pure _
  | isPending timerId =>
      exact local_bind (local_bind (local_zscore ht _) fun _ => local_pure _) fun _ => local_pure _
  | cancelAll =>
      have htx : Local (store.footprint fullTopic)
          (transaction [zcard (store.keys fullTopic).1, unlink (store.keys fullTopic).1,
            unlink (store.keys fullTopic).2]) := local_transaction <| by
        intro c hc
        simp only [List.mem_cons, List.not_mem_nil, or_false] at hc
        rcases hc with rfl | rfl | rfl
        · exact local_zcard ht
        · exact local_unlink ht
        · exact local_unlink hp
      refine local_bind (local_bind htx fun ns => ?_) fun _ => local_pure _
      cases ns with
      | nil => exact local_throw _
      | cons n ns => exact local_pure _

end Footprints

/-! ## 3. When the keys of two topics meet -/

/-- Neither key name starts with the other one followed by its colon. -/
def Apart : Prop :=
  ¬ (store.timelineKey ++ ":").toList <+: (store.payloadsKey ++ ":").toList ∧
    ¬ (store.payloadsKey ++ ":").toList <+: (store.timelineKey ++ ":").toList

instance : Decidable store.Apart := inferInstanceAs (Decidable (_ ∧ _))

/-- The defaults of `TimersBroker.__init__`. -/
def defaults : TimerStore := ⟨"timers_timeline", "timers_payloads"⟩

example : defaults.Apart := by decide

theorem append_right_inj_str {s t u : String} (h : s ++ t = s ++ u) : t = u := by
  rw [← String.toList_inj, String.toList_append, String.toList_append] at h
  exact String.toList_inj.mp (List.append_cancel_left h)

/-- Apart key names never give one key, whatever the two topics are. -/
theorem Apart.keys_ne {store : TimerStore} (h : store.Apart) (a b : String) :
    (store.keys a).1 ≠ (store.keys b).2 := by
  intro he
  have hl : (store.timelineKey ++ ":").toList ++ a.toList =
      (store.payloadsKey ++ ":").toList ++ b.toList := by
    rw [← String.toList_append, ← String.toList_append]
    exact congrArg String.toList he
  rcases List.append_eq_append_iff.mp hl with ⟨c, hc, _⟩ | ⟨c, hc, _⟩
  · exact h.1 ⟨c, hc.symm⟩
  · exact h.2 ⟨c, hc.symm⟩

theorem Apart.disjoint {store : TimerStore} (h : store.Apart) {a b : String} (hab : a ≠ b) :
    Disjoint (store.footprint a) (store.footprint b) := by
  rw [Set.disjoint_left]
  intro key ha hb
  rcases ha with rfl | rfl <;> rcases hb with he | he
  · exact hab (append_right_inj_str he)
  · exact h.keys_ne a b he
  · exact h.keys_ne b a he.symm
  · exact hab (append_right_inj_str he)

/-- The call a tagged command stands for. -/
def call (i : String × Command) : Cmd Reply := store.run i.1 i.2

/-- **Topic isolation**: the two keys of a topic differ, they are not keys of another topic, and
    in any run of calls on any topics those on `a` change no result of the others and nothing
    under the keys of another topic. -/
def Isolated : Prop :=
  (∀ a, (store.keys a).1 ≠ (store.keys a).2) ∧
  ∀ a b, a ≠ b → Disjoint (store.footprint a) (store.footprint b) ∧
    ∀ (calls : List (String × Command)) (db : Db),
      let others := fun i : String × Command => decide (i.1 ≠ a)
      let all := runAll store.call calls db
      let without := runAll store.call (calls.filter others) db
      resultsOf others calls all.1 = without.1 ∧ ∀ key ∈ store.footprint b, all.2 key = without.2 key

theorem Apart.isolated {store : TimerStore} (h : store.Apart) : store.Isolated := by
  refine ⟨fun a => h.keys_ne a a, fun a b hab => ⟨h.disjoint hab, fun calls db => ?_⟩⟩
  intro others all without
  have hdrop : ∀ i, others i = false → Local (store.footprint a) (store.call i) := by
    intro i hi
    have hia : i.1 = a := by simpa [others] using hi
    rw [← hia]
    exact local_run store i.1 i.2
  have hkeep : ∀ i, others i = true →
      ∃ B, Disjoint (store.footprint a) B ∧ Local B (store.call i) := by
    intro i hi
    have hia : i.1 ≠ a := by simpa [others] using hi
    exact ⟨store.footprint i.1, h.disjoint hia.symm, local_run store i.1 i.2⟩
  have hsame : AgreeOn (store.footprint a)ᶜ db db := fun _ _ => rfl
  obtain ⟨hres, hout⟩ := runAll_purge hdrop hkeep calls hsame
  exact ⟨hres, fun key hkey => hout key (Set.disjoint_right.mp (h.disjoint hab) hkey)⟩

/-- A name that starts with the other one and its colon gives one topic, or two, one key. -/
theorem meet_of_starts {s t : String} (h : (s ++ ":").toList <+: (t ++ ":").toList) :
    s = t ∨ ∃ a, a ≠ "t" ∧ s ++ ":" ++ a = t ++ ":" ++ "t" := by
  obtain ⟨c, hc⟩ := h
  cases c with
  | nil =>
      left
      rw [List.append_nil, String.toList_append, String.toList_append] at hc
      exact String.toList_inj.mp (List.append_cancel_right hc)
  | cons ch c =>
      refine Or.inr ⟨String.ofList (ch :: c) ++ "t", fun he => ?_, ?_⟩
      · have hlen := congrArg String.length he
        rw [String.length_append, String.length_ofList, List.length_cons] at hlen
        omega
      · rw [← String.append_assoc]
        congr 1
        rw [← String.toList_inj, String.toList_append, String.toList_ofList]
        exact hc

/-- **The keys of different topics are apart exactly if the key names are.** -/
theorem isolated_iff_apart : store.Isolated ↔ store.Apart := by
  refine ⟨fun h => ⟨fun hs => ?_, fun hs => ?_⟩, Apart.isolated⟩
  · rcases meet_of_starts hs with he | ⟨a, hat, hkey⟩
    · refine h.1 "t" ?_
      show store.timelineKey ++ ":" ++ "t" = store.payloadsKey ++ ":" ++ "t"
      rw [he]
    · exact Set.disjoint_left.mp (h.2 a "t" hat).1 (Or.inl rfl) (Or.inr hkey)
  · rcases meet_of_starts hs with he | ⟨a, hat, hkey⟩
    · refine h.1 "t" ?_
      show store.timelineKey ++ ":" ++ "t" = store.payloadsKey ++ ":" ++ "t"
      rw [he]
    · exact Set.disjoint_left.mp (h.2 a "t" hat).1 (Or.inr rfl) (Or.inl hkey)

/-- Nested names, `timers` and `timers:payloads`: the timeline of topic `payloads:x` is the
    payloads key of topic `x`, and a timer of the first makes a schedule on the second fail. -/
theorem nested_names_meet :
    let store : TimerStore := ⟨"timers", "timers:payloads"⟩
    let calls : List (String × Command) :=
      [("payloads:x", .schedule "a" [1] 0), ("x", .schedule "b" [2] 0)]
    ¬ store.Isolated ∧ (store.keys "payloads:x").1 = (store.keys "x").2 ∧
      (runAll store.call calls fun _ => none).1 = [.ok .done, .error wrongType] ∧
      (runAll store.call (calls.drop 1) fun _ => none).1 = [.ok .done] := by
  intro store calls
  have hkey : (store.keys "payloads:x").1 = (store.keys "x").2 := by decide
  refine ⟨fun h => ?_, hkey, by decide +kernel, by decide +kernel⟩
  have hd := (h.2 "payloads:x" "x" (by decide)).1
  exact Set.disjoint_left.mp hd (Or.inl rfl) (Or.inr hkey)

/-! ## 4. On apart keys the calls are those of one topic's store -/

/-- The two keys of a topic hold what `k` says. -/
def Holds (k : TopicStore) (db : Db) : Prop :=
  db (store.keys fullTopic).1 = zsetValue k.timeline ∧
    db (store.keys fullTopic).2 = hashValue k.payloads

/-- Every topic's keys hold what `f` says. -/
def Represents (f : Stores) (db : Db) : Prop := ∀ topic, store.Holds topic (f topic) db

section Refinement

variable {store : TimerStore} {fullTopic : String} {k : TopicStore}

theorem represents_empty : store.Represents .empty fun _ => none := fun _ => ⟨rfl, rfl⟩

variable (hne : (store.keys fullTopic).1 ≠ (store.keys fullTopic).2)

include hne in
theorem holds_timeline {db : Db} (h : store.Holds fullTopic k db) (z : ZSet) :
    store.Holds fullTopic { k with timeline := z }
      (Function.update db (store.keys fullTopic).1 (zsetValue z)) :=
  ⟨Function.update_self .., (Function.update_of_ne hne.symm _ _).trans h.2⟩

include hne in
theorem holds_payloads {db : Db} (h : store.Holds fullTopic k db) (hash : Hash) :
    store.Holds fullTopic { k with payloads := hash }
      (Function.update db (store.keys fullTopic).2 (hashValue hash)) :=
  ⟨(Function.update_of_ne hne _ _).trans h.1, Function.update_self ..⟩

include hne in
theorem zadd_yields (m : Bytes) (s : ℚ) :
    Yields (store.Holds fullTopic k) (zadd (store.keys fullTopic).1 m s)
      (.ok (if m ∈ k.timeline then 0 else 1))
      (store.Holds fullTopic { k with timeline := k.timeline.insert m s }) := fun db h => by
  rw [exec_zadd h.1]
  exact ⟨rfl, holds_timeline hne h _⟩

include hne in
theorem zrem_yields (m : Bytes) :
    Yields (store.Holds fullTopic k) (zrem (store.keys fullTopic).1 m)
      (.ok (if m ∈ k.timeline then 1 else 0))
      (store.Holds fullTopic { k with timeline := k.timeline.erase m }) := fun db h => by
  rw [exec_zrem h.1]
  exact ⟨rfl, holds_timeline hne h _⟩

include hne in
theorem hset_yields (f v : Bytes) :
    Yields (store.Holds fullTopic k) (hset (store.keys fullTopic).2 f v)
      (.ok (if f ∈ k.payloads then 0 else 1))
      (store.Holds fullTopic { k with payloads := k.payloads.insert f v }) := fun db h => by
  rw [exec_hset h.2]
  exact ⟨rfl, holds_payloads hne h _⟩

include hne in
theorem hdel_yields (f : Bytes) :
    Yields (store.Holds fullTopic k) (hdel (store.keys fullTopic).2 f)
      (.ok (if f ∈ k.payloads then 1 else 0))
      (store.Holds fullTopic { k with payloads := k.payloads.erase f }) := fun db h => by
  rw [exec_hdel h.2]
  exact ⟨rfl, holds_payloads hne h _⟩

theorem zscore_yields (m : Bytes) :
    Yields (store.Holds fullTopic k) (zscore (store.keys fullTopic).1 m)
      (.ok (k.timeline.lookup m)) (store.Holds fullTopic k) := fun db h => by
  rw [exec_zscore h.1]
  exact ⟨rfl, h⟩

theorem hget_yields (f : Bytes) :
    Yields (store.Holds fullTopic k) (hget (store.keys fullTopic).2 f)
      (.ok (k.payloads.lookup f)) (store.Holds fullTopic k) := fun db h => by
  rw [exec_hget h.2]
  exact ⟨rfl, h⟩

include hne in
theorem unlink_timeline_yields :
    Yields (store.Holds fullTopic k) (unlink (store.keys fullTopic).1)
      (.ok (if zsetValue k.timeline = none then 0 else 1))
      (store.Holds fullTopic { k with timeline := ∅ }) := fun db h => by
  refine ⟨?_, holds_timeline hne h ∅⟩
  rw [← h.1]
  rfl

include hne in
theorem unlink_payloads_yields :
    Yields (store.Holds fullTopic k) (unlink (store.keys fullTopic).2)
      (.ok (if hashValue k.payloads = none then 0 else 1))
      (store.Holds fullTopic { k with payloads := ∅ }) := fun db h => by
  refine ⟨?_, holds_payloads hne h ∅⟩
  rw [← h.2]
  rfl

theorem zcard_yields :
    Yields (store.Holds fullTopic k) (zcard (store.keys fullTopic).1)
      (.ok k.timeline.entries.length) (store.Holds fullTopic k) := fun db h => by
  rw [exec_zcard h.1]
  exact ⟨rfl, h⟩

include hne in
theorem commitScript_yields (m : Bytes) :
    Yields (store.Holds fullTopic k)
      (commitScript (store.keys fullTopic).1 (store.keys fullTopic).2 m) (.ok ())
      (store.Holds fullTopic (k.commitLua m)) :=
  yields_bind (zrem_yields hne m) (yields_bind (hdel_yields hne m) (yields_pure ()))

include hne in
theorem claimScript_yields (m : Bytes) (now till : ℚ) :
    Yields (store.Holds fullTopic k)
      (claimScript (store.keys fullTopic).1 (store.keys fullTopic).2 m now till)
      (.ok (k.claimLua m now till).1) (store.Holds fullTopic (k.claimLua m now till).2) := by
  unfold claimScript TopicStore.claimLua TopicStore.claimBranch
  refine yields_bind (zscore_yields m) ?_
  cases k.timeline.lookup m with
  | none => exact yields_pure none
  | some score =>
      by_cases hs : score > now
      · simp only [if_pos hs]
        exact yields_pure none
      · simp only [if_neg hs]
        refine yields_bind (hget_yields m) ?_
        cases k.payloads.lookup m with
        | none => exact yields_bind (zrem_yields hne m) (yields_pure none)
        | some p => exact yields_bind (zadd_yields hne m till) (yields_pure (some p))

theorem rawIds_yields (mode : ClientMode) (max : Option ℚ) (num : Option Int) :
    Yields (store.Holds fullTopic k) (rawIds mode (store.keys fullTopic).1 max num)
      (mode.reply (zrangebyscore k.timeline max num)) (store.Holds fullTopic k) := by
  have hz : Yields (store.Holds fullTopic k) (zrange (store.keys fullTopic).1 max num)
      (.ok (zrangebyscore k.timeline max num)) (store.Holds fullTopic k) := fun db h => by
    rw [exec_zrange h.1]
    exact ⟨rfl, h⟩
  refine yields_bind hz ?_
  cases mode.reply (zrangebyscore k.timeline max num) with
  | ok raw => exact yields_pure raw
  | error e => exact yields_throw e

include hne in
theorem collect_yields (raw : List RawId) :
    Yields (store.Holds fullTopic k)
      (collect (store.keys fullTopic).1 (store.keys fullTopic).2 raw)
      (.ok (k.collect raw).1) (store.Holds fullTopic (k.collect raw).2) := by
  induction raw generalizing k with
  | nil => exact yields_pure []
  | cons r rest ih =>
      cases r with
      | str s => exact yields_bind ih (yields_pure _)
      | bytes b =>
          unfold collect TopicStore.collect
          cases decode b with
          | some s => exact yields_bind ih (yields_pure _)
          | none => exact yields_bind (commitScript_yields hne b) ih

include hne in
theorem due_yields (mode : ClientMode) (now : ℚ) (limit : Int) :
    Yields (store.Holds fullTopic k) (store.due fullTopic mode now limit)
      (k.due mode now limit).1 (store.Holds fullTopic (k.due mode now limit).2) := by
  have hraw : Yields (store.Holds fullTopic k) (rawIds mode (store.keys fullTopic).1 (some now) (some limit))
      (mode.reply (zrangebyscore k.timeline (some now) (some limit))) (store.Holds fullTopic k) :=
    rawIds_yields mode (some now) (some limit)
  unfold TopicStore.due
  cases hr : mode.reply (zrangebyscore k.timeline (some now) (some limit)) with
  | ok raw =>
      rw [hr] at hraw
      exact yields_bind hraw (collect_yields hne raw)
  | error e =>
      rw [hr] at hraw
      exact yields_bind_error hraw

theorem pending_yields (mode : ClientMode) (before : Option ℚ) :
    Yields (store.Holds fullTopic k) (store.pending fullTopic mode before)
      (k.pending mode before) (store.Holds fullTopic k) := by
  have hraw : Yields (store.Holds fullTopic k) (rawIds mode (store.keys fullTopic).1 before none)
      (mode.reply (zrangebyscore k.timeline before none)) (store.Holds fullTopic k) :=
    rawIds_yields mode before none
  unfold TopicStore.pending
  cases hr : mode.reply (zrangebyscore k.timeline before none) with
  | ok raw =>
      rw [hr] at hraw
      refine yields_bind hraw ?_
      show Yields _ (texts raw) (raw.mapM TopicStore.decodeRaw) _
      unfold texts
      cases raw.mapM TopicStore.decodeRaw with
      | ok ids => exact yields_pure ids
      | error e => exact yields_throw e
  | error e =>
      rw [hr] at hraw
      exact yields_bind_error hraw

include hne in
theorem schedule_yields (timerId : String) (payload : Bytes) (activationTs : ℚ) :
    Yields (store.Holds fullTopic k) (store.schedule fullTopic timerId payload activationTs) (.ok ())
      (store.Holds fullTopic (k.schedule timerId payload activationTs)) := by
  have hboth := execEach_cons_yields (zadd_yields (k := k) hne (encode timerId) activationTs)
    (execEach_cons_yields (hset_yields hne (encode timerId) payload) execEach_nil_yields)
  exact yields_bind (transaction_yields hboth rfl) (yields_pure ())

include hne in
theorem cancelAll_yields :
    Yields (store.Holds fullTopic k) (store.cancelAll fullTopic) (.ok k.cancelAll.1)
      (store.Holds fullTopic k.cancelAll.2) := by
  have hcard : Yields (store.Holds fullTopic k) (zcard (store.keys fullTopic).1)
      (.ok k.timeline.entries.length) (store.Holds fullTopic k) := zcard_yields
  have hall := execEach_cons_yields hcard (execEach_cons_yields (unlink_timeline_yields hne)
    (execEach_cons_yields (unlink_payloads_yields hne) execEach_nil_yields))
  exact yields_bind (transaction_yields hall rfl) (yields_pure _)

include hne in
/-- **REFINEMENT.** Where the two keys of a topic differ, a call does on what they hold what the
    call on a topic's store does, with its result. -/
theorem run_yields (c : Command) :
    Yields (store.Holds fullTopic k) (store.run fullTopic c) (k.run c).1
      (store.Holds fullTopic (k.run c).2) := by
  cases c with
  | schedule timerId payload activationTs =>
      exact yields_bind (schedule_yields hne timerId payload activationTs) (yields_pure _)
  | due mode now limit => exact yields_map (due_yields hne mode now limit) Reply.ids
  | discard rawId => exact yields_bind (commitScript_yields hne rawId.1) (yields_pure _)
  | claim timerId now leaseTtl => exact yields_bind (claimScript_yields hne _ _ _) (yields_pure _)
  | remove timerId => exact yields_bind (commitScript_yields hne _) (yields_pure _)
  | pending mode before => exact yields_map (pending_yields mode before) Reply.ids
  | isPending timerId =>
      exact yields_bind (yields_bind (zscore_yields _) (yields_pure _)) (yields_pure _)
  | cancelAll => exact yields_bind (cancelAll_yields hne) (yields_pure _)

/-- A call changes the store of its topic as the model does, and no other topic's. -/
theorem represents_run (h : store.Apart) {f : Stores} {db : Db} (hr : store.Represents f db)
    (fullTopic : String) (c : Command) :
    (exec (store.run fullTopic c) db).1 = ((f fullTopic).run c).1 ∧
      store.Represents (Function.update f fullTopic ((f fullTopic).run c).2)
        (exec (store.run fullTopic c) db).2 := by
  obtain ⟨hres, hown⟩ := run_yields (h.keys_ne fullTopic fullTopic) c db (hr fullTopic)
  refine ⟨hres, fun topic => ?_⟩
  by_cases ht : topic = fullTopic
  · subst ht
    rw [Function.update_self]
    exact hown
  · have hout : ∀ key ∈ store.footprint topic, (exec (store.run fullTopic c) db).2 key = db key :=
      fun key hkey => (local_run store fullTopic c).frame db key
        (Set.disjoint_left.mp (h.disjoint ht) hkey)
    rw [Function.update_of_ne ht]
    exact ⟨(hout _ (Or.inl rfl)).trans (hr topic).1, (hout _ (Or.inr rfl)).trans (hr topic).2⟩

/-- A call with its origin and topic, and its result, as an entry of the log. -/
def logged (i : Origin × String × Command) (r : Except PyError Reply) : Entry := ⟨i.1, i.2.1, i.2.2, r⟩

theorem runAll_refines (h : store.Apart) (is : List (Origin × String × Command)) {f : Stores} {db : Db}
    (hr : store.Represents f db) :
    let out := runAll (fun i : Origin × String × Command => store.run i.2.1 i.2.2) is db
    let log := List.zipWith logged is out.1
    Along applyEntry RepliedBy f log ∧ store.Represents (replay applyEntry f log) out.2 := by
  induction is generalizing f db with
  | nil => exact ⟨trivial, hr⟩
  | cons i is ih =>
      obtain ⟨hres, hrep⟩ := represents_run h hr i.2.1 i.2.2
      obtain ⟨hal, hrest⟩ := ih hrep
      exact ⟨⟨hres, hal⟩, hrest⟩

/-- **Every run of calls over names that are apart, from an empty database, is an executed log**,
    and its database holds the stores after that log. -/
theorem executed_runAll (h : store.Apart) (is : List (Origin × String × Command)) :
    let out := runAll (fun i : Origin × String × Command => store.run i.2.1 i.2.2) is fun _ => none
    let log := List.zipWith logged is out.1
    Executed log ∧ store.Represents (storesAfter log) out.2 :=
  runAll_refines h is represents_empty

end Refinement

end TimerStore

end RedisTimers
