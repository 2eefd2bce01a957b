/-
  File:      RedisTimers/Inspection.lean
  Subject:   THE INSPECTION CALLS AGREE WITH THE TWO KEYS (store.py: pending, is_pending,
             cancel_all), after any commands of any clients.

  Each reader looks at one key only. `Inspected` says what they answer on one state; it follows
  from `Agree`, which every command keeps. `claimed_pending` adds what a lease does to them.
-/
import Mathlib.Tactic.Linarith
import RedisTimers.Log

namespace RedisTimers

open Lease Replay

namespace TopicStore

variable {k : TopicStore} {mode : ClientMode} {ids : List String}

/-! ## 1. Readers of one key -/

/-- `pending` lists exactly the ids whose score is within its bound. -/
theorem mem_pending (h : k.Agree) {before : Option ℚ} (hp : k.pending mode before = .ok ids)
    (id : String) :
    id ∈ ids ↔ ∃ s, k.timeline.lookup (encode id) = some s ∧ Ranked.atMost before s = true := by
  obtain ⟨texts, ht, henc⟩ := h.pending_eq mode before
  rw [ht] at hp
  cases hp
  rw [← Ranked.mem_upTo, ← henc, List.mem_map_of_injective encode_injective]

/-- `is_pending` answers as the unbounded `pending` lists. -/
theorem isPending_iff_mem (h : k.Agree) (hp : k.pending mode none = .ok ids) (id : String) :
    k.isPending id = true ↔ id ∈ ids := by
  rw [mem_pending h hp, isPending, Option.isSome_iff_exists]
  simp

/-- `is_pending` reads the timeline and answers as the payloads hash does. -/
theorem isPending_iff_stored (h : k.Agree) (id : String) :
    k.isPending id = true ↔ (k.payloads.lookup (encode id)).isSome :=
  h.lookup_isSome _

/-- The ZCARD reply of `cancel_all` counts what `pending` lists. -/
theorem cancelAll_count (h : k.Agree) (hp : k.pending mode none = .ok ids) :
    k.cancelAll.1 = ids.length := by
  obtain ⟨texts, ht, henc⟩ := h.pending_eq mode none
  rw [ht] at hp
  cases hp
  show k.timeline.entries.length = ids.length
  rw [← Ranked.length_upTo_none k.timeline, ← henc, List.length_map]

/-- **The inspection calls agree with the two keys of the topic, and with each other.** -/
structure Inspected (k : TopicStore) : Prop where
  keys : ∀ m, m ∈ k.timeline ↔ m ∈ k.payloads
  /-- `pending` returns normally, in either client mode, and lists no id twice. -/
  listed : ∀ mode before, ∃ ids, k.pending mode before = .ok ids ∧ ids.Nodup
  isPending_listed : ∀ mode ids, k.pending mode none = .ok ids →
    ∀ id, k.isPending id = true ↔ id ∈ ids
  isPending_stored : ∀ id, k.isPending id = true ↔ ∃ p, k.payloads.lookup (encode id) = some p
  before : ∀ mode b ids, k.pending mode (some b) = .ok ids →
    ∀ id, id ∈ ids ↔ ∃ s, k.timeline.lookup (encode id) = some s ∧ s ≤ b
  cancelled : ∀ mode ids, k.pending mode none = .ok ids → k.cancelAll = (ids.length, empty)
  orphan : ∀ m now, k.claimBranch m now ≠ .orphan

theorem Agree.inspected (h : k.Agree) : k.Inspected where
  keys := h.keys
  listed mode before := by
    obtain ⟨ids, hids, henc⟩ := h.pending_eq mode before
    refine ⟨ids, hids, List.Nodup.of_map encode ?_⟩
    rw [henc]
    exact Ranked.nodup_upTo _ _
  isPending_listed mode ids hp id := isPending_iff_mem h hp id
  isPending_stored id := by rw [isPending_iff_stored h, Option.isSome_iff_exists]
  before mode b ids hp id := by
    rw [mem_pending h hp]
    simp
  cancelled mode ids hp := Prod.ext (cancelAll_count h hp) rfl
  orphan m now := h.claimBranch_ne_orphan

/-! ## 2. What a lease shows to the readers -/

section Claimed

variable {xs ys : List Command} {id : String} {c ttl : ℚ}

/-- The claim with number `xs.length` returned a payload, and nothing re-scheduled its id since. -/
structure Claimed (xs : List Command) (id : String) (c ttl : ℚ) (ys : List Command) : Prop where
  granted : ((afterAll xs).claim id c ttl).1.isSome
  notRescheduled : ∀ p ts, .schedule id p ts ∉ ys
  /-- Later claims that are granted, if any, ask for a lease, not for a time in their past. It asks
      nothing of the claim that holds the timer: after the last granted one there is none. -/
  forward : ∀ ys₁ c' ttl' ys₂, ys = ys₁ ++ .claim id c' ttl' :: ys₂ →
    ((afterAll (xs ++ .claim id c ttl :: ys₁)).claim id c' ttl').1.isSome → 0 ≤ ttl'

theorem afterAll_append (xs ys : List Command) :
    after (Command.act id) (after (Command.act id) none xs) ys =
      (afterAll (xs ++ ys)).cell (encode id) := by
  rw [cell_afterAll, after_append]

theorem Claimed.noPut (h : Claimed xs id c ttl ys) : NoPut (Command.act id) ys :=
  fun _ he p ts hact => h.notRescheduled p ts (act_eq_put.mp hact ▸ he)

/-- The cell right after the claim. -/
theorem Claimed.cell (h : Claimed xs id c ttl ys) :
    ∃ p, (afterAll (xs ++ [.claim id c ttl])).cell (encode id) = some (p, c + ttl) := by
  obtain ⟨p, hp⟩ := Option.isSome_iff_exists.mp h.granted
  refine ⟨p, ?_⟩
  rw [cell_afterAll]
  exact after_granted hp

/-- No score below the end of the lease, as long as the id is not re-scheduled. -/
theorem Claimed.atLeast (h : Claimed xs id c ttl ys) :
    AtLeast (c + ttl) ((afterAll (xs ++ .claim id c ttl :: ys)).cell (encode id)) := by
  obtain ⟨p, hp⟩ := h.cell
  have hsplit : xs ++ .claim id c ttl :: ys = (xs ++ [.claim id c ttl]) ++ ys := by simp
  rw [hsplit, ← afterAll_append, ← cell_afterAll, hp]
  refine atLeast_after h.noPut (along_of_split ?_) (atLeast_some.mpr le_rfl)
  intro ys₁ e ys₂ hys now till hact hg
  obtain ⟨ttl', rfl, rfl⟩ := act_eq_claim.mp hact
  have hstate : after (Command.act id) (some (p, c + ttl)) ys₁ =
      (afterAll (xs ++ .claim id c ttl :: ys₁)).cell (encode id) := by
    rw [← hp, cell_afterAll, afterAll_append]
    simp
  have hgr : ((afterAll (xs ++ .claim id c ttl :: ys₁)).claim id now ttl').1.isSome := by
    rw [claim_eq_grant (agree_afterAll _), ← hstate]
    exact hg
  have hpos := h.forward ys₁ now ttl' ys₂ hys hgr
  linarith

/-- **A claimed timer stays listed, but not as due before its lease ends.** -/
theorem claimed_pending (h : Claimed xs id c ttl ys) :
    let k := afterAll (xs ++ .claim id c ttl :: ys)
    (.remove id ∉ ys → .cancelAll ∉ ys → k.isPending id = true) ∧
      ∀ s, k.timeline.lookup (encode id) = some s → c + ttl ≤ s := by
  intro k
  have hag : k.Agree := agree_afterAll _
  refine ⟨fun hr hc => ?_, fun s hs => ?_⟩
  · obtain ⟨p, hp⟩ := h.cell
    have hd : NoDrop (Command.act id) ys := fun e he hact => by
      rcases act_eq_drop.mp hact with rfl | rfl
      · exact hr he
      · exact hc he
    have hsome : (k.cell (encode id)).isSome := by
      have hsplit : xs ++ .claim id c ttl :: ys = (xs ++ [.claim id c ttl]) ++ ys := by simp
      show ((afterAll (xs ++ .claim id c ttl :: ys)).cell (encode id)).isSome
      rw [hsplit, ← afterAll_append, ← cell_afterAll, hp]
      exact after_isSome hd rfl
    rw [isPending, hag.timeline_lookup, Option.isSome_map]
    exact hsome
  · rw [hag.timeline_lookup, Option.map_eq_some_iff] at hs
    obtain ⟨⟨p, s'⟩, hcell, rfl⟩ := hs
    exact h.atLeast p s' hcell

end Claimed

/-! ## 3. Every reachable state -/

/-- **The two keys of a topic never drift apart, and the inspection calls agree with them.** -/
theorem inspection_agrees (cs : List Command) :
    (afterAll cs).Inspected ∧
    ∀ xs id c ttl ys, cs = xs ++ .claim id c ttl :: ys → Claimed xs id c ttl ys →
      (.remove id ∉ ys → .cancelAll ∉ ys →
        ∀ mode ids, (afterAll cs).pending mode none = .ok ids → id ∈ ids) ∧
      ∀ b, b < c + ttl → ∀ mode ids, (afterAll cs).pending mode (some b) = .ok ids → id ∉ ids := by
  have hins := (agree_afterAll cs).inspected
  refine ⟨hins, ?_⟩
  rintro xs id c ttl ys rfl h
  obtain ⟨hlisted, hscore⟩ := claimed_pending h
  refine ⟨fun hr hc mode ids hp => ?_, fun b hb mode ids hp hmem => ?_⟩
  · exact (hins.isPending_listed mode ids hp id).mp (hlisted hr hc)
  · obtain ⟨s, hs, hle⟩ := (hins.before mode b ids hp id).mp hmem
    have hge := hscore s hs
    linarith

/-- A timer that two workers claim, beside one that is due later: the second claim is refused. -/
def claimedTwice : List Command :=
  [.schedule "a" [1] 0, .schedule "b" [2] 50] ++ .claim "a" 10 30 :: [.due .bytes 10 2, .claim "a" 20 30]

theorem inspection_agrees_claimed : (afterAll claimedTwice).Inspected ∧
    (afterAll claimedTwice).pending .bytes none = .ok ["a", "b"] ∧ "a" ∈ ["a", "b"] ∧
    (afterAll claimedTwice).pending .bytes (some 39) = .ok [] ∧ "a" ∉ ([] : List String) := by
  obtain ⟨hins, hclaimed⟩ := inspection_agrees claimedTwice
  have hall : (afterAll claimedTwice).pending .bytes none = .ok ["a", "b"] := by decide +kernel
  have hdue : (afterAll claimedTwice).pending .bytes (some 39) = .ok [] := by decide +kernel
  have hheld : Claimed [.schedule "a" [1] 0, .schedule "b" [2] 50] "a" 10 30
      [.due .bytes 10 2, .claim "a" 20 30] := by
    refine ⟨by decide +kernel, by simp, fun ys₁ c' ttl' ys₂ hys _ => ?_⟩
    have hmem : Command.claim "a" c' ttl' ∈ [Command.due .bytes 10 2, .claim "a" 20 30] := by
      rw [hys]
      exact List.mem_append_right _ List.mem_cons_self
    obtain ⟨_, rfl⟩ : c' = 20 ∧ ttl' = 30 := by simpa using hmem
    norm_num
  obtain ⟨hlisted, hnotDue⟩ := hclaimed _ "a" 10 30 _ rfl hheld
  exact ⟨hins, hall, hlisted (by decide) (by decide) .bytes _ hall, hdue,
    hnotDue 39 (by norm_num) .bytes _ hdue⟩

end TopicStore

end RedisTimers
