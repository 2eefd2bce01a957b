/-
  File:      RedisTimers/Fairness.lean
  Subject:   EVERY DUE TIMER GETS ITS TURN (store.py: due, claim; subscriber/usecase.py: _get_msgs,
             _claim_and_consume), whatever else a timeline holds.

  A poll fetches a bounded number of ids, and the tasks it spawns claim them one by one, among the
  commands of everybody else. Ids that are no text and ids without a payload may stand in front of a
  timer; polling removes them as it meets them.

  * `lookup_due`, `due_meets` -- what `due` leaves of each member, on keys that hold anything;
  * `Behind` -- a command that brings nothing in front of a place; `ahead_run` -- so what stands in
    front of it only gets less;
  * `Turn`, `turn_uses_up` -- a poll and its claims that pass over a member take as many as the
    limit of the poll from in front of it;
  * `no_starvation`, `strays_healed` -- so a due timer is handed out, and what is no text is gone,
    after a bounded number of turns; `text_client_blocked` -- a client that decodes its replies
    never gets past a member that is no text.
-/
import RedisTimers.Listing

namespace RedisTimers

open Lease Replay

namespace TopicStore

/-! ## 1. What a poll leaves -/

section Due

variable {k : TopicStore} {now : ℚ} {limit : Int} {ids : List String} {m : Bytes}

/-- The loop of `due` takes the members it cannot decode from both keys, and nothing else. -/
theorem lookup_collect (k : TopicStore) (ms : List Bytes) (m : Bytes) :
    (k.collect (ms.map .bytes)).2.timeline.lookup m =
        (if m ∈ ms ∧ decode m = none then none else k.timeline.lookup m) ∧
      (k.collect (ms.map .bytes)).2.payloads.lookup m =
        (if m ∈ ms ∧ decode m = none then none else k.payloads.lookup m) := by
  induction ms generalizing k with
  | nil => simp [collect]
  | cons b ms ih =>
      rw [List.map_cons]
      unfold collect
      cases hd : decode b with
      | some s =>
          obtain ⟨ht, hp⟩ := ih k
          have hsame : (m ∈ b :: ms ∧ decode m = none) ↔ (m ∈ ms ∧ decode m = none) := by
            constructor
            · intro hx
              obtain ⟨hm, hn⟩ := hx
              refine ⟨(List.mem_cons.mp hm).resolve_left fun e => ?_, hn⟩
              rw [e, hd] at hn
              cases hn
            · exact fun h => ⟨List.mem_cons_of_mem _ h.1, h.2⟩
          simp only [hsame]
          exact ⟨ht, hp⟩
      | none =>
          obtain ⟨ht, hp⟩ := ih (k.commitLua b)
          rw [ht, hp]
          by_cases hmb : m = b
          · subst hmb
            simp [hd, commitLua, AList.lookup_erase]
          · simp [hmb, commitLua, AList.lookup_erase_ne hmb]

/-- A text client changes nothing when it polls, and raises on a member that is no text. -/
theorem due_str (k : TopicStore) (now : ℚ) (limit : Int) : k.due .str now limit =
    match (zrangebyscore k.timeline (some now) (some limit)).mapM decode with
    | some texts => (.ok texts, k)
    | none => (.error .unicodeDecodeError, k) := by
  unfold due
  simp only [ClientMode.reply]
  cases (zrangebyscore k.timeline (some now) (some limit)).mapM decode with
  | none => rfl
  | some texts =>
      have hraw : texts.map RawId.str = texts.map (rawOf .str) := rfl
      simp only [hraw, collect_rawOf]

theorem due_str_snd (k : TopicStore) (now : ℚ) (limit : Int) : (k.due .str now limit).2 = k := by
  rw [due_str]
  split <;> rfl

/-- **What a poll leaves of a member**: both of its entries, or neither where it is no text. -/
theorem lookup_due (k : TopicStore) (mode : ClientMode) (now : ℚ) (limit : Int) (m : Bytes) :
    ((k.due mode now limit).2.timeline.lookup m = k.timeline.lookup m ∧
        (k.due mode now limit).2.payloads.lookup m = k.payloads.lookup m) ∨
      (decode m = none ∧ (k.due mode now limit).2.timeline.lookup m = none) := by
  cases mode with
  | str =>
      rw [due_str_snd]
      exact Or.inl ⟨rfl, rfl⟩
  | bytes =>
      obtain ⟨ht, hp⟩ := lookup_collect k (zrangebyscore k.timeline (some now) (some limit)) m
      show ((k.collect _).2.timeline.lookup m = _ ∧ (k.collect _).2.payloads.lookup m = _) ∨ _
      rw [ht, hp]
      split
      · rename_i h
        refine Or.inr ⟨h.2, ?_⟩
        show (k.collect _).2.timeline.lookup m = none
        rw [ht, if_pos h]
      · exact Or.inl ⟨rfl, rfl⟩

/-- A list that decodes as a whole is the encoding of its texts. -/
theorem map_encode_of_mapM_decode {ms : List Bytes} {texts : List String}
    (h : ms.mapM decode = some texts) : texts.map encode = ms := by
  induction ms generalizing texts with
  | nil =>
      cases h
      rfl
  | cons m ms ih =>
      rw [List.mapM_cons, Option.bind_eq_bind, Option.bind_eq_some_iff] at h
      obtain ⟨s, hs, hrest⟩ := h
      rw [Option.bind_eq_bind, Option.bind_eq_some_iff] at hrest
      obtain ⟨rest, hr, he⟩ := hrest
      cases he
      rw [List.map_cons, encode_of_decode hs, ih hr]

/-- A poll that returns has met each member of its range: it returned it as a text, or removed it. -/
theorem due_meets {mode : ClientMode} (h : (k.due mode now limit).1 = .ok ids)
    (hm : m ∈ zrangebyscore k.timeline (some now) (some limit)) :
    (∃ id ∈ ids, encode id = m) ∨
      (decode m = none ∧ (k.due mode now limit).2.timeline.lookup m = none) := by
  cases mode with
  | bytes =>
      cases hd : decode m with
      | none =>
          right
          refine ⟨rfl, ?_⟩
          show (k.collect _).2.timeline.lookup m = none
          rw [(lookup_collect k _ m).1, if_pos ⟨hm, hd⟩]
      | some id =>
          left
          have hids : readable (zrangebyscore k.timeline (some now) (some limit)) = ids := by
            rw [← collect_bytes k]
            exact Except.ok.inj h
          rw [← hids]
          exact ⟨id, List.mem_filterMap.mpr ⟨m, hm, hd⟩, encode_of_decode hd⟩
  | str =>
      rw [due_str] at h
      cases htexts : (zrangebyscore k.timeline (some now) (some limit)).mapM decode with
      | none =>
          rw [htexts] at h
          cases h
      | some texts =>
          rw [htexts] at h
          cases h
          rw [← map_encode_of_mapM_decode htexts] at hm
          obtain ⟨id, hid, rfl⟩ := List.mem_map.mp hm
          exact Or.inl ⟨id, hid, rfl⟩

end Due

/-! ## 2. What stands in front of a member -/

/-- Everything the claim script can do. -/
theorem claimLua_cases (k : TopicStore) (m : Bytes) (now till : ℚ) :
    ((∀ s, k.timeline.lookup m = some s → now < s) ∧ k.claimLua m now till = (none, k)) ∨
    (∃ s, k.timeline.lookup m = some s ∧ s ≤ now ∧ k.payloads.lookup m = none ∧
      k.claimLua m now till = (none, ⟨k.timeline.erase m, k.payloads⟩)) ∨
    ∃ s p, k.timeline.lookup m = some s ∧ s ≤ now ∧ k.payloads.lookup m = some p ∧
      k.claimLua m now till = (some p, ⟨k.timeline.insert m till, k.payloads⟩) := by
  unfold claimLua claimBranch
  cases ht : k.timeline.lookup m with
  | none => exact Or.inl ⟨nofun, rfl⟩
  | some s =>
      simp only
      by_cases hs : s > now
      · rw [if_pos hs]
        exact Or.inl ⟨fun s' hs' => Option.some.inj hs' ▸ hs, rfl⟩
      · rw [if_neg hs]
        have hle := not_lt.mp hs
        cases hp : k.payloads.lookup m with
        | none => exact Or.inr (Or.inl ⟨s, rfl, hle, rfl, rfl⟩)
        | some p => exact Or.inr (Or.inr ⟨s, p, rfl, hle, rfl, rfl⟩)

/-- A claim leaves the scores of the other ids. -/
theorem lookup_claimLua_ne {k : TopicStore} {x m : Bytes} {now till : ℚ} (hne : x ≠ m) :
    (k.claimLua m now till).2.timeline.lookup x = k.timeline.lookup x := by
  rcases k.claimLua_cases m now till with ⟨_, hr⟩ | ⟨_, _, _, _, hr⟩ | ⟨_, _, _, _, _, hr⟩
  · rw [hr]
  · rw [hr]
    exact AList.lookup_erase_ne hne
  · rw [hr]
    exact AList.lookup_insert_ne hne

/-- The store after some commands, of anybody. -/
def afterCommands (k : TopicStore) (cs : List Command) : TopicStore :=
  replay (fun k c => (run k c).2) k cs

theorem afterCommands_append (k : TopicStore) (xs ys : List Command) :
    k.afterCommands (xs ++ ys) = (k.afterCommands xs).afterCommands ys :=
  replay_append _ _ _ _

theorem afterCommands_cons (k : TopicStore) (c : Command) (cs : List Command) :
    k.afterCommands (c :: cs) = (k.run c).2.afterCommands cs := rfl

end TopicStore

/-- The command brings nothing in front of a place: a timer it schedules comes behind it, and a
    claim asks for a lease, not for a time in its past. -/
def Command.Behind (p : Lex (ℚ × Bytes)) : Command → Prop
  | .schedule timerId _ activationTs => p < Ranked.place activationTs (encode timerId)
  | .claim _ _ leaseTtl => 0 ≤ leaseTtl
  | _ => True

/-- The command schedules nothing by `b`, and a claim asks for a lease. -/
def Command.Later (b : ℚ) : Command → Prop
  | .schedule _ _ activationTs => b < activationTs
  | .claim _ _ leaseTtl => 0 ≤ leaseTtl
  | _ => True

instance (b : ℚ) : DecidablePred (Command.Later b)
  | .schedule _ _ activationTs => inferInstanceAs (Decidable (b < activationTs))
  | .claim _ _ leaseTtl => inferInstanceAs (Decidable (0 ≤ leaseTtl))
  | .due .. | .discard _ | .remove _ | .pending .. | .isPending _ | .cancelAll =>
      inferInstanceAs (Decidable True)

namespace TopicStore

section Ahead

variable {k : TopicStore} {p : Lex (ℚ × Bytes)} {m x : Bytes} {c : Command}

/-- A lower score is a place further in front. -/
theorem place_le {s t : ℚ} (h : s ≤ t) (m : Bytes) : Ranked.place s m ≤ Ranked.place t m :=
  Prod.Lex.toLex_mono ⟨h, le_rfl⟩

theorem place_lt {s t : ℚ} (h : s < t) (m n : Bytes) : Ranked.place s m < Ranked.place t n :=
  Prod.Lex.toLex_lt_toLex.mpr (Or.inl h)

theorem behind_of_later {s b : ℚ} (hc : c.Later b) (hs : s ≤ b) : c.Behind (Ranked.place s m) := by
  cases c with
  | schedule timerId payload activationTs => exact place_lt (hs.trans_lt hc) _ _
  | claim timerId now leaseTtl => exact hc
  | _ => trivial

/-- **A command that brings nothing in front of a place leaves no more in front of it.** -/
theorem ahead_run (hc : c.Behind p) : Ranked.ahead (k.run c).2.timeline p ⊆ Ranked.ahead k.timeline p := by
  intro x hx
  obtain ⟨t, ht, hlt⟩ := Ranked.mem_ahead.mp hx
  refine Ranked.mem_ahead.mpr ?_
  cases c with
  | schedule timerId payload activationTs =>
      by_cases hxi : x = encode timerId
      · subst hxi
        have hts : activationTs = t := by
          simpa [run, schedule, AList.lookup_insert] using ht
        rw [← hts] at hlt
        exact absurd hlt (not_lt.mpr hc.le)
      · refine ⟨t, ?_, hlt⟩
        simpa [run, schedule, AList.lookup_insert_ne hxi] using ht
  | due mode now limit =>
      rcases k.lookup_due mode now limit x with ⟨hsame, _⟩ | ⟨_, hgone⟩
      · exact ⟨t, hsame ▸ ht, hlt⟩
      · have hnone : (k.run (.due mode now limit)).2.timeline.lookup x = none := hgone
        rw [hnone] at ht
        cases ht
  | discard rawId =>
      by_cases hxr : x = rawId.1
      · subst hxr
        simp [run, commitLua, AList.lookup_erase] at ht
      · exact ⟨t, by simpa [run, commitLua, AList.lookup_erase_ne hxr] using ht, hlt⟩
  | claim timerId now leaseTtl =>
      have httl : 0 ≤ leaseTtl := hc
      by_cases hxi : x = encode timerId
      · subst hxi
        rcases k.claimLua_cases (encode timerId) now (now + leaseTtl) with
          ⟨_, hr⟩ | ⟨_, _, _, _, hr⟩ | ⟨s, q, hs, hle, _, hr⟩
        · exact ⟨t, by simpa [run, claim, hr] using ht, hlt⟩
        · simp [run, claim, hr, AList.lookup_erase] at ht
        · -- the lease reaches forward: where it leaves the timer in front, it was there before
          have htill : now + leaseTtl = t := by
            simpa [run, claim, hr, AList.lookup_insert] using ht
          have hst : s ≤ t := by rw [← htill]; exact hle.trans (le_add_of_nonneg_right httl)
          exact ⟨s, hs, (place_le hst _).trans_lt hlt⟩
      · exact ⟨t, (lookup_claimLua_ne hxi).symm.trans ht, hlt⟩
  | remove timerId =>
      by_cases hxi : x = encode timerId
      · subst hxi
        simp [run, remove, commitLua, AList.lookup_erase] at ht
      · exact ⟨t, by simpa [run, remove, commitLua, AList.lookup_erase_ne hxi] using ht, hlt⟩
  | pending mode before => exact ⟨t, ht, hlt⟩
  | isPending timerId => exact ⟨t, ht, hlt⟩
  | cancelAll => simp [run, cancelAll, empty] at ht

theorem ahead_afterCommands {cs : List Command} (hcs : ∀ c ∈ cs, c.Behind p) :
    Ranked.ahead (k.afterCommands cs).timeline p ⊆ Ranked.ahead k.timeline p := by
  induction cs generalizing k with
  | nil => exact subset_rfl
  | cons c cs ih =>
      rw [afterCommands_cons]
      exact (ih fun d hd => hcs d (List.mem_cons_of_mem _ hd)).trans
        (ahead_run (hcs c List.mem_cons_self))

end Ahead

/-! ## 3. Turns -/

/-- One turn of polling at or after `s`: a poll that returned, for `limit` ids or more, and after it a
    claim of each id it returned, by a clock that did not go back and for a lease; before, between and
    after them anything of anybody. -/
inductive Turn (limit : ℕ) (s : ℚ) (k : TopicStore) : List Command → Prop where
  | mk (xs ys : List Command) (mode : ClientMode) (now : ℚ) (n : Int) (ids : List String)
      (hlimit : (limit : Int) ≤ n) (hnow : s ≤ now)
      (hdue : ((k.afterCommands xs).due mode now n).1 = .ok ids)
      (hclaims : ∀ id ∈ ids, ∃ c leaseTtl, .claim id c leaseTtl ∈ ys ∧ now ≤ c ∧ 0 < leaseTtl) :
      Turn limit s k (xs ++ .due mode now n :: ys)

/-- The member has the score `s` before, between and after the commands. -/
def Stays (m : Bytes) (s : ℚ) (k : TopicStore) (cs : List Command) : Prop :=
  ∀ xs ys, cs = xs ++ ys → (k.afterCommands xs).timeline.lookup m = some s

section Turns

variable {k : TopicStore} {m : Bytes} {s : ℚ} {limit : ℕ} {cs : List Command}

/-- After a claim of an id was executed, granted or not, it is not due at the claim's clock. -/
theorem later_of_claim (k : TopicStore) (id : String) (c : ℚ) {leaseTtl t : ℚ} (httl : 0 < leaseTtl)
    (ht : (k.run (.claim id c leaseTtl)).2.timeline.lookup (encode id) = some t) : c < t := by
  rcases k.claimLua_cases (encode id) c (c + leaseTtl) with
    ⟨hlater, hr⟩ | ⟨_, _, _, _, hr⟩ | ⟨_, _, _, _, _, hr⟩
  · exact hlater t (by simpa [run, claim, hr] using ht)
  · simp [run, claim, hr, AList.lookup_erase] at ht
  · have htill : c + leaseTtl = t := by simpa [run, claim, hr, AList.lookup_insert] using ht
    rw [← htill]
    exact lt_add_of_pos_right c httl

/-- What the claims after a poll do to an id it returned. -/
theorem later_of_claimed {ys : List Command} {id : String} {now : ℚ} (k : TopicStore)
    (h : ∃ c leaseTtl, .claim id c leaseTtl ∈ ys ∧ now ≤ c ∧ 0 < leaseTtl) :
    ∃ us vs, ys = us ++ vs ∧ ∀ t, (k.afterCommands us).timeline.lookup (encode id) = some t → now < t := by
  obtain ⟨c, leaseTtl, hmem, hnow, httl⟩ := h
  obtain ⟨us, vs, rfl⟩ := List.append_of_mem hmem
  refine ⟨us ++ [.claim id c leaseTtl], vs, by simp, fun t ht => hnow.trans_lt ?_⟩
  rw [afterCommands_append] at ht
  exact later_of_claim _ id c httl ht

theorem nodup_zrangebyscore (z : ZSet) (max : Option ℚ) (num : Option Int) :
    (zrangebyscore z max num).Nodup := by
  have hall := Ranked.nodup_upTo z max
  unfold zrangebyscore
  split
  · split
    · exact hall
    · exact hall.sublist (List.take_sublist _ _)
  · exact hall

/-- What a poll reads that does not read a member stands in front of it. -/
theorem ahead_of_unread {now : ℚ} {n : Int} {x : Bytes} (hs : k.timeline.lookup m = some s)
    (hnot : m ∉ zrangebyscore k.timeline (some now) (some n))
    (hx : x ∈ zrangebyscore k.timeline (some now) (some n)) :
    x ∈ Ranked.ahead k.timeline (Ranked.place s m) := by
  obtain ⟨t, ht, hle⟩ := Ranked.mem_upTo.mp (zrangebyscore_subset hx)
  rw [Ranked.atMost_some] at hle
  by_cases hnow : s ≤ now
  · have hread : m ∈ Ranked.upTo k.timeline (some now) :=
      Ranked.mem_upTo.mpr ⟨s, hs, (Ranked.atMost_some now s).mpr hnow⟩
    unfold zrangebyscore at hnot hx
    simp only at hnot hx
    split at hnot
    · exact absurd hread hnot
    · rename_i hn
      rw [if_neg hn] at hx
      exact (Ranked.take_upTo hs hread hnot).2 x hx
  · exact Ranked.mem_ahead.mpr ⟨t, ht, place_lt (hle.trans_lt (not_le.mp hnow)) x m⟩

/-- A poll that passes over a member reads its whole limit. -/
theorem length_of_unread {now : ℚ} {n : Int} (hn : 0 ≤ n) (hs : k.timeline.lookup m = some s)
    (hnow : s ≤ now) (hnot : m ∉ zrangebyscore k.timeline (some now) (some n)) :
    ((zrangebyscore k.timeline (some now) (some n)).length : Int) = n := by
  have hread : m ∈ Ranked.upTo k.timeline (some now) :=
    Ranked.mem_upTo.mpr ⟨s, hs, (Ranked.atMost_some now s).mpr hnow⟩
  unfold zrangebyscore at hnot ⊢
  simp only [if_neg (not_lt.mpr hn)] at hnot ⊢
  rw [(Ranked.take_upTo hs hread hnot).1]
  omega

theorem Stays.rest {xs ys : List Command} (h : Stays m s k (xs ++ ys)) :
    Stays m s (k.afterCommands xs) ys := fun us vs hys => by
  rw [← afterCommands_append]
  exact h (xs ++ us) vs (by rw [hys, List.append_assoc])

section Polled

variable {mode : ClientMode} {now : ℚ} {n : Int} {ids : List String} {ys : List Command} {x : Bytes}
variable (hdue : (k.due mode now n).1 = .ok ids) (hnow : s ≤ now)
  (hclaims : ∀ id ∈ ids, ∃ c leaseTtl, .claim id c leaseTtl ∈ ys ∧ now ≤ c ∧ 0 < leaseTtl)

include hdue hnow hclaims in
/-- A member that stays was not read: it would have been claimed, or removed. -/
theorem not_read (hst : Stays m s (k.due mode now n).2 ys) :
    m ∉ zrangebyscore k.timeline (some now) (some n) := fun hm => by
  rcases due_meets hdue hm with ⟨id, hid, rfl⟩ | ⟨_, hgone⟩
  · obtain ⟨us, vs, hys, hlater⟩ := later_of_claimed (k.due mode now n).2 (hclaims id hid)
    exact absurd (hlater s (hst us vs hys)) (not_lt.mpr hnow)
  · have hsome := hst [] ys rfl
    rw [afterCommands, replay_nil, hgone] at hsome
    cases hsome

include hdue hnow hclaims in
/-- What was read stands in front of the member no more once it is claimed. -/
theorem read_not_ahead (hby : ∀ c ∈ ys, c.Behind (Ranked.place s m))
    (hx : x ∈ zrangebyscore k.timeline (some now) (some n)) :
    x ∉ Ranked.ahead ((k.due mode now n).2.afterCommands ys).timeline (Ranked.place s m) := fun hmem => by
  rcases due_meets hdue hx with ⟨id, hid, rfl⟩ | ⟨_, hgone⟩
  · obtain ⟨us, vs, rfl, hlater⟩ := later_of_claimed (k.due mode now n).2 (hclaims id hid)
    rw [afterCommands_append] at hmem
    have hbv : ∀ c ∈ vs, c.Behind (Ranked.place s m) := fun c hc => hby c (List.mem_append_right _ hc)
    obtain ⟨t, ht, hlt⟩ := Ranked.mem_ahead.mp (ahead_afterCommands hbv hmem)
    exact absurd (place_lt (hnow.trans_lt (hlater t ht)) m (encode id)) (not_lt.mpr hlt.le)
  · obtain ⟨t, ht, _⟩ := Ranked.mem_ahead.mp (ahead_afterCommands hby hmem)
    rw [hgone] at ht
    cases ht

include hdue hnow hclaims in
/-- A poll and its claims take as many as the poll's limit from in front of a member they pass over. -/
theorem poll_uses_up (hlimit : (limit : Int) ≤ n) (hs : k.timeline.lookup m = some s)
    (hby : ∀ c ∈ ys, c.Behind (Ranked.place s m)) (hst : Stays m s (k.due mode now n).2 ys) :
    (Ranked.ahead ((k.due mode now n).2.afterCommands ys).timeline (Ranked.place s m)).card + limit ≤
      (Ranked.ahead k.timeline (Ranked.place s m)).card := by
  have hnot := not_read hdue hnow hclaims hst
  have hlen := length_of_unread (by omega) hs hnow hnot
  have hread : ∀ x ∈ zrangebyscore k.timeline (some now) (some n),
      x ∈ Ranked.ahead k.timeline (Ranked.place s m) := fun x hx => ahead_of_unread hs hnot hx
  have hout : ∀ x ∈ zrangebyscore k.timeline (some now) (some n),
      x ∉ Ranked.ahead ((k.due mode now n).2.afterCommands ys).timeline (Ranked.place s m) :=
    fun x hx => read_not_ahead hdue hnow hclaims hby hx
  have hnodup := nodup_zrangebyscore k.timeline (some now) (some n)
  generalize zrangebyscore k.timeline (some now) (some n) = R at hlen hread hout hnodup
  have hdue₂ : Ranked.ahead (k.due mode now n).2.timeline (Ranked.place s m) ⊆
      Ranked.ahead k.timeline (Ranked.place s m) := ahead_run (c := .due mode now n) trivial
  have hsub : R.toFinset ⊆ Ranked.ahead k.timeline (Ranked.place s m) := fun x hx =>
    hread x (List.mem_toFinset.mp hx)
  have hrest : Ranked.ahead ((k.due mode now n).2.afterCommands ys).timeline (Ranked.place s m) ⊆
      Ranked.ahead k.timeline (Ranked.place s m) \ R.toFinset := fun x hx =>
    Finset.mem_sdiff.mpr ⟨hdue₂ (ahead_afterCommands hby hx),
      fun hxR => hout x (List.mem_toFinset.mp hxR) hx⟩
  have hcard := List.toFinset_card_of_nodup hnodup
  have hle := Finset.card_le_card hrest
  have hRle := Finset.card_le_card hsub
  rw [Finset.card_sdiff_of_subset hsub] at hle
  omega

end Polled

/-- **A turn that passes over a member takes as many as its limit from in front of it.** -/
theorem turn_uses_up (h : Turn limit s k cs) (hb : ∀ c ∈ cs, c.Behind (Ranked.place s m))
    (hst : Stays m s k cs) :
    (Ranked.ahead (k.afterCommands cs).timeline (Ranked.place s m)).card + limit ≤
      (Ranked.ahead k.timeline (Ranked.place s m)).card := by
  obtain ⟨xs, ys, mode, now, n, ids, hlimit, hnow, hdue, hclaims⟩ := h
  have hbx : ∀ c ∈ xs, c.Behind (Ranked.place s m) := fun c hc => hb c (List.mem_append_left _ hc)
  have hby : ∀ c ∈ ys, c.Behind (Ranked.place s m) := fun c hc =>
    hb c (List.mem_append_right _ (List.mem_cons_of_mem _ hc))
  have htail : Stays m s ((k.afterCommands xs).due mode now n).2 ys := @Stays.rest _ _ _ [_] ys hst.rest
  have hpoll := poll_uses_up hdue hnow hclaims hlimit (hst xs _ rfl) hby htail
  have hxs := Finset.card_le_card (ahead_afterCommands (k := k) hbx)
  rw [afterCommands_append, afterCommands_cons]
  exact hpoll.trans hxs

theorem replay_afterCommands (k : TopicStore) (turns : List (List Command)) :
    replay afterCommands k turns = k.afterCommands turns.flatten := by
  induction turns generalizing k with
  | nil => rfl
  | cons cs turns ih => rw [replay_cons, ih, List.flatten_cons, afterCommands_append]

/-- A turn that passes over a member, nothing being brought in front of it. -/
structure PassedOver (limit : ℕ) (s : ℚ) (m : Bytes) (k : TopicStore) (cs : List Command) : Prop where
  turn : Turn limit s k cs
  behind : ∀ c ∈ cs, c.Behind (Ranked.place s m)
  stays : Stays m s k cs

/-- **Turns that pass over a member come to an end**: each takes its limit from in front of it. -/
theorem turns_use_up {turns : List (List Command)} (h : Along afterCommands (Turn limit s) k turns)
    (hb : ∀ c ∈ turns.flatten, c.Behind (Ranked.place s m)) (hst : Stays m s k turns.flatten) :
    limit * turns.length ≤ (Ranked.ahead k.timeline (Ranked.place s m)).card := by
  have hpassed : Along afterCommands (PassedOver limit s m) k turns := by
    refine h.imp_split fun us cs vs hcut hturn => ⟨hturn, fun c hc => hb c ?_, fun xs ys hcs => ?_⟩
    · rw [hcut, List.flatten_append, List.flatten_cons]
      exact List.mem_append_right _ (List.mem_append_left _ hc)
    · rw [replay_afterCommands, ← afterCommands_append]
      exact hst (us.flatten ++ xs) (ys ++ vs.flatten) (by simp [hcut, hcs])
  let inFront : TopicStore → ℕ := fun k => (Ranked.ahead k.timeline (Ranked.place s m)).card
  have hstep : ∀ k cs, PassedOver limit s m k cs → inFront (k.afterCommands cs) + limit ≤ inFront k :=
    fun k cs hk => turn_uses_up hk.turn hk.behind hk.stays
  have huse : inFront (replay afterCommands k turns) + limit * turns.length ≤ inFront k :=
    hpassed.uses_up inFront hstep
  exact (Nat.le_add_left _ _).trans huse

end Turns

/-! ## 4. No starvation -/

section Served

variable {k : TopicStore} {id : String} {p : Bytes} {s : ℚ} {c : Command}

theorem cell_eq_some {m : Bytes} : k.cell m = some (p, s) ↔
    k.timeline.lookup m = some s ∧ k.payloads.lookup m = some p := by
  unfold cell
  cases k.timeline.lookup m <;> cases k.payloads.lookup m <;> simp [and_comm]

/-- What can happen to a timer that is scheduled, on keys that hold anything else besides. -/
inductive Served (k : TopicStore) (id : String) (p : Bytes) (s : ℚ) : Command → Prop where
  /-- Some worker's claim returned its payload. -/
  | handedOut (now leaseTtl : ℚ) (hs : s ≤ now) (hp : (k.claim id now leaseTtl).1 = some p) :
      Served k id p s (.claim id now leaseTtl)
  | rescheduled (p' : Bytes) (ts : ℚ) : Served k id p s (.schedule id p' ts)
  | removed : Served k id p s (.remove id)
  | cancelled : Served k id p s .cancelAll

/-- A command serves a timer or leaves it as it is. -/
theorem cell_run_or_served (h : k.cell (encode id) = some (p, s)) (c : Command) :
    (k.run c).2.cell (encode id) = some (p, s) ∨ Served k id p s c := by
  obtain ⟨ht, hp⟩ := cell_eq_some.mp h
  have hne : ∀ {timerId}, timerId ≠ id → encode id ≠ encode timerId :=
    fun hti e => hti (encode_inj.mp e).symm
  cases c with
  | schedule timerId payload activationTs =>
      by_cases hti : timerId = id
      · subst hti
        exact Or.inr (.rescheduled ..)
      · exact Or.inl ((cell_schedule_ne (hne hti)).trans h)
  | due mode now limit =>
      left
      rcases k.lookup_due mode now limit (encode id) with ⟨hst, hsp⟩ | ⟨hd, _⟩
      · exact cell_eq_some.mpr ⟨hst.trans ht, hsp.trans hp⟩
      · rw [decode_encode] at hd
        cases hd
  | discard rawId =>
      have hraw : encode id ≠ rawId.1 := fun e => by
        have hd := rawId.2
        rw [← e, decode_encode] at hd
        cases hd
      exact Or.inl ((cell_commitLua_ne hraw).trans h)
  | claim timerId now leaseTtl =>
      by_cases hti : timerId = id
      · subst hti
        rcases k.claimLua_cases (encode timerId) now (now + leaseTtl) with
          ⟨_, hr⟩ | ⟨_, _, _, hnone, _⟩ | ⟨u, q, hu, hle, hq, hr⟩
        · left
          simp only [run, claim, hr]
          exact h
        · rw [hp] at hnone
          cases hnone
        · rw [ht] at hu
          rw [hp] at hq
          cases hu
          cases hq
          exact Or.inr (.handedOut now leaseTtl hle (by rw [claim, hr]))
      · exact Or.inl ((cell_claimLua_ne (hne hti)).trans h)
  | remove timerId =>
      by_cases hti : timerId = id
      · subst hti
        exact Or.inr .removed
      · exact Or.inl ((cell_commitLua_ne (hne hti)).trans h)
  | pending mode before => exact Or.inl h
  | isPending timerId => exact Or.inl h
  | cancelAll => exact Or.inr .cancelled

/-- Until a command serves it, a timer is as it was scheduled. -/
theorem cell_afterCommands_or_served (h : k.cell (encode id) = some (p, s)) (cs : List Command) :
    (k.afterCommands cs).cell (encode id) = some (p, s) ∨
      ∃ xs c ys, cs = xs ++ c :: ys ∧ (k.afterCommands xs).cell (encode id) = some (p, s) ∧
        Served (k.afterCommands xs) id p s c := by
  induction cs using List.reverseRecOn with
  | nil => exact Or.inl h
  | append_singleton cs c ih =>
      rcases ih with hcell | ⟨xs, d, ys, rfl, hcell, hserved⟩
      · rcases cell_run_or_served hcell c with hnext | hserved
        · left
          rw [afterCommands_append]
          exact hnext
        · exact Or.inr ⟨cs, c, [], rfl, hcell, hserved⟩
      · exact Or.inr ⟨xs, d, ys ++ [c], by simp, hcell, hserved⟩

end Served

/-- **NO STARVATION.** On keys that hold anything, a timer is handed out to some worker, with its own
    payload, unless it is scheduled anew or removed first (cancelled, or committed by an earlier
    delivery of its id), by the time that as many turns of polling were made as the timers in front of
    it fill, and one more. -/
theorem no_starvation (k : TopicStore) (id : String) (p : Bytes) (s : ℚ) (limit : ℕ)
    (turns : List (List Command)) (hcell : k.cell (encode id) = some (p, s))
    (hbehind : ∀ c ∈ turns.flatten, c.Behind (Ranked.place s (encode id)))
    (hturns : Along afterCommands (Turn limit s) k turns)
    (hmany : (Ranked.ahead k.timeline (Ranked.place s (encode id))).card < limit * turns.length) :
    ∃ xs c ys, turns.flatten = xs ++ c :: ys ∧ (k.afterCommands xs).cell (encode id) = some (p, s) ∧
      Served (k.afterCommands xs) id p s c := by
  by_contra hnot
  have hstays : Stays (encode id) s k turns.flatten := fun xs ys hcut => by
    rcases cell_afterCommands_or_served hcell xs with h | ⟨us, c, vs, rfl, hc, hserved⟩
    · exact (cell_eq_some.mp h).1
    · exact absurd ⟨us, c, vs ++ ys, by rw [hcut]; simp, hc, hserved⟩ hnot
  have hbound := turns_use_up hturns hbehind hstays
  omega

/-- A stray member, an id without a payload and a timer, each due before the next. -/
def crowded : TopicStore :=
  ⟨((TopicStore.empty.schedule "a" [1] 0).timeline.insert [0xff] (-2)).insert (encode "g") (-1),
    (TopicStore.empty.schedule "a" [1] 0).payloads⟩

/-- Polls for one id at a time, each with the claim of what it returned. -/
def crowdedTurns : List (List Command) :=
  [[.due .bytes 0 1], [.due .bytes 0 1, .claim "g" 0 30], [.due .bytes 0 1, .claim "a" 0 30]]

theorem crowded_turns : Along afterCommands (Turn 1 0) crowded crowdedTurns := by
  have hclaimed : ∀ id : String, ∀ id' ∈ [id], ∃ c leaseTtl : ℚ,
      Command.claim id' c leaseTtl ∈ [Command.claim id 0 30] ∧ 0 ≤ c ∧ 0 < leaseTtl := by
    intro id id' hid
    rw [List.mem_singleton.mp hid]
    exact ⟨0, 30, List.mem_singleton_self _, le_rfl, by decide +kernel⟩
  have h1 : Turn 1 0 crowded [.due .bytes 0 1] :=
    .mk [] [] .bytes 0 1 [] le_rfl le_rfl (by decide +kernel) (by simp)
  have h2 : Turn 1 0 (crowded.afterCommands [.due .bytes 0 1]) [.due .bytes 0 1, .claim "g" 0 30] :=
    .mk [] _ .bytes 0 1 ["g"] le_rfl le_rfl (by decide +kernel) (hclaimed "g")
  have h3 : Turn 1 0 ((crowded.afterCommands [.due .bytes 0 1]).afterCommands
      [.due .bytes 0 1, .claim "g" 0 30]) [.due .bytes 0 1, .claim "a" 0 30] :=
    .mk [] _ .bytes 0 1 ["a"] le_rfl le_rfl (by decide +kernel) (hclaimed "a")
  exact ⟨h1, h2, h3, trivial⟩

theorem crowded_later : ∀ c ∈ crowdedTurns.flatten, c.Later 0 := by decide +kernel

/-- The timer behind the other two is served by the third turn. -/
theorem no_starvation_third : ∃ xs c ys, crowdedTurns.flatten = xs ++ c :: ys ∧
    (crowded.afterCommands xs).cell (encode "a") = some ([1], 0) ∧
    Served (crowded.afterCommands xs) "a" [1] 0 c :=
  no_starvation crowded "a" [1] 0 1 crowdedTurns (by decide +kernel)
    (fun c hc => behind_of_later (crowded_later c hc) le_rfl) crowded_turns (by decide +kernel)

/-! ## 5. Members that are no text -/

section Strays

variable {k : TopicStore} {m : Bytes} {s b : ℚ} {cs : List Command}

/-- A member that is no text keeps its score, or is gone: no command names it but to remove it. -/
theorem lookup_run_stray (hm : decode m = none) (c : Command) :
    (k.run c).2.timeline.lookup m = k.timeline.lookup m ∨ (k.run c).2.timeline.lookup m = none := by
  have hne : ∀ id : String, m ≠ encode id := fun id e => by
    rw [e, decode_encode] at hm
    cases hm
  cases c with
  | schedule timerId payload activationTs => exact Or.inl (AList.lookup_insert_ne (hne timerId))
  | due mode now limit =>
      rcases k.lookup_due mode now limit m with ⟨hsame, _⟩ | ⟨_, hgone⟩
      · exact Or.inl hsame
      · exact Or.inr hgone
  | discard rawId =>
      by_cases hr : m = rawId.1
      · subst hr
        exact Or.inr (AList.lookup_erase _ _)
      · exact Or.inl (AList.lookup_erase_ne hr)
  | claim timerId now leaseTtl => exact Or.inl (lookup_claimLua_ne (hne timerId))
  | remove timerId => exact Or.inl (AList.lookup_erase_ne (hne timerId))
  | pending mode before => exact Or.inl rfl
  | isPending timerId => exact Or.inl rfl
  | cancelAll => exact Or.inr rfl

theorem lookup_afterCommands_stray (hm : decode m = none) (cs : List Command) :
    (k.afterCommands cs).timeline.lookup m = k.timeline.lookup m ∨
      (k.afterCommands cs).timeline.lookup m = none := by
  induction cs using List.reverseRecOn with
  | nil => exact Or.inl rfl
  | append_singleton cs c ih =>
      rw [afterCommands_append]
      rcases lookup_run_stray (k := k.afterCommands cs) hm c with h | h
      · rw [show ((k.afterCommands cs).afterCommands [c]) = ((k.afterCommands cs).run c).2 from rfl, h]
        exact ih
      · exact Or.inr h

/-- What is no text and still there at the end was there all the time. -/
theorem stays_of_stray (hm : decode m = none) (h : (k.afterCommands cs).timeline.lookup m = some s) :
    Stays m s k cs := by
  intro xs ys hcut
  subst hcut
  rw [afterCommands_append] at h
  rcases lookup_afterCommands_stray (k := k.afterCommands xs) hm ys with hy | hy
  · rw [← hy, h]
  · rw [hy] at h
    cases h

/-- The members in front of one that is due by `b` are due by `b` as well. -/
theorem card_ahead_lt (hm : k.timeline.lookup m = some s) (hs : s ≤ b) :
    (Ranked.ahead k.timeline (Ranked.place s m)).card < (Ranked.upTo k.timeline (some b)).length := by
  have hnodup := Ranked.nodup_upTo k.timeline (some b)
  have hread : m ∈ (Ranked.upTo k.timeline (some b)).toFinset :=
    List.mem_toFinset.mpr (Ranked.mem_upTo.mpr ⟨s, hm, (Ranked.atMost_some b s).mpr hs⟩)
  have hsub : Ranked.ahead k.timeline (Ranked.place s m) ⊆
      (Ranked.upTo k.timeline (some b)).toFinset.erase m := by
    intro x hx
    obtain ⟨t, ht, hlt⟩ := Ranked.mem_ahead.mp hx
    have hts : t ≤ s := by
      rcases Prod.Lex.toLex_lt_toLex.mp hlt with h | h
      · exact h.le
      · exact h.1.le
    refine Finset.mem_erase.mpr ⟨fun e => ?_, List.mem_toFinset.mpr (Ranked.mem_upTo.mpr
      ⟨t, ht, (Ranked.atMost_some b t).mpr (hts.trans hs)⟩)⟩
    subst e
    rw [hm] at ht
    cases ht
    exact lt_irrefl _ hlt
  have hle := Finset.card_le_card hsub
  have hpos := Finset.card_pos.mpr ⟨m, hread⟩
  rw [Finset.card_erase_of_mem hread] at hle
  rw [← List.toFinset_card_of_nodup hnodup]
  omega

/-- **POLLING HEALS A TIMELINE.** After as many turns as the members with a score up to `b` fill, among
    anything else that schedules nothing by `b` and whose claims ask for a lease (`Later`), no member
    that is no text has such a score, and the inspection up to `b` returns normally again. -/
theorem strays_healed (k : TopicStore) (b : ℚ) (limit : ℕ) (turns : List (List Command))
    (hlater : ∀ c ∈ turns.flatten, c.Later b) (hturns : Along afterCommands (Turn limit b) k turns)
    (hmany : (Ranked.upTo k.timeline (some b)).length ≤ limit * turns.length) :
    (∀ m s, decode m = none → s ≤ b → (k.afterCommands turns.flatten).timeline.lookup m ≠ some s) ∧
      ∃ ids, (k.afterCommands turns.flatten).pending .bytes (some b) = .ok ids := by
  have hgone : ∀ m s, decode m = none → s ≤ b →
      (k.afterCommands turns.flatten).timeline.lookup m ≠ some s := by
    intro m s hm hs hlookup
    have hstays := stays_of_stray hm hlookup
    have hturn : Along afterCommands (Turn limit s) k turns := by
      refine hturns.imp_split fun _ _ _ _ h => ?_
      obtain ⟨xs, ys, mode, now, n, ids, hlimit, hnow, hdue, hclaims⟩ := h
      exact .mk xs ys mode now n ids hlimit (hs.trans hnow) hdue hclaims
    have hbound := turns_use_up hturn (fun c hc => behind_of_later (hlater c hc) hs) hstays
    have hfew := card_ahead_lt (hstays [] _ rfl) hs
    exact absurd (hmany.trans hbound) (not_le.mpr hfew)
  refine ⟨hgone, _, (pending_bytes _ _ _).mpr ⟨fun m hm => ?_, rfl⟩⟩
  obtain ⟨s, hs, hle⟩ := Ranked.mem_upTo.mp hm
  cases hd : decode m with
  | none => exact absurd hs (hgone m s hd ((Ranked.atMost_some b s).mp hle))
  | some id => rfl

/-- The stray member in front is gone after the three turns. -/
theorem strays_healed_third :
    (∀ m s, decode m = none → s ≤ 0 →
      (crowded.afterCommands crowdedTurns.flatten).timeline.lookup m ≠ some s) ∧
    ∃ ids, (crowded.afterCommands crowdedTurns.flatten).pending .bytes (some 0) = .ok ids :=
  strays_healed crowded 0 1 crowdedTurns crowded_later crowded_turns (by decide +kernel)

end Strays

/-! ## 6. Clients that decode their replies -/

end TopicStore

/-- What the fleet sends whose clients all decode their replies: no poll of theirs removes
    anything. -/
def Command.OfTextClients : Command → Prop
  | .due mode _ _ => mode = .str
  | .discard _ => False
  | _ => True

instance : DecidablePred Command.OfTextClients
  | .due mode _ _ => inferInstanceAs (Decidable (mode = .str))
  | .discard _ => inferInstanceAs (Decidable False)
  | .schedule .. | .claim .. | .remove _ | .pending .. | .isPending _ | .cancelAll =>
      inferInstanceAs (Decidable True)

namespace TopicStore

section TextClients

variable {k : TopicStore} {m : Bytes} {s : ℚ} {cs : List Command}

theorem mapM_decode_of_stray {ms : List Bytes} (hm : decode m = none) (hmem : m ∈ ms) :
    ms.mapM decode = none := by
  cases h : ms.mapM decode with
  | none => rfl
  | some texts =>
      rw [← map_encode_of_mapM_decode h] at hmem
      obtain ⟨id, _, rfl⟩ := List.mem_map.mp hmem
      rw [decode_encode] at hm
      cases hm

/-- A poll of a text client that reads a stray member raises. -/
theorem due_str_of_stray (hm : decode m = none) {now : ℚ} {limit : Int}
    (hmem : m ∈ zrangebyscore k.timeline (some now) (some limit)) :
    k.due .str now limit = (.error .unicodeDecodeError, k) := by
  rw [due_str, mapM_decode_of_stray hm hmem]

theorem lookup_afterCommands_text (hm : decode m = none) (hcs : ∀ c ∈ cs, c.OfTextClients)
    (hkept : .cancelAll ∉ cs) : (k.afterCommands cs).timeline.lookup m = k.timeline.lookup m := by
  have hne : ∀ id : String, m ≠ encode id := fun id e => by
    rw [e, decode_encode] at hm
    cases hm
  refine replay_invariant (I := fun k' : TopicStore => k'.timeline.lookup m = k.timeline.lookup m)
    (fun k' c hc h => ?_) rfl
  refine Eq.trans ?_ h
  have htext := hcs c hc
  cases c with
  | schedule timerId payload activationTs => exact AList.lookup_insert_ne (hne timerId)
  | due mode now limit =>
      cases (htext : mode = .str)
      show (k'.due .str now limit).2.timeline.lookup m = _
      rw [due_str_snd]
  | discard rawId => exact htext.elim
  | claim timerId now leaseTtl => exact lookup_claimLua_ne (hne timerId)
  | remove timerId => exact AList.lookup_erase_ne (hne timerId)
  | pending mode before => rfl
  | isPending timerId => rfl
  | cancelAll => exact absurd hc hkept

/-- **A TEXT CLIENT NEVER GETS PAST A STRAY MEMBER.** As long as nobody clears the topic, and however
    the fleet goes on otherwise, the member stays; no poll ever fetches a timer behind it, a poll that
    reaches it raises, and so does an inspection whose bound reaches it. -/
theorem text_client_blocked (k : TopicStore) (m : Bytes) (s : ℚ) (hm : decode m = none)
    (hs : k.timeline.lookup m = some s) (cs : List Command) (hcs : ∀ c ∈ cs, c.OfTextClients)
    (hkept : .cancelAll ∉ cs) :
    let k' := k.afterCommands cs
    k'.timeline.lookup m = some s ∧
    (∀ now limit ids, (k'.due .str now limit).1 = .ok ids →
      ∀ id ∈ ids, encode id ∈ Ranked.ahead k'.timeline (Ranked.place s m)) ∧
    (∀ now (limit : Int), s ≤ now →
      (limit < 0 ∨ ((Ranked.ahead k'.timeline (Ranked.place s m)).card : Int) < limit) →
      k'.due .str now limit = (.error .unicodeDecodeError, k')) ∧
    ∀ before, Ranked.atMost before s = true → k'.pending .str before = .error .unicodeDecodeError := by
  intro k'
  have hs' : k'.timeline.lookup m = some s := (lookup_afterCommands_text hm hcs hkept).trans hs
  refine ⟨hs', fun now limit ids hdue id hid => ?_, fun now limit hnow hlimit => ?_, fun before hb => ?_⟩
  · have hmem : encode id ∈ zrangebyscore k'.timeline (some now) (some limit) := by
      rw [due_str] at hdue
      cases htexts : (zrangebyscore k'.timeline (some now) (some limit)).mapM decode with
      | none =>
          rw [htexts] at hdue
          cases hdue
      | some texts =>
          rw [htexts] at hdue
          cases hdue
          rw [← map_encode_of_mapM_decode htexts]
          exact List.mem_map_of_mem hid
    refine ahead_of_unread hs' (fun hread => ?_) hmem
    rw [due_str_of_stray hm hread] at hdue
    cases hdue
  · refine due_str_of_stray hm ?_
    by_contra hnot
    have hall : m ∈ Ranked.upTo k'.timeline (some now) :=
      Ranked.mem_upTo.mpr ⟨s, hs', (Ranked.atMost_some now s).mpr hnow⟩
    rcases hlimit with hneg | hmany
    · unfold zrangebyscore at hnot
      simp only [if_pos hneg] at hnot
      exact hnot hall
    · have hlen := length_of_unread (by omega) hs' hnow hnot
      have hsub : (zrangebyscore k'.timeline (some now) (some limit)).toFinset ⊆
          Ranked.ahead k'.timeline (Ranked.place s m) := fun x hx =>
        ahead_of_unread hs' hnot (List.mem_toFinset.mp hx)
      have hle := Finset.card_le_card hsub
      rw [List.toFinset_card_of_nodup (nodup_zrangebyscore _ _ _)] at hle
      omega
  · have hmem : m ∈ zrangebyscore k'.timeline before none := Ranked.mem_upTo.mpr ⟨s, hs', hb⟩
    unfold pending
    simp only [ClientMode.reply, mapM_decode_of_stray hm hmem]
    rfl

/-- A timer, and behind it a stray member: a text client fetches the timer, and then nothing more. -/
theorem text_client_blocked_once :
    let k : TopicStore := ⟨(TopicStore.empty.schedule "a" [1] 0).timeline.insert [0xff] 1,
      (TopicStore.empty.schedule "a" [1] 0).payloads⟩
    let k' := k.afterCommands [.due .str 1 1, .claim "a" 1 30]
    k'.timeline.lookup [0xff] = some 1 ∧ k'.due .str 1 1 = (.error .unicodeDecodeError, k') := by
  intro k k'
  have h := text_client_blocked k [0xff] 1 (by decide) (by decide +kernel)
    [.due .str 1 1, .claim "a" 1 30] (by decide) (by decide)
  exact ⟨h.1, h.2.2.1 1 1 le_rfl (Or.inr (by decide +kernel))⟩

end TextClients

end TopicStore

end RedisTimers
