/-
  File:      RedisTimers/Brokers.lean
  Subject:   SEVERAL BROKERS ON ONE REDIS (broker.py: timeline_key, payloads_key; store.py: _keys).
             Each broker has a store with key names of its own; nothing compares them with those of
             another broker.

  * `NamesApart` -- no key name of the one store, with its colon, starts with one of the other with
    its colon;
  * `claim_removed`, `isPending_one_key` -- what two brokers with a key in common do to one another;
  * `separate_iff_namesApart` -- no broker ever notices another one, whatever their topics are called,
    exactly if the names of any two are apart;
  * `brokers_as_calendars` -- REFINEMENT: then each of them is answered by calendars of its own, as
    if it were alone.
-/
import RedisTimers.Calendar

namespace RedisTimers

open Footprint Replay

namespace TimerStore

/-! ## 1. Names and keys -/

/-- The key names of a store. -/
def names (store : TimerStore) : List String := [store.timelineKey, store.payloadsKey]

/-- The keys of a store, of whatever topic. -/
def keySpace (store : TimerStore) : Set String := {key | ∃ topic, key ∈ store.footprint topic}

/-- No name of the one store followed by its colon starts with a name of the other one followed by its
    colon; so no two names are equal. -/
def NamesApart (s t : TimerStore) : Prop :=
  ∀ a ∈ s.names, ∀ b ∈ t.names, ¬ (a ++ ":").toList <+: (b ++ ":").toList ∧
    ¬ (b ++ ":").toList <+: (a ++ ":").toList

instance (s t : TimerStore) : Decidable (s.NamesApart t) :=
  inferInstanceAs (Decidable (∀ a ∈ s.names, ∀ b ∈ t.names, _))

variable {s t : TimerStore} {key : String}

theorem mem_keySpace : key ∈ s.keySpace ↔ ∃ a ∈ s.names, ∃ topic, key = a ++ ":" ++ topic := by
  constructor
  · intro h
    obtain ⟨topic, rfl | rfl⟩ := h
    · exact ⟨_, List.mem_cons_self, topic, rfl⟩
    · exact ⟨_, List.mem_cons_of_mem _ List.mem_cons_self, topic, rfl⟩
  · intro h
    obtain ⟨a, ha, topic, rfl⟩ := h
    rcases List.mem_pair.mp ha with rfl | rfl
    · exact ⟨topic, Or.inl rfl⟩
    · exact ⟨topic, Or.inr rfl⟩

/-- Two stores have a key in common exactly if a name of one with its colon starts with a name of the
    other with its colon. -/
theorem disjoint_keySpace_iff : Disjoint s.keySpace t.keySpace ↔ s.NamesApart t := by
  rw [Set.disjoint_left]
  constructor
  · intro h a ha b hb
    refine ⟨fun hab => ?_, fun hba => ?_⟩
    · rcases meet_of_starts hab with rfl | ⟨x, _, hkey⟩
      · exact h (mem_keySpace.mpr ⟨a, ha, "t", rfl⟩) (mem_keySpace.mpr ⟨a, hb, "t", rfl⟩)
      · exact h (mem_keySpace.mpr ⟨a, ha, x, rfl⟩) (mem_keySpace.mpr ⟨b, hb, "t", hkey⟩)
    · rcases meet_of_starts hba with rfl | ⟨x, _, hkey⟩
      · exact h (mem_keySpace.mpr ⟨b, ha, "t", rfl⟩) (mem_keySpace.mpr ⟨b, hb, "t", rfl⟩)
      · exact h (mem_keySpace.mpr ⟨a, ha, "t", hkey⟩) (mem_keySpace.mpr ⟨b, hb, x, rfl⟩)
  · intro h key hs ht
    obtain ⟨a, ha, x, rfl⟩ := mem_keySpace.mp hs
    obtain ⟨b, hb, y, hkey⟩ := mem_keySpace.mp ht
    have hl : (a ++ ":").toList ++ x.toList = (b ++ ":").toList ++ y.toList := by
      rw [← String.toList_append, ← String.toList_append]
      exact congrArg String.toList hkey
    rcases List.append_eq_append_iff.mp hl with ⟨c, hc, _⟩ | ⟨c, hc, _⟩
    · exact (h a ha b hb).1 ⟨c, hc.symm⟩
    · exact (h a ha b hb).2 ⟨c, hc.symm⟩

/-! ## 2. What a broker notices where it has a key in common with another one -/

/-- A read of a sorted set's size writes nothing, whatever its key holds. -/
theorem exec_zcard_snd (key : String) (db : Db) : (exec (zcard key) db).2 = db := by
  unfold zcard readZSet
  rw [exec_bind, exec_bind, exec_look]
  simp only
  cases db key with
  | none => rfl
  | some v => cases v <;> rfl

theorem exec_cancelAll_snd (store : TimerStore) (topic : String) (db : Db) :
    (exec (store.run topic .cancelAll) db).2 =
      Function.update (Function.update db (store.keys topic).1 none) (store.keys topic).2 none := by
  show (exec (store.cancelAll topic >>= fun n => pure (Reply.count n)) db).2 = _
  rw [exec_bind_snd fun _ _ => rfl]
  unfold cancelAll transaction
  simp only
  rw [exec_bind_snd, exec_bind_snd]
  · have hz : Yields (· = db) (zcard (store.keys topic).1) (exec (zcard (store.keys topic).1) db).1
        (· = db) := by
      intro db' hdb
      subst hdb
      exact ⟨rfl, exec_zcard_snd _ _⟩
    have hu : ∀ (key : String) (db : Db), Yields (· = db) (unlink key) (exec (unlink key) db).1
        (· = Function.update db key none) := by
      intro key db db' hdb
      subst hdb
      exact ⟨rfl, rfl⟩
    exact (execEach_cons_yields hz (execEach_cons_yields (hu _ _) (execEach_cons_yields (hu _ _)
      execEach_nil_yields)) db rfl).2
  · intro rs db
    cases raiseFirst rs <;> rfl
  · intro ns db
    cases ns <;> rfl

/-- **`cancel_all` removes the two keys of its topic, whatever they hold**, and no other. -/
theorem cancelAll_removes (store : TimerStore) (topic : String) (db : Db) :
    (∀ key ∈ store.footprint topic, (exec (store.run topic .cancelAll) db).2 key = none) ∧
      ∀ key, key ∉ store.footprint topic → (exec (store.run topic .cancelAll) db).2 key = db key := by
  rw [exec_cancelAll_snd]
  constructor
  · intro key hkey
    rcases hkey with rfl | rfl
    · by_cases h : (store.keys topic).1 = (store.keys topic).2
      · rw [h, Function.update_self]
      · rw [Function.update_of_ne h, Function.update_self]
    · rw [Function.update_self]
  · intro key hkey
    rw [Function.update_of_ne fun h => hkey (Or.inr h), Function.update_of_ne fun h => hkey (Or.inl h)]

/-- The timer a broker looks for. -/
def noticed : Command := .schedule "t" [] 0

variable {x y : String}

/-- A broker whose key another one removed does not get the timer it has scheduled. -/
theorem claim_removed (hne : (t.keys y).1 ≠ (t.keys y).2) (hs : key ∈ s.footprint x)
    (ht : key ∈ t.footprint y) :
    let db := (exec (t.run y noticed) fun _ => none).2
    (exec (t.run y (.claim "t" 0 0)) db).1 = .ok (.payload (some [])) ∧
      (exec (t.run y (.claim "t" 0 0)) (exec (s.run x .cancelAll) db).2).1 = .ok (.payload none) := by
  intro db
  have hdb : t.Holds y (TopicStore.empty.schedule "t" [] 0) db :=
    (run_yields hne noticed (fun _ => none) ⟨rfl, rfl⟩).2
  refine ⟨(run_yields hne (.claim "t" 0 0) db hdb).1.trans (by decide +kernel), ?_⟩
  obtain ⟨hgone, hkept⟩ := cancelAll_removes s x db
  generalize (exec (s.run x .cancelAll) db).2 = db' at hgone hkept
  by_cases htl : (t.keys y).1 ∈ s.footprint x
  · have hnone := hgone _ htl
    simp [run, claim, claimScript, zscore, readZSet, exec_bind, hnone]
  · -- the timeline is left, without the payload
    have hpl : (t.keys y).2 ∈ s.footprint x := by
      rcases ht with rfl | rfl
      · exact absurd hs htl
      · exact hs
    have hholds : t.Holds y ⟨(TopicStore.empty.schedule "t" [] 0).timeline, ∅⟩ db' :=
      ⟨(hkept _ htl).trans hdb.1, hgone _ hpl⟩
    exact (run_yields hne (.claim "t" 0 0) db' hholds).1.trans (by decide +kernel)

/-- Where the two keys of a topic are one, a schedule raises and leaves its timeline there. -/
theorem schedule_one_key (hs : (s.keys x).1 = (s.keys x).2) :
    (exec (s.run x noticed) fun _ => none).2 (s.keys x).1 =
      some (.zset (AList.insert (encode "t") 0 ∅)) := by
  have hz : Yields (· = fun _ => none) (zadd (s.keys x).1 (encode "t") 0) (.ok 1)
      (fun db : Db => db (s.keys x).1 = some (.zset (AList.insert (encode "t") 0 ∅))) := by
    intro db hdb
    subst hdb
    rw [exec_zadd (z := ∅) rfl]
    refine ⟨rfl, ?_⟩
    show Function.update (fun _ => none) (s.keys x).1 (zsetValue (AList.insert (encode "t") 0 ∅))
      (s.keys x).1 = _
    rw [Function.update_self]
    rfl
  have hh : Yields (fun db : Db => db (s.keys x).1 = some (.zset (AList.insert (encode "t") 0 ∅)))
      (hset (s.keys x).2 (encode "t") []) (.error wrongType)
      (fun db : Db => db (s.keys x).1 = some (.zset (AList.insert (encode "t") 0 ∅))) := by
    intro db hdb
    rw [← hs]
    simp [hset, readHash, exec_bind, hdb]
  show (exec (s.schedule x "t" [] 0 >>= fun _ => pure Reply.done) fun _ => none).2 _ = _
  rw [exec_bind_snd fun _ _ => rfl]
  unfold schedule transaction
  simp only
  rw [exec_bind_snd fun _ _ => rfl, exec_bind_snd]
  · exact (execEach_cons_yields hz (execEach_cons_yields hh execEach_nil_yields) _ rfl).2
  · intro rs db
    cases raiseFirst rs <;> rfl

/-- Where two brokers have one key for all, the one reports a timer that the other has scheduled. -/
theorem isPending_one_key (hs : (s.keys x).1 = (s.keys x).2) (ht : (t.keys y).1 = (t.keys y).2)
    (hkey : key ∈ s.footprint x) (hkey' : key ∈ t.footprint y) :
    (exec (t.run y (.isPending "t")) (exec (s.run x noticed) fun _ => none).2).1 = .ok (.flag true) := by
  have hone : (t.keys y).1 = (s.keys x).1 := by
    rcases hkey with rfl | rfl <;> rcases hkey' with h | h
    · exact h.symm
    · exact ht.trans h.symm
    · exact h.symm.trans hs.symm
    · exact (ht.trans h.symm).trans hs.symm
  have hdb := schedule_one_key hs
  rw [← hone] at hdb
  generalize (exec (s.run x noticed) fun _ => none).2 = db at hdb
  simp only [run, isPending, zscore, readZSet, exec_bind, exec_look, exec_pure, hdb, AList.lookup_insert,
    Option.isSome_some]

end TimerStore

/-! ## 3. Runs of several brokers -/

section Brokers

variable {ι : Type} [DecidableEq ι] (stores : ι → TimerStore)

/-- A call of one of the brokers. -/
def brokerCall (i : ι × String × Command) : Cmd Reply := (stores i.1).call i.2

/-- The calls of one broker. -/
def ofBroker (n : ι) (i : ι × String × Command) : Bool := decide (i.1 = n)

/-- **Brokers apart**: in no run of their calls does a broker get another result than it would get if
    the others were not there. -/
def Separate : Prop := ∀ n (calls : List (ι × String × Command)),
  resultsOf (ofBroker n) calls (runAll (brokerCall stores) calls fun _ => none).1 =
    (runAll (brokerCall stores) (calls.filter (ofBroker n)) fun _ => none).1

variable {stores}

omit [DecidableEq ι] in
theorem local_brokerCall (i : ι × String × Command) :
    Local (stores i.1).keySpace (brokerCall stores i) :=
  (TimerStore.local_run (stores i.1) i.2.1 i.2.2).mono fun _ hkey => ⟨i.2.1, hkey⟩

theorem separate_of_disjoint
    (h : ∀ m n, m ≠ n → Disjoint (stores m).keySpace (stores n).keySpace) : Separate stores := by
  intro n calls
  -- the keys of all other brokers together
  let outside : Set String := {key | ∃ m, m ≠ n ∧ key ∈ (stores m).keySpace}
  have hdrop : ∀ i, ofBroker n i = false → Local outside (brokerCall stores i) := fun i hi =>
    (local_brokerCall i).mono fun _ hkey => ⟨i.1, of_decide_eq_false hi, hkey⟩
  have hapart : Disjoint outside (stores n).keySpace := by
    rw [Set.disjoint_left]
    intro key hout hn
    obtain ⟨m, hm, hkey⟩ := hout
    exact Set.disjoint_left.mp (h m n hm) hkey hn
  have hkeep : ∀ i, ofBroker n i = true → ∃ B, Disjoint outside B ∧ Local B (brokerCall stores i) := by
    intro i hi
    obtain rfl : i.1 = n := of_decide_eq_true hi
    exact ⟨_, hapart, local_brokerCall i⟩
  have hsame : AgreeOn outsideᶜ (fun _ => none : Db) fun _ => none := fun _ _ => rfl
  exact (runAll_purge hdrop hkeep calls hsame).1

section Meeting

variable {m n : ι} {x y key : String} (hmn : m ≠ n) (hm : key ∈ (stores m).footprint x)
  (hn : key ∈ (stores n).footprint y)
include hmn hm hn

/-- One broker's `cancel_all` takes a timer of the other one. -/
theorem not_separate_of_removed (hne : ((stores n).keys y).1 ≠ ((stores n).keys y).2) :
    ¬ Separate stores := by
  intro h
  have hres := h n [(n, y, TimerStore.noticed), (m, x, .cancelAll), (n, y, .claim "t" 0 0)]
  have hother : ofBroker n (m, x, Command.cancelAll) = false := decide_eq_false hmn
  have hown : ∀ c, ofBroker n (n, y, c) = true := fun c => decide_eq_true rfl
  obtain ⟨halone, hall⟩ := TimerStore.claim_removed hne hm hn
  simp [runAll, resultsOf, hother, hown, brokerCall, TimerStore.call, halone, hall] at hres

/-- One broker reports a timer of the other one. -/
theorem not_separate_of_one_key (hs : ((stores m).keys x).1 = ((stores m).keys x).2)
    (ht : ((stores n).keys y).1 = ((stores n).keys y).2) : ¬ Separate stores := by
  intro h
  have hres := h n [(m, x, TimerStore.noticed), (n, y, .isPending "t")]
  have hother : ofBroker n (m, x, TimerStore.noticed) = false := decide_eq_false hmn
  have hown : ∀ c, ofBroker n (n, y, c) = true := fun c => decide_eq_true rfl
  have hall := TimerStore.isPending_one_key hs ht hm hn
  have halone : (exec ((stores n).run y (.isPending "t")) fun _ => none).1 = .ok (.flag false) := rfl
  simp [runAll, resultsOf, hother, hown, brokerCall, TimerStore.call, halone, hall] at hres

/-- Brokers with a key in common are not apart. -/
theorem not_separate_of_meet : ¬ Separate stores := by
  by_cases ht : ((stores n).keys y).1 = ((stores n).keys y).2
  · by_cases hs : ((stores m).keys x).1 = ((stores m).keys x).2
    · exact not_separate_of_one_key hmn hm hn hs ht
    · exact not_separate_of_removed hmn.symm hn hm hs
  · exact not_separate_of_removed hmn hm hn ht

end Meeting

/-- **Brokers on one Redis are apart exactly if the key names of any two are.** Where a name of the one
    and its colon start with a name of the other one and its colon, as equal names do, there is a run of
    their calls in which one of them gets another result than alone. -/
theorem separate_iff_namesApart (stores : ι → TimerStore) :
    Separate stores ↔ ∀ m n, m ≠ n → (stores m).NamesApart (stores n) := by
  constructor
  · intro h m n hmn
    refine TimerStore.disjoint_keySpace_iff.mp (Set.disjoint_left.mpr ?_)
    intro key hkm hkn
    obtain ⟨x, hm⟩ := hkm
    obtain ⟨y, hn⟩ := hkn
    exact not_separate_of_meet hmn hm hn h
  · exact fun h => separate_of_disjoint fun m n hmn => TimerStore.disjoint_keySpace_iff.mpr (h m n hmn)

/-- The calls of one broker alone are a run of its store. -/
theorem runAll_ofBroker (n : ι) (calls : List (ι × String × Command)) (db : Db) :
    runAll (brokerCall stores) (calls.filter (ofBroker n)) db =
      runAll (stores n).call ((calls.filter (ofBroker n)).map Prod.snd) db := by
  refine (runAll_map (fun i hi => ?_) db).symm
  obtain rfl : i.1 = n := of_decide_eq_true (List.mem_filter.mp hi).2
  rfl

/-- **REFINEMENT. Each broker is the calendars of its own topics.** Where the key names of any two
    brokers are apart, and the two of each, a broker's calls among those of all of them return, with
    the answers that calendars empty at first give to its own calls, and these alone. -/
theorem brokers_as_calendars (stores : ι → TimerStore) (hapart : ∀ n, (stores n).Apart)
    (hnames : ∀ m n, m ≠ n → (stores m).NamesApart (stores n)) (calls : List (ι × String × Command))
    (n : ι) :
    ∃ replies, resultsOf (ofBroker n) calls (runAll (brokerCall stores) calls fun _ => none).1 =
        replies.map .ok ∧
      ∀ replies', Answered Calendar.OfTopics.next Calendar.OfTopics.answer (fun _ => .empty)
        ((calls.filter (ofBroker n)).map Prod.snd) replies' ↔ replies' = replies := by
  have hsep : Separate stores := separate_of_disjoint fun m n hmn =>
    TimerStore.disjoint_keySpace_iff.mpr (hnames m n hmn)
  obtain ⟨replies, hrun, hans, _⟩ := TimerStore.runAll_calendars (hapart n)
    ((calls.filter (ofBroker n)).map Prod.snd) TimerStore.stands_empty
  refine ⟨replies, ?_, fun replies' => TimerStore.answered_calendars_iff hans⟩
  rw [hsep n calls, runAll_ofBroker, hrun]

/-- Two brokers, with the default names and with others. -/
def twoBrokers : Bool → TimerStore
  | false => .defaults
  | true => ⟨"my_timeline", "my_payloads"⟩

theorem brokers_as_calendars_two :
    ∃ replies, resultsOf (ofBroker false)
        [(false, "t", .schedule "a" [1] 0), (true, "t", .cancelAll), (false, "t", .isPending "a")]
        (runAll (brokerCall twoBrokers) [(false, "t", .schedule "a" [1] 0), (true, "t", .cancelAll),
          (false, "t", .isPending "a")] fun _ => none).1 = replies.map .ok ∧
      ∀ replies', Answered Calendar.OfTopics.next Calendar.OfTopics.answer (fun _ => .empty)
        [("t", .schedule "a" [1] 0), ("t", .isPending "a")] replies' ↔ replies' = replies :=
  brokers_as_calendars twoBrokers (by decide) (by decide) _ false

end Brokers

end RedisTimers
