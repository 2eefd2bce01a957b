/-
  File:      RedisTimers/Delivery.lean
  Subject:   WHAT A DELIVERY DOES TO ITS TIMER (message.py: decode, ack, nack, reject;
             parser/parser.py: _remove, _discard_corrupt; subscriber/config.py: ack_policy).

  A delivery removes its timer by one awaited call, which may return, or raise with Redis having
  executed it or not. `StreamMessage` of FastStream is assumed to hand the message to its decoder,
  and to set `committed` only where it is unset. Other clients send the topic what they like in
  between.

  * `RemoveOutcome`, `decode` -- a corrupt payload removes and raises, a healthy one does neither;
  * `corrupt_quarantined` -- so a corrupt timer is gone with the first executed removal, and comes
    back as long as there is none; a healthy one is left alone;
  * `Settlement`, `call` -- the three acknowledgements, and the guard around the removal;
  * `settled_once` -- the first call that completes decides, and it decides once;
  * `call_eq_halves` -- a call is what it does up to its removal, and what it does from there on;
  * `NacksOnError`, `failed_nacks` -- what is relied on of FastStream's acknowledgement middleware:
    under the policy of the subscriber a handling that failed is nacked, or left alone.
-/
import RedisTimers.Inspection
import RedisTimers.Message

namespace RedisTimers

open Lease Replay

/-! ## 1. Removals -/

/-- What becomes of an awaited `store.remove`. -/
inductive RemoveOutcome where
  | completed
  /-- Raised, by Redis, the connection or `fail_after`; Redis may have executed the script. -/
  | raised (executed : Bool)
  deriving DecidableEq

def RemoveOutcome.executed : RemoveOutcome → Bool
  | completed => true
  | raised executed => executed

/-- What Redis executes for it. -/
def RemoveOutcome.commands (o : RemoveOutcome) (timerId : String) : List Command :=
  if o.executed then [.remove timerId] else []

/-! ## 2. Decoding -/

/-- How a `decode` ends. -/
inductive DecodeResult (V : Type) where
  | value (v : V)
  /-- The error of the parser. -/
  | corrupt (error : PyError)
  | removalRaised
  | decoderRaised
  deriving DecidableEq

/-- A `decode` with what it did: whether `store.remove` was called, what Redis executed for it,
    and the body the decoder was handed. -/
structure Decoded (V : Type) where
  result : DecodeResult V
  removes : Bool
  commands : List Command
  decoderSaw : Option Bytes
  deriving DecidableEq

section Decode

variable {V : Type} (decoder : TimerStreamMessage → Option V)

/-- `TimerStreamMessage.decode`: `_discard_corrupt` first, where there is one. -/
def TimerStreamMessage.decode (m : TimerStreamMessage) (o : RemoveOutcome) : Decoded V :=
  match m.discardCorrupt with
  | some error =>
      ⟨match o with
        | .completed => .corrupt error
        | .raised _ => .removalRaised,
        true, o.commands m.rawMessage.timerId, none⟩
  | none =>
      ⟨match decoder m with
        | some v => .value v
        | none => .decoderRaised,
        false, [], some m.body⟩

/-- While a message lives: a `decode` of it, or a command of anyone else on its topic. -/
inductive DeliveryEvent where
  | decode (outcome : RemoveOutcome)
  | other (c : Command)
  deriving DecidableEq

/-- The commands Redis executes along the events. -/
def TimerStreamMessage.executed (m : TimerStreamMessage) (es : List DeliveryEvent) : List Command :=
  es.flatMap fun
    | .decode o => (m.decode decoder o).commands
    | .other c => [c]

variable {decoder}

/-- `process` hands on what `decode` gives to its decoder. -/
theorem process_eq_decode {parse : Bytes → Except PyError (Bytes × Headers)} {ids : KeptIds}
    {msg : TimerMessage} {m : TimerStreamMessage} (h : parseMessage parse ids msg = .ok m)
    (o : RemoveOutcome) : process parse ids msg = .ok m ↔ (m.decode some o).result = .value m := by
  unfold process TimerStreamMessage.decode
  rw [h]
  show (match m.discardCorrupt with
    | some e => throw e
    | none => pure m) = Except.ok m ↔ _
  cases m.discardCorrupt with
  | none => simp [pure, Except.pure]
  | some e => cases o <;> simp [throw, throwThe, MonadExceptOf.throw]

end Decode

/-! ## 3. Corrupt payloads -/

section Quarantine

variable {V : Type} (decoder : TimerStreamMessage → Option V)

/-- The keys after the commands `xs`, the claim that delivered `id`, and the events since. -/
def TimerStreamMessage.keysAfter (m : TimerStreamMessage) (xs : List Command) (id : String)
    (c ttl : ℚ) (es : List DeliveryEvent) : TopicStore :=
  .afterAll (xs ++ .claim id c ttl :: m.executed decoder es)

/-- A message whose payload `p` is quarantined: claimed as `id` at `c` for `ttl`, after `xs`. -/
structure Quarantined (m : TimerStreamMessage) (xs : List Command) (id : String) (c ttl : ℚ)
    (p : Bytes) : Prop where
  raises : ∀ o v, (m.decode decoder o).result ≠ .value v
  unseen : ∀ o, (m.decode decoder o).decoderSaw = none
  /-- Every decode attempts the removal, and where that is executed Redis executes it and nothing
      else. -/
  attempts : ∀ o, (m.decode decoder o).removes = true ∧
    (m.decode decoder o).commands = if o.executed then [.remove id] else []
  /-- So a decode takes the id out of both keys, or leaves them as they are. -/
  effect : ∀ es o, m.keysAfter decoder xs id c ttl (es ++ [.decode o]) =
    if o.executed then
      ⟨(m.keysAfter decoder xs id c ttl es).timeline.erase (encode id),
        (m.keysAfter decoder xs id c ttl es).payloads.erase (encode id)⟩
    else m.keysAfter decoder xs id c ttl es
  /-- Once a removal is executed the id is in neither key, and nobody is granted it, until it is
      scheduled again. -/
  removed : ∀ es ys zs, m.executed decoder es = ys ++ .remove id :: zs →
    (∀ q ts, .schedule id q ts ∉ zs) →
    encode id ∉ (m.keysAfter decoder xs id c ttl es).timeline ∧
      encode id ∉ (m.keysAfter decoder xs id c ttl es).payloads ∧
      ∀ now ttl', ((m.keysAfter decoder xs id c ttl es).claim id now ttl').1 = none
  /-- As long as none is, the payload stays, and a claim at or after the end of the last lease is
      granted it: the lease of this claim, where no other one was granted. -/
  kept : ∀ es, (∀ x ∈ m.executed decoder es,
      x ≠ .remove id ∧ x ≠ .cancelAll ∧ ∀ q ts, x ≠ .schedule id q ts) →
    ∃ s, (m.keysAfter decoder xs id c ttl es).timeline.lookup (encode id) = some s ∧
      (m.keysAfter decoder xs id c ttl es).payloads.lookup (encode id) = some p ∧
      (∀ now ttl', s ≤ now →
        ((m.keysAfter decoder xs id c ttl es).claim id now ttl').1 = some p) ∧
      ((∀ ys now ttl' zs, m.executed decoder es = ys ++ .claim id now ttl' :: zs →
        ((TopicStore.afterAll (xs ++ .claim id c ttl :: ys)).claim id now ttl').1 = none) →
        s = c + ttl)

/-- A message that never touches the store: its events execute the commands of others alone. -/
structure LeftAlone (m : TimerStreamMessage) : Prop where
  removes : ∀ o, (m.decode decoder o).removes = false ∧ (m.decode decoder o).commands = []
  executed : ∀ es, m.executed decoder es = es.filterMap fun
    | .decode _ => none
    | .other c => some c

variable {decoder} {m : TimerStreamMessage} {xs : List Command} {id : String} {c ttl : ℚ} {p : Bytes}

theorem keysAfter_cell (es : List DeliveryEvent) : (m.keysAfter decoder xs id c ttl es).cell (encode id) =
    after (Command.act id) (after (Command.act id) none (xs ++ [.claim id c ttl])) (m.executed decoder es) := by
  unfold TimerStreamMessage.keysAfter
  rw [TopicStore.cell_afterAll, ← after_append, List.append_assoc, List.singleton_append]

/-- A further event executes its commands on the keys the events before it left. -/
theorem keysAfter_concat (es : List DeliveryEvent) (e : DeliveryEvent) :
    m.keysAfter decoder xs id c ttl (es ++ [e]) =
      replay (fun k x => (TopicStore.run k x).2) (m.keysAfter decoder xs id c ttl es)
        (m.executed decoder [e]) := by
  unfold TimerStreamMessage.keysAfter TopicStore.afterAll
  rw [← replay_append, TimerStreamMessage.executed, List.flatMap_append, List.append_assoc,
    List.cons_append]
  rfl

theorem agree_keysAfter (es : List DeliveryEvent) : (m.keysAfter decoder xs id c ttl es).Agree :=
  TopicStore.agree_afterAll _

/-- After a removal nothing but a schedule fills the cell. -/
theorem cell_of_removed {es : List DeliveryEvent} {ys zs : List Command}
    (hes : m.executed decoder es = ys ++ .remove id :: zs) (hz : ∀ q ts, .schedule id q ts ∉ zs) :
    (m.keysAfter decoder xs id c ttl es).cell (encode id) = none := by
  rw [keysAfter_cell, hes, after_append, after_cons, stepCell_of _ (act_eq_drop.mpr (Or.inl rfl)),
    apply_drop]
  exact after_none fun x hx q ts hact => hz q ts (act_eq_put.mp hact ▸ hx)

/-- An empty cell: the id is in neither key, and no claim is granted it. -/
theorem gone_of_cell {k : TopicStore} (h : k.Agree) (hc : k.cell (encode id) = none) :
    encode id ∉ k.timeline ∧ encode id ∉ k.payloads ∧ ∀ now ttl', (k.claim id now ttl').1 = none := by
  have ht : encode id ∉ k.timeline := fun hm => by
    have hs := AList.lookup_isSome.mpr hm
    rw [h.cell_eq_none.mp hc] at hs
    cases hs
  refine ⟨ht, fun hm => ht ((h.keys _).mpr hm), fun now ttl' => ?_⟩
  rw [TopicStore.claim_eq_grant h, hc, grant_none]

/-- Without a removal the payload of the claim stays in its cell. -/
theorem cell_of_kept (hclaim : ((TopicStore.afterAll xs).claim id c ttl).1 = some p)
    {es : List DeliveryEvent} (hes : ∀ x ∈ m.executed decoder es,
      x ≠ .remove id ∧ x ≠ .cancelAll ∧ ∀ q ts, x ≠ .schedule id q ts) :
    ∃ s, (m.keysAfter decoder xs id c ttl es).cell (encode id) = some (p, s) ∧
      ((∀ ys now ttl' zs, m.executed decoder es = ys ++ .claim id now ttl' :: zs →
        ((TopicStore.afterAll (xs ++ .claim id c ttl :: ys)).claim id now ttl').1 = none) →
        s = c + ttl) := by
  have hput : NoPut (Command.act id) (m.executed decoder es) :=
    fun x hx q ts hact => (hes x hx).2.2 q ts (act_eq_put.mp hact)
  have hdrop : NoDrop (Command.act id) (m.executed decoder es) := fun x hx hact =>
    (act_eq_drop.mp hact).elim (hes x hx).1 (hes x hx).2.1
  rw [keysAfter_cell, TopicStore.after_granted hclaim]
  obtain ⟨s, hs⟩ := after_keeps (t := c + ttl) (p := p) hput hdrop
  refine ⟨s, hs, fun hnone => ?_⟩
  -- every claim since found the cell leased, so its time is the one of this lease
  have hung := after_ungranted (t := c + ttl) (p := p) hput hdrop (along_of_split ?_)
  · rw [hung, Option.some.injEq, Prod.mk.injEq] at hs
    exact hs.2.symm
  · intro ys x zs hsplit now till hact
    obtain ⟨ttl', rfl, rfl⟩ := act_eq_claim.mp hact
    have hn := hnone ys now ttl' zs hsplit
    rw [TopicStore.claim_eq_grant (TopicStore.agree_afterAll _), TopicStore.cell_afterAll] at hn
    have hcut : xs ++ .claim id c ttl :: ys = (xs ++ [.claim id c ttl]) ++ ys := by simp
    rw [hcut, after_append, TopicStore.after_granted hclaim] at hn
    exact hn

/-- A message with an error to raise is quarantined. -/
theorem quarantined_of_discard (hclaim : ((TopicStore.afterAll xs).claim id c ttl).1 = some p)
    {e : PyError} (hm : m.discardCorrupt = some e) (hid : m.rawMessage.timerId = id) :
    Quarantined decoder m xs id c ttl p where
  raises o v := by
    unfold TimerStreamMessage.decode
    rw [hm]
    intro h
    cases o <;> cases h
  unseen o := by
    unfold TimerStreamMessage.decode
    rw [hm]
  attempts o := by
    unfold TimerStreamMessage.decode
    rw [hm, hid]
    exact ⟨rfl, rfl⟩
  effect es o := by
    have hcmd : m.executed decoder [.decode o] = o.commands id := by
      show (m.decode decoder o).commands ++ [] = _
      unfold TimerStreamMessage.decode
      rw [hm, hid, List.append_nil]
    rw [keysAfter_concat, hcmd, RemoveOutcome.commands]
    split <;> rfl
  removed es ys zs hes hz := gone_of_cell (agree_keysAfter es) (cell_of_removed hes hz)
  kept es hes := by
    obtain ⟨s, hcell, hlease⟩ := cell_of_kept hclaim hes
    have hag : (m.keysAfter decoder xs id c ttl es).Agree := agree_keysAfter es
    refine ⟨s, ?_, ?_, fun now ttl' hle => ?_, hlease⟩
    · rw [hag.timeline_lookup, hcell]
      rfl
    · rw [hag.payloads_lookup, hcell]
      rfl
    · rw [TopicStore.claim_eq_grant hag, hcell, grant_some, if_pos hle]

/-- A message without one is left alone. -/
theorem leftAlone_of_healthy (hm : m.discardCorrupt = none) : LeftAlone decoder m := by
  have hdec : ∀ o, (m.decode decoder o).removes = false ∧ (m.decode decoder o).commands = [] := by
    intro o
    unfold TimerStreamMessage.decode
    rw [hm]
    exact ⟨rfl, rfl⟩
  refine ⟨hdec, fun es => ?_⟩
  unfold TimerStreamMessage.executed
  induction es with
  | nil => rfl
  | cons e es ih =>
      rw [List.flatMap_cons, ih]
      cases e with
      | decode o =>
          rw [List.filterMap_cons_none rfl]
          simp only [(hdec o).2, List.nil_append]
      | other c => rfl

/-- **CORRUPT PAYLOADS ARE QUARANTINED, HEALTHY ONES ARE NOT.** Whatever payload a claim returned
    and whatever decoder is set: where the parser raises ValueError there is a message all the
    same, and it is quarantined; where it parses, message and decoding leave the store alone. -/
theorem corrupt_quarantined {parse : Bytes → Except PyError (Bytes × Headers)} {ids : KeptIds}
    (hclaim : ((TopicStore.afterAll xs).claim id c ttl).1 = some p) (channel : String)
    (decoder : TimerStreamMessage → Option V) :
    (∀ e, parse p = .error e → e.isValueError = true →
      ∃ m, parseMessage parse ids ⟨channel, id, p⟩ = .ok m ∧ Quarantined decoder m xs id c ttl p) ∧
    ∀ r, parse p = .ok r →
      ∃ m, parseMessage parse ids ⟨channel, id, p⟩ = .ok m ∧ LeftAlone decoder m := by
  constructor
  · intro e hp he
    refine ⟨TimerMessage.read ⟨channel, id, p⟩ ids p [] (some e), ?_, quarantined_of_discard hclaim rfl rfl⟩
    unfold parseMessage
    simp only [hp, he, if_true]
  · intro r hp
    refine ⟨TimerMessage.read ⟨channel, id, p⟩ ids r.1 r.2 none, ?_, leftAlone_of_healthy rfl⟩
    unfold parseMessage
    simp only [hp]

/-- A parser that accepts nothing, and one timer, claimed at 0 for 30 seconds. -/
theorem corrupt_quarantined_one :
    ((TopicStore.afterAll [.schedule "a" [1] 0]).claim "a" 0 30).1 = some [1] ∧
    ∃ m, parseMessage (fun _ => .error (.valueError "corrupt")) fillIds ⟨"t", "a", [1]⟩ =
      .ok m ∧
      Quarantined (fun m => some m.body) m [.schedule "a" [1] 0] "a" 0 30 [1] := by
  have hclaim : ((TopicStore.afterAll [.schedule "a" [1] 0]).claim "a" 0 30).1 = some [1] := by
    decide +kernel
  exact ⟨hclaim, (corrupt_quarantined hclaim "t" _).1 (.valueError "corrupt") rfl rfl⟩

end Quarantine

/-! ## 4. Acknowledgements -/

/-- `AckStatus` of FastStream. -/
inductive AckStatus where
  | acked
  | nacked
  | rejected
  deriving DecidableEq

/-- The three calls a handler or the acknowledgement middleware makes. -/
inductive AckCall where
  | ack
  | nack
  | reject
  deriving DecidableEq

def AckCall.status : AckCall → AckStatus
  | ack => .acked
  | nack => .nacked
  | reject => .rejected

/-- What a message knows of its settlement, with a count of the `store.remove` calls it made and
    of those that returned. -/
structure Settlement where
  /-- It was given a `_remove`. -/
  hasRemove : Bool
  committed : Option AckStatus
  attempts : Nat
  completed : Nat
  deriving DecidableEq

namespace Settlement

/-- The message `parse_message` makes. -/
def fresh : Settlement := ⟨true, none, 0, 0⟩

/-- `StreamMessage.ack`, `nack` and `reject` of FastStream. -/
def settle (s : Settlement) (status : AckStatus) : Settlement :=
  if s.committed = none then { s with committed := some status } else s

/-- `_commit`: whether it returned. -/
def commit (s : Settlement) (o : RemoveOutcome) : Bool × Settlement :=
  if s.hasRemove = false then (true, s)
  else match o with
    | .completed => (true, { s with attempts := s.attempts + 1, completed := s.completed + 1 })
    | .raised _ => (false, { s with attempts := s.attempts + 1 })

/-- `ack` and `reject`: `_commit` where nothing is committed yet, then the call of FastStream. -/
def removing (status : AckStatus) (s : Settlement) (o : RemoveOutcome) : Bool × Settlement :=
  if s.committed = none then
    match s.commit o with
    | (true, s') => (true, s'.settle status)
    | (false, s') => (false, s')
  else (true, s.settle status)

def ack (s : Settlement) (o : RemoveOutcome) : Bool × Settlement := removing .acked s o

def reject (s : Settlement) (o : RemoveOutcome) : Bool × Settlement := removing .rejected s o

/-- `nack` is inherited. -/
def nack (s : Settlement) : Bool × Settlement := (true, s.settle .nacked)

/-- A call, with what becomes of the `store.remove` it may make. -/
def call (s : Settlement) (c : AckCall × RemoveOutcome) : Bool × Settlement :=
  match c.1 with
  | .ack => s.ack c.2
  | .nack => s.nack
  | .reject => s.reject c.2

def afterCalls (s : Settlement) (cs : List (AckCall × RemoveOutcome)) : Settlement :=
  replay (fun s c => (s.call c).2) s cs

/-- The first call that completes without raising. -/
def decision (s : Settlement) : List (AckCall × RemoveOutcome) → Option AckCall
  | [] => none
  | c :: cs => if (s.call c).1 = true then some c.1 else decision (s.call c).2 cs

/-- The commands on the topic that Redis executes for the calls on the timer `id`. -/
def removals (id : String) (s : Settlement) : List (AckCall × RemoveOutcome) → List Command
  | [] => []
  | c :: cs => (if (s.call c).2.attempts = s.attempts then [] else c.2.commands id) ++
      removals id (s.call c).2 cs

section Calls

variable {s : Settlement} {c : AckCall × RemoveOutcome} {cs : List (AckCall × RemoveOutcome)}

/-- A call on a settled message does nothing. -/
theorem call_settled (h : s.committed ≠ none) : s.call c = (true, s) := by
  obtain ⟨a, o⟩ := c
  cases a <;> simp [call, ack, nack, reject, removing, settle, h]

/-- **A call on an open message**: a nack settles it, the others do if the removal returns. -/
theorem call_nack (h : s.committed = none) (o : RemoveOutcome) :
    s.call (.nack, o) = (true, { s with committed := some .nacked }) := by
  simp [call, nack, settle, h]

theorem call_completed (hr : s.hasRemove = true) (h : s.committed = none) {a : AckCall}
    (ha : a ≠ .nack) :
    s.call (a, .completed) = (true, ⟨true, some a.status, s.attempts + 1, s.completed + 1⟩) := by
  cases a with
  | nack => exact absurd rfl ha
  | ack => simp [call, ack, removing, commit, settle, AckCall.status, h, hr]
  | reject => simp [call, reject, removing, commit, settle, AckCall.status, h, hr]

theorem call_raised (hr : s.hasRemove = true) (h : s.committed = none) {a : AckCall}
    (ha : a ≠ .nack) (executed : Bool) :
    s.call (a, .raised executed) = (false, { s with attempts := s.attempts + 1 }) := by
  cases a with
  | nack => exact absurd rfl ha
  | ack => simp [call, ack, removing, commit, h, hr]
  | reject => simp [call, reject, removing, commit, h, hr]

/-- Once settled, always settled, and nothing is called any more. -/
theorem afterCalls_settled (h : s.committed ≠ none) : s.afterCalls cs = s := by
  induction cs with
  | nil => rfl
  | cons c cs ih =>
      show ((s.call c).2).afterCalls cs = s
      rw [call_settled h]
      exact ih

theorem removals_settled (id : String) (h : s.committed ≠ none) : s.removals id cs = [] := by
  induction cs with
  | nil => rfl
  | cons c cs ih =>
      unfold removals
      rw [call_settled h, if_pos rfl, List.nil_append]
      exact ih

theorem afterCalls_append (xs ys : List (AckCall × RemoveOutcome)) :
    s.afterCalls (xs ++ ys) = (s.afterCalls xs).afterCalls ys :=
  replay_append _ _ _ _

theorem removals_append (id : String) (xs ys : List (AckCall × RemoveOutcome)) :
    s.removals id (xs ++ ys) = s.removals id xs ++ (s.afterCalls xs).removals id ys := by
  induction xs generalizing s with
  | nil => rfl
  | cons x xs ih =>
      rw [List.cons_append, removals, removals, ih, List.append_assoc]
      rfl

/-- The count of completed removals that a decision stands for. -/
def decided : Option AckCall → Nat
  | some .ack | some .reject => 1
  | some .nack | none => 0

theorem decided_of_ne {a : AckCall} (ha : a ≠ .nack) : decided (some a) = 1 := by
  cases a with
  | nack => exact absurd rfl ha
  | ack => rfl
  | reject => rfl

/-- A call that completes settles the message, and the calls after it do nothing. -/
theorem settles {s' : Settlement} (cs : List (AckCall × RemoveOutcome)) (hcall : s.call c = (true, s'))
    (hs' : s'.committed ≠ none) :
    s.afterCalls (c :: cs) = s' ∧ s.decision (c :: cs) = some c.1 := by
  refine ⟨?_, by rw [decision, hcall, if_pos rfl]⟩
  show (s.call c).2.afterCalls cs = s'
  rw [hcall]
  exact afterCalls_settled hs'

/-- A call that raises leaves the decision to the calls after it. -/
theorem raises {s' : Settlement} (cs : List (AckCall × RemoveOutcome)) (hcall : s.call c = (false, s')) :
    s.afterCalls (c :: cs) = s'.afterCalls cs ∧ s.decision (c :: cs) = s'.decision cs := by
  refine ⟨?_, by rw [decision, hcall, if_neg Bool.false_ne_true]⟩
  show (s.call c).2.afterCalls cs = s'.afterCalls cs
  rw [hcall]

/-- **What the calls on an open message come to**: it is settled as the first completed call says,
    and stays open as long as there is none. -/
theorem afterCalls_open (hr : s.hasRemove = true) (h : s.committed = none) :
    (s.afterCalls cs).hasRemove = true ∧
      (s.afterCalls cs).committed = (s.decision cs).map AckCall.status ∧
      (s.afterCalls cs).completed = s.completed + decided (s.decision cs) := by
  induction cs generalizing s with
  | nil => exact ⟨hr, h, rfl⟩
  | cons c cs ih =>
      obtain ⟨a, o⟩ := c
      by_cases ha : a = .nack
      · subst ha
        obtain ⟨hafter, hdec⟩ := settles cs (call_nack h o) (by simp)
        rw [hafter, hdec]
        exact ⟨hr, rfl, rfl⟩
      · cases o with
        | completed =>
            obtain ⟨hafter, hdec⟩ := settles cs (call_completed hr h ha) (by simp)
            rw [hafter, hdec, decided_of_ne ha]
            exact ⟨rfl, rfl, rfl⟩
        | raised executed =>
            obtain ⟨hafter, hdec⟩ := raises cs (call_raised hr h ha executed)
            rw [hafter, hdec]
            exact ih hr h

end Calls

/-- A message is settled once, by the first of the calls `cs` that completes. -/
structure SettledOnce (id : String) (cs : List (AckCall × RemoveOutcome)) : Prop where
  once : (fresh.afterCalls cs).completed ≤ 1
  exactly : (fresh.afterCalls cs).completed = 1 ↔
    fresh.decision cs = some .ack ∨ fresh.decision cs = some .reject
  committed : (fresh.afterCalls cs).committed = (fresh.decision cs).map AckCall.status
  /-- As long as every call raised nothing is committed, and an ack or reject tries again. -/
  retries : ∀ xs c ys, cs = xs ++ c :: ys → fresh.decision xs = none →
    (fresh.afterCalls xs).committed = none ∧ (c.1 ≠ .nack →
      (fresh.afterCalls (xs ++ [c])).attempts = (fresh.afterCalls xs).attempts + 1)
  /-- After the first call that completes nothing changes, in the message or in Redis. -/
  final : ∀ xs ys, cs = xs ++ ys → fresh.decision xs ≠ none →
    fresh.afterCalls cs = fresh.afterCalls xs ∧ fresh.removals id cs = fresh.removals id xs
  /-- A nack before anything else leaves the timer to its lease. -/
  nacked : ∀ o ys, cs = (.nack, o) :: ys → fresh.removals id cs = []
  /-- A removal that completes is the last thing Redis is asked. -/
  removed : ∀ xs a ys, cs = xs ++ (a, .completed) :: ys → a ≠ .nack → fresh.decision xs = none →
    fresh.removals id cs = fresh.removals id xs ++ [.remove id]

/-- **A DELIVERY IS SETTLED ONCE, and the first call that completes decides**, whatever calls are
    made and whichever removals raise. -/
theorem settled_once (id : String) (cs : List (AckCall × RemoveOutcome)) : SettledOnce id cs := by
  have hopen : ∀ xs, (fresh.afterCalls xs).hasRemove = true ∧
      (fresh.afterCalls xs).committed = (fresh.decision xs).map AckCall.status ∧
      (fresh.afterCalls xs).completed = 0 + decided (fresh.decision xs) := fun xs =>
    afterCalls_open rfl rfl
  have hstill : ∀ {xs}, fresh.decision xs = none → (fresh.afterCalls xs).committed = none := by
    intro xs hd
    rw [(hopen xs).2.1, hd]
    rfl
  refine ⟨?_, ?_, (hopen cs).2.1, ?_, ?_, ?_, ?_⟩
  · rw [(hopen cs).2.2]
    rcases fresh.decision cs with _ | _ | _ | _ <;> decide
  · rw [(hopen cs).2.2]
    rcases fresh.decision cs with _ | _ | _ | _ <;> decide
  · intro xs c ys _ hd
    refine ⟨hstill hd, fun hc => ?_⟩
    rw [afterCalls_append]
    show ((fresh.afterCalls xs).call c).2.attempts = _
    obtain ⟨a, o⟩ := c
    cases o with
    | completed => rw [call_completed (hopen xs).1 (hstill hd) hc]
    | raised executed => rw [call_raised (hopen xs).1 (hstill hd) hc executed]
  · rintro xs ys rfl hd
    have hset : (fresh.afterCalls xs).committed ≠ none := by
      rw [(hopen xs).2.1]
      simpa using hd
    rw [afterCalls_append, removals_append, afterCalls_settled hset, removals_settled id hset,
      List.append_nil]
    exact ⟨rfl, rfl⟩
  · rintro o ys rfl
    have hset : (fresh.call (.nack, o)).2.committed ≠ none := by simp [call, nack, settle, fresh]
    rw [removals, removals_settled id hset]
    rfl
  · rintro xs a ys rfl ha hd
    have hset : ((fresh.afterCalls xs).call (a, .completed)).2.committed ≠ none ∧
        ((fresh.afterCalls xs).call (a, .completed)).2.attempts ≠ (fresh.afterCalls xs).attempts := by
      rw [call_completed (hopen xs).1 (hstill hd) ha]
      simp
    rw [removals_append, removals, if_neg hset.2, removals_settled id hset.1, List.append_nil]
    rfl

/-! ## 5. A call in two halves -/

/-- A call up to its `store.remove`, and whether it makes one. -/
def start (s : Settlement) (c : AckCall) : Bool × Settlement :=
  if c ≠ .nack ∧ s.committed = none ∧ s.hasRemove = true then
    (true, { s with attempts := s.attempts + 1 })
  else (false, s.settle c.status)

/-- A call whose removal returned. -/
def complete (s : Settlement) (c : AckCall) : Settlement :=
  { s.settle c.status with completed := s.completed + 1 }

/-- A call attempts a removal if it makes one. -/
theorem start_attempts (s : Settlement) (c : AckCall) :
    (s.start c).2.attempts = s.attempts + if (s.start c).1 = true then 1 else 0 := by
  unfold start settle
  split
  · rfl
  · split <;> rfl

theorem complete_attempts (s : Settlement) (c : AckCall) : (s.complete c).attempts = s.attempts := by
  unfold complete settle
  split <;> rfl

/-- **A call is its two halves**, with its removal between them. -/
theorem call_eq_halves (s : Settlement) (c : AckCall) (o : RemoveOutcome) :
    s.call (c, o) =
      if (s.start c).1 = true then
        match o with
        | .completed => (true, (s.start c).2.complete c)
        | .raised _ => (false, (s.start c).2)
      else (true, (s.start c).2) := by
  obtain ⟨hasRemove, committed, attempts, completed⟩ := s
  cases committed with
  | some status => cases c <;> simp [call, ack, nack, reject, removing, start, settle]
  | none =>
      cases hasRemove with
      | false => cases c <;> simp [call, ack, nack, reject, removing, commit, start, settle, AckCall.status]
      | true =>
          cases c <;> cases o <;>
            simp [call, ack, nack, reject, removing, commit, start, complete, settle, AckCall.status]

end Settlement

/-! ## 6. The acknowledgement middleware -/

/-- `AckPolicy` of FastStream. -/
inductive AckPolicy where
  | ackFirst
  | ack
  | rejectOnError
  | nackOnError
  | manual
  deriving DecidableEq

/-- `TimersSubscriberConfig.ack_policy`. -/
def TimersSubscriberConfig.ackPolicy : AckPolicy := .nackOnError

/-- How the handling of a message ended, as the acknowledgement middleware sees it. -/
inductive Outcome where
  /-- The handler returned, and what it returned was published. -/
  | returned
  /-- AckMessage, NackMessage or RejectMessage was raised, each of which stands for a call. -/
  | asked (call : AckCall)
  /-- Any other exception was raised, by the handler, a publisher or a middleware. -/
  | raised
  | cancelled
  /-- No handler ran: the parser or `decode` raised, and the middleware has no message. -/
  | unread
  deriving DecidableEq

/-- The timer is to be tried again. -/
def Outcome.failed : Outcome → Bool
  | .asked .nack | .raised | .cancelled | .unread => true
  | .returned | .asked .ack | .asked .reject => false

/-- The calls the acknowledgement middleware makes on a message once its handling has ended. -/
abbrev Middleware := AckPolicy → Outcome → List AckCall

/-- What is relied on of it: NACK_ON_ERROR. -/
structure NacksOnError (middleware : Middleware) : Prop where
  returned : middleware .nackOnError .returned = [.ack]
  asked : ∀ call, middleware .nackOnError (.asked call) = [call]
  raised : middleware .nackOnError .raised = [.nack]
  cancelled : middleware .nackOnError .cancelled = [.nack]
  unread : middleware .nackOnError .unread = []

/-- **A handling that failed is nacked, or left alone**, under the policy of the subscriber. -/
theorem NacksOnError.failed_nacks {middleware : Middleware} (h : NacksOnError middleware) {o : Outcome}
    (ho : o.failed = true) : ∀ c ∈ middleware TimersSubscriberConfig.ackPolicy o, c = .nack := by
  unfold TimersSubscriberConfig.ackPolicy
  cases o with
  | returned => cases ho
  | asked call =>
      cases call with
      | nack => simp [h.asked]
      | ack => cases ho
      | reject => cases ho
  | raised => simp [h.raised]
  | cancelled => simp [h.cancelled]
  | unread => simp [h.unread]

/-- A middleware that does so, as far as that policy goes. -/
def nackingMiddleware : Middleware
  | .nackOnError, .returned => [.ack]
  | .nackOnError, .asked call => [call]
  | .nackOnError, .raised | .nackOnError, .cancelled => [.nack]
  | _, _ => []

theorem nackingMiddleware_nacks : NacksOnError nackingMiddleware where
  returned := rfl
  asked _ := rfl
  raised := rfl
  cancelled := rfl
  unread := rfl

end RedisTimers
