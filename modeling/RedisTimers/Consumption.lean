/-
  File:      RedisTimers/Consumption.lean
  Subject:   WHY A DELIVERY REMOVES ITS TIMER (subscriber/usecase.py: _claim_and_consume;
             subscriber/config.py: ack_policy; message.py: decode, ack, reject; FastStream's
             acknowledgement middleware): what happens to the message of each task, beside the fleet.

  The fleet of Fleet.lean lets a task send any removal once it was handed a payload. Here each task
  has the message `parse_message` made for it: the handler may call `ack`, `nack` and `reject` on it
  as it likes, and once its handling has ended the middleware makes the calls of the policy.

  * `Handling`, `Event`, `step`, `run` -- the machine; the removals of a task are sent by the calls on
    its message and by `decode`, and by nothing else;
  * `Tracks`, `Sound`, `sound_run`, `removals_are_calls` -- each removal was asked for, and each call
    of the middleware is one the policy gives for how the handling ended;
  * `sent_of_executed`, `failing_path` -- what Redis executes for a task was sent by such a call, and
    a path that fails sends none.
-/
import RedisTimers.Fleet

namespace RedisTimers

open Replay

/-! ## 1. The machine -/

/-- Who calls `ack`, `nack` or `reject` on a message. -/
inductive Caller where
  /-- The handler, or what it started. -/
  | handler
  | middleware
  deriving DecidableEq

/-- The removal a call on an open message makes. -/
def AckCall.removal : AckCall → Option Removal
  | ack => some .ack
  | nack => none
  | reject => some .reject

/-- How the handling of a task's message goes. -/
structure Handling where
  settlement : Settlement
  /-- The calls made on the message, the last one first. -/
  calls : List (Caller × AckCall)
  /-- How it ended, once it did. -/
  outcome : Option Outcome
  /-- The calls the acknowledgement middleware has yet to make. -/
  owed : List AckCall
  deriving DecidableEq

def Handling.fresh : Handling := ⟨.fresh, [], none, []⟩

/-- A call is made: up to its `store.remove`, where it makes one. -/
def Handling.called (h : Handling) (caller : Caller) (c : AckCall) : Handling :=
  { h with
    settlement := (h.settlement.start c).2
    calls := (caller, c) :: h.calls
    owed := if caller = .middleware then h.owed.tail else h.owed }

/-- The parser raises ValueError on the payload. -/
def Corrupt (parse : Bytes → Except PyError (Bytes × Headers)) (payload : Bytes) : Prop :=
  ∃ e, parse payload = .error e ∧ e.isValueError = true

/-- A fleet, and the handling of each task's message. -/
structure Consumption where
  fleet : Fleet
  handlings : Nat → Handling

namespace Consumption

def init : Consumption := ⟨.init, fun _ => .fresh⟩

/-- A step of a party of the fleet, or of the handling of a task's message. -/
inductive Event where
  | fleet (a : Action)
  /-- `decode` of the message. -/
  | decode (task : Nat)
  | call (task : Nat) (caller : Caller) (c : AckCall)
  /-- The `store.remove` of a call returns. -/
  | returns (task : Nat) (c : AckCall)
  /-- The handling ends, as the middleware sees it. -/
  | ends (task : Nat) (outcome : Outcome)

/-- The actions of the fleet that are no call's. A task whose claim raised was handed nothing, and
    `consume` comes back once the middleware has made its calls. -/
def allows (s : Consumption) : Action → Bool
  | .sendRemoval .. | .finish _ .contested => false
  | .finish n .claimRaised => (s.fleet.tasks[n]?).all (·.payload.isNone)
  | .finish n (.consumed outcome) =>
      decide ((s.handlings n).outcome = some outcome ∧ (s.handlings n).owed = [])
  | _ => true

/-- The message a task was handed, while it lives. -/
def message (s : Consumption) (n : Nat) : Option TimerMessage :=
  match s.fleet.tasks[n]? with
  | some task => if task.live then task.payload.map (⟨task.topic, task.timerId, ·⟩) else none
  | none => none

/-- The handling of a task's message goes on. -/
def setHandling (s : Consumption) (n : Nat) (h : Handling) : Consumption :=
  { s with handlings := Function.update s.handlings n h }

/-- The fleet once a call was made: it sent its removal, where it makes one. -/
def afterCall (s : Consumption) (n : Nat) (c : AckCall) : Fleet :=
  match ((s.handlings n).settlement.start c).1, c.removal with
  | true, some why => s.fleet.step (.sendRemoval n why)
  | _, _ => s.fleet

section Machine

variable (middleware : Middleware) (parse : Bytes → Except PyError (Bytes × Headers)) (ids : KeptIds)

def step (s : Consumption) : Event → Consumption
  | .fleet a => if s.allows a then { s with fleet := s.fleet.step a } else s
  | .decode n => match s.message n with
    | some msg => match parseMessage parse ids msg with
      | .ok m =>
        if m.discardCorrupt.isSome then
          { s with fleet := s.fleet.step (.sendRemoval n .discardCorrupt) }
        else s
      | .error _ => s
    | none => s
  | .call n caller c => match s.message n with
    | some msg =>
      -- no handler runs on a payload that does not parse
      if (handed parse ids msg).isSome ∧
          (caller = .middleware → (s.handlings n).owed.head? = some c) then
        { s.setHandling n ((s.handlings n).called caller c) with fleet := s.afterCall n c }
      else s
    | none => s
  | .returns n c =>
    let h := s.handlings n
    if h.settlement.completed < h.settlement.attempts ∧
        ∃ x ∈ s.fleet.log, c.removal.map (.removalBy n) = some x.origin then
      s.setHandling n { h with settlement := h.settlement.complete c }
    else s
  | .ends n outcome => match s.message n with
    | some msg =>
      let h := s.handlings n
      if h.outcome = none ∧ (outcome = .unread ∨ (handed parse ids msg).isSome) then
        s.setHandling n { h with
          outcome := some outcome
          owed := middleware TimersSubscriberConfig.ackPolicy outcome }
      else s
    | none => s

/-- What the events make of an empty Redis. -/
def run (es : List Event) : Consumption := replay (step middleware parse ids) .init es

end Machine

/-- A message with an error to raise has a corrupt payload. -/
theorem corrupt_of_discard {parse : Bytes → Except PyError (Bytes × Headers)} {ids : KeptIds}
    {msg : TimerMessage} {m : TimerStreamMessage} (h : parseMessage parse ids msg = .ok m)
    (hm : m.discardCorrupt.isSome) : Corrupt parse msg.data := by
  unfold parseMessage at h
  cases hp : parse msg.data with
  | ok r =>
      rw [hp] at h
      cases h
      cases hm
  | error e =>
      simp only [hp] at h
      split at h
      · rename_i he
        exact ⟨e, hp, he⟩
      · cases h

theorem message_eq_some {s : Consumption} {n : Nat} {msg : TimerMessage} (h : s.message n = some msg) :
    ∃ task, s.fleet.tasks[n]? = some task ∧ task.live = true ∧ task.payload = some msg.data := by
  unfold message at h
  split at h
  · rename_i task ht
    split at h
    · rename_i hl
      obtain ⟨p, hp, rfl⟩ := Option.map_eq_some_iff.mp h
      exact ⟨task, ht, hl, hp⟩
    · cases h
  · cases h

theorem setHandling_self (s : Consumption) (n : Nat) : s.setHandling n (s.handlings n) = s := by
  rw [setHandling, Function.update_eq_self]

/-! ## 2. What a step of the fleet leaves of a task -/

/-- What a step that is no call's leaves of a task: its removals, the payload it was handed, and how
    it ended. -/
structure Continues (a : Action) (n : Nat) (task task' : Task) : Prop where
  removals : task'.removals = task.removals
  payload : task'.payload = task.payload ∨ (task.payload = none ∧ task.ending = none)
  ending : task'.ending = task.ending ∨
    (task'.ending = some .contested ∧ task.ending = none ∧ task'.payload = none) ∨
    ∃ e, a = .finish n e ∧ task'.ending = task.ending.or (some e) ∧ task'.payload = task.payload

theorem Continues.refl (a : Action) (n : Nat) (task : Task) : Continues a n task task :=
  ⟨rfl, Or.inl rfl, Or.inl rfl⟩

/-- **A task after a step that is no call's** goes on, or was just spawned. -/
theorem task_step {f : Fleet} {a : Action} (ha : ∀ n why, a ≠ .sendRemoval n why) {n : Nat}
    {task' : Task} (ht : (f.step a).tasks[n]? = some task') :
    (f.tasks.length ≤ n ∧ ∃ topic ttl id, task' = .spawned topic ttl id) ∨
      ∃ task, f.tasks[n]? = some task ∧ Continues a n task task' := by
  have heff := f.step_effect a
  generalize f.step a = f' at heff ht
  cases heff with
  | idle => exact Or.inr ⟨task', ht, .refl ..⟩
  | outside => exact Or.inr ⟨task', ht, .refl ..⟩
  | claim => exact Or.inr ⟨task', ht, .refl ..⟩
  | removal => exact Or.inr ⟨task', ht, .refl ..⟩
  | send m task why => exact absurd rfl (ha m why)
  | poll topic mode now limit ttl ids =>
      rw [List.getElem?_append] at ht
      split at ht
      · exact Or.inr ⟨task', ht, .refl ..⟩
      · rename_i hlen
        obtain ⟨id, _, rfl⟩ := List.mem_map.mp (List.mem_of_getElem? ht)
        exact Or.inl ⟨Nat.not_lt.mp hlen, topic, ttl, id, rfl⟩
  | move _ m task task₂ hm hmoves =>
      rcases Fleet.getElem?_setTask_cases hm ht with ⟨rfl, rfl⟩ | ⟨_, hold⟩
      · refine Or.inr ⟨task, hm, hmoves.removals, Or.inl hmoves.payload, ?_⟩
        rcases hmoves.ending with h | ⟨hc, hopen, hp⟩ | ⟨e, he, hend⟩
        · exact Or.inl h
        · exact Or.inr (Or.inl ⟨hc, hopen, hmoves.payload.trans hp⟩)
        · exact Or.inr (Or.inr ⟨e, he, hend, hmoves.payload⟩)
      · exact Or.inr ⟨task', hold, .refl ..⟩
  | deliver _ m k task e payload hm _ hnone _ _ hl =>
      rcases Fleet.getElem?_setTask_cases hm ht with ⟨rfl, rfl⟩ | ⟨_, hold⟩
      · exact Or.inr ⟨task, hm, rfl, Or.inr ⟨hnone, Option.isNone_iff_eq_none.mp hl⟩, Or.inl rfl⟩
      · exact Or.inr ⟨task', hold, .refl ..⟩

/-! ## 3. Every removal was asked for -/

/-- The message of a task was asked for a removal: by a call on it, or by its payload. -/
def Asked (parse : Bytes → Except PyError (Bytes × Headers)) (task : Task) (h : Handling) :
    Removal → Prop
  | .ack => ∃ caller, (caller, AckCall.ack) ∈ h.calls
  | .reject => ∃ caller, (caller, AckCall.reject) ∈ h.calls
  | .discardCorrupt => ∃ payload, task.payload = some payload ∧ Corrupt parse payload

/-- What a task sent and how it ended, against the handling of its message. -/
structure Tracks (parse : Bytes → Except PyError (Bytes × Headers)) (task : Task) (h : Handling) :
    Prop where
  asked : ∀ why ∈ task.removals, Asked parse task h why
  /-- Each ack or reject it sent is a call that found the message open. -/
  counted : task.removals.countP (· ≠ .discardCorrupt) = h.settlement.attempts
  consumed : ∀ o, task.ending = some (.consumed o) → h.outcome = some o
  unclaimed : task.ending = some .contested ∨ task.ending = some .claimRaised → task.payload = none

/-- The calls of the middleware are those of the policy, for how the handling ended. -/
def Follows (middleware : Middleware) (h : Handling) : Prop :=
  ∀ c, (Caller.middleware, c) ∈ h.calls ∨ c ∈ h.owed →
    ∃ o, h.outcome = some o ∧ c ∈ middleware TimersSubscriberConfig.ackPolicy o

structure Sound (middleware : Middleware) (parse : Bytes → Except PyError (Bytes × Headers))
    (s : Consumption) : Prop where
  fleet : ∃ as, s.fleet = Fleet.run as
  unborn : ∀ n, s.fleet.tasks.length ≤ n → s.handlings n = .fresh
  tracks : ∀ (n : Nat) (task : Task), s.fleet.tasks[n]? = some task →
    Tracks parse task (s.handlings n)
  follows : ∀ n, Follows middleware (s.handlings n)

section Tracking

variable {parse : Bytes → Except PyError (Bytes × Headers)} {task task' : Task} {h h' : Handling}
  {why : Removal} {a : Action} {n : Nat}

/-- What was asked for stays asked for. -/
theorem Asked.mono (hasked : Asked parse task h why) (hcalls : ∀ x ∈ h.calls, x ∈ h'.calls)
    (hpayload : task.payload ≠ none → task'.payload = task.payload) : Asked parse task' h' why := by
  cases why with
  | ack => exact hasked.imp fun _ hmem => hcalls _ hmem
  | reject => exact hasked.imp fun _ hmem => hcalls _ hmem
  | discardCorrupt =>
      obtain ⟨p, hp, hcorrupt⟩ := hasked
      exact ⟨p, by rw [hpayload (by simp [hp]), hp], hcorrupt⟩

/-- A call that starts a removal asks for it. -/
theorem asked_of_start {st : Settlement} {caller : Caller} {c : AckCall} (hstart : (st.start c).1 = true)
    (hmem : (caller, c) ∈ h.calls) :
    ∃ why, c.removal = some why ∧ why ≠ .discardCorrupt ∧ Asked parse task h why := by
  cases c with
  | ack => exact ⟨.ack, rfl, by decide, caller, hmem⟩
  | nack => simp [Settlement.start] at hstart
  | reject => exact ⟨.reject, rfl, by decide, caller, hmem⟩

theorem tracks_spawned (topic : String) (ttl : ℚ) (id : String) :
    Tracks parse (.spawned topic ttl id) .fresh where
  asked _ hmem := by cases hmem
  counted := rfl
  consumed _ he := by cases he
  unclaimed _ := rfl

/-- A task that goes on is still tracked, if it ends as its claim and its handling did. -/
theorem Tracks.continues (ht : Tracks parse task h) (hc : Continues a n task task')
    (hend : ∀ e, a = .finish n e → task.ending = none → e ≠ .contested ∧
      (e = .claimRaised → task.payload = none) ∧ ∀ o, e = .consumed o → h.outcome = some o) :
    Tracks parse task' h where
  asked why hmem := by
    refine (ht.asked why (hc.removals ▸ hmem)).mono (fun _ hx => hx) fun hp => ?_
    exact hc.payload.elim id fun hnone => absurd hnone.1 hp
  counted := by rw [hc.removals, ht.counted]
  consumed o ho := by
    rcases hc.ending with he | ⟨he, _⟩ | ⟨e, ha, he, _⟩
    · exact ht.consumed o (he ▸ ho)
    · rw [he] at ho
      cases ho
    · rw [he] at ho
      cases hopen : task.ending with
      | some x =>
          rw [hopen] at ho
          exact ht.consumed o (hopen.trans ho)
      | none =>
          rw [hopen] at ho
          exact (hend e ha hopen).2.2 o (Option.some.inj ho)
  unclaimed ho := by
    have hkept : task'.ending = task.ending → task'.payload = none := fun he => by
      rw [he] at ho
      rcases hc.payload with hp | ⟨_, hopen⟩
      · rw [hp]
        exact ht.unclaimed ho
      · rw [hopen] at ho
        rcases ho with ho | ho <;> cases ho
    rcases hc.ending with he | ⟨_, _, hp⟩ | ⟨e, ha, he, hp⟩
    · exact hkept he
    · exact hp
    · cases hopen : task.ending with
      | some x =>
          rw [hopen] at he
          exact hkept (he.trans hopen.symm)
      | none =>
          rw [he, hopen] at ho
          obtain ⟨hne, hraised, _⟩ := hend e ha hopen
          rcases ho with ho | ho
          · exact absurd (Option.some.inj ho) hne
          · rw [hp]
            exact hraised (Option.some.inj ho)

/-- A handling that goes on, with the removal the task sent for it, is still tracked. -/
theorem Tracks.goesOn (ht : Tracks parse task h) (hcalls : ∀ x ∈ h.calls, x ∈ h'.calls)
    (hout : ∀ o, h.outcome = some o → h'.outcome = some o) {sent : List Removal}
    (hsent : ∀ why ∈ sent, Asked parse task h' why)
    (hcount : h'.settlement.attempts =
      sent.countP (· ≠ .discardCorrupt) + h.settlement.attempts) :
    Tracks parse { task with removals := sent ++ task.removals } h' where
  asked why hmem := by
    rcases List.mem_append.mp hmem with hnew | hold
    · exact (hsent why hnew).mono (fun _ hx => hx) fun _ => rfl
    · exact (ht.asked why hold).mono hcalls fun _ => rfl
  counted := by
    show (sent ++ task.removals).countP _ = _
    rw [List.countP_append, ht.counted, hcount]
  consumed o ho := hout o (ht.consumed o ho)
  unclaimed := ht.unclaimed

end Tracking

section Steps

variable {middleware : Middleware} {parse : Bytes → Except PyError (Bytes × Headers)} {ids : KeptIds}
  {s : Consumption} {n : Nat} {task : Task} {h' : Handling}

theorem Sound.inv (h : Sound middleware parse s) : Fleet.Inv s.fleet := by
  obtain ⟨as, has⟩ := h.fleet
  exact has ▸ Fleet.inv_run as

theorem Sound.fleet_step (h : Sound middleware parse s) (a : Action) :
    ∃ as, s.fleet.step a = Fleet.run as := by
  obtain ⟨as, has⟩ := h.fleet
  exact ⟨as ++ [a], by rw [has]; exact (replay_concat ..).symm⟩

/-- **A step of the fleet that is no call's keeps every removal asked for.** -/
theorem Sound.act (h : Sound middleware parse s) {a : Action} (ha : s.allows a = true) :
    Sound middleware parse { s with fleet := s.fleet.step a } where
  fleet := h.fleet_step a
  unborn n hn := h.unborn n (by
    by_contra hlt
    obtain ⟨t, ht, _⟩ := (Fleet.effect_extends (s.fleet.step_effect a)).tasks n _
      (List.getElem?_eq_getElem (Nat.not_le.mp hlt))
    exact absurd (List.getElem?_eq_some_iff.mp ht).1 (Nat.not_lt.mpr hn))
  tracks n task' ht := by
    rcases task_step (fun m why he => by rw [he] at ha; cases ha) ht with
      ⟨hlen, topic, ttl, id, rfl⟩ | ⟨task, hold, hc⟩
    · rw [h.unborn n hlen]
      exact tracks_spawned topic ttl id
    · refine (h.tracks n task hold).continues hc fun e he _ => ?_
      subst he
      cases e with
      | contested => cases ha
      | claimRaised =>
          rw [allows, hold, Option.all_some] at ha
          exact ⟨nofun, fun _ => Option.isNone_iff_eq_none.mp ha, nofun⟩
      | consumed o =>
          have hout := (of_decide_eq_true ha).1
          refine ⟨nofun, nofun, fun o' ho' => ?_⟩
          cases ho'
          exact hout
      | cancelled => exact ⟨nofun, nofun, nofun⟩
      | crashed => exact ⟨nofun, nofun, nofun⟩
  follows := h.follows

/-- The handling of a task goes on, and the task sends what it was asked for. -/
theorem Sound.send (h : Sound middleware parse s) {f : Fleet} (hf : ∃ as, f = Fleet.run as)
    (ht : s.fleet.tasks[n]? = some task) (sent : List Removal) (h' : Handling)
    (htasks : f.tasks = s.fleet.tasks.set n { task with removals := sent ++ task.removals })
    (hcalls : ∀ x ∈ (s.handlings n).calls, x ∈ h'.calls)
    (hout : ∀ o, (s.handlings n).outcome = some o → h'.outcome = some o)
    (hsent : ∀ why ∈ sent, Asked parse task h' why)
    (hcount : h'.settlement.attempts =
      sent.countP (· ≠ .discardCorrupt) + (s.handlings n).settlement.attempts)
    (hfollows : Follows middleware h') :
    Sound middleware parse { s.setHandling n h' with fleet := f } where
  fleet := hf
  unborn m hm := by
    have hm' : s.fleet.tasks.length ≤ m := by
      have hlen : f.tasks.length = s.fleet.tasks.length := by rw [htasks, List.length_set]
      exact hlen ▸ hm
    have hne : m ≠ n := by
      have := (List.getElem?_eq_some_iff.mp ht).1
      omega
    show Function.update s.handlings n h' m = .fresh
    rw [Function.update_of_ne hne]
    exact h.unborn m hm'
  tracks m t hm := by
    show Tracks parse t (Function.update s.handlings n h' m)
    have hset : (s.fleet.setTask n { task with removals := sent ++ task.removals }).tasks[m]? = some t := by
      rw [← hm]
      exact congrArg (·[m]?) htasks.symm
    rcases Fleet.getElem?_setTask_cases ht hset with ⟨rfl, rfl⟩ | ⟨hne, hold⟩
    · rw [Function.update_self]
      exact (h.tracks m task ht).goesOn hcalls hout hsent hcount
    · rw [Function.update_of_ne hne]
      exact h.tracks m t hold
  follows m := by
    show Follows middleware (Function.update s.handlings n h' m)
    by_cases hne : m = n
    · subst hne
      rw [Function.update_self]
      exact hfollows
    · rw [Function.update_of_ne hne]
      exact h.follows m

/-- The handling of a task goes on, and nothing is sent. -/
theorem Sound.goesOn (h : Sound middleware parse s) (ht : s.fleet.tasks[n]? = some task)
    (hcalls : ∀ x ∈ (s.handlings n).calls, x ∈ h'.calls)
    (hout : ∀ o, (s.handlings n).outcome = some o → h'.outcome = some o)
    (hcount : h'.settlement.attempts = (s.handlings n).settlement.attempts)
    (hfollows : Follows middleware h') : Sound middleware parse (s.setHandling n h') := by
  refine h.send h.fleet ht [] h' ?_ hcalls hout nofun ?_ hfollows
  · obtain ⟨hlt, rfl⟩ := List.getElem?_eq_some_iff.mp ht
    exact (List.set_getElem_self hlt).symm
  · rw [List.countP_nil, Nat.zero_add, hcount]

/-- The calls of a handling and of its middleware are still those of the policy after a call. -/
theorem Follows.called {h : Handling} (hf : Follows middleware h) {caller : Caller} {c : AckCall}
    (howed : caller = .middleware → h.owed.head? = some c) : Follows middleware (h.called caller c) := by
  intro x hx
  rcases hx with hx | hx
  · rcases List.mem_cons.mp hx with hnew | hold
    · obtain ⟨hcaller, rfl⟩ := Prod.mk.inj hnew
      exact hf x (Or.inr (List.mem_of_mem_head? (howed hcaller.symm)))
    · exact hf x (Or.inl hold)
  · refine hf x (Or.inr ?_)
    unfold Handling.called at hx
    split at hx
    · exact List.mem_of_mem_tail hx
    · exact hx

/-- **A call keeps every removal asked for**: where it makes one, it is the one that asks. -/
theorem Sound.called (h : Sound middleware parse s) {msg : TimerMessage} (hm : s.message n = some msg)
    {caller : Caller} {c : AckCall}
    (howed : caller = .middleware → (s.handlings n).owed.head? = some c) :
    Sound middleware parse
      { s.setHandling n ((s.handlings n).called caller c) with fleet := s.afterCall n c } := by
  obtain ⟨task, ht, hl, hp⟩ := message_eq_some hm
  have hfollows := (h.follows n).called howed
  have hcalls : ∀ x ∈ (s.handlings n).calls, x ∈ ((s.handlings n).called caller c).calls :=
    fun x hx => List.mem_cons_of_mem _ hx
  have hmem : (caller, c) ∈ ((s.handlings n).called caller c).calls := List.mem_cons_self
  have hcount := (s.handlings n).settlement.start_attempts c
  by_cases hstart : ((s.handlings n).settlement.start c).1 = true
  · -- the message is open, and the call is no nack
    rw [hstart, if_pos rfl] at hcount
    obtain ⟨why, hwhy, hack, hasked⟩ : ∃ why, c.removal = some why ∧ why ≠ .discardCorrupt ∧
        Asked parse task ((s.handlings n).called caller c) why := asked_of_start hstart hmem
    have hsent : s.afterCall n c = s.fleet.step (.sendRemoval n why) := by
      unfold afterCall
      rw [hstart, hwhy]
    have hset := Fleet.step_sendRemoval ht hl (by simp [hp]) why
    rw [hsent]
    refine h.send (h.fleet_step _) ht [why] _ (by rw [hset]; rfl) hcalls (fun _ ho => ho)
      (fun x hx => List.mem_singleton.mp hx ▸ hasked) ?_ hfollows
    rw [List.countP_singleton, if_pos (decide_eq_true hack), Nat.add_comm]
    exact hcount
  · rw [if_neg hstart] at hcount
    have hnone : s.afterCall n c = s.fleet := by
      unfold afterCall
      rw [Bool.eq_false_iff.mpr hstart]
    rw [hnone]
    exact h.goesOn ht hcalls (fun _ ho => ho) hcount hfollows

/-- **Every step keeps every removal asked for.** -/
theorem sound_step (s : Consumption) (e : Event) (h : Sound middleware parse s) :
    Sound middleware parse (step middleware parse ids s e) := by
  cases e with
  | fleet a =>
      simp only [step]
      split
      · rename_i ha
        exact h.act ha
      · exact h
  | decode n =>
      simp only [step]
      split
      · rename_i msg hm
        split
        · rename_i m hparse
          split
          · rename_i hdiscard
            obtain ⟨task, ht, hl, hp⟩ := message_eq_some hm
            have hsend := Fleet.step_sendRemoval ht hl (by simp [hp]) .discardCorrupt
            have hsound := h.send (h.fleet_step (.sendRemoval n .discardCorrupt)) ht [.discardCorrupt]
              (s.handlings n) (by rw [hsend]; rfl) (fun _ hx => hx)
              (fun _ ho => ho) (fun why hw => ?_) (Nat.zero_add _).symm (h.follows n)
            · rwa [setHandling_self] at hsound
            · rw [List.mem_singleton.mp hw]
              exact ⟨msg.data, hp, corrupt_of_discard hparse hdiscard⟩
          · exact h
        · exact h
      · exact h
  | call n caller c =>
      simp only [step]
      split
      · rename_i msg hm
        split
        · rename_i hc
          exact h.called hm hc.2
        · exact h
      · exact h
  | returns n c =>
      simp only [step]
      split
      · rename_i hc
        have hlt : n < s.fleet.tasks.length := by
          by_contra hge
          rw [h.unborn n (Nat.not_lt.mp hge)] at hc
          exact absurd hc.1 (by decide)
        exact h.goesOn (List.getElem?_eq_getElem hlt) (fun _ hx => hx) (fun _ ho => ho)
          (Settlement.complete_attempts _ c) (h.follows n)
      · exact h
  | ends n outcome =>
      simp only [step]
      split
      · rename_i msg hm
        split
        · rename_i hc
          obtain ⟨task, ht, _⟩ := message_eq_some hm
          refine h.goesOn ht (fun _ hx => hx) (fun o ho => ?_) rfl fun c hx => ?_
          · rw [hc.1] at ho
            cases ho
          · rcases hx with hx | hx
            · -- no middleware call was made before
              obtain ⟨o, ho, _⟩ := h.follows n c (Or.inl hx)
              rw [hc.1] at ho
              cases ho
            · exact ⟨outcome, rfl, hx⟩
        · exact h
      · exact h

theorem sound_init : Sound middleware parse init where
  fleet := ⟨[], rfl⟩
  unborn _ _ := rfl
  tracks n task ht := by cases ht
  follows n c hc := by rcases hc with hc | hc <;> cases hc

/-- **In every run every removal was asked for.** -/
theorem sound_run (es : List Event) : Sound middleware parse (run middleware parse ids es) :=
  replay_invariant (fun s e _ h => sound_step s e h) sound_init

/-- **The removals of a task are the calls on its message**: each was asked for, and it sent an ack or
    a reject as often as a call found the message open. -/
theorem removals_are_calls {es : List Event}
    (ht : (run middleware parse ids es).fleet.tasks[n]? = some task) :
    (∀ why ∈ task.removals, Asked parse task ((run middleware parse ids es).handlings n) why) ∧
      task.removals.countP (· ≠ .discardCorrupt) =
        ((run middleware parse ids es).handlings n).settlement.attempts :=
  have htracks := (sound_run es).tracks n task ht
  ⟨htracks.asked, htracks.counted⟩

end Steps

/-! ## 4. What Redis executes for a task -/

/-- A path of `_claim_and_consume` that fails: the claim was refused or raised, the task was handed
    nothing, its handling came to no end, or it failed. -/
inductive Failing (s : Consumption) (n : Nat) (task : Task) : Prop where
  | contested (h : task.ending = some .contested)
  | claimRaised (h : task.ending = some .claimRaised)
  /-- Cancelled or crashed before its claim returned a payload. -/
  | unhanded (h : task.payload = none)
  /-- Cancelled or crashed in its handler. -/
  | interrupted (h : (s.handlings n).outcome = none)
  | consumed (o : Outcome) (h : task.ending = some (.consumed o)) (ho : o.failed = true)
  /-- Cancelled or crashed after its handling failed. -/
  | ended (o : Outcome) (h : (s.handlings n).outcome = some o) (ho : o.failed = true)

/-- The handler left the timer alone: it made no call but `nack`, and the payload is none it never
    saw because it is corrupt. -/
structure LeftToRetry (parse : Bytes → Except PyError (Bytes × Headers)) (task : Task) (h : Handling) :
    Prop where
  calls : ∀ c, (Caller.handler, c) ∈ h.calls → c = .nack
  readable : ∀ payload, task.payload = some payload → ¬ Corrupt parse payload

section Executed

variable {middleware : Middleware} {parse : Bytes → Except PyError (Bytes × Headers)}
  {s : Consumption} {n : Nat} {task : Task} {x : Entry} {why : Removal}

/-- **What Redis executes for a task was asked for**: by a call on its message, or by its payload. -/
theorem Sound.sent_of_executed (h : Sound middleware parse s) (hx : x ∈ s.fleet.log)
    (ho : x.origin = .removalBy n why) : ∃ task, s.fleet.tasks[n]? = some task ∧
      why ∈ task.removals ∧ x.topic = task.topic ∧ x.command = .remove task.timerId ∧
      Asked parse task (s.handlings n) why := by
  obtain ⟨k, hk⟩ := List.getElem?_of_mem hx
  have hsent := h.inv.sent k x hk
  unfold Fleet.SentBy at hsent
  rw [ho] at hsent
  obtain ⟨task, ht, hw, htopic, hc, _⟩ := hsent
  exact ⟨task, ht, hw, htopic, hc, (h.tracks n task ht).asked why hw⟩

/-- On a failing path the middleware makes no call but `nack`. -/
theorem Sound.failing_nacks (h : Sound middleware parse s) (hm : NacksOnError middleware)
    (ht : s.fleet.tasks[n]? = some task) (hp : task.payload ≠ none) (hf : Failing s n task) {c : AckCall}
    (hc : (Caller.middleware, c) ∈ (s.handlings n).calls) : c = .nack := by
  obtain ⟨o, ho, hmem⟩ := h.follows n c (Or.inl hc)
  have htracks := h.tracks n task ht
  have hfails : ∀ o', (s.handlings n).outcome = some o' → o'.failed = true → c = .nack :=
    fun o' ho' hfailed => by
      rw [ho] at ho'
      cases ho'
      exact hm.failed_nacks hfailed c hmem
  cases hf with
  | contested he => exact absurd (htracks.unclaimed (Or.inl he)) hp
  | claimRaised he => exact absurd (htracks.unclaimed (Or.inr he)) hp
  | unhanded he => exact absurd he hp
  | interrupted he =>
      rw [he] at ho
      cases ho
  | consumed o' he hfailed => exact hfails o' (htracks.consumed o' he) hfailed
  | ended o' he hfailed => exact hfails o' he hfailed

/-- **A FAILING PATH REMOVES NOTHING**, unless its handler asked for that itself: the task sent no
    removal, and Redis executed none for it. -/
theorem Sound.failing_path (h : Sound middleware parse s) (hm : NacksOnError middleware)
    (ht : s.fleet.tasks[n]? = some task) (hf : Failing s n task)
    (hleft : LeftToRetry parse task (s.handlings n)) :
    task.removals = [] ∧ ∀ x ∈ s.fleet.log, ∀ why, x.origin ≠ .removalBy n why := by
  have hnacks : ∀ caller c, (caller, c) ∈ (s.handlings n).calls → task.payload ≠ none → c = .nack := by
    intro caller c hc hp
    cases caller with
    | handler => exact hleft.calls c hc
    | middleware => exact h.failing_nacks hm ht hp hf hc
  have hnone : task.removals = [] := by
    refine List.eq_nil_iff_forall_not_mem.mpr fun why hw => ?_
    have hp := h.inv.sender n task ht (List.ne_nil_of_mem hw)
    have hasked := (h.tracks n task ht).asked why hw
    cases why with
    | ack =>
        obtain ⟨caller, hc⟩ := hasked
        cases hnacks caller .ack hc hp
    | reject =>
        obtain ⟨caller, hc⟩ := hasked
        cases hnacks caller .reject hc hp
    | discardCorrupt =>
        obtain ⟨payload, hpay, hcorrupt⟩ := hasked
        exact hleft.readable payload hpay hcorrupt
  refine ⟨hnone, fun x hx why ho => ?_⟩
  obtain ⟨task', ht', hw, _⟩ := h.sent_of_executed hx ho
  rw [ht] at ht'
  cases ht'
  rw [hnone] at hw
  cases hw

end Executed

end Consumption

end RedisTimers
