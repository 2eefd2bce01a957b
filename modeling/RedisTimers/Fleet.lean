/-
  File:      RedisTimers/Fleet.lean
  Subject:   THE FLEET: publishers, users and workers over one Redis (subscriber/usecase.py:
             _get_msgs, _claim_and_consume; message.py: ack, reject; parser.py: _discard_corrupt).

  An action is one step of one party, and any list of actions is a run: every interleaving, every
  crash. A request that was sent is executed by Redis at any later action, or never, whether or not
  its task is still alive, so a claim or a removal may fail before or after it took effect. Nothing
  bounds the clocks: each claim carries its own reading.

  * `Fleet`, `Action`, `step`, `run` -- the machine; an action that is not enabled changes nothing.
    What a handler and the acknowledgement middleware call on a message is in Consumption.lean;
  * `Inv`, `inv_run` -- who sent each entry of the log, and which entry each delivery comes from.
-/
import RedisTimers.Delivery

namespace RedisTimers

open Replay

/-! ## 1. The machine -/

/-- How a `_claim_and_consume` ended. -/
inductive Ending where
  /-- `store.claim` returned nothing. -/
  | contested
  /-- `store.claim` raised, or `fail_after` did; Redis may have executed it. -/
  | claimRaised
  /-- `consume` came back, with the handling of the message ended so. -/
  | consumed (outcome : Outcome)
  /-- Cancelled while it waited for the limiter, for its claim or in `consume`. -/
  | cancelled
  /-- Lost with its worker, at any point. -/
  | crashed
  deriving DecidableEq

/-- A `_claim_and_consume` task and how far it got. -/
structure Task where
  topic : String
  timerId : String
  leaseTtl : ℚ
  /-- The clock reading its claim was sent with, once it was sent. -/
  claimNow : Option ℚ
  /-- The payload its claim returned, once it was handed on to `consume`. -/
  payload : Option Bytes
  /-- The removals it sent: ack, reject, the discard of a corrupt payload. -/
  removals : List Removal
  /-- How it ended, once it did. -/
  ending : Option Ending
  deriving DecidableEq

def Task.live (task : Task) : Bool := task.ending.isNone

/-- A task as `tg.start_soon` spawns it. -/
def Task.spawned (topic : String) (leaseTtl : ℚ) (timerId : String) : Task :=
  ⟨topic, timerId, leaseTtl, none, none, [], none⟩

/-- A payload handed to `consume`: the task, the position in the log of the claim that returned
    it, and the message. -/
structure Delivery where
  task : Nat
  claimAt : Nat
  topic : String
  timerId : String
  payload : Bytes
  deriving DecidableEq

structure Fleet where
  stores : Stores
  log : List Entry
  tasks : List Task
  delivered : List Delivery

def Fleet.init : Fleet := ⟨.empty, [], [], []⟩

/-- One step of one party. -/
inductive Action where
  | publish (topic timerId : String) (payload : Bytes) (activationTs : ℚ)
  | cancel (topic timerId : String)
  | cancelAll (topic : String)
  /-- A `due` that met an undecodable id has Redis execute the commit script on it. -/
  | heal (topic : String) (rawId : Undecodable)
  /-- A poll: `due`, and one task for each id it returned. -/
  | fetch (topic : String) (mode : ClientMode) (now : ℚ) (limit : Int) (leaseTtl : ℚ)
  | sendClaim (task : Nat) (now : ℚ)
  | executeClaim (task : Nat)
  /-- The reply of the claim executed at a position of the log reaches its task. -/
  | claimReply (task claimAt : Nat)
  /-- An `ack` or `reject` of its message, or the discard of a corrupt one, calls `store.remove`. -/
  | sendRemoval (task : Nat) (why : Removal)
  | executeRemoval (task : Nat) (why : Removal)
  | finish (task : Nat) (ending : Ending)

namespace Fleet

/-- Redis executes a command. -/
def execute (s : Fleet) (origin : Origin) (topic : String) (command : Command) : Fleet :=
  let e : Entry := ⟨origin, topic, command, ((s.stores topic).run command).1⟩
  { s with stores := applyEntry s.stores e, log := s.log ++ [e] }

/-- The ids a `due` returned. -/
def idsOf (r : Except PyError Reply) : List String :=
  match r with
  | .ok (.ids timerIds) => timerIds
  | _ => []

/-- A task takes a step of its own. -/
def setTask (s : Fleet) (n : Nat) (task : Task) : Fleet := { s with tasks := s.tasks.set n task }

def step (s : Fleet) : Action → Fleet
  | .publish topic timerId payload activationTs =>
      s.execute .publisher topic (.schedule timerId payload activationTs)
  | .cancel topic timerId => s.execute .user topic (.remove timerId)
  | .cancelAll topic => s.execute .user topic .cancelAll
  | .heal topic rawId => s.execute .healing topic (.discard rawId)
  | .fetch topic mode now limit leaseTtl =>
      let timerIds := idsOf ((s.stores topic).run (.due mode now limit)).1
      { s.execute .poll topic (.due mode now limit) with
        tasks := s.tasks ++ timerIds.map (.spawned topic leaseTtl) }
  | .sendClaim n now => match s.tasks[n]? with
    | some task =>
      if task.live ∧ task.claimNow = none then s.setTask n { task with claimNow := some now } else s
    | none => s
  | .executeClaim n => match s.tasks[n]? with
    | some task => match task.claimNow with
      | some now => s.execute (.claimOf n) task.topic (.claim task.timerId now task.leaseTtl)
      | none => s
    | none => s
  | .claimReply n k => match s.tasks[n]?, s.log[k]? with
    | some task, some e =>
      if task.live ∧ task.payload = none ∧ e.origin = .claimOf n then
        match e.granted with
        | some payload =>
          { s.setTask n { task with payload := some payload } with
            delivered := s.delivered ++ [⟨n, k, task.topic, task.timerId, payload⟩] }
        | none => s.setTask n { task with ending := some .contested }
      else s
    | _, _ => s
  | .sendRemoval n why => match s.tasks[n]? with
    | some task =>
      if task.live ∧ task.payload ≠ none then
        s.setTask n { task with removals := why :: task.removals }
      else s
    | none => s
  | .executeRemoval n why => match s.tasks[n]? with
    | some task =>
      if why ∈ task.removals then s.execute (.removalBy n why) task.topic (.remove task.timerId) else s
    | none => s
  | .finish n ending => match s.tasks[n]? with
    | some task => s.setTask n { task with ending := task.ending.or (some ending) }
    | none => s

/-- The fleet after a list of actions, from an empty Redis. -/
def run (as : List Action) : Fleet := replay step .init as

/-! ## 2. What a step can do -/

/-- A step of the task `n` of its own that sends no removal: what it is stays, and what it did stays
    done. It ends as its claim was refused, or as the action says. -/
structure Moves (a : Action) (n : Nat) (task task' : Task) : Prop where
  topic : task'.topic = task.topic
  timerId : task'.timerId = task.timerId
  leaseTtl : task'.leaseTtl = task.leaseTtl
  claimNow : ∀ now, task.claimNow = some now → task'.claimNow = some now
  payload : task'.payload = task.payload
  removals : task'.removals = task.removals
  ending : task'.ending = task.ending ∨
    (task'.ending = some .contested ∧ task.ending = none ∧ task.payload = none) ∨
    ∃ e, a = .finish n e ∧ task'.ending = task.ending.or (some e)

/-- The actions of publishers, users and healing polls, and the command each has Redis execute. -/
inductive Outside : Action → Origin → String → Command → Prop where
  | schedule (topic timerId : String) (payload : Bytes) (activationTs : ℚ) :
      Outside (.publish topic timerId payload activationTs) .publisher topic
        (.schedule timerId payload activationTs)
  | remove (topic timerId : String) :
      Outside (.cancel topic timerId) .user topic (.remove timerId)
  | cancelAll (topic : String) : Outside (.cancelAll topic) .user topic .cancelAll
  | discard (topic : String) (rawId : Undecodable) :
      Outside (.heal topic rawId) .healing topic (.discard rawId)

/-- The actions of a task. -/
def ofTask : Action → Bool
  | .sendClaim .. | .executeClaim _ | .claimReply .. | .sendRemoval .. | .executeRemoval .. => true
  | .finish .. => true
  | .publish .. | .cancel .. | .cancelAll _ | .heal .. | .fetch .. => false

/-- Everything a step can do. -/
inductive Effect (s : Fleet) : Action → Fleet → Prop where
  | idle {a : Action} (ha : ofTask a) : Effect s a s
  | outside {a : Action} {o : Origin} {topic : String} {c : Command} (ha : Outside a o topic c) :
      Effect s a (s.execute o topic c)
  | poll (topic : String) (mode : ClientMode) (now : ℚ) (limit : Int) (leaseTtl : ℚ)
      (timerIds : List String) :
      Effect s (.fetch topic mode now limit leaseTtl) { s.execute .poll topic (.due mode now limit) with
        tasks := s.tasks ++ timerIds.map (.spawned topic leaseTtl) }
  | claim {a : Action} (ha : ofTask a) (n : Nat) (task : Task) (now : ℚ)
      (ht : s.tasks[n]? = some task) (hn : task.claimNow = some now) :
      Effect s a (s.execute (.claimOf n) task.topic (.claim task.timerId now task.leaseTtl))
  | removal {a : Action} (ha : ofTask a) (n : Nat) (task : Task) (why : Removal)
      (ht : s.tasks[n]? = some task) (hw : why ∈ task.removals) :
      Effect s a (s.execute (.removalBy n why) task.topic (.remove task.timerId))
  | move {a : Action} (ha : ofTask a) (n : Nat) (task task' : Task) (ht : s.tasks[n]? = some task)
      (hm : Moves a n task task') : Effect s a (s.setTask n task')
  | send (n : Nat) (task : Task) (why : Removal) (ht : s.tasks[n]? = some task)
      (hl : task.live = true) (hp : task.payload ≠ none) :
      Effect s (.sendRemoval n why) (s.setTask n { task with removals := why :: task.removals })
  | deliver {a : Action} (ha : ofTask a) (n k : Nat) (task : Task) (e : Entry) (payload : Bytes)
      (ht : s.tasks[n]? = some task) (hk : s.log[k]? = some e) (hnone : task.payload = none)
      (ho : e.origin = .claimOf n) (hg : e.granted = some payload) (hl : task.live = true) :
      Effect s a { s.setTask n { task with payload := some payload } with
        delivered := s.delivered ++ [⟨n, k, task.topic, task.timerId, payload⟩] }

theorem step_effect (s : Fleet) (a : Action) : Effect s a (step s a) := by
  cases a with
  | publish topic timerId payload ts => exact .outside (.schedule topic timerId payload ts)
  | cancel topic timerId => exact .outside (.remove topic timerId)
  | cancelAll topic => exact .outside (.cancelAll topic)
  | heal topic rawId => exact .outside (.discard topic rawId)
  | fetch topic mode now limit ttl => exact .poll topic mode now limit ttl _
  | sendClaim n now =>
      simp only [step]
      split
      · rename_i task ht
        split
        · rename_i hc
          have hsent : ∀ x, task.claimNow = some x → some now = some x := fun x hx => by
            rw [hc.2] at hx
            cases hx
          exact .move rfl n task _ ht ⟨rfl, rfl, rfl, hsent, rfl, rfl, Or.inl rfl⟩
        · exact .idle rfl
      · exact .idle rfl
  | executeClaim n =>
      simp only [step]
      split
      · rename_i task ht
        split
        · rename_i now hn
          exact .claim rfl n task now ht hn
        · exact .idle rfl
      · exact .idle rfl
  | claimReply n k =>
      simp only [step]
      split
      · rename_i task e ht hk
        split
        · rename_i hc
          split
          · rename_i payload hg
            exact .deliver rfl n k task e payload ht hk hc.2.1 hc.2.2 hg hc.1
          · have hopen : task.ending = none := Option.isNone_iff_eq_none.mp hc.1
            exact .move rfl n task _ ht ⟨rfl, rfl, rfl, fun _ h => h, rfl, rfl,
              Or.inr (Or.inl ⟨rfl, hopen, hc.2.1⟩)⟩
        · exact .idle rfl
      · exact .idle rfl
  | sendRemoval n why =>
      simp only [step]
      split
      · rename_i task ht
        split
        · rename_i hc
          exact .send n task why ht hc.1 hc.2
        · exact .idle rfl
      · exact .idle rfl
  | executeRemoval n why =>
      simp only [step]
      split
      · rename_i task ht
        split
        · rename_i hw
          exact .removal rfl n task why ht hw
        · exact .idle rfl
      · exact .idle rfl
  | finish n ending =>
      simp only [step]
      split
      · rename_i task ht
        exact .move rfl n task _ ht ⟨rfl, rfl, rfl, fun _ h => h, rfl, rfl,
          Or.inr (Or.inr ⟨ending, rfl, rfl⟩)⟩
      · exact .idle rfl

/-- A removal is sent by a task that lives and was handed a payload. -/
theorem step_sendRemoval {s : Fleet} {n : Nat} {task : Task} (ht : s.tasks[n]? = some task)
    (hl : task.live = true) (hp : task.payload ≠ none) (why : Removal) :
    step s (.sendRemoval n why) = s.setTask n { task with removals := why :: task.removals } := by
  simp only [step, ht]
  exact if_pos ⟨hl, hp⟩

/-! ## 3. The log drives the stores -/

/-- A step executes one command, with the reply the store gives, or none. -/
theorem step_logged : Logged applyEntry RepliedBy Fleet.stores Fleet.log step := by
  intro s a
  have heff := step_effect s a
  generalize step s a = s' at heff
  cases heff with
  | idle => exact Or.inl ⟨rfl, rfl⟩
  | move => exact Or.inl ⟨rfl, rfl⟩
  | send => exact Or.inl ⟨rfl, rfl⟩
  | deliver => exact Or.inl ⟨rfl, rfl⟩
  | outside => exact Or.inr ⟨_, by rw [RepliedBy], rfl, rfl⟩
  | poll => exact Or.inr ⟨_, by rw [RepliedBy], rfl, rfl⟩
  | claim => exact Or.inr ⟨_, by rw [RepliedBy], rfl, rfl⟩
  | removal => exact Or.inr ⟨_, by rw [RepliedBy], rfl, rfl⟩

/-- **The log of a run is an executed log**, and the stores are those after it. -/
theorem executed_run (as : List Action) :
    Executed (run as).log ∧ (run as).stores = storesAfter (run as).log := by
  have hlog : Fleet.init.log = [] := rfl
  have h := logged_replay step_logged hlog as
  exact ⟨h.2, h.1⟩

/-! ## 4. Who sent each entry, and where each delivery comes from -/

/-- An entry of the log was sent by the party its origin names, with what that party has. -/
def SentBy (s : Fleet) (k : Nat) (e : Entry) : Prop :=
  match e.origin with
  | .claimOf n => ∃ task now, s.tasks[n]? = some task ∧ task.claimNow = some now ∧
      e.IsClaim task.topic task.timerId now task.leaseTtl
  | .removalBy n why => ∃ task, s.tasks[n]? = some task ∧ why ∈ task.removals ∧
      e.topic = task.topic ∧ e.command = .remove task.timerId ∧
      ∃ d ∈ s.delivered, d.task = n ∧ d.claimAt < k
  | .poll => ∃ mode now limit, e.command = .due mode now limit
  | o => ∃ a, Outside a o e.topic e.command

/-- A delivery comes from a granted claim of its own task. -/
def Backed (s : Fleet) (d : Delivery) : Prop :=
  ∃ e task, s.log[d.claimAt]? = some e ∧ e.origin = .claimOf d.task ∧ e.granted = some d.payload ∧
    s.tasks[d.task]? = some task ∧ task.topic = d.topic ∧ task.timerId = d.timerId

structure Inv (s : Fleet) : Prop where
  sent : ∀ (k : Nat) (e : Entry), s.log[k]? = some e → SentBy s k e
  backed : ∀ d ∈ s.delivered, Backed s d
  /-- A task is handed at most one payload. -/
  once : (s.delivered.map Delivery.task).Nodup
  handed : ∀ (n : Nat) (task : Task), s.tasks[n]? = some task →
    (task.payload ≠ none ↔ ∃ d ∈ s.delivered, d.task = n)
  sender : ∀ (n : Nat) (task : Task), s.tasks[n]? = some task → task.removals ≠ [] →
    task.payload ≠ none

/-- What a task is and did is still so later. -/
structure Grown (task task' : Task) : Prop where
  topic : task'.topic = task.topic
  timerId : task'.timerId = task.timerId
  leaseTtl : task'.leaseTtl = task.leaseTtl
  claimNow : ∀ now, task.claimNow = some now → task'.claimNow = some now
  removals : ∀ why ∈ task.removals, why ∈ task'.removals

theorem Grown.refl (task : Task) : Grown task task := ⟨rfl, rfl, rfl, fun _ h => h, fun _ h => h⟩

/-- Tasks grow, and log and deliveries are extended at their ends. -/
structure Extends (s s' : Fleet) : Prop where
  tasks : ∀ (n : Nat) (task : Task), s.tasks[n]? = some task →
    ∃ task', s'.tasks[n]? = some task' ∧ Grown task task'
  log : ∀ (k : Nat) (e : Entry), s.log[k]? = some e → s'.log[k]? = some e
  delivered : ∀ d ∈ s.delivered, d ∈ s'.delivered

theorem getElem?_concat_of_some {α : Type} {l : List α} {k : Nat} {a b : α} (h : l[k]? = some a) :
    (l ++ [b])[k]? = some a := by
  rw [List.getElem?_append_left (List.getElem?_eq_some_iff.mp h).1]
  exact h

theorem extends_execute (s : Fleet) (o : Origin) (topic : String) (c : Command) :
    Extends s (s.execute o topic c) where
  tasks _ task h := ⟨task, h, .refl task⟩
  log _ _ h := getElem?_concat_of_some h
  delivered _ h := h

/-- Replacing a task by one it grew into extends the fleet. -/
theorem tasks_setTask {s : Fleet} {n : Nat} {task task' : Task} (ht : s.tasks[n]? = some task)
    (hg : Grown task task') : ∀ (m : Nat) (t : Task), s.tasks[m]? = some t →
      ∃ t', (s.tasks.set n task')[m]? = some t' ∧ Grown t t' := by
  intro m t hm
  by_cases h : n = m
  · subst h
    rw [ht] at hm
    cases hm
    refine ⟨task', ?_, hg⟩
    rw [List.getElem?_set_self (List.getElem?_eq_some_iff.mp ht).1]
  · exact ⟨t, by rw [List.getElem?_set_ne h]; exact hm, .refl t⟩

theorem effect_extends {s s' : Fleet} {a : Action} (h : Effect s a s') : Extends s s' := by
  cases h with
  | idle => exact ⟨fun _ t h => ⟨t, h, .refl t⟩, fun _ _ h => h, fun _ h => h⟩
  | outside => exact extends_execute ..
  | claim => exact extends_execute ..
  | removal => exact extends_execute ..
  | poll topic mode now limit ttl ids =>
      refine ⟨fun n t ht => ⟨t, ?_, .refl t⟩, fun _ _ h => getElem?_concat_of_some h, fun _ h => h⟩
      show (s.tasks ++ _)[n]? = some t
      rw [List.getElem?_append_left (List.getElem?_eq_some_iff.mp ht).1]
      exact ht
  | move _ n task task' ht hm =>
      have hg : Grown task task' :=
        ⟨hm.topic, hm.timerId, hm.leaseTtl, hm.claimNow, fun _ h => by rw [hm.removals]; exact h⟩
      exact ⟨tasks_setTask ht hg, fun _ _ h => h, fun _ h => h⟩
  | send n task why ht =>
      have hg : Grown task { task with removals := why :: task.removals } :=
        ⟨rfl, rfl, rfl, fun _ h => h, fun _ h => List.mem_cons_of_mem _ h⟩
      exact ⟨tasks_setTask ht hg, fun _ _ h => h, fun _ h => h⟩
  | deliver _ n k task e payload ht =>
      have hg : Grown task { task with payload := some payload } :=
        ⟨rfl, rfl, rfl, fun _ h => h, fun _ h => h⟩
      exact ⟨tasks_setTask ht hg, fun _ _ h => h, fun _ h => List.mem_append_left _ h⟩

/-- Who sent an entry does not change later. -/
theorem SentBy.extends {s s' : Fleet} (hx : Extends s s') {k : Nat} {e : Entry} (h : SentBy s k e) :
    SentBy s' k e := by
  unfold SentBy at h ⊢
  split at h
  · obtain ⟨task, now, ht, hn, hc⟩ := h
    obtain ⟨task', ht', hg⟩ := hx.tasks _ _ ht
    refine ⟨task', now, ht', hg.claimNow now hn, ?_⟩
    rw [hg.topic, hg.timerId, hg.leaseTtl]
    exact hc
  · obtain ⟨task, ht, hw, htopic, hc, d, hd, hdn, hlt⟩ := h
    obtain ⟨task', ht', hg⟩ := hx.tasks _ _ ht
    refine ⟨task', ht', hg.removals _ hw, ?_, ?_, d, hx.delivered d hd, hdn, hlt⟩
    · rw [hg.topic]; exact htopic
    · rw [hg.timerId]; exact hc
  · exact h
  · exact h

theorem Backed.extends {s s' : Fleet} (hx : Extends s s') {d : Delivery} (h : Backed s d) :
    Backed s' d := by
  obtain ⟨e, task, hk, ho, hg, ht, htopic, hid⟩ := h
  obtain ⟨task', ht', hgr⟩ := hx.tasks _ _ ht
  exact ⟨e, task', hx.log _ _ hk, ho, hg, ht', hgr.topic.trans htopic, hgr.timerId.trans hid⟩

/-- The last entry of an extended log is the new one. -/
theorem getElem?_concat_cases {α : Type} {l : List α} {k : Nat} {a b : α}
    (h : (l ++ [b])[k]? = some a) : l[k]? = some a ∨ (k = l.length ∧ a = b) := by
  rw [List.getElem?_append] at h
  split at h
  · exact Or.inl h
  · rename_i hk
    have hlt := (List.getElem?_eq_some_iff.mp h).1
    simp only [List.length_singleton] at hlt
    have hk' : k = l.length := by omega
    subst hk'
    simp only [Nat.sub_self, List.getElem?_cons_zero, Option.some.injEq] at h
    exact Or.inr ⟨rfl, h.symm⟩

/-- A command executed for a party that may send it keeps the invariant. -/
theorem inv_execute {s : Fleet} (h : Inv s) {o : Origin} {topic : String} {c : Command}
    (hnew : ∀ e : Entry, e.origin = o → e.topic = topic → e.command = c → SentBy s s.log.length e) :
    Inv (s.execute o topic c) := by
  have hx := extends_execute s o topic c
  refine ⟨fun k e hk => ?_, fun d hd => (h.backed d hd).extends hx, h.once, h.handed, h.sender⟩
  rcases getElem?_concat_cases hk with hold | ⟨rfl, rfl⟩
  · exact (h.sent k e hold).extends hx
  · exact (hnew _ rfl rfl rfl).extends hx

/-- A task after one was replaced is the new one or an old one. -/
theorem getElem?_setTask_cases {s : Fleet} {n m : Nat} {task task' t : Task}
    (ht : s.tasks[n]? = some task) (hm : (s.setTask n task').tasks[m]? = some t) :
    (m = n ∧ t = task') ∨ (m ≠ n ∧ s.tasks[m]? = some t) := by
  have hset : (s.tasks.set n task')[m]? = some t := hm
  by_cases hnm : n = m
  · subst hnm
    rw [List.getElem?_set_self (List.getElem?_eq_some_iff.mp ht).1] at hset
    exact Or.inl ⟨rfl, (Option.some.inj hset).symm⟩
  · rw [List.getElem?_set_ne hnm] at hset
    exact Or.inr ⟨Ne.symm hnm, hset⟩

/-- Replacing a task by one that was handed the same payload, and sends removals only if it was
    handed one, keeps the invariant. -/
theorem inv_setTask {s : Fleet} (h : Inv s) {n : Nat} {task task' : Task}
    (ht : s.tasks[n]? = some task) (hg : Grown task task') (hp : task'.payload = task.payload)
    (hr : task'.removals ≠ [] → task.removals ≠ [] ∨ task.payload ≠ none) :
    Inv (s.setTask n task') := by
  have hx : Extends s (s.setTask n task') := ⟨tasks_setTask ht hg, fun _ _ h => h, fun _ h => h⟩
  refine ⟨fun k e hk => (h.sent k e hk).extends hx, fun d hd => (h.backed d hd).extends hx, h.once,
    fun m t hmt => ?_, fun m t hmt hsent => ?_⟩
  · rcases getElem?_setTask_cases ht hmt with ⟨rfl, rfl⟩ | ⟨_, hold⟩
    · rw [hp]
      exact h.handed m task ht
    · exact h.handed m t hold
  · rcases getElem?_setTask_cases ht hmt with ⟨rfl, rfl⟩ | ⟨_, hold⟩
    · rw [hp]
      exact (hr hsent).elim (h.sender m task ht) id
    · exact h.sender m t hold hsent

/-- Handing a payload to a task that had none keeps the invariant. -/
theorem inv_deliver {s : Fleet} (h : Inv s) {n k : Nat} {task : Task} {e : Entry} {payload : Bytes}
    (ht : s.tasks[n]? = some task) (hk : s.log[k]? = some e) (hnone : task.payload = none)
    (ho : e.origin = .claimOf n) (hg : e.granted = some payload) (hl : task.live = true) :
    Inv { s.setTask n { task with payload := some payload } with
      delivered := s.delivered ++ [⟨n, k, task.topic, task.timerId, payload⟩] } := by
  have hx := effect_extends (.deliver (a := .claimReply n k) rfl n k task e payload ht hk hnone ho hg hl)
  have hnew : ∀ d ∈ s.delivered, d.task ≠ n := fun d hd hdn =>
    (h.handed n task ht).mpr ⟨d, hd, hdn⟩ hnone
  refine ⟨fun j x hj => (h.sent j x hj).extends hx, fun d hd => ?_, ?_, fun m t hmt => ?_,
    fun m t hmt hr => ?_⟩
  · rcases List.mem_append.mp hd with hd | hd
    · exact (h.backed d hd).extends hx
    · rw [List.mem_singleton.mp hd]
      exact ⟨e, _, hk, ho, hg, List.getElem?_set_self (List.getElem?_eq_some_iff.mp ht).1, rfl, rfl⟩
  · rw [List.map_append]
    refine List.nodup_append.mpr ⟨h.once, List.nodup_singleton n, fun a ha b hb hab => ?_⟩
    obtain ⟨d, hd, hda⟩ := List.mem_map.mp ha
    have hbn : b = n := List.mem_singleton.mp hb
    exact hnew d hd (hda.trans (hab.trans hbn))
  · rcases getElem?_setTask_cases ht hmt with ⟨rfl, rfl⟩ | ⟨hne, hold⟩
    · exact ⟨fun _ => ⟨_, List.mem_append_right _ (List.mem_singleton_self _), rfl⟩, fun _ => by simp⟩
    · rw [h.handed m t hold]
      constructor
      · rintro ⟨d, hd, hdm⟩
        exact ⟨d, List.mem_append_left _ hd, hdm⟩
      · rintro ⟨d, hd, hdm⟩
        rcases List.mem_append.mp hd with hd | hd
        · exact ⟨d, hd, hdm⟩
        · rw [List.mem_singleton.mp hd] at hdm
          exact absurd hdm.symm hne
  · rcases getElem?_setTask_cases ht hmt with ⟨rfl, rfl⟩ | ⟨_, hold⟩
    · simp
    · exact h.sender m t hold hr

/-- A poll keeps the invariant: the tasks it spawns have done nothing yet. -/
theorem inv_poll {s : Fleet} (h : Inv s) (topic : String) (mode : ClientMode) (now : ℚ) (limit : Int)
    (leaseTtl : ℚ) (ids : List String) :
    Inv { s.execute .poll topic (.due mode now limit) with
      tasks := s.tasks ++ ids.map (.spawned topic leaseTtl) } := by
  have hx := effect_extends (.poll (s := s) topic mode now limit leaseTtl ids)
  have hcases : ∀ (m : Nat) (t : Task),
      (s.tasks ++ ids.map (Task.spawned topic leaseTtl))[m]? = some t →
      s.tasks[m]? = some t ∨ (s.tasks.length ≤ m ∧ t.payload = none ∧ t.removals = []) := by
    intro m t hmt
    rw [List.getElem?_append] at hmt
    split at hmt
    · exact Or.inl hmt
    · rename_i hlen
      have hmem := List.mem_of_getElem? hmt
      obtain ⟨id, _, rfl⟩ := List.mem_map.mp hmem
      exact Or.inr ⟨by omega, rfl, rfl⟩
  refine ⟨fun k e hk => ?_, fun d hd => (h.backed d hd).extends hx, h.once, fun m t hmt => ?_,
    fun m t hmt hr => ?_⟩
  · rcases getElem?_concat_cases hk with hold | ⟨rfl, rfl⟩
    · exact (h.sent k e hold).extends hx
    · exact ⟨mode, now, limit, rfl⟩
  · rcases hcases m t hmt with hold | ⟨hlen, hp, _⟩
    · exact h.handed m t hold
    · refine ⟨fun hne => absurd hp hne, ?_⟩
      rintro ⟨d, hd, rfl⟩
      obtain ⟨_, _, _, _, _, hlt, _⟩ := h.backed d hd
      have := (List.getElem?_eq_some_iff.mp hlt).1
      omega
  · rcases hcases m t hmt with hold | ⟨_, _, hempty⟩
    · exact h.sender m t hold hr
    · exact absurd hempty hr

/-- **Every step keeps the invariant.** -/
theorem inv_step (s : Fleet) (a : Action) (h : Inv s) : Inv (step s a) := by
  have heff := step_effect s a
  generalize step s a = s' at heff
  cases heff with
  | idle => exact h
  | @outside _ o topic c hout =>
      refine inv_execute h fun e ho htopic hc => ?_
      unfold SentBy
      rw [ho, htopic, hc]
      cases hout <;> exact ⟨_, by constructor⟩
  | poll topic mode now limit ttl ids => exact inv_poll h topic mode now limit ttl ids
  | claim _ n task now ht hn =>
      refine inv_execute h fun e ho htopic hc => ?_
      unfold SentBy
      rw [ho]
      exact ⟨task, now, ht, hn, htopic, hc⟩
  | removal _ n task why ht hw =>
      refine inv_execute h fun e ho htopic hc => ?_
      unfold SentBy
      rw [ho]
      have hp := h.sender n task ht (List.ne_nil_of_mem hw)
      obtain ⟨d, hd, hdn⟩ := (h.handed n task ht).mp hp
      obtain ⟨x, _, hk, _⟩ := h.backed d hd
      exact ⟨task, ht, hw, htopic, hc, d, hd, hdn, (List.getElem?_eq_some_iff.mp hk).1⟩
  | move _ n task task' ht hm =>
      have hg : Grown task task' :=
        ⟨hm.topic, hm.timerId, hm.leaseTtl, hm.claimNow, fun _ h => by rw [hm.removals]; exact h⟩
      exact inv_setTask h ht hg hm.payload fun hr => Or.inl (hm.removals ▸ hr)
  | send n task why ht _ hp =>
      have hg : Grown task { task with removals := why :: task.removals } :=
        ⟨rfl, rfl, rfl, fun _ h => h, fun _ h => List.mem_cons_of_mem _ h⟩
      exact inv_setTask h ht hg rfl fun _ => Or.inr hp
  | deliver _ n k task e payload ht hk hnone ho hg hl => exact inv_deliver h ht hk hnone ho hg hl

theorem inv_init : Inv .init where
  sent k e h := by simp [Fleet.init] at h
  backed d hd := by cases hd
  once := List.nodup_nil
  handed n task h := by simp [Fleet.init] at h
  sender n task h := by simp [Fleet.init] at h

/-- **The invariant holds after every run.** -/
theorem inv_run (as : List Action) : Inv (run as) :=
  replay_invariant (fun s a _ h => inv_step s a h) inv_init

end Fleet

end RedisTimers
