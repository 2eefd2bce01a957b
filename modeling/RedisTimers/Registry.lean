/-
  File:      RedisTimers/Registry.lean
  Subject:   WHERE SUBSCRIBERS ARE REGISTERED AND WHICH OF THEM THE HEALTH CHECK SEES (registrator.py,
             router.py; broker.py: ping).

  A registrator is a tree: the endpoints registered on it directly, which FastStream keeps in
  `_subscribers`, and the routers included in it. The `subscribers` property reads the whole tree.

  * `Registrator`, `subscribers`, `fullTopics` -- the tree, its two views, and the full topic of
    each endpoint: the prefixes on its path and its own topic;
  * `subscriber` -- registration, with the duplicate warning; it refuses nothing;
  * `ping`, `ping_iff` -- the health check reads `_subscribers`;
  * `ping_covers_iff` -- when that is the health of every subscriber the broker runs.
-/
import Mathlib.Tactic.Tauto

namespace RedisTimers

/-! ## 1. The tree of registrators -/

/-- A broker or a router: its prefix, its `_subscribers`, and the routers included in it. -/
inductive Registrator (S : Type) where
  | node (pathPrefix : String) (own : List S) (routers : List (Registrator S))

namespace Registrator

variable {S : Type}

/-- `_subscribers`: the endpoints registered on the registrator itself. -/
def own : Registrator S → List S
  | node _ own _ => own

def routers : Registrator S → List (Registrator S)
  | node _ _ routers => routers

mutual

/-- The `subscribers` property: its own endpoints and those of every included router. -/
def subscribers : Registrator S → List S
  | node _ own routers => own ++ subscribersOf routers

def subscribersOf : List (Registrator S) → List S
  | [] => []
  | r :: rs => subscribers r ++ subscribersOf rs

end

mutual

/-- The endpoints of the tree with their full topics, below the prefixes `outer`. -/
def fullTopics (topic : S → String) (outer : String) : Registrator S → List (String × S)
  | node pathPrefix own routers =>
      own.map (fun s => (outer ++ pathPrefix ++ topic s, s)) ++
        fullTopicsOf topic (outer ++ pathPrefix) routers

def fullTopicsOf (topic : S → String) (outer : String) : List (Registrator S) → List (String × S)
  | [] => []
  | r :: rs => fullTopics topic outer r ++ fullTopicsOf topic outer rs

end

theorem subscribers_eq (r : Registrator S) : r.subscribers = r.own ++ subscribersOf r.routers := by
  cases r with
  | node pathPrefix own routers => rfl

mutual

/-- Both views of the tree list the same endpoints in the same order. -/
theorem map_snd_fullTopics (topic : S → String) (outer : String) (r : Registrator S) :
    (fullTopics topic outer r).map Prod.snd = r.subscribers := by
  cases r with
  | node pathPrefix own routers =>
      rw [fullTopics, subscribers, List.map_append, List.map_map,
        map_snd_fullTopicsOf topic (outer ++ pathPrefix) routers]
      simp [Function.comp_def]

theorem map_snd_fullTopicsOf (topic : S → String) (outer : String) (rs : List (Registrator S)) :
    (fullTopicsOf topic outer rs).map Prod.snd = subscribersOf rs := by
  cases rs with
  | nil => rfl
  | cons r rs =>
      rw [fullTopicsOf, subscribersOf, List.map_append, map_snd_fullTopics topic outer r,
        map_snd_fullTopicsOf topic outer rs]

end

/-- `TimersRegistrator.subscriber` on a registrator whose path has the prefixes `outer`: whether the
    duplicate warning is issued, and the registrator with the new endpoint. -/
def subscriber (topic : S → String) (outer : String) (new : S) : Registrator S → Bool × Registrator S
  | node pathPrefix own routers =>
      (own.any fun s => outer ++ pathPrefix ++ topic s = outer ++ pathPrefix ++ topic new,
        node pathPrefix (own ++ [new]) routers)

end Registrator

/-! ## 2. The health check -/

/-- An asyncio task of a subscriber. -/
inductive TaskState where
  | running
  | returned
  | raised
  | cancelled
  deriving DecidableEq, Repr

/-- `task.done()`. -/
def TaskState.done : TaskState → Bool
  | .running => false
  | .returned | .raised | .cancelled => true

structure Subscriber where
  topic : String
  tasks : List TaskState
  deriving DecidableEq, Repr

/-- What the broker's client does when it is pinged. -/
inductive ClientPing where
  | missing
  | raises
  | replies (truthy : Bool)
  deriving DecidableEq, Repr

structure TimersBroker where
  client : ClientPing
  registrator : Registrator Subscriber

namespace TimersBroker

/-- `TimersBroker.ping`: the loops run over `self._subscribers`. -/
def ping (b : TimersBroker) : Bool :=
  match b.client with
  | .missing => false
  | .raises => false
  | .replies truthy =>
    if truthy = false then false
    else if b.registrator.own.any (fun s => s.tasks.any TaskState.done) then false
    else true

/-- A task of the subscriber is done. -/
def Dead (s : Subscriber) : Prop := ∃ t ∈ s.tasks, t.done = true

/-- The client answers and no task of any subscriber the broker runs is done. -/
def Healthy (b : TimersBroker) : Prop :=
  b.client = .replies true ∧ ∀ s ∈ b.registrator.subscribers, ¬ Dead s

theorem any_done_iff (subs : List Subscriber) :
    subs.any (fun s => s.tasks.any TaskState.done) = true ↔ ∃ s ∈ subs, Dead s := by
  rw [List.any_eq_true]
  simp only [List.any_eq_true, Dead]

/-- What `ping` checks. -/
theorem ping_iff (b : TimersBroker) :
    b.ping = true ↔ b.client = .replies true ∧ ∀ s ∈ b.registrator.own, ¬ Dead s := by
  have hany := any_done_iff b.registrator.own
  unfold ping
  cases hc : b.client with
  | missing => simp
  | raises => simp
  | replies truthy =>
      cases truthy with
      | false => simp
      | true =>
          simp only [Bool.true_eq_false, if_false, true_and]
          by_cases hdead : ∃ s ∈ b.registrator.own, Dead s
          · rw [if_pos (hany.mpr hdead)]
            simpa using hdead
          · rw [if_neg fun h => hdead (hany.mp h)]
            simpa using hdead

/-- A subscriber declared on an included router, at any depth, has a task that is done. -/
def RouterDead (b : TimersBroker) : Prop :=
  ∃ s ∈ Registrator.subscribersOf b.registrator.routers, Dead s

/-- A subscriber registered on the broker itself has a task that is done. -/
def OwnDead (b : TimersBroker) : Prop := ∃ s ∈ b.registrator.own, Dead s

theorem healthy_iff (b : TimersBroker) :
    b.Healthy ↔ b.client = .replies true ∧ ¬ b.OwnDead ∧ ¬ b.RouterDead := by
  unfold Healthy OwnDead RouterDead
  rw [Registrator.subscribers_eq]
  simp only [List.mem_append, not_exists, not_and]
  constructor
  · rintro ⟨hc, h⟩
    exact ⟨hc, fun s hs => h s (Or.inl hs), fun s hs => h s (Or.inr hs)⟩
  · rintro ⟨hc, ho, hr⟩
    exact ⟨hc, fun s hs => hs.elim (ho s) (hr s)⟩

/-- **`ping` is the health of every subscriber exactly where it is false anyway, or no subscriber
    declared on a router has a task that is done.** -/
theorem ping_covers_iff (b : TimersBroker) : (b.ping = true ↔ b.Healthy) ↔
    (b.client ≠ .replies true ∨ b.OwnDead ∨ ¬ b.RouterDead) := by
  have hping : b.ping = true ↔ b.client = .replies true ∧ ¬ b.OwnDead := by
    rw [ping_iff]
    unfold OwnDead
    simp only [not_exists, not_and]
  rw [hping, healthy_iff]
  tauto

/-- The poll loop of a subscriber declared on a router has raised; `ping` still answers True. -/
theorem ping_misses_router :
    let b : TimersBroker := ⟨.replies true, .node "" [] [.node "app:" [⟨"reminders", [.raised]⟩] []]⟩
    b.ping = true ∧ ¬ b.Healthy := by
  intro b
  refine ⟨by decide, fun h => h.2 ⟨"reminders", [.raised]⟩ (by decide) ⟨.raised, by decide, rfl⟩⟩

end TimersBroker

end RedisTimers
