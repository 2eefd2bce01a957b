/-
  File:      RedisTimers/Registration.lean
  Subject:   SETTING UP A BROKER: WHEN A SECOND POLLER OF THE SAME KEYS IS REPORTED (registrator.py:
             subscriber). Routers are made, subscribers registered on the broker or on any router
             of any tree, and routers included, in any order; then the broker's tree is what polls.

  A router is included once, with the prefix it was made with and the one it is included with.

  * `SetupStep`, `Setup.step` -- the calls, with the duplicate warning;
  * `Doubled` -- some registrator of a tree has two subscribers of one topic of its own;
  * `warned_iff` -- a warning was issued exactly if some registrator is doubled;
  * `reported_iff` -- so competing pollers are reported unless they stand on different
    registrators and none is doubled.
-/
import Mathlib.Data.List.Nodup
import Mathlib.Order.CompletePartialOrder
import RedisTimers.Library.Replay
import RedisTimers.Registry

namespace RedisTimers

open Replay

namespace Registrator

variable {S : Type}

/-! ## 1. Registrators of a tree -/

mutual

/-- The `_subscribers` of every registrator of the tree. -/
def ownLists : Registrator S → List (List S)
  | node _ own routers => own :: ownListsOf routers

def ownListsOf : List (Registrator S) → List (List S)
  | [] => []
  | r :: rs => ownLists r ++ ownListsOf rs

end

mutual

/-- The full topics of the tree below the prefixes `outer`, a list for each registrator. -/
def topicLists (topic : S → String) (outer : String) : Registrator S → List (List String)
  | node pathPrefix own routers =>
      own.map (fun s => outer ++ pathPrefix ++ topic s) ::
        topicListsOf topic (outer ++ pathPrefix) routers

def topicListsOf (topic : S → String) (outer : String) : List (Registrator S) → List (List String)
  | [] => []
  | r :: rs => topicLists topic outer r ++ topicListsOf topic outer rs

end

mutual

/-- Together they are the full topics of the subscribers. -/
theorem flatten_topicLists (topic : S → String) (outer : String) (r : Registrator S) :
    (topicLists topic outer r).flatten = (fullTopics topic outer r).map Prod.fst := by
  cases r with
  | node pathPrefix own routers =>
      rw [topicLists, fullTopics, List.flatten_cons, List.map_append, List.map_map,
        flatten_topicListsOf topic (outer ++ pathPrefix) routers]
      rfl

theorem flatten_topicListsOf (topic : S → String) (outer : String) (rs : List (Registrator S)) :
    (topicListsOf topic outer rs).flatten = (fullTopicsOf topic outer rs).map Prod.fst := by
  cases rs with
  | nil => rfl
  | cons r rs =>
      rw [topicListsOf, fullTopicsOf, List.flatten_append, List.map_append,
        flatten_topicLists topic outer r, flatten_topicListsOf topic outer rs]

end

/-- Below one prefix the full topics differ as the topics do. -/
theorem nodup_fullTopics (topic : S → String) (outer : String) (own : List S) :
    (own.map fun s => outer ++ topic s).Nodup ↔ (own.map topic).Nodup := by
  have hinj : Function.Injective (outer ++ ·) := fun s t h => (String.append_right_inj outer).mp h
  rw [← List.nodup_map_iff hinj (l := own.map topic), List.map_map]
  rfl

mutual

theorem nodup_topicLists (topic : S → String) (outer : String) (r : Registrator S) :
    (∀ l ∈ topicLists topic outer r, l.Nodup) ↔ ∀ own ∈ ownLists r, (own.map topic).Nodup := by
  cases r with
  | node pathPrefix own routers =>
      rw [topicLists, ownLists, List.forall_mem_cons, List.forall_mem_cons,
        nodup_fullTopics topic (outer ++ pathPrefix), nodup_topicListsOf topic _ routers]

theorem nodup_topicListsOf (topic : S → String) (outer : String) (rs : List (Registrator S)) :
    (∀ l ∈ topicListsOf topic outer rs, l.Nodup) ↔ ∀ own ∈ ownListsOf rs, (own.map topic).Nodup := by
  cases rs with
  | nil => exact iff_of_true nofun nofun
  | cons r rs =>
      rw [topicListsOf, ownListsOf, List.forall_mem_append, List.forall_mem_append,
        nodup_topicLists topic outer r, nodup_topicListsOf topic outer rs]

end

/-- Some registrator of the tree has two subscribers of one topic of its own. -/
def Doubled (topic : S → String) (r : Registrator S) : Prop :=
  ∃ own ∈ ownLists r, ¬ (own.map topic).Nodup

/-! ## 2. The calls -/

/-- A call on the registrator at a path of the tree, with the prefixes above it: its warning, and
    the tree it leaves; `none` where there is no registrator. -/
def atPath (call : String → Registrator S → Bool × Registrator S) :
    List Nat → String → Registrator S → Option (Bool × Registrator S)
  | [], outer, r => some (call outer r)
  | i :: path, outer, node pathPrefix own routers => do
    let r ← routers[i]?
    let (warned, r') ← atPath call path (outer ++ pathPrefix) r
    return (warned, node pathPrefix own (routers.set i r'))

/-- `include_router(router, prefix=...)`; it issues no warning. -/
def includeRouter : Registrator S → Registrator S → String → Bool × Registrator S
  | node pathPrefix own routers, node routerPrefix routerOwn nested, inclusionPrefix =>
      (false,
        node pathPrefix own (routers ++ [node (inclusionPrefix ++ routerPrefix) routerOwn nested]))

/-- One member of a list replaced: what some member has, up to what the replacement adds. -/
theorem exists_mem_set {T : Type} {P : T → Prop} {q : Prop} {l : List T} {i : Nat} {a b : T}
    (ha : l[i]? = some a) (hb : P b ↔ P a ∨ q) : (∃ x ∈ l.set i b, P x) ↔ (∃ x ∈ l, P x) ∨ q := by
  obtain ⟨hi, rfl⟩ := List.getElem?_eq_some_iff.mp ha
  constructor
  · rintro ⟨x, hx, hP⟩
    rcases List.mem_or_eq_of_mem_set hx with hx | rfl
    · exact Or.inl ⟨x, hx, hP⟩
    · exact (hb.mp hP).imp_left fun h => ⟨_, List.getElem_mem hi, h⟩
  · have hmem : b ∈ l.set i b := List.mem_set hi b
    rintro (⟨x, hx, hP⟩ | hq)
    · by_cases hxa : x = l[i]
      · exact ⟨b, hmem, hb.mpr (Or.inl (hxa ▸ hP))⟩
      · obtain ⟨j, hj, rfl⟩ := List.getElem_of_mem hx
        have hij : i ≠ j := fun e => hxa (by subst e; rfl)
        exact ⟨_, List.mem_iff_getElem.mpr ⟨j, by simpa using hj, List.getElem_set_ne hij _⟩, hP⟩
    · exact ⟨b, hmem, hb.mpr (Or.inr hq)⟩

section Doubling

variable {topic : S → String}

theorem mem_ownListsOf {own : List S} {rs : List (Registrator S)} :
    own ∈ ownListsOf rs ↔ ∃ r ∈ rs, own ∈ ownLists r := by
  induction rs with
  | nil => simp [ownListsOf]
  | cons r rs ih => simp [ownListsOf, ih]

theorem doubled_node {pathPrefix : String} {own : List S} {routers : List (Registrator S)} :
    Doubled topic (node pathPrefix own routers) ↔
      ¬ (own.map topic).Nodup ∨ ∃ r ∈ routers, Doubled topic r := by
  unfold Doubled
  rw [ownLists]
  constructor
  · rintro ⟨l, hl, hd⟩
    rcases List.mem_cons.mp hl with rfl | hl
    · exact Or.inl hd
    · obtain ⟨r, hr, hlr⟩ := mem_ownListsOf.mp hl
      exact Or.inr ⟨r, hr, l, hlr, hd⟩
  · rintro (hd | ⟨r, hr, l, hl, hd⟩)
    · exact ⟨own, List.mem_cons_self, hd⟩
    · exact ⟨l, List.mem_cons_of_mem _ (mem_ownListsOf.mpr ⟨r, hr, hl⟩), hd⟩

/-- The duplicate check sees what a registration doubles. -/
theorem doubled_subscriber (outer : String) (new : S) (r : Registrator S) :
    Doubled topic (r.subscriber topic outer new).2 ↔
      Doubled topic r ∨ (r.subscriber topic outer new).1 = true := by
  cases r with
  | node pathPrefix own routers =>
      have hsame : ∀ s : S, outer ++ pathPrefix ++ topic s = outer ++ pathPrefix ++ topic new ↔
          topic s = topic new := fun s => String.append_right_inj _
      have hnew : ¬ ((own ++ [new]).map topic).Nodup ↔
          ¬ (own.map topic).Nodup ∨ ∃ s ∈ own, topic s = topic new := by
        rw [List.map_append, List.map_singleton, ← List.concat_eq_append, List.nodup_concat,
          List.mem_map, not_and_or, not_not, or_comm]
      rw [subscriber, doubled_node, doubled_node, hnew, List.any_eq_true]
      simp only [hsame, decide_eq_true_eq]
      exact or_right_comm

/-- Inclusion brings in what the router has doubled, and doubles nothing itself. -/
theorem doubled_includeRouter (r router : Registrator S) (inclusionPrefix : String) :
    Doubled topic (r.includeRouter router inclusionPrefix).2 ↔ Doubled topic r ∨ Doubled topic router := by
  cases r with
  | node pathPrefix own routers =>
      cases router with
      | node routerPrefix routerOwn nested =>
          rw [includeRouter, doubled_node, doubled_node, doubled_node, or_assoc, or_congr_right]
          simp only [List.mem_append, List.mem_singleton, or_and_right, exists_or, exists_eq_left,
            doubled_node]

/-- A call at a path doubles in the tree what it doubles on its registrator. -/
theorem doubled_atPath {call : String → Registrator S → Bool × Registrator S} {q : Bool → Prop}
    (hcall : ∀ outer r, Doubled topic (call outer r).2 ↔ Doubled topic r ∨ q (call outer r).1)
    {path : List Nat} {outer : String} {r r' : Registrator S} {w : Bool}
    (h : atPath call path outer r = some (w, r')) : Doubled topic r' ↔ Doubled topic r ∨ q w := by
  induction path generalizing outer r r' with
  | nil =>
      simp only [atPath, Option.some.injEq] at h
      have hc := hcall outer r
      rw [h] at hc
      exact hc
  | cons i path ih =>
      cases r with
      | node pathPrefix own routers =>
          simp only [atPath, Option.bind_eq_bind, Option.bind_eq_some_iff] at h
          obtain ⟨r₀, hr₀, ⟨w₀, r₁⟩, hin, hout⟩ := h
          cases hout
          rw [doubled_node, doubled_node, exists_mem_set hr₀ (ih hin), or_assoc]

end Doubling

end Registrator

/-! ## 3. Setting up -/

/-- The trees of a set-up, by name, and whether a warning was issued. The broker is the tree 0; a
    router is a tree of its own until it is included. -/
structure Setup (S : Type) where
  trees : Nat → Option (Registrator S)
  warned : Bool

/-- A call of a set-up. -/
inductive SetupStep (S : Type) where
  /-- `TimersRouter(prefix=...)`. -/
  | router (n : Nat) (pathPrefix : String)
  /-- `subscriber(...)` on the registrator at a path of a tree. -/
  | subscriber (n : Nat) (path : List Nat) (new : S)
  /-- `include_router(router, prefix=...)` on the registrator at a path of a tree. -/
  | includeRouter (n : Nat) (path : List Nat) (router : Nat) (inclusionPrefix : String)

namespace Setup

variable {S : Type} (topic : S → String)

/-- A broker with its prefix, and nothing else. -/
def init (brokerPrefix : String) : Setup S :=
  ⟨fun n => if n = 0 then some (.node brokerPrefix [] []) else none, false⟩

/-- A call; one that names no registrator, a taken name, or a router of its own tree does nothing. -/
def step (st : Setup S) : SetupStep S → Setup S
  | .router n pathPrefix =>
    match st.trees n with
    | none => { st with trees := Function.update st.trees n (some (.node pathPrefix [] [])) }
    | some _ => st
  | .subscriber n path new =>
    match (st.trees n).bind (Registrator.atPath (fun outer r => r.subscriber topic outer new) path "") with
    | none => st
    | some (warned, r') => ⟨Function.update st.trees n (some r'), st.warned || warned⟩
  | .includeRouter n path router inclusionPrefix =>
    if router = 0 ∨ router = n then st
    else match st.trees router with
      | none => st
      | some child =>
        match (st.trees n).bind
            (Registrator.atPath (fun _ r => r.includeRouter child inclusionPrefix) path "") with
        | none => st
        | some (_, r') =>
          { st with trees := Function.update (Function.update st.trees n (some r')) router none }

def run (brokerPrefix : String) (steps : List (SetupStep S)) : Setup S :=
  replay (step topic) (init brokerPrefix) steps

/-- `broker.subscribers` with their full topics. -/
def polled (st : Setup S) : List (String × S) :=
  match st.trees 0 with
  | some broker => broker.fullTopics topic ""
  | none => []

/-- Two subscribers of the broker poll the same keys. -/
def Competing (st : Setup S) : Prop := ¬ ((st.polled topic).map Prod.fst).Nodup

/-- Two subscribers of one full topic stand on different registrators of the broker's tree. -/
def Crossing (st : Setup S) : Prop :=
  ∃ broker, st.trees 0 = some broker ∧
    ¬ (broker.topicLists topic "").Pairwise List.Disjoint

/-- Two subscribers of one topic stand on one registrator, of the broker's tree or another one. -/
def Doubled (st : Setup S) : Prop := ∃ n r, st.trees n = some r ∧ r.Doubled topic

/-! ## 4. Warnings -/

variable {topic} {st : Setup S}

/-- Some tree other than that of the name `n` has a doubled registrator. -/
def DoubledBeside (topic : S → String) (st : Setup S) (n : Nat) : Prop :=
  ∃ m r, m ≠ n ∧ st.trees m = some r ∧ r.Doubled topic

/-- What is doubled is doubled in the tree of a name or beside it. -/
theorem doubled_split (n : Nat) :
    st.Doubled topic ↔ st.DoubledBeside topic n ∨ ∃ r, st.trees n = some r ∧ r.Doubled topic := by
  constructor
  · intro h
    obtain ⟨m, r, hr, hd⟩ := h
    by_cases hm : m = n
    · exact Or.inr ⟨r, hm ▸ hr, hd⟩
    · exact Or.inl ⟨m, r, hm, hr, hd⟩
  · intro h
    rcases h with ⟨m, r, _, hr, hd⟩ | ⟨r, hr, hd⟩
    · exact ⟨m, r, hr, hd⟩
    · exact ⟨n, r, hr, hd⟩

/-- A tree set anew leaves what is beside it. -/
theorem doubled_set (n : Nat) (t : Option (Registrator S)) (w : Bool) :
    Doubled topic ⟨Function.update st.trees n t, w⟩ ↔
      st.DoubledBeside topic n ∨ ∃ r, t = some r ∧ r.Doubled topic := by
  have hbeside : DoubledBeside topic ⟨Function.update st.trees n t, w⟩ n ↔
      st.DoubledBeside topic n := by
    refine exists_congr fun m => exists_congr fun r => and_congr_right fun hm => ?_
    show Function.update st.trees n t m = some r ∧ _ ↔ _
    rw [Function.update_of_ne hm]
  rw [doubled_split n, hbeside]
  simp only [Function.update_self]

/-- A tree replaced adds to what is doubled what the replacement adds. -/
theorem doubled_update {n : Nat} {r r' : Registrator S} {q : Prop} {w : Bool} (hn : st.trees n = some r)
    (hr : r'.Doubled topic ↔ r.Doubled topic ∨ q) :
    Doubled topic ⟨Function.update st.trees n (some r'), w⟩ ↔ st.Doubled topic ∨ q := by
  rw [doubled_set, doubled_split n, hn]
  simp only [Option.some.injEq, exists_eq_left', hr, or_assoc]

/-- A tree without subscribers doubles nothing. -/
theorem doubled_router {n : Nat} {pathPrefix : String} (hn : st.trees n = none) {w : Bool} :
    Doubled topic ⟨Function.update st.trees n (some (.node pathPrefix [] [])), w⟩ ↔ st.Doubled topic := by
  have hempty : ¬ (Registrator.node pathPrefix ([] : List S) []).Doubled topic := by
    rw [Registrator.doubled_node]
    simp
  rw [doubled_set, doubled_split n, hn]
  simp only [Option.some.injEq, exists_eq_left', hempty, reduceCtorEq, false_and, exists_false]

/-- A tree that moves into another one takes along what it has doubled. -/
theorem doubled_moved {n router : Nat} {r r' child : Registrator S} {w : Bool} (hne : router ≠ n)
    (hn : st.trees n = some r) (hchild : st.trees router = some child)
    (hr : r'.Doubled topic ↔ r.Doubled topic ∨ child.Doubled topic) :
    Doubled topic ⟨Function.update (Function.update st.trees n (some r')) router none, w⟩ ↔
      st.Doubled topic := by
  -- the set-up with the tree grown, and the router still under its name
  have hgrown : Doubled topic ⟨Function.update st.trees n (some r'), w⟩ ↔ st.Doubled topic := by
    rw [doubled_update hn hr]
    exact or_iff_left_of_imp fun h => ⟨router, child, hchild, h⟩
  have hstill : Function.update st.trees n (some r') router = some child :=
    (Function.update_of_ne hne ..).trans hchild
  have hcopy : child.Doubled topic →
      DoubledBeside topic ⟨Function.update st.trees n (some r'), w⟩ router := fun h =>
    ⟨n, r', hne.symm, Function.update_self .., hr.mpr (Or.inr h)⟩
  have hgone := @doubled_set S topic ⟨Function.update st.trees n (some r'), w⟩ router none w
  refine hgone.trans (Iff.trans ?_ hgrown)
  rw [doubled_split router]
  simp only [hstill, Option.some.injEq, exists_eq_left', reduceCtorEq, false_and, exists_false,
    or_false]
  exact (or_iff_left_of_imp hcopy).symm

/-- **Every call keeps it so that a warning was issued exactly if a registrator is doubled.** -/
theorem warned_step (h : st.warned = true ↔ st.Doubled topic) (c : SetupStep S) :
    (st.step topic c).warned = true ↔ (st.step topic c).Doubled topic := by
  cases c with
  | router n pathPrefix =>
      simp only [step]
      split
      · rename_i hn
        rw [doubled_router hn]
        exact h
      · exact h
  | subscriber n path new =>
      simp only [step]
      split
      · exact h
      · rename_i warned r' hcall
        obtain ⟨r, hn, hpath⟩ := Option.bind_eq_some_iff.mp hcall
        have hr : r'.Doubled topic ↔ r.Doubled topic ∨ warned = true :=
          Registrator.doubled_atPath (q := (· = true))
            (fun outer r => Registrator.doubled_subscriber outer new r) hpath
        rw [doubled_update hn hr, Bool.or_eq_true, h]
  | includeRouter n path router inclusionPrefix =>
      simp only [step]
      split
      · exact h
      · rename_i hne
        split
        · exact h
        · rename_i child hchild
          split
          · exact h
          · rename_i w r' hcall
            obtain ⟨r, hn, hpath⟩ := Option.bind_eq_some_iff.mp hcall
            have hr : r'.Doubled topic ↔ r.Doubled topic ∨ child.Doubled topic :=
              Registrator.doubled_atPath (q := fun _ => child.Doubled topic)
                (fun _ r => Registrator.doubled_includeRouter r child inclusionPrefix) hpath
            rw [doubled_moved (fun e => hne (Or.inr e)) hn hchild hr]
            exact h

/-- **A warning was issued in a set-up exactly if some registrator is doubled.** -/
theorem warned_iff (brokerPrefix : String) (steps : List (SetupStep S)) :
    (run topic brokerPrefix steps).warned = true ↔ (run topic brokerPrefix steps).Doubled topic := by
  refine replay_invariant (I := fun st : Setup S => st.warned = true ↔ st.Doubled topic)
    (fun st c _ h => warned_step h c) (iff_of_false (by simp [init]) ?_)
  rintro ⟨n, r, hn, hd⟩
  simp only [init, Option.ite_none_right_eq_some, Option.some.injEq] at hn
  obtain ⟨_, rfl⟩ := hn
  rw [Registrator.doubled_node] at hd
  simp at hd

/-- Pollers compete where some registrator is doubled, or two have a full topic in common. -/
theorem competing_cases (h : st.Competing topic) : st.Doubled topic ∨ st.Crossing topic := by
  unfold Competing polled at h
  cases hb : st.trees 0 with
  | none =>
      rw [hb] at h
      exact absurd List.nodup_nil h
  | some broker =>
      rw [hb] at h
      simp only [← Registrator.flatten_topicLists, List.nodup_flatten] at h
      rcases not_and_or.mp h with hlists | hcross
      · rw [Registrator.nodup_topicLists] at hlists
        push Not at hlists
        obtain ⟨own, hown, hd⟩ := hlists
        exact Or.inl ⟨0, broker, hb, own, hown, hd⟩
      · exact Or.inr ⟨broker, hb, hcross⟩

theorem Crossing.competing (h : st.Crossing topic) : st.Competing topic := by
  obtain ⟨broker, hb, hcross⟩ := h
  unfold Competing polled
  rw [hb]
  simp only [← Registrator.flatten_topicLists, List.nodup_flatten]
  exact fun hnodup => hcross hnodup.2

/-- **COMPETING POLLERS ARE REPORTED exactly if** no two subscribers of one full topic stand on
    different registrators of the broker's tree, or some registrator has two of one topic itself. -/
theorem reported_iff (topic : S → String) (brokerPrefix : String) (steps : List (SetupStep S)) :
    ((run topic brokerPrefix steps).Competing topic → (run topic brokerPrefix steps).warned = true) ↔
      ¬ (run topic brokerPrefix steps).Crossing topic ∨ (run topic brokerPrefix steps).Doubled topic := by
  rw [warned_iff]
  constructor
  · intro h
    by_cases hcross : (run topic brokerPrefix steps).Crossing topic
    · exact Or.inr (h hcross.competing)
    · exact Or.inl hcross
  · rintro (hcross | hd) hcompeting
    · exact (competing_cases hcompeting).resolve_right hcross
    · exact hd

/-- A subscriber of the broker and one of an included router, on the same keys: no warning. -/
theorem router_competes_unreported :
    let st := run id "" [.subscriber 0 [] "t", .router 1 "", .subscriber 1 [] "t", .includeRouter 0 [] 1 ""]
    st.Competing id ∧ ¬ st.warned = true := by
  intro st
  refine ⟨?_, by decide⟩
  show ¬ ((st.polled id).map Prod.fst).Nodup
  decide

end Setup

end RedisTimers
