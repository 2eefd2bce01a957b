/-
  File:      RedisTimers/Library/Footprint.lean
  Subject:   FOOTPRINTS: programs over a keyed store that read and write a set of keys only.
             General facts; nothing here names a program.

  A program `m` over a store `K → V` may fail with an error, keeping what it wrote.
  * `Local A m` -- outside `A` the store is unchanged, and the result and what is written inside
    `A` depend on the store inside `A` only;
  * `local_pure`, `local_throw`, `local_look`, `local_put`, `local_bind`, `local_attempt`,
    `Local.mono` -- how footprints compose;
  * `Yields P m r Q` -- from every store with `P` the program ends with the result `r` in a store
    with `Q`; `yields_bind` and its companions chain such triples;
  * `runAll_purge` -- NON-INTERFERENCE: in a run of programs whose footprints are apart from one
    tag's, deleting that tag's programs changes no other result and no key outside its footprint;
  * `runAll_answered` -- SIMULATION: programs that answer as a machine does, state by state, have
    the runs of that machine.
-/
import Mathlib.Data.Set.Lattice
import Mathlib.Order.CompletePartialOrder
import RedisTimers.Library.Replay

namespace Footprint

variable {K V ε α β : Type}

/-- A program over the store: a result or an error, and the store it leaves. -/
abbrev Prog (K V ε α : Type) := ExceptT ε (StateM (K → V)) α

/-- The outcome of a program on a store. -/
def exec (m : Prog K V ε α) (s : K → V) : Except ε α × (K → V) := StateT.run (ExceptT.run m) s

@[simp] theorem exec_pure (a : α) (s : K → V) : exec (pure a : Prog K V ε α) s = (.ok a, s) := rfl

@[simp] theorem exec_throw (e : ε) (s : K → V) :
    exec (throw e : Prog K V ε α) s = (.error e, s) := rfl

/-- A sequence stops at the first error and keeps what was written. -/
theorem exec_bind (m : Prog K V ε α) (f : α → Prog K V ε β) (s : K → V) :
    exec (m >>= f) s = match exec m s with
      | (.ok a, s') => exec (f a) s'
      | (.error e, s') => (.error e, s') := by
  show StateT.run (ExceptT.run (m >>= f)) s = _
  rw [ExceptT.run_bind]
  show (match (StateT.run (ExceptT.run m) s) with
    | (r, s') => StateT.run (match r with
      | .ok a => ExceptT.run (f a)
      | .error e => pure (.error e)) s') = _
  unfold exec
  rcases StateT.run (ExceptT.run m) s with ⟨r, s'⟩
  cases r <;> rfl

/-- The value under one key. -/
def look (k : K) : Prog K V ε V := do
  let s ← (get : StateM (K → V) (K → V))
  return s k

/-- Writes the value under one key. -/
def put [DecidableEq K] (k : K) (v : V) : Prog K V ε Unit :=
  (modify (fun s => Function.update s k v) : StateM (K → V) Unit)

/-- Runs a program and returns its outcome, error or not. -/
def attempt (m : Prog K V ε α) : Prog K V ε (Except ε α) := (ExceptT.run m : StateM (K → V) (Except ε α))

@[simp] theorem exec_look (k : K) (s : K → V) : exec (look k : Prog K V ε V) s = (.ok (s k), s) := rfl

@[simp] theorem exec_put [DecidableEq K] (k : K) (v : V) (s : K → V) :
    exec (put k v : Prog K V ε Unit) s = (.ok (), Function.update s k v) := rfl

@[simp] theorem exec_attempt (m : Prog K V ε α) (s : K → V) :
    exec (attempt m) s = (.ok (exec m s).1, (exec m s).2) := rfl

/-- Where the rest of a program writes nothing, it leaves what its first part leaves. -/
theorem exec_bind_snd {m : Prog K V ε α} {f : α → Prog K V ε β} (hf : ∀ a s, (exec (f a) s).2 = s)
    (s : K → V) : (exec (m >>= f) s).2 = (exec m s).2 := by
  rw [exec_bind]
  split
  · rename_i a s' h
    rw [hf, h]
  · rename_i e s' h
    rw [h]

/-! ## 1. Local programs -/

/-- Two stores hold the same under the keys of `A`. -/
def AgreeOn (A : Set K) (s t : K → V) : Prop := ∀ k ∈ A, s k = t k

/-- The program reads and writes the keys of `A` only. -/
structure Local (A : Set K) (m : Prog K V ε α) : Prop where
  frame : ∀ s, ∀ k ∉ A, (exec m s).2 k = s k
  result : ∀ s t, AgreeOn A s t → (exec m s).1 = (exec m t).1
  writes : ∀ s t, AgreeOn A s t → AgreeOn A (exec m s).2 (exec m t).2

variable {A B : Set K}

theorem local_pure (a : α) : Local A (pure a : Prog K V ε α) :=
  ⟨fun _ _ _ => rfl, fun _ _ _ => rfl, fun _ _ h => h⟩

theorem local_throw (e : ε) : Local A (throw e : Prog K V ε α) :=
  ⟨fun _ _ _ => rfl, fun _ _ _ => rfl, fun _ _ h => h⟩

theorem local_look {k : K} (hk : k ∈ A) : Local A (look k : Prog K V ε V) where
  frame _ _ _ := rfl
  result s t h := by
    rw [exec_look, exec_look, h k hk]
  writes _ _ h := h

theorem local_put [DecidableEq K] {k : K} (hk : k ∈ A) (v : V) : Local A (put k v : Prog K V ε Unit) where
  frame s j hj := by
    have hne : j ≠ k := fun e => hj (e ▸ hk)
    rw [exec_put]
    exact Function.update_of_ne hne v s
  result _ _ _ := rfl
  writes s t h j hj := by
    rw [exec_put, exec_put]
    by_cases e : j = k
    · subst e; simp
    · simp only [Function.update_of_ne e]
      exact h j hj

theorem local_bind {m : Prog K V ε α} {f : α → Prog K V ε β} (hm : Local A m)
    (hf : ∀ a, Local A (f a)) : Local A (m >>= f) where
  frame s k hk := by
    have h1 := hm.frame s k hk
    rw [exec_bind]
    rcases h : exec m s with ⟨r, s'⟩
    rw [h] at h1
    cases r with
    | ok a => exact ((hf a).frame s' k hk).trans h1
    | error e => exact h1
  result s t h := by
    have h1 := hm.result s t h
    have h2 := hm.writes s t h
    rw [exec_bind, exec_bind]
    rcases hs : exec m s with ⟨r, s'⟩
    rcases ht : exec m t with ⟨r', t'⟩
    rw [hs, ht] at h1 h2
    simp only at h1 h2
    subst h1
    cases r with
    | ok a => exact (hf a).result s' t' h2
    | error e => rfl
  writes s t h := by
    have h1 := hm.result s t h
    have h2 := hm.writes s t h
    rw [exec_bind, exec_bind]
    rcases hs : exec m s with ⟨r, s'⟩
    rcases ht : exec m t with ⟨r', t'⟩
    rw [hs, ht] at h1 h2
    simp only at h1 h2
    subst h1
    cases r with
    | ok a => exact (hf a).writes s' t' h2
    | error e => exact h2

theorem local_attempt {m : Prog K V ε α} (hm : Local A m) : Local A (attempt m) where
  frame s k hk := hm.frame s k hk
  result s t h := by
    rw [exec_attempt, exec_attempt, hm.result s t h]
  writes s t h := hm.writes s t h

/-- A footprint may be taken larger. -/
theorem Local.mono {m : Prog K V ε α} (hm : Local B m) (hBA : B ⊆ A) : Local A m where
  frame s k hk := hm.frame s k fun hB => hk (hBA hB)
  result s t h := hm.result s t fun k hk => h k (hBA hk)
  writes s t h k hk := by
    by_cases hB : k ∈ B
    · exact hm.writes s t (fun k hk => h k (hBA hk)) k hB
    · rw [hm.frame s k hB, hm.frame t k hB]
      exact h k hk

/-! ## 2. Pre- and postconditions -/

/-- From every store that satisfies `P` the program has the result `r` and leaves `Q`. -/
def Yields (P : (K → V) → Prop) (m : Prog K V ε α) (r : Except ε α) (Q : (K → V) → Prop) : Prop :=
  ∀ s, P s → (exec m s).1 = r ∧ Q (exec m s).2

section Triples

variable {P Q R : (K → V) → Prop} {m : Prog K V ε α} {f : α → Prog K V ε β} {a : α} {e : ε}

theorem yields_pure (a : α) : Yields P (pure a : Prog K V ε α) (.ok a) P := fun _ h => ⟨rfl, h⟩

theorem yields_throw (e : ε) : Yields P (throw e : Prog K V ε α) (.error e) P := fun _ h => ⟨rfl, h⟩

theorem yields_bind {r : Except ε β} (hm : Yields P m (.ok a) Q) (hf : Yields Q (f a) r R) :
    Yields P (m >>= f) r R := by
  intro s hs
  obtain ⟨hr, hq⟩ := hm s hs
  rw [exec_bind]
  rcases h : exec m s with ⟨x, s'⟩
  rw [h] at hr hq
  simp only at hr
  subst hr
  exact hf s' hq

theorem yields_bind_error (hm : Yields P m (.error e) Q) : Yields P (m >>= f) (.error e) Q := by
  intro s hs
  obtain ⟨hr, hq⟩ := hm s hs
  rw [exec_bind]
  rcases h : exec m s with ⟨x, s'⟩
  rw [h] at hr hq
  simp only at hr
  subst hr
  exact ⟨rfl, hq⟩

/-- A function of the result changes the result only. -/
theorem yields_map {r : Except ε α} (hm : Yields P m r Q) (g : α → β) :
    Yields P (m >>= fun a => pure (g a)) (r.map g) Q := by
  cases r with
  | ok a => exact yields_bind hm (yields_pure (g a))
  | error e => exact yields_bind_error hm

theorem yields_attempt {r : Except ε α} (hm : Yields P m r Q) : Yields P (attempt m) (.ok r) Q :=
  fun s hs => ⟨congrArg Except.ok (hm s hs).1, (hm s hs).2⟩

end Triples

/-! ## 3. Runs of tagged programs -/

variable {ι : Type}

/-- The results of a run, in order, and the store it leaves. -/
def runAll (prog : ι → Prog K V ε α) : List ι → (K → V) → List (Except ε α) × (K → V)
  | [], s => ([], s)
  | i :: is, s =>
      let r := exec (prog i) s
      let rest := runAll prog is r.2
      (r.1 :: rest.1, rest.2)

/-- The results of the programs a predicate keeps. -/
def resultsOf (keep : ι → Bool) : List ι → List (Except ε α) → List (Except ε α)
  | i :: is, r :: rs => if keep i then r :: resultsOf keep is rs else resultsOf keep is rs
  | _, _ => []

/-- A program whose footprint is apart from `A` runs alike on stores that agree outside `A`. -/
theorem Local.outside {m : Prog K V ε α} (hm : Local B m) (hd : Disjoint A B) {s t : K → V}
    (h : AgreeOn Aᶜ s t) :
    (exec m s).1 = (exec m t).1 ∧ AgreeOn Aᶜ (exec m s).2 (exec m t).2 := by
  have hB : AgreeOn B s t := fun k hk => h k (Set.disjoint_right.mp hd hk)
  refine ⟨hm.result s t hB, fun k hk => ?_⟩
  by_cases hkB : k ∈ B
  · exact hm.writes s t hB k hkB
  · rw [hm.frame s k hkB, hm.frame t k hkB]
    exact h k hk

/-- **NON-INTERFERENCE.** Let the programs that `keep` drops have their footprint inside `A` and
    the others theirs apart from `A`. Then deleting the dropped programs from a run changes no
    result of the others, and no key outside `A`. -/
theorem runAll_purge {prog : ι → Prog K V ε α} {keep : ι → Bool}
    (hdrop : ∀ i, keep i = false → Local A (prog i))
    (hkeep : ∀ i, keep i = true → ∃ B, Disjoint A B ∧ Local B (prog i))
    (is : List ι) {s t : K → V} (h : AgreeOn Aᶜ s t) :
    resultsOf keep is (runAll prog is s).1 = (runAll prog (is.filter keep) t).1 ∧
      AgreeOn Aᶜ (runAll prog is s).2 (runAll prog (is.filter keep) t).2 := by
  induction is generalizing s t with
  | nil => exact ⟨rfl, h⟩
  | cons i is ih =>
      cases hk : keep i with
      | false =>
          have hs : AgreeOn Aᶜ (exec (prog i) s).2 t := fun k hkA => by
            rw [(hdrop i hk).frame s k hkA]
            exact h k hkA
          have ih' := ih hs
          simp only [runAll, resultsOf, hk, List.filter_cons]
          exact ih'
      | true =>
          obtain ⟨B, hd, hB⟩ := hkeep i hk
          obtain ⟨hr, hs⟩ := hB.outside hd h
          have ih' := ih hs
          simp only [runAll, resultsOf, hk, List.filter_cons, if_true]
          exact ⟨by rw [hr, ih'.1], ih'.2⟩

/-! ## 4. Runs that follow a machine -/

section Machines

open Replay

variable {σ ρ : Type} {prog : ι → Prog K V ε ρ} {next : σ → ι → σ} {answer : σ → ι → ρ → Prop}

/-- A run of tagged programs is one of the programs the tags stand for. -/
theorem runAll_map {κ : Type} {prog' : κ → Prog K V ε ρ} {g : κ → ι} {ks : List κ}
    (hg : ∀ k ∈ ks, prog (g k) = prog' k) (s : K → V) :
    runAll prog (ks.map g) s = runAll prog' ks s := by
  induction ks generalizing s with
  | nil => rfl
  | cons k ks ih =>
      rw [List.map_cons, runAll, runAll, hg k List.mem_cons_self,
        ih fun j hj => hg j (List.mem_cons_of_mem _ hj)]

/-- Where some programs of a run do what the one their tag stands for does, and the others nothing, the
    run leaves what those alone leave. -/
theorem runAll_filterMap {κ : Type} {prog' : κ → Prog K V ε ρ} {g : κ → Option ι}
    (hrun : ∀ k i, g k = some i → ∀ s, (exec (prog' k) s).2 = (exec (prog i) s).2)
    (hskip : ∀ k, g k = none → ∀ s, (exec (prog' k) s).2 = s) (ks : List κ) (s : K → V) :
    (runAll prog' ks s).2 = (runAll prog (ks.filterMap g) s).2 := by
  induction ks generalizing s with
  | nil => rfl
  | cons k ks ih =>
      rw [runAll, List.filterMap_cons]
      cases hk : g k with
      | none => simp only [ih, hskip k hk]
      | some i => simp only [ih, hrun k i hk, runAll]

/-- What every program keeps of how a store stands for a state, a run of them keeps. -/
theorem runAll_stands {Stands : σ → (K → V) → Prop}
    (hstep : ∀ x s i, Stands x s → Stands (next x i) (exec (prog i) s).2)
    (is : List ι) {x : σ} {s : K → V} (h : Stands x s) :
    Stands (replay next x is) (runAll prog is s).2 := by
  induction is generalizing x s with
  | nil => exact h
  | cons i is ih => exact ih (hstep x s i h)

/-- **SIMULATION**: where each program, from a store that stands for a state, returns an answer of
    that state and leaves a store that stands for the next one, so does a run of them. -/
theorem runAll_answered {Stands : σ → (K → V) → Prop}
    (hstep : ∀ x s i, Stands x s → ∃ r, (exec (prog i) s).1 = .ok r ∧ answer x i r ∧
      Stands (next x i) (exec (prog i) s).2)
    (is : List ι) {x : σ} {s : K → V} (h : Stands x s) :
    ∃ rs, (runAll prog is s).1 = rs.map .ok ∧ Answered next answer x is rs ∧
      Stands (replay next x is) (runAll prog is s).2 := by
  induction is generalizing x s with
  | nil => exact ⟨[], rfl, trivial, h⟩
  | cons i is ih =>
      obtain ⟨r, hr, hans, hnext⟩ := hstep x s i h
      obtain ⟨rs, hrs, hanss, hlast⟩ := ih hnext
      refine ⟨r :: rs, ?_, ⟨hans, hanss⟩, hlast⟩
      rw [runAll, List.map_cons, ← hr, ← hrs]

theorem resultsOf_map_ok (keep : ι → Bool) (is : List ι) (rs : List ρ) :
    resultsOf keep is (rs.map (.ok : ρ → Except ε ρ)) = (answersTo keep is rs).map .ok := by
  induction is generalizing rs with
  | nil => cases rs <;> rfl
  | cons i is ih =>
      cases rs with
      | nil => rfl
      | cons r rs =>
          rw [List.map_cons, resultsOf, answersTo, ih]
          split <;> rfl

end Machines

end Footprint
