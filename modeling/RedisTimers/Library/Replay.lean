/-
  File:      RedisTimers/Library/Replay.lean
  Subject:   DETERMINISTIC MACHINES REPLAYED OVER A HISTORY, AND STEP RELATIONS THAT KEEP ONE.
             General facts; nothing here names a program.

  * `replay` -- the state a machine `app` is in after a history of events;
  * `Along` -- every event of a history met its condition `ok` in the state it was applied to;
  * `replay_invariant` -- what one event preserves, a history preserves;
  * `Along.uses_up` -- what one event uses up of a measure bounds the length of a history;
  * `replay_sim` -- a function that commutes with one event commutes with a history: the
    simulation of one deterministic machine by another;
  * `reaches_invariant` -- the same for a step relation and its reachable states;
  * `Logged`, `logged_replay` -- a machine that records what it applies to another one: after any
    run the driven machine is the replay of the record;
  * `Answered` -- requests and their answers; `answered_iff` -- where a state leaves one answer
    only, a run has one list of answers; `answers_of_view` -- what a part of the state answers
    depends on the requests to that part;
  * `Along.follows` -- a party among others gets through its plan.
-/
import Mathlib.Logic.Relation
import Mathlib.Data.List.Basic

namespace Replay

variable {σ τ ε : Type}

/-! ## 1. Replaying a history -/

/-- The state after the events `es`, oldest first, from `s`. -/
def replay (app : σ → ε → σ) (s : σ) (es : List ε) : σ := es.foldl app s

section Basics

variable (app : σ → ε → σ)

@[simp] theorem replay_nil (s : σ) : replay app s [] = s := rfl

@[simp] theorem replay_cons (s : σ) (e : ε) (es : List ε) :
    replay app s (e :: es) = replay app (app s e) es := rfl

theorem replay_append (s : σ) (xs ys : List ε) :
    replay app s (xs ++ ys) = replay app (replay app s xs) ys :=
  List.foldl_append

theorem replay_concat (s : σ) (xs : List ε) (e : ε) :
    replay app s (xs ++ [e]) = app (replay app s xs) e := by
  rw [replay_append]
  rfl

end Basics

variable {app : σ → ε → σ}

/-- **What one event preserves, a history preserves.** -/
theorem replay_invariant {I : σ → Prop} {es : List ε} (hstep : ∀ s, ∀ e ∈ es, I s → I (app s e))
    {s : σ} (h0 : I s) : I (replay app s es) := by
  induction es generalizing s with
  | nil => exact h0
  | cons e es ih =>
      exact ih (fun s e' he' => hstep s e' (List.mem_cons_of_mem _ he'))
        (hstep s e List.mem_cons_self h0)

/-- **Simulation**: where `f` carries one event of `app` to one of `app'` on the states `I`
    allows, it carries a whole history. -/
theorem replay_sim {app' : τ → ε → τ} {f : σ → τ} {I : σ → Prop} {es : List ε}
    (hI : ∀ s, ∀ e ∈ es, I s → I (app s e)) (hf : ∀ s, ∀ e ∈ es, I s → f (app s e) = app' (f s) e)
    {s : σ} (h0 : I s) : f (replay app s es) = replay app' (f s) es := by
  induction es generalizing s with
  | nil => rfl
  | cons e es ih =>
      rw [replay_cons, replay_cons, ← hf s e List.mem_cons_self h0]
      exact ih (fun s e' he' => hI s e' (List.mem_cons_of_mem _ he'))
        (fun s e' he' => hf s e' (List.mem_cons_of_mem _ he')) (hI s e List.mem_cons_self h0)

/-! ## 2. Conditions met along a history -/

/-- Every event of the history met `ok` in the state it was applied to. -/
def Along (app : σ → ε → σ) (ok : σ → ε → Prop) : σ → List ε → Prop
  | _, [] => True
  | s, e :: es => ok s e ∧ Along app ok (app s e) es

variable {ok : σ → ε → Prop}

instance decidableAlong [∀ s e, Decidable (ok s e)] : ∀ (s : σ) (es : List ε), Decidable (Along app ok s es)
  | _, [] => .isTrue trivial
  | s, e :: es => @instDecidableAnd _ _ _ (decidableAlong (app s e) es)

theorem along_append {s : σ} {xs ys : List ε} :
    Along app ok s (xs ++ ys) ↔ Along app ok s xs ∧ Along app ok (replay app s xs) ys := by
  induction xs generalizing s with
  | nil => simp [Along]
  | cons e xs ih => simp only [List.cons_append, Along, ih, replay_cons, and_assoc]

theorem along_concat {s : σ} {xs : List ε} {e : ε} :
    Along app ok s (xs ++ [e]) ↔ Along app ok s xs ∧ ok (replay app s xs) e := by
  simp [along_append, Along]

/-- Conditions met wherever the history is cut are met along it. -/
theorem along_of_split {s : σ} {es : List ε}
    (h : ∀ xs e ys, es = xs ++ e :: ys → ok (replay app s xs) e) : Along app ok s es := by
  induction es generalizing s with
  | nil => trivial
  | cons e es ih =>
      refine ⟨h [] e es rfl, ih fun xs e' ys hes => ?_⟩
      have hcut := h (e :: xs) e' ys (by rw [hes]; rfl)
      exact hcut

/-- The event at a position met its condition in the state the events before it left. -/
theorem Along.at {s : σ} {xs ys : List ε} {e : ε} (h : Along app ok s (xs ++ e :: ys)) :
    ok (replay app s xs) e :=
  (along_append.mp h).2.1

/-- The rest of a history met its conditions from the state its first part left. -/
theorem Along.rest {s : σ} {xs ys : List ε} (h : Along app ok s (xs ++ ys)) :
    Along app ok (replay app s xs) ys :=
  (along_append.mp h).2

/-- Two conditions met along a history are met together. -/
theorem Along.and {ok' : σ → ε → Prop} {s : σ} {es : List ε} (h : Along app ok s es)
    (h' : Along app ok' s es) : Along app (fun s e => ok s e ∧ ok' s e) s es := by
  induction es generalizing s with
  | nil => trivial
  | cons e es ih => exact ⟨⟨h.1, h'.1⟩, ih h.2 h'.2⟩

/-- A condition may be replaced, cut by cut, by one that follows from it there. -/
theorem Along.imp_split {ok' : σ → ε → Prop} {s : σ} {es : List ε} (h : Along app ok s es)
    (himp : ∀ xs e ys, es = xs ++ e :: ys → ok (replay app s xs) e → ok' (replay app s xs) e) :
    Along app ok' s es :=
  along_of_split fun xs e ys hes => himp xs e ys hes ((hes ▸ h : Along app ok s (xs ++ e :: ys)).at)

/-- **What every event uses up of a measure, a history uses up as often as it is long.** -/
theorem Along.uses_up (measure : σ → ℕ) {n : ℕ} {s : σ} {es : List ε} (h : Along app ok s es)
    (hstep : ∀ s e, ok s e → measure (app s e) + n ≤ measure s) :
    measure (replay app s es) + n * es.length ≤ measure s := by
  induction es generalizing s with
  | nil => exact Nat.le_refl _
  | cons e es ih =>
      have hrest := ih h.2
      have hfirst := hstep s e h.1
      rw [replay_cons, List.length_cons, Nat.mul_succ]
      omega

/-- A condition may be read through a simulation. -/
theorem Along.sim {app' : τ → ε → τ} {f : σ → τ} {I : σ → Prop} {ok' : τ → ε → Prop} {es : List ε}
    (hI : ∀ s, ∀ e ∈ es, I s → I (app s e)) (hf : ∀ s, ∀ e ∈ es, I s → f (app s e) = app' (f s) e)
    (hok : ∀ s, ∀ e ∈ es, I s → ok s e → ok' (f s) e) {s : σ} (h0 : I s) (h : Along app ok s es) :
    Along app' ok' (f s) es := by
  induction es generalizing s with
  | nil => trivial
  | cons e es ih =>
      refine ⟨hok s e List.mem_cons_self h0 h.1, ?_⟩
      rw [← hf s e List.mem_cons_self h0]
      exact ih (fun s e' he' => hI s e' (List.mem_cons_of_mem _ he'))
        (fun s e' he' => hf s e' (List.mem_cons_of_mem _ he'))
        (fun s e' he' => hok s e' (List.mem_cons_of_mem _ he')) (hI s e List.mem_cons_self h0) h.2

/-! ## 3. Step relations -/

/-- The states a step relation reaches from `s₀`. -/
def Reaches (Step : σ → σ → Prop) (s₀ s : σ) : Prop := Relation.ReflTransGen Step s₀ s

variable {Step : σ → σ → Prop} {s₀ : σ}

/-- **What every step preserves holds of every reachable state.** -/
theorem reaches_invariant {I : σ → Prop} (h0 : I s₀) (hstep : ∀ s s', I s → Step s s' → I s')
    {s : σ} (h : Reaches Step s₀ s) : I s := by
  induction h with
  | refl => exact h0
  | tail _ hs ih => exact hstep _ _ ih hs

/-! ## 4. Machines that record what they apply -/

/-- A machine that drives another one, `app`, and records what it applies to it: each step leaves
    the driven machine and the record alone, or applies one event that meets `ok` and records it. -/
def Logged {α : Type} (app : τ → ε → τ) (ok : τ → ε → Prop) (drive : σ → τ) (log : σ → List ε)
    (step : σ → α → σ) : Prop :=
  ∀ s a, (drive (step s a) = drive s ∧ log (step s a) = log s) ∨
    ∃ e, ok (drive s) e ∧ drive (step s a) = app (drive s) e ∧ log (step s a) = log s ++ [e]

/-- **The driven machine is the replay of the record**, and every recorded event met its
    condition. -/
theorem logged_replay {α : Type} {app : τ → ε → τ} {ok : τ → ε → Prop} {drive : σ → τ}
    {log : σ → List ε} {step : σ → α → σ} (hL : Logged app ok drive log step) (hlog : log s₀ = [])
    (as : List α) : drive (replay step s₀ as) = replay app (drive s₀) (log (replay step s₀ as)) ∧
      Along app ok (drive s₀) (log (replay step s₀ as)) := by
  have hstep : ∀ s, ∀ a ∈ as,
      (drive s = replay app (drive s₀) (log s) ∧ Along app ok (drive s₀) (log s)) →
      (drive (step s a) = replay app (drive s₀) (log (step s a)) ∧
        Along app ok (drive s₀) (log (step s a))) := by
    intro s a _ ih
    rcases hL s a with ⟨hd, hl⟩ | ⟨e, he, hd, hl⟩
    · rw [hd, hl]
      exact ih
    · rw [hd, hl, replay_concat, along_concat, ← ih.1]
      exact ⟨rfl, ih.2, he⟩
  refine replay_invariant hstep ?_
  rw [hlog]
  exact ⟨rfl, trivial⟩

/-! ## 5. Requests and answers -/

section Requests

variable {ι ρ : Type} {next : σ → ι → σ} {answer : σ → ι → ρ → Prop}

/-- One answer for each request, as `answer` has it in the state the requests before it left. -/
def Answered (next : σ → ι → σ) (answer : σ → ι → ρ → Prop) : σ → List ι → List ρ → Prop
  | _, [], [] => True
  | s, i :: is, r :: rs => answer s i r ∧ Answered next answer (next s i) is rs
  | _, _, _ => False

/-- **Where every state leaves one answer only, a run has one list of answers.** -/
theorem answered_iff (hone : ∀ s i r r', answer s i r → answer s i r' → r = r') {s : σ} {is : List ι}
    {rs rs' : List ρ} (h : Answered next answer s is rs) : Answered next answer s is rs' ↔ rs' = rs := by
  refine ⟨fun h' => ?_, fun he => he ▸ h⟩
  induction is generalizing s rs rs' with
  | nil =>
      cases rs with
      | nil =>
          cases rs' with
          | nil => rfl
          | cons r' rs' => exact h'.elim
      | cons r rs => exact h.elim
  | cons i is ih =>
      cases rs with
      | nil => exact h.elim
      | cons r rs =>
          cases rs' with
          | nil => exact h'.elim
          | cons r' rs' =>
              rw [hone s i r r' h.1 h'.1, ih h.2 h'.2]

/-- The answers to the requests a predicate keeps. -/
def answersTo (keep : ι → Bool) : List ι → List ρ → List ρ
  | i :: is, r :: rs => if keep i then r :: answersTo keep is rs else answersTo keep is rs
  | _, _ => []

variable {view : σ → τ} {concerns keep : ι → Bool} {next' : τ → ι → τ} {reply : τ → ι → ρ}

/-- The answers of a machine whose answer to a request is a function of its state. -/
def repliesOf (keep : ι → Bool) (next' : τ → ι → τ) (reply : τ → ι → ρ) : τ → List ι → List ρ
  | _, [] => []
  | t, i :: is =>
    if keep i then reply t i :: repliesOf keep next' reply (next' t i) is
    else repliesOf keep next' reply (next' t i) is

/-- **A part of the state answers as the requests that concern it make it**, whatever stands
    between them. -/
theorem answers_of_view (hview : ∀ s i, view (next s i) = if concerns i then next' (view s) i else view s)
    (hkeep : ∀ i, keep i = true → concerns i = true)
    (hreply : ∀ s i r, keep i = true → answer s i r → r = reply (view s) i)
    {s : σ} {is : List ι} {rs : List ρ} (h : Answered next answer s is rs) :
    answersTo keep is rs = repliesOf keep next' reply (view s) (is.filter concerns) ∧
      view (replay next s is) = replay next' (view s) (is.filter concerns) := by
  induction is generalizing s rs with
  | nil =>
      cases rs with
      | nil => exact ⟨rfl, rfl⟩
      | cons r rs => exact h.elim
  | cons i is ih =>
      cases rs with
      | nil => exact h.elim
      | cons r rs =>
          obtain ⟨hans, hstate⟩ := ih h.2
          rw [hview] at hans hstate
          cases hc : concerns i with
          | false =>
              have hk : keep i = false := by
                cases hk : keep i with
                | false => rfl
                | true => rw [hkeep i hk] at hc; cases hc
              rw [hc] at hans hstate
              rw [List.filter_cons_of_neg (by rw [hc]; exact Bool.false_ne_true), answersTo, hk]
              exact ⟨hans, hstate⟩
          | true =>
              rw [hc] at hans hstate
              rw [List.filter_cons_of_pos hc]
              refine ⟨?_, hstate⟩
              unfold answersTo repliesOf
              cases hk : keep i with
              | false => exact hans
              | true =>
                  rw [← hreply s i r hk h.1]
                  exact congrArg (r :: ·) hans

end Requests

/-! ## 6. One party among others -/

/-- **A party gets through its plan among others**: where each event of the plan takes it to its next
    stage, and an event that is not its own leaves it at the stage it is at, a history whose own
    events are the plan takes it to the last stage. -/
theorem Along.follows {mine : ε → Bool} {plan : List ε} {P : ℕ → σ → Prop} {s : σ} {es : List ε}
    (h : Along app ok s es) (hplan : es.filter mine = plan)
    (hown : ∀ s n e, plan[n]? = some e → ok s e → P n s → P (n + 1) (app s e))
    (hother : ∀ s n e, mine e = false → ok s e → P n s → P n (app s e)) (h0 : P 0 s) :
    P plan.length (replay app s es) := by
  -- from any stage on: the own events still to come are the rest of the plan
  have hrest : ∀ (es : List ε) (s : σ) (n : ℕ), Along app ok s es → n ≤ plan.length →
      es.filter mine = plan.drop n → P n s → P plan.length (replay app s es) := by
    intro es
    induction es with
    | nil =>
        intro s n _ hn hdone hat
        have hlen : n = plan.length := Nat.le_antisymm hn (List.drop_eq_nil_iff.mp hdone.symm)
        exact hlen ▸ hat
    | cons e es ih =>
        intro s n hal hn hdone hat
        cases hm : mine e with
        | false =>
            rw [List.filter_cons_of_neg (by rw [hm]; exact Bool.false_ne_true)] at hdone
            exact ih _ n hal.2 hn hdone (hother s n e hm hal.1 hat)
        | true =>
            rw [List.filter_cons_of_pos hm] at hdone
            have hlt : n < plan.length := by
              by_contra hge
              rw [List.drop_eq_nil_of_le (Nat.not_lt.mp hge)] at hdone
              cases hdone
            rw [List.drop_eq_getElem_cons hlt] at hdone
            obtain ⟨he, htail⟩ := List.cons.inj hdone
            have hnth : plan[n]? = some e := he ▸ List.getElem?_eq_getElem hlt
            exact ih _ (n + 1) hal.2 hlt htail (hown s n e hnth hal.1 hat)
  exact hrest es s 0 h (Nat.zero_le _) (by rw [hplan, List.drop_zero]) h0

end Replay
