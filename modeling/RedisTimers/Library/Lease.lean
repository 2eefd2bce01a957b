/-
  File:      RedisTimers/Library/Lease.lean
  Subject:   THE LEASED CELL: one entry whose only lock is the time from which it may be claimed.
             A general theory of the visibility-timeout pattern; nothing here names a program.

  A cell is empty or holds a payload and a time. `put` fills it, `drop` empties it, a claim at
  `now` is granted exactly if the time is at or below `now`, and a granted claim replaces the time
  by the end of the lease it grants. Any log whose events read as such acts (`view`), with the
  answers the claims got (`ans`), has:

  * `after_put` -- RETENTION: after a put with no later put or drop the payload is still there, and
    its time is the end of the last granted lease (`leasedTill`);
  * `grants_apart` -- EXCLUSIVITY: two grants with no put between them are at least a lease apart;
  * `source_of_some` -- FRESHNESS: what the cell holds is the last put, at or after its time;
  * `holder` -- which put of the log the cell still holds; `replaced_or_dropped` -- LOSS: a put
    that is held no longer was replaced or dropped after it;
  * `no_grant_of_timely_drop` -- a drop before the lease ends makes a grant the last one.
-/
import Mathlib.Data.List.Induction
import Mathlib.Order.Lattice
import RedisTimers.Library.Replay

namespace Lease

open Replay

/-- What an event does to a leased cell. -/
inductive Act (π T : Type) where
  | put (p : π) (t : T)
  | claim (now till : T)
  | drop
  deriving DecidableEq

/-- An entry and the time from which it may be claimed, or nothing. -/
abbrev Cell (π T : Type) := Option (π × T)

section Cell

variable {π T : Type} [LinearOrder T]

/-- The payload a claim at `now` is answered with. -/
def grant : Cell π T → T → Option π
  | some (p, t), now => if t ≤ now then some p else none
  | none, _ => none

/-- What an act leaves in the cell. -/
def Act.apply : Act π T → Cell π T → Cell π T
  | .put p t, _ => some (p, t)
  | .claim now till, some (p, t) => if t ≤ now then some (p, till) else some (p, t)
  | .claim _ _, none => none
  | .drop, _ => none

@[simp] theorem apply_put (p : π) (t : T) (c : Cell π T) : (Act.put p t).apply c = some (p, t) := rfl

@[simp] theorem apply_drop (c : Cell π T) : (Act.drop : Act π T).apply c = none := rfl

@[simp] theorem apply_claim_none (now till : T) :
    (Act.claim now till : Act π T).apply none = none := rfl

theorem apply_claim_some (now till : T) (p : π) (t : T) :
    (Act.claim now till).apply (some (p, t)) = if t ≤ now then some (p, till) else some (p, t) := rfl

@[simp] theorem grant_none (now : T) : grant (none : Cell π T) now = none := rfl

theorem grant_some (p : π) (t now : T) : grant (some (p, t)) now = if t ≤ now then some p else none :=
  rfl

/-- A granted claim found an entry whose time had come. -/
theorem grant_eq_some {c : Cell π T} {now : T} {p : π} :
    grant c now = some p ↔ ∃ t, c = some (p, t) ∧ t ≤ now := by
  cases c with
  | none => simp
  | some e =>
      obtain ⟨q, t⟩ := e
      rw [grant_some]
      by_cases h : t ≤ now
      · simp only [if_pos h, Option.some.injEq, Prod.mk.injEq]
        exact ⟨fun e => ⟨t, ⟨e, rfl⟩, h⟩, fun ⟨_, e, _⟩ => e.1⟩
      · simp only [if_neg h, reduceCtorEq, Option.some.injEq, Prod.mk.injEq, false_iff]
        rintro ⟨_, ⟨_, rfl⟩, ht⟩
        exact h ht

end Cell

/-! ## 1. A log of events read as acts on one cell -/

section Log

variable {π T ε : Type} [LinearOrder T]
variable (view : ε → Option (Act π T)) (ans : ε → Option π)

/-- One event of the log: it acts on the cell as `view` reads it, or not at all. -/
def stepCell (c : Cell π T) (e : ε) : Cell π T :=
  match view e with
  | some a => a.apply c
  | none => c

/-- The cell after a log. -/
def after (c : Cell π T) (es : List ε) : Cell π T := replay (stepCell view) c es

/-- A claim was answered as the cell it met grants it. -/
def AnswerOk (c : Cell π T) (e : ε) : Prop :=
  ∀ now till, view e = some (.claim now till) → ans e = grant c now

/-- No event of the list puts an entry. -/
def NoPut (es : List ε) : Prop := ∀ e ∈ es, ∀ p t, view e ≠ some (.put p t)

/-- No event of the list drops the entry. -/
def NoDrop (es : List ε) : Prop := ∀ e ∈ es, view e ≠ some .drop

/-- No lease of the list ends before the claim that asks for it. -/
def Forward (es : List ε) : Prop := ∀ e ∈ es, ∀ now till, view e = some (.claim now till) → now ≤ till

/-- No lease granted along the list, from the cell `c`, ends before the claim that asked for it. -/
def GrantsForward (c : Cell π T) (es : List ε) : Prop :=
  Along (stepCell view)
    (fun c e => ∀ now till, view e = some (.claim now till) → (grant c now).isSome → now ≤ till) c es

/-- No claim of the list was granted. -/
def NoGrant (es : List ε) : Prop :=
  ∀ e ∈ es, ∀ now till, view e = some (.claim now till) → ans e = none

/-- The end of the last lease granted in the list, `t` if none was. -/
def leasedTill (t : T) (es : List ε) : T :=
  es.foldl (fun s e => match view e with
    | some (.claim _ till) => if (ans e).isSome then till else s
    | _ => s) t

end Log

section Facts

variable {π T ε : Type} [LinearOrder T] {view : ε → Option (Act π T)} {ans : ε → Option π}
variable {c : Cell π T} {es xs ys : List ε} {e : ε} {p q : π} {s t : T}

omit [LinearOrder T] in
theorem NoPut.cons (h : NoPut view (e :: es)) : NoPut view es := fun x hx => h x (List.mem_cons_of_mem _ hx)

omit [LinearOrder T] in
theorem NoDrop.cons (h : NoDrop view (e :: es)) : NoDrop view es :=
  fun x hx => h x (List.mem_cons_of_mem _ hx)

omit [LinearOrder T] in
theorem NoPut.of_cons (h : NoPut view es) (he : ∀ p t, view e ≠ some (.put p t)) :
    NoPut view (e :: es) := fun x hx => by
  rcases List.mem_cons.mp hx with rfl | hx
  · exact he
  · exact h x hx

omit [LinearOrder T] in
theorem NoDrop.of_cons (h : NoDrop view es) (he : view e ≠ some .drop) :
    NoDrop view (e :: es) := fun x hx => by
  rcases List.mem_cons.mp hx with rfl | hx
  · exact he
  · exact h x hx

theorem Forward.cons (h : Forward view (e :: es)) : Forward view es :=
  fun x hx => h x (List.mem_cons_of_mem _ hx)

theorem Forward.grants (h : Forward view es) : GrantsForward view c es :=
  along_of_split fun _ e _ hes now till hv _ => h e (by rw [hes]; simp) now till hv

@[simp] theorem after_nil : after view c [] = c := rfl

@[simp] theorem after_cons : after view c (e :: es) = after view (stepCell view c e) es := rfl

theorem after_append : after view c (xs ++ ys) = after view (after view c xs) ys :=
  replay_append _ _ _ _

theorem stepCell_of (a : Act π T) (h : view e = some a) : stepCell view c e = a.apply c := by
  simp [stepCell, h]

theorem stepCell_none (h : view e = none) : stepCell view c e = c := by
  simp [stepCell, h]

/-- An empty cell stays empty until something is put. -/
theorem after_none (h : NoPut view es) : after view none es = none := by
  induction es with
  | nil => rfl
  | cons e es ih =>
      rw [after_cons]
      have hs : stepCell view none e = none := by
        unfold stepCell
        split
        · rename_i a ha
          cases a with
          | put p t => exact absurd ha (h e List.mem_cons_self p t)
          | claim now till => rfl
          | drop => rfl
        · rfl
      rw [hs]
      exact ih h.cons

/-! ## 2. Retention and loss -/

/-- A claim leaves the payload, and moves the time exactly if it was granted. -/
theorem stepCell_kept (hp : ∀ q s, view e ≠ some (.put q s)) (hd : view e ≠ some .drop)
    (ha : AnswerOk view ans (some (p, t)) e) :
    stepCell view (some (p, t)) e = some (p, leasedTill view ans t [e]) := by
  unfold stepCell leasedTill
  cases hv : view e with
  | none => simp [hv]
  | some a =>
      cases a with
      | put q s => exact absurd hv (hp q s)
      | drop => exact absurd hv hd
      | claim now till =>
          have hans := ha now till hv
          rw [grant_some] at hans
          simp only [apply_claim_some, List.foldl_cons, List.foldl_nil, hv, hans]
          by_cases h : t ≤ now <;> simp [h]

/-- **RETENTION.** After a put at `t`, with no later put or drop, the cell holds the payload and
    the end of the last granted lease. -/
theorem after_put (hp : NoPut view es) (hd : NoDrop view es)
    (ha : Along (stepCell view) (AnswerOk view ans) (some (p, t)) es) :
    after view (some (p, t)) es = some (p, leasedTill view ans t es) := by
  induction es generalizing t with
  | nil => rfl
  | cons e es ih =>
      have hs := stepCell_kept (hp e List.mem_cons_self) (hd e List.mem_cons_self) ha.1
      rw [after_cons, hs, ih hp.cons hd.cons (hs ▸ ha.2)]
      rfl

omit [LinearOrder T] in
theorem leasedTill_append : leasedTill view ans t (xs ++ ys) =
    leasedTill view ans (leasedTill view ans t xs) ys :=
  List.foldl_append

omit [LinearOrder T] in
/-- Where nothing was granted the time is still the one put. -/
theorem leasedTill_of_noGrant (h : NoGrant view ans es) : leasedTill view ans t es = t := by
  induction es with
  | nil => rfl
  | cons e es ih =>
      have hs : leasedTill view ans t [e] = t := by
        unfold leasedTill
        cases hv : view e with
        | none => simp [hv]
        | some a =>
            cases a with
            | claim now till => simp [hv, h e List.mem_cons_self now till hv]
            | put q s => simp [hv]
            | drop => simp [hv]
      have hc : leasedTill view ans t ([e] ++ es) = leasedTill view ans (leasedTill view ans t [e]) es :=
        leasedTill_append
      rw [List.singleton_append, hs] at hc
      rw [hc]
      exact ih fun x hx => h x (List.mem_cons_of_mem _ hx)

omit [LinearOrder T] in
/-- The last granted lease sets the time. -/
theorem leasedTill_of_last {now till : T} (hv : view e = some (.claim now till))
    (hg : (ans e).isSome) (h : NoGrant view ans ys) : leasedTill view ans t (xs ++ e :: ys) = till := by
  have hs : ∀ u, leasedTill view ans u [e] = till := fun u => by
    unfold leasedTill
    simp [hv, hg]
  rw [leasedTill_append, ← List.singleton_append, leasedTill_append, hs, leasedTill_of_noGrant h]

/-- A full cell nothing drops stays full. -/
theorem after_isSome (h : NoDrop view es) (hc : c.isSome) : (after view c es).isSome := by
  induction es generalizing c with
  | nil => exact hc
  | cons e es ih =>
      rw [after_cons]
      refine ih h.cons ?_
      unfold stepCell
      split
      · rename_i a ha
        cases a with
        | put p t => rfl
        | drop => exact absurd ha (h e List.mem_cons_self)
        | claim now till =>
            obtain ⟨⟨p, t⟩, rfl⟩ := Option.isSome_iff_exists.mp hc
            rw [apply_claim_some]
            split <;> rfl
      · exact hc

/-- A full cell that is neither put nor dropped keeps its payload: claims move its time alone. -/
theorem after_keeps (hp : NoPut view es) (hd : NoDrop view es) :
    ∃ s, after view (some (p, t)) es = some (p, s) := by
  induction es generalizing t with
  | nil => exact ⟨t, rfl⟩
  | cons e es ih =>
      have hstep : ∃ s, stepCell view (some (p, t)) e = some (p, s) := by
        cases hv : view e with
        | none => exact ⟨t, stepCell_none hv⟩
        | some a =>
            rw [stepCell_of a hv]
            cases a with
            | put q s => exact absurd hv (hp e List.mem_cons_self q s)
            | drop => exact absurd hv (hd e List.mem_cons_self)
            | claim now till =>
                rw [apply_claim_some]
                split <;> exact ⟨_, rfl⟩
      obtain ⟨s, hs⟩ := hstep
      rw [after_cons, hs]
      exact ih hp.cons hd.cons

/-- A cell whose claims all found it leased, and that nothing puts or drops, is as it was. -/
theorem after_ungranted (hp : NoPut view es) (hd : NoDrop view es)
    (hg : Along (stepCell view)
      (fun c e => ∀ now till, view e = some (.claim now till) → grant c now = none) (some (p, t)) es) :
    after view (some (p, t)) es = some (p, t) := by
  induction es with
  | nil => rfl
  | cons e es ih =>
      have hstep : stepCell view (some (p, t)) e = some (p, t) := by
        cases hv : view e with
        | none => exact stepCell_none hv
        | some a =>
            rw [stepCell_of a hv]
            cases a with
            | put q s => exact absurd hv (hp e List.mem_cons_self q s)
            | drop => exact absurd hv (hd e List.mem_cons_self)
            | claim now till =>
                have hnone := hg.1 now till hv
                rw [grant_some, ite_eq_right_iff] at hnone
                rw [apply_claim_some, if_neg fun hle => nomatch hnone hle]
      have hrest := hg.2
      rw [hstep] at hrest
      rw [after_cons, hstep]
      exact ih hp.cons hd.cons hrest

/-! ## 3. Exclusivity -/

/-- Whatever the cell holds is claimable from `t` on at the earliest. -/
def AtLeast (t : T) (c : Cell π T) : Prop := ∀ p s, c = some (p, s) → t ≤ s

theorem atLeast_none : AtLeast t (none : Cell π T) := fun _ _ h => by cases h

theorem atLeast_some : AtLeast t (some (p, s)) ↔ t ≤ s :=
  ⟨fun h => h p s rfl, fun h _ _ e => by cases e; exact h⟩

/-- A claim never moves the time back: it is granted at or after the time, and leases forward. -/
theorem atLeast_step (hp : ∀ q s, view e ≠ some (.put q s))
    (hf : ∀ now till, view e = some (.claim now till) → (grant c now).isSome → now ≤ till)
    (h : AtLeast t c) : AtLeast t (stepCell view c e) := by
  unfold stepCell
  split
  · rename_i a ha
    cases a with
    | put q s => exact absurd ha (hp q s)
    | drop => exact atLeast_none
    | claim now till =>
        cases c with
        | none => exact atLeast_none
        | some x =>
            obtain ⟨q, s⟩ := x
            have hts := atLeast_some.mp h
            rw [apply_claim_some]
            split
            · rename_i hs
              have hg : (grant (some (q, s)) now).isSome := by rw [grant_some, if_pos hs]; rfl
              exact atLeast_some.mpr (le_trans hts (le_trans hs (hf now till ha hg)))
            · exact atLeast_some.mpr hts
  · exact h

theorem atLeast_after (hp : NoPut view es) (hf : GrantsForward view c es) (h : AtLeast t c) :
    AtLeast t (after view c es) := by
  induction es generalizing c with
  | nil => exact h
  | cons e es ih => exact ih hp.cons hf.2 (atLeast_step (hp e List.mem_cons_self) hf.1 h)

/-- The same where every claim comes before the time, or leases forward. -/
theorem atLeast_after_timely (hp : NoPut view es) (h : AtLeast t c)
    (hes : ∀ e ∈ es, ∀ now till, view e = some (.claim now till) → now < t ∨ now ≤ till) :
    AtLeast t (after view c es) := by
  induction es generalizing c with
  | nil => exact h
  | cons e es ih =>
      refine ih hp.cons (atLeast_step (hp e List.mem_cons_self) (fun now till hv hg => ?_) h)
        fun x hx => hes x (List.mem_cons_of_mem _ hx)
      -- a claim before the time is not granted
      obtain ⟨q, hq⟩ := Option.isSome_iff_exists.mp hg
      obtain ⟨u, hu, hle⟩ := grant_eq_some.mp hq
      exact (hes e List.mem_cons_self now till hv).resolve_left
        (not_lt.mpr (le_trans (h q u hu) hle))

/-- What a granted claim leaves: its payload, under its lease. -/
theorem stepCell_granted {now till : T} (hv : view e = some (.claim now till))
    (hg : grant c now = some p) : stepCell view c e = some (p, till) := by
  obtain ⟨t, rfl, ht⟩ := grant_eq_some.mp hg
  rw [stepCell_of _ hv, apply_claim_some, if_pos ht]

/-- **EXCLUSIVITY.** Two grants of one cell with no put between them are at least the first one's
    lease apart, whatever other claims and drops stand between. -/
theorem grants_apart {now₁ till₁ now₂ : T} (hv : view e = some (.claim now₁ till₁))
    (hg₁ : (grant c now₁).isSome) (hp : NoPut view es) (hf : Forward view es)
    (hg₂ : (grant (after view (stepCell view c e) es) now₂).isSome) : till₁ ≤ now₂ := by
  obtain ⟨p, hp₁⟩ := Option.isSome_iff_exists.mp hg₁
  obtain ⟨q, hq₂⟩ := Option.isSome_iff_exists.mp hg₂
  obtain ⟨s, hs, hle⟩ := grant_eq_some.mp hq₂
  have hat : AtLeast till₁ (after view (stepCell view c e) es) := by
    rw [stepCell_granted hv hp₁]
    exact atLeast_after hp hf.grants (atLeast_some.mpr le_rfl)
  exact le_trans (hat q s hs) hle

/-- Under a lease that no claim of the list outlives, nothing is granted and nothing moves: the
    cell is as the lease left it, or it was dropped. -/
theorem after_leased {till : T} (hp : NoPut view es)
    (hlt : ∀ e ∈ es, ∀ now u, view e = some (.claim now u) → now < till) :
    after view (some (p, till)) es = some (p, till) ∨ after view (some (p, till)) es = none := by
  induction es with
  | nil => exact Or.inl rfl
  | cons e es ih =>
      have ih' := ih hp.cons fun x hx => hlt x (List.mem_cons_of_mem _ hx)
      rw [after_cons]
      cases hv : view e with
      | none => rw [stepCell_none hv]; exact ih'
      | some a =>
          rw [stepCell_of a hv]
          cases a with
          | put q s => exact absurd hv (hp e List.mem_cons_self q s)
          | drop => exact Or.inr (after_none hp.cons)
          | claim now u =>
              have hn := hlt e List.mem_cons_self now u hv
              rw [apply_claim_some, if_neg (not_le.mpr hn)]
              exact ih'

/-- **A drop in time makes a grant the last.** If the cell leased till `till` is dropped before any
    claim's clock reaches `till`, and nothing is put, no later claim is granted. -/
theorem no_grant_of_timely_drop {till now₂ : T} {r : ε} {zs : List ε}
    (hp : NoPut view (xs ++ r :: ys)) (hr : view r = some .drop)
    (hlt : ∀ e ∈ xs, ∀ now u, view e = some (.claim now u) → now < till)
    (hsplit : xs ++ r :: ys = zs ++ e :: es) {u : T} (hv : view e = some (.claim now₂ u)) :
    grant (after view (some (p, till)) zs) now₂ = none := by
  have hpx : NoPut view xs := fun x hx => hp x (List.mem_append_left _ hx)
  rcases List.append_eq_append_iff.mp hsplit with ⟨as, hzs, hrest⟩ | ⟨bs, hxs, hrest⟩
  · -- the claim comes after the drop, or is the drop itself
    cases as with
    | nil =>
        simp only [List.nil_append, List.cons.injEq] at hrest
        rw [hrest.1, hv] at hr
        cases hr
    | cons r' as =>
        simp only [List.cons_append, List.cons.injEq] at hrest
        obtain ⟨rfl, hys⟩ := hrest
        rw [hzs, after_append, after_cons, stepCell_of _ hr, apply_drop, after_none]
        · rfl
        · intro x hx
          refine hp x (List.mem_append_right _ (List.mem_cons_of_mem _ ?_))
          rw [hys]
          exact List.mem_append_left _ hx
  · -- the claim comes under the lease
    have hz : ∀ x ∈ zs, x ∈ xs := fun x hx => by rw [hxs]; exact List.mem_append_left _ hx
    cases bs with
    | nil =>
        simp only [List.nil_append, List.cons.injEq] at hrest
        rw [← hrest.1, hv] at hr
        cases hr
    | cons e' bs =>
        simp only [List.cons_append, List.cons.injEq] at hrest
        obtain ⟨rfl, _⟩ := hrest
        have he : e ∈ xs := by rw [hxs]; simp
        have hn := hlt e he now₂ u hv
        have hc : after view (some (p, till)) zs = some (p, till) ∨ after view (some (p, till)) zs = none :=
          after_leased (fun x hx => hpx x (hz x hx)) fun x hx => hlt x (hz x hx)
        rcases hc with h | h
        · rw [h, grant_some, if_neg (not_le.mpr hn)]
        · rw [h, grant_none]

/-! ## 4. Which put the cell holds -/

/-- The position of the put the cell holds after a log that starts at position `n`, if it held
    `o` before. -/
def holderFrom (view : ε → Option (Act π T)) : Nat → Option Nat → List ε → Option Nat
  | _, o, [] => o
  | n, o, e :: es => holderFrom view (n + 1)
      (match view e with
        | some (.put _ _) => some n
        | some .drop => none
        | some (.claim _ _) => o
        | none => o) es

/-- The position in the log of the put the cell holds, for a cell that was empty at its start. -/
def holder (view : ε → Option (Act π T)) (es : List ε) : Option Nat := holderFrom view 0 none es

omit [LinearOrder T] in
theorem holderFrom_append {n : Nat} {o : Option Nat} :
    holderFrom view n o (xs ++ ys) = holderFrom view (n + xs.length) (holderFrom view n o xs) ys := by
  induction xs generalizing n o with
  | nil => rfl
  | cons e xs ih =>
      have hn : n + (xs.length + 1) = n + 1 + xs.length := by omega
      rw [List.cons_append, List.length_cons, hn]
      exact ih

omit [LinearOrder T] in
/-- Only a put or a drop changes which put is held. -/
theorem holderFrom_quiet {n : Nat} {o : Option Nat} (hp : NoPut view es) (hd : NoDrop view es) :
    holderFrom view n o es = o := by
  induction es generalizing n o with
  | nil => rfl
  | cons e es ih =>
      unfold holderFrom
      rw [ih hp.cons hd.cons]
      cases hv : view e with
      | none => rfl
      | some a =>
          cases a with
          | put q s => exact absurd hv (hp e List.mem_cons_self q s)
          | drop => exact absurd hv (hd e List.mem_cons_self)
          | claim now till => rfl

omit [LinearOrder T] in
/-- **A put the cell no longer holds was replaced or dropped after it.** -/
theorem replaced_or_dropped (hv : view e = some (.put p t))
    (h : holder view (xs ++ e :: ys) ≠ some xs.length) :
    (∃ x ∈ ys, ∃ q s, view x = some (.put q s)) ∨ ∃ x ∈ ys, view x = some .drop := by
  by_contra hno
  rw [not_or] at hno
  have hp : NoPut view ys := fun x hx q s hx' => hno.1 ⟨x, hx, q, s, hx'⟩
  have hd : NoDrop view ys := fun x hx hx' => hno.2 ⟨x, hx, hx'⟩
  refine h ?_
  unfold holder
  rw [holderFrom_append, Nat.zero_add]
  unfold holderFrom
  rw [holderFrom_quiet hp hd, hv]

omit [LinearOrder T] in
/-- The held put is in the log, with no put or drop after it. -/
theorem holderFrom_eq_some {n i : Nat} {o : Option Nat} (h : holderFrom view n o es = some i) :
    (o = some i ∧ NoPut view es ∧ NoDrop view es) ∨
      ∃ xs e ys p t, es = xs ++ e :: ys ∧ i = n + xs.length ∧ view e = some (.put p t) ∧
        NoPut view ys ∧ NoDrop view ys := by
  induction es generalizing n o with
  | nil => exact Or.inl ⟨h, by simp [NoPut], by simp [NoDrop]⟩
  | cons e es ih =>
      unfold holderFrom at h
      rcases ih h with ⟨ho, hp, hd⟩ | ⟨xs, x, ys, p, t, rfl, rfl, hx, hp, hd⟩
      · cases hv : view e with
        | none =>
            rw [hv] at ho
            exact Or.inl ⟨ho, hp.of_cons (by simp [hv]), hd.of_cons (by simp [hv])⟩
        | some a =>
            rw [hv] at ho
            cases a with
            | put q s =>
                simp only [Option.some.injEq] at ho
                exact Or.inr ⟨[], e, es, q, s, rfl, by simp [ho], hv, hp, hd⟩
            | drop => simp at ho
            | claim now till =>
                exact Or.inl ⟨ho, hp.of_cons (by simp [hv]), hd.of_cons (by simp [hv])⟩
      · exact Or.inr ⟨e :: xs, x, ys, p, t, rfl, by simp only [List.length_cons]; omega, hx, hp, hd⟩

omit [LinearOrder T] in
theorem holder_eq_some {i : Nat} (h : holder view es = some i) :
    ∃ xs e ys p t, es = xs ++ e :: ys ∧ i = xs.length ∧ view e = some (.put p t) ∧
      NoPut view ys ∧ NoDrop view ys := by
  rcases holderFrom_eq_some h with ⟨ho, _⟩ | ⟨xs, e, ys, p, t, hes, hi, hrest⟩
  · cases ho
  · exact ⟨xs, e, ys, p, t, hes, by omega, hrest⟩

/-! ## 5. Freshness -/

/-- The last put of the log put `p`, nothing dropped it since, and `s` is at or after its time. -/
def Sourced (view : ε → Option (Act π T)) (es : List ε) (p : π) (s : T) : Prop :=
  ∃ xs e ys t, es = xs ++ e :: ys ∧ view e = some (.put p t) ∧ NoPut view ys ∧ NoDrop view ys ∧
    (Forward view ys → t ≤ s)

/-- An event that neither puts nor drops keeps the source the log had. -/
theorem Sourced.concat {s' : T} (h : Sourced view es p s') {e : ε}
    (hnp : ∀ q t, view e ≠ some (.put q t)) (hnd : view e ≠ some .drop)
    (hle : (∀ now till, view e = some (.claim now till) → now ≤ till) → s' ≤ s) :
    Sourced view (es ++ [e]) p s := by
  obtain ⟨xs, x, ys, t, rfl, hx, hys, hds, hfw⟩ := h
  refine ⟨xs, x, ys ++ [e], t, by simp, hx, fun y hy q u => ?_, fun y hy => ?_, fun hf => ?_⟩
  · rcases List.mem_append.mp hy with hy | hy
    · exact hys y hy q u
    · rw [List.mem_singleton.mp hy]
      exact hnp q u
  · rcases List.mem_append.mp hy with hy | hy
    · exact hds y hy
    · rw [List.mem_singleton.mp hy]
      exact hnd
  · have hf' : Forward view ys := fun y hy => hf y (List.mem_append_left _ hy)
    exact le_trans (hfw hf') (hle (hf e (by simp)))

/-- **FRESHNESS.** What an initially empty cell holds was put by the last put of the log, nothing
    dropped it since, and its time is at or after the one it was put at. -/
theorem source_of_some (h : after view none es = some (p, s)) : Sourced view es p s := by
  induction es using List.reverseRecOn generalizing s with
  | nil => simp at h
  | append_singleton es e ih =>
      rw [after_append, after_cons, after_nil] at h
      cases hv : view e with
      | none =>
          rw [stepCell_none hv] at h
          exact (ih h).concat (by simp [hv]) (by simp [hv]) fun _ => le_rfl
      | some a =>
          rw [stepCell_of a hv] at h
          cases a with
          | put q t =>
              simp only [apply_put, Option.some.injEq, Prod.mk.injEq] at h
              obtain ⟨rfl, rfl⟩ := h
              exact ⟨es, e, [], t, rfl, hv, by simp [NoPut], by simp [NoDrop], fun _ => le_rfl⟩
          | drop => simp at h
          | claim now till =>
              cases hc : after view none es with
              | none => rw [hc] at h; simp at h
              | some x =>
                  obtain ⟨q, s'⟩ := x
                  rw [hc, apply_claim_some] at h
                  split at h
                  · -- granted: the time moved on, to the end of a lease that starts past it
                    rename_i hs'
                    simp only [Option.some.injEq, Prod.mk.injEq] at h
                    obtain ⟨rfl, rfl⟩ := h
                    exact (ih hc).concat (by simp [hv]) (by simp [hv])
                      fun hf => le_trans hs' (hf now till hv)
                  · simp only [Option.some.injEq, Prod.mk.injEq] at h
                    obtain ⟨rfl, rfl⟩ := h
                    exact (ih hc).concat (by simp [hv]) (by simp [hv]) fun _ => le_rfl

/-- The cell is full exactly if some put of the log is held. -/
theorem holder_isSome : (holder view es).isSome ↔ (after view none es).isSome := by
  constructor
  · intro h
    obtain ⟨i, hi⟩ := Option.isSome_iff_exists.mp h
    obtain ⟨xs, e, ys, p, t, rfl, _, hv, _, hd⟩ := holder_eq_some hi
    rw [after_append, after_cons, stepCell_of _ hv, apply_put]
    exact after_isSome hd rfl
  · intro h
    obtain ⟨⟨p, s⟩, hs⟩ := Option.isSome_iff_exists.mp h
    obtain ⟨xs, e, ys, t, rfl, hv, hp, hd, _⟩ := source_of_some hs
    unfold holder
    rw [holderFrom_append]
    unfold holderFrom
    rw [holderFrom_quiet hp hd, hv]
    rfl

/-- **The cell is full exactly if some put of the log has no drop after it.** -/
theorem isSome_iff_put : (after view none es).isSome ↔
    ∃ xs e ys p t, es = xs ++ e :: ys ∧ view e = some (.put p t) ∧ NoDrop view ys := by
  constructor
  · intro h
    obtain ⟨i, hi⟩ := Option.isSome_iff_exists.mp (holder_isSome.mpr h)
    obtain ⟨xs, e, ys, p, t, hes, _, hv, _, hd⟩ := holder_eq_some hi
    exact ⟨xs, e, ys, p, t, hes, hv, hd⟩
  · rintro ⟨xs, e, ys, p, t, rfl, hv, hd⟩
    rw [after_append, after_cons, stepCell_of _ hv, apply_put]
    exact after_isSome hd rfl

/-- A cell that only puts and drops touch holds its last put as it was put. -/
theorem after_unclaimed (hp : NoPut view es) (hd : NoDrop view es)
    (hc : ∀ e ∈ es, ∀ now till, view e ≠ some (.claim now till)) :
    after view (some (p, t)) es = some (p, t) := by
  refine after_ungranted hp hd (along_of_split fun xs e ys hes now till hv => ?_)
  exact absurd hv (hc e (by rw [hes]; simp) now till)

end Facts

end Lease
