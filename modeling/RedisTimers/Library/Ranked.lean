/-
  File:      RedisTimers/Library/Ranked.lean
  Subject:   ASSOCIATION LISTS READ IN THE ORDER OF THEIR VALUES. A member carries a rank; reading
             the list up to a rank gives the members at or below it, by rank and then by member.
             General facts over any linear orders; nothing here names a program.

  * `upTo` -- the reading, `atMost` -- its bound (`none` is no bound);
  * `mem_upTo`, `nodup_upTo`, `length_upTo_none` -- what is read, once each, and all of it;
  * `pairwise_upTo` -- in which order;
  * `ahead`, `take_upTo` -- the members before a place, and what a short reading leaves out: a member
    that a reading of `n` does not reach has `n` members ahead of it, the ones that were read.
-/
import Mathlib.Data.Finset.Card
import Mathlib.Data.List.AList
import Mathlib.Data.List.Sort
import Mathlib.Data.Prod.Lex

namespace Ranked

variable {M S : Type} [LinearOrder M] [LinearOrder S]

/-- One entry is read before another: the lower rank first, the lower member among equals. -/
def before (a b : Sigma fun _ : M => S) : Prop := toLex (a.2, a.1) ≤ toLex (b.2, b.1)

instance : DecidableRel (before (M := M) (S := S)) := fun _ _ => inferInstanceAs (Decidable (_ ≤ _))

/-- The rank is within the bound, where there is one. -/
def atMost (bound : Option S) (s : S) : Bool :=
  match bound with
  | some b => decide (s ≤ b)
  | none => true

/-- The members whose rank is within the bound, in reading order. -/
def upTo (z : AList fun _ : M => S) (bound : Option S) : List M :=
  ((z.entries.filter fun e => atMost bound e.2).insertionSort before).map Sigma.fst

omit [LinearOrder M] in
@[simp] theorem atMost_none (s : S) : atMost none s = true := rfl

omit [LinearOrder M] in
@[simp] theorem atMost_some (b s : S) : atMost (some b) s = true ↔ s ≤ b := decide_eq_true_iff

/-- A member is read exactly if it has a rank within the bound. -/
theorem mem_upTo [DecidableEq M] {z : AList fun _ : M => S} {bound : Option S} {m : M} :
    m ∈ upTo z bound ↔ ∃ s, z.lookup m = some s ∧ atMost bound s = true := by
  unfold upTo
  rw [List.mem_map]
  constructor
  · rintro ⟨e, he, rfl⟩
    have hf := (List.perm_insertionSort before _).mem_iff.mp he
    obtain ⟨hmem, hb⟩ := List.mem_filter.mp hf
    exact ⟨e.2, AList.mem_lookup_iff.mpr hmem, hb⟩
  · rintro ⟨s, hs, hb⟩
    refine ⟨⟨m, s⟩, (List.perm_insertionSort before _).mem_iff.mpr ?_, rfl⟩
    exact List.mem_filter.mpr ⟨AList.mem_lookup_iff.mp hs, hb⟩

/-- No member is read twice. -/
theorem nodup_upTo (z : AList fun _ : M => S) (bound : Option S) : (upTo z bound).Nodup := by
  have hp : (upTo z bound).Perm ((z.entries.filter fun e => atMost bound e.2).map Sigma.fst) :=
    (List.perm_insertionSort before _).map _
  rw [hp.nodup_iff]
  have hs : ((z.entries.filter fun e => atMost bound e.2).map Sigma.fst).Sublist z.keys :=
    List.filter_sublist.map _
  exact hs.nodup z.nodupKeys

/-- Without a bound every entry is read. -/
theorem length_upTo_none (z : AList fun _ : M => S) : (upTo z none).length = z.entries.length := by
  unfold upTo
  rw [List.length_map, List.length_insertionSort]
  simp [atMost]

/-! ## 2. The order of a reading -/

/-- The place of a ranked member in the order. -/
abbrev place (s : S) (m : M) : Lex (S × M) := toLex (s, m)

instance : IsTrans _ (before (M := M) (S := S)) := ⟨fun _ _ _ hab hbc => le_trans hab hbc⟩

instance : Std.Total (before (M := M) (S := S)) := ⟨fun _ _ => le_total _ _⟩

/-- What is read is read in order. -/
theorem pairwise_upTo [DecidableEq M] (z : AList fun _ : M => S) (bound : Option S) :
    (upTo z bound).Pairwise fun m n =>
      ∃ s t, z.lookup m = some s ∧ z.lookup n = some t ∧ place s m < place t n := by
  have hsorted := List.pairwise_insertionSort before (z.entries.filter fun e => atMost bound e.2)
  have hnodup : (upTo z bound).Nodup := nodup_upTo z bound
  unfold upTo at hnodup ⊢
  rw [List.Nodup, List.pairwise_map] at hnodup
  rw [List.pairwise_map]
  refine (hsorted.and hnodup).imp_of_mem fun {a b} ha hb h => ?_
  have hmem : ∀ e ∈ (z.entries.filter fun e => atMost bound e.2).insertionSort before,
      z.lookup e.1 = some e.2 := fun e he =>
    AList.mem_lookup_iff.mpr (List.mem_filter.mp ((List.perm_insertionSort before _).mem_iff.mp he)).1
  refine ⟨a.2, b.2, hmem a ha, hmem b hb, lt_of_le_of_ne h.1 fun he => h.2 ?_⟩
  exact congrArg (fun p : Lex (S × M) => (ofLex p).2) he

/-- The members whose place is before `p`. -/
def ahead [DecidableEq M] (z : AList fun _ : M => S) (p : Lex (S × M)) : Finset M :=
  ((z.entries.filter fun e => decide (place e.2 e.1 < p)).map Sigma.fst).toFinset

theorem mem_ahead [DecidableEq M] {z : AList fun _ : M => S} {p : Lex (S × M)} {m : M} :
    m ∈ ahead z p ↔ ∃ s, z.lookup m = some s ∧ place s m < p := by
  unfold ahead
  rw [List.mem_toFinset, List.mem_map]
  constructor
  · rintro ⟨e, he, rfl⟩
    obtain ⟨hmem, hlt⟩ := List.mem_filter.mp he
    exact ⟨e.2, AList.mem_lookup_iff.mpr hmem, of_decide_eq_true hlt⟩
  · rintro ⟨s, hs, hlt⟩
    exact ⟨⟨m, s⟩, List.mem_filter.mpr ⟨AList.mem_lookup_iff.mp hs, decide_eq_true hlt⟩, rfl⟩

/-- **A member that a reading of `n` does not reach has the `n` members that were read ahead of
    it.** -/
theorem take_upTo [DecidableEq M] {z : AList fun _ : M => S} {bound : Option S} {m : M} {s : S} {n : ℕ}
    (hs : z.lookup m = some s) (hm : m ∈ upTo z bound) (hnot : m ∉ (upTo z bound).take n) :
    ((upTo z bound).take n).length = n ∧ ∀ x ∈ (upTo z bound).take n, x ∈ ahead z (place s m) := by
  have hsplit := List.take_append_drop n (upTo z bound)
  have hdrop : m ∈ (upTo z bound).drop n := by
    rw [← hsplit] at hm
    exact (List.mem_append.mp hm).resolve_left hnot
  constructor
  · have hpos := List.length_pos_of_mem hdrop
    rw [List.length_drop] at hpos
    rw [List.length_take]
    omega
  · intro x hx
    have hp := pairwise_upTo z bound
    rw [← hsplit] at hp
    obtain ⟨t, u, ht, hu, hlt⟩ := (List.pairwise_append.mp hp).2.2 x hx m hdrop
    rw [hs] at hu
    cases hu
    exact mem_ahead.mpr ⟨t, ht, hlt⟩

end Ranked
