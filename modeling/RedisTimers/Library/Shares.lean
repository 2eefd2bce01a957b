/-
  File:      RedisTimers/Library/Shares.lean
  Subject:   ITEMS SHARED OUT AMONG OWNERS. Items are numbered as they arise, and each owner keeps a
             list of the numbers of its own. General facts; nothing here names a program.

  * `SharedOut` -- every number is in one list, once;
  * `SharedOut.extend` -- new items go to one owner;
  * `SharedOut.unique` -- a number has one place;
  * `SharedOut.countP_eq` -- what is counted over the items is what is counted at their owners;
    `countOf_le` -- and what an owner records beside each number bounds that;
  * `sum_le_of_kept` -- the bounds of the owners, added up.
-/
import Mathlib.Algebra.Order.Ring.Nat
import Mathlib.Data.List.Nodup
import Mathlib.Data.List.Perm.Basic

namespace Shares

/-- The numbers below `n` are shared out: each is in one of the lists, once. -/
def SharedOut (shares : List (List ℕ)) (n : ℕ) : Prop := shares.flatten.Perm (List.range n)

/-- How many of the items with these numbers meet `p`. -/
def countOf {α : Type} (items : List α) (p : α → Bool) (numbers : List ℕ) : ℕ :=
  numbers.countP fun m => items[m]?.any p

variable {shares : List (List ℕ)} {n i j a b m : ℕ} {l l' : List ℕ}

/-- Nothing is shared out to owners who have nothing. -/
theorem sharedOut_nil (owners : ℕ) : SharedOut (List.replicate owners []) 0 := by
  unfold SharedOut
  rw [List.flatten_replicate_nil]
  exact .nil

/-- One owner's list grows at its end. -/
theorem flatten_set_append (hi : shares[i]? = some l) (new : List ℕ) :
    (shares.set i (l ++ new)).flatten.Perm (shares.flatten ++ new) := by
  induction shares generalizing i with
  | nil => cases hi
  | cons x shares ih =>
      cases i with
      | zero =>
          cases hi
          rw [List.set_cons_zero, List.flatten_cons, List.flatten_cons, List.append_assoc,
            List.append_assoc]
          exact List.perm_append_comm.append_left l
      | succ i =>
          rw [List.set_cons_succ, List.flatten_cons, List.flatten_cons, List.append_assoc]
          exact (ih hi).append_left x

/-- **New items go to one owner.** -/
theorem SharedOut.extend (h : SharedOut shares n) (hi : shares[i]? = some l) (k : ℕ) :
    SharedOut (shares.set i (l ++ (List.range k).map (n + ·))) (n + k) := by
  unfold SharedOut
  rw [List.range_add]
  exact (flatten_set_append hi _).trans (h.append_right _)

/-- Every number has an owner. -/
theorem SharedOut.owner (h : SharedOut shares n) (hm : m < n) : ∃ l ∈ shares, m ∈ l :=
  List.mem_flatten.mp (h.mem_iff.mpr (List.mem_range.mpr hm))

/-- **A number has one place**, at one owner. -/
theorem SharedOut.unique (h : SharedOut shares n) (hi : shares[i]? = some l) (hj : shares[j]? = some l')
    (ha : l[a]? = some m) (hb : l'[b]? = some m) : i = j ∧ a = b := by
  have hnodup : shares.flatten.Nodup := h.nodup_iff.mpr List.nodup_range
  obtain ⟨hown, hapart⟩ := List.nodup_flatten.mp hnodup
  have hij : i = j := by
    by_contra hne
    obtain ⟨hi', rfl⟩ := List.getElem?_eq_some_iff.mp hi
    obtain ⟨hj', rfl⟩ := List.getElem?_eq_some_iff.mp hj
    rw [List.pairwise_iff_getElem] at hapart
    rcases Nat.lt_or_gt_of_ne hne with hlt | hlt
    · exact hapart i j hi' hj' hlt (List.mem_of_getElem? ha) (List.mem_of_getElem? hb)
    · exact hapart j i hj' hi' hlt (List.mem_of_getElem? hb) (List.mem_of_getElem? ha)
  subst hij
  rw [hi] at hj
  cases hj
  obtain ⟨ha', hav⟩ := List.getElem?_eq_some_iff.mp ha
  obtain ⟨hb', hbv⟩ := List.getElem?_eq_some_iff.mp hb
  exact ⟨rfl, (hown l (List.mem_of_getElem? hi)).getElem_inj_iff.mp (hav.trans hbv.symm)⟩

/-- **What is counted over the items is what is counted at their owners.** -/
theorem SharedOut.countP_eq {α : Type} {items : List α} (h : SharedOut shares items.length)
    (p : α → Bool) : items.countP p = (shares.map (countOf items p)).sum := by
  have hitems : items.countP p = (List.range items.length).countP fun m => items[m]?.any p := by
    have hmap : items.map some = (List.range items.length).map (items[·]?) := by
      refine List.ext_getElem (by simp) fun m hm _ => ?_
      rw [List.length_map] at hm
      simp [hm]
    have hcount := congrArg (List.countP (·.any p)) hmap
    rw [List.countP_map, List.countP_map] at hcount
    exact hcount
  rw [hitems, ← List.Perm.countP_eq _ h, List.countP_flatten]
  rfl

/-- What each owner counts at most adds up to what all of the kinds that are kept allow. -/
theorem sum_le_of_kept {ι κ : Type} {owners : List ι} {count : ι → ℕ} {kind : ι → κ} {keep : κ → Bool}
    {limit : κ → ℕ} (h : ∀ o ∈ owners, count o ≤ if keep (kind o) then limit (kind o) else 0) :
    (owners.map count).sum ≤ (((owners.map kind).filter keep).map limit).sum := by
  induction owners with
  | nil => exact Nat.zero_le _
  | cons o owners ih =>
      have hrest := ih fun o' ho' => h o' (List.mem_cons_of_mem _ ho')
      have hfirst := h o List.mem_cons_self
      rw [List.map_cons, List.sum_cons, List.map_cons]
      cases hk : keep (kind o) with
      | true =>
          rw [hk, if_pos rfl] at hfirst
          rw [List.filter_cons_of_pos hk, List.map_cons, List.sum_cons]
          omega
      | false =>
          rw [hk, if_neg Bool.false_ne_true] at hfirst
          rw [List.filter_cons_of_neg (by rw [hk]; exact Bool.false_ne_true)]
          omega

/-- **What an owner records beside each number bounds what is counted at it.** -/
theorem countOf_le {α β : Type} {items : List α} {p : α → Bool} {records : List β} {q : β → Bool}
    (hlen : l.length = records.length)
    (h : ∀ (a m : ℕ) (r : β) (x : α), l[a]? = some m → records[a]? = some r → items[m]? = some x → p x = true → q r = true) :
    countOf items p l ≤ records.countP q := by
  unfold countOf
  induction l generalizing records with
  | nil => exact Nat.zero_le _
  | cons m l ih =>
      cases records with
      | nil => cases hlen
      | cons r records =>
          have hrest := ih (Nat.succ.inj hlen) fun a m' r' x hm hr => h (a + 1) m' r' x hm hr
          rw [List.countP_cons, List.countP_cons]
          have hfirst : items[m]?.any p = true → q r = true := fun hp => by
            obtain ⟨x, hx, hpx⟩ := (Option.any_eq_true _ _).mp hp
            exact h 0 m r x rfl rfl hx hpx
          split
          · rename_i hp
            rw [if_pos (hfirst hp)]
            omega
          · omega

end Shares
