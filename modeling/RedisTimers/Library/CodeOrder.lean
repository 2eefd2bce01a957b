/-
  File:      RedisTimers/Library/CodeOrder.lean
  Subject:   CODES THAT KEEP THE ORDER: where the code of a lesser letter turns off below that of a
             greater one, the lexicographic order of texts is that of their codes. General facts;
             UTF-8 is such a code.

  * `TurnsBelow` -- after a common beginning the one word has the lesser letter;
  * `flatMap_lt_iff` -- coding keeps the lexicographic order and brings none of its own;
  * `utf8_turnsBelow` -- UTF-8 on code points.
-/
import Mathlib.Data.List.Lex
import Mathlib.Order.Lattice

namespace CodeOrder

/-! ## 1. Words that turn off -/

section Words

variable {β : Type} [LT β]

/-- After a common beginning the first word has the lesser letter. -/
def TurnsBelow (u v : List β) : Prop :=
  ∃ w a b u' v', u = w ++ a :: u' ∧ v = w ++ b :: v' ∧ a < b

theorem TurnsBelow.head {a b : β} (h : a < b) (u v : List β) : TurnsBelow (a :: u) (b :: v) :=
  ⟨[], a, b, u, v, rfl, rfl, h⟩

/-- Words turn off in their first letters, or after equal ones. -/
theorem TurnsBelow.cons {a b : β} {u v : List β} (h : a < b ∨ a = b ∧ TurnsBelow u v) :
    TurnsBelow (a :: u) (b :: v) := by
  rcases h with hlt | ⟨rfl, w, x, y, u', v', rfl, rfl, hlt⟩
  · exact .head hlt u v
  · exact ⟨a :: w, x, y, u', v', rfl, rfl, hlt⟩

/-- Words that turn off are ordered so, whatever follows them. -/
theorem TurnsBelow.append_lt {u v : List β} (h : TurnsBelow u v) (x y : List β) : u ++ x < v ++ y := by
  obtain ⟨w, a, b, u', v', rfl, rfl, hlt⟩ := h
  rw [List.append_assoc, List.append_assoc]
  exact List.append_left_lt (List.cons_lt_cons_iff.mpr (Or.inl hlt))

end Words

section Codes

variable {α β : Type} [LinearOrder α] [LinearOrder β]
variable {code : α → List β} (hne : ∀ a, code a ≠ []) (hcode : ∀ a b, a < b → TurnsBelow (code a) (code b))

include hne hcode in
theorem flatMap_strictMono : StrictMono fun s : List α => s.flatMap code := by
  intro s t hst
  show s.flatMap code < t.flatMap code
  induction hst with
  | @nil b t =>
      obtain ⟨x, u, hx⟩ := List.exists_cons_of_ne_nil (hne b)
      rw [List.flatMap_nil, List.flatMap_cons, hx]
      exact List.nil_lt_cons _ _
  | @rel a s b t hab =>
      rw [List.flatMap_cons, List.flatMap_cons]
      exact (hcode a b hab).append_lt _ _
  | @cons a s t _ ih =>
      rw [List.flatMap_cons, List.flatMap_cons]
      exact List.append_left_lt ih

include hne hcode in
/-- **Coding keeps the lexicographic order of texts**, and brings none of its own. -/
theorem flatMap_lt_iff {s t : List α} : s.flatMap code < t.flatMap code ↔ s < t :=
  (flatMap_strictMono hne hcode).lt_iff_lt

end Codes

/-! ## 2. UTF-8 -/

/-- The UTF-8 bytes of a code point. -/
def utf8 (v : ℕ) : List UInt8 :=
  if v ≤ 0x7f then [UInt8.ofNat v]
  else if v ≤ 0x7ff then [UInt8.ofNat (v / 64 % 0x20 + 0xc0), UInt8.ofNat (v % 0x40 + 0x80)]
  else if v ≤ 0xffff then
    [UInt8.ofNat (v / 4096 % 0x10 + 0xe0), UInt8.ofNat (v / 64 % 0x40 + 0x80),
      UInt8.ofNat (v % 0x40 + 0x80)]
  else
    [UInt8.ofNat (v / 262144 % 0x08 + 0xf0), UInt8.ofNat (v / 4096 % 0x40 + 0x80),
      UInt8.ofNat (v / 64 % 0x40 + 0x80), UInt8.ofNat (v % 0x40 + 0x80)]

theorem utf8EncodeChar_eq (c : Char) : String.utf8EncodeChar c = utf8 c.val.toNat := rfl

theorem utf8_ne_nil (v : ℕ) : utf8 v ≠ [] := by
  unfold utf8
  split
  · exact List.cons_ne_nil _ _
  · split
    · exact List.cons_ne_nil _ _
    · split <;> exact List.cons_ne_nil _ _

section Bytes

variable {a b : ℕ} {u v : List UInt8}

theorem byte_lt (h : a < b) (hb : b < 256) : UInt8.ofNat a < UInt8.ofNat b := by
  rw [UInt8.lt_iff_toNat_lt, UInt8.toNat_ofNat', UInt8.toNat_ofNat']
  omega

theorem turnsBelow_head (h : a < b) (hb : b < 256) : TurnsBelow (UInt8.ofNat a :: u) (UInt8.ofNat b :: v) :=
  .head (byte_lt h hb) u v

theorem turnsBelow_cons (hle : a ≤ b) (hb : b < 256) (h : a = b → TurnsBelow u v) :
    TurnsBelow (UInt8.ofNat a :: u) (UInt8.ofNat b :: v) := by
  rcases Nat.lt_or_eq_of_le hle with hlt | rfl
  · exact turnsBelow_head hlt hb
  · exact .cons (Or.inr ⟨rfl, h rfl⟩)

end Bytes

/-- **UTF-8 turns off as the code points do.** -/
theorem utf8_turnsBelow {v w : ℕ} (h : v < w) (hw : w < 0x110000) : TurnsBelow (utf8 v) (utf8 w) := by
  have hd : v / 64 ≤ w / 64 ∧ v / 4096 ≤ w / 4096 ∧ v / 262144 ≤ w / 262144 := by omega
  unfold utf8
  by_cases h1 : v ≤ 0x7f
  · rw [if_pos h1]
    by_cases g1 : w ≤ 0x7f
    · rw [if_pos g1]
      exact turnsBelow_head h (by omega)
    · rw [if_neg g1]
      split
      · exact turnsBelow_head (by omega) (by omega)
      · split
        · exact turnsBelow_head (by omega) (by omega)
        · exact turnsBelow_head (by omega) (by omega)
  · rw [if_neg h1, if_neg (show ¬ w ≤ 0x7f by omega)]
    by_cases h2 : v ≤ 0x7ff
    · rw [if_pos h2]
      by_cases g2 : w ≤ 0x7ff
      · rw [if_pos g2]
        refine turnsBelow_cons (by omega) (by omega) fun he => ?_
        exact turnsBelow_head (by omega) (by omega)
      · rw [if_neg g2]
        split
        · exact turnsBelow_head (by omega) (by omega)
        · exact turnsBelow_head (by omega) (by omega)
    · rw [if_neg h2, if_neg (show ¬ w ≤ 0x7ff by omega)]
      by_cases h3 : v ≤ 0xffff
      · rw [if_pos h3]
        by_cases g3 : w ≤ 0xffff
        · rw [if_pos g3]
          refine turnsBelow_cons (by omega) (by omega) fun he => ?_
          refine turnsBelow_cons (by omega) (by omega) fun he' => ?_
          exact turnsBelow_head (by omega) (by omega)
        · rw [if_neg g3]
          exact turnsBelow_head (by omega) (by omega)
      · rw [if_neg h3, if_neg (show ¬ w ≤ 0xffff by omega)]
        refine turnsBelow_cons (by omega) (by omega) fun he => ?_
        refine turnsBelow_cons (by omega) (by omega) fun he' => ?_
        refine turnsBelow_cons (by omega) (by omega) fun he'' => ?_
        exact turnsBelow_head (by omega) (by omega)

/-- **The bytes of two characters turn off as the characters are ordered.** -/
theorem utf8EncodeChar_turnsBelow (c d : Char) (h : c < d) :
    TurnsBelow (String.utf8EncodeChar c) (String.utf8EncodeChar d) := by
  rw [utf8EncodeChar_eq, utf8EncodeChar_eq]
  refine utf8_turnsBelow (UInt32.lt_iff_toNat_lt.mp h) ?_
  rcases d.valid with hlt | ⟨_, hlt⟩
  · exact Nat.lt_trans hlt (by omega)
  · exact hlt

end CodeOrder
