/-
  File:      RedisTimers/Library/Tally.lean
  Subject:   COUNTERS THAT A HISTORY DETERMINES. A counter goes back to zero at some events, up by
             one at others, and stops at a cap. General facts; nothing here names a program.

  * `tick` -- the counter as a machine; `tally` -- what it counts: the events since the last reset;
  * `replay_tick` -- the machine holds the tally, cut at its cap;
  * `tally_append_le` -- without a reset a tally does not go down.
-/
import RedisTimers.Library.Replay
import Mathlib.Data.List.Induction
import Mathlib.Order.Lattice

namespace Tally

open Replay

variable {ε : Type} (reset bump : ε → Bool)

/-- One event at the counter: a reset wins over a count. -/
def tick (cap n : Nat) (e : ε) : Nat :=
  if reset e then 0 else if bump e then min (n + 1) cap else n

/-- The counted events of a history after its last reset. -/
def tally (es : List ε) : Nat := (es.reverse.takeWhile fun e => !reset e).countP bump

@[simp] theorem tally_nil : tally reset bump [] = 0 := rfl

theorem tally_concat (es : List ε) (e : ε) : tally reset bump (es ++ [e]) =
    if reset e then 0 else if bump e then tally reset bump es + 1 else tally reset bump es := by
  unfold tally
  rw [List.reverse_append, List.reverse_singleton, List.singleton_append]
  cases hr : reset e with
  | true => simp [hr]
  | false => simp [hr, List.countP_cons]; split <;> simp_all

variable {reset bump}

/-- **The counter holds the tally of its history, cut at the cap.** -/
theorem replay_tick (cap : Nat) (es : List ε) :
    replay (tick reset bump cap) 0 es = min (tally reset bump es) cap := by
  induction es using List.reverseRecOn with
  | nil => simp
  | append_singleton es e ih =>
      rw [replay_concat, ih, tally_concat]
      unfold tick
      split
      · simp
      · split
        · omega
        · rfl

/-- Without a reset a tally does not go down. -/
theorem tally_append_le {xs ys : List ε} (h : ∀ e ∈ ys, reset e = false) :
    tally reset bump xs ≤ tally reset bump (xs ++ ys) := by
  induction ys using List.reverseRecOn with
  | nil => simp
  | append_singleton ys e ih =>
      have ih' := ih fun x hx => h x (List.mem_append_left _ hx)
      rw [← List.append_assoc, tally_concat, if_neg (by simp [h e])]
      split <;> omega

end Tally
