/-
  File:      RedisTimers/Library/PyFloat.lean
  Subject:   FLOATS WITH THEIR SPECIAL VALUES. The finite ones are rationals and never rounded; the
             infinities and nan behave as IEEE 754 and Python have them. Nothing here names a
             program.

  * `PyFloat`, `isFinite`, `truthy`, `lt`, `le`, `mul`, `pyMin` -- the operations;
  * `mul_finite`, `lt_finite`, `pyMin_finite` -- on finite values they are those of the rationals.
-/
import Mathlib.Algebra.Order.Field.Rat

/-- A float: `finite` without rounding. -/
inductive PyFloat where
  | finite (q : ℚ)
  | posInf
  | negInf
  | nan
  deriving DecidableEq

namespace PyFloat

/-- `math.isfinite`. -/
def isFinite : PyFloat → Bool
  | finite _ => true
  | posInf | negInf | nan => false

/-- `bool(x)`: everything but zero. -/
def truthy : PyFloat → Bool
  | finite q => decide (q ≠ 0)
  | posInf | negInf | nan => true

/-- `x < y`; nan compares false. -/
def lt : PyFloat → PyFloat → Bool
  | nan, _ | _, nan => false
  | finite p, finite q => decide (p < q)
  | finite _, posInf | negInf, finite _ | negInf, posInf => true
  | finite _, negInf | posInf, _ | negInf, negInf => false

/-- `x <= y`. -/
def le : PyFloat → PyFloat → Bool
  | nan, _ | _, nan => false
  | x, y => !y.lt x

def neg : PyFloat → PyFloat
  | finite q => finite (-q)
  | posInf => negInf
  | negInf => posInf
  | nan => nan

/-- An infinity times a rational: nan at zero. -/
def infMul (x : PyFloat) (q : ℚ) : PyFloat := if q = 0 then nan else if 0 < q then x else x.neg

def mul : PyFloat → PyFloat → PyFloat
  | nan, _ | _, nan => nan
  | finite p, finite q => finite (p * q)
  | finite p, x => x.infMul p
  | x, finite q => x.infMul q
  | posInf, posInf | negInf, negInf => posInf
  | posInf, negInf | negInf, posInf => negInf

/-- `min(x, y)`: the second argument only where it is below the first. -/
def pyMin (x y : PyFloat) : PyFloat := if y.lt x then y else x

@[simp] theorem mul_finite (p q : ℚ) : mul (finite p) (finite q) = finite (p * q) := rfl

@[simp] theorem lt_finite (p q : ℚ) : lt (finite p) (finite q) = decide (p < q) := rfl

@[simp] theorem le_finite (p q : ℚ) : le (finite p) (finite q) = decide (p ≤ q) := by
  simp [le, ← not_lt]

@[simp] theorem pyMin_finite (p q : ℚ) : pyMin (finite p) (finite q) = finite (min p q) := by
  unfold pyMin
  rw [lt_finite]
  by_cases h : q < p
  · rw [if_pos (decide_eq_true h), min_eq_right h.le]
  · rw [if_neg (by simpa using h), min_eq_left (not_lt.mp h)]

@[simp] theorem truthy_finite (q : ℚ) : (finite q).truthy = true ↔ q ≠ 0 := decide_eq_true_iff

theorem truthy_eq_false {x : PyFloat} : x.truthy = false ↔ x = finite 0 := by
  cases x <;> simp [truthy]

end PyFloat
