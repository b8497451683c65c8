/-
  McpVenusOs.Lib.PyFloat

  Python's float arithmetic: the binary64 operations of `+`, `*`, `round` and
  `float()`.

  `roundDouble` is the nearest double of a rational, half to even, with gradual
  underflow and overflow to an infinity.  Arithmetic on floats never raises; only
  `float()` does, and `toFloat` tells its three exceptions apart.
-/

import Mathlib.Algebra.Field.Rat
import Mathlib.Algebra.Order.Field.Rat
import Mathlib.Data.Int.Log
import Mathlib.Data.Rat.Floor
import McpVenusOs.Lib.PyValue

namespace Py

/-! ## Rounding -/

/-- The nearest integer, half to even. -/
def roundEven (x : ℚ) : Int :=
  let n := x.floor
  let r := x - n
  if r < 1 / 2 then n else if 1 / 2 < r then n + 1 else n + n % 2

/-- The exponent of the last place of a double near `q`. -/
def lastPlace (q : ℚ) : Int := max (Int.log 2 |q| - 52) (-1074)

/-- The nearest double. -/
def roundDouble (q : ℚ) : PyFloat :=
  let r : ℚ := roundEven (q / 2 ^ lastPlace q) * 2 ^ lastPlace q
  if 2 ^ 1024 ≤ |r| then .inf (q < 0) else .finite r

/-! ## Arithmetic -/

namespace PyFloat

/-- `x + y` -/
def add : PyFloat → PyFloat → PyFloat
  | .finite p, .finite q => roundDouble (p + q)
  | .inf a, .inf b => if a = b then .inf a else .nan
  | .inf a, .finite _ => .inf a
  | .finite _, .inf b => .inf b
  | _, _ => .nan

/-- `x * y` -/
def mul : PyFloat → PyFloat → PyFloat
  | .finite p, .finite q => roundDouble (p * q)
  | .inf a, .inf b => .inf (a != b)
  | .inf a, .finite q => if q = 0 then .nan else .inf (a != decide (q < 0))
  | .finite p, .inf b => if p = 0 then .nan else .inf (b != decide (p < 0))
  | _, _ => .nan

/-- `round(x, digits)`: an infinity and a NaN are themselves. -/
def round (x : PyFloat) (digits : Nat) : PyFloat :=
  match x with
  | .finite q => roundDouble (pyRound q digits)
  | x => x

end PyFloat

/-! ## `float()` -/

/-- `float(v)`, with what it raises. -/
def toFloat (parse : String → Option PyFloat) : Json → Except PyError PyFloat
  | .bool b => .ok (.finite (if b then 1 else 0))
  | .int n => (floatOfInt n).elim (.error .overflowError) .ok
  | .float x => .ok x
  | .str s => (parse s).elim (.error .valueError) .ok
  | _ => .error .typeError

/-- `pyFloat` forgets which exception it was. -/
theorem toFloat_toOption (parse : String → Option PyFloat) (v : Json) :
    (toFloat parse v).toOption = pyFloat parse v := by
  cases v with
  | int n => rw [toFloat, pyFloat]; cases floatOfInt n <;> rfl
  | str s => rw [toFloat, pyFloat]; cases parse s <;> rfl
  | _ => rfl

/-- An integer beyond the float range. -/
def Json.beyondFloat : Json → Bool
  | .int n => floatLimit ≤ n.natAbs
  | _ => false

/-- `float()` overflows on nothing else. -/
theorem toFloat_eq_overflow {parse : String → Option PyFloat} {v : Json} :
    toFloat parse v = .error .overflowError ↔ v.beyondFloat = true := by
  cases v with
  | int n =>
    rw [toFloat, floatOfInt]
    by_cases h : n.natAbs < floatLimit
    · simp [h, Json.beyondFloat]
    · simp [h, Json.beyondFloat, Nat.le_of_not_lt h]
  | str s =>
    rw [toFloat]
    cases parse s <;> simp [Json.beyondFloat]
  | _ => simp [toFloat, Json.beyondFloat]

end Py
