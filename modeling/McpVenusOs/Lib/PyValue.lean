/-
  McpVenusOs.Lib.PyValue

  The Python values a JSON document or a tool argument can hold: arbitrary
  integers, floats with infinities and NaN, booleans, strings, arrays, objects.

  A finite float is the rational number it denotes (both zeros are `0`), so
  comparisons between integers and floats are exact, as Python's are.  Only the
  conversion of an integer to a float rounds, half to even, and overflows
  (`floatOfInt`); `math.isfinite` overflows with it.
-/

import Mathlib.Algebra.Order.Ring.Rat

namespace Py

/-- The exceptions the modelled code raises or catches. -/
inductive PyError
  | typeError
  | valueError
  | overflowError
  | missingPortalId
  | notConnected
  | connectionTimeout
  | mqttError
  | other (message : String)
  deriving DecidableEq, Repr

inductive PyFloat
  | finite (q : ℚ)
  | inf (negative : Bool)
  | nan
  deriving DecidableEq

/-- `int | float`. -/
inductive PyNum
  | int (n : Int)
  | float (x : PyFloat)
  deriving DecidableEq

/-- A value of `json.loads`; the keys of an object are distinct. -/
inductive Json
  | null
  | bool (b : Bool)
  | int (n : Int)
  | float (x : PyFloat)
  | str (s : String)
  | arr (xs : List Json)
  | obj (fields : List (String × Json))

/-- `isinstance(v, (int, float)) and not isinstance(v, bool)`. -/
def Json.asNumber : Json → Option PyNum
  | .int n => some (.int n)
  | .float x => some (.float x)
  | _ => none

theorem Json.asNumber_eq_some {v : Json} {n : PyNum} (h : v.asNumber = some n) :
    (∃ i, v = .int i ∧ n = .int i) ∨ ∃ x, v = .float x ∧ n = .float x := by
  cases v <;> simp_all [Json.asNumber]

/-! ## Comparison -/

namespace PyFloat

def lt : PyFloat → PyFloat → Bool
  | .finite p, .finite q => p < q
  | .finite _, .inf negative => !negative
  | .inf negative, .finite _ => negative
  | .inf a, .inf b => a && !b
  | _, _ => false

def eq : PyFloat → PyFloat → Bool
  | .finite p, .finite q => p = q
  | .inf a, .inf b => a == b
  | _, _ => false

def le (x y : PyFloat) : Bool := x.lt y || x.eq y

@[simp] theorem lt_finite (p q : ℚ) : lt (.finite p) (.finite q) = decide (p < q) := rfl

@[simp] theorem eq_finite (p q : ℚ) : eq (.finite p) (.finite q) = decide (p = q) := rfl

@[simp] theorem le_finite (p q : ℚ) : le (.finite p) (.finite q) = decide (p ≤ q) := by
  simp [le, le_iff_lt_or_eq]

end PyFloat

namespace PyNum

/-- The number denoted, for a comparison; nothing is rounded. -/
def toFloat : PyNum → PyFloat
  | .int n => .finite n
  | .float x => x

def lt (a b : PyNum) : Bool := a.toFloat.lt b.toFloat

def le (a b : PyNum) : Bool := a.toFloat.le b.toFloat

/-- Python's `==` on numbers: `1 == 1.0`. -/
def eq (a b : PyNum) : Bool := a.toFloat.eq b.toFloat

end PyNum

/-! ## Conversion -/

/-- The smallest magnitude that rounds beyond the largest double. -/
def floatLimit : Nat := 2 ^ 1024 - 2 ^ 970

/-- A natural number rounded to 53 significant bits, half to even. -/
def roundToDouble (m : Nat) : Nat :=
  if m < 2 ^ 53 then m
  else
    let e := Nat.log2 m - 52
    let q := m / 2 ^ e
    let r := m % 2 ^ e
    let half := 2 ^ (e - 1)
    (if half < r ∨ (r = half ∧ q % 2 = 1) then q + 1 else q) * 2 ^ e

/-- `float(n)` for an integer: `none` is `OverflowError`. -/
def floatOfInt (n : Int) : Option PyFloat :=
  if n.natAbs < floatLimit then
    some (.finite (if n < 0 then -(roundToDouble n.natAbs : ℚ) else roundToDouble n.natAbs))
  else none

/-- `float(v)`; the text form of a float is `parse`.  `none` is a `TypeError`,
    a `ValueError` or an `OverflowError`. -/
def pyFloat (parse : String → Option PyFloat) : Json → Option PyFloat
  | .bool b => some (.finite (if b then 1 else 0))
  | .int n => floatOfInt n
  | .float x => some x
  | .str s => parse s
  | _ => none

/-- `math.isfinite` of a float. -/
def PyFloat.isFinite : PyFloat → Bool
  | .finite _ => true
  | _ => false

theorem PyFloat.isFinite_iff {x : PyFloat} : x.isFinite = true ↔ ∃ q, x = .finite q := by
  cases x <;> simp [PyFloat.isFinite]

/-- `math.isfinite`: an integer beyond the float range raises `OverflowError`. -/
def mathIsFinite : PyNum → Except PyError Bool
  | .int n => if n.natAbs < floatLimit then .ok true else .error .overflowError
  | .float x => .ok x.isFinite

/-! ## Text -/

/-- `s.startswith(pre)` -/
def startsWith (s pre : String) : Bool := pre.toList.isPrefixOf s.toList

theorem startsWith_iff {s pre : String} : startsWith s pre = true ↔ ∃ rest, s = pre ++ rest := by
  rw [startsWith, List.isPrefixOf_iff_prefix]
  constructor
  · rintro ⟨rest, h⟩
    refine ⟨String.ofList rest, ?_⟩
    rw [← String.toList_inj, String.toList_append, String.toList_ofList, h]
  · rintro ⟨rest, rfl⟩
    rw [String.toList_append]
    exact List.prefix_append _ _

/-- `(pre + rest)[len(pre):]` -/
theorem drop_append_toList (pre rest : String) :
    (pre ++ rest).toList.drop pre.length = rest.toList := by
  rw [String.toList_append, ← String.length_toList, List.drop_left]

/-- `s.endswith(suf)` -/
def endsWith (s suf : String) : Bool := suf.toList.isSuffixOf s.toList

/-- `c in s`, for one character. -/
def hasChar (s : String) (c : Char) : Bool := s.toList.contains c

/-- `str.isspace` of one character. -/
def isSpace (c : Char) : Bool :=
  let n := c.toNat
  (9 ≤ n && n ≤ 13) || (28 ≤ n && n ≤ 32) || n = 0x85 || n = 0xA0 || n = 0x1680 ||
    (0x2000 ≤ n && n ≤ 0x200A) || n = 0x2028 || n = 0x2029 || n = 0x202F || n = 0x205F ||
    n = 0x3000

/-- `s.strip()` -/
def strip (s : String) : String :=
  String.ofList (((s.toList.dropWhile isSpace).reverse.dropWhile isSpace).reverse)

/-- A character that ends a line of `str.splitlines`. -/
def isLineBreak (c : Char) : Bool :=
  let n := c.toNat
  (10 ≤ n && n ≤ 13) || (28 ≤ n && n ≤ 30) || n = 0x85 || n = 0x2028 || n = 0x2029

/-- The lines of a text whose current line, so far, is `line` reversed. -/
def splitLines : List Char → List Char → List String
  | [], [] => []
  | [], line => [String.ofList line.reverse]
  | '\r' :: '\n' :: rest, line => String.ofList line.reverse :: splitLines rest []
  | c :: rest, line =>
    if isLineBreak c then String.ofList line.reverse :: splitLines rest []
    else splitLines rest (c :: line)

/-- `s.splitlines()` -/
def splitlines (s : String) : List String := splitLines s.toList []

/-- `[ln.strip() for ln in s.splitlines() if ln.strip()]` -/
def strippedLines (s : String) : List String :=
  ((splitlines s).map strip).filter fun line => !line.isEmpty

/-- `round(x, digits)`: half to even. -/
def pyRound (x : ℚ) (digits : Nat) : ℚ :=
  let y := x * 10 ^ digits
  let n := y.floor
  let r := y - n
  let n' := if r < 1 / 2 then n else if 1 / 2 < r then n + 1 else if n % 2 = 0 then n else n + 1
  n' / 10 ^ digits

/-- How Python writes what the modelled messages insert: numbers, and the
    `repr` of an argument dictionary. -/
structure PyFormat where
  num : PyNum → String
  params : List (String × Json) → String

end Py
