/-
  McpVenusOs.Lib.JsonScan

  The scalar tokens of JSON text, as Python's `json` reads and writes them:
  `scan_once` at a string, a number or a literal, and `dumps` of strings and
  integers with `ensure_ascii=False`.

  A Python string is a sequence of code points, for an escape can put a lone
  surrogate into it.  A number with a fraction or an exponent is kept as its
  token.  What is scanned ends where a delimiter begins, so a token is the same
  before every delimiter (`scanOnce_token`).
-/

import Mathlib.Data.List.Basic
import Mathlib.Data.List.TakeWhile
import McpVenusOs.Lib.PyInt

namespace JsonScan

open Py

inductive Scalar
  | null
  | bool (b : Bool)
  | int (n : Int)
  | float (token : List Char)
  | str (s : List Nat)
  deriving DecidableEq

/-! ## Strings -/

def hexDigit (c : Char) : Option Nat :=
  if c.isDigit then some (c.toNat - 48)
  else if 'a' ≤ c ∧ c ≤ 'f' then some (c.toNat - 87)
  else if 'A' ≤ c ∧ c ≤ 'F' then some (c.toNat - 55)
  else none

/-- Four hexadecimal digits. -/
def hexUnit (a b c d : Char) : Option Nat := do
  return (((← hexDigit a) * 16 + (← hexDigit b)) * 16 + (← hexDigit c)) * 16 + (← hexDigit d)

/-- `BACKSLASH` -/
def backslash (c : Char) : Option Nat :=
  [('"', 34), ('\\', 92), ('/', 47), ('b', 8), ('f', 12), ('n', 10), ('r', 13), ('t', 9)].lookup c

/-- The code units of a string up to its closing quote, and the rest. -/
def units : List Char → Option (List Nat × List Char)
  | [] => none
  | c :: rest =>
    if c = '"' then some ([], rest)
    else if c = '\\' then
      match rest with
      | 'u' :: a :: b :: c :: d :: tail =>
        (hexUnit a b c d).bind fun u => (units tail).map fun r => (u :: r.1, r.2)
      | e :: tail => (backslash e).bind fun u => (units tail).map fun r => (u :: r.1, r.2)
      | [] => none
    -- a control character must be escaped
    else if c.toNat < 32 then none
    else (units rest).map fun r => (c.toNat :: r.1, r.2)

/-- Two escapes that are a surrogate pair are one character. -/
def combine : List Nat → List Nat
  | a :: b :: rest =>
    if 0xd800 ≤ a ∧ a ≤ 0xdbff ∧ 0xdc00 ≤ b ∧ b ≤ 0xdfff then
      (0x10000 + (a - 0xd800) * 1024 + (b - 0xdc00)) :: combine rest
    else a :: combine (b :: rest)
  | us => us

/-! ## Numbers -/

def intPart : List Char → Option (List Char × List Char)
  | [] => none
  | c :: rest =>
    if c = '0' then some (['0'], rest)
    else if c.isDigit then some (c :: rest.takeWhile Char.isDigit, rest.dropWhile Char.isDigit)
    else none

/-- A point with digits after it. -/
def fracPart : List Char → List Char × List Char
  | [] => ([], [])
  | c :: rest =>
    if c = '.' ∧ rest.takeWhile Char.isDigit ≠ [] then
      (c :: rest.takeWhile Char.isDigit, rest.dropWhile Char.isDigit)
    else ([], c :: rest)

/-- One character of `signs`, if it is there. -/
def signPart (signs : List Char) : List Char → List Char × List Char
  | [] => ([], [])
  | c :: rest => if c ∈ signs then ([c], rest) else ([], c :: rest)

/-- An exponent with digits after its sign. -/
def expPart : List Char → List Char × List Char
  | [] => ([], [])
  | c :: rest =>
    let r := signPart ['-', '+'] rest
    if c ∈ ['e', 'E'] ∧ r.2.takeWhile Char.isDigit ≠ [] then
      (c :: r.1 ++ r.2.takeWhile Char.isDigit, r.2.dropWhile Char.isDigit)
    else ([], c :: rest)

/-- `_match_number_unicode`; an integer with too many digits is a `ValueError`. -/
def matchNumber (cs : List Char) : Option (Scalar × List Char) :=
  let sign := signPart ['-'] cs
  (intPart sign.2).bind fun digits =>
    let frac := fracPart digits.2
    let exp := expPart frac.2
    if frac.1 = [] ∧ exp.1 = [] then
      if digits.1.length ≤ maxStrDigits then
        let n := Nat.ofDigitChars 10 digits.1 0
        some (.int (if sign.1 = [] then n else -n), exp.2)
      else none
    else some (.float (sign.1 ++ digits.1 ++ frac.1 ++ exp.1), exp.2)

/-! ## `scan_once` -/

def literals : List (List Char × Scalar) := [
  ("null".toList, .null),
  ("true".toList, .bool true),
  ("false".toList, .bool false),
  ("NaN".toList, .float "NaN".toList),
  ("Infinity".toList, .float "Infinity".toList),
  ("-Infinity".toList, .float "-Infinity".toList)]

def scanLiteral (cs : List Char) : Option (Scalar × List Char) :=
  literals.findSome? fun (word, v) => (word.isPrefixOf? cs).map fun rest => (v, rest)

/-- The scalar at the front of the text, and the rest; `none` is a `ValueError`. -/
def scanOnce : List Char → Option (Scalar × List Char)
  | [] => none
  | c :: rest =>
    if c = '"' then (units rest).map fun r => (.str (combine r.1), r.2)
    else (scanLiteral (c :: rest)).orElse fun _ => matchNumber (c :: rest)

/-! ## `dumps` -/

def escapeChar (c : Char) : List Char :=
  if c = '"' then ['\\', '"']
  else if c = '\\' then ['\\', '\\']
  else if c = '\n' then ['\\', 'n']
  else if c = '\r' then ['\\', 'r']
  else if c = '\t' then ['\\', 't']
  else if c.toNat = 12 then ['\\', 'f']
  else if c.toNat = 8 then ['\\', 'b']
  else if c.toNat < 32 then
    ['\\', 'u', '0', '0', Nat.digitChar (c.toNat / 16), Nat.digitChar (c.toNat % 16)]
  else [c]

/-- `json.dumps(s, ensure_ascii=False)` -/
def dumpsStr (s : List Char) : List Char := '"' :: (s.flatMap escapeChar ++ ['"'])

/-- `json.dumps(n)`; `none` is a `ValueError`. -/
def dumpsInt (n : Int) : Option (List Char) := (pyStr n).map String.toList

/-! ## A token is the same before every delimiter -/

/-- White space and punctuation. -/
def isDelimiter (c : Char) : Bool := c ∈ [' ', '\n', '\r', '\t', ',', ':', ']', '}']

/-- The text is at its end or goes on with a delimiter. -/
def Delimited (post : List Char) : Prop := ∀ c ∈ post.head?, isDelimiter c = true

theorem units_quote (rest : List Char) : units ('"' :: rest) = some ([], rest) := by
  rw [units.eq_def]
  rfl

theorem units_hex (a b c d : Char) (tail : List Char) :
    units ('\\' :: 'u' :: a :: b :: c :: d :: tail) =
      (hexUnit a b c d).bind fun u => (units tail).map fun r => (u :: r.1, r.2) := by
  rw [units.eq_def]
  rfl

theorem units_escape {e : Char} (he : e ≠ 'u') (tail : List Char) :
    units ('\\' :: e :: tail) =
      (backslash e).bind fun u => (units tail).map fun r => (u :: r.1, r.2) := by
  rw [units.eq_def]
  simp only [Char.reduceEq, if_false, if_true]
  split
  · rename_i heq
    exact absurd (List.cons.inj heq).1 he
  · rename_i heq
    obtain ⟨rfl, rfl⟩ := List.cons.inj heq
    rfl
  · rename_i heq
    cases heq

theorem units_plain {c : Char} (hquote : c ≠ '"') (hslash : c ≠ '\\') (hcontrol : 32 ≤ c.toNat)
    (rest : List Char) :
    units (c :: rest) = (units rest).map fun r => (c.toNat :: r.1, r.2) := by
  rw [units.eq_def]
  simp only [if_neg hquote, if_neg hslash, if_neg (by omega : ¬c.toNat < 32)]

theorem units_split {cs rest : List Char} {us : List Nat} (h : units cs = some (us, rest)) :
    ∃ token, cs = token ++ rest ∧ ∀ post, units (token ++ post) = some (us, post) := by
  fun_induction units cs generalizing us with
  | case1 => cases h
  | case2 tail =>
    obtain ⟨rfl, rfl⟩ := Prod.mk.inj (Option.some.inj h)
    exact ⟨['"'], rfl, units_quote⟩
  | case3 a b c d tail _ ih =>
    obtain ⟨u, hu, h⟩ := Option.bind_eq_some_iff.mp h
    obtain ⟨⟨vs, rest'⟩, hunits, heq⟩ := Option.map_eq_some_iff.mp h
    obtain ⟨rfl, rfl⟩ := Prod.mk.inj heq
    obtain ⟨token, rfl, htoken⟩ := ih hunits
    refine ⟨'\\' :: 'u' :: a :: b :: c :: d :: token, rfl, fun post => ?_⟩
    show units ('\\' :: 'u' :: a :: b :: c :: d :: (token ++ post)) = _
    rw [units_hex, hu, htoken post]
    rfl
  | case4 e tail hshape _ ih =>
    obtain ⟨u, hu, h⟩ := Option.bind_eq_some_iff.mp h
    obtain ⟨⟨vs, rest'⟩, hunits, heq⟩ := Option.map_eq_some_iff.mp h
    obtain ⟨rfl, rfl⟩ := Prod.mk.inj heq
    obtain ⟨token, rfl, htoken⟩ := ih hunits
    have he : e ≠ 'u' := by
      rintro rfl
      cases hu
    refine ⟨'\\' :: e :: token, rfl, fun post => ?_⟩
    show units ('\\' :: e :: (token ++ post)) = _
    rw [units_escape he, hu, htoken post]
    rfl
  | case5 => cases h
  | case6 => cases h
  | case7 c tail hquote hslash hcontrol ih =>
    obtain ⟨⟨vs, rest'⟩, hunits, heq⟩ := Option.map_eq_some_iff.mp h
    obtain ⟨rfl, rfl⟩ := Prod.mk.inj heq
    obtain ⟨token, rfl, htoken⟩ := ih hunits
    refine ⟨c :: token, rfl, fun post => ?_⟩
    show units (c :: (token ++ post)) = _
    rw [units_plain hquote hslash (by omega), htoken post]
    rfl

theorem scanLiteral_split {cs rest : List Char} {v : Scalar}
    (h : scanLiteral cs = some (v, rest)) :
    ∃ word, (word, v) ∈ literals ∧ cs = word ++ rest := by
  obtain ⟨⟨word, v'⟩, hmem, hprefix⟩ := List.exists_of_findSome?_eq_some h
  obtain ⟨rest', hrest, heq⟩ := Option.map_eq_some_iff.mp hprefix
  obtain ⟨rfl, rfl⟩ := Prod.mk.inj heq
  exact ⟨word, hmem, (List.append_eq_of_isPrefixOf?_eq_some hrest).symm⟩

/-! ## Numbers go on over digits, points and exponents only -/

def isNumberChar (c : Char) : Bool := c.isDigit || c ∈ ['.', 'e', 'E', '-', '+']

/-- The text goes on with nothing that can belong to a number. -/
def Stops (post : List Char) : Prop := ∀ c ∈ post.head?, isNumberChar c = false

theorem Delimited.stops {post : List Char} (h : Delimited post) : Stops post := by
  intro c hc
  have hdelimiter := h c hc
  simp only [isDelimiter, List.mem_cons, List.not_mem_nil, or_false, decide_eq_true_eq]
    at hdelimiter
  rcases hdelimiter with rfl | rfl | rfl | rfl | rfl | rfl | rfl | rfl <;> decide

variable {cs post : List Char}

theorem takeWhile_stops (cs : List Char) (h : Stops post) :
    (cs ++ post).takeWhile Char.isDigit = cs.takeWhile Char.isDigit ∧
      (cs ++ post).dropWhile Char.isDigit = cs.dropWhile Char.isDigit ++ post := by
  induction cs with
  | nil =>
    cases post with
    | nil => exact ⟨rfl, rfl⟩
    | cons c rest =>
      have hdigit : c.isDigit = false := by
        have hc := h c rfl
        rw [isNumberChar, Bool.or_eq_false_iff] at hc
        exact hc.1
      simp [hdigit]
  | cons c rest ih =>
    rw [List.cons_append]
    cases hdigit : c.isDigit with
    | false => simp [hdigit]
    | true => simp [hdigit, ih.1, ih.2]

theorem intPart_append (h : Stops post) :
    intPart (cs ++ post) = (intPart cs).map fun r => (r.1, r.2 ++ post) := by
  obtain ⟨htake, hdrop⟩ := takeWhile_stops cs.tail h
  cases cs with
  | nil =>
    cases post with
    | nil => rfl
    | cons c rest =>
      have hc := h c rfl
      rw [isNumberChar, Bool.or_eq_false_iff] at hc
      have hzero : c ≠ '0' := by
        rintro rfl
        exact absurd hc.1 (by decide)
      simp [intPart, hc.1, hzero]
  | cons c rest =>
    simp only [List.cons_append, intPart, List.tail_cons] at htake hdrop ⊢
    split
    · rfl
    · split
      · rw [htake, hdrop]
        rfl
      · rfl

theorem fracPart_append (h : Stops post) :
    fracPart (cs ++ post) = ((fracPart cs).1, (fracPart cs).2 ++ post) := by
  obtain ⟨htake, hdrop⟩ := takeWhile_stops cs.tail h
  cases cs with
  | nil =>
    cases post with
    | nil => rfl
    | cons c rest =>
      have hpoint : c ≠ '.' := by
        rintro rfl
        exact absurd (h _ rfl) (by decide)
      simp [fracPart, hpoint]
  | cons c rest =>
    simp only [List.cons_append, fracPart, List.tail_cons] at htake hdrop ⊢
    rw [htake, hdrop]
    split <;> rfl

theorem signPart_append {signs : List Char} (hsigns : ∀ c ∈ signs, isNumberChar c = true)
    (cs : List Char) (h : Stops post) :
    signPart signs (cs ++ post) = ((signPart signs cs).1, (signPart signs cs).2 ++ post) := by
  cases cs with
  | nil =>
    cases post with
    | nil => rfl
    | cons c rest =>
      have hsign : c ∉ signs := by
        intro hc
        have hnumber := hsigns c hc
        rw [h c rfl] at hnumber
        cases hnumber
      simp [signPart, hsign]
  | cons c rest =>
    simp only [List.cons_append, signPart]
    split <;> rfl

theorem expPart_append (h : Stops post) :
    expPart (cs ++ post) = ((expPart cs).1, (expPart cs).2 ++ post) := by
  have hnumbers : ∀ c ∈ ['-', '+'], isNumberChar c = true := by
    intro c hc
    simp only [List.mem_cons, List.not_mem_nil, or_false] at hc
    rcases hc with rfl | rfl <;> decide
  have hsign := signPart_append hnumbers cs.tail h
  cases cs with
  | nil =>
    cases post with
    | nil => rfl
    | cons c rest =>
      have he : c ∉ ['e', 'E'] := by
        intro hc
        have hnumber : isNumberChar c = true := by
          simp only [List.mem_cons, List.not_mem_nil, or_false] at hc
          rcases hc with rfl | rfl <;> decide
        rw [h c rfl] at hnumber
        cases hnumber
      simp only [List.nil_append, expPart, if_neg (not_and_of_not_left _ he)]
  | cons c rest =>
    rw [List.tail_cons] at hsign
    obtain ⟨htake, hdrop⟩ := takeWhile_stops (signPart ['-', '+'] rest).2 h
    simp only [List.cons_append, expPart, hsign, htake, hdrop]
    split <;> rfl

theorem matchNumber_append (h : Stops post) :
    matchNumber (cs ++ post) = (matchNumber cs).map fun r => (r.1, r.2 ++ post) := by
  have hnumbers : ∀ c ∈ ['-'], isNumberChar c = true := by
    intro c hc
    rw [List.mem_singleton.mp hc]
    decide
  have hsign := signPart_append hnumbers cs h
  simp only [matchNumber, hsign, intPart_append h]
  cases intPart (signPart ['-'] cs).2 with
  | none => rfl
  | some digits =>
    simp only [Option.map_some, Option.bind_some, fracPart_append h, expPart_append h]
    split
    · split <;> rfl
    · rfl

theorem signPart_split (signs cs : List Char) :
    cs = (signPart signs cs).1 ++ (signPart signs cs).2 := by
  cases cs with
  | nil => rfl
  | cons c rest =>
    simp only [signPart]
    split <;> rfl

theorem intPart_split {digits rest : List Char} (h : intPart cs = some (digits, rest)) :
    cs = digits ++ rest ∧ digits ≠ [] := by
  cases cs with
  | nil => cases h
  | cons c tail =>
    simp only [intPart] at h
    split at h
    · rename_i hzero
      obtain ⟨rfl, rfl⟩ := Prod.mk.inj (Option.some.inj h)
      exact ⟨by rw [hzero]; rfl, by simp⟩
    · split at h
      · obtain ⟨rfl, rfl⟩ := Prod.mk.inj (Option.some.inj h)
        exact ⟨by rw [List.cons_append, List.takeWhile_append_dropWhile], by simp⟩
      · cases h

theorem fracPart_split (cs : List Char) : cs = (fracPart cs).1 ++ (fracPart cs).2 := by
  cases cs with
  | nil => rfl
  | cons c rest =>
    simp only [fracPart]
    split
    · rw [List.cons_append, List.takeWhile_append_dropWhile]
    · rfl

theorem expPart_split (cs : List Char) : cs = (expPart cs).1 ++ (expPart cs).2 := by
  cases cs with
  | nil => rfl
  | cons c rest =>
    simp only [expPart]
    split
    · show c :: rest = c :: (((signPart ['-', '+'] rest).1 ++ _) ++ _)
      rw [List.append_assoc, List.takeWhile_append_dropWhile, ← signPart_split]
    · rfl

theorem matchNumber_split {rest : List Char} {v : Scalar} (h : matchNumber cs = some (v, rest)) :
    ∃ token, cs = token ++ rest ∧ token ≠ [] := by
  obtain ⟨⟨digits, rest'⟩, hdigits, h⟩ := Option.bind_eq_some_iff.mp h
  obtain ⟨hint, hne⟩ := intPart_split hdigits
  have hrest : rest = (expPart (fracPart rest').2).2 := by
    simp only at h
    split at h
    · split at h
      · exact (Prod.mk.inj (Option.some.inj h)).2.symm
      · cases h
    · exact (Prod.mk.inj (Option.some.inj h)).2.symm
  refine ⟨(signPart ['-'] cs).1 ++ digits ++ (fracPart rest').1 ++ (expPart (fracPart rest').2).1,
    ?_, by simp [hne]⟩
  calc cs = (signPart ['-'] cs).1 ++ (signPart ['-'] cs).2 := signPart_split _ _
    _ = (signPart ['-'] cs).1 ++ (digits ++ rest') := by rw [hint]
    _ = (signPart ['-'] cs).1 ++ (digits ++ ((fracPart rest').1 ++ (fracPart rest').2)) := by
      rw [← fracPart_split]
    _ = (signPart ['-'] cs).1 ++ (digits ++ ((fracPart rest').1 ++
          ((expPart (fracPart rest').2).1 ++ rest))) := by
      rw [hrest, ← expPart_split]
    _ = _ := by simp only [List.append_assoc]

/-! ## Tokens -/

/-- Text that is scanned as this scalar in front of every delimiter. -/
def Token (v : Scalar) (token : List Char) : Prop :=
  token ≠ [] ∧ ∀ post, Delimited post → scanOnce (token ++ post) = some (v, post)

/-- A scalar begins with a quote, a digit, a minus sign or a letter. -/
theorem scanOnce_head {c : Char} {rest : List Char} {r : Scalar × List Char}
    (h : scanOnce (c :: rest) = some r) : isDelimiter c = false ∧ c ≠ '{' ∧ c ≠ '[' := by
  simp only [scanOnce] at h
  split at h
  · rename_i hquote
    subst hquote
    decide
  · cases hliteral : scanLiteral (c :: rest) with
    | some r' =>
      obtain ⟨word, hword, hsplit⟩ :=
        scanLiteral_split (show scanLiteral (c :: rest) = some (r'.1, r'.2) from hliteral)
      simp only [literals, List.mem_cons, List.not_mem_nil, or_false, Prod.mk.injEq] at hword
      rcases hword with ⟨rfl, -⟩ | ⟨rfl, -⟩ | ⟨rfl, -⟩ | ⟨rfl, -⟩ | ⟨rfl, -⟩ | ⟨rfl, -⟩ <;>
        (obtain ⟨rfl, -⟩ := List.cons.inj hsplit; decide)
    | none =>
      rw [hliteral] at h
      obtain ⟨digits, hdigits, -⟩ := Option.bind_eq_some_iff.mp h
      simp only [signPart] at hdigits
      split at hdigits
      · rename_i hsign
        rw [List.mem_singleton.mp hsign]
        decide
      · have hdigit : c.isDigit = true := by
          simp only [intPart] at hdigits
          split at hdigits
          · rename_i hzero
            rw [hzero]
            decide
          · split at hdigits
            · assumption
            · cases hdigits
        have hdelimiters : ∀ d, d.isDigit = false → c ≠ d := by
          rintro d hd rfl
          rw [hd] at hdigit
          cases hdigit
        refine ⟨?_, hdelimiters _ (by decide), hdelimiters _ (by decide)⟩
        simp [isDelimiter, hdelimiters]

theorem Token.head {v : Scalar} {token : List Char} (h : Token v token) :
    ∃ c tail, token = c :: tail ∧ isDelimiter c = false ∧ c ≠ '{' ∧ c ≠ '[' := by
  obtain ⟨hne, htoken⟩ := h
  obtain ⟨c, tail, rfl⟩ := List.exists_cons_of_ne_nil hne
  exact ⟨c, tail, rfl, scanOnce_head (htoken [] (by simp [Delimited]))⟩

/-- A literal is no number. -/
theorem matchNumber_literal {word rest : List Char} {v : Scalar} (h : (word, v) ∈ literals) :
    matchNumber (word ++ rest) = none := by
  simp only [literals, List.mem_cons, List.not_mem_nil, or_false, Prod.mk.injEq] at h
  rcases h with ⟨rfl, -⟩ | ⟨rfl, -⟩ | ⟨rfl, -⟩ | ⟨rfl, -⟩ | ⟨rfl, -⟩ | ⟨rfl, -⟩ <;> rfl

theorem scanLiteral_none {r : Scalar × List Char} (h : matchNumber cs = some r) :
    scanLiteral cs = none := by
  rw [Option.eq_none_iff_forall_ne_some]
  rintro ⟨v, rest⟩ hliteral
  obtain ⟨word, hword, rfl⟩ := scanLiteral_split hliteral
  rw [matchNumber_literal hword] at h
  cases h

theorem scanLiteral_word {word : List Char} {v : Scalar} (h : (word, v) ∈ literals)
    (post : List Char) : scanLiteral (word ++ post) = some (v, post) := by
  simp only [literals, List.mem_cons, List.not_mem_nil, or_false, Prod.mk.injEq] at h
  rcases h with ⟨rfl, rfl⟩ | ⟨rfl, rfl⟩ | ⟨rfl, rfl⟩ | ⟨rfl, rfl⟩ | ⟨rfl, rfl⟩ | ⟨rfl, rfl⟩ <;> rfl

theorem literal_cons {word : List Char} {v : Scalar} (h : (word, v) ∈ literals) :
    ∃ c tail, word = c :: tail ∧ c ≠ '"' := by
  simp only [literals, List.mem_cons, List.not_mem_nil, or_false, Prod.mk.injEq] at h
  rcases h with ⟨rfl, -⟩ | ⟨rfl, -⟩ | ⟨rfl, -⟩ | ⟨rfl, -⟩ | ⟨rfl, -⟩ | ⟨rfl, -⟩ <;>
    exact ⟨_, _, rfl, by decide⟩

/-- What was scanned up to a delimiter is a token. -/
theorem scanOnce_token {rest : List Char} {v : Scalar} (h : scanOnce cs = some (v, rest)) :
    ∃ token, cs = token ++ rest ∧ (Delimited rest → Token v token) := by
  cases cs with
  | nil => cases h
  | cons c tail =>
    simp only [scanOnce] at h
    split at h
    · rename_i hquote
      subst hquote
      obtain ⟨⟨us, rest'⟩, hunits, heq⟩ := Option.map_eq_some_iff.mp h
      obtain ⟨rfl, rfl⟩ := Prod.mk.inj heq
      obtain ⟨token, rfl, htoken⟩ := units_split hunits
      refine ⟨'"' :: token, rfl, fun _ => ⟨by simp, fun post _ => ?_⟩⟩
      show scanOnce ('"' :: (token ++ post)) = _
      rw [scanOnce, if_pos rfl, htoken post]
      rfl
    · rename_i hquote
      cases hliteral : scanLiteral (c :: tail) with
      | some r =>
        rw [hliteral] at h
        obtain rfl : r = (v, rest) := Option.some.inj h
        obtain ⟨word, hword, hsplit⟩ := scanLiteral_split hliteral
        obtain ⟨d, ds, rfl, hd⟩ := literal_cons hword
        refine ⟨d :: ds, hsplit, fun _ => ⟨by simp, fun post _ => ?_⟩⟩
        have hscan := scanLiteral_word hword post
        show scanOnce (d :: (ds ++ post)) = _
        rw [List.cons_append] at hscan
        rw [scanOnce, if_neg hd, hscan]
        rfl
      | none =>
        rw [hliteral] at h
        have hnumber : matchNumber (c :: tail) = some (v, rest) := h
        obtain ⟨token, hsplit, hne⟩ := matchNumber_split hnumber
        refine ⟨token, hsplit, fun hrest => ⟨hne, fun post hpost => ?_⟩⟩
        -- the token alone is the number, so it is one in front of any delimiter
        have htoken : matchNumber token = some (v, []) := by
          rw [hsplit, matchNumber_append hrest.stops] at hnumber
          obtain ⟨⟨v', r⟩, htoken, heq⟩ := Option.map_eq_some_iff.mp hnumber
          obtain ⟨rfl, hr⟩ := Prod.mk.inj heq
          obtain rfl : r = [] := List.append_left_eq_self.mp hr
          exact htoken
        have hpostNumber : matchNumber (token ++ post) = some (v, post) := by
          rw [matchNumber_append hpost.stops, htoken]
          rfl
        obtain ⟨d, ds, rfl⟩ := List.exists_cons_of_ne_nil hne
        obtain rfl : c = d := (List.cons.inj hsplit).1
        have hnone := scanLiteral_none hpostNumber
        rw [List.cons_append] at hpostNumber hnone ⊢
        rw [scanOnce, if_neg hquote, hnone]
        exact hpostNumber

/-! ## What `dumps` writes is a token -/

theorem hexUnit_control : ∀ n < 32,
    hexUnit '0' '0' (Nat.digitChar (n / 16)) (Nat.digitChar (n % 16)) = some n := by
  decide +kernel

/-- An escaped character is read back. -/
theorem units_escapeChar (c : Char) (rest : List Char) :
    units (escapeChar c ++ rest) = (units rest).map fun r => (c.toNat :: r.1, r.2) := by
  have hescape : ∀ e n, e ≠ 'u' → backslash e = some n → c.toNat = n →
      units ('\\' :: e :: rest) = (units rest).map fun r => (c.toNat :: r.1, r.2) := by
    intro e n he hbackslash hn
    rw [units_escape he, hbackslash, hn]
    rfl
  rw [escapeChar]
  split
  · rename_i h
    exact hescape '"' 34 (by decide) (by decide) (by rw [h]; rfl)
  rename_i hquote
  split
  · rename_i h
    exact hescape '\\' 92 (by decide) (by decide) (by rw [h]; rfl)
  rename_i hslash
  split
  · rename_i h
    exact hescape 'n' 10 (by decide) (by decide) (by rw [h]; rfl)
  split
  · rename_i h
    exact hescape 'r' 13 (by decide) (by decide) (by rw [h]; rfl)
  split
  · rename_i h
    exact hescape 't' 9 (by decide) (by decide) (by rw [h]; rfl)
  split
  · rename_i h
    exact hescape 'f' 12 (by decide) (by decide) h
  split
  · rename_i h
    exact hescape 'b' 8 (by decide) (by decide) h
  split
  · rename_i hcontrol
    show units ('\\' :: 'u' :: '0' :: '0' :: _ :: _ :: rest) = _
    rw [units_hex, hexUnit_control _ hcontrol]
    rfl
  · rename_i hcontrol
    exact units_plain hquote hslash (by omega) rest

/-- Characters are no surrogates, so none of them combine. -/
theorem combine_chars (s : List Char) : combine (s.map Char.toNat) = s.map Char.toNat := by
  induction s with
  | nil => rfl
  | cons a rest ih =>
    cases rest with
    | nil => rfl
    | cons b rest =>
      have hvalid : ¬(0xd800 ≤ a.toNat ∧ a.toNat ≤ 0xdbff ∧ 0xdc00 ≤ b.toNat ∧
          b.toNat ≤ 0xdfff) := by
        rintro ⟨hlow, hhigh, -, -⟩
        have hval : a.val.toNat = a.toNat := rfl
        rcases a.valid with h | ⟨h, -⟩
        · exact absurd h (by omega)
        · exact absurd h (by omega)
      rw [List.map_cons, List.map_cons, combine, if_neg hvalid, ← List.map_cons, ih,
        List.map_cons]

/-- `scan_once` reads what `dumps` writes. -/
theorem dumpsStr_token (s : List Char) : Token (.str (s.map Char.toNat)) (dumpsStr s) := by
  refine ⟨by simp [dumpsStr], fun post _ => ?_⟩
  have hunits : units (s.flatMap escapeChar ++ '"' :: post) = some (s.map Char.toNat, post) := by
    induction s with
    | nil => exact units_quote post
    | cons c rest ih =>
      rw [List.flatMap_cons, List.append_assoc, units_escapeChar, ih]
      rfl
  have hlist : dumpsStr s ++ post = '"' :: (s.flatMap escapeChar ++ '"' :: post) := by
    simp [dumpsStr]
  rw [hlist, scanOnce, if_pos rfl, hunits, Option.map_some, combine_chars]

theorem intPart_digits {digits : List Char} (h : CanonicalDigits digits) :
    intPart digits = some (digits, []) := by
  obtain ⟨c, rest, rfl⟩ := List.exists_cons_of_ne_nil h.ne_nil
  by_cases hzero : c = '0'
  · subst hzero
    obtain rfl : rest = [] := (List.cons.inj (h.lead rfl)).2
    rfl
  · have hrest : ∀ d ∈ rest, d.isDigit = true := fun d hd => h.digits d (List.mem_cons_of_mem _ hd)
    rw [intPart, if_neg hzero, if_pos (h.digits c List.mem_cons_self)]
    rw [List.takeWhile_eq_self_iff.mpr hrest, List.dropWhile_eq_nil_iff.mpr hrest]

theorem signPart_digits {digits : List Char} (h : CanonicalDigits digits) :
    signPart ['-'] digits = ([], digits) := by
  obtain ⟨c, rest, rfl⟩ := List.exists_cons_of_ne_nil h.ne_nil
  have hsign : c ∉ ['-'] := by
    intro hc
    have hdigit := h.digits c List.mem_cons_self
    rw [List.mem_singleton.mp hc] at hdigit
    exact absurd hdigit (by decide)
  rw [signPart, if_neg hsign]

/-- The number that a text of at most `maxStrDigits` digits denotes. -/
theorem matchNumber_digits {m : Nat} (h : (Nat.toDigits 10 m).length ≤ maxStrDigits) :
    matchNumber (Nat.toDigits 10 m) = some (.int m, []) ∧
      matchNumber ('-' :: Nat.toDigits 10 m) = some (.int (-m), []) := by
  have hcanonical := canonicalDigits_toDigits m
  have hint := intPart_digits hcanonical
  constructor
  · rw [matchNumber, signPart_digits hcanonical]
    simp [hint, fracPart, expPart, h]
  · have hsign : signPart ['-'] ('-' :: Nat.toDigits 10 m) = (['-'], Nat.toDigits 10 m) := rfl
    rw [matchNumber, hsign]
    simp [hint, fracPart, expPart, h]

theorem matchNumber_dumpsInt {n : Int} {text : List Char} (h : dumpsInt n = some text) :
    matchNumber text = some (.int n, []) := by
  obtain ⟨s, hs, rfl⟩ := Option.map_eq_some_iff.mp h
  rw [pyStr] at hs
  split at hs
  · rename_i hlength
    obtain rfl := Option.some.inj hs
    obtain ⟨hpos, hneg⟩ := matchNumber_digits hlength
    cases n with
    | ofNat m =>
      rw [toString_ofNat, Nat.toList_repr]
      exact hpos
    | negSucc m =>
      rw [toString_negSucc, String.toList_append, Nat.toList_repr]
      exact hneg
  · cases hs

theorem dumpsInt_token {n : Int} {text : List Char} (h : dumpsInt n = some text) :
    Token (.int n) text := by
  have hnumber := matchNumber_dumpsInt h
  obtain ⟨token, hsplit, hne⟩ := matchNumber_split hnumber
  rw [List.append_nil] at hsplit
  subst hsplit
  refine ⟨hne, fun post hpost => ?_⟩
  obtain ⟨c, tail, rfl⟩ := List.exists_cons_of_ne_nil hne
  have hpostNumber : matchNumber (c :: tail ++ post) = some (.int n, post) := by
    rw [matchNumber_append hpost.stops, hnumber]
    rfl
  have hquote : c ≠ '"' := by
    rintro rfl
    cases hnumber
  have hnone := scanLiteral_none hpostNumber
  rw [List.cons_append] at hpostNumber hnone ⊢
  rw [scanOnce, if_neg hquote, hnone]
  exact hpostNumber

end JsonScan
