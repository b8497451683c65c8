/-
  McpVenusOs.Lib.PyInt

  Python's conversions between integers and decimal text: `str(n)` and `int(s)`.

  `int` accepts more than `str` writes: surrounding space, a plus sign, leading
  zeros, single underscores between digits, and the decimal digits of any script.
  Both raise `ValueError` beyond 4300 digits.  `pyInt_pyStr` is the round trip;
  the other direction fails, and a text for which it holds is `Canonical`.
-/

import Mathlib.Data.List.Induction
import McpVenusOs.Lib.PyValue

namespace Py

/-- `sys.get_int_max_str_digits()` -/
def maxStrDigits : Nat := 4300

/-- `str(n)`; `none` is a `ValueError`. -/
def pyStr (n : Int) : Option String :=
  if (Nat.toDigits 10 n.natAbs).length ≤ maxStrDigits then some (toString n) else none

theorem pyStr_eq {n : Int} {s : String} (h : pyStr n = some s) : s = toString n := by
  rw [pyStr] at h
  split at h
  · exact (Option.some.inj h).symm
  · cases h

/-! ## `int(s)` -/

/-- What `int` makes of one character: a space, an ASCII digit, or a character
    that is neither.  `decimal` is the digit value beyond ASCII. -/
def asciiChar (decimal : Char → Option Nat) (c : Char) : Char :=
  if c.toNat < 127 then c
  else if isSpace c then ' '
  else match decimal c with
    | some d => Nat.digitChar d
    | none => '?'

/-- `isspace` of the C locale. -/
def isAsciiSpace (c : Char) : Bool := (9 ≤ c.toNat && c.toNat ≤ 13) || c = ' '

def trim (cs : List Char) : List Char :=
  ((cs.dropWhile isAsciiSpace).reverse.dropWhile isAsciiSpace).reverse

/-- The digits of a number without sign: underscores stand between digits only. -/
def digitsOf (body : List Char) : Option Nat :=
  let groups := body.splitOn '_'
  if groups.all (fun g => !g.isEmpty && g.all Char.isDigit) ∧
      groups.flatten.length ≤ maxStrDigits then
    some (Nat.ofDigitChars 10 groups.flatten 0)
  else none

/-- `int(s)` of a text; `none` is a `ValueError`. -/
def pyInt (decimal : Char → Option Nat) (s : String) : Option Int :=
  match trim (s.toList.map (asciiChar decimal)) with
  | '-' :: body => (digitsOf body).map fun n => -Int.ofNat n
  | '+' :: body => (digitsOf body).map Int.ofNat
  | body => (digitsOf body).map Int.ofNat

/-- A text that `int` reads, if at all, as the number whose text it is. -/
def Canonical (decimal : Char → Option Nat) (s : String) : Prop :=
  ∀ n, pyInt decimal s = some n → s = toString n

instance (decimal : Char → Option Nat) (s : String) : Decidable (Canonical decimal s) :=
  match h : pyInt decimal s with
  | none => .isTrue fun n hn => by simp [h] at hn
  | some n =>
    if hs : s = toString n then .isTrue fun m hm => by simp_all
    else .isFalse fun hc => hs (hc n h)

/-! ## The text of an integer -/

theorem toString_ofNat (n : Nat) : toString (Int.ofNat n) = n.repr := rfl

theorem toString_negSucc (n : Nat) : toString (Int.negSucc n) = "-" ++ (n + 1).repr := rfl

theorem toString_int_injective {m n : Int} (h : toString m = toString n) : m = n := by
  -- no digit is a minus sign, so the sign can be read off the text
  have hsign : ∀ (a b : Nat), Nat.toDigits 10 a ≠ '-' :: Nat.toDigits 10 b := by
    intro a b hab
    have hmem : '-' ∈ Nat.toDigits 10 a := by rw [hab]; exact List.mem_cons_self
    have hdigit := Nat.isDigit_of_mem_toDigits (by decide) (by decide) hmem
    exact absurd hdigit (by decide)
  have hlist := congrArg String.toList h
  cases m with
  | ofNat a =>
    cases n with
    | ofNat b =>
      rw [toString_ofNat, toString_ofNat, Nat.toList_repr, Nat.toList_repr] at hlist
      have hvalue := congrArg (Nat.ofDigitChars 10 · 0) hlist
      simp only [Nat.ofDigitChars_ten_toDigits] at hvalue
      rw [hvalue]
    | negSucc b =>
      rw [toString_ofNat, toString_negSucc, String.toList_append, Nat.toList_repr,
        Nat.toList_repr] at hlist
      exact absurd hlist (hsign a (b + 1))
  | negSucc a =>
    cases n with
    | ofNat b =>
      rw [toString_ofNat, toString_negSucc, String.toList_append, Nat.toList_repr,
        Nat.toList_repr] at hlist
      exact absurd hlist.symm (hsign b (a + 1))
    | negSucc b =>
      rw [toString_negSucc, toString_negSucc, String.toList_append, String.toList_append,
        Nat.toList_repr, Nat.toList_repr] at hlist
      have htail := List.append_cancel_left hlist
      have hvalue := congrArg (Nat.ofDigitChars 10 · 0) htail
      simp only [Nat.ofDigitChars_ten_toDigits, Nat.add_right_cancel_iff] at hvalue
      rw [hvalue]

/-- The text of an integer consists of digits and a minus sign. -/
theorem notMem_toString {c : Char} (hdigit : c.isDigit = false) (hminus : c ≠ '-') (n : Int) :
    c ∉ (toString n).toList := by
  have hdigits : ∀ m, c ∉ Nat.toDigits 10 m := by
    intro m hc
    rw [Nat.isDigit_of_mem_toDigits (by decide) (by decide) hc] at hdigit
    cases hdigit
  cases n with
  | ofNat m =>
    rw [toString_ofNat, Nat.toList_repr]
    exact hdigits m
  | negSucc m =>
    rw [toString_negSucc, String.toList_append, Nat.toList_repr, List.mem_append, not_or]
    refine ⟨?_, hdigits (m + 1)⟩
    show c ∉ ['-']
    rwa [List.mem_singleton]

/-! ## Round trip -/

variable {decimal : Char → Option Nat}

/-- A character of a number is ASCII and no space. -/
theorem asciiChar_of_isDigit {c : Char} (h : c.isDigit = true) : asciiChar decimal c = c := by
  have hrange := Char.isDigit_iff_toNat.mp h
  have hlt : c.toNat < 127 := by
    have h9 : '9'.toNat = 57 := rfl
    omega
  rw [asciiChar, if_pos hlt]

theorem isAsciiSpace_of_isDigit {c : Char} (h : c.isDigit = true) : isAsciiSpace c = false := by
  have hrange := Char.isDigit_iff_toNat.mp h
  have h0 : '0'.toNat = 48 := rfl
  have hne : c ≠ ' ' := by
    rintro rfl
    exact absurd h (by decide)
  simp only [isAsciiSpace, hne, decide_false, Bool.or_false, Bool.and_eq_false_iff,
    decide_eq_false_iff_not]
  omega

/-- A text that starts and ends without a space is not trimmed. -/
theorem trim_of_ends {cs : List Char} (hhead : ∀ c ∈ cs.head?, isAsciiSpace c = false)
    (hlast : ∀ c ∈ cs.getLast?, isAsciiSpace c = false) : trim cs = cs := by
  have hdrop : ∀ l : List Char, (∀ c ∈ l.head?, isAsciiSpace c = false) →
      l.dropWhile isAsciiSpace = l := by
    intro l hl
    cases l with
    | nil => rfl
    | cons c l =>
      have hc : isAsciiSpace c = false := hl c rfl
      rw [List.dropWhile_cons_of_neg (by simp [hc])]
  have hreverse : ∀ c ∈ cs.reverse.head?, isAsciiSpace c = false := by
    rw [List.head?_reverse]
    exact hlast
  rw [trim, hdrop cs hhead, hdrop cs.reverse hreverse, List.reverse_reverse]

theorem digitsOf_toDigits {n : Nat} (h : (Nat.toDigits 10 n).length ≤ maxStrDigits) :
    digitsOf (Nat.toDigits 10 n) = some n := by
  have hsplit : (Nat.toDigits 10 n).splitOn '_' = [Nat.toDigits 10 n] :=
    List.splitOn_eq_singleton Nat.underscore_not_in_toDigits
  have hdigits : (Nat.toDigits 10 n).all Char.isDigit = true := by
    rw [List.all_eq_true]
    intro c hc
    exact Nat.isDigit_of_mem_toDigits (by decide) (by decide) hc
  have hne : (Nat.toDigits 10 n).isEmpty = false := by
    rw [List.isEmpty_eq_false_iff]
    exact Nat.toDigits_ne_nil
  simp [digitsOf, hsplit, hdigits, hne, h]

/-- The characters of an integer's text: an optional minus sign and digits. -/
theorem trim_digits (n : Nat) {sign : List Char} (hsign : sign = [] ∨ sign = ['-']) :
    trim ((sign ++ Nat.toDigits 10 n).map (asciiChar decimal)) = sign ++ Nat.toDigits 10 n := by
  have hdigit : ∀ c ∈ Nat.toDigits 10 n, c.isDigit = true := fun c hc =>
    Nat.isDigit_of_mem_toDigits (by decide) (by decide) hc
  have hmap : (sign ++ Nat.toDigits 10 n).map (asciiChar decimal) = sign ++ Nat.toDigits 10 n := by
    have hdigits : (Nat.toDigits 10 n).map (asciiChar decimal) = Nat.toDigits 10 n := by
      rw [List.map_congr_left fun c hc => asciiChar_of_isDigit (hdigit c hc), List.map_id']
    rw [List.map_append, hdigits]
    rcases hsign with rfl | rfl <;> rfl
  rw [hmap]
  apply trim_of_ends
  · intro c hc
    rcases hsign with rfl | rfl
    · exact isAsciiSpace_of_isDigit (hdigit c (List.mem_of_mem_head? hc))
    · obtain rfl : '-' = c := by simpa using hc
      rfl
  · intro c hc
    rw [List.getLast?_append, List.getLast?_eq_some_getLast Nat.toDigits_ne_nil,
      Option.some_or] at hc
    obtain rfl : (Nat.toDigits 10 n).getLast Nat.toDigits_ne_nil = c := by simpa using hc
    exact isAsciiSpace_of_isDigit (hdigit _ (List.getLast_mem _))

/-- `int(str(n)) = n` -/
theorem pyInt_pyStr {n : Int} {s : String} (h : pyStr n = some s) : pyInt decimal s = some n := by
  simp only [pyStr, Option.ite_none_right_eq_some, Option.some.injEq] at h
  obtain ⟨hlength, rfl⟩ := h
  cases n with
  | ofNat m =>
    rw [Int.ofNat_eq_natCast, Int.natAbs_natCast] at hlength
    have hchars : (toString (Int.ofNat m)).toList = [] ++ Nat.toDigits 10 m := by
      rw [toString_ofNat, Nat.toList_repr, List.nil_append]
    rw [pyInt, hchars, trim_digits m (.inl rfl), List.nil_append]
    -- the text of a natural number has no sign
    split
    · rename_i body heq
      have hmem : '-' ∈ Nat.toDigits 10 m := by rw [heq]; exact List.mem_cons_self
      exact absurd (Nat.isDigit_of_mem_toDigits (by decide) (by decide) hmem) (by decide)
    · rename_i body heq
      have hmem : '+' ∈ Nat.toDigits 10 m := by rw [heq]; exact List.mem_cons_self
      exact absurd (Nat.isDigit_of_mem_toDigits (by decide) (by decide) hmem) (by decide)
    · rw [digitsOf_toDigits hlength]
      rfl
  | negSucc m =>
    rw [Int.natAbs_negSucc] at hlength
    have hchars : (toString (Int.negSucc m)).toList = ['-'] ++ Nat.toDigits 10 (m + 1) := by
      rw [toString_negSucc, String.toList_append, Nat.toList_repr]
      rfl
    rw [pyInt, hchars, trim_digits (m + 1) (.inr rfl)]
    -- the sign is read off
    show (digitsOf (Nat.toDigits 10 (m + 1))).map (fun n => -Int.ofNat n) = _
    rw [digitsOf_toDigits hlength]
    rfl

theorem ofDigitChars_lt {cs : List Char} (h : ∀ c ∈ cs, c.isDigit = true) (init : Nat) :
    Nat.ofDigitChars 10 cs init < (init + 1) * 10 ^ cs.length := by
  induction cs generalizing init with
  | nil => simp
  | cons c cs ih =>
    have hc := Char.isDigit_iff_toNat.mp (h c List.mem_cons_self)
    have h9 : '9'.toNat = 57 := rfl
    have h0 : '0'.toNat = 48 := rfl
    have hhead : 10 * init + (c.toNat - '0'.toNat) + 1 ≤ (init + 1) * 10 := by omega
    rw [Nat.ofDigitChars_cons, List.length_cons, Nat.pow_succ']
    calc Nat.ofDigitChars 10 cs (10 * init + (c.toNat - '0'.toNat))
        < (10 * init + (c.toNat - '0'.toNat) + 1) * 10 ^ cs.length :=
          ih (fun d hd => h d (List.mem_cons_of_mem c hd)) _
      _ ≤ (init + 1) * 10 * 10 ^ cs.length := Nat.mul_le_mul_right _ hhead
      _ = (init + 1) * (10 * 10 ^ cs.length) := Nat.mul_assoc _ _ _

/-- What `int` reads has a text again. -/
theorem pyStr_of_pyInt {s : String} {n : Int} (h : pyInt decimal s = some n) :
    pyStr n = some (toString n) := by
  -- the digits that were read bound the number
  have hdigits : ∀ {body m}, digitsOf body = some m →
      (Nat.toDigits 10 m).length ≤ maxStrDigits := by
    intro body m hm
    simp only [digitsOf, Option.ite_none_right_eq_some, Option.some.injEq] at hm
    obtain ⟨⟨hall, hlength⟩, rfl⟩ := hm
    rw [Nat.length_toDigits_le_iff (by decide) (by decide)]
    have hchars : ∀ c ∈ (body.splitOn '_').flatten, c.isDigit = true := by
      intro c hc
      obtain ⟨group, hgroup, hmem⟩ := List.mem_flatten.mp hc
      have hg := List.all_eq_true.mp hall group hgroup
      rw [Bool.and_eq_true] at hg
      exact List.all_eq_true.mp hg.2 c hmem
    -- so many digits make a number below that power of ten
    calc Nat.ofDigitChars 10 (body.splitOn '_').flatten 0
        < (0 + 1) * 10 ^ (body.splitOn '_').flatten.length := ofDigitChars_lt hchars 0
      _ ≤ 10 ^ maxStrDigits := by
        rw [Nat.zero_add, Nat.one_mul]
        exact Nat.pow_le_pow_right (by decide) hlength
  -- whatever the sign, the digits are those of the magnitude
  have habs : ∃ body m, digitsOf body = some m ∧ n.natAbs = m := by
    rw [pyInt] at h
    split at h <;> obtain ⟨m, hm, rfl⟩ := Option.map_eq_some_iff.mp h
    · exact ⟨_, m, hm, by simp⟩
    · exact ⟨_, m, hm, rfl⟩
    · exact ⟨_, m, hm, rfl⟩
  obtain ⟨body, m, hm, hn⟩ := habs
  rw [pyStr, hn, if_pos (hdigits hm)]

/-! ## Canonical digits -/

/-- The digits of a nonnegative decimal number, without leading zeros. -/
structure CanonicalDigits (cs : List Char) : Prop where
  ne_nil : cs ≠ []
  digits : ∀ c ∈ cs, c.isDigit = true
  lead : cs.head? = some '0' → cs = ['0']

theorem head?_append_of_ne_nil {cs : List Char} (h : cs ≠ []) (ds : List Char) :
    (cs ++ ds).head? = cs.head? := by
  obtain ⟨c, cs, rfl⟩ := List.exists_cons_of_ne_nil h
  rfl

theorem canonicalDigits_toDigits (n : Nat) : CanonicalDigits (Nat.toDigits 10 n) := by
  refine ⟨Nat.toDigits_ne_nil, fun c hc => ?_, ?_⟩
  · exact Nat.isDigit_of_mem_toDigits (by decide) (by decide) hc
  · induction n using Nat.strongRecOn with
    | ind n ih =>
      intro hlead
      rcases Nat.lt_or_ge n 10 with hlt | hge
      · rw [Nat.toDigits_of_lt_base hlt] at hlead ⊢
        rw [Option.some.inj hlead]
      · -- the leading digit is the one of a tenth, which is not zero
        rw [Nat.toDigits_of_base_le (by decide) hge,
          head?_append_of_ne_nil Nat.toDigits_ne_nil] at hlead
        have htenth := ih (n / 10) (Nat.div_lt_self (by omega) (by decide)) hlead
        have hvalue := congrArg (Nat.ofDigitChars 10 · 0) htenth
        simp only [Nat.ofDigitChars_ten_toDigits] at hvalue
        have hzero : Nat.ofDigitChars 10 ['0'] 0 = 0 := by decide
        omega

theorem digitChar_of_isDigit {c : Char} (h : c.isDigit = true) :
    c.toNat - '0'.toNat < 10 ∧ Nat.digitChar (c.toNat - '0'.toNat) = c := by
  obtain ⟨hlow, hhigh⟩ := Char.isDigit_iff_toNat.mp h
  have h0 : '0'.toNat = 48 := rfl
  have h9 : '9'.toNat = 57 := rfl
  have hlt : c.toNat - '0'.toNat < 10 := by omega
  refine ⟨hlt, ?_⟩
  rw [← Char.toNat_inj]
  have hvalue := Nat.toNat_digitChar_sub_48_of_lt_ten hlt
  have hdigit : (Nat.digitChar (c.toNat - '0'.toNat)).isDigit = true := by
    rw [Nat.isDigit_digitChar, decide_eq_true hlt]
  have hrange := Char.isDigit_iff_toNat.mp hdigit
  omega

/-- Canonical digits are the text of the number they denote. -/
theorem toDigits_ofDigitChars {cs : List Char} (h : CanonicalDigits cs) :
    Nat.toDigits 10 (Nat.ofDigitChars 10 cs 0) = cs := by
  induction cs using List.reverseRecOn with
  | nil => exact absurd rfl h.ne_nil
  | append_singleton init d ih =>
    obtain ⟨hlt, hd⟩ := digitChar_of_isDigit (h.digits d (by simp))
    rw [Nat.ofDigitChars_append, Nat.ofDigitChars_cons, Nat.ofDigitChars_nil]
    by_cases hinit : init = []
    · rw [hinit, Nat.ofDigitChars_nil, Nat.mul_zero, Nat.zero_add, Nat.toDigits_of_lt_base hlt, hd]
      rfl
    -- with digits before the last one there is no leading zero
    · have hnonzero : init.head? ≠ some '0' := by
        intro hhead
        have hall := h.lead (by rw [head?_append_of_ne_nil hinit, hhead])
        have hlength := congrArg List.length hall
        rw [List.length_append, List.length_singleton, List.length_singleton] at hlength
        exact hinit (List.eq_nil_of_length_eq_zero (by omega))
      have hcanonical : CanonicalDigits init :=
        ⟨hinit, fun c hc => h.digits c (List.mem_append_left _ hc), fun hhead =>
          absurd hhead hnonzero⟩
      have hdigits := ih hcanonical
      -- and the number they make is not zero
      have hpos : 0 < Nat.ofDigitChars 10 init 0 := by
        rw [Nat.pos_iff_ne_zero]
        intro hzero
        rw [hzero, Nat.toDigits_zero] at hdigits
        exact hnonzero (by rw [← hdigits]; rfl)
      rw [← Nat.toDigits_append_toDigits (by decide) hpos hlt, hdigits,
        Nat.toDigits_of_lt_base hlt, hd]

end Py
