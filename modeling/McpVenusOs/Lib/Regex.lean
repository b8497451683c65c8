/-
  McpVenusOs.Lib.Regex

  Python regular expressions as `re.search` with `IGNORECASE` reads them: ASCII
  literals, `.`, `\s`, `\b`, `$`, groups `(?:..)`, alternatives and the
  quantifiers `*`, `+`, `?`.

  A position in a text is what follows it, with whether a word character stands
  before it; nothing else of the left context matters.  `run` computes the
  positions a match from a position can end at, `Reaches` is the same as a
  relation (`mem_run`).  `Reaches.extend` and `Reaches.shrink` say when what
  follows the text does not matter either.
-/

import Mathlib.Logic.Relation
import Mathlib.Data.List.Infix
import McpVenusOs.Lib.PyValue

namespace Py

/-! ## Syntax -/

inductive CharClass
  | lit (c : Char)
  /-- `\s` -/
  | space
  /-- `.` -/
  | dot
  deriving DecidableEq

inductive Regex
  | empty
  | char (k : CharClass)
  /-- `\b` -/
  | boundary
  /-- `$` -/
  | atEnd
  | seq (a b : Regex)
  | alt (a b : Regex)
  | star (a : Regex)
  deriving DecidableEq

namespace Regex

/-- An open group: the alternatives so far and the items of the last one, the
    latest first, each with whether a quantifier may follow it. -/
structure Frame where
  alts : List Regex := []
  items : List (Regex × Bool) := []

def Frame.push (f : Frame) (r : Regex) (repeatable : Bool) : Frame :=
  { f with items := (r, repeatable) :: f.items }

/-- The items of an alternative, in sequence. -/
def Frame.sequence (f : Frame) : Regex :=
  match f.items.reverse with
  | [] => .empty
  | item :: items => items.foldl (fun a item => .seq a item.1) item.1

/-- The group, once it is closed. -/
def Frame.close (f : Frame) : Regex := f.alts.foldl (fun a b => .alt b a) f.sequence

/-- Put a quantifier on the last item. -/
def Frame.quantify (f : Frame) (quantifier : Regex → Regex) : Option Frame :=
  match f.items with
  | (r, true) :: items => some { f with items := (quantifier r, false) :: items }
  | _ => none

def Frame.bar (f : Frame) : Frame := { alts := f.sequence :: f.alts }

/-- Characters with a meaning that is not modelled, or none of their own. -/
def unsupported : List Char := ['(', ')', '[', ']', '{', '}', '^', '\\']

/-- Parse what is left of a pattern, inside the open groups, the innermost
    first.  `none` is a pattern outside the modelled syntax. -/
def parseIn : List Frame → List Char → Option Regex
  | [f], [] => some f.close
  | f :: fs, '\\' :: c :: rest =>
    if c = 'b' then parseIn (f.push .boundary false :: fs) rest
    else if c = 's' then parseIn (f.push (.char .space) true :: fs) rest
    else if c.isAlphanum || 128 ≤ c.toNat then none
    else parseIn (f.push (.char (.lit c)) true :: fs) rest
  | fs, '(' :: '?' :: ':' :: rest => parseIn ({} :: fs) rest
  | f :: g :: fs, ')' :: rest => parseIn (g.push f.close true :: fs) rest
  | f :: fs, c :: rest =>
    if c = '*' then (f.quantify .star).bind fun f => parseIn (f :: fs) rest
    else if c = '+' then
      (f.quantify fun r => .seq r (.star r)).bind fun f => parseIn (f :: fs) rest
    else if c = '?' then (f.quantify fun r => .alt r .empty).bind fun f => parseIn (f :: fs) rest
    else if c = '|' then parseIn (f.bar :: fs) rest
    else if c = '.' then parseIn (f.push (.char .dot) true :: fs) rest
    else if c = '$' then parseIn (f.push .atEnd false :: fs) rest
    else if c ∈ unsupported ∨ 128 ≤ c.toNat then none
    else parseIn (f.push (.char (.lit c)) true :: fs) rest
  | _, _ => none

def parse (pattern : String) : Option Regex := parseIn [{}] pattern.toList

end Regex

/-! ## Matching -/

/-- The lower case of an ASCII letter, and of the characters beyond ASCII that
    `IGNORECASE` identifies with `i`, `s` and `k`. -/
def foldCase (c : Char) : Char :=
  if c.toNat = 0x130 ∨ c.toNat = 0x131 then 'i'
  else if c.toNat = 0x17F then 's'
  else if c.toNat = 0x212A then 'k'
  else c.toLower

def CharClass.has : CharClass → Char → Bool
  | .lit c, x => foldCase x = foldCase c
  | .space, x => isSpace x
  | .dot, x => x ≠ '\n'

namespace Regex

/-- A character of `\w`; beyond ASCII it is `alnum`. -/
def isWord (alnum : Char → Bool) (c : Char) : Bool :=
  if c.toNat < 128 then c.isAlphanum || c = '_' else alnum c

/-- Whether a word character comes next. -/
def wordNext (alnum : Char → Bool) : List Char → Bool
  | [] => false
  | c :: _ => isWord alnum c

/-- A position: whether a word character stands before it, and what follows it. -/
abbrev Pos : Type := Bool × List Char

/-- At most `n` rounds of a repetition. -/
def rounds (f : Pos → List Pos) : Nat → Pos → List Pos
  | 0, x => [x]
  | n + 1, x => x :: (f x).flatMap (rounds f n)

/-- The positions at which a match from a position can end.  A round that
    consumes nothing leads nowhere new, so what is left bounds the rounds. -/
def run (alnum : Char → Bool) : Regex → Pos → List Pos
  | empty, x => [x]
  | char k, x =>
    match x.2 with
    | [] => []
    | c :: s => if k.has c then [(isWord alnum c, s)] else []
  | boundary, x => if x.1 = wordNext alnum x.2 then [] else [x]
  | atEnd, x => if x.2 = [] ∨ x.2 = ['\n'] then [x] else []
  | seq a b, x => (run alnum a x).flatMap (run alnum b)
  | alt a b, x => run alnum a x ++ run alnum b x
  | star a, x => rounds (run alnum a) x.2.length x

/-- The positions of a text, from one of them on. -/
def positions (alnum : Char → Bool) : Bool → List Char → List Pos
  | word, [] => [(word, [])]
  | word, c :: s => (word, c :: s) :: positions alnum (isWord alnum c) s

/-- `re.search(r, text, re.IGNORECASE)` -/
def search (alnum : Char → Bool) (r : Regex) (text : String) : Bool :=
  (positions alnum false text.toList).any fun x => !(run alnum r x).isEmpty

/-! ## The relation -/

variable {alnum : Char → Bool}

/-- A match from one position to another. -/
def Reaches (alnum : Char → Bool) : Regex → Pos → Pos → Prop
  | empty => fun x y => y = x
  | char k => fun x y => ∃ c s, x.2 = c :: s ∧ k.has c = true ∧ y = (isWord alnum c, s)
  | boundary => fun x y => y = x ∧ x.1 ≠ wordNext alnum x.2
  | atEnd => fun x y => y = x ∧ (x.2 = [] ∨ x.2 = ['\n'])
  | seq a b => Relation.Comp (Reaches alnum a) (Reaches alnum b)
  | alt a b => fun x y => Reaches alnum a x y ∨ Reaches alnum b x y
  | star a => Relation.ReflTransGen (Reaches alnum a)

/-- A match that moves consumes a character. -/
theorem Reaches.shorter {r : Regex} {x y : Pos} (h : Reaches alnum r x y) :
    y = x ∨ y.2.length < x.2.length := by
  -- the alternative is transitive
  have htrans : ∀ {x y z : Pos}, (y = x ∨ y.2.length < x.2.length) →
      (z = y ∨ z.2.length < y.2.length) → z = x ∨ z.2.length < x.2.length := by
    rintro x y z (rfl | hxy) (rfl | hyz)
    · exact .inl rfl
    · exact .inr hyz
    · exact .inr hxy
    · exact .inr (hyz.trans hxy)
  induction r generalizing x y with
  | empty => exact .inl h
  | char k =>
    obtain ⟨c, s, hx, -, rfl⟩ := h
    right
    rw [hx]
    exact Nat.lt_succ_self _
  | boundary => exact .inl h.1
  | atEnd => exact .inl h.1
  | seq a b iha ihb =>
    obtain ⟨z, hxz, hzy⟩ := h
    exact htrans (iha hxz) (ihb hzy)
  | alt a b iha ihb => exact h.elim iha ihb
  -- round by round
  | star a iha =>
    induction h with
    | refl => exact .inl rfl
    | tail _ hstep ih => exact htrans ih (iha hstep)

theorem mem_rounds_mono {f : Pos → List Pos} {n m : Nat} (hnm : n ≤ m) {x y : Pos}
    (h : y ∈ rounds f n x) : y ∈ rounds f m x := by
  induction n generalizing m x with
  | zero =>
    obtain rfl := List.mem_singleton.mp h
    cases m with
    | zero => exact h
    | succ m => exact List.mem_cons_self
  | succ n ih =>
    cases m with
    | zero => omega
    | succ m =>
      rw [rounds, List.mem_cons] at h ⊢
      rcases h with rfl | h
      · exact .inl rfl
      · obtain ⟨z, hz, hy⟩ := List.mem_flatMap.mp h
        exact .inr (List.mem_flatMap.mpr ⟨z, hz, ih (by omega) hy⟩)

/-- `run` computes the relation. -/
theorem mem_run {r : Regex} {x y : Pos} : y ∈ run alnum r x ↔ Reaches alnum r x y := by
  induction r generalizing x y with
  | empty => rw [run, List.mem_singleton, Reaches]
  | char k =>
    rw [run, Reaches]
    obtain ⟨word, s⟩ := x
    cases s with
    | nil => simp
    | cons c s =>
      by_cases hk : k.has c = true
      · simp [hk]
      · simp [hk]
  | boundary =>
    rw [run, Reaches]
    by_cases hb : x.1 = wordNext alnum x.2
    · simp [hb]
    · simp [hb]
  | atEnd =>
    rw [run, Reaches]
    by_cases he : x.2 = [] ∨ x.2 = ['\n']
    · simp [he]
    · simp [he]
  | seq a b iha ihb =>
    rw [run, List.mem_flatMap, Reaches]
    simp only [iha, ihb]
    rfl
  | alt a b iha ihb => rw [run, List.mem_append, iha, ihb, Reaches]
  | star a iha =>
    -- what is found in so many rounds is a chain of matches
    have hsound : ∀ n x, y ∈ rounds (run alnum a) n x → Reaches alnum (star a) x y := by
      intro n
      induction n with
      | zero =>
        intro x hy
        obtain rfl := List.mem_singleton.mp hy
        exact .refl
      | succ n ih =>
        intro x hy
        rcases List.mem_cons.mp hy with rfl | hy
        · exact .refl
        · obtain ⟨z, hz, hy⟩ := List.mem_flatMap.mp hy
          exact .head (iha.mp hz) (ih z hy)
    constructor
    · exact hsound _ x
    · intro h
      rw [run]
      -- a chain is found, for each round that consumes something leaves a shorter rest
      induction h using Relation.ReflTransGen.head_induction_on with
      | refl => exact mem_rounds_mono (Nat.zero_le _) (List.mem_singleton_self y)
      | head hstep hrest ih =>
        rename_i x z
        -- a round that consumes nothing adds nothing
        rcases hstep.shorter with rfl | hlt
        · exact ih
        · obtain ⟨n, hn⟩ : ∃ n, x.2.length = n + 1 := ⟨x.2.length - 1, by omega⟩
          rw [hn, rounds, List.mem_cons]
          right
          rw [List.mem_flatMap]
          exact ⟨z, iha.mpr hstep, mem_rounds_mono (by omega) ih⟩

/-! ## Contexts -/

/-- What follows a match ends the text it started in. -/
theorem Reaches.suffix {r : Regex} {x y : Pos} (h : Reaches alnum r x y) : y.2 <:+ x.2 := by
  induction r generalizing x y with
  | empty => exact h ▸ List.suffix_rfl
  | char k =>
    obtain ⟨c, s, hx, -, rfl⟩ := h
    rw [hx]
    exact List.suffix_cons c s
  | boundary => exact h.1 ▸ List.suffix_rfl
  | atEnd => exact h.1 ▸ List.suffix_rfl
  | seq a b iha ihb =>
    obtain ⟨z, hxz, hzy⟩ := h
    exact (ihb hzy).trans (iha hxz)
  | alt a b iha ihb => exact h.elim iha ihb
  | star a iha =>
    induction h with
    | refl => exact List.suffix_rfl
    | tail _ hstep ih => exact (iha hstep).trans ih

/-- The pattern does not ask for the end of the text. -/
def endFree : Regex → Bool
  | atEnd => false
  | seq a b => endFree a && endFree b
  | alt a b => endFree a && endFree b
  | star a => endFree a
  | _ => true

/-- Text that starts with no word character looks like the end of the text. -/
theorem wordNext_append {t : List Char} (ht : wordNext alnum t = false) (s : List Char) :
    wordNext alnum (s ++ t) = wordNext alnum s := by
  cases s with
  | nil => exact ht
  | cons c s => rfl

/-- A match stays one when more text follows. -/
theorem Reaches.extend {r : Regex} (hr : r.endFree = true) {t : List Char}
    (ht : wordNext alnum t = false) {x y : Pos} (h : Reaches alnum r x y) :
    Reaches alnum r (x.1, x.2 ++ t) (y.1, y.2 ++ t) := by
  induction r generalizing x y with
  | empty => exact congrArg (fun p : Pos => (p.1, p.2 ++ t)) h
  | char k =>
    obtain ⟨c, s, hx, hk, rfl⟩ := h
    exact ⟨c, s ++ t, by rw [hx]; rfl, hk, rfl⟩
  | boundary =>
    obtain ⟨rfl, hb⟩ := h
    refine ⟨rfl, ?_⟩
    rwa [wordNext_append ht]
  -- the end of the text is not the end of the longer one
  | atEnd => cases hr
  | seq a b iha ihb =>
    rw [endFree, Bool.and_eq_true] at hr
    obtain ⟨z, hxz, hzy⟩ := h
    exact ⟨_, iha hr.1 hxz, ihb hr.2 hzy⟩
  | alt a b iha ihb =>
    rw [endFree, Bool.and_eq_true] at hr
    exact h.imp (iha hr.1) (ihb hr.2)
  -- every round of the chain goes on in the longer text
  | star a iha =>
    have hchain : Relation.ReflTransGen (Reaches alnum a) x y := h
    exact hchain.lift (fun p : Pos => (p.1, p.2 ++ t)) fun _ _ hstep => iha hr hstep

/-- A match that ends before the text that follows is one without it. -/
theorem Reaches.shrink {r : Regex} (hr : r.endFree = true) {t : List Char}
    (ht : wordNext alnum t = false) {v w : Bool} {s s' : List Char}
    (h : Reaches alnum r (v, s ++ t) (w, s' ++ t)) : Reaches alnum r (v, s) (w, s') := by
  induction r generalizing v w s s' with
  | empty =>
    obtain ⟨rfl, hs⟩ := Prod.mk.inj h
    rw [List.append_cancel_right hs]
    rfl
  | char k =>
    obtain ⟨c, u, hx, hk, hy⟩ := h
    obtain ⟨rfl, rfl⟩ := Prod.mk.inj hy
    have hx' : s ++ t = (c :: s') ++ t := hx
    exact ⟨c, s', List.append_cancel_right hx', hk, rfl⟩
  | boundary =>
    obtain ⟨hxy, hb⟩ := h
    obtain ⟨rfl, hs⟩ := Prod.mk.inj hxy
    rw [wordNext_append ht] at hb
    rw [List.append_cancel_right hs]
    exact ⟨rfl, hb⟩
  | atEnd => cases hr
  | seq a b iha ihb =>
    rw [endFree, Bool.and_eq_true] at hr
    obtain ⟨⟨u, z⟩, hxz, hzy⟩ := h
    -- the position between the two still has all of `t` before it
    obtain ⟨m, rfl⟩ : ∃ m, z = m ++ t := by
      obtain ⟨k, hk⟩ := hzy.suffix
      exact ⟨k ++ s', by rw [List.append_assoc]; exact hk.symm⟩
    exact ⟨_, iha hr.1 hxz, ihb hr.2 hzy⟩
  | alt a b iha ihb =>
    rw [endFree, Bool.and_eq_true] at hr
    exact h.imp (iha hr.1) (ihb hr.2)
  | star a iha =>
    -- and so has every position of the chain
    have hchain : ∀ x : Pos, Relation.ReflTransGen (Reaches alnum a) x (w, s' ++ t) →
        ∀ m, x.2 = m ++ t → Reaches alnum (star a) (x.1, m) (w, s') := by
      intro x hx
      induction hx using Relation.ReflTransGen.head_induction_on with
      | refl =>
        intro m hm
        rw [List.append_cancel_right hm]
        exact .refl
      | @head x z hstep hrest ih =>
        intro m hm
        -- the rest of the chain cannot give back what it has consumed
        obtain ⟨m', hm'⟩ : ∃ m', z.2 = m' ++ t := by
          obtain ⟨k, hk⟩ := Reaches.suffix (r := star a) hrest
          exact ⟨k ++ s', by rw [List.append_assoc]; exact hk.symm⟩
        refine .head (iha hr ?_) (ih m' hm')
        show Reaches alnum a (x.1, m ++ t) (z.1, m' ++ t)
        rw [← hm, ← hm']
        exact hstep
    exact hchain _ h s rfl

/-- Every match of the pattern ends with a character of its own, other than `c`. -/
def endsOff (c : Char) : Regex → Bool
  | char k => !k.has c
  | seq a b => endsOff c b || (b = boundary && endsOff c a)
  | alt a b => endsOff c a && endsOff c b
  | _ => false

theorem Reaches.endsOff {r : Regex} {c : Char} (hr : r.endsOff c = true) {x y : Pos}
    (h : Reaches alnum r x y) : ∃ u c', x.2 = u ++ c' :: y.2 ∧ c' ≠ c := by
  induction r generalizing x y with
  | char k =>
    obtain ⟨c', s, hx, hk, rfl⟩ := h
    refine ⟨[], c', hx, ?_⟩
    rintro rfl
    rw [Regex.endsOff, hk] at hr
    cases hr
  -- the last character is one of `b`, or of `a` when `b` is a boundary
  | seq a b iha ihb =>
    obtain ⟨z, hxz, hzy⟩ := h
    rw [Regex.endsOff, Bool.or_eq_true, Bool.and_eq_true, decide_eq_true_eq] at hr
    rcases hr with hr | ⟨rfl, hr⟩
    · obtain ⟨u, c', hz, hc⟩ := ihb hr hzy
      obtain ⟨k, hk⟩ := hxz.suffix
      exact ⟨k ++ u, c', by rw [← hk, hz, List.append_assoc], hc⟩
    · obtain rfl := hzy.1
      exact iha hr hxz
  | alt a b iha ihb =>
    rw [Regex.endsOff, Bool.and_eq_true] at hr
    exact h.elim (iha hr.1) (ihb hr.2)
  | empty => cases hr
  | boundary => cases hr
  | atEnd => cases hr
  | star a => cases hr

/-! ## `search` -/

theorem search_eq_true {r : Regex} {text : String} :
    search alnum r text = true ↔
      ∃ x ∈ positions alnum false text.toList, ∃ y, Reaches alnum r x y := by
  rw [search, List.any_eq_true]
  simp only [Bool.not_eq_true', List.isEmpty_eq_false_iff_exists_mem, mem_run]

/-- Whether a word character ends a text. -/
def wordLast (alnum : Char → Bool) (word : Bool) (s : List Char) : Bool :=
  s.foldl (fun _ c => isWord alnum c) word

theorem positions_append (word : Bool) (s t : List Char) {x : Pos}
    (h : x ∈ positions alnum word s) : (x.1, x.2 ++ t) ∈ positions alnum word (s ++ t) := by
  induction s generalizing word with
  | nil =>
    obtain rfl := List.mem_singleton.mp h
    cases t with
    | nil => exact List.mem_singleton_self _
    | cons c t => exact List.mem_cons_self
  | cons c s ih =>
    rw [List.cons_append, positions]
    rcases List.mem_cons.mp h with rfl | h
    · exact List.mem_cons_self
    · exact List.mem_cons_of_mem _ (ih _ h)

theorem mem_positions_append (word : Bool) (s t : List Char) {x : Pos}
    (h : x ∈ positions alnum (wordLast alnum word s) t) : x ∈ positions alnum word (s ++ t) := by
  induction s generalizing word with
  | nil => exact h
  | cons c s ih => exact List.mem_cons_of_mem _ (ih (isWord alnum c) h)

theorem suffix_of_mem_positions {word : Bool} {t : List Char} {x : Pos}
    (hx : x ∈ positions alnum word t) : x.2 <:+ t := by
  induction t generalizing word with
  | nil =>
    obtain rfl := List.mem_singleton.mp hx
    exact List.suffix_rfl
  | cons c t ih =>
    rcases List.mem_cons.mp hx with rfl | hx
    · exact List.suffix_rfl
    · exact (ih hx).trans (List.suffix_cons c t)

/-- A position of a longer text that leaves more than the added text. -/
theorem positions_of_append {word : Bool} {s t m : List Char} {v : Bool}
    (h : (v, m ++ t) ∈ positions alnum word (s ++ t)) : (v, m) ∈ positions alnum word s := by
  induction s generalizing word with
  | nil =>
    -- a position in `t` has no more than `t` left, and is its first one if it has all
    have hlen : ∀ {word : Bool} {t : List Char} {x : Pos}, x ∈ positions alnum word t →
        x.2.length ≤ t.length ∧ (x.2.length = t.length → x = (word, t)) := by
      intro word t x hx
      induction t generalizing word with
      | nil =>
        obtain rfl := List.mem_singleton.mp hx
        exact ⟨le_rfl, fun _ => rfl⟩
      | cons c t ih =>
        rcases List.mem_cons.mp hx with rfl | hx
        · exact ⟨le_rfl, fun _ => rfl⟩
        · have hle := (ih hx).1
          rw [List.length_cons]
          exact ⟨by omega, fun heq => by omega⟩
    have hm : m = [] := by
      have hle := (hlen h).1
      rw [List.nil_append, List.length_append] at hle
      exact List.length_eq_zero_iff.mp (by omega)
    subst hm
    have hpos := (hlen h).2 rfl
    rw [List.nil_append, Prod.mk.injEq] at hpos
    rw [hpos.1]
    exact List.mem_singleton_self _
  | cons c s ih =>
    rw [List.cons_append, positions] at h
    rcases List.mem_cons.mp h with h | h
    -- the first position, or a later one
    · obtain ⟨rfl, hm⟩ := Prod.mk.inj h
      have hm' : m = c :: s := List.append_cancel_right hm
      rw [hm']
      exact List.mem_cons_self
    · exact List.mem_cons_of_mem _ (ih h)

/-- A pattern found in a text is found when text is put in front of it that ends
    with no word character. -/
theorem search_prepend {r : Regex} {text front : String}
    (hfront : wordLast alnum false front.toList = false) (h : search alnum r text = true) :
    search alnum r (front ++ text) = true := by
  obtain ⟨x, hx, y, hxy⟩ := search_eq_true.mp h
  rw [search_eq_true, String.toList_append]
  refine ⟨x, mem_positions_append false front.toList text.toList ?_, y, hxy⟩
  rw [hfront]
  exact hx

/-- A pattern that does not ask for the end is found when text follows that
    starts with no word character. -/
theorem search_append {r : Regex} (hr : r.endFree = true) {text back : String}
    (hback : wordNext alnum back.toList = false) (h : search alnum r text = true) :
    search alnum r (text ++ back) = true := by
  obtain ⟨x, hx, y, hxy⟩ := search_eq_true.mp h
  rw [search_eq_true, String.toList_append]
  exact ⟨_, positions_append false text.toList back.toList hx, _, hxy.extend hr hback⟩

/-- A pattern that never ends with the character `c` is found before it. -/
theorem search_of_append {r : Regex} (hr : r.endFree = true) {c : Char}
    (hends : r.endsOff c = true) (hc : isWord alnum c = false) {text : String}
    (h : search alnum r (text ++ String.singleton c) = true) : search alnum r text = true := by
  obtain ⟨⟨v, s⟩, hx, ⟨w, s'⟩, hxy⟩ := search_eq_true.mp h
  have hback : (String.singleton c).toList = [c] := by simp
  rw [String.toList_append, hback] at hx
  -- the match leaves the last character over
  obtain ⟨u, c', hs, hne⟩ := hxy.endsOff hends
  obtain ⟨k, hk⟩ := suffix_of_mem_positions hx
  have hs' : ∃ m, s' = m ++ [c] := by
    rcases List.eq_nil_or_concat s' with rfl | ⟨m, d, rfl⟩
    · have hlast := congrArg List.getLast? hk
      rw [show s = u ++ [c'] from hs, ← List.append_assoc] at hlast
      simp only [List.getLast?_append, List.getLast?_singleton, Option.some_or,
        Option.some.injEq] at hlast
      exact absurd hlast hne
    · have hlast := congrArg List.getLast? hk
      rw [show s = (u ++ c' :: m) ++ [d] from by simpa using hs, ← List.append_assoc] at hlast
      simp only [List.getLast?_append, List.getLast?_singleton, Option.some_or,
        Option.some.injEq] at hlast
      exact ⟨m, by simp [hlast]⟩
  obtain ⟨m, rfl⟩ := hs'
  obtain ⟨n, rfl⟩ : ∃ n, s = n ++ [c] := ⟨u ++ c' :: m, by rw [show s = _ from hs]; simp⟩
  exact search_eq_true.mpr ⟨(v, n), positions_of_append hx, (w, m),
    Reaches.shrink hr (t := [c]) hc hxy⟩

end Regex

end Py
