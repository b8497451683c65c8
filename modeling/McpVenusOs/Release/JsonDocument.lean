/-
  McpVenusOs.Release.JsonDocument

  `_JsonDocument` of `version_plan.py`, a JSON parser that keeps the offsets of
  the scalars and refuses duplicate keys.

  A position is the rest of the text from there.  What the parser accepts are
  exactly the texts of well-formed trees, and it yields their data and the
  places of their scalars (`jsonDocument_eq_ok`).

  The parser recurses, so a text can be nested too deep for it: `frames` are the
  calls that the recursion limit still allows.  Before CPython 3.12 the call of the
  scanner, which is in C, counts as one of them (`scan`); since then it does not.
-/

import McpVenusOs.Lib.JsonTree
import McpVenusOs.Release.Plan

namespace McpVenusOs.Release

open JsonScan JsonTree

/-- `spans`, the latest entry first. -/
abbrev Spans : Type := List (Path × Nat × Nat)

namespace JsonDocument

/-- `whitespace` -/
def whitespace (rest : List Char) : List Char := rest.dropWhile isWhitespace

variable (text : List Char)

def index (rest : List Char) : Nat := text.length - rest.length

/-! `raw_decode` of an array or object, which may repeat keys: the rest behind it. -/

mutual

def skipValue : Nat → List Char → Option (List Char)
  | 0, _ => none
  | fuel + 1, rest =>
    match rest with
    | '{' :: tail =>
      match whitespace tail with
      | '}' :: rest => some rest
      | rest => skipMembers fuel rest
    | '[' :: tail =>
      match whitespace tail with
      | ']' :: rest => some rest
      | rest => skipItems fuel rest
    | rest => (scanOnce rest).map Prod.snd

def skipMembers : Nat → List Char → Option (List Char)
  | 0, _ => none
  | fuel + 1, rest =>
    match scanOnce rest with
    | some (.str _, rest) =>
      match whitespace rest with
      | ':' :: rest =>
        match (skipValue fuel (whitespace rest)).map whitespace with
        | some ('}' :: rest) => some rest
        | some (',' :: rest) => skipMembers fuel (whitespace rest)
        | _ => none
      | _ => none
    | _ => none

def skipItems : Nat → List Char → Option (List Char)
  | 0, _ => none
  | fuel + 1, rest =>
    match (skipValue fuel rest).map whitespace with
    | some (']' :: rest) => some rest
    | some (',' :: rest) => skipItems fuel (whitespace rest)
    | _ => none

end

/-- The exception of a `raw_decode` that fails: its constructor is one more call, as CPython
    counts since 3.12.  (An integer of too many digits is refused without one.) -/
def decodeError (frames : Nat) : ReleaseError :=
  if frames ≤ 1 then .recursionError else .valueError

/-- The exception of a key that is no string, but another value or none. -/
def keyError (frames : Nat) (rest : List Char) : ReleaseError :=
  if (skipValue (2 * rest.length + 2) rest).isSome then .version "Duplicate or invalid JSON key"
  else decodeError frames

variable (scan : Bool)

mutual

/-- `parse`; each call and each turn of a loop takes one unit of fuel.  `frames` are the
    calls that the recursion limit still allows, this one included. -/
def parse : Nat → Nat → List Char → Path → Spans → Except ReleaseError (Data × List Char × Spans)
  | 0, _, _, _, _ => .error .valueError
  | fuel + 1, frames, rest, path, spans =>
    -- the call itself, and `whitespace` from it
    if frames ≤ 1 then .error .recursionError
    else
      match whitespace rest with
      | [] => .error (.version "Truncated JSON input")
      | c :: tail =>
        if c = '{' ∨ c = '[' then
          -- and `object` or `array` between the two
          if frames ≤ 2 then .error .recursionError
          else if c = '{' then
            match whitespace tail with
            | '}' :: rest => .ok (.object [], rest, spans)
            | rest => object fuel (frames - 2) rest path [] spans
          else
            match whitespace tail with
            | ']' :: rest => .ok (.array [], rest, spans)
            | rest => array fuel (frames - 2) rest path [] spans
        -- or `raw_decode`
        else if frames ≤ scan.toNat + 1 then .error .recursionError
        else
          match scanOnce (c :: tail) with
          | none => .error (decodeError (frames - 1))
          | some (v, rest) =>
            .ok (.scalar v, rest, (path, index text (c :: tail), index text rest) :: spans)

/-- The loop of `object`, which has `frames` calls left. -/
def object : Nat → Nat → List Char → Path → List (List Nat × Data) → Spans →
    Except ReleaseError (Data × List Char × Spans)
  | 0, _, _, _, _, _ => .error .valueError
  | fuel + 1, frames, rest, path, result, spans =>
    if frames ≤ scan.toNat then .error .recursionError
    else
      match scanOnce rest with
      | some (.str key, rest) =>
        if key ∈ result.map Prod.fst then .error (.version "Duplicate or invalid JSON key")
        else
          match whitespace rest with
          | ':' :: rest =>
            match parse fuel frames rest (path ++ [.key key]) spans with
            | .error e => .error e
            | .ok (value, rest, spans) =>
              match whitespace rest with
              | [] => .error (.version "Truncated JSON object")
              | '}' :: rest => .ok (.object (result ++ [(key, value)]), rest, spans)
              | ',' :: rest =>
                object fuel frames (whitespace rest) path (result ++ [(key, value)]) spans
              | _ => .error (.version "Malformed JSON object delimiter")
          | _ => .error (.version "Malformed JSON object")
      | _ => .error (keyError frames rest)

/-- The loop of `array`, which has `frames` calls left. -/
def array : Nat → Nat → List Char → Path → List Data → Spans →
    Except ReleaseError (Data × List Char × Spans)
  | 0, _, _, _, _, _ => .error .valueError
  | fuel + 1, frames, rest, path, result, spans =>
    match parse fuel frames rest (path ++ [.index result.length]) spans with
    | .error e => .error e
    | .ok (value, rest, spans) =>
      match whitespace rest with
      | [] => .error (.version "Truncated JSON array")
      | ']' :: rest => .ok (.array (result ++ [value]), rest, spans)
      | ',' :: rest => array fuel frames (whitespace rest) path (result ++ [value]) spans
      | _ => .error (.version "Malformed JSON array delimiter")

end

end JsonDocument

/-- `_json_document`, which has `frames` calls left: the data and the spans. -/
def jsonDocument (scan : Bool) (frames : Nat) (text : List Char) :
    Except ReleaseError (Data × Spans) :=
  match JsonDocument.parse text scan (2 * text.length + 2) frames text [] [] with
  | .error e => .error e
  | .ok (data, rest, spans) =>
    if JsonDocument.whitespace rest = [] then .ok (data, spans)
    else .error (.version "Unexpected content after JSON document")

/-! ## White space and positions -/

namespace JsonDocument

theorem whitespace_split (rest : List Char) : ∃ ws, Blank ws ∧ rest = ws ++ whitespace rest :=
  ⟨rest.takeWhile isWhitespace, fun _ hc => (List.mem_takeWhile_imp hc),
    List.takeWhile_append_dropWhile.symm⟩

/-- White space in front of anything else is skipped. -/
theorem whitespace_append {ws rest : List Char} (hws : Blank ws)
    (hrest : ∀ c ∈ rest.head?, isWhitespace c = false) : whitespace (ws ++ rest) = rest := by
  rw [whitespace, List.dropWhile_append_of_pos hws]
  cases rest with
  | nil => rfl
  | cons c tail => rw [List.dropWhile_cons_of_neg (by simp [hrest c rfl])]

theorem isDelimiter_of_isWhitespace {c : Char} (h : isWhitespace c = true) :
    isDelimiter c = true := by
  simp only [isWhitespace, List.mem_cons, List.not_mem_nil, or_false, decide_eq_true_eq] at h
  rcases h with rfl | rfl | rfl | rfl <;> decide

/-- A value with a delimiter behind its white space, or nothing, is delimited. -/
theorem delimited_of_whitespace {rest : List Char} (h : Delimited (whitespace rest)) :
    Delimited rest := by
  intro c hc
  cases rest with
  | nil => cases hc
  | cons d tail =>
    obtain rfl : d = c := Option.some.inj hc
    cases hspace : isWhitespace d with
    | true => exact isDelimiter_of_isWhitespace hspace
    | false =>
      refine h d ?_
      rw [whitespace, List.dropWhile_cons_of_neg (by simp [hspace])]
      rfl

theorem delimited_cons {c : Char} {rest : List Char} (h : isDelimiter c = true) :
    Delimited (c :: rest) := by
  intro d hd
  obtain rfl : c = d := Option.some.inj hd
  exact h

theorem index_append (pre rest : List Char) : index (pre ++ rest) rest = pre.length := by
  rw [index, List.length_append, Nat.add_sub_cancel]

/-! ## What the parser does -/

variable {text rest rest' : List Char} {scan : Bool} {fuel frames : Nat} {path : Path}
  {spans spans' : Spans} {d : Data}

/-- One value: an empty object or array, one with members or items, or a scalar. -/
theorem parse_eq_ok : parse text scan (fuel + 1) frames rest path spans = .ok (d, rest', spans') ↔
    1 < frames ∧ ∃ c tail, whitespace rest = c :: tail ∧
      ((c = '{' ∧ 2 < frames ∧ ((whitespace tail = '}' :: rest' ∧ d = .object [] ∧ spans' = spans) ∨
          ((∀ r, whitespace tail ≠ '}' :: r) ∧
            object text scan fuel (frames - 2) (whitespace tail) path [] spans =
              .ok (d, rest', spans')))) ∨
        (c = '[' ∧ 2 < frames ∧ ((whitespace tail = ']' :: rest' ∧ d = .array [] ∧ spans' = spans) ∨
          ((∀ r, whitespace tail ≠ ']' :: r) ∧
            array text scan fuel (frames - 2) (whitespace tail) path [] spans =
              .ok (d, rest', spans')))) ∨
        (c ≠ '{' ∧ c ≠ '[' ∧ scan.toNat + 1 < frames ∧
          ∃ v, scanOnce (c :: tail) = some (v, rest') ∧ d = .scalar v ∧
          spans' = (path, index text (c :: tail), index text rest') :: spans)) := by
  rw [parse]
  by_cases hcall : frames ≤ 1
  · rw [if_pos hcall]
    exact ⟨fun h => (nomatch h), fun h => absurd h.1 (not_lt.mpr hcall)⟩
  rw [if_neg hcall]
  refine Iff.trans ?_ (and_iff_right (not_le.mp hcall)).symm
  cases hrest : whitespace rest with
  | nil => simp
  | cons c tail =>
    simp only [List.cons.injEq, ↓existsAndEq, true_and]
    by_cases hcontainer : c = '{' ∨ c = '['
    · rw [if_pos hcontainer]
      by_cases hroom : frames ≤ 2
      · rw [if_pos hroom]
        have hroom' : ¬2 < frames := not_lt.mpr hroom
        simp only [hroom', false_and, and_false, false_or, reduceCtorEq, false_iff]
        rintro ⟨hobject, harray, -⟩
        exact hcontainer.elim hobject harray
      rw [if_neg hroom]
      have hroom' : 2 < frames := not_le.mp hroom
      -- an object and an array alike: the closing bracket, or the loop
      rcases hcontainer with rfl | rfl
      all_goals
        simp only [if_true, if_false, true_and, hroom', ne_eq, not_true_eq_false, false_and,
          and_false, false_or, or_false, Char.reduceEq]
        split
        · rename_i r hr
          simp only [Except.ok.injEq, Prod.mk.injEq, hr, List.cons.injEq, true_and]
          constructor
          · rintro ⟨rfl, rfl, rfl⟩
            exact .inl ⟨rfl, rfl, rfl⟩
          · rintro (⟨rfl, rfl, rfl⟩ | ⟨hne, -⟩)
            · exact ⟨rfl, rfl, rfl⟩
            · exact absurd rfl (hne r)
        · rename_i hne
          constructor
          · exact fun h => .inr ⟨fun r hr => hne r hr, h⟩
          · rintro (⟨hr, -⟩ | ⟨-, h⟩)
            · exact absurd hr (hne _)
            · exact h
    · rw [if_neg hcontainer]
      rw [not_or] at hcontainer
      simp only [hcontainer.1, hcontainer.2, false_and, false_or, ne_eq, not_false_eq_true,
        true_and]
      by_cases hroom : frames ≤ scan.toNat + 1
      · rw [if_pos hroom]
        exact ⟨fun h => (nomatch h), fun h => absurd h.1 (not_lt.mpr hroom)⟩
      rw [if_neg hroom]
      refine Iff.trans ?_ (and_iff_right (not_le.mp hroom)).symm
      cases hscan : scanOnce (c :: tail) with
      | none => simp
      | some r =>
        obtain ⟨v, r⟩ := r
        constructor
        · intro h
          obtain ⟨rfl, rfl, rfl⟩ : _ = d ∧ _ = rest' ∧ _ = spans' := by simpa using h
          exact ⟨v, rfl, rfl, rfl⟩
        · rintro ⟨v', hv, rfl, rfl⟩
          obtain ⟨rfl, rfl⟩ := Prod.mk.inj (Option.some.inj hv)
          rfl

/-- What parses has a call left for the scan of a key in its place. -/
theorem scan_lt_of_parse
    (h : parse text scan fuel frames rest path spans = .ok (d, rest', spans')) :
    scan.toNat < frames := by
  cases fuel with
  | zero => simp [parse] at h
  | succ fuel => exact scan.toNat_le.trans_lt (parse_eq_ok.mp h).1

/-- One turn of the loop of `object`: a new key, a colon, a value, and the end or a comma. -/
theorem object_eq_ok {result : List (List Nat × Data)} :
    object text scan (fuel + 1) frames rest path result spans = .ok (d, rest', spans') ↔
      ∃ key rest₁ rest₂ value rest₃ spans₁, scanOnce rest = some (.str key, rest₁) ∧
        key ∉ result.map Prod.fst ∧ whitespace rest₁ = ':' :: rest₂ ∧
        parse text scan fuel frames rest₂ (path ++ [.key key]) spans = .ok (value, rest₃, spans₁) ∧
        ((whitespace rest₃ = '}' :: rest' ∧ d = .object (result ++ [(key, value)]) ∧
            spans' = spans₁) ∨
          ∃ rest₄, whitespace rest₃ = ',' :: rest₄ ∧
            object text scan fuel frames (whitespace rest₄) path (result ++ [(key, value)]) spans₁ =
              .ok (d, rest', spans')) := by
  rw [object]
  constructor
  · intro h
    split at h
    · cases h
    split at h
    · rename_i key rest₁ hscan
      split at h
      · cases h
      · rename_i hkey
        split at h
        · rename_i rest₂ hcolon
          split at h
          · cases h
          · rename_i value rest₃ spans₁ hparse
            refine ⟨key, rest₁, rest₂, value, rest₃, spans₁, hscan, hkey, hcolon, hparse, ?_⟩
            split at h
            · cases h
            · rename_i hend
              obtain ⟨rfl, rfl, rfl⟩ : _ = d ∧ _ = rest' ∧ _ = spans' := by simpa using h
              exact .inl ⟨hend, rfl, rfl⟩
            · rename_i rest₄ hcomma
              exact .inr ⟨rest₄, hcomma, h⟩
            · cases h
        · cases h
    · cases h
  · rintro ⟨key, rest₁, rest₂, value, rest₃, spans₁, hscan, hkey, hcolon, hparse, hend⟩
    rw [if_neg (not_le.mpr (scan_lt_of_parse hparse))]
    simp only [hscan, if_neg hkey, hcolon, hparse]
    rcases hend with ⟨hend, rfl, rfl⟩ | ⟨rest₄, hcomma, hloop⟩
    · simp only [hend]
    · simp only [hcomma]
      exact hloop

/-- One turn of the loop of `array`: a value, and the end or a comma. -/
theorem array_eq_ok {result : List Data} :
    array text scan (fuel + 1) frames rest path result spans = .ok (d, rest', spans') ↔
      ∃ value rest₁ spans₁,
        parse text scan fuel frames rest (path ++ [.index result.length]) spans =
          .ok (value, rest₁, spans₁) ∧
        ((whitespace rest₁ = ']' :: rest' ∧ d = .array (result ++ [value]) ∧ spans' = spans₁) ∨
          ∃ rest₂, whitespace rest₁ = ',' :: rest₂ ∧
            array text scan fuel frames (whitespace rest₂) path (result ++ [value]) spans₁ =
              .ok (d, rest', spans')) := by
  rw [array]
  constructor
  · intro h
    split at h
    · cases h
    · rename_i value rest₁ spans₁ hparse
      refine ⟨value, rest₁, spans₁, hparse, ?_⟩
      split at h
      · cases h
      · rename_i hend
        obtain ⟨rfl, rfl, rfl⟩ : _ = d ∧ _ = rest' ∧ _ = spans' := by simpa using h
        exact .inl ⟨hend, rfl, rfl⟩
      · rename_i rest₂ hcomma
        exact .inr ⟨rest₂, hcomma, h⟩
      · cases h
  · rintro ⟨value, rest₁, spans₁, hparse, hend⟩
    simp only [hparse]
    rcases hend with ⟨hend, rfl, rfl⟩ | ⟨rest₂, hcomma, hloop⟩
    · simp only [hend]
    · simp only [hcomma]
      exact hloop

/-! ## What is accepted is the text of a tree -/

/-- The spans after the pieces from `start` on were read. -/
def readSpans (start : Nat) (pieces : List Piece) (spans : Spans) : Spans :=
  (spansFrom start pieces).reverse ++ spans

theorem readSpans_text (start : Nat) (cs : List Char) (pieces : List Piece) (spans : Spans) :
    readSpans start (.text cs :: pieces) spans = readSpans (start + cs.length) pieces spans := rfl

theorem readSpans_nil (start : Nat) (spans : Spans) : readSpans start [] spans = spans := rfl

theorem readSpans_append (start : Nat) (xs ys : List Piece) (spans : Spans) :
    readSpans start (xs ++ ys) spans =
      readSpans (start + (print xs).length) ys (readSpans start xs spans) := by
  rw [readSpans, readSpans, readSpans, spansFrom_append, List.reverse_append, List.append_assoc]

/-- A value that was parsed is the text of a tree behind white space, and not nested too
    deep. -/
def ParseSound (text : List Char) (scan : Bool) (fuel : Nat) : Prop :=
  ∀ {frames pre rest path spans d rest' spans'}, text = pre ++ rest →
    parse text scan fuel frames rest path spans = .ok (d, rest', spans') → Delimited rest' →
    ∃ (ws : List Char) (t : Tree), Blank ws ∧ t.Valid ∧ t.calls scan < frames ∧
      rest = ws ++ print (t.pieces path) ++ rest' ∧ d = t.data ∧
      spans' = readSpans (pre ++ ws).length (t.pieces path) spans

/-- What a loop of `array` read are items. -/
def ArraySound (text : List Char) (scan : Bool) (fuel : Nat) : Prop :=
  ∀ {frames pre rest path result spans d rest' spans'}, text = pre ++ rest →
    array text scan fuel frames (whitespace rest) path result spans = .ok (d, rest', spans') →
    ∃ items : Items, items.Valid ∧ items.calls scan < frames ∧
      rest = print (items.pieces path result.length) ++ rest' ∧
      d = .array (result ++ items.data) ∧
      spans' = readSpans pre.length (items.pieces path result.length) spans

/-- What a loop of `object` read are members with new keys. -/
def ObjectSound (text : List Char) (scan : Bool) (fuel : Nat) : Prop :=
  ∀ {frames pre rest path result spans d rest' spans'}, text = pre ++ rest →
    object text scan fuel frames (whitespace rest) path result spans = .ok (d, rest', spans') →
    ∃ members : Members, members.Valid ∧ members.keys.Nodup ∧ members.calls scan < frames ∧
      (∀ key ∈ members.keys, key ∉ result.map Prod.fst) ∧
      rest = print (members.pieces path) ++ rest' ∧
      d = .object (result ++ members.data) ∧
      spans' = readSpans pre.length (members.pieces path) spans

theorem arraySound_succ (hparse : ParseSound text scan fuel) (harray : ArraySound text scan fuel) :
    ArraySound text scan (fuel + 1) := by
  intro frames pre rest path result spans d rest' spans' htext h
  obtain ⟨before, hbefore, hsplit⟩ := whitespace_split rest
  obtain ⟨value, rest₁, spans₁, hvalue, hend⟩ := array_eq_ok.mp h
  have htext' : text = (pre ++ before) ++ whitespace rest := by
    rw [List.append_assoc, ← hsplit, htext]
  have hdelimited : Delimited rest₁ := by
    rcases hend with ⟨hend, -⟩ | ⟨rest₂, hcomma, -⟩
    · exact delimited_of_whitespace (hend ▸ delimited_cons (by decide))
    · exact delimited_of_whitespace (hcomma ▸ delimited_cons (by decide))
  obtain ⟨ws, t, hws, ht, hcalls, htail, rfl, rfl⟩ := hparse htext' hvalue hdelimited
  obtain ⟨after, hafter, hrest₁⟩ := whitespace_split rest₁
  have hgap : Gap.Valid ⟨before ++ ws, after⟩ :=
    ⟨fun c hc => (List.mem_append.mp hc).elim (hbefore c) (hws c), hafter⟩
  rcases hend with ⟨hend, rfl, rfl⟩ | ⟨rest₂, hcomma, hloop⟩
  · rw [hend] at hrest₁
    refine ⟨.last ⟨before ++ ws, after⟩ t, .last hgap ht, hcalls, ?_, rfl, ?_⟩
    · rw [hsplit, htail, hrest₁]
      simp [Items.pieces, Piece.chars]
    · simp [Items.pieces, readSpans_text, readSpans_nil, readSpans_append, Nat.add_assoc]
  · rw [hcomma] at hrest₁
    have htext₂ : text = pre ++ (before ++ ws ++
        (print (t.pieces (path ++ [.index result.length])) ++ (after ++ [',']))) ++ rest₂ := by
      rw [htext, hsplit, htail, hrest₁]
      simp
    obtain ⟨items, hitems, hcalls', hrest₂, rfl, rfl⟩ := harray htext₂ hloop
    rw [List.length_append, List.length_singleton] at hrest₂
    refine ⟨.more ⟨before ++ ws, after⟩ t items, .more hgap ht hitems, max_lt hcalls hcalls', ?_,
      ?_, ?_⟩
    · rw [hsplit, htail, hrest₁, hrest₂]
      simp [Items.pieces, Piece.chars]
    · simp [Items.data]
    · simp [Items.pieces, readSpans_text, readSpans_append, Nat.add_assoc]

theorem objectSound_succ (hparse : ParseSound text scan fuel)
    (hobject : ObjectSound text scan fuel) : ObjectSound text scan (fuel + 1) := by
  intro frames pre rest path result spans d rest' spans' htext h
  obtain ⟨before, hbefore, hsplit⟩ := whitespace_split rest
  obtain ⟨key, rest₁, rest₂, value, rest₃, spans₁, hscan, hkey, hcolon, hvalue, hend⟩ :=
    object_eq_ok.mp h
  -- the key, up to its colon
  obtain ⟨token, htoken, hkeyToken⟩ := scanOnce_token hscan
  obtain ⟨after, hafter, hrest₁⟩ := whitespace_split rest₁
  rw [hcolon] at hrest₁
  have hkeyToken := hkeyToken (delimited_of_whitespace (hcolon ▸ delimited_cons (by decide)))
  have htext' : text = pre ++ (before ++ token ++ after ++ [':']) ++ rest₂ := by
    rw [htext, hsplit, htoken, hrest₁]
    simp
  have hdelimited : Delimited rest₃ := by
    rcases hend with ⟨hend, -⟩ | ⟨rest₄, hcomma, -⟩
    · exact delimited_of_whitespace (hend ▸ delimited_cons (by decide))
    · exact delimited_of_whitespace (hcomma ▸ delimited_cons (by decide))
  obtain ⟨ws, t, hws, ht, hcalls, hrest₂, rfl, rfl⟩ := hparse htext' hvalue hdelimited
  obtain ⟨last, hlast, hrest₃⟩ := whitespace_split rest₃
  have hname : Name.Valid ⟨before, key, token, after, ws⟩ := ⟨hbefore, hkeyToken, hafter, hws⟩
  rcases hend with ⟨hend, rfl, rfl⟩ | ⟨rest₄, hcomma, hloop⟩
  · rw [hend] at hrest₃
    refine ⟨.last ⟨before, key, token, after, ws⟩ t last, .last hname ht hlast,
      List.pairwise_singleton _ _, hcalls, ?_, ?_, rfl, ?_⟩
    · intro k hk
      rw [List.mem_singleton.mp hk]
      exact hkey
    · rw [hsplit, htoken, hrest₁, hrest₂, hrest₃]
      simp [Members.pieces, Piece.chars, Name.chars]
    · simp [Members.pieces, Name.chars, readSpans_text, readSpans_nil, readSpans_append,
        Nat.add_assoc]
  · rw [hcomma] at hrest₃
    have htext₄ : text = pre ++ (before ++ token ++ after ++ ':' :: ws ++
        (print (t.pieces (path ++ [.key key])) ++ (last ++ [',']))) ++ rest₄ := by
      rw [htext', hrest₂, hrest₃]
      simp
    obtain ⟨members, hmembers, hnodup, hcalls', hnew, hrest₄, rfl, rfl⟩ := hobject htext₄ hloop
    simp only [List.map_append, List.map_cons, List.map_nil, List.mem_append,
      List.mem_singleton, not_or] at hnew
    refine ⟨.more ⟨before, key, token, after, ws⟩ t last members, .more hname ht hlast hmembers,
      ?_, max_lt hcalls hcalls', ?_, ?_, ?_, ?_⟩
    · exact List.nodup_cons.mpr ⟨fun hmem => (hnew key hmem).2 rfl, hnodup⟩
    · intro k hk
      rcases List.mem_cons.mp hk with rfl | hk
      · exact hkey
      · exact (hnew k hk).1
    · rw [hsplit, htoken, hrest₁, hrest₂, hrest₃, hrest₄]
      simp [Members.pieces, Piece.chars, Name.chars]
    · simp [Members.data]
    · simp [Members.pieces, Name.chars, readSpans_text, readSpans_append, Nat.add_assoc,
        Nat.add_comm 1]

theorem parseSound_succ (harray : ArraySound text scan fuel)
    (hobject : ObjectSound text scan fuel) : ParseSound text scan (fuel + 1) := by
  intro frames pre rest path spans d rest' spans' htext h hdelimited
  obtain ⟨ws, hws, hsplit⟩ := whitespace_split rest
  obtain ⟨-, c, tail, hrest, h⟩ := parse_eq_ok.mp h
  rw [hrest] at hsplit
  have htext' : text = (pre ++ ws ++ [c]) ++ tail := by
    rw [htext, hsplit]
    simp
  obtain ⟨inner, hinner, htail⟩ := whitespace_split tail
  rcases h with ⟨rfl, hroom, ⟨hend, rfl, rfl⟩ | ⟨-, hloop⟩⟩ |
    ⟨rfl, hroom, ⟨hend, rfl, rfl⟩ | ⟨-, hloop⟩⟩ | ⟨-, -, hroom, v, hscan, rfl, rfl⟩
  · rw [hend] at htail
    refine ⟨ws, .emptyObject inner, hws, .emptyObject hinner, hroom, ?_, rfl, rfl⟩
    rw [hsplit, htail]
    simp [Tree.pieces, Piece.chars]
  · obtain ⟨members, hmembers, hnodup, hcalls, -, htail, rfl, rfl⟩ := hobject htext' hloop
    refine ⟨ws, .object members, hws, .object hmembers hnodup, Nat.add_lt_of_lt_sub hcalls, ?_, rfl,
      ?_⟩
    · rw [hsplit, htail]
      simp [Tree.pieces, Piece.chars]
    · simp [Tree.pieces, readSpans_text, Nat.add_assoc]
  · rw [hend] at htail
    refine ⟨ws, .emptyArray inner, hws, .emptyArray hinner, hroom, ?_, rfl, rfl⟩
    rw [hsplit, htail]
    simp [Tree.pieces, Piece.chars]
  · obtain ⟨items, hitems, hcalls, htail, rfl, rfl⟩ := harray htext' hloop
    refine ⟨ws, .array items, hws, .array hitems, Nat.add_lt_of_lt_sub hcalls, ?_, rfl, ?_⟩
    · rw [hsplit, htail]
      simp [Tree.pieces, Piece.chars]
    · simp [Tree.pieces, readSpans_text, Nat.add_assoc]
  -- a scalar, whose end is where the rest begins
  · obtain ⟨token, htoken, hvalid⟩ := scanOnce_token hscan
    refine ⟨ws, .scalar v token, hws, .scalar (hvalid hdelimited), hroom, ?_, rfl, ?_⟩
    · rw [hsplit, htoken]
      simp [Tree.pieces, Piece.chars]
    · have hstart : index text (c :: tail) = (pre ++ ws).length := by
        rw [htext, hsplit, ← List.append_assoc, index_append]
      have hend : index text rest' = (pre ++ ws).length + token.length := by
        rw [htext, hsplit, htoken, ← List.append_assoc, ← List.append_assoc, index_append,
          List.length_append]
      rw [hstart, hend]
      rfl

theorem sound (text : List Char) (scan : Bool) (fuel : Nat) :
    ParseSound text scan fuel ∧ ArraySound text scan fuel ∧ ObjectSound text scan fuel := by
  induction fuel with
  | zero =>
    refine ⟨?_, ?_, ?_⟩
    · intro _ _ _ _ _ _ _ _ _ h
      simp [parse] at h
    · intro _ _ _ _ _ _ _ _ _ _ h
      simp [array] at h
    · intro _ _ _ _ _ _ _ _ _ _ h
      simp [object] at h
  | succ fuel ih =>
    obtain ⟨hparse, harray, hobject⟩ := ih
    exact ⟨parseSound_succ harray hobject, arraySound_succ hparse harray,
      objectSound_succ hparse hobject⟩

/-! ## The text of a tree is accepted -/

theorem isWhitespace_of_isDelimiter {c : Char} (h : isDelimiter c = false) :
    isWhitespace c = false := by
  cases hspace : isWhitespace c with
  | false => rfl
  | true =>
    rw [isDelimiter_of_isWhitespace hspace] at h
    cases h

/-- White space in front of a character that is none. -/
theorem whitespace_cons {ws tail : List Char} {c : Char} (hws : Blank ws)
    (hc : isWhitespace c = false) : whitespace (ws ++ c :: tail) = c :: tail := by
  refine whitespace_append hws ?_
  intro d hd
  obtain rfl : c = d := Option.some.inj hd
  exact hc

theorem delimited_append {ws tail : List Char} {c : Char} (hws : Blank ws)
    (hspace : isWhitespace c = false) (hc : isDelimiter c = true) :
    Delimited (ws ++ c :: tail) := by
  apply delimited_of_whitespace
  rw [whitespace_cons hws hspace]
  exact delimited_cons hc

/-- The text of a tree begins with a character that ends nothing before it. -/
theorem print_tree_head {t : Tree} (h : t.Valid) (path : Path) :
    ∃ c tail, print (t.pieces path) = c :: tail ∧ isDelimiter c = false := by
  cases h with
  | scalar htoken =>
    obtain ⟨c, tail, rfl, hc, -⟩ := htoken.head
    exact ⟨c, tail, by simp [Tree.pieces, Piece.chars], hc⟩
  | emptyArray hinner => exact ⟨'[', _, rfl, by decide⟩
  | array hitems => exact ⟨'[', _, rfl, by decide⟩
  | emptyObject hinner => exact ⟨'{', _, rfl, by decide⟩
  | object hmembers hkeys => exact ⟨'{', _, rfl, by decide⟩

theorem print_items_head {items : Items} (h : items.Valid) (path : Path) (i : Nat) :
    ∃ ws c, ws ++ [c] <+: print (items.pieces path i) ∧ Blank ws ∧ isDelimiter c = false := by
  cases h with
  | last hgap ht | more hgap ht _ =>
    obtain ⟨c, tail, hprint, hc⟩ := print_tree_head ht (path ++ [.index i])
    refine ⟨_, c, ?_, hgap.before, hc⟩
    simp only [Items.pieces, print_cons, print_append, Piece.chars, hprint, List.cons_append]
    exact ⟨_, List.append_assoc _ _ _⟩

theorem print_members_head {members : Members} (h : members.Valid) (path : Path) :
    ∃ ws c, ws ++ [c] <+: print (members.pieces path) ∧ Blank ws ∧ isDelimiter c = false := by
  cases h with
  | last hname _ _ | more hname _ _ _ =>
    obtain ⟨c, tail, htoken, hc, -⟩ := hname.token.head
    refine ⟨_, c, ?_, hname.before, hc⟩
    simp only [Members.pieces, print_cons, Piece.chars, Name.chars, htoken, List.append_assoc,
      List.cons_append]
    exact ⟨_, List.append_assoc _ _ _⟩

/-- Behind the bracket of an array or object that is not empty no closing one follows. -/
theorem whitespace_ne {cs ws : List Char} {c d : Char} (hcs : ws ++ [c] <+: cs) (hws : Blank ws)
    (hc : isDelimiter c = false) (hd : isDelimiter d = true) (rest r : List Char) :
    whitespace (cs ++ rest) ≠ d :: r := by
  intro h
  obtain ⟨tail, rfl⟩ := hcs
  rw [List.append_assoc, List.append_assoc, List.singleton_append,
    whitespace_cons hws (isWhitespace_of_isDelimiter hc)] at h
  obtain ⟨rfl, -⟩ := List.cons.inj h
  rw [hc] at hd
  cases hd

section
variable {pre ws cs gap : List Char} {c : Char} {r : Data × List Char × Spans}

theorem parse_scalar {v : Scalar} {token : List Char} (htoken : Token v token)
    (htext : text = pre ++ ws ++ (token ++ rest)) (hws : Blank ws) (hrest : Delimited rest)
    (hcalls : scan.toNat + 1 < frames) :
    parse text scan (fuel + 1) frames (ws ++ (token ++ rest)) path spans =
      .ok (.scalar v, rest, readSpans (pre ++ ws).length [.leaf path v token] spans) := by
  obtain ⟨c, tail, rfl, hc, hobject, harray⟩ := htoken.head
  have hstart : index text (c :: (tail ++ rest)) = (pre ++ ws).length := by
    rw [htext]
    exact index_append _ _
  have hend : index text rest = (pre ++ ws).length + (c :: tail).length := by
    rw [htext, ← List.append_assoc, index_append, List.length_append]
  refine parse_eq_ok.mpr ⟨(Nat.le_add_left 1 _).trans_lt hcalls, c, tail ++ rest,
    whitespace_cons hws (isWhitespace_of_isDelimiter hc),
    .inr (.inr ⟨hobject, harray, hcalls, v, htoken.2 rest hrest, rfl, ?_⟩)⟩
  rw [hstart, hend]
  rfl

theorem parse_array (hws : Blank ws) (hhead : gap ++ [c] <+: cs) (hgap : Blank gap)
    (hc : isDelimiter c = false) (hcalls : 2 < frames)
    (hloop : array text scan fuel (frames - 2) (whitespace (cs ++ rest)) path [] spans = .ok r) :
    parse text scan (fuel + 1) frames (ws ++ '[' :: (cs ++ rest)) path spans = .ok r :=
  parse_eq_ok.mpr ⟨Nat.lt_of_succ_lt hcalls, '[', _, whitespace_cons hws (by decide),
    .inr (.inl ⟨rfl, hcalls, .inr ⟨whitespace_ne hhead hgap hc (by decide) rest, hloop⟩⟩)⟩

theorem parse_object (hws : Blank ws) (hhead : gap ++ [c] <+: cs) (hgap : Blank gap)
    (hc : isDelimiter c = false) (hcalls : 2 < frames)
    (hloop : object text scan fuel (frames - 2) (whitespace (cs ++ rest)) path [] spans = .ok r) :
    parse text scan (fuel + 1) frames (ws ++ '{' :: (cs ++ rest)) path spans = .ok r :=
  parse_eq_ok.mpr ⟨Nat.lt_of_succ_lt hcalls, '{', _, whitespace_cons hws (by decide),
    .inl ⟨rfl, hcalls, .inr ⟨whitespace_ne hhead hgap hc (by decide) rest, hloop⟩⟩⟩

/-- The key of a member, up to its colon. -/
theorem scanOnce_name {name : Name} (h : name.Valid) (rest : List Char) :
    scanOnce (whitespace (name.chars ++ rest)) =
        some (.str name.key, name.after ++ ':' :: (name.value ++ rest)) ∧
      whitespace (name.after ++ ':' :: (name.value ++ rest)) = ':' :: (name.value ++ rest) := by
  obtain ⟨c, tail, htoken, hc, -⟩ := h.token.head
  have hsplit : name.chars ++ rest =
      name.before ++ c :: (tail ++ (name.after ++ ':' :: (name.value ++ rest))) := by
    simp [Name.chars, htoken]
  have hscan := h.token.2 (name.after ++ ':' :: (name.value ++ rest))
    (delimited_append h.after (by decide) (by decide))
  rw [htoken] at hscan
  rw [hsplit, whitespace_cons h.before (isWhitespace_of_isDelimiter hc)]
  exact ⟨hscan, whitespace_cons h.after (by decide)⟩

end

/-- The text of the tree, behind white space, is parsed. -/
def TreeParsed (scan : Bool) (t : Tree) : Prop :=
  ∀ {text pre ws rest : List Char} {fuel frames : Nat} {path : Path} {spans : Spans},
    2 * (print (t.pieces path)).length ≤ fuel + 1 → t.calls scan < frames →
    text = pre ++ ws ++ (print (t.pieces path) ++ rest) → Blank ws → Delimited rest →
    parse text scan (fuel + 1) frames (ws ++ (print (t.pieces path) ++ rest)) path spans =
      .ok (t.data, rest, readSpans (pre ++ ws).length (t.pieces path) spans)

/-- The loop of `array` reads the items. -/
def ItemsParsed (scan : Bool) (items : Items) : Prop :=
  ∀ {text pre rest : List Char} {fuel frames : Nat} {path : Path} {result : List Data}
    {spans : Spans},
    2 * (print (items.pieces path result.length)).length ≤ fuel → items.calls scan < frames →
    text = pre ++ (print (items.pieces path result.length) ++ rest) →
    array text scan (fuel + 1) frames
        (whitespace (print (items.pieces path result.length) ++ rest)) path result spans =
      .ok (.array (result ++ items.data), rest,
        readSpans pre.length (items.pieces path result.length) spans)

/-- The loop of `object` reads the members. -/
def MembersParsed (scan : Bool) (members : Members) : Prop :=
  ∀ {text pre rest : List Char} {fuel frames : Nat} {path : Path}
    {result : List (List Nat × Data)} {spans : Spans},
    2 * (print (members.pieces path)).length ≤ fuel → members.calls scan < frames →
    (∀ key ∈ members.keys, key ∉ result.map Prod.fst) →
    text = pre ++ (print (members.pieces path) ++ rest) →
    object text scan (fuel + 1) frames (whitespace (print (members.pieces path) ++ rest)) path
        result spans =
      .ok (.object (result ++ members.data), rest,
        readSpans pre.length (members.pieces path) spans)

theorem scalar_parsed {v : Scalar} {token : List Char} (h : Token v token) :
    TreeParsed scan (.scalar v token) := by
  intro text pre ws rest fuel frames path spans _ hcalls htext hws hrest
  simp only [Tree.pieces, print_cons, print_nil, Piece.chars, List.append_nil] at htext ⊢
  exact parse_scalar h htext hws hrest hcalls

theorem emptyArray_parsed {inner : List Char} (h : Blank inner) :
    TreeParsed scan (.emptyArray inner) := by
  intro text pre ws rest fuel frames path spans _ hcalls _ hws _
  simp only [Tree.pieces, print_cons, print_nil, Piece.chars, List.append_nil, List.cons_append,
    List.append_assoc]
  exact parse_eq_ok.mpr ⟨Nat.lt_of_succ_lt hcalls, '[', _, whitespace_cons hws (by decide),
    .inr (.inl ⟨rfl, hcalls, .inl ⟨whitespace_cons h (by decide), rfl, rfl⟩⟩)⟩

theorem emptyObject_parsed {inner : List Char} (h : Blank inner) :
    TreeParsed scan (.emptyObject inner) := by
  intro text pre ws rest fuel frames path spans _ hcalls _ hws _
  simp only [Tree.pieces, print_cons, print_nil, Piece.chars, List.append_nil, List.cons_append,
    List.append_assoc]
  exact parse_eq_ok.mpr ⟨Nat.lt_of_succ_lt hcalls, '{', _, whitespace_cons hws (by decide),
    .inl ⟨rfl, hcalls, .inl ⟨whitespace_cons h (by decide), rfl, rfl⟩⟩⟩

theorem array_parsed {items : Items} (hvalid : items.Valid) (h : ItemsParsed scan items) :
    TreeParsed scan (.array items) := by
  intro text pre ws rest fuel frames path spans hfuel hcalls htext hws hrest
  rw [Tree.calls] at hcalls
  simp only [Tree.pieces, print_cons, Piece.chars, List.length_cons, List.cons_append,
    List.nil_append] at hfuel htext ⊢
  obtain ⟨fuel, rfl⟩ : ∃ n, fuel = n + 1 := ⟨fuel - 1, by omega⟩
  obtain ⟨gap, c, hhead, hgap, hc⟩ := print_items_head hvalid path 0
  have htext' : text = (pre ++ ws ++ ['[']) ++ (print (items.pieces path 0) ++ rest) := by
    rw [htext, List.append_assoc (pre ++ ws) ['[']]
    rfl
  have hloop : array text scan (fuel + 1) (frames - 2) _ path [] spans = _ :=
    h (by simp only [List.length_nil]; omega) (by omega) htext'
  rw [List.length_append] at hloop
  exact parse_array hws hhead hgap hc (by omega) hloop

theorem object_parsed {members : Members} (hvalid : members.Valid)
    (h : MembersParsed scan members) : TreeParsed scan (.object members) := by
  intro text pre ws rest fuel frames path spans hfuel hcalls htext hws hrest
  rw [Tree.calls] at hcalls
  simp only [Tree.pieces, print_cons, Piece.chars, List.length_cons, List.cons_append,
    List.nil_append] at hfuel htext ⊢
  obtain ⟨fuel, rfl⟩ : ∃ n, fuel = n + 1 := ⟨fuel - 1, by omega⟩
  obtain ⟨gap, c, hhead, hgap, hc⟩ := print_members_head hvalid path
  have htext' : text = (pre ++ ws ++ ['{']) ++ (print (members.pieces path) ++ rest) := by
    rw [htext, List.append_assoc (pre ++ ws) ['{']]
    rfl
  have hloop : object text scan (fuel + 1) (frames - 2) _ path [] spans = _ :=
    h (by omega) (by omega) (by simp) htext'
  rw [List.length_append] at hloop
  exact parse_object hws hhead hgap hc (by omega) hloop

/-- An item of an array, behind the white space before it. -/
theorem TreeParsed.item {t : Tree} (h : TreeParsed scan t) (hvalid : t.Valid)
    {pre gap : List Char} (hfuel : 2 * (print (t.pieces path)).length ≤ fuel + 1)
    (hcalls : t.calls scan < frames)
    (htext : text = pre ++ (gap ++ (print (t.pieces path) ++ rest))) (hgap : Blank gap)
    (hrest : Delimited rest) :
    parse text scan (fuel + 1) frames (whitespace (gap ++ (print (t.pieces path) ++ rest))) path
        spans =
      .ok (t.data, rest, readSpans (pre.length + gap.length) (t.pieces path) spans) := by
  obtain ⟨c, tail, hhead, hc⟩ := print_tree_head hvalid path
  have hspace : whitespace (gap ++ (print (t.pieces path) ++ rest)) =
      [] ++ (print (t.pieces path) ++ rest) := by
    rw [hhead]
    exact whitespace_cons hgap (isWhitespace_of_isDelimiter hc)
  have htext' : text = (pre ++ gap) ++ [] ++ (print (t.pieces path) ++ rest) := by
    rw [htext, List.append_nil, List.append_assoc]
  rw [hspace, h hfuel hcalls htext' (by simp [Blank]) hrest, List.append_nil, List.length_append]

theorem items_last_parsed {gap : Gap} {t : Tree} (hgap : gap.Valid) (ht : t.Valid)
    (h : TreeParsed scan t) : ItemsParsed scan (.last gap t) := by
  intro text pre rest fuel frames path result spans hfuel hcalls htext
  simp only [Items.pieces, print_cons, print_append, print_nil, Piece.chars, List.length_append,
    List.append_nil, List.length_cons, List.append_assoc, List.singleton_append] at hfuel htext ⊢
  obtain ⟨fuel, rfl⟩ : ∃ n, fuel = n + 1 := ⟨fuel - 1, by omega⟩
  have hvalue : parse text scan (fuel + 1) frames _ _ spans = _ :=
    h.item ht (by omega) hcalls htext hgap.before
      (delimited_append hgap.after (by decide) (by decide))
  refine array_eq_ok.mpr ⟨t.data, _, _, hvalue, .inl
    ⟨whitespace_cons hgap.after (by decide), rfl, ?_⟩⟩
  simp only [readSpans_text, readSpans_append, readSpans_nil]

theorem items_more_parsed {gap : Gap} {t : Tree} {items : Items} (hgap : gap.Valid) (ht : t.Valid)
    (h : TreeParsed scan t) (hitems : ItemsParsed scan items) :
    ItemsParsed scan (.more gap t items) := by
  intro text pre rest fuel frames path result spans hfuel hcalls htext
  simp only [Items.pieces, print_cons, print_append, Piece.chars, List.length_append,
    List.length_cons, List.append_assoc, List.cons_append, List.nil_append] at hfuel htext ⊢
  obtain ⟨fuel, rfl⟩ : ∃ n, fuel = n + 1 := ⟨fuel - 1, by omega⟩
  have hvalue : parse text scan (fuel + 1) frames _ _ spans = _ :=
    h.item ht (by omega) (max_lt_iff.mp hcalls).1 htext hgap.before
      (delimited_append hgap.after (by decide) (by decide))
  have htext' : text = (pre ++ gap.before ++ print (t.pieces (path ++ [.index result.length])) ++
      (gap.after ++ [','])) ++ (print (items.pieces path (result.length + 1)) ++ rest) := by
    rw [htext]
    simp only [List.append_assoc, List.cons_append, List.nil_append]
  have hlength : (result ++ [t.data]).length = result.length + 1 := List.length_append
  rw [← hlength] at htext' hfuel hvalue ⊢
  refine array_eq_ok.mpr ⟨t.data, _, _, hvalue, .inr
    ⟨_, whitespace_cons hgap.after (by decide), ?_⟩⟩
  refine (hitems (by omega) (max_lt_iff.mp hcalls).2 htext').trans ?_
  simp only [Items.data, readSpans_text, readSpans_append, List.length_append, List.append_assoc,
    List.cons_append, List.nil_append, List.length_cons, List.length_nil, Nat.add_assoc]

/-- A member of an object, up to the end of its value. -/
theorem TreeParsed.member {t : Tree} (h : TreeParsed scan t) {pre : List Char} {name : Name}
    (hname : name.Valid)
    (hfuel : 2 * (print (t.pieces (path ++ [.key name.key]))).length ≤ fuel + 1)
    (hcalls : t.calls scan < frames)
    (htext : text = pre ++ (name.chars ++ (print (t.pieces (path ++ [.key name.key])) ++ rest)))
    (hrest : Delimited rest) :
    parse text scan (fuel + 1) frames
        (name.value ++ (print (t.pieces (path ++ [.key name.key])) ++ rest))
        (path ++ [.key name.key]) spans =
      .ok (t.data, rest, readSpans (pre.length + name.chars.length)
        (t.pieces (path ++ [.key name.key])) spans) := by
  have htext' : text = (pre ++ (name.before ++ name.token ++ name.after ++ [':'])) ++ name.value ++
      (print (t.pieces (path ++ [.key name.key])) ++ rest) := by
    rw [htext]
    simp [Name.chars]
  have hlength : (pre ++ (name.before ++ name.token ++ name.after ++ [':']) ++ name.value).length =
      pre.length + name.chars.length := by
    simp [Name.chars]
  rw [h hfuel hcalls htext' hname.value hrest, hlength]

theorem members_last_parsed {name : Name} {t : Tree} {after : List Char} (hname : name.Valid)
    (hafter : Blank after) (h : TreeParsed scan t) : MembersParsed scan (.last name t after) := by
  intro text pre rest fuel frames path result spans hfuel hcalls hnew htext
  simp only [Members.pieces, print_cons, print_append, print_nil, Piece.chars, List.length_append,
    List.append_nil, List.length_cons, List.append_assoc, List.singleton_append] at hfuel htext ⊢
  obtain ⟨fuel, rfl⟩ : ∃ n, fuel = n + 1 := ⟨fuel - 1, by omega⟩
  obtain ⟨hkey, hcolon⟩ := scanOnce_name hname
    (print (t.pieces (path ++ [.key name.key])) ++ (after ++ '}' :: rest))
  have hvalue : parse text scan (fuel + 1) frames _ _ spans = _ :=
    h.member hname (by omega) hcalls htext
      (delimited_append hafter (by decide) (by decide))
  refine object_eq_ok.mpr ⟨name.key, _, _, t.data, _, _, hkey, hnew _ (List.mem_singleton_self _),
    hcolon, hvalue, .inl ⟨whitespace_cons hafter (by decide), rfl, ?_⟩⟩
  simp only [readSpans_text, readSpans_append, readSpans_nil]

theorem members_more_parsed {name : Name} {t : Tree} {after : List Char} {members : Members}
    (hname : name.Valid) (hafter : Blank after) (hkeys : name.key ∉ members.keys)
    (h : TreeParsed scan t) (hmembers : MembersParsed scan members) :
    MembersParsed scan (.more name t after members) := by
  intro text pre rest fuel frames path result spans hfuel hcalls hnew htext
  simp only [Members.pieces, print_cons, print_append, Piece.chars, List.length_append,
    List.length_cons, List.append_assoc, List.cons_append, List.nil_append] at hfuel htext ⊢
  obtain ⟨fuel, rfl⟩ : ∃ n, fuel = n + 1 := ⟨fuel - 1, by omega⟩
  obtain ⟨hkey, hcolon⟩ := scanOnce_name hname
    (print (t.pieces (path ++ [.key name.key])) ++
      (after ++ ',' :: (print (members.pieces path) ++ rest)))
  have hvalue : parse text scan (fuel + 1) frames _ _ spans = _ :=
    h.member hname (by omega) (max_lt_iff.mp hcalls).1 htext
      (delimited_append hafter (by decide) (by decide))
  have htext' : text = (pre ++ name.chars ++ print (t.pieces (path ++ [.key name.key])) ++
      (after ++ [','])) ++ (print (members.pieces path) ++ rest) := by
    rw [htext]
    simp only [List.append_assoc, List.cons_append, List.nil_append]
  -- the keys to come are also different from this one
  have hnew' : ∀ key ∈ members.keys,
      key ∉ (result ++ [(name.key, t.data)]).map Prod.fst := by
    intro key hmem
    simp only [List.map_append, List.map_cons, List.map_nil, List.mem_append, List.mem_singleton]
    rintro (hold | rfl)
    · exact hnew key (List.mem_cons_of_mem _ hmem) hold
    · exact hkeys hmem
  refine object_eq_ok.mpr ⟨name.key, _, _, t.data, _, _, hkey, hnew _ List.mem_cons_self,
    hcolon, hvalue, .inr ⟨_, whitespace_cons hafter (by decide), ?_⟩⟩
  refine (hmembers (by omega) (max_lt_iff.mp hcalls).2 hnew' htext').trans ?_
  simp only [Members.data, readSpans_text, readSpans_append, List.length_append, List.append_assoc,
    List.cons_append, List.nil_append, List.length_cons, List.length_nil, Nat.add_assoc]

mutual

theorem tree_parsed : (t : Tree) → t.Valid → TreeParsed scan t
  | .scalar _ _, .scalar htoken => scalar_parsed htoken
  | .emptyArray _, .emptyArray hinner => emptyArray_parsed hinner
  | .array items, .array hitems => array_parsed hitems (items_parsed items hitems)
  | .emptyObject _, .emptyObject hinner => emptyObject_parsed hinner
  | .object members, .object hmembers hkeys =>
    object_parsed hmembers (members_parsed members hmembers hkeys)

theorem items_parsed : (items : Items) → items.Valid → ItemsParsed scan items
  | .last _ t, .last hgap ht => items_last_parsed hgap ht (tree_parsed t ht)
  | .more _ t rest, .more hgap ht hrest =>
    items_more_parsed hgap ht (tree_parsed t ht) (items_parsed rest hrest)

theorem members_parsed : (members : Members) → members.Valid → members.keys.Nodup →
    MembersParsed scan members
  | .last _ t _, .last hname ht hafter, _ => members_last_parsed hname hafter (tree_parsed t ht)
  | .more _ t _ rest, .more hname ht hafter hrest, hkeys =>
    members_more_parsed hname hafter (List.nodup_cons.mp hkeys).1 (tree_parsed t ht)
      (members_parsed rest hrest (List.nodup_cons.mp hkeys).2)

end

end JsonDocument

/-! ## What is accepted -/

open JsonDocument

/-- `t` with white space around it is the document `text`, with these data and spans. -/
structure Reads (text : List Char) (data : Data) (spans : Spans) (before after : List Char)
    (t : Tree) : Prop where
  blank_before : Blank before
  blank_after : Blank after
  valid : t.Valid
  text_eq : text = before ++ print (t.pieces []) ++ after
  data_eq : data = t.data
  spans_eq : spans = (spansFrom before.length (t.pieces [])).reverse

variable {text : List Char} {scan : Bool} {frames : Nat} {data : Data} {spans : Spans}

theorem reads_of_jsonDocument (h : jsonDocument scan frames text = .ok (data, spans)) :
    ∃ before after t, Reads text data spans before after t ∧ t.calls scan < frames := by
  rw [jsonDocument] at h
  cases hparse : parse text scan (2 * text.length + 2) frames text [] [] with
  | error e =>
    rw [hparse] at h
    cases h
  | ok r =>
    obtain ⟨d, rest, spans'⟩ := r
    simp only [hparse] at h
    split at h
    · rename_i hrest
      obtain ⟨rfl, rfl⟩ := Prod.mk.inj (Except.ok.inj h)
      obtain ⟨after, hafter, hsplit⟩ := whitespace_split rest
      rw [hrest, List.append_nil] at hsplit
      subst hsplit
      have hdelimited : Delimited rest := delimited_of_whitespace (by simp [hrest, Delimited])
      obtain ⟨before, t, hbefore, ht, hcalls, htext, rfl, rfl⟩ :=
        (sound text scan _).1 (show text = [] ++ text from rfl) hparse hdelimited
      refine ⟨before, rest, t, ⟨hbefore, hafter, ht, htext, rfl, ?_⟩, hcalls⟩
      rw [readSpans, List.append_nil, List.nil_append]
    · cases h

theorem Reads.jsonDocument {before after : List Char} {t : Tree}
    (h : Reads text data spans before after t) (hcalls : t.calls scan < frames) :
    jsonDocument scan frames text = .ok (data, spans) := by
  have htext := h.text_eq
  rw [List.append_assoc] at htext
  have hspace : whitespace after = [] := by
    have happend : whitespace (after ++ []) = [] := whitespace_append h.blank_after (by simp)
    rwa [List.append_nil] at happend
  have hdelimited : Delimited after := delimited_of_whitespace (by simp [hspace, Delimited])
  have hfuel : 2 * (print (t.pieces [])).length ≤ 2 * text.length + 1 + 1 := by
    rw [htext, List.length_append, List.length_append]
    omega
  have hparse : parse text scan (2 * text.length + 1 + 1) frames _ [] [] = _ :=
    tree_parsed t h.valid hfuel hcalls (show text = [] ++ before ++ _ from htext) h.blank_before
      hdelimited
  rw [← htext] at hparse
  rw [h.data_eq, h.spans_eq]
  simp only [Release.jsonDocument, hparse, if_pos hspace, readSpans, List.append_nil,
    List.nil_append]

/-- Exactly the texts of well-formed trees are accepted, with white space around them, as far
as their nesting fits the recursion limit, and what is read are the tree's data and the places of
its scalars. -/
theorem jsonDocument_eq_ok : jsonDocument scan frames text = .ok (data, spans) ↔
    ∃ before after t, Reads text data spans before after t ∧ t.calls scan < frames :=
  ⟨reads_of_jsonDocument, fun ⟨_, _, _, h, hcalls⟩ => h.jsonDocument hcalls⟩

end McpVenusOs.Release
