/-
  McpVenusOs.Release.JsonEdit

  `_json_edit` of `version_plan.py`: the owned version fields of a JSON manifest
  or an npm lock are replaced in the text itself.

  What is written is parsed again as the data with just these fields replaced
  (`jsonEdit_edits`), and a second edit changes nothing (`jsonEdit_again`).
-/

import Mathlib.Data.Char
import Mathlib.Data.List.Lex
import Mathlib.Data.List.Sort
import Mathlib.Data.Prod.Lex
import McpVenusOs.Release.JsonDocument

namespace McpVenusOs.Release

open JsonScan JsonTree

/-- What a field is to hold: a string or an integer. -/
inductive Projected
  | text (s : String)
  | number (n : Int)
  deriving DecidableEq

/-- The code points of a string. -/
def codes (s : String) : List Nat := s.toList.map Char.toNat

def Projected.scalar : Projected → Scalar
  | .text s => .str (codes s)
  | .number n => .int n

/-- `json.dumps(replacement, ensure_ascii=False)`; `none` is a `ValueError`. -/
def Projected.dumps : Projected → Option (List Char)
  | .text s => some (dumpsStr s.toList)
  | .number n => dumpsInt n

/-- `_scalar` -/
def scalar (value : Projected) (old : Scalar) : Except ReleaseError Projected :=
  match old, value with
  | .int _, .number n => .ok (.number n)
  | .int _, .text _ =>
    .error (.version "A numeric version field requires a numeric build projection")
  | .str _, .text s => .ok (.text s)
  | .str _, .number n => do return .text (← intText n)
  | _, _ => .error (.version "Owned version field must be a string or integer")

/-- `_get` of string keys -/
def getField (data : Data) (field : List String) : Except ReleaseError Data :=
  match data.get (field.map codes) with
  | some d => .ok d
  | none => .error (.version "Missing version field: " field)

/-- The key of `spans`. -/
def spanKey (field : List String) : Path := (field.map codes).map .key

/-- A string that is equal to `s`. -/
def isText (d : Option Data) (s : String) : Bool :=
  match d with
  | some (.scalar (.str t)) => t == codes s
  | _ => false

def isObject : Data → Bool
  | .object _ => true
  | _ => false

/-- `isinstance(data, dict) and data.get("name") == declaration["package"]` -/
def ownsPackage (data : Data) (package : Option String) : Except ReleaseError Bool :=
  if isObject data then
    match package with
    | some package => .ok (isText (data.field (codes "name")) package)
    | none => .error .keyError
  else .ok false

/-- `fields`, and the checks before them. -/
def ownedFields (data : Data) (item : Declaration) : Except ReleaseError (List (List String)) :=
  if item.format = some "npm-lock" then do
    let owns ← ownsPackage data item.package
    require owns "npm lock does not own the selected package"
    if (data.field (codes "packages")).isSome then
      let own ← getField data ["packages", ""]
      require (isObject own &&
          isText ((own.field (codes "name")).or (data.field (codes "name")))
            (item.package.getD ""))
        "npm lock root package identity mismatch"
      return [["version"], ["packages", "", "version"]]
    else return [["version"]]
  else
    match item.field with
    | none => .error .keyError
    | some field => do
      let path ← field.path
      if item.package.isSome then
        let owns ← ownsPackage data item.package
        require owns "JSON manifest does not own the selected package"
      return [path]

/-- One turn of the loop over the fields: its edit, if any, and the old value. -/
def editField (data : Data) (spans : Spans) (value : Projected) (field : List String) :
    Except ReleaseError (Option (Nat × Nat × List Char) × Scalar) := do
  let old ← getField data field
  match spans.lookup (spanKey field) with
  | none => .error (.version "JSON version field is not a scalar")
  | some (start, stop) =>
    match old with
    | .scalar old => do
      let replacement ← scalar value old
      if old = replacement.scalar then return (none, old)
      else
        match replacement.dumps with
        | none => .error .valueError
        | some token => return (some (start, stop, token), old)
    | _ => .error (.version "Owned version field must be a string or integer")

/-- The loop over the fields: `edits` and `previous`. -/
def editFields (data : Data) (spans : Spans) (value : Projected) : List (List String) →
    Except ReleaseError (List (Nat × Nat × List Char) × List Scalar)
  | [] => .ok ([], [])
  | field :: fields => do
    let first ← editField data spans value field
    let rest ← editFields data spans value fields
    return (first.1.toList ++ rest.1, first.2 :: rest.2)

/-- The order of the tuples. -/
def editKey (edit : Nat × Nat × List Char) : Nat ×ₗ Nat ×ₗ List Char :=
  toLex (edit.1, toLex edit.2)

/-- `sorted(edits, reverse=True)` -/
def sortedReverse (edits : List (Nat × Nat × List Char)) : List (Nat × Nat × List Char) :=
  edits.insertionSort fun a b => editKey b ≤ editKey a

/-- `_json_edit`, which leaves `_json_document` `frames` calls: the text with the edits
    made, and the old values. -/
def jsonEdit (scan : Bool) (frames : Nat) (text : List Char) (item : Declaration)
    (value : Projected) : Except ReleaseError (List Char × List Scalar) := do
  let document ← jsonDocument scan frames text
  let fields ← ownedFields document.1 item
  let edits ← editFields document.1 document.2 value fields
  return ((sortedReverse edits.1).foldl splice text, edits.2)

/-! ## What replaces a value -/

theorem scalar_eq_ok {value new : Projected} {old : Scalar} : scalar value old = .ok new ↔
    (∃ m n, old = .int m ∧ value = .number n ∧ new = .number n) ∨
      ∃ s t, old = .str s ∧ new = .text t ∧
        (value = .text t ∨ ∃ n, value = .number n ∧ intText n = .ok t) := by
  cases old with
  | int m =>
    cases value with
    | text s => simp [scalar]
    | number n => simp [scalar, eq_comm]
  | str s =>
    cases value with
    | text t => simp [scalar, eq_comm]
    | number n =>
      simp only [scalar, bind_eq_ok, pure_eq_ok]
      simp [eq_comm, and_comm]
  | _ => simp [scalar]

/-- A value that was put in place is put in place again. -/
theorem scalar_again {value new : Projected} {old : Scalar} (h : scalar value old = .ok new) :
    scalar value new.scalar = .ok new := by
  rcases scalar_eq_ok.mp h with ⟨m, n, -, rfl, rfl⟩ | ⟨s, t, -, rfl, hvalue⟩
  · rfl
  · rcases hvalue with rfl | ⟨n, rfl, htext⟩
    · rfl
    · exact scalar_eq_ok.mpr (.inr ⟨codes t, t, rfl, rfl, .inr ⟨n, rfl, htext⟩⟩)

theorem dumps_token {value : Projected} {token : List Char} (h : value.dumps = some token) :
    Token value.scalar token := by
  cases value with
  | text s =>
    obtain rfl := Option.some.inj h
    exact dumpsStr_token s.toList
  | number n => exact dumpsInt_token h

/-- `new` is put in place of `old`. -/
def Replaces (value : Projected) (old new : Scalar) : Prop :=
  ∃ replacement, scalar value old = .ok replacement ∧ new = replacement.scalar

/-- What replaces the old value, and its token. -/
def renewal (value : Projected) (old : Scalar) : Option (Scalar × List Char) :=
  match scalar value old with
  | .ok new => if old = new.scalar then none else new.dumps.map fun token => (new.scalar, token)
  | .error _ => none

/-- The edit of the owned fields: every other scalar stays. -/
def ownedEdit (data : Data) (fields : List (List String)) (value : Projected) : Edit := fun path =>
  (fields.find? fun field => spanKey field = path).bind fun field =>
    match data.get (field.map codes) with
    | some (.scalar old) => renewal value old
    | _ => none

theorem renewal_of_scalar {value new : Projected} {old : Scalar}
    (h : scalar value old = .ok new) : renewal value old =
      if old = new.scalar then none else new.dumps.map fun token => (new.scalar, token) := by
  rw [renewal, h]

theorem renewal_token {value : Projected} {old v : Scalar} {token : List Char}
    (h : renewal value old = some (v, token)) : Token v token := by
  rw [renewal] at h
  split at h
  · split at h
    · cases h
    · obtain ⟨token', htoken, heq⟩ := Option.map_eq_some_iff.mp h
      obtain ⟨rfl, rfl⟩ := Prod.mk.inj heq
      exact dumps_token htoken
  · cases h

theorem ownedEdit_valid (data : Data) (fields : List (List String)) (value : Projected) :
    (ownedEdit data fields value).Valid := by
  intro path v token h
  obtain ⟨field, -, h⟩ := Option.bind_eq_some_iff.mp h
  split at h
  · exact renewal_token h
  · cases h

theorem codes_injective {s t : String} (h : codes s = codes t) : s = t := by
  have hchars : Function.Injective Char.toNat := fun a b hab =>
    Char.ext (UInt32.toNat_inj.mp hab)
  exact String.toList_inj.mp (List.map_injective_iff.mpr hchars h)

theorem spanKey_injective {field field' : List String} (h : spanKey field = spanKey field') :
    field = field' := by
  have hkeys : Function.Injective PathKey.key := fun a b hab => PathKey.key.inj hab
  exact List.map_injective_iff.mpr (fun _ _ => codes_injective)
    (List.map_injective_iff.mpr hkeys h)

/-- At an owned field the edit is the renewal of what is there. -/
theorem ownedEdit_field {data : Data} {fields : List (List String)} {value : Projected}
    {field : List String} {old : Scalar} (hfield : field ∈ fields)
    (hget : data.get (field.map codes) = some (.scalar old)) :
    ownedEdit data fields value (spanKey field) = renewal value old := by
  have hfind : (fields.find? fun f => spanKey f = spanKey field) = some field := by
    cases hfind : fields.find? fun f => spanKey f = spanKey field with
    | none =>
      have hnone := List.find?_eq_none.mp hfind field hfield
      simp at hnone
    | some f =>
      have hf := List.find?_some hfind
      rw [spanKey_injective (of_decide_eq_true hf)]
  rw [ownedEdit, hfind, Option.bind_some, hget]

theorem ownedEdit_other {data : Data} {fields : List (List String)} {value : Projected}
    {path : Path} (h : path ∉ fields.map spanKey) : ownedEdit data fields value path = none := by
  have hfind : (fields.find? fun f => spanKey f = path) = none := by
    refine List.find?_eq_none.mpr fun f hf => ?_
    intro heq
    exact h (List.mem_map.mpr ⟨f, hf, of_decide_eq_true heq⟩)
  rw [ownedEdit, hfind, Option.bind_none]

/-! ## The fields, one by one -/

section
variable {data : Data} {spans : Spans} {value : Projected} {field : List String}
variable {fields : List (List String)}

/-- The field holds `old`, which has a replacement. -/
def Renewed (data : Data) (value : Projected) (field : List String) (old : Scalar) : Prop :=
  data.get (field.map codes) = some (.scalar old) ∧
    ∃ new, scalar value old = .ok new ∧ (old = new.scalar ∨ new.dumps ≠ none)

theorem getField_eq_ok {d : Data} :
    getField data field = .ok d ↔ data.get (field.map codes) = some d := by
  rw [getField]
  split
  · rename_i d' h
    rw [h, Except.ok.injEq, Option.some.injEq]
  · rename_i h
    simp [h]

theorem editField_eq_ok {edit : Option (Nat × Nat × List Char)} {old : Scalar} :
    editField data spans value field = .ok (edit, old) ↔
      Renewed data value field old ∧ ∃ span, spans.lookup (spanKey field) = some span ∧
        edit = (renewal value old).map fun r => (span.1, span.2, r.2) := by
  rw [editField, bind_eq_ok]
  simp only [getField_eq_ok]
  constructor
  · rintro ⟨d, hget, h⟩
    cases hspan : spans.lookup (spanKey field) with
    | none => simp [hspan] at h
    | some span =>
      cases d with
      | scalar v =>
        simp only [hspan, bind_eq_ok] at h
        obtain ⟨new, hnew, h⟩ := h
        split at h
        · rename_i hsame
          obtain ⟨rfl, rfl⟩ := Prod.mk.inj (pure_eq_ok.mp h)
          refine ⟨⟨hget, new, hnew, .inl hsame⟩, span, rfl, ?_⟩
          rw [renewal_of_scalar hnew, if_pos hsame, Option.map_none]
        · rename_i hdiffer
          split at h
          · cases h
          · rename_i token htoken
            obtain ⟨rfl, rfl⟩ := Prod.mk.inj (pure_eq_ok.mp h)
            refine ⟨⟨hget, new, hnew, .inr (by simp [htoken])⟩, span, rfl, ?_⟩
            rw [renewal_of_scalar hnew, if_neg hdiffer, htoken, Option.map_some, Option.map_some]
      | _ => simp [hspan] at h
  · rintro ⟨⟨hget, new, hnew, hdumps⟩, span, hspan, rfl⟩
    refine ⟨.scalar old, hget, ?_⟩
    simp only [hspan, bind_eq_ok]
    refine ⟨new, hnew, ?_⟩
    split
    · rename_i hsame
      rw [renewal_of_scalar hnew, if_pos hsame, Option.map_none, pure_eq_ok]
    · rename_i hdiffer
      obtain ⟨token, htoken⟩ := Option.ne_none_iff_exists'.mp (hdumps.resolve_left hdiffer)
      simp only [renewal_of_scalar hnew, if_neg hdiffer, htoken, Option.map_some, pure_eq_ok]

theorem renewed_of_mem {previous : List Scalar}
    (h : List.Forall₂ (Renewed data value) fields previous) (hfield : field ∈ fields) :
    ∃ old, Renewed data value field old := by
  induction h with
  | nil => cases hfield
  | cons hfirst _ ih =>
    rcases List.mem_cons.mp hfield with rfl | hmem
    · exact ⟨_, hfirst⟩
    · exact ih hmem

/-- The loop over some of the fields collects their renewals. -/
theorem editFields_eq_ok {owned : List (List String)} (hfields : ∀ field ∈ fields, field ∈ owned)
    {edits : List (Nat × Nat × List Char)} {previous : List Scalar} :
    editFields data spans value fields = .ok (edits, previous) ↔
      List.Forall₂ (Renewed data value) fields previous ∧
        (∀ field ∈ fields, (spans.lookup (spanKey field)).isSome) ∧
        edits = fields.filterMap fun field => (spans.lookup (spanKey field)).bind fun span =>
          (ownedEdit data owned value (spanKey field)).map fun r => (span.1, span.2, r.2) := by
  induction fields generalizing edits previous with
  | nil =>
    constructor
    · intro h
      obtain ⟨rfl, rfl⟩ := Prod.mk.inj (Except.ok.inj h)
      exact ⟨.nil, by simp, rfl⟩
    · rintro ⟨hforall, -, rfl⟩
      cases hforall
      rfl
  | cons field fields ih =>
    have ih := @ih fun f hf => hfields f (List.mem_cons_of_mem _ hf)
    have hfield := hfields field List.mem_cons_self
    rw [editFields]
    simp only [bind_eq_ok, pure_eq_ok, Prod.mk.injEq, Prod.exists]
    constructor
    · rintro ⟨edit, old, hfirst, edits', previous', hrest, rfl, rfl⟩
      obtain ⟨hrenewed, span, hspan, rfl⟩ := editField_eq_ok.mp hfirst
      obtain ⟨hforall, hspans, rfl⟩ := ih.mp hrest
      refine ⟨.cons hrenewed hforall, ?_, ?_⟩
      · intro f hf
        rcases List.mem_cons.mp hf with rfl | hf
        · rw [hspan]
          rfl
        · exact hspans f hf
      · rw [List.filterMap_cons, hspan, Option.bind_some, ownedEdit_field hfield hrenewed.1]
        cases renewal value old <;> rfl
    · rintro ⟨hforall, hspans, rfl⟩
      cases hforall with
      | cons hrenewed hrest =>
        rename_i old previous'
        obtain ⟨span, hspan⟩ := Option.isSome_iff_exists.mp (hspans field List.mem_cons_self)
        refine ⟨_, old, editField_eq_ok.mpr ⟨hrenewed, span, hspan, rfl⟩, _, previous', ih.mpr
          ⟨hrest, fun f hf => hspans f (List.mem_cons_of_mem _ hf), rfl⟩, ?_, rfl⟩
        rw [List.filterMap_cons, hspan, Option.bind_some, ownedEdit_field hfield hrenewed.1]
        cases renewal value old <;> rfl

end

/-! ## The text -/

theorem sortedReverse_descends (edits : List (Nat × Nat × List Char)) :
    (sortedReverse edits).Pairwise fun a b => b.1 ≤ a.1 := by
  have htotal : Std.Total fun a b => editKey b ≤ editKey a := ⟨fun a b => le_total _ _⟩
  have htrans : IsTrans _ fun a b => editKey b ≤ editKey a := ⟨fun a b c hab hbc => hbc.trans hab⟩
  refine (List.pairwise_insertionSort (fun a b => editKey b ≤ editKey a) edits).imp ?_
  intro a b hab
  rcases Prod.Lex.toLex_le_toLex.mp hab with hlt | ⟨heq, -⟩
  · exact hlt.le
  · exact heq.le

theorem ownsPackage_eq_true {data : Data} {package : Option String} :
    ownsPackage data package = .ok true ↔
      ∃ p, package = some p ∧ isText (data.field (codes "name")) p = true := by
  cases data with
  | object members =>
    cases package with
    | none => simp [ownsPackage, isObject]
    | some p => simp [ownsPackage, isObject]
  | _ => simp [ownsPackage, isObject, Data.field, isText]

theorem ownsPackage_bind_eq_ok {data : Data} {package : Option String} {message : String}
    {β : Type} {f : Unit → Except ReleaseError β} {b : β} :
    (ownsPackage data package >>= fun owns => require owns message >>= f) = .ok b ↔
      (∃ p, package = some p ∧ isText (data.field (codes "name")) p = true) ∧ f () = .ok b := by
  rw [bind_eq_ok]
  simp only [require_bind_eq_ok]
  constructor
  · rintro ⟨_, howns, rfl, hf⟩
    exact ⟨ownsPackage_eq_true.mp howns, hf⟩
  · rintro ⟨howns, hf⟩
    exact ⟨true, ownsPackage_eq_true.mpr howns, rfl, hf⟩

/-- The package and the fields that a declaration owns. -/
theorem ownedFields_eq_ok {data : Data} {item : Declaration} {fields : List (List String)} :
    ownedFields data item = .ok fields ↔
      (item.format = some "npm-lock" ∧ ∃ package, item.package = some package ∧
        isText (data.field (codes "name")) package = true ∧
        ((data.field (codes "packages") = none ∧ fields = [["version"]]) ∨
          ∃ own, data.get (["packages", ""].map codes) = some own ∧ isObject own = true ∧
            isText ((own.field (codes "name")).or (data.field (codes "name"))) package = true ∧
            fields = [["version"], ["packages", "", "version"]])) ∨
      (item.format ≠ some "npm-lock" ∧ ∃ field path, item.field = some field ∧
        field.path = .ok path ∧
        (∀ package, item.package = some package →
          isText (data.field (codes "name")) package = true) ∧ fields = [path]) := by
  rw [ownedFields]
  by_cases hformat : item.format = some "npm-lock"
  · simp only [hformat, if_true, true_and, ne_eq, not_true_eq_false, false_and, or_false]
    rw [ownsPackage_bind_eq_ok]
    cases hpackages : data.field (codes "packages") with
    | none =>
      have hget : data.get (["packages", ""].map codes) = none := by
        simp only [List.map_cons, Data.get, hpackages, Option.bind_none]
      simp only [Option.isSome_none, Bool.false_eq_true, if_false, pure_eq_ok, hget]
      constructor
      · rintro ⟨⟨p, hp, hname⟩, rfl⟩
        exact ⟨p, hp, hname, .inl ⟨trivial, rfl⟩⟩
      · rintro ⟨p, hp, hname, ⟨-, rfl⟩ | ⟨_, ⟨⟩, -⟩⟩
        exact ⟨⟨p, hp, hname⟩, rfl⟩
    | some d =>
      simp only [Option.isSome_some, if_true, bind_eq_ok, getField_eq_ok, pure_eq_ok]
      constructor
      · rintro ⟨⟨p, hp, hname⟩, own, hown, h⟩
        obtain ⟨⟨⟩, hcheck, rfl⟩ := h
        rw [require_eq_ok, hp, Option.getD_some, Bool.and_eq_true] at hcheck
        exact ⟨p, hp, hname, .inr ⟨own, hown, hcheck.1, hcheck.2, rfl⟩⟩
      · rintro ⟨p, hp, hname, ⟨⟨⟩, -⟩ | ⟨own, hown, hobject, htext, rfl⟩⟩
        refine ⟨⟨p, hp, hname⟩, own, hown, (), ?_, rfl⟩
        rw [require_eq_ok, hp, Option.getD_some, hobject, htext]
        rfl
  · simp only [hformat, if_false, false_and, false_or, ne_eq, not_false_eq_true, true_and]
    cases item.field with
    | none => simp
    | some field =>
      simp only [bind_eq_ok, Option.some.injEq, ↓existsAndEq, true_and]
      refine exists_congr fun path => and_congr_right fun _ => ?_
      cases hpackage : item.package with
      | none =>
        simp only [Option.isSome_none, Bool.false_eq_true, if_false, pure_eq_ok, reduceCtorEq,
          false_imp_iff, implies_true, true_and]
        exact eq_comm
      | some p =>
        simp only [Option.isSome_some, if_true, Option.some.injEq, forall_eq']
        rw [ownsPackage_bind_eq_ok, pure_eq_ok, eq_comm (a := [path])]
        simp only [Option.some.injEq, exists_eq_left']

theorem ownedFields_nodup {data : Data} {item : Declaration} {fields : List (List String)}
    (h : ownedFields data item = .ok fields) : fields.Nodup := by
  rcases ownedFields_eq_ok.mp h with ⟨-, -, -, -, ⟨-, rfl⟩ | ⟨-, -, -, -, rfl⟩⟩ |
    ⟨-, -, path, -, -, -, rfl⟩
  · decide
  · decide
  · exact List.nodup_singleton path

/-- The edits of a document, made one after the other. -/
theorem foldl_edits {before after : List Char} {t : Tree} (ht : t.Valid) {data : Data}
    {fields : List (List String)} (hfields : fields.Nodup) (value : Projected) :
    (sortedReverse (fields.filterMap fun field =>
        ((spansFrom before.length (t.pieces [])).reverse.lookup (spanKey field)).bind fun span =>
          (ownedEdit data fields value (spanKey field)).map fun r =>
            (span.1, span.2, r.2))).foldl splice (before ++ print (t.pieces []) ++ after) =
      before ++ print ((t.edit (ownedEdit data fields value) []).pieces []) ++ after := by
  have hprint : ∀ pieces, print (.text before :: (pieces ++ [.text after])) =
      before ++ print pieces ++ after := by
    intro pieces
    simp [Piece.chars]
  have hspans : spansFrom 0 (.text before :: (t.pieces [] ++ [.text after])) =
      spansFrom before.length (t.pieces []) := by
    simp [spansFrom_append, spansFrom]
  have hlabels : (labels (.text before :: (t.pieces [] ++ [.text after]))).Nodup := by
    simpa [labels_append] using t.labels_nodup [] ht
  have hsolid : Solid (.text before :: (t.pieces [] ++ [.text after])) :=
    solid_text (solid_append (t.solid [] ht) (solid_text solid_nil))
  have hperm := perm_splices (f := ownedEdit data fields value) hsolid hlabels
    ((List.reverse_perm _).trans (.of_eq hspans.symm))
    (List.Nodup.map (fun _ _ => spanKey_injective) hfields) (fun path => ownedEdit_other)
  rw [List.filterMap_map] at hperm
  have hfold := foldl_splices (ownedEdit data fields value) hsolid
    ((List.perm_insertionSort _ _).trans hperm) (sortedReverse_descends _)
  rw [hprint] at hfold
  simp only [List.map_cons, List.map_append, List.map_nil, Piece.edit, hprint,
    ← Tree.edit_pieces] at hfold
  exact hfold

/-! ## What `_json_edit` does -/

/-- When it succeeds, and with what. -/
theorem jsonEdit_eq_ok {scan : Bool} {frames : Nat} {text text' : List Char}
    {item : Declaration} {value : Projected} {previous : List Scalar} :
    jsonEdit scan frames text item value = .ok (text', previous) ↔
      ∃ (before after : List Char) (t : Tree) (fields : List (List String)), Blank before ∧
        Blank after ∧ t.Valid ∧ t.calls scan < frames ∧
        text = before ++ print (t.pieces []) ++ after ∧
        ownedFields t.data item = .ok fields ∧
        List.Forall₂ (Renewed t.data value) fields previous ∧
        text' = before ++
          print ((t.edit (ownedEdit t.data fields value) []).pieces []) ++ after := by
  rw [jsonEdit, bind_eq_ok]
  constructor
  · rintro ⟨⟨data, spans⟩, hdocument, h⟩
    obtain ⟨before, after, t, ⟨hbefore, hafter, ht, rfl, rfl, rfl⟩, hcalls⟩ :=
      reads_of_jsonDocument hdocument
    obtain ⟨fields, hfields, h⟩ := bind_eq_ok.mp h
    obtain ⟨⟨edits, previous'⟩, hedits, h⟩ := bind_eq_ok.mp h
    obtain ⟨rfl, rfl⟩ := Prod.mk.inj (pure_eq_ok.mp h)
    obtain ⟨hrenewed, -, rfl⟩ := (editFields_eq_ok fun _ hf => hf).mp hedits
    exact ⟨before, after, t, fields, hbefore, hafter, ht, hcalls, rfl, hfields, hrenewed,
      foldl_edits ht (ownedFields_nodup hfields) value⟩
  · rintro ⟨before, after, t, fields, hbefore, hafter, ht, hcalls, rfl, hfields, hrenewed, rfl⟩
    refine ⟨_, Reads.jsonDocument (t := t) ⟨hbefore, hafter, ht, rfl, rfl, rfl⟩ hcalls, ?_⟩
    simp only [bind_eq_ok, pure_eq_ok]
    refine ⟨fields, hfields, (_, previous),
      (editFields_eq_ok fun _ hf => hf).mpr ⟨hrenewed, ?_, rfl⟩, ?_⟩
    · intro field hfield
      obtain ⟨old, hget, -⟩ := renewed_of_mem hrenewed hfield
      obtain ⟨token, hleaf⟩ := t.leaf_of_get [] (field.map codes) hget
      exact lookup_isSome_of_leaf (List.reverse_perm _) hleaf
    · rw [foldl_edits ht (ownedFields_nodup hfields) value]

/-- What the owned fields are to hold, where it changes. -/
def ownedScalar (data : Data) (fields : List (List String)) (value : Projected) (path : Path) :
    Option Scalar :=
  (ownedEdit data fields value path).map Prod.fst

/-- The data with the owned fields replaced. -/
def editedData (data : Data) (fields : List (List String)) (value : Projected) : Data :=
  data.edit (ownedScalar data fields value) []

/-- An owned field then holds what replaces its value. -/
theorem get_editedData {data : Data} {fields : List (List String)} {value : Projected}
    {field : List String} {old : Scalar} (hfield : field ∈ fields)
    (h : Renewed data value field old) : ∃ new, scalar value old = .ok new ∧
      (editedData data fields value).get (field.map codes) = some (.scalar new.scalar) := by
  obtain ⟨hget, new, hnew, hdumps⟩ := h
  refine ⟨new, hnew, ?_⟩
  have hedit : Data.edit (ownedScalar data fields value) ([] ++ spanKey field) (.scalar old) =
      .scalar new.scalar := by
    rw [List.nil_append, Data.edit, ownedScalar, ownedEdit_field hfield hget,
      renewal_of_scalar hnew]
    by_cases hsame : old = new.scalar
    · rw [if_pos hsame, Option.map_none, Option.getD_none, hsame]
    · obtain ⟨token, htoken⟩ := Option.ne_none_iff_exists'.mp (hdumps.resolve_left hsame)
      rw [if_neg hsame, htoken, Option.map_some, Option.map_some, Option.getD_some]
  rw [editedData, Data.get_edit, hget]
  exact congrArg some hedit

/-- `text'` is the document `text` with its owned fields replaced, and nothing else changed: cut
at the scalars that were read, the two texts differ in the tokens of owned fields only. -/
structure DocumentEdit (scan : Bool) (frames : Nat) (text text' : List Char) (item : Declaration)
    (value : Projected) (previous : List Scalar) where
  data : Data
  spans : Spans
  spans' : Spans
  fields : List (List String)
  pieces : List Piece
  read : jsonDocument scan frames text = .ok (data, spans)
  owned : ownedFields data item = .ok fields
  written : jsonDocument scan frames text' = .ok (editedData data fields value, spans')
  old : List.Forall₂ (fun field old => data.get (field.map codes) = some (.scalar old)) fields
    previous
  new : ∀ field ∈ fields, ∀ old, data.get (field.map codes) = some (.scalar old) → ∃ new,
    (editedData data fields value).get (field.map codes) = some (.scalar new) ∧
      Replaces value old new
  read_pieces : print pieces = text
  read_spans : spans = (spansFrom 0 pieces).reverse
  written_pieces : print (pieces.map (Piece.edit (ownedEdit data fields value))) = text'
  written_spans : spans' =
    (spansFrom 0 (pieces.map (Piece.edit (ownedEdit data fields value)))).reverse

/-- What is written is parsed again, as the data with the owned fields replaced; all other
characters of the text are kept, and the old values are returned. -/
theorem jsonEdit_edits {scan : Bool} {frames : Nat} {text text' : List Char} {item : Declaration}
    {value : Projected} {previous : List Scalar}
    (h : jsonEdit scan frames text item value = .ok (text', previous)) :
    Nonempty (DocumentEdit scan frames text text' item value previous) := by
  obtain ⟨before, after, t, fields, hbefore, hafter, ht, hcalls, rfl, hfields, hrenewed, rfl⟩ :=
    jsonEdit_eq_ok.mp h
  have hcalls' : (t.edit (ownedEdit t.data fields value) []).calls scan < frames := by
    rwa [Tree.edit_calls]
  refine ⟨{
    data := t.data
    spans := _
    spans' := _
    fields := fields
    pieces := .text before :: (t.pieces [] ++ [.text after])
    read := Reads.jsonDocument (t := t) ⟨hbefore, hafter, ht, rfl, rfl, rfl⟩ hcalls
    owned := hfields
    written := Reads.jsonDocument (t := t.edit (ownedEdit t.data fields value) [])
      ⟨hbefore, hafter, Tree.edit_valid (ownedEdit_valid _ _ _) [] ht, rfl, ?_, rfl⟩ hcalls'
    old := hrenewed.imp fun _ _ hfield => hfield.1
    new := ?_
    read_pieces := ?_
    read_spans := ?_
    written_pieces := ?_
    written_spans := ?_ }⟩
  · rw [Tree.edit_data]
    rfl
  · intro field hfield old hget
    obtain ⟨old', hold⟩ := renewed_of_mem hrenewed hfield
    obtain rfl : old' = old := Data.scalar.inj (Option.some.inj (hold.1.symm.trans hget))
    obtain ⟨new, hnew, hget'⟩ := get_editedData hfield hold
    exact ⟨new.scalar, hget', new, hnew, rfl⟩
  · simp [Piece.chars]
  · simp [spansFrom_append, spansFrom]
  · simp [Piece.chars, Piece.edit, Tree.edit_pieces]
  · simp [spansFrom_append, spansFrom, Piece.edit, Tree.edit_pieces]

/-- An npm lock that owns its version twice. -/
def lockText (version : String) : List Char :=
  ("\x7b\n \"name\": \"a\",\n \"version\": \"" ++ version ++
    "\",\n \"packages\": \x7b\"\": \x7b\"version\": \"" ++ version ++ "\"\x7d\x7d\n\x7d\n").toList

def lockInput : Declaration where
  path := some "package-lock.json"
  format := some "npm-lock"
  package := some "a"

theorem jsonEdit_edits_lock :
    Nonempty (DocumentEdit false 1000 (lockText "1.0.9") (lockText "1.0.10") lockInput
      (.text "1.0.10") [.str (codes "1.0.9"), .str (codes "1.0.9")]) :=
  jsonEdit_edits (by decide +kernel)

/-! ## A second edit -/

/-- The declared field is the very name by which the package is recognised. -/
def RenamesPackage (item : Declaration) : Prop :=
  item.format ≠ some "npm-lock" ∧ item.package ≠ none ∧
    ∃ field, item.field = some field ∧ field.path = .ok ["name"]

theorem isText_edit {g : Path → Option Scalar} {path : Path} (hg : g path = none)
    (d : Option Data) (s : String) : isText (d.map (Data.edit g path)) s = isText d s := by
  cases d with
  | none => rfl
  | some d =>
    cases d with
    | scalar v => simp only [Option.map_some, Data.edit, hg, Option.getD_none]
    | _ => rfl

theorem isText_or_edit {g : Path → Option Scalar} {p q : Path} (hp : g p = none) (hq : g q = none)
    (a b : Option Data) (s : String) :
    isText ((a.map (Data.edit g p)).or (b.map (Data.edit g q))) s = isText (a.or b) s := by
  cases a with
  | none => exact isText_edit hq b s
  | some d => exact isText_edit hp (some d) s

theorem isObject_edit (g : Path → Option Scalar) (path : Path) (d : Data) :
    isObject (d.edit g path) = isObject d := by
  cases d <;> rfl

theorem field_edit (g : Path → Option Scalar) (path : Path) (key : List Nat) (d : Data) :
    (d.edit g path).field key = (d.field key).map (Data.edit g (path ++ [.key key])) := by
  cases d with
  | object members => exact Data.lookup_editFields g path key members
  | _ => rfl

/-- A field that is not owned is not edited. -/
theorem ownedScalar_other {data : Data} {fields : List (List String)} {value : Projected}
    {field : List String} (h : field ∉ fields) :
    ownedScalar data fields value (spanKey field) = none := by
  rw [ownedScalar, ownedEdit_other, Option.map_none]
  rw [List.mem_map_of_injective fun _ _ => spanKey_injective]
  exact h

/-- The edited document is owned as before. -/
theorem ownedFields_editedData {data : Data} {item : Declaration} {fields : List (List String)}
    {value : Projected} (h : ownedFields data item = .ok fields) (hname : ¬RenamesPackage item) :
    ownedFields (editedData data fields value) item = .ok fields := by
  have htext : ["name"] ∉ fields → ∀ package,
      isText ((editedData data fields value).field (codes "name")) package =
        isText (data.field (codes "name")) package := by
    intro hnotMem package
    rw [editedData, field_edit]
    exact isText_edit (ownedScalar_other hnotMem) _ _
  rcases ownedFields_eq_ok.mp h with ⟨hformat, package, hpackage, hown, hfields⟩ |
    ⟨hformat, field, path, hfield, hpath, hown, rfl⟩
  · refine ownedFields_eq_ok.mpr (.inl ⟨hformat, package, hpackage, ?_, ?_⟩)
    · rw [htext ?_]
      · exact hown
      · rcases hfields with ⟨-, rfl⟩ | ⟨-, -, -, -, rfl⟩ <;> decide
    · rcases hfields with ⟨hpackages, rfl⟩ | ⟨own, hget, hobject, hroot, rfl⟩
      · refine .inl ⟨?_, rfl⟩
        rw [editedData, field_edit, hpackages, Option.map_none]
      · have hother : ∀ field, field ∉ [["version"], ["packages", "", "version"]] →
            ownedScalar data [["version"], ["packages", "", "version"]] value (spanKey field) =
              none :=
          fun _ => ownedScalar_other
        have hroot' := isText_or_edit (hother ["packages", "", "name"] (by decide))
          (hother ["name"] (by decide)) (own.field (codes "name")) (data.field (codes "name"))
          package
        refine .inr ⟨_, (Data.get_edit _ _ _ _).trans (congrArg _ hget), ?_, ?_, rfl⟩
        · rw [isObject_edit]
          exact hobject
        · rw [editedData, field_edit, field_edit]
          exact hroot'.trans hroot
  · refine ownedFields_eq_ok.mpr (.inr ⟨hformat, field, path, hfield, hpath, ?_, rfl⟩)
    intro package hpackage
    rw [htext ?_]
    · exact hown package hpackage
    · intro hmem
      rw [← List.mem_singleton.mp hmem] at hpath
      exact hname ⟨hformat, by simp [hpackage], field, hfield, hpath⟩

/-- A field that was replaced needs no replacement. -/
theorem renewed_again {data : Data} {fields : List (List String)} {value : Projected}
    {field : List String} {old : Scalar} (hfield : field ∈ fields)
    (h : Renewed data value field old) : ∃ new, scalar value old = .ok new ∧
      Renewed (editedData data fields value) value field new.scalar ∧
      renewal value new.scalar = none := by
  obtain ⟨new, hnew, hget⟩ := get_editedData hfield h
  refine ⟨new, hnew, ⟨hget, new, scalar_again hnew, .inl rfl⟩, ?_⟩
  rw [renewal_of_scalar (scalar_again hnew), if_pos rfl]

theorem renewed_all_again {data : Data} {owned fields : List (List String)} {value : Projected}
    {previous : List Scalar} (h : List.Forall₂ (Renewed data value) fields previous)
    (hfields : ∀ field ∈ fields, field ∈ owned) : ∃ current,
      List.Forall₂ (Renewed (editedData data owned value) value) fields current ∧
      List.Forall₂ (Replaces value) previous current := by
  induction h with
  | nil => exact ⟨[], .nil, .nil⟩
  | cons hfirst _ ih =>
    obtain ⟨current, hcurrent, hprevious⟩ := ih fun f hf => hfields f (List.mem_cons_of_mem _ hf)
    obtain ⟨new, hnew, hagain, -⟩ := renewed_again (hfields _ List.mem_cons_self) hfirst
    exact ⟨new.scalar :: current, .cons hagain hcurrent, .cons ⟨new, hnew, rfl⟩ hprevious⟩

/-- In the edited data no owned field is left to edit. -/
theorem ownedEdit_editedData {data : Data} {fields : List (List String)} {value : Projected}
    {previous : List Scalar} (h : List.Forall₂ (Renewed data value) fields previous) (path : Path) :
    ownedEdit (editedData data fields value) fields value path = none := by
  by_cases hpath : path ∈ fields.map spanKey
  · obtain ⟨field, hfield, rfl⟩ := List.mem_map.mp hpath
    obtain ⟨old, hold⟩ := renewed_of_mem h hfield
    obtain ⟨new, -, hagain, hnone⟩ := renewed_again hfield hold
    rw [ownedEdit_field hfield hagain.1, hnone]
  · exact ownedEdit_other hpath

/-- An edited document is left as it is by the same edit, which finds what replaced the old
values. -/
theorem jsonEdit_again {scan : Bool} {frames : Nat} {text text' : List Char} {item : Declaration}
    {value : Projected} {previous : List Scalar}
    (h : jsonEdit scan frames text item value = .ok (text', previous))
    (hname : ¬RenamesPackage item) :
    ∃ current, jsonEdit scan frames text' item value = .ok (text', current) ∧
      List.Forall₂ (Replaces value) previous current := by
  obtain ⟨before, after, t, fields, hbefore, hafter, ht, hcalls, rfl, hfields, hrenewed, rfl⟩ :=
    jsonEdit_eq_ok.mp h
  have hvalid := Tree.edit_valid (ownedEdit_valid t.data fields value) [] ht
  have hdata : (t.edit (ownedEdit t.data fields value) []).data = editedData t.data fields value :=
    Tree.edit_data _ _ _
  -- the second edit finds every field as it is to be
  obtain ⟨current, hcurrent, hforall⟩ := renewed_all_again hrenewed fun _ hf => hf
  refine ⟨current, jsonEdit_eq_ok.mpr ⟨before, after, t.edit (ownedEdit t.data fields value) [],
    fields, hbefore, hafter, hvalid, ?_, rfl, ?_, ?_, ?_⟩, hforall⟩
  · rwa [Tree.edit_calls]
  · rw [hdata]
    exact ownedFields_editedData hfields hname
  · rw [hdata]
    exact hcurrent
  · rw [hdata, Tree.edit_pieces _ _ (t.edit _ _), List.map_id'']
    intro piece
    cases piece with
    | text cs => rfl
    | leaf path v token =>
      rw [Piece.edit, ownedEdit_editedData hrenewed path]
      rfl

theorem jsonEdit_again_lock :
    ∃ current, jsonEdit false 1000 (lockText "1.0.10") lockInput (.text "1.0.10") =
        .ok (lockText "1.0.10", current) ∧
      List.Forall₂ (Replaces (.text "1.0.10")) [.str (codes "1.0.9"), .str (codes "1.0.9")]
        current :=
  jsonEdit_again (show jsonEdit false 1000 (lockText "1.0.9") lockInput _ = _ by decide +kernel)
    fun h => h.1 rfl

end McpVenusOs.Release
