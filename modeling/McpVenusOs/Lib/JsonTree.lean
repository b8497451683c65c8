/-
  McpVenusOs.Lib.JsonTree

  JSON text as a tree that keeps every character: the scalar tokens, the white
  space and the punctuation around them.

  `pieces` flattens a tree to its text, cut at the scalars, each with its path.
  An edit replaces scalars; it maps the pieces one by one (`edit_pieces`), so
  what it does to the text can be said without looking at the tree.
-/

import Mathlib.Data.List.Nodup
import McpVenusOs.Lib.JsonScan

namespace JsonTree

open JsonScan

/-- A key of an object or an index of an array. -/
inductive PathKey
  | key (s : List Nat)
  | index (i : Nat)
  deriving DecidableEq

abbrev Path : Type := List PathKey

/-- What the text denotes; the keys of an object are in their order. -/
inductive Data
  | scalar (v : Scalar)
  | array (items : List Data)
  | object (fields : List (List Nat × Data))

/-- The white space around an item. -/
structure Gap where
  before : List Char
  after : List Char

/-- A key with the white space around it and after its colon. -/
structure Name where
  before : List Char
  key : List Nat
  token : List Char
  after : List Char
  value : List Char

mutual

inductive Tree
  | scalar (v : Scalar) (token : List Char)
  | emptyArray (inner : List Char)
  | array (items : Items)
  | emptyObject (inner : List Char)
  | object (members : Members)

inductive Items
  | last (gap : Gap) (t : Tree)
  | more (gap : Gap) (t : Tree) (rest : Items)

inductive Members
  | last (name : Name) (t : Tree) (after : List Char)
  | more (name : Name) (t : Tree) (after : List Char) (rest : Members)

end

/-! ## What a tree denotes -/

mutual

def Tree.data : Tree → Data
  | .scalar v _ => .scalar v
  | .emptyArray _ => .array []
  | .array items => .array items.data
  | .emptyObject _ => .object []
  | .object members => .object members.data

def Items.data : Items → List Data
  | .last _ t => [t.data]
  | .more _ t rest => t.data :: rest.data

def Members.data : Members → List (List Nat × Data)
  | .last name t _ => [(name.key, t.data)]
  | .more name t _ rest => (name.key, t.data) :: rest.data

end

/-! ## The text of a tree -/

/-- A part of the text: a scalar token with its path, or anything else. -/
inductive Piece
  | text (cs : List Char)
  | leaf (path : Path) (v : Scalar) (token : List Char)

def Piece.chars : Piece → List Char
  | .text cs => cs
  | .leaf _ _ token => token

def Piece.label : Piece → Option Path
  | .text _ => none
  | .leaf path _ _ => some path

def Name.chars (name : Name) : List Char :=
  name.before ++ name.token ++ name.after ++ ':' :: name.value

mutual

def Tree.pieces (path : Path) : Tree → List Piece
  | .scalar v token => [.leaf path v token]
  | .emptyArray inner => [.text ('[' :: inner ++ [']'])]
  | .array items => .text ['['] :: items.pieces path 0
  | .emptyObject inner => [.text ('{' :: inner ++ ['}'])]
  | .object members => .text ['{'] :: members.pieces path

def Items.pieces (path : Path) (i : Nat) : Items → List Piece
  | .last gap t =>
    .text gap.before :: (t.pieces (path ++ [.index i]) ++ [.text (gap.after ++ [']'])])
  | .more gap t rest =>
    .text gap.before :: (t.pieces (path ++ [.index i]) ++
      .text (gap.after ++ [',']) :: rest.pieces path (i + 1))

def Members.pieces (path : Path) : Members → List Piece
  | .last name t after =>
    .text name.chars :: (t.pieces (path ++ [.key name.key]) ++ [.text (after ++ ['}'])])
  | .more name t after rest =>
    .text name.chars :: (t.pieces (path ++ [.key name.key]) ++
      .text (after ++ [',']) :: rest.pieces path)

end

/-- The text of the pieces. -/
def print (pieces : List Piece) : List Char := pieces.flatMap Piece.chars

/-- The labels of the scalars, in the order of the text. -/
def labels (pieces : List Piece) : List Path := pieces.filterMap Piece.label

/-- Where the scalars begin and end, from the offset `start` on. -/
def spansFrom (start : Nat) : List Piece → List (Path × Nat × Nat)
  | [] => []
  | .text cs :: rest => spansFrom (start + cs.length) rest
  | .leaf path _ token :: rest =>
    (path, start, start + token.length) :: spansFrom (start + token.length) rest

@[simp] theorem print_nil : print [] = [] := rfl

@[simp] theorem print_cons (x : Piece) (rest : List Piece) :
    print (x :: rest) = x.chars ++ print rest := rfl

@[simp] theorem print_append (xs ys : List Piece) : print (xs ++ ys) = print xs ++ print ys :=
  List.flatMap_append

@[simp] theorem spansFrom_text (start : Nat) (cs : List Char) (rest : List Piece) :
    spansFrom start (.text cs :: rest) = spansFrom (start + cs.length) rest := rfl

theorem spansFrom_append (start : Nat) (xs ys : List Piece) :
    spansFrom start (xs ++ ys) =
      spansFrom start xs ++ spansFrom (start + (print xs).length) ys := by
  induction xs generalizing start with
  | nil => rfl
  | cons x rest ih =>
    cases x with
    | text cs =>
      rw [List.cons_append, spansFrom_text, spansFrom_text, ih, print_cons, List.length_append,
        Nat.add_assoc]
      rfl
    | leaf path v token =>
      rw [List.cons_append, spansFrom, spansFrom, ih, print_cons, List.length_append,
        Nat.add_assoc]
      rfl

/-! ## Well-formed trees -/

def isWhitespace (c : Char) : Bool := c ∈ [' ', '\n', '\r', '\t']

def Blank (cs : List Char) : Prop := ∀ c ∈ cs, isWhitespace c = true

structure Gap.Valid (gap : Gap) : Prop where
  before : Blank gap.before
  after : Blank gap.after

structure Name.Valid (name : Name) : Prop where
  before : Blank name.before
  token : Token (.str name.key) name.token
  after : Blank name.after
  value : Blank name.value

def Members.keys : Members → List (List Nat)
  | .last name _ _ => [name.key]
  | .more name _ _ rest => name.key :: rest.keys

mutual

/-- Tokens are tokens, white space is white space, and keys are distinct. -/
inductive Tree.Valid : Tree → Prop
  | scalar {v : Scalar} {token : List Char} : Token v token → Tree.Valid (.scalar v token)
  | emptyArray {inner : List Char} : Blank inner → Tree.Valid (.emptyArray inner)
  | array {items : Items} : Items.Valid items → Tree.Valid (.array items)
  | emptyObject {inner : List Char} : Blank inner → Tree.Valid (.emptyObject inner)
  | object {members : Members} : Members.Valid members → members.keys.Nodup →
      Tree.Valid (.object members)

inductive Items.Valid : Items → Prop
  | last {gap : Gap} {t : Tree} : gap.Valid → Tree.Valid t → Items.Valid (.last gap t)
  | more {gap : Gap} {t : Tree} {rest : Items} : gap.Valid → Tree.Valid t → Items.Valid rest →
      Items.Valid (.more gap t rest)

inductive Members.Valid : Members → Prop
  | last {name : Name} {t : Tree} {after : List Char} : name.Valid → Tree.Valid t → Blank after →
      Members.Valid (.last name t after)
  | more {name : Name} {t : Tree} {after : List Char} {rest : Members} : name.Valid →
      Tree.Valid t → Blank after → Members.Valid rest → Members.Valid (.more name t after rest)

end

mutual

/-- How deep the calls of a recursive descent are nested that has one function for values
    and one for each kind of container; `scan` if the scan of a scalar is a call of its own. -/
def Tree.calls (scan : Bool) : Tree → Nat
  | .scalar _ _ => scan.toNat + 1
  | .emptyArray _ | .emptyObject _ => 2
  | .array items => items.calls scan + 2
  | .object members => members.calls scan + 2

def Items.calls (scan : Bool) : Items → Nat
  | .last _ t => t.calls scan
  | .more _ t rest => max (t.calls scan) (rest.calls scan)

def Members.calls (scan : Bool) : Members → Nat
  | .last _ t _ => t.calls scan
  | .more _ t _ rest => max (t.calls scan) (rest.calls scan)

end

/-! ## Edits -/

/-- The scalars to put in place of others, by path, with their tokens. -/
abbrev Edit : Type := Path → Option (Scalar × List Char)

mutual

def Tree.edit (f : Edit) (path : Path) : Tree → Tree
  | .scalar v token => .scalar ((f path).getD (v, token)).1 ((f path).getD (v, token)).2
  | .emptyArray inner => .emptyArray inner
  | .array items => .array (items.edit f path 0)
  | .emptyObject inner => .emptyObject inner
  | .object members => .object (members.edit f path)

def Items.edit (f : Edit) (path : Path) (i : Nat) : Items → Items
  | .last gap t => .last gap (t.edit f (path ++ [.index i]))
  | .more gap t rest => .more gap (t.edit f (path ++ [.index i])) (rest.edit f path (i + 1))

def Members.edit (f : Edit) (path : Path) : Members → Members
  | .last name t after => .last name (t.edit f (path ++ [.key name.key])) after
  | .more name t after rest =>
    .more name (t.edit f (path ++ [.key name.key])) after (rest.edit f path)

end

mutual

/-- The data with scalars replaced; keys, order and everything else stay. -/
def Data.edit (g : Path → Option Scalar) (path : Path) : Data → Data
  | .scalar v => .scalar ((g path).getD v)
  | .array items => .array (Data.editItems g path 0 items)
  | .object fields => .object (Data.editFields g path fields)

def Data.editItems (g : Path → Option Scalar) (path : Path) (i : Nat) : List Data → List Data
  | [] => []
  | d :: rest => d.edit g (path ++ [.index i]) :: Data.editItems g path (i + 1) rest

def Data.editFields (g : Path → Option Scalar) (path : Path) :
    List (List Nat × Data) → List (List Nat × Data)
  | [] => []
  | (key, d) :: rest => (key, d.edit g (path ++ [.key key])) :: Data.editFields g path rest

end

def Piece.edit (f : Edit) : Piece → Piece
  | .text cs => .text cs
  | .leaf path v token =>
    .leaf path ((f path).getD (v, token)).1 ((f path).getD (v, token)).2

mutual

theorem Tree.edit_pieces (f : Edit) (path : Path) : (t : Tree) →
    (t.edit f path).pieces path = (t.pieces path).map (Piece.edit f)
  | .scalar _ _ | .emptyArray _ | .emptyObject _ => rfl
  | .array items => by
    simp only [Tree.edit, Tree.pieces, List.map_cons, Items.edit_pieces f path 0 items]
    rfl
  | .object members => by
    simp only [Tree.edit, Tree.pieces, List.map_cons, Members.edit_pieces f path members]
    rfl

theorem Items.edit_pieces (f : Edit) (path : Path) (i : Nat) : (items : Items) →
    (items.edit f path i).pieces path i = (items.pieces path i).map (Piece.edit f)
  | .last gap t => by
    simp only [Items.edit, Items.pieces, List.map_cons, List.map_append,
      Tree.edit_pieces f (path ++ [.index i]) t]
    rfl
  | .more gap t rest => by
    simp only [Items.edit, Items.pieces, List.map_cons, List.map_append,
      Tree.edit_pieces f (path ++ [.index i]) t, Items.edit_pieces f path (i + 1) rest]
    rfl

theorem Members.edit_pieces (f : Edit) (path : Path) : (members : Members) →
    (members.edit f path).pieces path = (members.pieces path).map (Piece.edit f)
  | .last name t after => by
    simp only [Members.edit, Members.pieces, List.map_cons, List.map_append,
      Tree.edit_pieces f (path ++ [.key name.key]) t]
    rfl
  | .more name t after rest => by
    simp only [Members.edit, Members.pieces, List.map_cons, List.map_append,
      Tree.edit_pieces f (path ++ [.key name.key]) t, Members.edit_pieces f path rest]
    rfl

end

mutual

/-- Editing the text edits the data. -/
theorem Tree.edit_data (f : Edit) (path : Path) : (t : Tree) →
    (t.edit f path).data = t.data.edit (fun p => (f p).map Prod.fst) path
  | .scalar v token => by
    simp only [Tree.edit, Tree.data, Data.edit]
    cases f path <;> rfl
  | .emptyArray _ | .emptyObject _ => rfl
  | .array items => by
    simp only [Tree.edit, Tree.data, Data.edit, Items.edit_data f path 0 items]
  | .object members => by
    simp only [Tree.edit, Tree.data, Data.edit, Members.edit_data f path members]

theorem Items.edit_data (f : Edit) (path : Path) (i : Nat) : (items : Items) →
    (items.edit f path i).data = Data.editItems (fun p => (f p).map Prod.fst) path i items.data
  | .last gap t => by
    simp only [Items.edit, Items.data, Data.editItems, Tree.edit_data f (path ++ [.index i]) t]
  | .more gap t rest => by
    simp only [Items.edit, Items.data, Data.editItems, Tree.edit_data f (path ++ [.index i]) t,
      Items.edit_data f path (i + 1) rest]

theorem Members.edit_data (f : Edit) (path : Path) : (members : Members) →
    (members.edit f path).data = Data.editFields (fun p => (f p).map Prod.fst) path members.data
  | .last name t after => by
    simp only [Members.edit, Members.data, Data.editFields,
      Tree.edit_data f (path ++ [.key name.key]) t]
  | .more name t after rest => by
    simp only [Members.edit, Members.data, Data.editFields,
      Tree.edit_data f (path ++ [.key name.key]) t, Members.edit_data f path rest]

end

theorem Members.edit_keys (f : Edit) (path : Path) : (members : Members) →
    (members.edit f path).keys = members.keys
  | .last name t after => rfl
  | .more name t after rest => by
    simp only [Members.edit, Members.keys, Members.edit_keys f path rest]

mutual

/-- Editing scalars nests nothing deeper. -/
theorem Tree.edit_calls (scan : Bool) (f : Edit) (path : Path) :
    (t : Tree) → (t.edit f path).calls scan = t.calls scan
  | .scalar _ _ | .emptyArray _ | .emptyObject _ => rfl
  | .array items => by simp only [Tree.edit, Tree.calls, Items.edit_calls scan f path 0 items]
  | .object members => by
    simp only [Tree.edit, Tree.calls, Members.edit_calls scan f path members]

theorem Items.edit_calls (scan : Bool) (f : Edit) (path : Path) (i : Nat) :
    (items : Items) → (items.edit f path i).calls scan = items.calls scan
  | .last gap t => by simp only [Items.edit, Items.calls, Tree.edit_calls scan f _ t]
  | .more gap t rest => by
    simp only [Items.edit, Items.calls, Tree.edit_calls scan f _ t,
      Items.edit_calls scan f path _ rest]

theorem Members.edit_calls (scan : Bool) (f : Edit) (path : Path) :
    (members : Members) → (members.edit f path).calls scan = members.calls scan
  | .last name t after => by
    simp only [Members.edit, Members.calls, Tree.edit_calls scan f _ t]
  | .more name t after rest => by
    simp only [Members.edit, Members.calls, Tree.edit_calls scan f _ t,
      Members.edit_calls scan f path rest]

end

/-- What is put in place are tokens. -/
def Edit.Valid (f : Edit) : Prop := ∀ path v token, f path = some (v, token) → Token v token

mutual

theorem Tree.edit_valid {f : Edit} (hf : f.Valid) (path : Path) : {t : Tree} → t.Valid →
    (t.edit f path).Valid
  | _, .scalar htoken => by
    simp only [Tree.edit]
    cases hpath : f path with
    | none => exact .scalar htoken
    | some r => exact .scalar (hf path r.1 r.2 hpath)
  | _, .emptyArray hinner => .emptyArray hinner
  | _, .array hitems => .array (Items.edit_valid hf path 0 hitems)
  | _, .emptyObject hinner => .emptyObject hinner
  | _, .object hmembers hkeys =>
    .object (Members.edit_valid hf path hmembers) (by rwa [Members.edit_keys])

theorem Items.edit_valid {f : Edit} (hf : f.Valid) (path : Path) (i : Nat) : {items : Items} →
    items.Valid → (items.edit f path i).Valid
  | _, .last hgap ht => .last hgap (Tree.edit_valid hf _ ht)
  | _, .more hgap ht hrest =>
    .more hgap (Tree.edit_valid hf _ ht) (Items.edit_valid hf path _ hrest)

theorem Members.edit_valid {f : Edit} (hf : f.Valid) (path : Path) : {members : Members} →
    members.Valid → (members.edit f path).Valid
  | _, .last hname ht hafter => .last hname (Tree.edit_valid hf _ ht) hafter
  | _, .more hname ht hafter hrest =>
    .more hname (Tree.edit_valid hf _ ht) hafter (Members.edit_valid hf path hrest)

end

/-! ## Labels -/

theorem labels_append (xs ys : List Piece) : labels (xs ++ ys) = labels xs ++ labels ys :=
  List.filterMap_append

@[simp] theorem labels_nil : labels [] = [] := rfl

@[simp] theorem labels_text (cs : List Char) (rest : List Piece) :
    labels (.text cs :: rest) = labels rest := rfl

mutual

theorem Tree.label_path (path : Path) : (t : Tree) → ∀ l ∈ labels (t.pieces path), path <+: l
  | .scalar v token => by
    intro l hl
    obtain rfl : l = path := List.mem_singleton.mp hl
    exact List.prefix_rfl
  | .emptyArray _ | .emptyObject _ => by simp [Tree.pieces, labels, Piece.label]
  | .array items => by
    intro l hl
    obtain ⟨j, -, hprefix⟩ := Items.label_path path 0 items l hl
    exact (List.prefix_append _ _).trans hprefix
  | .object members => by
    intro l hl
    obtain ⟨key, -, hprefix⟩ := Members.label_path path members l hl
    exact (List.prefix_append _ _).trans hprefix

theorem Items.label_path (path : Path) (i : Nat) : (items : Items) →
    ∀ l ∈ labels (items.pieces path i), ∃ j, i ≤ j ∧ path ++ [.index j] <+: l
  | .last gap t => by
    intro l hl
    simp only [Items.pieces, labels_text, labels_append, List.mem_append] at hl
    rcases hl with hl | hl
    · exact ⟨i, le_rfl, Tree.label_path _ t l hl⟩
    · cases hl
  | .more gap t rest => by
    intro l hl
    simp only [Items.pieces, labels_text, labels_append, List.mem_append] at hl
    rcases hl with hl | hl
    · exact ⟨i, le_rfl, Tree.label_path _ t l hl⟩
    · obtain ⟨j, hj, hprefix⟩ := Items.label_path path (i + 1) rest l hl
      exact ⟨j, by omega, hprefix⟩

theorem Members.label_path (path : Path) : (members : Members) →
    ∀ l ∈ labels (members.pieces path), ∃ key ∈ members.keys, path ++ [.key key] <+: l
  | .last name t after => by
    intro l hl
    simp only [Members.pieces, labels_text, labels_append, List.mem_append] at hl
    rcases hl with hl | hl
    · exact ⟨name.key, List.mem_singleton_self _, Tree.label_path _ t l hl⟩
    · cases hl
  | .more name t after rest => by
    intro l hl
    simp only [Members.pieces, labels_text, labels_append, List.mem_append] at hl
    rcases hl with hl | hl
    · exact ⟨name.key, List.mem_cons_self, Tree.label_path _ t l hl⟩
    · obtain ⟨key, hkey, hprefix⟩ := Members.label_path path rest l hl
      exact ⟨key, List.mem_cons_of_mem _ hkey, hprefix⟩

end

/-- Below different keys no two labels agree. -/
theorem prefix_disjoint {path l : Path} {a b : PathKey} (hab : a ≠ b)
    (ha : path ++ [a] <+: l) (hb : path ++ [b] <+: l) : False := by
  obtain ⟨as, rfl⟩ := ha
  obtain ⟨bs, hbs⟩ := hb
  rw [List.append_assoc, List.append_assoc] at hbs
  exact hab (List.cons.inj (List.append_cancel_left hbs)).1.symm

mutual

/-- Every scalar has its own path. -/
theorem Tree.labels_nodup (path : Path) : (t : Tree) → t.Valid → (labels (t.pieces path)).Nodup
  | .scalar _ _, _ => List.pairwise_singleton _ _
  | .emptyArray _, _ | .emptyObject _, _ => List.nodup_nil
  | .array items, .array hitems => Items.labels_nodup path 0 items hitems
  | .object members, .object hmembers hkeys => Members.labels_nodup path members hmembers hkeys

theorem Items.labels_nodup (path : Path) (i : Nat) : (items : Items) → items.Valid →
    (labels (items.pieces path i)).Nodup
  | .last gap t, .last _ ht => by
    simp only [Items.pieces, labels_text, labels_append, labels_nil, List.append_nil]
    exact Tree.labels_nodup _ t ht
  | .more gap t rest, .more _ ht hrest => by
    simp only [Items.pieces, labels_text, labels_append]
    refine List.nodup_append.mpr
      ⟨Tree.labels_nodup _ t ht, Items.labels_nodup path _ rest hrest, ?_⟩
    rintro l hl m hm rfl
    obtain ⟨j, hj, hprefix⟩ := Items.label_path path (i + 1) rest l hm
    refine prefix_disjoint ?_ (Tree.label_path _ t l hl) hprefix
    rintro ⟨⟩
    omega

theorem Members.labels_nodup (path : Path) : (members : Members) → members.Valid →
    members.keys.Nodup → (labels (members.pieces path)).Nodup
  | .last name t after, .last _ ht _, _ => by
    simp only [Members.pieces, labels_text, labels_append, labels_nil, List.append_nil]
    exact Tree.labels_nodup _ t ht
  | .more name t after rest, .more _ ht _ hrest, hkeys => by
    obtain ⟨hnew, hkeys⟩ := List.nodup_cons.mp hkeys
    simp only [Members.pieces, labels_text, labels_append]
    refine List.nodup_append.mpr
      ⟨Tree.labels_nodup _ t ht, Members.labels_nodup path rest hrest hkeys, ?_⟩
    rintro l hl m hm rfl
    obtain ⟨key, hkey, hprefix⟩ := Members.label_path path rest l hm
    refine prefix_disjoint ?_ (Tree.label_path _ t l hl) hprefix
    rintro ⟨⟩
    exact hnew hkey

end

/-- A path labels one scalar. -/
theorem leaf_unique {pieces : List Piece} (h : (labels pieces).Nodup) {path : Path}
    {v v' : Scalar} {token token' : List Char} (hleaf : .leaf path v token ∈ pieces)
    (hleaf' : .leaf path v' token' ∈ pieces) : v = v' ∧ token = token' := by
  induction pieces with
  | nil => cases hleaf
  | cons x rest ih =>
    cases x with
    | text cs =>
      refine ih h ?_ ?_
      · simpa using hleaf
      · simpa using hleaf'
    | leaf p w tok =>
      have hnodup : p ∉ labels rest ∧ (labels rest).Nodup := List.nodup_cons.mp h
      have hlabel : ∀ {w' tok'}, .leaf path w' tok' ∈ rest → path ∈ labels rest :=
        fun hmem => List.mem_filterMap.mpr ⟨_, hmem, rfl⟩
      rcases List.mem_cons.mp hleaf with heq | hmem
      · rcases List.mem_cons.mp hleaf' with heq' | hmem'
        · cases heq
          cases heq'
          exact ⟨rfl, rfl⟩
        · cases heq
          exact absurd (hlabel hmem') hnodup.1
      · rcases List.mem_cons.mp hleaf' with heq' | hmem'
        · cases heq'
          exact absurd (hlabel hmem) hnodup.1
        · exact ih hnodup.2 hmem hmem'

/-! ## Fields -/

/-- The member of an object. -/
def Data.field (key : List Nat) : Data → Option Data
  | .object fields => fields.lookup key
  | _ => none

/-- The value under nested keys. -/
def Data.get : List (List Nat) → Data → Option Data
  | [], d => some d
  | key :: keys, d => (d.field key).bind (Data.get keys)

theorem Members.pieces_of_lookup (path : Path) {key : List Nat} {d : Data} : (members : Members) →
    members.data.lookup key = some d → ∃ t : Tree, t.data = d ∧
      ∀ x ∈ t.pieces (path ++ [.key key]), x ∈ members.pieces path
  | .last name t after, h => by
    simp only [Members.data, List.lookup_cons, List.lookup_nil] at h
    split at h
    · rename_i hkey
      rw [beq_iff_eq] at hkey
      refine ⟨t, Option.some.inj h, fun x hx => ?_⟩
      rw [hkey] at hx
      simp only [Members.pieces, List.mem_cons, List.mem_append]
      exact .inr (.inl hx)
    · cases h
  | .more name t after rest, h => by
    simp only [Members.data, List.lookup_cons] at h
    split at h
    · rename_i hkey
      rw [beq_iff_eq] at hkey
      refine ⟨t, Option.some.inj h, fun x hx => ?_⟩
      rw [hkey] at hx
      simp only [Members.pieces, List.mem_cons, List.mem_append]
      exact .inr (.inl hx)
    · obtain ⟨t', hdata, hpieces⟩ := Members.pieces_of_lookup path rest h
      refine ⟨t', hdata, fun x hx => ?_⟩
      simp only [Members.pieces, List.mem_cons, List.mem_append]
      exact .inr (.inr (.inr (hpieces x hx)))

/-- A scalar reached by keys is a scalar of the text, under that path. -/
theorem Tree.leaf_of_get (path : Path) (keys : List (List Nat)) {t : Tree} {v : Scalar}
    (h : t.data.get keys = some (.scalar v)) :
    ∃ token, .leaf (path ++ keys.map .key) v token ∈ t.pieces path := by
  induction keys generalizing t path with
  | nil =>
    have hdata : t.data = .scalar v := Option.some.inj h
    cases t with
    | scalar w token =>
      obtain rfl : w = v := Data.scalar.inj hdata
      exact ⟨token, by simp [Tree.pieces]⟩
    | _ => cases hdata
  | cons key keys ih =>
    obtain ⟨d, hfield, hget⟩ := Option.bind_eq_some_iff.mp h
    cases t with
    | object members =>
      obtain ⟨t', hdata, hpieces⟩ := Members.pieces_of_lookup path members hfield
      rw [← hdata] at hget
      obtain ⟨token, hleaf⟩ := ih (path ++ [.key key]) hget
      refine ⟨token, List.mem_cons_of_mem _ (hpieces _ ?_)⟩
      rw [List.append_assoc] at hleaf
      exact hleaf
    | emptyObject inner => cases hfield
    | _ => cases hfield

theorem Data.lookup_editFields (g : Path → Option Scalar) (path : Path) (key : List Nat)
    (fields : List (List Nat × Data)) : (Data.editFields g path fields).lookup key =
      (fields.lookup key).map (Data.edit g (path ++ [.key key])) := by
  induction fields with
  | nil => rfl
  | cons entry rest ih =>
    obtain ⟨name, d⟩ := entry
    simp only [Data.editFields, List.lookup_cons]
    split
    · rename_i hkey
      rw [beq_iff_eq] at hkey
      rw [hkey]
      rfl
    · exact ih

/-- An edit keeps what is there, and edits it. -/
theorem Data.get_edit (g : Path → Option Scalar) (path : Path) (keys : List (List Nat))
    (d : Data) : (d.edit g path).get keys =
      (d.get keys).map (Data.edit g (path ++ keys.map .key)) := by
  induction keys generalizing d path with
  | nil =>
    simp only [Data.get, List.map_nil, List.append_nil, Option.map_some]
  | cons key keys ih =>
    cases d with
    | object fields =>
      simp only [Data.get, Data.edit, Data.field, Data.lookup_editFields, List.map_cons]
      cases fields.lookup key with
      | none => rfl
      | some d' =>
        simp only [Option.map_some, Option.bind_some, ih, List.append_assoc, List.singleton_append]
    | _ => rfl

/-! ## Splices -/

/-- `text[:start] + replacement + text[end:]` -/
def splice (text : List Char) (edit : Nat × Nat × List Char) : List Char :=
  text.take edit.1 ++ edit.2.2 ++ text.drop edit.2.1

/-- The replacements of an edit, where they go. -/
def splices (f : Edit) (start : Nat) (pieces : List Piece) : List (Nat × Nat × List Char) :=
  (spansFrom start pieces).filterMap fun span => (f span.1).map fun r => (span.2.1, span.2.2, r.2)

theorem splice_append (pre token token' post : List Char) :
    splice (pre ++ token ++ post) (pre.length, pre.length + token.length, token') =
      pre ++ token' ++ post := by
  have hdrop : (pre ++ token ++ post).drop (pre.length + token.length) = post := by
    rw [← List.length_append, List.drop_left]
  rw [splice, hdrop, List.append_assoc pre token post, List.take_left]

/-- Splicing from the last replacement to the first edits the pieces. -/
theorem foldr_splices (f : Edit) (pre post : List Char) (pieces : List Piece) :
    (splices f pre.length pieces).foldr (fun edit text => splice text edit)
        (pre ++ print pieces ++ post) =
      pre ++ print (pieces.map (Piece.edit f)) ++ post := by
  induction pieces generalizing pre with
  | nil => rfl
  | cons x rest ih =>
    cases x with
    | text cs =>
      have hrest := ih (pre ++ cs)
      rw [List.length_append] at hrest
      simp only [print, List.flatMap_cons, List.map_cons, Piece.chars, Piece.edit] at hrest ⊢
      simp only [← List.append_assoc] at hrest ⊢
      exact hrest
    | leaf path v token =>
      have hrest := ih (pre ++ token)
      rw [List.length_append] at hrest
      simp only [print, List.flatMap_cons, List.map_cons, Piece.chars, Piece.edit, splices,
        spansFrom, List.filterMap_cons] at hrest ⊢
      simp only [← List.append_assoc] at hrest ⊢
      -- the scalar itself, once everything behind it is done
      cases f path with
      | none => exact hrest
      | some r =>
        simp only [Option.map_some, List.foldr_cons, Option.getD_some]
        rw [hrest, List.append_assoc (pre ++ token), splice_append]
        simp only [List.append_assoc]

theorem spansFrom_start (start : Nat) (pieces : List Piece) :
    ∀ span ∈ spansFrom start pieces, start ≤ span.2.1 := by
  induction pieces generalizing start with
  | nil => simp [spansFrom]
  | cons x rest ih =>
    intro span hspan
    cases x with
    | text cs => exact (Nat.le_add_right _ _).trans (ih _ span hspan)
    | leaf path v token =>
      rcases List.mem_cons.mp hspan with rfl | hspan
      · exact le_rfl
      · exact (Nat.le_add_right _ _).trans (ih _ span hspan)

/-- The tokens of the pieces are not empty. -/
def Solid (pieces : List Piece) : Prop :=
  ∀ path v token, .leaf path v token ∈ pieces → token ≠ []

theorem solid_text {cs : List Char} {rest : List Piece} (h : Solid rest) :
    Solid (.text cs :: rest) := by
  intro path v token hmem
  rcases List.mem_cons.mp hmem with hhead | hrest
  · cases hhead
  · exact h path v token hrest

theorem solid_append {xs ys : List Piece} (hx : Solid xs) (hy : Solid ys) : Solid (xs ++ ys) := by
  intro path v token hmem
  rcases List.mem_append.mp hmem with hmem | hmem
  · exact hx path v token hmem
  · exact hy path v token hmem

theorem solid_nil : Solid [] := by
  intro path v token hmem
  cases hmem

mutual

theorem Tree.solid (path : Path) : (t : Tree) → t.Valid → Solid (t.pieces path)
  | .scalar v token, .scalar htoken => by
    intro p w tok hmem
    cases List.mem_singleton.mp hmem
    exact htoken.1
  | .emptyArray _, _ | .emptyObject _, _ => solid_text solid_nil
  | .array items, .array hitems => solid_text (Items.solid path 0 items hitems)
  | .object members, .object hmembers _ => solid_text (Members.solid path members hmembers)

theorem Items.solid (path : Path) (i : Nat) : (items : Items) → items.Valid →
    Solid (items.pieces path i)
  | .last _ t, .last _ ht => solid_text (solid_append (Tree.solid _ t ht) (solid_text solid_nil))
  | .more _ t rest, .more _ ht hrest =>
    solid_text (solid_append (Tree.solid _ t ht) (solid_text (Items.solid path (i + 1) rest hrest)))

theorem Members.solid (path : Path) : (members : Members) → members.Valid →
    Solid (members.pieces path)
  | .last _ t _, .last _ ht _ =>
    solid_text (solid_append (Tree.solid _ t ht) (solid_text solid_nil))
  | .more _ t _ rest, .more _ ht _ hrest =>
    solid_text (solid_append (Tree.solid _ t ht) (solid_text (Members.solid path rest hrest)))

end

theorem spansFrom_labels (start : Nat) (pieces : List Piece) :
    (spansFrom start pieces).map (·.1) = labels pieces := by
  induction pieces generalizing start with
  | nil => rfl
  | cons x rest ih =>
    cases x with
    | text cs => exact ih (start + cs.length)
    | leaf path v token =>
      show path :: (spansFrom _ rest).map (·.1) = path :: labels rest
      rw [ih]

theorem spansFrom_ascend (start : Nat) {pieces : List Piece} (h : Solid pieces) :
    (spansFrom start pieces).Pairwise fun a b => a.2.1 < b.2.1 := by
  induction pieces generalizing start with
  | nil => exact .nil
  | cons x rest ih =>
    have hrest : Solid rest := fun path v token hmem =>
      h path v token (List.mem_cons_of_mem _ hmem)
    cases x with
    | text cs => exact ih _ hrest
    | leaf path v token =>
      refine List.pairwise_cons.mpr ⟨fun span hspan => ?_, ih _ hrest⟩
      have hpos := List.length_pos_iff.mpr (h path v token List.mem_cons_self)
      have hstart := spansFrom_start _ _ span hspan
      show start < span.2.1
      omega

theorem splices_ascend (f : Edit) (start : Nat) {pieces : List Piece} (h : Solid pieces) :
    (splices f start pieces).Pairwise fun a b => a.1 < b.1 := by
  refine (spansFrom_ascend start h).filterMap _ ?_
  intro a b hab x hx y hy
  obtain ⟨r, -, rfl⟩ := Option.map_eq_some_iff.mp hx
  obtain ⟨r', -, rfl⟩ := Option.map_eq_some_iff.mp hy
  exact hab

/-- What stands under a path, in a table of spans in any order. -/
theorem lookup_spans {start : Nat} {pieces : List Piece} (h : (labels pieces).Nodup)
    {spans : List (Path × Nat × Nat)} (hspans : spans.Perm (spansFrom start pieces)) {path : Path}
    {span : Nat × Nat} :
    spans.lookup path = some span ↔ (path, span) ∈ spansFrom start pieces := by
  have hnodup : (spans.map (·.1)).Nodup := by
    rw [(hspans.map _).nodup_iff, spansFrom_labels]
    exact h
  rw [← hspans.mem_iff, List.lookup_eq_some_iff]
  constructor
  · rintro ⟨l₁, l₂, rfl, -⟩
    simp
  · intro hmem
    obtain ⟨l₁, l₂, rfl⟩ := List.append_of_mem hmem
    refine ⟨l₁, l₂, rfl, fun p hp => ?_⟩
    rw [List.map_append, List.map_cons] at hnodup
    have hdisjoint := (List.nodup_append.mp hnodup).2.2 p.1 (List.mem_map_of_mem hp) path
      List.mem_cons_self
    simpa [bne_iff_ne] using hdisjoint.symm

theorem lookup_isSome_of_leaf {start : Nat} {pieces : List Piece}
    {spans : List (Path × Nat × Nat)} (hspans : spans.Perm (spansFrom start pieces)) {path : Path}
    {v : Scalar} {token : List Char} (h : .leaf path v token ∈ pieces) :
    (spans.lookup path).isSome := by
  have hlabel : path ∈ (spansFrom start pieces).map (·.1) := by
    rw [spansFrom_labels]
    exact List.mem_filterMap.mpr ⟨_, h, rfl⟩
  obtain ⟨span, hspan, rfl⟩ := List.mem_map.mp hlabel
  exact List.lookup_isSome_iff.mpr ⟨span, hspans.mem_iff.mpr hspan, beq_self_eq_true _⟩

/-- The replacements, collected path by path. -/
theorem perm_splices {f : Edit} {start : Nat} {pieces : List Piece} (hsolid : Solid pieces)
    (h : (labels pieces).Nodup) {spans : List (Path × Nat × Nat)}
    (hspans : spans.Perm (spansFrom start pieces)) {paths : List Path} (hpaths : paths.Nodup)
    (hf : ∀ path ∉ paths, f path = none) :
    (paths.filterMap fun path => (spans.lookup path).bind fun span =>
        (f path).map fun r => (span.1, span.2, r.2)).Perm (splices f start pieces) := by
  have hmem : ∀ {path : Path} {edit : Nat × Nat × List Char},
      edit ∈ ((spans.lookup path).bind fun span =>
          (f path).map fun r => (span.1, span.2, r.2)) ↔
        ∃ span, (path, span) ∈ spansFrom start pieces ∧
          edit ∈ (f path).map fun r => (span.1, span.2, r.2) := by
    intro path edit
    simp only [Option.mem_def, Option.bind_eq_some_iff, lookup_spans h hspans]
  have hleft : (paths.filterMap fun path => (spans.lookup path).bind fun span =>
      (f path).map fun r => (span.1, span.2, r.2)).Nodup := by
    refine List.Nodup.filterMap ?_ hpaths
    intro path path' edit hedit hedit'
    obtain ⟨span, hspan, hr⟩ := hmem.mp hedit
    obtain ⟨r, -, rfl⟩ := Option.map_eq_some_iff.mp hr
    obtain ⟨span', hspan', hr'⟩ := hmem.mp hedit'
    obtain ⟨r', -, heq⟩ := Option.map_eq_some_iff.mp hr'
    -- scalars that begin at the same place are the same
    have hstarts : ((spansFrom start pieces).map (·.2.1)).Nodup :=
      (List.pairwise_map.mpr (spansFrom_ascend start hsolid)).imp fun hlt => hlt.ne
    have hstart : span'.1 = span.1 := (Prod.mk.inj heq).1
    exact (Prod.mk.inj (List.inj_on_of_nodup_map hstarts hspan hspan' hstart.symm)).1
  have hright : (splices f start pieces).Nodup :=
    (splices_ascend f start hsolid).imp fun hlt heq => by
      rw [heq] at hlt
      exact lt_irrefl _ hlt
  refine (List.perm_ext_iff_of_nodup hleft hright).mpr fun edit => ?_
  rw [splices, List.mem_filterMap, List.mem_filterMap]
  constructor
  · rintro ⟨path, -, hedit⟩
    obtain ⟨span, hspan, hedit⟩ := hmem.mp hedit
    exact ⟨(path, span), hspan, hedit⟩
  · rintro ⟨⟨path, span⟩, hspan, hedit⟩
    refine ⟨path, ?_, hmem.mpr ⟨span, hspan, hedit⟩⟩
    by_contra hpath
    simp [hf path hpath] at hedit

/-- Splicing the replacements in descending order edits the pieces. -/
theorem foldl_splices (f : Edit) {pieces : List Piece} (h : Solid pieces)
    {edits : List (Nat × Nat × List Char)} (hperm : edits.Perm (splices f 0 pieces))
    (hsorted : edits.Pairwise fun a b => b.1 ≤ a.1) :
    edits.foldl splice (print pieces) = print (pieces.map (Piece.edit f)) := by
  have hascend := splices_ascend f 0 h
  have hreverse : edits = (splices f 0 pieces).reverse := by
    refine List.Perm.eq_of_pairwise ?_ hsorted
      (List.pairwise_reverse.mpr (hascend.imp fun hlt => hlt.le))
      (hperm.trans (List.reverse_perm _).symm)
    intro a b ha hb hba hab
    have hnodup : ((splices f 0 pieces).map (·.1)).Nodup :=
      (List.pairwise_map.mpr hascend).imp fun hlt => hlt.ne
    exact List.inj_on_of_nodup_map hnodup (hperm.subset ha) (List.mem_reverse.mp hb) (by omega)
  rw [hreverse, List.foldl_reverse]
  have hfold := foldr_splices f [] [] pieces
  simpa using hfold

end JsonTree
