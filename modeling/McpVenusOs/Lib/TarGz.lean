/-
  McpVenusOs.Lib.TarGz

  Compressed tar archives, as Python's `tarfile` and `gzip` read and write them.

  A `Member` has the fields its header block is written from, and its data.  The
  two modules are one parameter, `TarGz`, over files of any type; `TarGz.Faithful`
  says that an archive of files and directories, plainly written, is read back as it
  was, but for a member of GNU's sparse type, which `tarfile` can read and not write,
  and an old regular file with a name that the header block cuts at a slash.
-/

import Mathlib.Data.List.Perm.Basic
import Mathlib.Data.List.Sort
import Mathlib.Data.Rat.Defs
import Mathlib.Data.String.Basic
import McpVenusOs.Lib.PyValue

namespace Tar

open Py

/-! ## Members -/

/-- The type flag of a header. -/
inductive MemberType
  | reg
  | areg
  | cont
  | gnuSparse
  | dir
  | other (flag : Char)
  deriving DecidableEq

/-- A `TarInfo`, with the data that `extractfile` reads. -/
structure Member where
  name : String
  type : MemberType
  mode : Nat
  uid : Int
  gid : Int
  uname : String
  gname : String
  mtime : ℚ
  linkname : String
  size : Nat
  paxHeaders : List (String × String)
  data : List UInt8
  deriving DecidableEq

namespace Member

/-- `isfile()`: one of `REGULAR_TYPES`. -/
def isFile (m : Member) : Bool := m.type ∈ [.reg, .areg, .cont, .gnuSparse]

/-- `isdir()` -/
def isDir (m : Member) : Bool := m.type = .dir

/-- `m.mode & 0o111` -/
def executable (m : Member) : Bool := m.mode &&& 0o111 != 0

/-- What a file or a directory looks like when it has been read. -/
structure Sized (m : Member) : Prop where
  file : m.isFile = true → m.data.length = m.size
  dir : m.isFile = false → m.data = []

instance (m : Member) : Decidable m.Sized :=
  decidable_of_iff ((m.isFile = true → m.data.length = m.size) ∧ (m.isFile = false → m.data = []))
    ⟨fun h => ⟨h.1, h.2⟩, fun h => ⟨h.file, h.dir⟩⟩

/-- Names are paths: without a NUL, and without a slash at their end. -/
structure WellNamed (m : Member) : Prop where
  name : hasChar m.name '\x00' = false ∧ endsWith m.name "/" = false
  linkname : hasChar m.linkname '\x00' = false

/-- The header block has room for the first 100 characters of a name.  An old regular file
    whose name ends in a slash there is taken for a directory. -/
def Cut (m : Member) : Prop :=
  m.type = .areg ∧ (m.name.toList.take 100).getLast? = some '/'

instance (m : Member) : Decidable m.Cut := inferInstanceAs (Decidable (_ ∧ _))

/-- Without owner, with one time, and with nothing that needs an extended header. -/
structure Plain (epoch : Int) (m : Member) : Prop where
  owner : m.uid = 0 ∧ m.gid = 0 ∧ m.uname = "" ∧ m.gname = ""
  mode : m.mode ≤ 0o7777
  mtime : m.mtime = epoch
  paxHeaders : m.paxHeaders = []

end Member

/-! ## The modules -/

/-- `tarfile` and `gzip`: the members of a file, with their data, and the file that
    the members make with a time in its gzip header. -/
structure TarGz (File : Type) where
  members : File → Except PyError (List Member)
  write : Int → List Member → File
  /-- The records that a reader finds in front of a member as it was written. -/
  recordsOf : Member → List (String × String)

/-- The times a gzip header has room for. -/
def GzipTime (epoch : Int) : Prop := 0 ≤ epoch ∧ epoch < 2 ^ 32

instance (epoch : Int) : Decidable (GzipTime epoch) := inferInstanceAs (Decidable (_ ∧ _))

section Modules

variable {File : Type} (lib : TarGz File)

/-- What is found of a sparse file without the map of its parts: nothing, or zeros where
    its size was too large for the header block and stands in a record before it. -/
def unmapped (size : Nat) : List UInt8 := if size < 8 ^ 11 then [] else List.replicate size 0

/-- A member, written and read again: the header of a sparse file is written without
    the map of its parts. -/
def TarGz.reread (m : Member) : Member :=
  if m.type = .gnuSparse then
    { m with size := (unmapped m.size).length, data := unmapped m.size,
             paxHeaders := lib.recordsOf m }
  else { m with paxHeaders := lib.recordsOf m }

/-- What is relied on. -/
structure TarGz.Faithful : Prop where
  sized : ∀ {file ms}, lib.members file = .ok ms → ∀ m ∈ ms, m.Sized
  members_write : ∀ {epoch ms}, GzipTime epoch →
    (∀ m ∈ ms, (m.isFile = true ∨ m.isDir = true) ∧ m.Sized ∧ m.WellNamed ∧ m.Plain epoch) →
    (∀ m ∈ ms, ¬m.Cut) → lib.members (lib.write epoch ms) = .ok (ms.map lib.reread)
  /-- The first member that is cut is found, as a directory; what follows may be lost. -/
  members_cut : ∀ {epoch ms written}, GzipTime epoch →
    (∀ m ∈ ms, (m.isFile = true ∨ m.isDir = true) ∧ m.Sized ∧ m.WellNamed ∧ m.Plain epoch) →
    (∃ m ∈ ms, m.Cut) → lib.members (lib.write epoch ms) = .ok written →
    ∃ m ∈ ms, m.Cut ∧ ∃ x ∈ written, x.name = m.name ∧ x.type = .dir

variable {lib} {m : Member}

@[simp] theorem TarGz.reread_name : (lib.reread m).name = m.name := by
  rw [reread]
  split <;> rfl

@[simp] theorem TarGz.reread_type : (lib.reread m).type = m.type := by
  rw [reread]
  split <;> rfl

@[simp] theorem TarGz.reread_mode : (lib.reread m).mode = m.mode := by
  rw [reread]
  split <;> rfl

@[simp] theorem TarGz.reread_linkname : (lib.reread m).linkname = m.linkname := by
  rw [reread]
  split <;> rfl

/-- What is no sparse file keeps its data and its size, and so does one that holds what
    is found of it. -/
theorem TarGz.reread_kept (hsized : m.Sized) (h : m.type = .gnuSparse → m.data = unmapped m.size) :
    lib.reread m = { m with paxHeaders := lib.recordsOf m } := by
  rw [reread]
  split
  · rename_i htype
    have hsize : (unmapped m.size).length = m.size := by
      rw [← h htype, hsized.file (by simp [Member.isFile, htype])]
    rw [hsize, ← h htype]
  · rfl

theorem TarGz.reread_sized (hsized : m.Sized) : (lib.reread m).Sized := by
  rw [reread]
  split
  · rename_i htype
    refine ⟨fun _ => rfl, fun hfile => ?_⟩
    rw [Member.isFile, htype] at hfile
    cases hfile
  · exact ⟨hsized.file, hsized.dir⟩

end Modules

/-! ## Order -/

section Order

variable {α β : Type} [LinearOrder β] (key : α → β)

instance instIsTransKey : IsTrans α fun a b => key a ≤ key b :=
  ⟨fun _ _ _ hab hbc => le_trans hab hbc⟩

instance instTotalKey : Std.Total fun a b : α => key a ≤ key b :=
  ⟨fun a b => le_total (key a) (key b)⟩

/-- With distinct keys the sorted list does not depend on the order it is sorted from. -/
theorem insertionSort_key_eq {l l' : List α} (hperm : l.Perm l') (hkeys : (l.map key).Nodup) :
    l.insertionSort (fun a b => key a ≤ key b) = l'.insertionSort fun a b => key a ≤ key b := by
  have hinj : ∀ a ∈ l, ∀ b ∈ l, key a = key b → a = b := fun a ha b hb =>
    List.inj_on_of_nodup_map hkeys ha hb
  have hsort := List.perm_insertionSort (fun a b : α => key a ≤ key b)
  refine List.Perm.eq_of_pairwise (fun a b ha hb hab hba => ?_)
    (List.pairwise_insertionSort _ l) (List.pairwise_insertionSort _ l')
    ((hsort l).trans (hperm.trans (hsort l').symm))
  have hb' : b ∈ l := hperm.mem_iff.mpr ((hsort l').mem_iff.mp hb)
  exact hinj a ((hsort l).mem_iff.mp ha) b hb' (le_antisymm hab hba)

end Order

/-- `sorted(ms, key=lambda item: item.name)` -/
def sortByName (ms : List Member) : List Member := ms.insertionSort fun a b => a.name ≤ b.name

theorem sortByName_perm (ms : List Member) : (sortByName ms).Perm ms :=
  List.perm_insertionSort _ ms

/-- Members sorted by name stay so when the names are kept. -/
theorem sortByName_map {f : Member → Member} (hname : ∀ m, (f m).name = m.name)
    (ms : List Member) : sortByName ((sortByName ms).map f) = (sortByName ms).map f := by
  refine List.Pairwise.insertionSort_eq (List.pairwise_map.mpr ?_)
  simp only [hname]
  exact List.pairwise_insertionSort (fun a b : Member => a.name ≤ b.name) ms

end Tar
