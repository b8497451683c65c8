/-
  McpVenusOs.Release.Sdist

  `normalize_sdist` of `scripts/package_release.py`: the archive is written again
  in a temporary directory beside it, and then put in its place.

  A run leaves every file but the archive as it was (`normalizeSdist_ok`), and a run
  that fails leaves that one too (`normalizeSdist_error`).  What a header keeps of
  the machine it was made on is what `normalizeMember` does not set: the link name,
  and the size of a directory.
-/

import McpVenusOs.Lib.TarGz

namespace McpVenusOs.Release

open Py Tar

/-! ## Files -/

/-- The files of a host, by path. -/
abbrev Files (File : Type) : Type := String → Option File

section Program

variable {File : Type}

def Files.write (fs : Files File) (path : String) (file : File) : Files File :=
  Function.update fs path (some file)

def Files.remove (fs : Files File) (path : String) : Files File := Function.update fs path none

/-- `src.replace(dst)` -/
def Files.replace (fs : Files File) (src dst : String) : Files File :=
  Files.remove (Function.update fs dst (fs src)) src

/-! ## `normalize_sdist` -/

/-- The exceptions: no such file, no readable archive, a time that the gzip header has
    no room for, and the script's own. -/
inductive NormalizeError
  | notFound
  | unreadable (e : PyError)
  | gzipTime
  | valueError (message : String)

/-- The attributes the loop sets, and the data it adds. -/
def normalizeMember (epoch : Int) (m : Member) : Member :=
  { m with
    uid := 0, gid := 0, uname := "", gname := "", mtime := epoch, paxHeaders := [],
    mode := if m.isDir || m.executable then 0o755 else 0o644,
    data := if m.isFile then m.data else [] }

/-- The loop over the sorted members: `target` has been added to the archive at `tmp`. -/
def normalizeLoop (lib : TarGz File) (epoch : Int) (tmp : String) :
    List Member → List Member → Files File → Except NormalizeError Unit × Files File
  | [], _, fs => (.ok (), fs)
  | m :: ms, target, fs =>
    if !(m.isFile || m.isDir) then
      (.error (.valueError "Source distribution contains a non-regular member"), fs)
    else
      let target := target ++ [normalizeMember epoch m]
      normalizeLoop lib epoch tmp ms target (fs.write tmp (lib.write epoch target))

/-- `normalize_sdist`; `tmp` is the file in the temporary directory, which is removed
    whatever happens. -/
def normalizeSdist (lib : TarGz File) (epoch : Int) (path tmp : String) (fs : Files File) :
    Except NormalizeError Unit × Files File :=
  match fs path with
  | none => (.error .notFound, fs)
  | some source =>
    match lib.members source with
    | .error e => (.error (.unreadable e), fs)
    | .ok members =>
      if ¬GzipTime epoch then (.error .gzipTime, fs)
      else
        match normalizeLoop lib epoch tmp (sortByName members) []
          (fs.write tmp (lib.write epoch [])) with
        | (.error e, fs) => (.error e, fs.remove tmp)
        | (.ok (), fs) => (.ok (), (fs.replace tmp path).remove tmp)

/-! ## What a run leaves -/

variable {lib : TarGz File} {epoch : Int} {path tmp : String} {fs : Files File}

/-- A member that is added. -/
def Kept (m : Member) : Prop := m.isFile = true ∨ m.isDir = true

instance (m : Member) : Decidable (Kept m) := inferInstanceAs (Decidable (_ ∨ _))

theorem normalizeLoop_ok (lib : TarGz File) (epoch : Int) (tmp : String) (fs : Files File)
    {ms : List Member} (hkept : ∀ m ∈ ms, Kept m) (target : List Member) :
    normalizeLoop lib epoch tmp ms target (fs.write tmp (lib.write epoch target)) =
      (.ok (), fs.write tmp (lib.write epoch (target ++ ms.map (normalizeMember epoch)))) := by
  induction ms generalizing target with
  | nil => rw [normalizeLoop, List.map_nil, List.append_nil]
  | cons m ms ih =>
    have hm : (m.isFile || m.isDir) = true := (Bool.or_eq_true _ _).mpr (hkept m List.mem_cons_self)
    have hwrite : (fs.write tmp (lib.write epoch target)).write tmp
        (lib.write epoch (target ++ [normalizeMember epoch m])) =
          fs.write tmp (lib.write epoch (target ++ [normalizeMember epoch m])) :=
      Function.update_idem _ _ _
    rw [normalizeLoop, hm, Bool.not_true, if_neg Bool.false_ne_true]
    show normalizeLoop lib epoch tmp ms _ _ = _
    rw [hwrite, ih (fun m' hm' => hkept m' (List.mem_cons_of_mem m hm')), List.append_assoc,
      List.map_cons, List.singleton_append]

/-- The loop stops at a member of another type, and has touched nothing but `tmp`. -/
theorem normalizeLoop_error (lib : TarGz File) (epoch : Int) (tmp : String) (fs : Files File)
    {ms : List Member} (hother : ∃ m ∈ ms, ¬Kept m)
    (target : List Member) :
    ∃ e file, normalizeLoop lib epoch tmp ms target (fs.write tmp (lib.write epoch target)) =
      (.error e, fs.write tmp file) := by
  -- the refused member may be any, so the induction is over the archive written so far
  induction ms generalizing target with
  | nil =>
    obtain ⟨m, hm, -⟩ := hother
    cases hm
  | cons m ms ih =>
    rw [normalizeLoop]
    by_cases hm : Kept m
    · have hor : (m.isFile || m.isDir) = true := (Bool.or_eq_true _ _).mpr hm
      -- the archive with one more member takes the place of the last one
      have hwrite : (fs.write tmp (lib.write epoch target)).write tmp
          (lib.write epoch (target ++ [normalizeMember epoch m])) =
            fs.write tmp (lib.write epoch (target ++ [normalizeMember epoch m])) :=
        Function.update_idem _ _ _
      rw [hor, Bool.not_true, if_neg Bool.false_ne_true]
      show ∃ e file, normalizeLoop lib epoch tmp ms _ _ = _
      rw [hwrite]
      obtain ⟨m', hm', hother'⟩ := hother
      rcases List.mem_cons.mp hm' with rfl | hm'
      · exact absurd hm hother'
      · exact ih ⟨m', hm', hother'⟩ _
    · have hor : (m.isFile || m.isDir) = false := by
        rw [← Bool.not_eq_true, Bool.or_eq_true]
        exact hm
      -- a member of another type ends the loop, before it is added
      rw [hor, Bool.not_false, if_pos rfl]
      exact ⟨_, _, rfl⟩

/-- The temporary file was not there before, and is not there afterwards. -/
theorem write_remove (hfresh : fs tmp = none) (file : File) :
    (fs.write tmp file).remove tmp = fs := by
  rw [Files.write, Files.remove, Function.update_idem, ← hfresh, Function.update_eq_self]

theorem write_replace_remove (hfresh : fs tmp = none) (hpath : tmp ≠ path) (file : File) :
    ((fs.write tmp file).replace tmp path).remove tmp = fs.write path file := by
  funext p
  by_cases htmp : p = tmp
  · subst htmp
    simp [Files.remove, Files.write, Function.update_of_ne hpath, hfresh]
  · by_cases hp : p = path
    · subst hp
      simp [Files.remove, Files.replace, Files.write, Function.update_of_ne htmp]
    · simp [Files.remove, Files.replace, Files.write, Function.update_of_ne htmp,
        Function.update_of_ne hp]

variable {source : File} {ms : List Member}

/-- The archive is exchanged, and nothing else. -/
theorem normalizeSdist_ok (hstored : fs path = some source) (hfresh : fs tmp = none)
    (hmembers : lib.members source = .ok ms) (hepoch : GzipTime epoch)
    (hkept : ∀ m ∈ ms, Kept m) :
    normalizeSdist lib epoch path tmp fs =
      (.ok (), fs.write path (lib.write epoch ((sortByName ms).map (normalizeMember epoch)))) := by
  have hpath : tmp ≠ path := by
    rintro rfl
    rw [hfresh] at hstored
    cases hstored
  have hloop := normalizeLoop_ok lib epoch tmp fs
    (fun m hm => hkept m ((sortByName_perm ms).mem_iff.mp hm)) []
  rw [normalizeSdist, hstored]
  simp only [hmembers, hepoch, not_true, if_false, hloop, List.nil_append,
    write_replace_remove hfresh hpath]

/-- A member of another type, or a time without room: nothing is changed. -/
theorem normalizeSdist_error (hstored : fs path = some source) (hfresh : fs tmp = none)
    (hmembers : lib.members source = .ok ms) (h : ¬GzipTime epoch ∨ ∃ m ∈ ms, ¬Kept m) :
    ∃ e, normalizeSdist lib epoch path tmp fs = (.error e, fs) := by
  rw [normalizeSdist, hstored]
  simp only [hmembers]
  by_cases hepoch : GzipTime epoch
  · obtain ⟨m, hm, hother⟩ := h.resolve_left (not_not.mpr hepoch)
    obtain ⟨e, file, hloop⟩ := normalizeLoop_error lib epoch tmp fs
      ⟨m, (sortByName_perm ms).mem_iff.mpr hm, hother⟩ []
    rw [if_neg (not_not.mpr hepoch), hloop]
    refine ⟨e, ?_⟩
    show (_, (fs.write tmp file).remove tmp) = _
    rw [write_remove hfresh]
  · rw [if_pos hepoch]
    exact ⟨_, rfl⟩

/-! ## Two hosts -/

/-- A host with the archive at `path`, and a temporary directory that is new. -/
structure Host (File : Type) where
  files : Files File
  path : String
  tmp : String
  source : File
  stored : files path = some source
  fresh : files tmp = none

namespace Host

def normalize (h : Host File) (lib : TarGz File) (epoch : Int) :
    Except NormalizeError Unit × Files File :=
  normalizeSdist lib epoch h.path h.tmp h.files

theorem tmp_ne (h : Host File) : h.tmp ≠ h.path := by
  intro htmp
  have hstored := h.stored
  rw [← htmp, h.fresh] at hstored
  cases hstored

/-- Another archive in the place of the first. -/
def put (h : Host File) (file : File) : Host File where
  files := h.files.write h.path file
  path := h.path
  tmp := h.tmp
  source := file
  stored := Function.update_self _ _ _
  fresh := (Function.update_of_ne h.tmp_ne _ _).trans h.fresh

end Host

/-- The archive at the path, as it is read. -/
structure Sdist (lib : TarGz File) (h : Host File) (ms : List Member) : Prop where
  members : lib.members h.source = .ok ms
  names : (ms.map Member.name).Nodup
  named : ∀ m ∈ ms, m.WellNamed

/-- What a user of the archive sees of a member. -/
def SameMember (m m' : Member) : Prop :=
  m.name = m'.name ∧ m.type = m'.type ∧ m.data = m'.data ∧ m.executable = m'.executable

/-- Two archives agree, name by name. -/
def Agree (ms ms' : List Member) : Prop :=
  (∀ m ∈ ms, ∃ m' ∈ ms', SameMember m m') ∧ ∀ m' ∈ ms', ∃ m ∈ ms, SameMember m m'

def contents (m : Member) : String × MemberType × List UInt8 := (m.name, m.type, m.data)

/-- What is promised of two archives that agree: one result, with the names, types and
    data they had, that stays as it is; or, for another kind of member, none. -/
structure Normalizes (lib : TarGz File) (epoch : Int) (h h' : Host File) (ms : List Member) :
    Prop where
  canonical : (∀ m ∈ ms, Kept m) → ∃ out,
    h.normalize lib epoch = (.ok (), h.files.write h.path out) ∧
    h'.normalize lib epoch = (.ok (), h'.files.write h'.path out) ∧
    (∃ written, lib.members out = .ok written ∧
      (written.map contents).Perm (ms.map contents)) ∧
    (h.put out).normalize lib epoch = (.ok (), (h.put out).files)
  rejected : (∃ m ∈ ms, ¬Kept m) →
    (∃ e, h.normalize lib epoch = (.error e, h.files)) ∧
      ∃ e, h'.normalize lib epoch = (.error e, h'.files)

/-- What the loop does not erase does not differ, and no data is lost: the time fits,
    a sparse file has what is found without its map (it is empty, or too large for a
    header and all zeros), no old regular file has a name that is cut at a slash, and the
    link names and the sizes of directories agree. -/
def Erased (epoch : Int) (ms ms' : List Member) : Prop :=
  GzipTime epoch ∧ (∀ m ∈ ms, (m.type = .gnuSparse → m.data = unmapped m.size) ∧ ¬m.Cut) ∧
    ∀ m ∈ ms, ∀ m' ∈ ms', m.name = m'.name →
      m.linkname = m'.linkname ∧ (m.isDir = true → m.size = m'.size)

/-! ## One member -/

section Member

variable {m m' : Member}

theorem normalizeMember_eq (hsame : SameMember m m') (hlink : m.linkname = m'.linkname)
    (hsize : m.isDir = true → m.size = m'.size) (hsized : m.Sized) (hsized' : m'.Sized)
    (hkept : Kept m) : normalizeMember epoch m = normalizeMember epoch m' := by
  obtain ⟨hname, htype, hdata, hexec⟩ := hsame
  have hfile : m.isFile = m'.isFile := by rw [Member.isFile, Member.isFile, htype]
  have hdir : m.isDir = m'.isDir := by rw [Member.isDir, Member.isDir, htype]
  have hsizes : m.size = m'.size := by
    rcases hkept with h | h
    · rw [← hsized.file h, ← hsized'.file (hfile ▸ h), hdata]
    · exact hsize h
  rw [normalizeMember, normalizeMember, hname, htype, hlink, hsizes, hdata, hfile, hdir, hexec]

/-- A normalised member has nothing of its host. -/
theorem normalizeMember_plain : (normalizeMember epoch m).Plain epoch := by
  refine ⟨⟨rfl, rfl, rfl, rfl⟩, ?_, rfl, rfl⟩
  show (if m.isDir || m.executable then 0o755 else 0o644) ≤ 0o7777
  split
  · decide
  · decide

theorem normalizeMember_sized (h : m.Sized) : (normalizeMember epoch m).Sized := by
  refine ⟨fun hfile => ?_, fun hfile => ?_⟩
  · have hfile' : m.isFile = true := hfile
    show (if m.isFile then m.data else []).length = m.size
    rw [hfile', if_pos rfl, h.file hfile']
  · have hfile' : m.isFile = false := hfile
    show (if m.isFile then m.data else []) = []
    rw [hfile', if_neg Bool.false_ne_true]

theorem normalizeMember_named (h : m.WellNamed) : (normalizeMember epoch m).WellNamed :=
  ⟨h.name, h.linkname⟩

theorem normalizeMember_data (h : m.Sized) : (normalizeMember epoch m).data = m.data := by
  show (if m.isFile then m.data else []) = m.data
  cases hfile : m.isFile with
  | true => rfl
  | false => exact (h.dir hfile).symm

/-- The mode says again whether the member is executable. -/
theorem normalizeMember_executable :
    (normalizeMember epoch m).executable = (m.isDir || m.executable) := by
  show ((if m.isDir || m.executable then 0o755 else 0o644) &&& 0o111 != 0) = _
  cases m.isDir || m.executable with
  | true => decide
  | false => decide

/-- A normalised member, under other extended headers, is normalised to itself. -/
theorem normalizeMember_idem (paxHeaders : List (String × String)) :
    normalizeMember epoch { normalizeMember epoch m with paxHeaders := paxHeaders } =
      normalizeMember epoch m := by
  have hmode : (if m.isDir || (normalizeMember epoch m).executable then 0o755 else 0o644) =
      (normalizeMember epoch m).mode := by
    rw [normalizeMember_executable, ← Bool.or_assoc, Bool.or_self]
    rfl
  have hdata : (if m.isFile then (normalizeMember epoch m).data else []) =
      (normalizeMember epoch m).data := by
    show (if m.isFile then (if m.isFile then m.data else []) else []) =
      if m.isFile then m.data else []
    split
    · rfl
    · rfl
  show { normalizeMember epoch m with
      mode := if m.isDir || (normalizeMember epoch m).executable then 0o755 else 0o644,
      data := if m.isFile then (normalizeMember epoch m).data else [] } = _
  rw [hmode, hdata]

theorem reread_normalizeMember (hsized : m.Sized)
    (hsparse : m.type = .gnuSparse → m.data = unmapped m.size) :
    lib.reread (normalizeMember epoch m) =
      { normalizeMember epoch m with paxHeaders := lib.recordsOf (normalizeMember epoch m) } := by
  refine TarGz.reread_kept (normalizeMember_sized hsized) fun htype => ?_
  rw [normalizeMember_data hsized]
  exact hsparse htype

/-- What is read back of a normalised member, whatever its type. -/
theorem reread_fields (lib : TarGz File) (epoch : Int) (m : Member) :
    (lib.reread (normalizeMember epoch m)).name = m.name ∧
      (lib.reread (normalizeMember epoch m)).type = m.type ∧
      (lib.reread (normalizeMember epoch m)).linkname = m.linkname :=
  ⟨TarGz.reread_name, TarGz.reread_type, TarGz.reread_linkname⟩

theorem reread_data_of_sparse (lib : TarGz File) (epoch : Int) (htype : m.type = .gnuSparse) :
    (lib.reread (normalizeMember epoch m)).data = unmapped m.size := by
  have htype' : (normalizeMember epoch m).type = .gnuSparse := htype
  rw [TarGz.reread, if_pos htype']
  rfl

theorem reread_size_of_dir (lib : TarGz File) (epoch : Int) (hdir : m.isDir = true) :
    (lib.reread (normalizeMember epoch m)).size = m.size := by
  have hsparse : (normalizeMember epoch m).type ≠ .gnuSparse := by
    have htype : (normalizeMember epoch m).type = .dir := of_decide_eq_true hdir
    rw [htype]
    decide
  rw [TarGz.reread, if_neg hsparse]
  rfl

end Member

/-! ## The sorted members -/

section Sorted

variable {ms ms' : List Member} {h h' : Host File}

/-- What is written, of the members that were read. -/
def normalized (epoch : Int) (ms : List Member) : List Member :=
  (sortByName ms).map (normalizeMember epoch)

theorem mem_normalized {x : Member} :
    x ∈ normalized epoch ms ↔ ∃ m ∈ ms, normalizeMember epoch m = x := by
  rw [normalized, List.mem_map]
  simp only [(sortByName_perm ms).mem_iff]

theorem normalized_perm : (normalized epoch ms).Perm (ms.map (normalizeMember epoch)) :=
  (sortByName_perm ms).map _

theorem names_normalized (epoch : Int) (ms : List Member) :
    (ms.map (normalizeMember epoch)).map Member.name = ms.map Member.name := by
  rw [List.map_map]
  rfl

/-- The order in which the members were read is lost. -/
theorem normalized_eq (hnames : (ms.map Member.name).Nodup)
    (hperm : (ms.map (normalizeMember epoch)).Perm (ms'.map (normalizeMember epoch))) :
    normalized epoch ms = normalized epoch ms' := by
  have hsame : (normalized epoch ms).Perm (normalized epoch ms') :=
    normalized_perm.trans (hperm.trans normalized_perm.symm)
  have hkeys : ((normalized epoch ms).map Member.name).Nodup := by
    rw [(normalized_perm.map Member.name).nodup_iff, names_normalized]
    exact hnames
  have hsort : sortByName (normalized epoch ms) = sortByName (normalized epoch ms') :=
    insertionSort_key_eq Member.name hsame hkeys
  have hname : ∀ m, (normalizeMember epoch m).name = m.name := fun m => rfl
  rwa [normalized, normalized, sortByName_map hname, sortByName_map hname] at hsort

/-- A name stands for one member. -/
theorem eq_of_name {m m' : Member} (hnames : (ms.map Member.name).Nodup) (hm : m ∈ ms)
    (hm' : m' ∈ ms) (h : m.name = m'.name) : m = m' :=
  List.inj_on_of_nodup_map hnames hm hm' h

theorem SameMember.kept {m m' : Member} (h : SameMember m m') : Kept m ↔ Kept m' := by
  rw [Kept, Kept, Member.isFile, Member.isFile, Member.isDir, Member.isDir, h.2.1]

theorem SameMember.cut {m m' : Member} (h : SameMember m m') : m.Cut ↔ m'.Cut := by
  rw [Member.Cut, Member.Cut, h.1, h.2.1]

/-- What is the same for members that agree is said of both archives. -/
theorem Agree.forall_right {P : Member → Prop} (hagree : Agree ms ms')
    (hP : ∀ {m m' : Member}, SameMember m m' → (P m ↔ P m')) (h : ∀ m ∈ ms, P m) :
    ∀ m' ∈ ms', P m' := by
  intro m' hm'
  obtain ⟨m, hm, hsame⟩ := hagree.2 m' hm'
  exact (hP hsame).mp (h m hm)

theorem normalized_perm_of_agree (hnames : (ms.map Member.name).Nodup)
    (hnames' : (ms'.map Member.name).Nodup) (hsized : ∀ m ∈ ms, m.Sized)
    (hsized' : ∀ m ∈ ms', m.Sized) (hkept : ∀ m ∈ ms, Kept m) (hagree : Agree ms ms')
    (herased : Erased epoch ms ms') :
    (ms.map (normalizeMember epoch)).Perm (ms'.map (normalizeMember epoch)) := by
  have hnodup : ∀ {l : List Member}, (l.map Member.name).Nodup →
      (l.map (normalizeMember epoch)).Nodup := by
    intro l hl
    rw [← names_normalized epoch] at hl
    exact hl.of_map
  -- of the same name, type, data and execute bits the loop makes one member
  have heq : ∀ m ∈ ms, ∀ m' ∈ ms', SameMember m m' →
      normalizeMember epoch m = normalizeMember epoch m' := by
    intro m hm m' hm' hsame
    obtain ⟨hlink, hsize⟩ := herased.2.2 m hm m' hm' hsame.1
    exact normalizeMember_eq hsame hlink hsize (hsized m hm) (hsized' m' hm') (hkept m hm)
  rw [List.perm_ext_iff_of_nodup (hnodup hnames) (hnodup hnames')]
  intro x
  rw [List.mem_map, List.mem_map]
  constructor
  · rintro ⟨m, hm, rfl⟩
    obtain ⟨m', hm', hsame⟩ := hagree.1 m hm
    exact ⟨m', hm', (heq m hm m' hm' hsame).symm⟩
  · rintro ⟨m', hm', rfl⟩
    obtain ⟨m, hm, hsame⟩ := hagree.2 m' hm'
    exact ⟨m, hm, heq m hm m' hm' hsame⟩

/-- The members that are written are such as the modules are relied on for. -/
theorem normalized_writable (hlib : lib.Faithful) (hsdist : Sdist lib h ms)
    (hkept : ∀ m ∈ ms, Kept m) : ∀ x ∈ normalized epoch ms,
      (x.isFile = true ∨ x.isDir = true) ∧ x.Sized ∧ x.WellNamed ∧ x.Plain epoch := by
  have hsized := hlib.sized hsdist.members
  intro x hx
  obtain ⟨m, hm, rfl⟩ := mem_normalized.mp hx
  exact ⟨hkept m hm, normalizeMember_sized (hsized m hm),
    normalizeMember_named (hsdist.named m hm), normalizeMember_plain⟩

/-- What the written archive is read as. -/
theorem members_written (hlib : lib.Faithful) (hsdist : Sdist lib h ms)
    (hepoch : GzipTime epoch) (hkept : ∀ m ∈ ms, Kept m) (hcut : ∀ m ∈ ms, ¬m.Cut) :
    lib.members (lib.write epoch (normalized epoch ms)) =
      .ok ((normalized epoch ms).map lib.reread) := by
  refine hlib.members_write hepoch (normalized_writable hlib hsdist hkept) fun x hx => ?_
  obtain ⟨m, hm, rfl⟩ := mem_normalized.mp hx
  exact hcut m hm

/-- A file that comes back as a directory is no content of the archive. -/
theorem not_cut_of_written (hlib : lib.Faithful) (hsdist : Sdist lib h ms)
    (hepoch : GzipTime epoch) (hkept : ∀ m ∈ ms, Kept m) {written : List Member}
    (hread : lib.members (lib.write epoch (normalized epoch ms)) = .ok written)
    (hperm : (written.map contents).Perm (ms.map contents)) : ∀ m ∈ ms, ¬m.Cut := by
  intro m hm hcut
  obtain ⟨y, hy, hycut, x, hx, hname, htype⟩ := hlib.members_cut hepoch
    (normalized_writable hlib hsdist hkept) ⟨_, mem_normalized.mpr ⟨m, hm, rfl⟩, hcut⟩ hread
  obtain ⟨m₁, hm₁, rfl⟩ := mem_normalized.mp hy
  -- the directory is one of the members that were read
  obtain ⟨m₂, hm₂, hcontents⟩ :=
    List.mem_map.mp (hperm.mem_iff.mp (List.mem_map_of_mem hx))
  obtain ⟨hname₂, htype₂, -⟩ : m₂.name = x.name ∧ m₂.type = x.type ∧ m₂.data = x.data := by
    simpa [contents] using hcontents
  -- of that name there is one, and it is a file
  obtain rfl := eq_of_name hsdist.names hm₁ hm₂ (hname.symm.trans hname₂.symm)
  have hareg : m₁.type = .areg := hycut.1
  rw [hareg, htype] at htype₂
  cases htype₂

/-- The written archive, read with other extended headers, is written again. -/
theorem normalized_normalized (epoch : Int) (ms : List Member)
    (records : Member → List (String × String)) :
    normalized epoch ((normalized epoch ms).map fun x => { x with paxHeaders := records x }) =
      normalized epoch ms := by
  have hsorted : sortByName ((normalized epoch ms).map fun x =>
      { x with paxHeaders := records x }) =
        (normalized epoch ms).map fun x => { x with paxHeaders := records x } := by
    rw [normalized, List.map_map]
    exact sortByName_map (f := (fun x : Member => { x with paxHeaders := records x }) ∘
      normalizeMember epoch) (fun m => rfl) ms
  rw [normalized, hsorted, List.map_map]
  refine (List.map_congr_left fun x hx => ?_).trans (List.map_id _)
  obtain ⟨m, -, rfl⟩ := mem_normalized.mp hx
  exact normalizeMember_idem (records (normalizeMember epoch m))

theorem contents_normalized (hsized : ∀ m ∈ ms, m.Sized) :
    ((normalized epoch ms).map contents).Perm (ms.map contents) := by
  refine (normalized_perm.map contents).trans (.of_eq ?_)
  rw [List.map_map]
  refine List.map_congr_left fun m hm => ?_
  have hdata : (normalizeMember epoch m).data = m.data := normalizeMember_data (hsized m hm)
  exact Prod.ext rfl (Prod.ext rfl hdata)

/-! ## The promise -/

theorem normalizes_of_other (hsdist : Sdist lib h ms) (hsdist' : Sdist lib h' ms')
    (hagree : Agree ms ms') (hother : ∃ m ∈ ms, ¬Kept m) : Normalizes lib epoch h h' ms := by
  obtain ⟨m, hm, hnot⟩ := hother
  refine ⟨fun hkept => absurd (hkept m hm) hnot, fun _ => ⟨?_, ?_⟩⟩
  · exact normalizeSdist_error h.stored h.fresh hsdist.members (.inr ⟨m, hm, hnot⟩)
  · obtain ⟨m', hm', hsame⟩ := hagree.1 m hm
    exact normalizeSdist_error h'.stored h'.fresh hsdist'.members
      (.inr ⟨m', hm', fun hkept => hnot (hsame.kept.mpr hkept)⟩)

/-- Nothing that differs is left, so the two results are one, and it is normal. -/
theorem normalizes_of_erased (hlib : lib.Faithful) (hsdist : Sdist lib h ms)
    (hsdist' : Sdist lib h' ms') (hagree : Agree ms ms') (hkept : ∀ m ∈ ms, Kept m)
    (herased : Erased epoch ms ms') : Normalizes lib epoch h h' ms := by
  have hsized := hlib.sized hsdist.members
  have hkept' : ∀ m' ∈ ms', Kept m' := hagree.forall_right SameMember.kept hkept
  -- one list of members, so one file
  have hsame : normalized epoch ms = normalized epoch ms' :=
    normalized_eq hsdist.names (normalized_perm_of_agree hsdist.names hsdist'.names hsized
      (hlib.sized hsdist'.members) hkept hagree herased)
  have hwritten := members_written hlib hsdist herased.1 hkept fun m hm => (herased.2.1 m hm).2
  -- what is written is read back, but for the records of its extended headers
  have hreread : (normalized epoch ms).map lib.reread = (normalized epoch ms).map fun x =>
      { x with paxHeaders := lib.recordsOf x } := by
    refine List.map_congr_left fun x hx => ?_
    obtain ⟨m, hm, rfl⟩ := mem_normalized.mp hx
    exact reread_normalizeMember (hsized m hm) (herased.2.1 m hm).1
  rw [hreread] at hwritten
  refine ⟨fun _ => ⟨lib.write epoch (normalized epoch ms), ?_, ?_, ⟨_, hwritten, ?_⟩, ?_⟩, ?_⟩
  -- the first run, and the second on the other archive
  · exact normalizeSdist_ok h.stored h.fresh hsdist.members herased.1 hkept
  · rw [hsame]
    exact normalizeSdist_ok h'.stored h'.fresh hsdist'.members herased.1 hkept'
  -- names and data are those of the input
  · rw [List.map_map]
    exact contents_normalized hsized
  -- once more: the loop takes what it has written, and makes the same of it
  · have hkeptWritten : ∀ x ∈ (normalized epoch ms).map (fun x =>
        { x with paxHeaders := lib.recordsOf x }), Kept x := by
      intro x hx
      obtain ⟨y, hy, rfl⟩ := List.mem_map.mp hx
      obtain ⟨m, hm, rfl⟩ := mem_normalized.mp hy
      exact hkept m hm
    refine (normalizeSdist_ok (h.put _).stored (h.put _).fresh hwritten herased.1
      hkeptWritten).trans ?_
    have hagain := normalized_normalized epoch ms lib.recordsOf
    rw [normalized] at hagain
    rw [hagain]
    exact congrArg (Prod.mk _) (Function.update_idem _ _ _)
  -- no member was refused, so the other half says nothing
  · rintro ⟨m, hm, hnot⟩
    exact absurd (hkept m hm) hnot

/-- The archive a run leaves, when it returns. -/
theorem written_of_ok {out : File} (hsdist : Sdist lib h ms) (hkept : ∀ m ∈ ms, Kept m)
    (hrun : h.normalize lib epoch = (.ok (), h.files.write h.path out)) :
    GzipTime epoch ∧ out = lib.write epoch (normalized epoch ms) := by
  have hepoch : GzipTime epoch := by
    by_contra hepoch
    obtain ⟨e, herror⟩ :=
      normalizeSdist_error h.stored h.fresh hsdist.members (.inl hepoch)
    cases (congrArg Prod.fst hrun).symm.trans (congrArg Prod.fst herror)
  have hok := normalizeSdist_ok h.stored h.fresh hsdist.members hepoch hkept
  have hfiles := congrFun (congrArg Prod.snd (hrun.symm.trans hok)) h.path
  simp only [Files.write, Function.update_self, Option.some.injEq] at hfiles
  exact ⟨hepoch, hfiles⟩

/-- A result that is the same, and has the data, shows what was erased. -/
theorem erased_of_normalizes (hlib : lib.Faithful) (hsdist : Sdist lib h ms)
    (hsdist' : Sdist lib h' ms') (hagree : Agree ms ms') (hkept : ∀ m ∈ ms, Kept m)
    (hnormalizes : Normalizes lib epoch h h' ms) : Erased epoch ms ms' := by
  have hkept' : ∀ m' ∈ ms', Kept m' := hagree.forall_right SameMember.kept hkept
  obtain ⟨out, hrun, hrun', ⟨written, hread, hperm⟩, -⟩ := hnormalizes.canonical hkept
  obtain ⟨hepoch, hout⟩ := written_of_ok hsdist hkept hrun
  obtain ⟨-, hout'⟩ := written_of_ok hsdist' hkept' hrun'
  have hcut : ∀ m ∈ ms, ¬m.Cut :=
    not_cut_of_written hlib hsdist hepoch hkept (hout ▸ hread) hperm
  have hcut' : ∀ m' ∈ ms', ¬m'.Cut :=
    hagree.forall_right (fun hsame => not_congr hsame.cut) hcut
  -- both archives were written from what the loop makes, and are one
  have hwritten : written = (normalized epoch ms).map lib.reread := by
    rw [hout, members_written hlib hsdist hepoch hkept hcut] at hread
    exact (Except.ok.inj hread).symm
  have hwritten' : written = (normalized epoch ms').map lib.reread := by
    rw [hout', members_written hlib hsdist' hepoch hkept' hcut'] at hread
    exact (Except.ok.inj hread).symm
  refine ⟨hepoch, fun m hm => ⟨fun htype => ?_, hcut m hm⟩, fun m hm m' hm' hname => ?_⟩
  -- the data of the member was written, so it was read in full
  · have hmem : contents m ∈ written.map contents :=
      hperm.mem_iff.mpr (List.mem_map_of_mem hm)
    rw [hwritten, List.map_map] at hmem
    obtain ⟨x, hx, hcontents⟩ := List.mem_map.mp hmem
    obtain ⟨m₂, hm₂, rfl⟩ := mem_normalized.mp hx
    have hname : m₂.name = m.name :=
      (reread_fields lib epoch m₂).1.symm.trans (congrArg Prod.fst hcontents)
    obtain rfl := eq_of_name hsdist.names hm₂ hm hname
    exact (congrArg (·.2.2) hcontents).symm.trans (reread_data_of_sparse lib epoch htype)
  -- the written member of that name is of both archives
  · have hmem : lib.reread (normalizeMember epoch m) ∈ (normalized epoch ms').map lib.reread := by
      rw [← hwritten', hwritten]
      exact List.mem_map_of_mem (mem_normalized.mpr ⟨m, hm, rfl⟩)
    obtain ⟨x, hx, hreread⟩ := List.mem_map.mp hmem
    obtain ⟨m₂, hm₂, rfl⟩ := mem_normalized.mp hx
    obtain ⟨hname₁, htype₁, hlink₁⟩ := reread_fields lib epoch m
    obtain ⟨hname₂, htype₂, hlink₂⟩ := reread_fields lib epoch m₂
    rw [hreread] at hname₂ htype₂ hlink₂
    obtain rfl := eq_of_name hsdist'.names hm₂ hm' (hname₂.symm.trans (hname₁.trans hname))
    refine ⟨hlink₁.symm.trans hlink₂, fun hdir => ?_⟩
    have hdir₂ : m₂.isDir = true := by
      rw [Member.isDir, ← htype₂, htype₁]
      exact hdir
    rw [← reread_size_of_dir lib epoch hdir, ← hreread, reread_size_of_dir lib epoch hdir₂]

/-- Two archives that agree on names, types, data and execute bits are normalised to
    one, and keep their data, exactly when a member is refused, or nothing that the loop
    does not erase differs or is lost. -/
theorem normalizeSdist_canonical (hlib : lib.Faithful) (epoch : Int) (hsdist : Sdist lib h ms)
    (hsdist' : Sdist lib h' ms') (hagree : Agree ms ms') :
    Normalizes lib epoch h h' ms ↔ (∃ m ∈ ms, ¬Kept m) ∨ Erased epoch ms ms' := by
  by_cases hother : ∃ m ∈ ms, ¬Kept m
  · exact ⟨fun _ => .inl hother, fun _ => normalizes_of_other hsdist hsdist' hagree hother⟩
  · have hkept : ∀ m ∈ ms, Kept m := by
      intro m hm
      by_contra hnot
      exact hother ⟨m, hm, hnot⟩
    constructor
    · exact fun hnormalizes =>
        .inr (erased_of_normalizes hlib hsdist hsdist' hagree hkept hnormalizes)
    · intro h
      exact normalizes_of_erased hlib hsdist hsdist' hagree hkept (h.resolve_left hother)

end Sorted

end Program

/-! ## Archives of header blocks -/

/-- A header block with its data; a sparse file's is followed by the map of its parts,
    when GNU tar has written it. -/
structure Block where
  member : Member
  sparseMap : Bool := false

/-- Without the map a sparse file has no parts, and a slash where the name is cut makes
    a directory. -/
def Block.read (b : Block) : Member :=
  if b.member.type = .gnuSparse ∧ b.sparseMap = false then
    { b.member with size := (unmapped b.member.size).length, data := unmapped b.member.size }
  else if b.member.Cut then { b.member with type := .dir, data := [] }
  else b.member

/-- The time in the gzip header, and the blocks. -/
abbrev BlockFile : Type := Int × List Block

/-- The two modules over files that are their blocks. -/
def blockModules : TarGz BlockFile where
  members file :=
    if ∀ m ∈ file.2.map Block.read, m.Sized then .ok (file.2.map Block.read) else .error .valueError
  write epoch ms := (epoch, ms.map fun m => { member := m })
  recordsOf _ := []

theorem blockModules_faithful : blockModules.Faithful where
  sized {file ms} h := by
    simp only [blockModules] at h
    split at h
    · rename_i hsized
      obtain rfl := Except.ok.inj h
      exact hsized
    · cases h
  members_write {epoch ms} _ hms hcut := by
    -- a member without records of its own is one block, which is read back
    have hread : ((ms.map fun m => ({ member := m } : Block)).map Block.read) =
        ms.map blockModules.reread := by
      rw [List.map_map]
      refine List.map_congr_left fun m hm => ?_
      have hrecords : m.paxHeaders = [] := (hms m hm).2.2.2.paxHeaders
      rw [Function.comp, Block.read, TarGz.reread]
      obtain ⟨name, type, mode, uid, gid, uname, gname, mtime, linkname, size, paxHeaders, data⟩ :=
        m
      obtain rfl : paxHeaders = [] := hrecords
      simp [blockModules, hcut _ hm]
    -- and what is read back has the size of its data
    have hsized : ∀ m ∈ ms.map blockModules.reread, m.Sized := by
      intro x hx
      obtain ⟨m, hm, rfl⟩ := List.mem_map.mp hx
      exact TarGz.reread_sized (hms m hm).2.1
    simp only [blockModules] at hread hsized ⊢
    rw [hread, if_pos hsized]
  members_cut {epoch ms written} _ _ hcut h := by
    obtain ⟨m, hm, hmcut⟩ := hcut
    simp only [blockModules] at h
    split at h
    · obtain rfl := Except.ok.inj h
      refine ⟨m, hm, hmcut, Block.read { member := m },
        List.mem_map_of_mem (List.mem_map_of_mem hm), ?_⟩
      have hsparse : m.type ≠ .gnuSparse := by
        rw [hmcut.1]
        decide
      simp [Block.read, hsparse, hmcut]
    · cases h

/-- A host that has one archive. -/
def blockHost (blocks : List Block) : Host BlockFile where
  files := Function.update (fun _ => none) "source.tar.gz" (some (7, blocks))
  path := "source.tar.gz"
  tmp := "normalize-0/source.tar.gz"
  source := (7, blocks)
  stored := Function.update_self _ _ _
  fresh := Function.update_of_ne (by decide) _ _

/-- A script, as builder `n` packs it. -/
def packedScript (n : Nat) : Member where
  name := "fixture/run.py"
  type := .reg
  mode := 0o755
  uid := n
  gid := n
  uname := "builder"
  gname := "builder"
  mtime := n + 1 / 2
  linkname := ""
  size := 3
  paxHeaders := [("comment", "builder")]
  data := [1, 2, 3]

theorem sdist_blockHost {b : Block} (hsized : b.read.Sized) (hnamed : b.read.WellNamed) :
    Sdist blockModules (blockHost [b]) [b.read] := by
  refine ⟨if_pos fun m hm => ?_, List.nodup_singleton _, fun m hm => ?_⟩
  · obtain rfl := List.mem_singleton.mp hm
    exact hsized
  · obtain rfl := List.mem_singleton.mp hm
    exact hnamed

theorem packedScript_sdist (n : Nat) :
    Sdist blockModules (blockHost [{ member := packedScript n }]) [packedScript n] := by
  have hname : hasChar "fixture/run.py" '\x00' = false ∧ endsWith "fixture/run.py" "/" = false := by
    decide
  have hlinkname : hasChar "" '\x00' = false := by decide
  exact sdist_blockHost (b := { member := packedScript n }) ⟨fun _ => rfl, fun h => nomatch h⟩
    ⟨hname, hlinkname⟩

/-- Two builders get one archive. -/
theorem normalizeSdist_canonical_builders :
    Normalizes blockModules 0 (blockHost [{ member := packedScript 1 }])
      (blockHost [{ member := packedScript 2 }]) [packedScript 1] := by
  have hagree : Agree [packedScript 1] [packedScript 2] := by
    have hsame : SameMember (packedScript 1) (packedScript 2) := ⟨rfl, rfl, rfl, rfl⟩
    simp [Agree, hsame]
  refine (normalizeSdist_canonical blockModules_faithful 0 (packedScript_sdist 1)
    (packedScript_sdist 2) hagree).mpr (.inr ⟨by decide, fun m hm => ?_, fun m hm m' hm' _ => ?_⟩)
  · obtain rfl := List.mem_singleton.mp hm
    exact ⟨fun hsparse => (nomatch hsparse), fun hcut => nomatch hcut.1⟩
  · obtain rfl := List.mem_singleton.mp hm
    obtain rfl := List.mem_singleton.mp hm'
    exact ⟨rfl, fun _ => rfl⟩

/-- A sparse file, as GNU tar packs it. -/
def sparseFile : Member :=
  { packedScript 1 with name := "fixture/disk.img", type := .gnuSparse }

/-- The header of a sparse file is written without its map, and its data is lost. -/
theorem sparse_data_lost :
    ¬∀ (h h' : Host BlockFile) (ms ms' : List Member), Sdist blockModules h ms →
      Sdist blockModules h' ms' → Agree ms ms' → Normalizes blockModules 0 h h' ms := by
  intro hall
  have hsdist : Sdist blockModules (blockHost [⟨sparseFile, true⟩]) [sparseFile] := by
    exact sdist_blockHost (b := ⟨sparseFile, true⟩) ⟨fun _ => rfl, fun h => nomatch h⟩
      ⟨by decide, by decide⟩
  have hagree : Agree [sparseFile] [sparseFile] := by
    have hsame : SameMember sparseFile sparseFile := ⟨rfl, rfl, rfl, rfl⟩
    simp [Agree, hsame]
  have hkept : ∀ m ∈ [sparseFile], Kept m := by
    intro m hm
    obtain rfl := List.mem_singleton.mp hm
    exact .inl rfl
  have herased := erased_of_normalizes blockModules_faithful hsdist hsdist hagree hkept
    (hall _ _ _ _ hsdist hsdist hagree)
  have hdata : sparseFile.data = [] := (herased.2.1 sparseFile (List.mem_singleton_self _)).1 rfl
  cases hdata

end McpVenusOs.Release
