import LinuxSamples.Memory.CString

set_option autoImplicit false

/-! # Directory trees

A file system as a program sees it that only lists directories: a finite tree, a working directory
in it, `opendir` and `readdir`. A path is resolved component by component, from the root when it starts
with a slash and from the working directory otherwise. `readdir` yields the entries of a directory,
`.` and `..` among them, in an order that may differ from call to call. -/

namespace LinuxSamples.Directory

open LinuxSamples.Memory

abbrev Text : Type := List UInt8

def slash : UInt8 := 47

def dot : UInt8 := 46

/-- The name of a directory entry other than `.` and `..`. -/
structure Name where
  bytes : Text
  nonempty : bytes ≠ []
  noSlash : slash ∉ bytes
  noNul : 0 ∉ bytes
  notDot : bytes ≠ [dot]
  notDotDot : bytes ≠ [dot, dot]
  deriving DecidableEq

/-- A directory: regular files, directories, and what is neither. -/
inductive Dir
  | nil
  | file (name : Name) (rest : Dir)
  | other (name : Name) (rest : Dir)
  | folder (name : Name) (sub rest : Dir)

/-- `d_type`: `DT_REG`, `DT_DIR` or another value. -/
inductive DType
  | reg
  | dir
  | other
  deriving DecidableEq, Repr

/-- `struct dirent`. -/
structure Entry where
  d_name : Text
  d_type : DType
  deriving DecidableEq, Repr

namespace Dir

/-- The entries but `.` and `..`. -/
def entries : Dir → List Entry
  | nil => []
  | file n rest => ⟨n.bytes, .reg⟩ :: rest.entries
  | other n rest => ⟨n.bytes, .other⟩ :: rest.entries
  | folder n _ rest => ⟨n.bytes, .dir⟩ :: rest.entries

/-- The names of the regular files. -/
def files : Dir → List Name
  | nil => []
  | file n rest => n :: rest.files
  | other _ rest => rest.files
  | folder _ _ rest => rest.files

/-- The directories with their names. -/
def folders : Dir → List (Name × Dir)
  | nil => []
  | file _ rest => rest.folders
  | other _ rest => rest.folders
  | folder n sub rest => (n, sub) :: rest.folders

/-- The directory with the given name. -/
def find (c : Text) : Dir → Option Dir
  | nil => none
  | file _ rest => rest.find c
  | other _ rest => rest.find c
  | folder n sub rest => if n.bytes = c then some sub else rest.find c

/-- No two entries of a directory have the same name, at any depth. -/
def Distinct : Dir → Prop
  | nil => True
  | file n rest => n.bytes ∉ rest.entries.map Entry.d_name ∧ rest.Distinct
  | other n rest => n.bytes ∉ rest.entries.map Entry.d_name ∧ rest.Distinct
  | folder n sub rest =>
      n.bytes ∉ rest.entries.map Entry.d_name ∧ sub.Distinct ∧ rest.Distinct

end Dir

/-- A directory with the directories above it, the nearest first. -/
structure Place where
  here : Dir
  above : List Dir

/-- One component of a path. -/
def Place.enter (p : Place) (c : Text) : Option Place :=
  if c = [] ∨ c = [dot] then some p
  else if c = [dot, dot] then
    match p.above with
    | [] => some p
    | d :: rest => some ⟨d, rest⟩
  else (p.here.find c).map fun sub => ⟨sub, p.here :: p.above⟩

/-- `order k` is the order in which the entries come when a directory is read for the `k`th time. -/
structure FileSystem where
  root : Dir
  cwd : Place
  order : Nat → List Entry → List Entry
  distinct : root.Distinct
  inside : ∃ components : List Text, components.foldlM Place.enter ⟨root, []⟩ = some cwd
  complete : ∀ k entries, (order k entries).Perm entries

variable (fs : FileSystem)

/-- `opendir(path)`: the directory, if there is one. -/
def FileSystem.opendir (path : Text) : Option Dir :=
  let path := cstring path
  if path = [] then none
  else
    let start := if path.head? = some slash then ⟨fs.root, []⟩ else fs.cwd
    ((path.splitOn slash).foldlM Place.enter start).map Place.here

/-- What `readdir` yields until it returns a null pointer. -/
def FileSystem.readdir (k : Nat) (d : Dir) : List Entry :=
  fs.order k (⟨[dot], .dir⟩ :: ⟨[dot, dot], .dir⟩ :: d.entries)

/-! ## Entries -/

section Entries

variable {fs} {d sub : Dir} {n : Name} {x : Text}

theorem mem_entries_reg : ⟨x, .reg⟩ ∈ d.entries ↔ ∃ n ∈ d.files, n.bytes = x := by
  induction d with
  | nil => simp [Dir.entries, Dir.files]
  | file n rest ih => simp [Dir.entries, Dir.files, ih, eq_comm]
  | other n rest ih => simp [Dir.entries, Dir.files, ih]
  | folder n sub rest _ ih => simp [Dir.entries, Dir.files, ih]

theorem mem_entries_dir : ⟨x, .dir⟩ ∈ d.entries ↔ ∃ f ∈ d.folders, f.1.bytes = x := by
  induction d with
  | nil => simp [Dir.entries, Dir.folders]
  | file n rest ih => simp [Dir.entries, Dir.folders, ih]
  | other n rest ih => simp [Dir.entries, Dir.folders, ih]
  | folder n sub rest _ ih => simp [Dir.entries, Dir.folders, ih, eq_comm]

theorem entries_names {e : Entry} (he : e ∈ d.entries) : ∃ n : Name, e.d_name = n.bytes := by
  induction d with
  | nil => cases he
  | file n rest ih | other n rest ih | folder n _ rest _ ih =>
      rcases List.mem_cons.1 he with rfl | he
      · exact ⟨n, rfl⟩
      · exact ih he

theorem Dir.Distinct.entries_nodup (h : d.Distinct) : (d.entries.map Entry.d_name).Nodup := by
  induction d with
  | nil => exact List.nodup_nil
  | file n rest ih | other n rest ih => exact List.nodup_cons.2 ⟨h.1, ih h.2⟩
  | folder n sub rest _ ih => exact List.nodup_cons.2 ⟨h.1, ih h.2.2⟩

theorem Dir.Distinct.find (h : d.Distinct) (hsub : d.find x = some sub) : sub.Distinct := by
  induction d with
  | nil => cases hsub
  | file n rest ih | other n rest ih => exact ih h.2 hsub
  | folder n inner rest _ ih =>
      rw [Dir.find] at hsub
      split at hsub
      · cases hsub
        exact h.2.1
      · exact ih h.2.2 hsub

/-- A directory is determined by its name. -/
theorem Dir.Distinct.folders_unique {f g : Name × Dir} (h : d.Distinct) (hf : f ∈ d.folders)
    (hg : g ∈ d.folders) (hname : f.1.bytes = g.1.bytes) : f = g := by
  induction d with
  | nil => cases hf
  | file m rest ih | other m rest ih => exact ih h.2 hf hg
  | folder m inner rest _ ih =>
      have hnew : ∀ f' ∈ rest.folders, m.bytes ≠ f'.1.bytes := fun f' hf' heq =>
        h.1 (List.mem_map.2 ⟨⟨m.bytes, .dir⟩, mem_entries_dir.2 ⟨f', hf', heq.symm⟩, rfl⟩)
      rcases List.mem_cons.1 hf with rfl | hf <;> rcases List.mem_cons.1 hg with rfl | hg
      · rfl
      · exact absurd hname (hnew g hg)
      · exact absurd hname.symm (hnew f hf)
      · exact ih h.2.2 hf hg

/-- What `readdir` yields has every name once. -/
theorem readdir_nodup (h : d.Distinct) (k : Nat) :
    ((fs.readdir k d).map Entry.d_name).Nodup := by
  have hperm := (fs.complete k (⟨[dot], .dir⟩ :: ⟨[dot, dot], .dir⟩ :: d.entries)).map Entry.d_name
  refine hperm.nodup_iff.2 ?_
  have hproper : ∀ e ∈ d.entries, e.d_name ≠ [dot] ∧ e.d_name ≠ [dot, dot] := by
    intro e he
    obtain ⟨n, hn⟩ := entries_names he
    rw [hn]
    exact ⟨n.notDot, n.notDotDot⟩
  simp only [List.map_cons, List.nodup_cons, List.mem_cons, List.mem_map, not_or]
  refine ⟨⟨by decide, ?_⟩, ?_, h.entries_nodup⟩
  · rintro ⟨e, he, heq⟩
    exact (hproper e he).1 heq
  · rintro ⟨e, he, heq⟩
    exact (hproper e he).2 heq

theorem mem_readdir {e : Entry} (k : Nat) : e ∈ fs.readdir k d ↔
    e = ⟨[dot], .dir⟩ ∨ e = ⟨[dot, dot], .dir⟩ ∨ e ∈ d.entries := by
  rw [FileSystem.readdir, (fs.complete k _).mem_iff, List.mem_cons, List.mem_cons]

end Entries

/-! ## Resolution -/

section Resolution

variable {fs} {p p' : Place} {d : Dir}

/-- Every directory on the way has distinct names. -/
structure Place.Distinct (p : Place) : Prop where
  here : p.here.Distinct
  above : ∀ d ∈ p.above, d.Distinct

theorem Place.Distinct.enter {c : Text} (h : p.Distinct) (hp : p.enter c = some p') :
    p'.Distinct := by
  unfold Place.enter at hp
  split at hp
  · cases hp
    exact h
  · split at hp
    · split at hp
      · cases hp
        exact h
      · next d rest habove =>
          cases hp
          have hall := h.above
          rw [habove] at hall
          exact ⟨hall d (List.mem_cons_self ..), fun e he => hall e (List.mem_cons_of_mem _ he)⟩
    · obtain ⟨sub, hsub, rfl⟩ := Option.map_eq_some_iff.1 hp
      exact ⟨h.here.find hsub, List.forall_mem_cons.2 ⟨h.here, h.above⟩⟩

theorem Place.Distinct.walk {components : List Text} (h : p.Distinct)
    (hp : components.foldlM Place.enter p = some p') : p'.Distinct := by
  induction components generalizing p with
  | nil =>
      cases hp
      exact h
  | cons c rest ih =>
      rw [List.foldlM_cons, Option.bind_eq_bind, Option.bind_eq_some_iff] at hp
      obtain ⟨p₁, hc, hrest⟩ := hp
      exact ih (h.enter hc) hrest

theorem FileSystem.root_distinct (fs : FileSystem) : Place.Distinct ⟨fs.root, []⟩ :=
  ⟨fs.distinct, fun _ hd => by cases hd⟩

theorem FileSystem.cwd_distinct (fs : FileSystem) : fs.cwd.Distinct := by
  obtain ⟨components, hcwd⟩ := fs.inside
  exact fs.root_distinct.walk hcwd

theorem opendir_distinct {path : Text} (h : fs.opendir path = some d) : d.Distinct := by
  unfold FileSystem.opendir at h
  simp only [Option.ite_none_left_eq_some, Option.map_eq_some_iff] at h
  obtain ⟨_, p, hp, rfl⟩ := h
  have hstart : Place.Distinct
      (if (cstring path).head? = some slash then ⟨fs.root, []⟩ else fs.cwd) := by
    split
    · exact fs.root_distinct
    · exact fs.cwd_distinct
  exact (hstart.walk hp).here

/-- **A bare name** is looked up in the working directory, wherever it was found. -/
theorem opendir_name (fs : FileSystem) (n : Name) :
    fs.opendir n.bytes = fs.cwd.here.find n.bytes := by
  have hstart : n.bytes.head? ≠ some slash := fun h =>
    n.noSlash (List.mem_of_mem_head? h)
  have hproper : ¬ (n.bytes = [] ∨ n.bytes = [dot]) := by
    rintro (h | h)
    · exact n.nonempty h
    · exact n.notDot h
  rw [FileSystem.opendir, cstring_of_textual n.noNul, if_neg n.nonempty, if_neg hstart,
    List.splitOn_eq_singleton n.noSlash]
  simp [Place.enter, hproper, n.notDotDot, Function.comp_def]

end Resolution

end LinuxSamples.Directory
