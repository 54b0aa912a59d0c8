import LinuxSamples.Directory.Tree
import Mathlib.Data.List.Infix
import Mathlib.Data.List.Nodup

set_option autoImplicit false

/-! # The directory lister

`sample_traverse_directory.cpp` lists the regular files of a directory (`GetListFiles`), its
directories (`GetListFolders`), or the files of both levels (`GetListFilesR`). The last one opens each
directory it has found by its bare name, which leads to the directory of that name in the working
directory; it passes the filter for files on to `GetListFolders`; and it does not go below the second
level. So it finds all files only where none of the three matters. -/

namespace LinuxSamples.Directory

open LinuxSamples.Memory

/-! ## The program -/

/-- `exten.compare("*") == 0`, or `name.find(exten) != npos`. -/
def Passes (exten name : Text) : Prop := exten = [42] ∨ exten <:+: name

instance (exten name : Text) : Decidable (Passes exten name) := inferInstanceAs (Decidable (_ ∨ _))

/-- The loop that `GetListFiles` and `GetListFolders` share: the names of the entries of one kind
    that pass the filter. -/
def scan (kind : Entry → Prop) [DecidablePred kind] (fs : FileSystem) (k : Nat)
    (path exten : Text) : List Text :=
  match fs.opendir path with
  | none => []
  | some d => ((fs.readdir k d).filter fun e => kind e ∧ Passes exten e.d_name).map Entry.d_name

/-- `GetListFiles(path, exten)`; `k` numbers the calls of `opendir`. -/
def getListFiles (fs : FileSystem) (k : Nat) (path exten : Text) : List Text :=
  scan (fun e => e.d_type = .reg) fs k path exten

/-- `GetListFolders(path, exten)`. -/
def getListFolders (fs : FileSystem) (k : Nat) (path exten : Text) : List Text :=
  scan (fun e => e.d_type = .dir ∧ e.d_name ≠ [dot] ∧ e.d_name ≠ [dot, dot]) fs k path exten

/-- The loop of `GetListFilesR` over `dirs`. -/
def listEach (fs : FileSystem) (exten : Text) : Nat → List Text → List Text
  | _, [] => []
  | k, it :: dirs =>
      (getListFiles fs k it exten).map (fun file => it ++ slash :: file)
        ++ listEach fs exten (k + 1) dirs

/-- `GetListFilesR(path, exten)`. -/
def getListFilesR (fs : FileSystem) (path exten : Text) : List Text :=
  getListFiles fs 0 path exten ++ listEach fs exten 2 (getListFolders fs 1 path exten)

/-! ## The files below a directory -/

/-- The names of the files directly in `d` that pass the filter. -/
def filesIn (exten : Text) (d : Dir) : List Text :=
  (d.files.map Name.bytes).filter fun x => Passes exten x

/-- The paths, relative to `d`, of the files at any depth whose names pass the filter. -/
def filesBelow (exten : Text) : Dir → List Text
  | .nil => []
  | .file n rest => (if Passes exten n.bytes then [n.bytes] else []) ++ filesBelow exten rest
  | .other _ rest => filesBelow exten rest
  | .folder n sub rest =>
      (filesBelow exten sub).map (fun q => n.bytes ++ slash :: q) ++ filesBelow exten rest

section Below

variable {exten q : Text} {d sub : Dir} {n : Name}

theorem mem_filesIn : q ∈ filesIn exten d ↔ ∃ n ∈ d.files, n.bytes = q ∧ Passes exten q := by
  simp only [filesIn, List.mem_filter, List.mem_map, decide_eq_true_eq]
  constructor
  · rintro ⟨⟨n, hn, rfl⟩, hpass⟩
    exact ⟨n, hn, rfl, hpass⟩
  · rintro ⟨n, hn, rfl, hpass⟩
    exact ⟨⟨n, hn, rfl⟩, hpass⟩

theorem filesIn_noSlash (h : q ∈ filesIn exten d) : slash ∉ q := by
  obtain ⟨n, _, rfl, _⟩ := mem_filesIn.1 h
  exact n.noSlash

/-- A file below `d` is in `d`, or below a directory in `d`. -/
theorem mem_filesBelow : q ∈ filesBelow exten d ↔ q ∈ filesIn exten d ∨
    ∃ f ∈ d.folders, ∃ r ∈ filesBelow exten f.2, q = f.1.bytes ++ slash :: r := by
  induction d with
  | nil => simp [filesBelow, filesIn, Dir.files, Dir.folders]
  | file n rest ih =>
      rw [filesBelow, List.mem_append, ih, ← or_assoc]
      refine or_congr_left ?_
      rw [mem_filesIn, mem_filesIn, Dir.files, List.exists_mem_cons_iff]
      refine or_congr_left ?_
      split
      · next hpass =>
          rw [List.mem_singleton]
          exact ⟨fun h => ⟨h.symm, h ▸ hpass⟩, fun h => h.1.symm⟩
      · next hpass => simpa using fun h : n.bytes = q => h ▸ hpass
  | other n rest ih => exact ih
  | folder n sub rest _ ih =>
      rw [filesBelow, List.mem_append, ih, Dir.folders, List.exists_mem_cons_iff, or_left_comm]
      refine or_congr_right (or_congr_left ?_)
      simp [eq_comm]

/-- The name of a directory and what follows can be read off a path. -/
theorem slash_inj {x y q r : Text} (hx : slash ∉ x) (hy : slash ∉ y) :
    x ++ slash :: q = y ++ slash :: r ↔ x = y ∧ q = r := by
  induction x generalizing y with
  | nil =>
      cases y with
      | nil => simp
      | cons b y =>
          have hb : slash ≠ b := (List.ne_and_not_mem_of_not_mem_cons hy).1
          simp [hb]
  | cons a x ih =>
      obtain ⟨ha, hx⟩ := List.ne_and_not_mem_of_not_mem_cons hx
      cases y with
      | nil => simp [ha.symm]
      | cons b y =>
          obtain ⟨_, hy⟩ := List.ne_and_not_mem_of_not_mem_cons hy
          rw [List.cons_append, List.cons_append, List.cons.injEq, ih hx hy, List.cons.injEq,
            and_assoc]

end Below

/-! ## What the lister finds -/

section Listing

variable {fs : FileSystem} {path exten x : Text} {d : Dir} {k : Nat}

theorem mem_scan {kind : Entry → Prop} [DecidablePred kind] (hopen : fs.opendir path = some d) :
    x ∈ scan kind fs k path exten ↔
      Passes exten x ∧ ∃ t, kind ⟨x, t⟩ ∧ ⟨x, t⟩ ∈ fs.readdir k d := by
  rw [scan, hopen]
  simp only [List.mem_map, List.mem_filter, decide_eq_true_eq]
  constructor
  · rintro ⟨e, ⟨he, hkind, hpass⟩, rfl⟩
    exact ⟨hpass, e.d_type, hkind, he⟩
  · rintro ⟨hpass, t, hkind, he⟩
    exact ⟨⟨x, t⟩, ⟨he, hkind, hpass⟩, rfl⟩

theorem scan_nodup {kind : Entry → Prop} [DecidablePred kind] :
    (scan kind fs k path exten).Nodup := by
  unfold scan
  split
  · exact List.nodup_nil
  · next d hopen =>
      exact (readdir_nodup (opendir_distinct hopen) k).sublist (List.filter_sublist.map _)

/-- The names `GetListFiles` returns for a path. -/
def filesAt (fs : FileSystem) (path exten : Text) : List Text :=
  (fs.opendir path).elim [] (filesIn exten)

theorem mem_getListFiles : x ∈ getListFiles fs k path exten ↔ x ∈ filesAt fs path exten := by
  rw [filesAt]
  cases hopen : fs.opendir path with
  | none => simp [getListFiles, scan, hopen]
  | some d =>
      rw [getListFiles, mem_scan hopen, Option.elim_some, mem_filesIn]
      simp only [mem_readdir]
      constructor
      · rintro ⟨hpass, t, rfl, hmem⟩
        have hentry : ⟨x, .reg⟩ ∈ d.entries := by simpa using hmem
        obtain ⟨n, hn, rfl⟩ := mem_entries_reg.1 hentry
        exact ⟨n, hn, rfl, hpass⟩
      · rintro ⟨n, hn, rfl, hpass⟩
        exact ⟨hpass, .reg, rfl, Or.inr (Or.inr (mem_entries_reg.2 ⟨n, hn, rfl⟩))⟩

theorem mem_getListFolders (hopen : fs.opendir path = some d) :
    x ∈ getListFolders fs k path exten ↔
      ∃ f ∈ d.folders, f.1.bytes = x ∧ Passes exten f.1.bytes := by
  rw [getListFolders, mem_scan hopen]
  simp only [mem_readdir]
  constructor
  · rintro ⟨hpass, t, ⟨rfl, hdot, hdots⟩, hmem⟩
    have hentry : ⟨x, .dir⟩ ∈ d.entries := by simpa [hdot, hdots] using hmem
    obtain ⟨f, hf, rfl⟩ := mem_entries_dir.1 hentry
    exact ⟨f, hf, rfl, hpass⟩
  · rintro ⟨f, hf, rfl, hpass⟩
    exact ⟨hpass, .dir, ⟨rfl, f.1.notDot, f.1.notDotDot⟩,
      Or.inr (Or.inr (mem_entries_dir.2 ⟨f, hf, rfl⟩))⟩

theorem mem_listEach {dirs : List Text} : x ∈ listEach fs exten k dirs ↔
    ∃ it ∈ dirs, ∃ q ∈ filesAt fs it exten, x = it ++ slash :: q := by
  induction dirs generalizing k with
  | nil => simp [listEach]
  | cons it dirs ih =>
      rw [listEach, List.mem_append, ih, List.exists_mem_cons_iff]
      refine or_congr_left ?_
      simp [mem_getListFiles, eq_comm]

theorem listEach_nodup {dirs : List Text} (hnodup : dirs.Nodup) (hslash : ∀ it ∈ dirs, slash ∉ it) :
    (listEach fs exten k dirs).Nodup := by
  induction dirs generalizing k with
  | nil => exact List.nodup_nil
  | cons it dirs ih =>
      obtain ⟨hit, hnodup⟩ := List.nodup_cons.1 hnodup
      obtain ⟨hitslash, hslash⟩ := List.forall_mem_cons.1 hslash
      refine List.Nodup.append ?_ (ih hnodup hslash) ?_
      · exact List.Nodup.map (fun q r h => ((slash_inj hitslash hitslash).1 h).2) scan_nodup
      · -- what is listed for `it` starts with `it` and a slash
        intro x hx hx'
        obtain ⟨q, _, rfl⟩ := List.mem_map.1 hx
        obtain ⟨it', hit', r, _, heq⟩ := mem_listEach.1 hx'
        exact hit (((slash_inj hitslash (hslash it' hit')).1 heq).1 ▸ hit')

/-- Nothing is listed twice. -/
theorem getListFilesR_nodup (hopen : fs.opendir path = some d) :
    (getListFilesR fs path exten).Nodup := by
  have hslash : ∀ it ∈ getListFolders fs 1 path exten, slash ∉ it := by
    intro it hit
    obtain ⟨f, _, rfl, _⟩ := (mem_getListFolders hopen).1 hit
    exact f.1.noSlash
  refine List.Nodup.append scan_nodup (listEach_nodup scan_nodup hslash) ?_
  intro x hx hx'
  obtain ⟨it, _, q, _, rfl⟩ := mem_listEach.1 hx'
  have hfile := mem_getListFiles.1 hx
  rw [filesAt, hopen, Option.elim_some] at hfile
  exact filesIn_noSlash hfile (List.mem_append_right _ (List.mem_cons_self ..))

theorem mem_getListFilesR (hopen : fs.opendir path = some d) :
    x ∈ getListFilesR fs path exten ↔ x ∈ filesIn exten d ∨
      ∃ f ∈ d.folders, Passes exten f.1.bytes ∧
        ∃ q ∈ filesAt fs f.1.bytes exten, x = f.1.bytes ++ slash :: q := by
  rw [getListFilesR, List.mem_append, mem_getListFiles, mem_listEach]
  simp only [filesAt, hopen, Option.elim_some, mem_getListFolders hopen]
  refine or_congr_right ⟨?_, ?_⟩
  · rintro ⟨_, ⟨f, hf, rfl, hpass⟩, q, hq, rfl⟩
    exact ⟨f, hf, hpass, q, hq, rfl⟩
  · rintro ⟨f, hf, hpass, q, hq, rfl⟩
    exact ⟨_, ⟨f, hf, rfl, hpass⟩, q, hq, rfl⟩

/-! ## When the list is complete -/

/-- `GetListFilesR(path, exten)` returns the paths of all files below the directory `d` whose names
    pass the filter, each once. -/
structure ListsAll (fs : FileSystem) (path exten : Text) (d : Dir) : Prop where
  once : (getListFilesR fs path exten).Nodup
  all : ∀ x, x ∈ getListFilesR fs path exten ↔ x ∈ filesBelow exten d

/-- For every directory directly in `d`: if its name passes the filter, its files lie directly in it
    and are those of the directory of that name in the working directory; if not, it has none. -/
def Flat (fs : FileSystem) (exten : Text) (d : Dir) : Prop :=
  ∀ f ∈ d.folders,
    if Passes exten f.1.bytes then
      (∀ g ∈ f.2.folders, filesBelow exten g.2 = []) ∧
        ∀ q, q ∈ (fs.cwd.here.find f.1.bytes).elim [] (filesIn exten) ↔ q ∈ filesIn exten f.2
    else filesBelow exten f.2 = []

theorem filesAt_name (n : Name) :
    filesAt fs n.bytes exten = (fs.cwd.here.find n.bytes).elim [] (filesIn exten) := by
  rw [filesAt, opendir_name]

/-- The list is complete exactly when it is so for each directory by itself. -/
theorem listsAll_iff_each (hopen : fs.opendir path = some d) : ListsAll fs path exten d ↔
    ∀ f ∈ d.folders, ∀ q, (Passes exten f.1.bytes ∧ q ∈ filesAt fs f.1.bytes exten) ↔
      q ∈ filesBelow exten f.2 := by
  have hdistinct := opendir_distinct hopen
  constructor
  · intro h f hf q
    -- both sides say that `f.1/q` is listed, since no other directory has the name
    have hx := h.all (f.1.bytes ++ slash :: q)
    have hnot : f.1.bytes ++ slash :: q ∉ filesIn exten d := fun hin =>
      filesIn_noSlash hin (List.mem_append_right _ (List.mem_cons_self ..))
    rw [mem_getListFilesR hopen, mem_filesBelow, or_iff_right hnot, or_iff_right hnot] at hx
    constructor
    · rintro ⟨hpass, hq⟩
      obtain ⟨g, hg, r, hr, heq⟩ := hx.1 ⟨f, hf, hpass, q, hq, rfl⟩
      obtain ⟨hname, rfl⟩ := (slash_inj f.1.noSlash g.1.noSlash).1 heq
      rwa [hdistinct.folders_unique hf hg hname]
    · intro hq
      obtain ⟨g, hg, hpass, r, hr, heq⟩ := hx.2 ⟨f, hf, q, hq, rfl⟩
      obtain ⟨hname, rfl⟩ := (slash_inj f.1.noSlash g.1.noSlash).1 heq
      rw [hname]
      exact ⟨hpass, hr⟩
  · intro h
    refine ⟨getListFilesR_nodup hopen, fun x => ?_⟩
    rw [mem_getListFilesR hopen, mem_filesBelow]
    refine or_congr_right ⟨?_, ?_⟩
    · rintro ⟨f, hf, hpass, q, hq, rfl⟩
      exact ⟨f, hf, q, (h f hf q).1 ⟨hpass, hq⟩, rfl⟩
    · rintro ⟨f, hf, q, hq, rfl⟩
      obtain ⟨hpass, hq⟩ := (h f hf q).2 hq
      exact ⟨f, hf, hpass, q, hq, rfl⟩

/-- The files below a directory are those in it exactly when there are none deeper. -/
theorem filesBelow_eq_filesIn {l : List Text} (hl : ∀ q ∈ l, slash ∉ q) :
    (∀ q, q ∈ l ↔ q ∈ filesBelow exten d) ↔
      (∀ g ∈ d.folders, filesBelow exten g.2 = []) ∧ ∀ q, q ∈ l ↔ q ∈ filesIn exten d := by
  constructor
  · intro h
    have hdeep : ∀ g ∈ d.folders, filesBelow exten g.2 = [] := by
      intro g hg
      refine List.eq_nil_iff_forall_not_mem.2 fun r hr => ?_
      have hmem := (h (g.1.bytes ++ slash :: r)).2 (mem_filesBelow.2 (Or.inr ⟨g, hg, r, hr, rfl⟩))
      exact hl _ hmem (List.mem_append_right _ (List.mem_cons_self ..))
    refine ⟨hdeep, fun q => (h q).trans (mem_filesBelow.trans (or_iff_left ?_))⟩
    rintro ⟨g, hg, r, hr, _⟩
    rw [hdeep g hg] at hr
    cases hr
  · rintro ⟨hdeep, h⟩ q
    refine (h q).trans (mem_filesBelow.trans (or_iff_left ?_)).symm
    rintro ⟨g, hg, r, hr, _⟩
    rw [hdeep g hg] at hr
    cases hr

/-- **`GetListFilesR` lists all files exactly for flat directories.** -/
theorem listsAll_iff_flat (fs : FileSystem) {path : Text} {d : Dir}
    (hopen : fs.opendir path = some d) (exten : Text) :
    ListsAll fs path exten d ↔ Flat fs exten d := by
  rw [listsAll_iff_each hopen]
  refine forall₂_congr fun f _ => ?_
  rw [filesAt_name]
  by_cases hpass : Passes exten f.1.bytes
  · rw [if_pos hpass, ← filesBelow_eq_filesIn]
    · simp only [hpass, true_and]
    · intro q hq
      cases hfind : fs.cwd.here.find f.1.bytes with
      | none =>
          rw [hfind] at hq
          cases hq
      | some sub =>
          rw [hfind] at hq
          exact filesIn_noSlash hq
  · rw [if_neg hpass, List.eq_nil_iff_forall_not_mem]
    simp only [hpass, false_and, false_iff]

end Listing

/-- The name of the single letter `b`. -/
def letter (b : UInt8) (h : b ≠ slash ∧ b ≠ 0 ∧ b ≠ dot) : Name :=
  ⟨[b], by simp, by simpa using h.1.symm, by simpa using h.2.1.symm, by simpa using h.2.2, by simp⟩

/-- A tree whose root is the working directory, read in the order in which it is written. -/
def fromRoot (root : Dir) (h : root.Distinct) : FileSystem :=
  ⟨root, ⟨root, []⟩, fun _ entries => entries, h, ⟨[], rfl⟩, fun _ _ => List.Perm.refl _⟩

/-- The root holds the directory `s` with the file `a`. -/
def shallow : FileSystem :=
  fromRoot (.folder (letter 115 (by decide)) (.file (letter 97 (by decide)) .nil) .nil)
    ⟨by simp [Dir.entries], ⟨by simp [Dir.entries], trivial⟩, trivial⟩

/-- `GetListFilesR(".")` returns `s/a`. -/
theorem listsAll_iff_flat_here : ListsAll shallow [dot] [42] shallow.root ∧
    getListFilesR shallow [dot] [42] = [[115, 47, 97]] := by
  refine ⟨(listsAll_iff_flat shallow rfl [42]).2 ?_, by decide +kernel⟩
  intro f hf
  have hpass : Passes [42] f.1.bytes := Or.inl rfl
  rw [if_pos hpass]
  obtain rfl := List.mem_singleton.1 hf
  exact ⟨fun g hg => (List.not_mem_nil hg).elim, fun q => Iff.rfl⟩

/-- The root holds `d/s/a` and `s/b`. -/
def twoNamesakes : FileSystem :=
  fromRoot (.folder (letter 100 (by decide))
      (.folder (letter 115 (by decide)) (.file (letter 97 (by decide)) .nil) .nil)
      (.folder (letter 115 (by decide)) (.file (letter 98 (by decide)) .nil) .nil))
    ⟨by simp [Dir.entries, letter],
      ⟨by simp [Dir.entries], ⟨by simp [Dir.entries], trivial⟩, trivial⟩,
      by simp [Dir.entries], ⟨by simp [Dir.entries], trivial⟩, trivial⟩

/-- The three ways to lose files: `GetListFilesR("d")` lists the file of another directory `s`; the
    filter `a` hides the directory `s` and with it `s/a`; and from the root, `d/s/a` is too deep. -/
theorem listsAll_fails :
    (∃ d, twoNamesakes.opendir [100] = some d ∧ filesBelow [42] d = [[115, 47, 97]] ∧
      getListFilesR twoNamesakes [100] [42] = [[115, 47, 98]] ∧
      ¬ ListsAll twoNamesakes [100] [42] d) ∧
    (∃ d, shallow.opendir [dot] = some d ∧ filesBelow [97] d = [[115, 47, 97]] ∧
      getListFilesR shallow [dot] [97] = [] ∧ ¬ ListsAll shallow [dot] [97] d) ∧
    (∃ d, twoNamesakes.opendir [slash] = some d ∧ [100, 47, 115, 47, 97] ∈ filesBelow [42] d ∧
      getListFilesR twoNamesakes [slash] [42] = [[115, 47, 98]] ∧
      ¬ ListsAll twoNamesakes [slash] [42] d) := by
  have hmiss : ∀ {fs : FileSystem} {path exten x : Text} {d : Dir}, x ∈ filesBelow exten d →
      x ∉ getListFilesR fs path exten → ¬ ListsAll fs path exten d :=
    fun hbelow hlist h => hlist ((h.all _).2 hbelow)
  refine ⟨⟨_, rfl, by decide +kernel, by decide +kernel, ?_⟩,
    ⟨_, rfl, by decide +kernel, by decide +kernel, ?_⟩,
    ⟨_, rfl, by decide +kernel, by decide +kernel, ?_⟩⟩
  · exact hmiss (x := [115, 47, 97]) (by decide +kernel) (by decide +kernel)
  · exact hmiss (x := [115, 47, 97]) (by decide +kernel) (by decide +kernel)
  · exact hmiss (x := [100, 47, 115, 47, 97]) (by decide +kernel) (by decide +kernel)

end LinuxSamples.Directory
