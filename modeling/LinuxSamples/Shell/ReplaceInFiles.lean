import LinuxSamples.Shell.LineSelection
import LinuxSamples.Text.Replace
import Mathlib.Data.List.Nodup

set_option autoImplicit false

/-! # Replacing a string in the files of a directory

`replace_a_string_with_another_string_in_all_files.sh` writes the lines of a file to `tmp.txt`, those with
the string in them through `sed`, and moves `tmp.txt` over the file; then it goes on to the next file.

The directory and the names that `ls` lists are single words without wildcards. A file is the directory
entry that a path stands for, `entry path`, so that `./tmp.txt` and `tmp.txt` are one; there are no links
among them, and files can be read and written. What `sed` does is a parameter. -/

namespace LinuxSamples.ReplaceInFiles

open LinuxSamples.Text LinuxSamples.Glob LinuxSamples.LogScripts

/-! ## The script -/

/-- `tmp.txt`, in the working directory. -/
def tmp_file : Bytes := text "tmp.txt"

/-- `$1/${file_name}`. -/
def pathOf (directory name : Bytes) : Bytes := directory ++ text "/" ++ name

section Script

variable (entry : Bytes → Bytes)

/-- `mv ${tmp_file} ${path_file_name}`, with its status; it fails if there is no such file. -/
def mv (path : Bytes) (files : Files) : Nat × Files :=
  match files (entry tmp_file) with
  | some content =>
      (0, Function.update (Function.update files (entry path) (some content)) (entry tmp_file) none)
  | none => (1, files)

variable (locale : LocaleRules) (sed : Bytes → Bytes → Bytes → Bytes)

/-- The body of the loop over the lines of a file; `sed src dst` is `sed -e "s/src/dst/g"`. -/
def writeLine (src dst line : Bytes) (files : Files) : Files :=
  if differs (glob locale) src line then append files (entry tmp_file) (sed src dst (echo line))
  else append files (entry tmp_file) (echo line)

/-- The body of the loop over the names. A path that leads to `tmp.txt` is left out: the loop over the
    lines would read what it writes. -/
def visit (src dst path : Bytes) (r : Result) : Result :=
  match r.files (entry path) with
  | some content =>
      let moved := mv entry path (whileRead (writeLine entry locale sed src dst) content r.files)
      ⟨moved.1, r.stdout ++ echo (text "path_file_name: " ++ path), moved.2⟩
  | none => ⟨0, r.stdout, r.files⟩

/-- `replace_a_string_with_another_string_in_all_files.sh`, where `ls $1` lists `names`. -/
def replace_a_string (names : List Bytes) (self : Bytes) (args : List Bytes) (files : Files) :
    Result :=
  match args with
  | [directory, src, dst] =>
      names.foldl (fun r name => visit entry locale sed src dst (pathOf directory name) r)
        ⟨0, [], files⟩
  | _ =>
      ⟨1, echo (text "usage: " ++ self ++ text " directory_name src_string dst_string") ++
        echo (text "e.g: " ++ self ++ text " ./a abcd 1234"), files⟩

end Script

/-! ## One file -/

/-- What becomes of the content of a file. -/
def replaced (src dst content : Bytes) : Bytes :=
  (splitLines newline content).flatMap fun line => replaceAll src dst (echo line)

section Files

variable {entry : Bytes → Bytes} {locale : LocaleRules} {sed : Bytes → Bytes → Bytes → Bytes}
  {src dst : Bytes}

section Lines

variable (hne : src ≠ []) (hline : newline ∉ src)
include hne hline

theorem replaceAll_newline (line : Bytes) :
    replaceAll src dst (line ++ [newline]) = replaceAll src dst line ++ [newline] :=
  replaceAll_append_cons hne hline line []

/-- A line without the string is written as it is. -/
theorem replaceAll_echo {line : Bytes} (h : ¬ src <:+: line) :
    replaceAll src dst (echo line) = echo line := by
  unfold echo
  split
  · split
    · rfl
    · exact replaceAll_newline hne hline []
  · rw [replaceAll_newline hne hline, replaceAll_of_not_infix h]

/-- The lines are replaced one by one as the whole text would be. -/
theorem replaced_eq (content : Bytes) :
    replaced src dst content = replaceAll src dst ((splitLines newline content).flatMap echo) := by
  unfold replaced
  induction splitLines newline content with
  | nil => rfl
  | cons line lines ih =>
      rw [List.flatMap_cons, List.flatMap_cons, ih]
      have hecho : echo line = [] ∨ ∃ l, echo line = l ++ [newline] := by
        unfold echo
        split
        · split
          · exact Or.inl rfl
          · exact Or.inr ⟨[], rfl⟩
        · exact Or.inr ⟨line, rfl⟩
      rcases hecho with hecho | ⟨l, hecho⟩
      · rw [hecho]
        rfl
      · rw [hecho, replaceAll_newline hne hline, List.append_assoc, List.append_assoc]
        exact (replaceAll_append_cons hne hline l _).symm

end Lines

/-- `sed` replaces the string, as it does where neither of the two has a special character. -/
def Replaces (sed : Bytes → Bytes → Bytes → Bytes) (src dst : Bytes) : Prop :=
  ∀ input, sed src dst input = replaceAll src dst input

variable (hplain : isPlain src = true) (hne : src ≠ []) (hline : newline ∉ src)
  (hsed : Replaces sed src dst)
include hplain hne hline hsed

theorem writeLine_eq (line : Bytes) (files : Files) :
    writeLine entry locale sed src dst line files
      = append files (entry tmp_file) (replaceAll src dst (echo line)) := by
  unfold writeLine
  split
  · rw [hsed]
  · next h =>
      rw [differs_plain locale hplain hne] at h
      rw [replaceAll_echo hne hline h]

/-- The loop over the lines, which makes `tmp.txt` if there is a line. -/
theorem foldl_writeLine (lines : List Bytes) (files : Files) :
    lines.foldl (fun files line => writeLine entry locale sed src dst line files) files
      = if lines = [] then files
        else Function.update files (entry tmp_file) (some ((files (entry tmp_file)).getD []
          ++ lines.flatMap fun line => replaceAll src dst (echo line))) := by
  induction lines generalizing files with
  | nil => rfl
  | cons line lines ih =>
      rw [List.foldl_cons, ih, writeLine_eq hplain hne hline hsed, if_neg (List.cons_ne_nil _ _)]
      split
      · next hnil =>
          rw [hnil, List.flatMap_singleton]
          rfl
      · rw [append, Function.update_self, Function.update_idem, Option.getD_some,
          List.flatMap_cons, List.append_assoc]

/-- A file after its visit: what `tmp.txt` had stands in front of its lines. -/
def visited (tmp src dst file content : Bytes) (files : Files) : Files :=
  Function.update (Function.update files file
    (some ((files tmp).getD [] ++ replaced src dst content))) tmp none

/-- What the loop over the lines leaves to `mv`, which fails only if there are no lines at all. -/
theorem mv_whileRead {path content : Bytes} {files : Files}
    (hpath : files (entry path) = some content) (htext : 0 ∉ content)
    (hother : entry path ≠ entry tmp_file) :
    mv entry path (whileRead (writeLine entry locale sed src dst) content files)
      = (if content = [] ∧ files (entry tmp_file) = none then 1 else 0,
        visited (entry tmp_file) src dst (entry path) content files) := by
  have hloop : whileRead (writeLine entry locale sed src dst) content files
      = (splitLines newline content).foldl
        (fun files line => writeLine entry locale sed src dst line files) files :=
    whileRead_eq _ _ content files (Nat.lt_succ_self _) htext
  rw [hloop, foldl_writeLine hplain hne hline hsed, visited]
  split
  · next hnil =>
      obtain rfl := splitLines_eq_nil hnil
      have hreplaced : replaced src dst [] = [] := rfl
      rw [hreplaced, List.append_nil]
      cases htmp : files (entry tmp_file) with
      | none =>
          rw [mv, htmp, if_pos ⟨rfl, rfl⟩, Option.getD_none, ← hpath, Function.update_eq_self,
            ← htmp, Function.update_eq_self, htmp]
      | some old =>
          rw [mv, htmp, if_neg fun h => by cases h.2]
          rfl
  · next hlines =>
      have hcontent : content ≠ [] := fun hnil => hlines (by rw [hnil]; rfl)
      rw [mv, Function.update_self, if_neg fun h => hcontent h.1]
      simp only [Function.update_comm hother, Function.update_idem]
      rfl

end Files

/-! ## All files -/

section Directory

variable {tmp src dst : Bytes}

/-- The first of the listed files that is there. -/
def first (files : Files) (listed : List Bytes) : Option Bytes :=
  listed.find? fun file => (files file).isSome

/-- What is printed about the files that are there. -/
def announced (entry : Bytes → Bytes) (files : Files) (paths : List Bytes) : Bytes :=
  (paths.filter fun path => (files (entry path)).isSome).flatMap fun path =>
    echo (text "path_file_name: " ++ path)

/-- The status is 1 where the last file listed is empty, so that its `mv` finds no `tmp.txt`; but the
    first file finds one that was there before. -/
def lastStatus (tmp : Bytes) (files : Files) (listed : List Bytes) (status : Nat) : Nat :=
  match listed.getLast? with
  | some file =>
      if files file = some [] ∧ (first files listed = some file → files tmp = none) then 1 else 0
  | none => status

/-- All files are replaced, and what was in `tmp.txt` before goes to the front of the first one. -/
def replacedFiles (tmp src dst : Bytes) (files : Files) (listed : List Bytes) : Files := fun file =>
  if file = tmp then if (first files listed).isSome then none else files tmp
  else if file ∈ listed then
    (files file).map fun content =>
      (if first files listed = some file then (files tmp).getD [] else []) ++ replaced src dst content
  else files file

section Missing

variable {file : Bytes} {listed : List Bytes} {files : Files} (hfile : files file = none)
include hfile

theorem first_missing : first files (file :: listed) = first files listed := by
  rw [first, List.find?_cons, hfile]
  rfl

theorem lastStatus_missing (status : Nat) :
    lastStatus tmp files (file :: listed) status = lastStatus tmp files listed 0 := by
  unfold lastStatus
  rw [List.getLast?_cons, first_missing hfile]
  cases listed.getLast? with
  | none => simp [hfile]
  | some last => rfl

theorem replacedFiles_missing :
    replacedFiles tmp src dst files (file :: listed) = replacedFiles tmp src dst files listed := by
  funext other
  unfold replacedFiles
  rw [first_missing hfile]
  by_cases hother : other = file
  · subst hother
    simp [hfile]
  · simp [hother]

omit hfile in
theorem announced_missing {entry : Bytes → Bytes} {path : Bytes} {paths : List Bytes}
    (hpath : files (entry path) = none) :
    announced entry files (path :: paths) = announced entry files paths := by
  rw [announced, List.filter_cons_of_neg (by rw [hpath]; exact Bool.false_ne_true), announced]

end Missing

section Present

variable {file content : Bytes} {listed : List Bytes} {files : Files}

theorem visited_self (hother : file ≠ tmp) : visited tmp src dst file content files file
    = some ((files tmp).getD [] ++ replaced src dst content) := by
  rw [visited, Function.update_of_ne hother, Function.update_self]

theorem visited_tmp : visited tmp src dst file content files tmp = none :=
  Function.update_self ..

theorem visited_of_ne {other : Bytes} (hfile : other ≠ file) (htmp : other ≠ tmp) :
    visited tmp src dst file content files other = files other := by
  rw [visited, Function.update_of_ne htmp, Function.update_of_ne hfile]

section Later

variable (hnew : file ∉ listed) (htmp : tmp ∉ listed)
include hnew htmp

theorem visited_of_mem {other : Bytes} (h : other ∈ listed) :
    visited tmp src dst file content files other = files other :=
  visited_of_ne (fun heq => hnew (heq ▸ h)) (fun heq => htmp (heq ▸ h))

end Later

variable (hfile : files file = some content)
include hfile

theorem first_present : first files (file :: listed) = some file := by
  rw [first, List.find?_cons, hfile]
  rfl

variable (hnew : file ∉ listed)
include hnew

theorem lastStatus_present (htmp : tmp ∉ listed) (status : Nat) :
    lastStatus tmp files (file :: listed) status
      = lastStatus tmp (visited tmp src dst file content files) listed
        (if content = [] ∧ files tmp = none then 1 else 0) := by
  unfold lastStatus
  rw [List.getLast?_cons, first_present hfile]
  cases hlast : listed.getLast? with
  | none => simp [hfile]
  | some last =>
      have hmem : last ∈ listed := List.mem_of_getLast? hlast
      have hne : file ≠ last := fun heq => hnew (heq ▸ hmem)
      simp [visited_of_mem hnew htmp hmem, visited_tmp, hne]

theorem replacedFiles_present (hother : file ≠ tmp) :
    replacedFiles tmp src dst files (file :: listed)
      = replacedFiles tmp src dst (visited tmp src dst file content files) listed := by
  funext other
  unfold replacedFiles
  rw [first_present hfile, visited_tmp]
  by_cases heq : other = tmp
  · simp [heq]
  · rw [if_neg heq, if_neg heq]
    by_cases heq' : other = file
    · subst heq'
      simp [hnew, hfile, visited_self hother]
    · simp [heq', Ne.symm heq', visited_of_ne heq' heq]

omit hfile hnew in
theorem announced_present {entry : Bytes → Bytes} {path : Bytes} {paths : List Bytes}
    (hpath : files (entry path) = some content) (hnew : entry path ∉ paths.map entry)
    (htmp : tmp ∉ paths.map entry) : announced entry files (path :: paths)
      = echo (text "path_file_name: " ++ path)
        ++ announced entry (visited tmp src dst (entry path) content files) paths := by
  have hrest : (paths.filter fun other =>
        (visited tmp src dst (entry path) content files (entry other)).isSome)
      = paths.filter fun other => (files (entry other)).isSome :=
    List.filter_congr fun other h => by rw [visited_of_mem hnew htmp (List.mem_map_of_mem h)]
  rw [announced, List.filter_cons_of_pos (by rw [hpath]; rfl), List.flatMap_cons, announced, hrest]

end Present

variable {entry : Bytes → Bytes} {locale : LocaleRules} {sed : Bytes → Bytes → Bytes → Bytes}
  (hplain : isPlain src = true) (hne : src ≠ []) (hline : newline ∉ src) (hsed : Replaces sed src dst)
include hplain hne hline hsed

/-- The loop over the names: no visit changes a file that is visited later. -/
theorem foldl_visit {paths : List Bytes} (hnodup : (paths.map entry).Nodup)
    (htmp : entry tmp_file ∉ paths.map entry) {files : Files}
    (htext : ∀ file ∈ paths.map entry, ∀ content, files file = some content → 0 ∉ content)
    (status : Nat) (out : Bytes) :
    paths.foldl (fun r path => visit entry locale sed src dst path r) ⟨status, out, files⟩
      = ⟨lastStatus (entry tmp_file) files (paths.map entry) status,
        out ++ announced entry files paths,
        replacedFiles (entry tmp_file) src dst files (paths.map entry)⟩ := by
  induction paths generalizing files status out with
  | nil =>
      have hfiles : replacedFiles (entry tmp_file) src dst files [] = files := by
        funext file
        simp +contextual [replacedFiles, first]
      rw [List.map_nil, hfiles, announced, List.filter_nil, List.flatMap_nil, List.append_nil]
      rfl
  | cons path paths ih =>
      rw [List.map_cons] at hnodup htmp htext
      obtain ⟨hnew, hnodup⟩ := List.nodup_cons.1 hnodup
      obtain ⟨hother, htmp⟩ := not_or.1 (mt List.mem_cons.2 htmp)
      rw [List.forall_mem_cons] at htext
      rw [List.foldl_cons, List.map_cons]
      cases hpath : files (entry path) with
      | none =>
          have hvisit : visit entry locale sed src dst path ⟨status, out, files⟩
              = ⟨0, out, files⟩ := by
            simp only [visit, hpath]
          rw [hvisit, ih hnodup htmp htext.2, lastStatus_missing hpath, announced_missing hpath,
            replacedFiles_missing hpath]
      | some content =>
          have hvisit : visit entry locale sed src dst path ⟨status, out, files⟩
              = ⟨if content = [] ∧ files (entry tmp_file) = none then 1 else 0,
                out ++ echo (text "path_file_name: " ++ path),
                visited (entry tmp_file) src dst (entry path) content files⟩ := by
            simp only [visit, hpath]
            rw [mv_whileRead hplain hne hline hsed hpath (htext.1 content hpath) (Ne.symm hother)]
          have htext' : ∀ other ∈ paths.map entry, ∀ content',
              visited (entry tmp_file) src dst (entry path) content files other = some content' →
                0 ∉ content' := by
            intro other hmem content' hcontent'
            rw [visited_of_mem hnew htmp hmem] at hcontent'
            exact htext.2 other hmem content' hcontent'
          rw [hvisit, ih hnodup htmp htext', ← lastStatus_present hpath hnew htmp status,
            ← replacedFiles_present hpath hnew (Ne.symm hother), List.append_assoc,
            ← announced_present hpath hnew htmp]

end Directory

end LinuxSamples.ReplaceInFiles
