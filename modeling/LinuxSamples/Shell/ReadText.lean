import LinuxSamples.Shell.LineSelection
import LinuxSamples.Shell.Words
import LinuxSamples.Text.Replace
import Mathlib.Data.List.Flatten

set_option autoImplicit false

/-! # The script that reads a text file

`read_txt_file_analysis.sh` reads a text five times and appends five parts to another file: its lines,
those with `88` in them, the lines without their last five characters, without their first ten, and those
with `group` in them, with `class` in its place.

By their comments the third and the fourth part leave out lines that are too short. But the tests ask for
`vale`, which is never set and counts as 0: every line passes. In the third part `${line::-5}` is then an
error on the first line that is shorter, and bash leaves the loop. In the fourth part nothing is left of
such a line, and an empty line is written. -/

namespace LinuxSamples.ReadText

open LinuxSamples.Text LinuxSamples.Glob LinuxSamples.LogScripts LinuxSamples.Bash

/-! ## The script -/

/-- `while IFS='' read -r line || [[ -n "$line" ]]; do body; done < "$1"`; a file that is not there is
    not read. -/
def forLines {σ : Type} (src : Bytes) (files : Files) (body : Bytes → σ → σ) (s : σ) : σ :=
  match files src with
  | some content => whileRead body content s
  | none => s

/-- The value of `vale` in a test. -/
def vale : Nat := 0

section Script

variable (locale : LocaleRules) (chars : Bytes → List Bytes) (unescape : Bytes → Bytes × Bool)
  (expand : Bytes → List Bytes)

/-- `echo ${line} | sed -e "s/group/class/g"`, where `expand` is what a field with wildcards becomes. -/
def regrouped (line : Bytes) : Bytes :=
  replaceAll (text "group") (text "class")
    (echoWords unescape false false ((fields line).flatMap expand))

def part1 (dst line : Bytes) (files : Files) : Files :=
  append files dst (echo (text "Text read from file: " ++ line))

def part2 (dst line : Bytes) (files : Files) : Files :=
  if differs (glob locale) (text "88") line then append files dst (echo line) else files

/-- The loop goes on with the files of `ok`; it was left with those of `error`. -/
def part3 (dst line : Bytes) : Except Files Files → Except Files Files
  | .error files => .error files
  | .ok files =>
      if vale ≤ charCount chars line then
        match upToLast chars 5 line with
        | some w => .ok (append files dst (echo w))
        | none => .error files
      else .ok files

def part4 (dst line : Bytes) (files : Files) : Files :=
  if vale ≤ charCount chars line then append files dst (echo (from' chars 10 line)) else files

def part5 (dst line : Bytes) (files : Files) : Files :=
  if differs (glob locale) (text "group") line then
    append files dst (regrouped unescape expand line)
  else files

/-- The files when a loop is left. -/
def left : Except Files Files → Files
  | .ok files | .error files => files

/-- A number, and a loop over the lines of the text. -/
def listed (src dst number : Bytes) (body : Bytes → Files → Files) (files : Files) : Files :=
  let files := append files dst (echo number)
  forLines src files body files

/-- The loop of the third part, with the number in front of it. -/
def shortened (src dst : Bytes) (files : Files) : Files :=
  let files := append files dst (echo (text "3."))
  left (forLines src files (part3 chars dst) (.ok files))

/-- `read_txt_file_analysis.sh`; both names are of different files. -/
def read_txt_file_analysis (self : Bytes) (args : List Bytes) (files : Files) : Result :=
  match args with
  | [src, dst] =>
      let files := listed src dst (text "1.") (part1 dst) files
      let files := listed src dst (text "2.") (part2 locale dst) files
      let files := shortened chars src dst files
      let files := listed src dst (text "4.") (part4 chars dst) files
      let files := listed src dst (text "5.") (part5 locale unescape expand dst) files
      ⟨if (files src).isSome then 0 else 1, [], files⟩
  | _ =>
      ⟨1, echo (text "usage: " ++ self ++ text " src_txt_file dst_txt_file") ++
        echo (text "e.g: " ++ self ++ text " ./a.txt ./b.txt"), files⟩

end Script

/-! ## What the loops append -/

section Loops

variable {chars : Bytes → List Bytes} {src dst content : Bytes} {files : Files}

/-- A file that has the given bytes, and the others as they were. -/
def withFile (files : Files) (dst old : Bytes) : Files := Function.update files dst (some old)

theorem append_eq (files : Files) (dst new : Bytes) :
    append files dst new = withFile files dst ((files dst).getD [] ++ new) := rfl

theorem append_withFile (files : Files) (dst old new : Bytes) :
    append (withFile files dst old) dst new = withFile files dst (old ++ new) := by
  rw [append_eq, withFile, withFile, Function.update_self, Option.getD_some, withFile,
    Function.update_idem]

theorem vale_le (n : Nat) : vale ≤ n := Nat.zero_le n

/-- A loop over the lines of a file that no iteration changes. -/
theorem forLines_eq {σ : Type} (hsrc : files src = some content) (htext : 0 ∉ content)
    (body : Bytes → σ → σ) (s : σ) :
    forLines src files body s = (splitLines newline content).foldl (fun s line => body line s) s := by
  rw [forLines, hsrc]
  exact whileRead_eq body _ content s (Nat.lt_succ_self _) htext

/-- Iterations that append append what they append one after the other. -/
theorem foldl_withFile {body : Bytes → Files → Files} {out : Bytes → Bytes}
    (hbody : ∀ line old, body line (withFile files dst old) = withFile files dst (old ++ out line))
    (lines : List Bytes) (old : Bytes) :
    lines.foldl (fun files line => body line files) (withFile files dst old)
      = withFile files dst (old ++ lines.flatMap out) := by
  induction lines generalizing old with
  | nil => rw [List.foldl_nil, List.flatMap_nil, List.append_nil]
  | cons line lines ih => rw [List.foldl_cons, hbody, ih, List.flatMap_cons, List.append_assoc]

theorem foldl_error (chars : Bytes → List Bytes) (dst : Bytes) (lines : List Bytes) (files : Files) :
    lines.foldl (fun s line => part3 chars dst line s) (.error files) = .error files := by
  induction lines with
  | nil => rfl
  | cons line lines ih => exact ih

/-- What the third part appends: it ends at the first line that is too short. -/
theorem foldl_part3 (lines : List Bytes) (old : Bytes) :
    left (lines.foldl (fun s line => part3 chars dst line s) (.ok (withFile files dst old)))
      = withFile files dst (old ++ (lines.takeWhile (5 ≤ charCount chars ·)).flatMap
        fun line => echo (dropLast chars 5 line)) := by
  induction lines generalizing old with
  | nil =>
      rw [List.takeWhile_nil, List.flatMap_nil, List.append_nil]
      rfl
  | cons line lines ih =>
      rw [List.foldl_cons, part3, if_pos (vale_le _), upToLast]
      by_cases hlong : 5 ≤ charCount chars line
      · rw [if_pos hlong, List.takeWhile_cons_of_pos (by simpa using hlong), List.flatMap_cons,
          ← List.append_assoc, ← ih]
        simp only [append_withFile]
      · rw [if_neg hlong, List.takeWhile_cons_of_neg (by simpa using hlong), foldl_error,
          List.flatMap_nil, List.append_nil]
        rfl

end Loops

/-! ## The five parts -/

/-- Options of `echo` have no other letters. -/
theorem echo_of_mem {word : Bytes} {c : UInt8} (hc : c ∈ word)
    (hother : c ≠ 45 ∧ c ≠ 110 ∧ c ≠ 101 ∧ c ≠ 69) : echo word = word ++ [newline] := by
  have hoption : ¬ isOption word = true := by
    intro hoption
    unfold isOption at hoption
    split at hoption
    · next d ds =>
        rcases List.mem_cons.1 hc with rfl | hc
        · exact hother.1 rfl
        · have hletter := List.all_eq_true.1 hoption c hc
          simp only [decide_eq_true_eq] at hletter
          rcases hletter with h | h | h
          · exact hother.2.1 h
          · exact hother.2.2.1 h
          · exact hother.2.2.2 h
    · cases hoption
  rw [echo, if_neg hoption]

section Parts

variable (chars : Bytes → List Bytes) (unescape : Bytes → Bytes × Bool) (expand : Bytes → List Bytes)

/-- What the script appends for a text of the given lines. -/
def written (lines : List Bytes) : Bytes :=
  echo (text "1.")
    ++ (lines.flatMap fun line => text "Text read from file: " ++ line ++ [newline])
    ++ echo (text "2.")
    ++ (lines.filter fun line => text "88" <:+: line).flatMap (· ++ [newline])
    ++ echo (text "3.")
    ++ ((lines.takeWhile (5 ≤ charCount chars ·)).flatMap fun line => echo (dropLast chars 5 line))
    ++ echo (text "4.")
    ++ (lines.flatMap fun line => echo (from' chars 10 line))
    ++ echo (text "5.")
    ++ (lines.filter fun line => text "group" <:+: line).flatMap (regrouped unescape expand)

theorem flatMap_ite (p : Bytes → Bool) (f : Bytes → Bytes) (lines : List Bytes) :
    (lines.flatMap fun line => if p line then f line else []) = (lines.filter p).flatMap f := by
  induction lines with
  | nil => rfl
  | cons line lines ih =>
      rw [List.flatMap_cons, List.filter_cons, ih]
      split
      · rw [List.flatMap_cons]
      · rfl

theorem differs_eq (locale : LocaleRules) {string : Bytes} (hplain : isPlain string = true)
    (hne : string ≠ []) : differs (glob locale) string = fun line => decide (string <:+: line) := by
  funext line
  rw [Bool.eq_iff_iff, decide_eq_true_iff]
  exact differs_plain locale hplain hne

section Loops

variable (files : Files) (dst line old : Bytes)

theorem part1_withFile : part1 dst line (withFile files dst old)
    = withFile files dst (old ++ (text "Text read from file: " ++ line ++ [newline])) := by
  rw [part1, append_withFile, echo_of_mem (List.mem_append_left line
    (show (84 : UInt8) ∈ text "Text read from file: " by decide)) (by decide)]

theorem part2_withFile (locale : LocaleRules) : part2 locale dst line (withFile files dst old)
    = withFile files dst (old ++ if text "88" <:+: line then line ++ [newline] else []) := by
  rw [part2, differs_eq locale (by decide) (by decide)]
  by_cases hinfix : text "88" <:+: line
  · have hmem : (56 : UInt8) ∈ line := hinfix.subset (by decide)
    rw [if_pos (decide_eq_true hinfix), if_pos hinfix, append_withFile, echo_of_mem hmem (by decide)]
  · rw [if_neg (by simpa using hinfix), if_neg hinfix, List.append_nil]

theorem part4_withFile : part4 chars dst line (withFile files dst old)
    = withFile files dst (old ++ echo (from' chars 10 line)) := by
  rw [part4, if_pos (vale_le _), append_withFile]

theorem part5_withFile (locale : LocaleRules) :
    part5 locale unescape expand dst line (withFile files dst old)
      = withFile files dst
        (old ++ if text "group" <:+: line then regrouped unescape expand line else []) := by
  rw [part5, differs_eq locale (by decide) (by decide)]
  by_cases hinfix : text "group" <:+: line
  · rw [if_pos (decide_eq_true hinfix), if_pos hinfix, append_withFile]
  · rw [if_neg (by simpa using hinfix), if_neg hinfix, List.append_nil]

end Loops

section Sections

variable {src dst content : Bytes} {files : Files}

theorem append_self (files : Files) (dst new : Bytes) :
    append files dst new = append (withFile files dst ((files dst).getD [])) dst new := by
  rw [append_withFile, append_eq]

variable (hsrc : files src = some content) (htext : 0 ∉ content) (hne : src ≠ dst)
include hsrc htext hne

theorem listed_withFile {number : Bytes} {body : Bytes → Files → Files} {out : Bytes → Bytes}
    (hbody : ∀ line old, body line (withFile files dst old) = withFile files dst (old ++ out line))
    (old : Bytes) :
    listed src dst number body (withFile files dst old)
      = withFile files dst (old ++ echo number ++ (splitLines newline content).flatMap out) := by
  have hsrc' : ∀ old, withFile files dst old src = some content := fun old =>
    (Function.update_of_ne hne ..).trans hsrc
  rw [listed, append_withFile, forLines_eq (hsrc' _) htext, foldl_withFile hbody]

theorem shortened_withFile (old : Bytes) :
    shortened chars src dst (withFile files dst old) = withFile files dst (old ++ echo (text "3.")
      ++ ((splitLines newline content).takeWhile (5 ≤ charCount chars ·)).flatMap
        fun line => echo (dropLast chars 5 line)) := by
  have hsrc' : ∀ old, withFile files dst old src = some content := fun old =>
    (Function.update_of_ne hne ..).trans hsrc
  rw [shortened, append_withFile, forLines_eq (hsrc' _) htext, foldl_part3]

/-- What the script leaves behind. -/
theorem read_txt_file_files (locale : LocaleRules) (self : Bytes) :
    (read_txt_file_analysis locale chars unescape expand self [src, dst] files).files
      = withFile files dst ((files dst).getD []
        ++ written chars unescape expand (splitLines newline content)) := by
  have hfirst : listed src dst (text "1.") (part1 dst) files
      = listed src dst (text "1.") (part1 dst) (withFile files dst ((files dst).getD [])) := by
    rw [listed, append_self]
    rfl
  simp only [read_txt_file_analysis]
  rw [hfirst, listed_withFile hsrc htext hne (part1_withFile files dst),
    listed_withFile hsrc htext hne (fun line old => part2_withFile files dst line old locale),
    shortened_withFile chars hsrc htext hne,
    listed_withFile hsrc htext hne (part4_withFile chars files dst),
    listed_withFile hsrc htext hne
      (fun line old => part5_withFile unescape expand files dst line old locale)]
  have hfilter : ∀ (string : Bytes) (f : Bytes → Bytes),
      ((splitLines newline content).flatMap fun line => if string <:+: line then f line else [])
        = ((splitLines newline content).filter fun line => string <:+: line).flatMap f :=
    fun string f => by
      rw [← flatMap_ite]
      simp only [decide_eq_true_eq]
  rw [hfilter, hfilter]
  simp only [written, List.append_assoc]

end Sections

/-! ## What becomes of the lines -/

/-- Texts that are left out can be told from those that are not, if none of them is empty. -/
theorem flatMap_filter_iff {p : Bytes → Bool} {f : Bytes → Bytes} {lines : List Bytes}
    (h : ∀ line, p line = false → f line ≠ []) :
    lines.flatMap f = (lines.filter p).flatMap f ↔ ∀ line ∈ lines, p line = true := by
  have hle : ∀ lines : List Bytes, ((lines.filter p).flatMap f).length ≤ (lines.flatMap f).length :=
    fun lines => (List.Sublist.flatMap List.filter_sublist f).length_le
  induction lines with
  | nil => simp
  | cons line lines ih =>
      rw [List.flatMap_cons, List.filter_cons, List.forall_mem_cons]
      cases hp : p line with
      | true =>
          rw [if_pos rfl, List.flatMap_cons, List.append_cancel_left_eq, and_iff_right rfl]
          exact ih
      | false =>
          refine iff_of_false (fun heq => ?_) (fun hall => by cases hall.1)
          have hlength := congrArg List.length heq
          have hpos := List.length_pos_iff.2 (h line hp)
          have hrest := hle lines
          rw [if_neg (by simp), List.length_append] at hlength
          omega

theorem class_fresh : ∀ c ∈ text "class", c ∉ text "group" := fun c hc => by
  have hall : (text "class").all (fun c => !(text "group").contains c) = true := by decide
  simpa using List.all_eq_true.1 hall c hc

end Parts

end LinuxSamples.ReadText
