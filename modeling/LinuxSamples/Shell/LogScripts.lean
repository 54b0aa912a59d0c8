import LinuxSamples.Text.Lines
import Mathlib.Logic.Function.Basic

set_option autoImplicit false

/-! # The scripts that select lines of a log

`analysis_log_file_extract_lines.sh` and `analysis_log_file_delete_lines.sh` read a log line by line
and append the lines that they select to a new file with `echo`. Both compare a line with what is
left of it when the shortest suffix that matches `$2*` is removed, one for inequality, the other for
equality, so that each line is selected by one of them. What `echo` writes is another matter: a line
that looks like its options is not written.

Which texts a pattern matches is a parameter: both scripts ask the same. -/

namespace LinuxSamples.LogScripts

open LinuxSamples.Text

abbrev Bytes : Type := List UInt8

abbrev Files : Type := Bytes → Option Bytes

/-! ## Bash -/

def newline : UInt8 := 10

/-- `read -r line` with an empty `IFS`: the line, without its NULs, and what is left behind its
    newline, if there is one. -/
def read : Bytes → Bytes × Option Bytes
  | [] => ([], none)
  | b :: bs =>
      if b = newline then ([], some bs)
      else (if b = 0 then (read bs).1 else b :: (read bs).1, (read bs).2)

theorem read_shorter {input line rest : Bytes} (h : read input = (line, some rest)) :
    rest.length < input.length := by
  induction input generalizing line with
  | nil => cases h
  | cons b bs ih =>
      unfold read at h
      split at h
      · cases h
        exact Nat.lt_succ_self _
      · obtain ⟨_, hrest⟩ := Prod.mk.inj h
        have hread : read bs = ((read bs).1, some rest) := Prod.ext rfl hrest
        exact Nat.lt_succ_of_lt (ih hread)

/-- `while IFS='' read -r line || [[ -n "$line" ]]; do body; done`. -/
def whileRead {σ : Type} (body : Bytes → σ → σ) (input : Bytes) (s : σ) : σ :=
  match h : read input with
  | (line, some rest) =>
      have _hlt : rest.length < input.length := read_shorter h
      whileRead body rest (body line s)
  -- the next `read` finds the end of the input, and an empty line
  | (line, none) => if line ≠ [] then body line s else s
termination_by input.length

/-- `${line%pattern}`: the shortest suffix that matches is removed. -/
def removeSuffix (glob : Bytes → Bytes → Bool) (pattern line : Bytes) : Bytes :=
  match (List.range (line.length + 1)).reverse.find? fun k => glob pattern (line.drop k) with
  | some k => line.take k
  | none => line

/-- `-` and one or more of the letters `n`, `e` and `E`. -/
def isOption : Bytes → Bool
  | 45 :: c :: cs => (c :: cs).all fun c => c = 110 ∨ c = 101 ∨ c = 69
  | _ => false

/-- What the builtin `echo` writes for one argument. -/
def echo (word : Bytes) : Bytes :=
  if isOption word then if 110 ∈ word then [] else [newline] else word ++ [newline]

/-- `>> name`. -/
def append (files : Files) (name output : Bytes) : Files :=
  Function.update files name (some ((files name).getD [] ++ output))

/-! ## The scripts -/

def text (s : String) : Bytes := s.toList.map fun c => c.toNat.toUInt8

/-- The exit status, what is written to the standard output, and the files. -/
structure Result where
  status : Nat
  stdout : Bytes
  files : Files

/-- What the scripts do on lines selected by `keeps`. The name of the new file is a single word, so
    that `rm $3` removes it. -/
def analysisLogFile (keeps : Bytes → Bytes → Bool) (self : Bytes) (args : List Bytes)
    (files : Files) : Result :=
  match args with
  | [log, string, new] =>
      if (files log).isNone then
        ⟨1, echo (text "Error: file does not exist: " ++ log), files⟩
      else
        let warning :=
          if (files new).isSome then
            echo (text "WARNINT: file exist, first need to delete: " ++ new)
          else []
        let files := Function.update files new none
        match files log with
        | none => ⟨1, warning, files⟩
        | some content => ⟨0, warning, whileRead (fun line files =>
            if keeps string line then append files new (echo line) else files) content files⟩
  | _ =>
      ⟨1, echo (text "Error: usage: " ++ self ++ text " log_file_name string new_log_file_name") ++
        echo (text "e.g: " ++ self ++ text " ./log.txt abcd ./new_log.txt"), files⟩

/-- `[[ "$line" != "${line%$2*}" ]]`. -/
def differs (glob : Bytes → Bytes → Bool) (string line : Bytes) : Bool :=
  line ≠ removeSuffix glob (string ++ text "*") line

/-- `[[ "$line" == "${line%$2*}" ]]`. -/
def agrees (glob : Bytes → Bytes → Bool) (string line : Bytes) : Bool :=
  line = removeSuffix glob (string ++ text "*") line

/-- `analysis_log_file_extract_lines.sh`. -/
def extractLines (glob : Bytes → Bytes → Bool) : Bytes → List Bytes → Files → Result :=
  analysisLogFile (differs glob)

/-- `analysis_log_file_delete_lines.sh`. -/
def deleteLines (glob : Bytes → Bytes → Bool) : Bytes → List Bytes → Files → Result :=
  analysisLogFile (agrees glob)

/-- The lines of a file; one that was not created has none. -/
def linesOf (files : Files) (name : Bytes) : List Bytes :=
  splitLines newline ((files name).getD [])

/-! ## Reading -/

/-- `read` takes the first line of a text without NULs, or all that is left of it. -/
theorem read_cases {input : Bytes} (htext : 0 ∉ input) :
    (∃ line rest, input = line ++ newline :: rest ∧ newline ∉ line ∧
      read input = (line, some rest)) ∨ (newline ∉ input ∧ read input = (input, none)) := by
  induction input with
  | nil => exact Or.inr ⟨List.not_mem_nil, rfl⟩
  | cons b bs ih =>
      simp only [List.mem_cons, not_or] at htext
      by_cases hb : b = newline
      · subst hb
        exact Or.inl ⟨[], bs, rfl, List.not_mem_nil, by simp [read]⟩
      · rcases ih htext.2 with ⟨line, rest, rfl, hline, hread⟩ | ⟨hno, hread⟩
        · refine Or.inl ⟨b :: line, rest, rfl, ?_, ?_⟩
          · simp [hline, Ne.symm hb]
          · simp [read, hread, hb, Ne.symm htext.1]
        · refine Or.inr ⟨by simp [hno, Ne.symm hb], ?_⟩
          simp [read, hread, hb, Ne.symm htext.1]

theorem whileRead_unfold {σ : Type} (body : Bytes → σ → σ) (input : Bytes) (s : σ) :
    whileRead body input s =
      match read input with
      | (line, some rest) => whileRead body rest (body line s)
      | (line, none) => if line ≠ [] then body line s else s := by
  rw [whileRead]
  split
  · next line rest h =>
      change whileRead body rest (body line s) = _
      rw [h]
  · next line h => rw [h]

theorem whileRead_next {σ : Type} {input line rest : Bytes} (h : read input = (line, some rest))
    (body : Bytes → σ → σ) (s : σ) :
    whileRead body input s = whileRead body rest (body line s) := by
  rw [whileRead_unfold, h]

theorem whileRead_last {σ : Type} {input line : Bytes} (h : read input = (line, none))
    (body : Bytes → σ → σ) (s : σ) :
    whileRead body input s = if line ≠ [] then body line s else s := by
  rw [whileRead_unfold, h]

/-- **The loop** runs its body on every line of the input, also on one without a newline at its
    end. -/
theorem whileRead_eq {σ : Type} (body : Bytes → σ → σ) (n : Nat) :
    ∀ (input : Bytes) (s : σ), input.length < n → 0 ∉ input →
      whileRead body input s
        = (splitLines newline input).foldl (fun s line => body line s) s := by
  induction n with
  | zero => intro input s hn; exact absurd hn (Nat.not_lt_zero _)
  | succ n ih =>
      intro input s hn htext
      rcases read_cases htext with ⟨line, rest, rfl, hline, hread⟩ | ⟨hno, hread⟩
      · simp only [List.length_append, List.length_cons] at hn
        simp only [List.mem_append, List.mem_cons, not_or] at htext
        rw [whileRead_next hread, splitLines_line hline, List.foldl_cons]
        exact ih rest _ (by omega) htext.2.2
      · rw [whileRead_last hread]
        rcases input with _ | ⟨b, input⟩
        · rfl
        · rw [splitLines_last hno (List.cons_ne_nil b input), if_pos (List.cons_ne_nil b input)]
          rfl

/-! ## Writing -/

/-- The lines that `echo` writes for one argument. -/
def echoed (word : Bytes) : List Bytes :=
  if isOption word then if 110 ∈ word then [] else [[]] else [word]

theorem splitLines_echo {lines : List Bytes} (h : ∀ line ∈ lines, newline ∉ line) :
    splitLines newline (lines.flatMap echo) = lines.flatMap echoed := by
  induction lines with
  | nil => rfl
  | cons line lines ih =>
      rw [List.forall_mem_cons] at h
      rw [List.flatMap_cons, List.flatMap_cons, ← ih h.2]
      unfold echo echoed
      split_ifs with hoption hsilent
      · rfl
      · exact splitLines_line List.not_mem_nil _
      · rw [List.append_assoc]
        exact splitLines_line h.1 _

/-- No line that is written looks like the options of `echo`. -/
theorem isOption_of_mem_echoed {line word : Bytes} (h : line ∈ echoed word) :
    isOption line = false := by
  unfold echoed at h
  split_ifs at h with hoption hsilent
  · cases h
  · rw [List.mem_singleton] at h
    subst h
    rfl
  · rw [List.mem_singleton] at h
    subst h
    exact Bool.eq_false_iff.2 hoption

theorem flatMap_echoed {lines : List Bytes} (h : ∀ line ∈ lines, isOption line = false) :
    lines.flatMap echoed = lines := by
  induction lines with
  | nil => rfl
  | cons line lines ih =>
      rw [List.forall_mem_cons] at h
      rw [List.flatMap_cons, ih h.2, echoed, h.1]
      rfl

/-- The files after the lines that are kept were appended to `new`. -/
theorem foldl_append (keeps : Bytes → Bool) (new : Bytes) (lines : List Bytes) :
    ∀ files : Files,
      let files' := lines.foldl (fun files line =>
        if keeps line then append files new (echo line) else files) files
      (files' new).getD [] = (files new).getD [] ++ (lines.filter keeps).flatMap echo ∧
        ∀ name, name ≠ new → files' name = files name := by
  induction lines with
  | nil => simp
  | cons line lines ih =>
      intro files
      rw [List.foldl_cons, List.filter_cons]
      cases hkeeps : keeps line with
      | false => simpa [hkeeps] using ih files
      | true =>
          obtain ⟨hnew, hother⟩ := ih (append files new (echo line))
          refine ⟨?_, fun name hname => ?_⟩
          · simpa [append, List.append_assoc] using hnew
          · rw [if_pos rfl]
            exact (hother name hname).trans (Function.update_of_ne hname ..)

/-- **A script** writes the lines it keeps to the new file, with `echo`, and changes no other file. -/
theorem analysisLogFile_files (keeps : Bytes → Bytes → Bool) (self string : Bytes) {log new : Bytes}
    {files : Files} {content : Bytes} (hlog : files log = some content) (htext : 0 ∉ content)
    (hne : new ≠ log) :
    let files' := (analysisLogFile keeps self [log, string, new] files).files
    linesOf files' new = ((linesOf files log).filter (keeps string)).flatMap echoed ∧
      ∀ name, name ≠ new → files' name = files name := by
  have hlog' : Function.update files new none log = some content := by
    rw [Function.update_of_ne hne.symm, hlog]
  have hlines : linesOf files log = splitLines newline content := by
    rw [linesOf, hlog]
    rfl
  obtain ⟨hnew, hother⟩ := foldl_append (keeps string) new (splitLines newline content)
    (Function.update files new none)
  rw [← whileRead_eq _ _ content _ (Nat.lt_succ_self _) htext] at hnew hother
  simp only [analysisLogFile, hlog, hlog', Option.isNone_some, Bool.false_eq_true, if_false]
  refine ⟨?_, fun name hname => ?_⟩
  · rw [linesOf, hnew, Function.update_self, Option.getD_none, List.nil_append, hlines]
    refine splitLines_echo fun line hline => ?_
    exact notMem_of_mem_splitLines (List.mem_filter.1 hline).1
  · rw [hother name hname, Function.update_of_ne hname]

/-! ## Both scripts -/

theorem agrees_eq_not_differs (glob : Bytes → Bytes → Bool) (string line : Bytes) :
    agrees glob string line = !differs glob string line := by
  simp [agrees, differs]

/-- What the two scripts leave of a log, one run after the other. -/
theorem scripts_files (glob : Bytes → Bytes → Bool) (self₁ self₂ string : Bytes)
    {log kept dropped : Bytes} {files : Files} {content : Bytes} (hlog : files log = some content)
    (htext : 0 ∉ content) (hkept : kept ≠ log) (hdropped : dropped ≠ log) (hne : kept ≠ dropped) :
    let files₁ := (extractLines glob self₁ [log, string, kept] files).files
    let files₂ := (deleteLines glob self₂ [log, string, dropped] files₁).files
    linesOf files₂ kept = ((linesOf files log).filter (differs glob string)).flatMap echoed ∧
      linesOf files₂ dropped
        = ((linesOf files log).filter fun line => !differs glob string line).flatMap echoed := by
  intro files₁ files₂
  obtain ⟨hlines₁, hother₁⟩ := analysisLogFile_files (differs glob) self₁ string hlog htext hkept
  have hlog₁ : files₁ log = some content := (hother₁ log hkept.symm).trans hlog
  obtain ⟨hlines₂, hother₂⟩ := analysisLogFile_files (agrees glob) self₂ string hlog₁ htext hdropped
  have hsame : linesOf files₁ log = linesOf files log := by
    rw [linesOf, linesOf, hlog₁, hlog]
  refine ⟨?_, ?_⟩
  · rw [← hlines₁, linesOf, linesOf]
    exact congrArg (fun content => splitLines newline (content.getD [])) (hother₂ kept hne)
  · rw [← hsame, ← funext (agrees_eq_not_differs glob string)]
    exact hlines₂

/-- Lines that `echo` writes are shared out exactly if none of them looks like its options. -/
theorem partition_echoed {lines : List Bytes} (p : Bytes → Bool) :
    Partition lines ((lines.filter p).flatMap echoed)
        ((lines.filter fun line => !p line).flatMap echoed) ↔
      ∀ line ∈ lines, isOption line = false := by
  constructor
  · intro h line hline
    rcases h.mem hline with hmem | hmem
    · obtain ⟨word, _, hword⟩ := List.mem_flatMap.1 hmem
      exact isOption_of_mem_echoed hword
    · obtain ⟨word, _, hword⟩ := List.mem_flatMap.1 hmem
      exact isOption_of_mem_echoed hword
  · intro h
    refine ⟨p, flatMap_echoed fun line hline => ?_, flatMap_echoed fun line hline => ?_⟩
    · exact h line (List.mem_filter.1 hline).1
    · exact h line (List.mem_filter.1 hline).1

/-- **The two scripts** share out the lines of a log exactly if no line is one that `echo` takes for
    its options. -/
theorem log_scripts_partition (glob : Bytes → Bytes → Bool) (self₁ self₂ string : Bytes)
    {log kept dropped : Bytes} {files : Files} {content : Bytes} (hlog : files log = some content)
    (htext : 0 ∉ content) (hkept : kept ≠ log) (hdropped : dropped ≠ log) (hne : kept ≠ dropped) :
    let files₁ := (extractLines glob self₁ [log, string, kept] files).files
    let files₂ := (deleteLines glob self₂ [log, string, dropped] files₁).files
    Partition (linesOf files log) (linesOf files₂ kept) (linesOf files₂ dropped) ↔
      ∀ line ∈ linesOf files log, isOption line = false := by
  intro files₁ files₂
  obtain ⟨hkeptLines, hdroppedLines⟩ :=
    scripts_files glob self₁ self₂ string hlog htext hkept hdropped hne
  rw [show linesOf files₂ kept = _ from hkeptLines, show linesOf files₂ dropped = _ from hdroppedLines]
  exact partition_echoed _

/-- The texts that the pattern `x*` matches. -/
def startsWithX (_ text : Bytes) : Bool := text.head? = some 120

/-- A log named `l` with the given content, and no other file. -/
def onlyLog (content : Bytes) : Files := fun name => if name = [108] then some content else none

/-- The files once both scripts have selected the lines with an `x` of this log. -/
def selected (content : Bytes) : Files :=
  let files₁ := (extractLines startsWithX [] [[108], [120], [49]] (onlyLog content)).files
  (deleteLines startsWithX [] [[108], [120], [50]] files₁).files

/-- The log has the lines `ax` and `b`, the latter without a newline. -/
theorem log_scripts_partition_ax :
    Partition (linesOf (onlyLog [97, 120, 10, 98]) [108])
      (linesOf (selected [97, 120, 10, 98]) [49]) (linesOf (selected [97, 120, 10, 98]) [50]) :=
  (log_scripts_partition startsWithX [] [] [120]
    (show onlyLog [97, 120, 10, 98] [108] = some [97, 120, 10, 98] from rfl) (by decide)
    (show [49] ≠ [108] by decide) (show [50] ≠ [108] by decide) (by decide)).2 (by decide)

/-- The log has the line `-n`, which neither script writes. -/
theorem log_scripts_lose : linesOf (onlyLog [45, 110, 10]) [108] = [[45, 110]] ∧
    linesOf (selected [45, 110, 10]) [49] = [] ∧ linesOf (selected [45, 110, 10]) [50] = [] ∧
      ¬ Partition (linesOf (onlyLog [45, 110, 10]) [108])
        (linesOf (selected [45, 110, 10]) [49]) (linesOf (selected [45, 110, 10]) [50]) := by
  obtain ⟨hkept, hdropped⟩ := scripts_files startsWithX [] [] [120]
    (show onlyLog [45, 110, 10] [108] = some [45, 110, 10] from rfl) (by decide)
    (show [49] ≠ [108] by decide) (show [50] ≠ [108] by decide) (by decide)
  have hkept' : linesOf (selected [45, 110, 10]) [49] = [] := hkept.trans (by decide)
  have hdropped' : linesOf (selected [45, 110, 10]) [50] = [] := hdropped.trans (by decide)
  refine ⟨by decide, hkept', hdropped', fun h => ?_⟩
  rw [hkept', hdropped'] at h
  rcases h.mem (show [45, 110] ∈ linesOf (onlyLog [45, 110, 10]) [108] by decide) with hmem | hmem
  · cases hmem
  · cases hmem

end LinuxSamples.LogScripts
