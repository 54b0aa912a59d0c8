import LinuxSamples.Arguments.Getopt
import LinuxSamples.Shell.Words

set_option autoImplicit false

/-! # The options of a script

`test_getopts.sh` reads its options with the builtin `getopts`, which scans words as `getopt` does but
stops at the first operand. The option string begins with a colon: a wrong letter is reported to the
script, which ends with it.

The values are tested without quotes, `[ ! -z ${author} ]`: what becomes of a value there depends on the
fields it is split into. What a field with wildcards expands to, and what `[` makes of several fields, are
parameters. -/

namespace LinuxSamples.Getopts

open LinuxSamples.Options LinuxSamples.Getopt LinuxSamples.Bash

/-! ## The script -/

/-- A line that `echo` writes. -/
inductive Line
  /-- `all parameters: ...` -/
  | parameters (args : List Word)
  /-- `option: ..., value is: ..., index is: ...` -/
  | value (name : UInt8) (optarg : Word) (optind : Nat)
  /-- `option: ..., shell script name: ..., index is: ...` -/
  | script (name : UInt8) (self : Word) (optind : Nat)
  /-- `Error: missing parameter value: :a:c:Fg:, index is: ...` -/
  | missing (optind : Nat)
  /-- `Error: unknown option: :a:c:Fg:, index is: ...` -/
  | unknown (optind : Nat)
  /-- `author: ...` -/
  | author (w : Word)
  /-- `csdn addr: ...` -/
  | csdn (w : Word)
  /-- `github addr: ...` -/
  | github (w : Word)
  /-- `processed parameters OPTIND: ...` -/
  | processed (optind : Nat)
  /-- `remove processed parameters` -/
  | remove
  /-- `remaining parameters: ...` -/
  | remaining (args : List Word)
  /-- `test finish` -/
  | finish
  deriving DecidableEq, Repr

/-- The variables of the script, and what was written. -/
structure Vars where
  author : Word
  addr_csdn : Word
  addr_github : Word
  written : List Line

structure Result where
  written : List Line
  status : Nat
  deriving DecidableEq, Repr

/-- `a:c:Fg:`, behind the colon that keeps `getopts` silent. -/
def OptString : Syntax UInt8 := ⟨byte '-', takes (optstring "a:c:Fg:"), by decide, false⟩

section Script

variable (expand : Word → List Word) (several : List Word → Bool) (self : Word)

/-- `[ ! -z ${value} ]`; without a field this asks whether the text `-z` is empty. -/
def notEmpty (value : Word) : Bool :=
  match (fields value).flatMap expand with
  | [] => false
  | [w] => w ≠ []
  | ws => several ws

/-- The body of the loop. Where the script ends, what was written is all. -/
def body (v : Vars) : Event UInt8 × Nat → Except (List Line) Vars
  | (.value c w, i) =>
      if c = byte 'a' then
        .ok { v with author := w, written := v.written ++ [.value c w i] }
      else if c = byte 'c' then
        .ok { v with addr_csdn := w, written := v.written ++ [.value c w i] }
      else if c = byte 'g' then
        .ok { v with addr_github := w, written := v.written ++ [.value c w i] }
      else .ok v
  | (.flag c, i) =>
      if c = byte 'F' then .ok { v with written := v.written ++ [.script c self i] } else .ok v
  | (.missing _, i) => .error (v.written ++ [.missing i])
  | (.unknown _, i) => .error (v.written ++ [.unknown i])

/-- `if [ ! -z ${value} ]; then echo ...; fi`. -/
def report (line : Word → Line) (value : Word) : List Line :=
  if notEmpty expand several value then [line value] else []

/-- `test_getopts.sh`. -/
def test_getopts (args : List Word) : Result :=
  match OptString.whileOptions (body self) (start args) ⟨[], [], [], [.parameters args]⟩ with
  | .error written => ⟨written, 1⟩
  | .ok (v, scan) =>
      ⟨v.written ++ report expand several .author v.author
        ++ report expand several .csdn v.addr_csdn ++ report expand several .github v.addr_github
        -- `shift $((OPTIND-1))`
        ++ [.processed scan.index, .remove, .remaining (args.drop (scan.index - 1)), .finish], 0⟩

end Script

/-! ## What it makes of its arguments -/

theorem flag_letter {c : UInt8} (h : OptString.takes c = some false) : c = byte 'F' :=
  of_takes (optstring "a:c:Fg:") (· = byte 'F') (by decide) h

theorem value_letter {c : UInt8} (h : OptString.takes c = some true) :
    c = byte 'a' ∨ c = byte 'c' ∨ c = byte 'g' :=
  of_takes (optstring "a:c:Fg:") (fun c => c = byte 'a' ∨ c = byte 'c' ∨ c = byte 'g') (by decide) h

/-- The line about an option. -/
def optionLine (self : Word) : Event UInt8 × Nat → Line
  | (.value c w, i) => .value c w i
  | (.flag c, i) => .script c self i
  | (.unknown _, i) => .unknown i
  | (.missing _, i) => .missing i

/-- What an option does to the variables. -/
def Vars.step (self : Word) (v : Vars) (e : Event UInt8 × Nat) : Vars where
  author := (e.1.valueOf (byte 'a')).getD v.author
  addr_csdn := (e.1.valueOf (byte 'c')).getD v.addr_csdn
  addr_github := (e.1.valueOf (byte 'g')).getD v.addr_github
  written := v.written ++ [optionLine self e]

theorem body_regular (self : Word) (v : Vars) (e : Event UInt8 × Nat) (h : Regular OptString e.1) :
    body self v e = .ok (v.step self e) := by
  obtain ⟨e, i⟩ := e
  rcases h with ⟨c, rfl, hc⟩ | ⟨c, w, rfl, hc⟩
  · rw [flag_letter hc]
    rfl
  · rcases value_letter hc with rfl | rfl | rfl <;> rfl

/-- The variables after certain options: of each kind, the last value counts. -/
theorem foldl_step (self : Word) (args : List Word) (es : List (Event UInt8 × Nat)) :
    es.foldl (Vars.step self) ⟨[], [], [], [.parameters args]⟩
      = ⟨(lastValue (byte 'a') es).getD [], (lastValue (byte 'c') es).getD [],
        (lastValue (byte 'g') es).getD [], .parameters args :: es.map (optionLine self)⟩ := by
  induction es using List.reverseRecOn with
  | nil => rfl
  | append_singleton es e ih =>
      rw [List.foldl_append, List.foldl_cons, List.foldl_nil, ih, Vars.step]
      simp only [lastValue_concat, Option.getD_or, List.map_append, List.map_cons, List.map_nil,
        List.cons_append]

/-- **`test_getopts.sh` reads every command line, and reads it in one way.** The options are reported in
    their order, each with the `OPTIND` behind it; of each variable the last value counts; what is left
    over are the operands. A wrong letter is reported behind the options before it, and ends the script.
    There are no other command lines. -/
theorem getopts_reads (expand : Word → List Word) (several : List Word → Bool) (self : Word) :
    (∀ line : Options.Line OptString, test_getopts expand several self line.words =
      ⟨.parameters line.words :: line.found.map (optionLine self)
        ++ report expand several .author ((lastValue (byte 'a') line.found).getD [])
        ++ report expand several .csdn ((lastValue (byte 'c') line.found).getD [])
        ++ report expand several .github ((lastValue (byte 'g') line.found).getD [])
        ++ [.processed line.index, .remove, .remaining line.operands, .finish], 0⟩) ∧
    (∀ line : BadLine OptString, test_getopts expand several self line.words =
      ⟨.parameters line.words :: line.found.map (optionLine self)
        ++ [optionLine self (line.bad.event, line.index)], 1⟩) ∧
    ∀ args, Classified OptString args := by
  refine ⟨fun line => ?_, fun line => ?_, classify⟩
  · obtain ⟨final, hloop, _, hindex⟩ := whileOptions_line (body_regular self) line
      ⟨[], [], [], [.parameters line.words]⟩
    have hdrop : line.words.drop (line.index - 1) = line.operands := by
      rw [Options.Line.index, Nat.add_sub_cancel, line.words_eq rfl]
      exact List.drop_left' rfl
    rw [foldl_step] at hloop
    rw [test_getopts, hloop]
    simp only [hindex, hdrop]
  · have hloop : OptString.whileOptions (body self) (start line.words)
          ⟨[], [], [], [.parameters line.words]⟩
        = .error (.parameters line.words :: line.found.map (optionLine self)
          ++ [optionLine self (line.bad.event, line.index)]) := by
      refine whileOptions_bad (body_regular self) line _ ?_
      rw [foldl_step]
      cases line.bad <;> rfl
    rw [test_getopts, hloop]

end LinuxSamples.Getopts
