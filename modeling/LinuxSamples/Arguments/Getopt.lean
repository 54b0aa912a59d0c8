import LinuxSamples.Text.Options
import Mathlib.Algebra.Ring.Int.Defs
import Mathlib.Data.List.Induction

set_option autoImplicit false

/-! # The options of the getopt sample

`sample_getopt.cpp` takes the number of a test as its first argument and passes all of its arguments on
to the test, the number included. `getopt` lets options follow operands, as it does where
`POSIXLY_CORRECT` is not set, so that the number is the first operand that is left over.

The text of a value is read by `atoi`, which C defines for numbers that fit into an `int`. For others it
is here what the C library makes of them: `strtol` in a `long` of 64 bits, cut to an `int`. -/

namespace LinuxSamples.Getopt

open LinuxSamples.Options

abbrev Word := List UInt8

/-! ## The program -/

def byte (c : Char) : UInt8 := c.toNat.toUInt8

/-- What the option string says about a letter: `strchr`, and the colon behind it. -/
def takes (optstring : Word) (c : UInt8) : Option Bool :=
  if c = byte ':' then none
  else
    match optstring.dropWhile (· ≠ c) with
    | [] => none
    | _ :: rest => some (rest.head? = some (byte ':'))

def optstring (s : String) : Word := s.toList.map byte

/-- `isspace`. -/
def isspace (b : UInt8) : Bool := b = 32 ∨ 9 ≤ b ∧ b ≤ 13

def isdigit (b : UInt8) : Bool := 48 ≤ b ∧ b ≤ 57

/-- `isprint`. -/
def isprint (b : UInt8) : Bool := 32 ≤ b ∧ b ≤ 126

/-- The number that a word begins with. -/
def number (w : Word) : Nat := (w.takeWhile isdigit).foldl (fun n b => 10 * n + (b.toNat - 48)) 0

/-- `strtol`, in base 10: the nearest `long` to the number. -/
def strtol (w : Word) : Int :=
  match w.dropWhile isspace with
  | [] => 0
  | b :: rest =>
      if b = byte '-' then max (-2 ^ 63) (- (number rest : Int))
      else if b = byte '+' then min (2 ^ 63 - 1) (number rest)
      else min (2 ^ 63 - 1) (number (b :: rest))

/-- `atoi`: a `long` is cut to an `int`. -/
def atoi (w : Word) : Int := (strtol w).bmod (2 ^ 32)

/-- A line of the standard output. -/
inductive Line
  /-- `start test 1:` -/
  | test (n : Nat)
  /-- `flags = ...; tfnd = ...; nsec = ...; optind = ...` -/
  | flags (flags tfnd : Nat) (nsecs : Int) (optind : Nat)
  /-- `name argument = ...` -/
  | name (w : Word)
  /-- `argc: ...` -/
  | argc (n : Nat)
  /-- `Option: ..., argument: ...`, or without an argument. -/
  | option (c : UInt8) (optarg : Option Word)
  /-- `aflag = ..., bflag = ..., cvalue = ...` -/
  | settings (aflag bflag : Nat) (cvalue : Option Word)
  /-- `index: ..., Non-option argument: ...` -/
  | operand (index : Nat) (w : Word)
  deriving DecidableEq, Repr

/-- A line of the standard error. -/
inductive Message
  /-- `getopt`: `invalid option -- ...` -/
  | invalid (c : UInt8)
  /-- `getopt`: `option requires an argument -- ...` -/
  | requires (c : UInt8)
  /-- `Usage: ... [-t nsecs] [-n] name` -/
  | usage (argv0 : Word)
  /-- `Expected argument after options` -/
  | expected
  /-- `Option -... requires an argument.` -/
  | optionRequires (optopt : UInt8)
  /-- `Unknown option '-...'.` -/
  | unknownOption (optopt : UInt8)
  /-- `Unknown option character '\x...'.` -/
  | unknownCharacter (optopt : UInt8)
  /-- `the number of params must be greater than or equal to 2` -/
  | params
  /-- `params error` -/
  | paramsError
  deriving DecidableEq, Repr

structure Result where
  stdout : List Line
  stderr : List Message
  status : Nat
  deriving DecidableEq, Repr

/-- The variables of `test1`. -/
structure Vars1 where
  flags : Nat
  nsecs : Int
  tfnd : Nat

/-- `"nt:"`. -/
def syntax1 : Syntax UInt8 := ⟨byte '-', takes (optstring "nt:"), by decide, true⟩

/-- The `switch` of `test1`; what `getopt` has written when it does not return a letter of an option. -/
def switch1 (v : Vars1) : Event UInt8 × Nat → Except (List Message) Vars1
  | (.flag c, _) => if c = byte 'n' then .ok { v with flags := 1 } else .error []
  | (.value c w, _) =>
      if c = byte 't' then .ok { v with nsecs := atoi w, tfnd := 1 } else .error []
  | (.unknown c, _) => .error [.invalid c]
  | (.missing c, _) => .error [.requires c]

def test1 (argv0 : Word) (args : List Word) : Result :=
  match syntax1.whileOptions switch1 (start args) ⟨0, 0, 0⟩ with
  | .error written => ⟨[], written ++ [.usage argv0], 1⟩
  | .ok (v, scan) =>
      let line := Line.flags v.flags v.tfnd v.nsecs scan.index
      -- `argv` from `optind` on
      match scan.operands ++ scan.rest with
      | [] => ⟨[line], [.expected], 1⟩
      | name :: _ => ⟨[line, .name name], [], 0⟩

/-- `"f:s:o:pw:h:z:t:d:a:b:?"`. -/
def syntax2 : Syntax UInt8 :=
  ⟨byte '-', takes (optstring "f:s:o:pw:h:z:t:d:a:b:?"), by decide, true⟩

/-- The body of the loop of `test2`; `getopt` returns `?` for what is wrong. -/
def body2 (r : Result) : Event UInt8 × Nat → Except Empty Result
  | (.flag c, _) => .ok { r with stdout := r.stdout ++ [.option c none] }
  | (.value c w, _) => .ok { r with stdout := r.stdout ++ [.option c (some w)] }
  | (.unknown c, _) => .ok { r with
      stdout := r.stdout ++ [.option (byte '?') none], stderr := r.stderr ++ [.invalid c] }
  | (.missing c, _) => .ok { r with
      stdout := r.stdout ++ [.option (byte '?') none], stderr := r.stderr ++ [.requires c] }

/-- The arguments that `test2` makes up. -/
def args2 : List Word := [optstring "-f", optstring "input.gmn", optstring "-output.jpg"]

def test2 : Result :=
  match syntax2.whileOptions body2 (start args2) ⟨[.argc (args2.length + 1)], [], 0⟩ with
  | .ok (r, _) => r

/-- The variables of `test3`. -/
structure Vars3 where
  aflag : Nat
  bflag : Nat
  cvalue : Option Word

/-- `"abc:"`. -/
def syntax3 : Syntax UInt8 := ⟨byte '-', takes (optstring "abc:"), by decide, true⟩

/-- What `test3` prints where `getopt` returns `?`. -/
def question (optopt : UInt8) : Message :=
  if optopt = byte 'c' then .optionRequires optopt
  else if isprint optopt then .unknownOption optopt
  else .unknownCharacter optopt

/-- The `switch` of `test3`; no letter but those of the options comes to its `abort`. -/
def switch3 (v : Vars3) : Event UInt8 × Nat → Except (Option Message) Vars3
  | (.flag c, _) =>
      if c = byte 'a' then .ok { v with aflag := 1 }
      else if c = byte 'b' then .ok { v with bflag := 1 }
      else .error none
  | (.value c w, _) => if c = byte 'c' then .ok { v with cvalue := some w } else .error none
  | (.unknown c, _) | (.missing c, _) => .error (some (question c))

/-- `for (index = optind; index < argc; ++index)`. -/
def listFrom (index : Nat) : List Word → List Line
  | [] => []
  | w :: words => .operand index w :: listFrom (index + 1) words

/-- The lines of `test3` and what it returns; `none` where it aborts. -/
def test3 (args : List Word) : Option Result :=
  match syntax3.whileOptions switch3 (start args) ⟨0, 0, none⟩ with
  | .error none => none
  | .error (some message) => some ⟨[], [message], 1⟩
  | .ok (v, scan) =>
      some ⟨.settings v.aflag v.bflag v.cvalue :: listFrom scan.index (scan.operands ++ scan.rest), [], 0⟩

/-- `main`, the exit status of which is 0 whatever `test3` returns. -/
def main (argv0 : Word) (args : List Word) : Option Result :=
  match args with
  | [] => some ⟨[], [.params], 255⟩
  | flag :: _ =>
      if atoi flag = 1 then
        let r := test1 argv0 args
        some { r with stdout := .test 1 :: r.stdout }
      else if atoi flag = 2 then
        some { test2 with stdout := .test 2 :: test2.stdout }
      else if atoi flag = 3 then
        (test3 args).map fun r => ⟨.test 3 :: r.stdout, r.stderr, 0⟩
      else some ⟨[], [.paramsError], 0⟩

/-! ## The letters of the options -/

/-- The letter of an option stands in the option string. -/
theorem mem_of_takes {o : Word} {c : UInt8} {b : Bool} (h : takes o c = some b) : c ∈ o := by
  by_contra hc
  have hdrop : o.dropWhile (· ≠ c) = [] := List.dropWhile_eq_nil_iff.2 fun d hd => by
    have hne : d ≠ c := fun hdc => hc (hdc ▸ hd)
    simpa using hne
  rw [takes, hdrop] at h
  split at h <;> cases h

/-- What the letters of the option string have, so far as they are options of one kind. -/
theorem of_takes (o : Word) (P : UInt8 → Prop) [DecidablePred P] {b : Bool}
    (hall : o.all (fun c => decide (takes o c = some b → P c)) = true) {c : UInt8}
    (h : takes o c = some b) : P c :=
  of_decide_eq_true (List.all_eq_true.1 hall c (mem_of_takes h)) h

theorem flag1 {c : UInt8} (h : syntax1.takes c = some false) : c = byte 'n' :=
  of_takes (optstring "nt:") (· = byte 'n') (by decide) h

theorem value1 {c : UInt8} (h : syntax1.takes c = some true) : c = byte 't' :=
  of_takes (optstring "nt:") (· = byte 't') (by decide) h

theorem flag3 {c : UInt8} (h : syntax3.takes c = some false) : c = byte 'a' ∨ c = byte 'b' :=
  of_takes (optstring "abc:") (fun c => c = byte 'a' ∨ c = byte 'b') (by decide) h

theorem value3 {c : UInt8} (h : syntax3.takes c = some true) : c = byte 'c' :=
  of_takes (optstring "abc:") (· = byte 'c') (by decide) h

/-! ## `test1` -/

/-- 1 where a flag was given. -/
def given (b : Bool) : Nat := if b then 1 else 0

/-- What an option does to the variables of `test1`. -/
def Vars1.step (v : Vars1) : Event UInt8 × Nat → Vars1
  | (.value _ w, _) => { v with nsecs := atoi w, tfnd := 1 }
  | _ => { v with flags := 1 }

theorem switch1_regular (v : Vars1) (e : Event UInt8 × Nat) (h : Regular syntax1 e.1) :
    switch1 v e = .ok (v.step e) := by
  obtain ⟨e, i⟩ := e
  rcases h with ⟨c, rfl, hc⟩ | ⟨c, w, rfl, hc⟩
  · rw [flag1 hc]
    rfl
  · rw [value1 hc]
    rfl

/-- The variables of `test1` after certain options: the last value counts. -/
def vars1 (es : List (Event UInt8 × Nat)) : Vars1 where
  flags := given (flagged (byte 'n') es)
  nsecs := ((lastValue (byte 't') es).map atoi).getD 0
  tfnd := given (lastValue (byte 't') es).isSome

theorem foldl_step1 {es : List (Event UInt8 × Nat)} (h : ∀ e ∈ es, Regular syntax1 e.1) :
    es.foldl Vars1.step ⟨0, 0, 0⟩ = vars1 es := by
  induction es using List.reverseRecOn with
  | nil => rfl
  | append_singleton es e ih =>
      have he := h e (List.mem_append_right _ List.mem_cons_self)
      rw [List.foldl_append, List.foldl_cons, List.foldl_nil, ih fun e he => h e (List.mem_append_left _ he)]
      obtain ⟨e, i⟩ := e
      rcases he with ⟨c, rfl, hc⟩ | ⟨c, w, rfl, hc⟩
      · obtain rfl := flag1 hc
        simp [vars1, Vars1.step, Event.isFlag, Event.valueOf, given]
      · obtain rfl := value1 hc
        simp [vars1, Vars1.step, Event.isFlag, Event.valueOf, given]

/-- The letter that is wrong. -/
def wrong : Bad UInt8 → UInt8
  | .unknown _ c _ _ | .missing _ c => c

/-- What `getopt` writes about it. -/
def complaint : Bad UInt8 → Message
  | .unknown _ c _ _ => .invalid c
  | .missing _ c => .requires c

/-- What `test1` makes of its arguments when they are well formed: `found` are the options, `index` is
    `optind`, and `operands` are left over. -/
def accepted1 (found : List (Event UInt8 × Nat)) (index : Nat) (operands : List Word) : Result :=
  let line := Line.flags (vars1 found).flags (vars1 found).tfnd (vars1 found).nsecs index
  match operands with
  | [] => ⟨[line], [.expected], 1⟩
  | name :: _ => ⟨[line, .name name], [], 0⟩

theorem test1_line (argv0 : Word) (line : Options.Line syntax1) :
    test1 argv0 line.words = accepted1 line.found line.index line.operands := by
  obtain ⟨final, hloop, hoperands, hindex⟩ := whileOptions_line switch1_regular line ⟨0, 0, 0⟩
  rw [foldl_step1 line.regular] at hloop
  simp only [test1, hloop, hoperands, hindex, accepted1]
  cases line.operands <;> rfl

theorem test1_bad (argv0 : Word) (line : BadLine syntax1) :
    test1 argv0 line.words = ⟨[], [complaint line.bad, .usage argv0], 1⟩ := by
  have hloop : syntax1.whileOptions switch1 (start line.words) ⟨0, 0, 0⟩
      = .error [complaint line.bad] :=
    whileOptions_bad switch1_regular line ⟨0, 0, 0⟩ (by cases line.bad <;> rfl)
  rw [test1, hloop]
  rfl

/-! ## `test3` -/

/-- What an option does to the variables of `test3`. -/
def Vars3.step (v : Vars3) : Event UInt8 × Nat → Vars3
  | (.flag c, _) => if c = byte 'a' then { v with aflag := 1 } else { v with bflag := 1 }
  | (.value _ w, _) => { v with cvalue := some w }
  | _ => v

theorem switch3_regular (v : Vars3) (e : Event UInt8 × Nat) (h : Regular syntax3 e.1) :
    switch3 v e = .ok (v.step e) := by
  obtain ⟨e, i⟩ := e
  rcases h with ⟨c, rfl, hc⟩ | ⟨c, w, rfl, hc⟩
  · rcases flag3 hc with rfl | rfl <;> rfl
  · rw [value3 hc]
    rfl

/-- The variables of `test3` after certain options. -/
def vars3 (es : List (Event UInt8 × Nat)) : Vars3 where
  aflag := given (flagged (byte 'a') es)
  bflag := given (flagged (byte 'b') es)
  cvalue := lastValue (byte 'c') es

theorem foldl_step3 {es : List (Event UInt8 × Nat)} (h : ∀ e ∈ es, Regular syntax3 e.1) :
    es.foldl Vars3.step ⟨0, 0, none⟩ = vars3 es := by
  induction es using List.reverseRecOn with
  | nil => rfl
  | append_singleton es e ih =>
      have he := h e (List.mem_append_right _ List.mem_cons_self)
      rw [List.foldl_append, List.foldl_cons, List.foldl_nil, ih fun e he => h e (List.mem_append_left _ he)]
      obtain ⟨e, i⟩ := e
      have hab : byte 'b' ≠ byte 'a' := by decide
      rcases he with ⟨c, rfl, hc⟩ | ⟨c, w, rfl, hc⟩
      · rcases flag3 hc with rfl | rfl
        · simp [vars3, Vars3.step, Event.isFlag, Event.valueOf, given, hab.symm]
        · simp [vars3, Vars3.step, Event.isFlag, Event.valueOf, given, hab]
      · obtain rfl := value3 hc
        simp [vars3, Vars3.step, Event.isFlag, Event.valueOf, given]

/-- What `test3` says about a wrong letter. -/
def answer : Bad UInt8 → Message
  | .unknown _ c _ _ => if isprint c then .unknownOption c else .unknownCharacter c
  | .missing _ c => .optionRequires c

theorem question_wrong {bad : Bad UInt8} (h : bad.Ok syntax3) : question (wrong bad) = answer bad := by
  cases bad with
  | unknown flags c cs rest =>
      have hc : c ≠ byte 'c' := by
        rintro rfl
        cases h.2.1
      rw [wrong, question, if_neg hc]
      rfl
  | missing flags c =>
      obtain rfl := value3 h.2
      rfl

/-- The lines of `test3` for arguments that are well formed. -/
def accepted3 (line : Options.Line syntax3) : List Line :=
  .settings (vars3 line.found).aflag (vars3 line.found).bflag (vars3 line.found).cvalue
    :: listFrom line.index line.operands

theorem test3_line (line : Options.Line syntax3) :
    test3 line.words = some ⟨accepted3 line, [], 0⟩ := by
  obtain ⟨final, hloop, hoperands, hindex⟩ := whileOptions_line switch3_regular line ⟨0, 0, none⟩
  rw [foldl_step3 line.regular] at hloop
  simp only [test3, hloop, hoperands, hindex, accepted3]

theorem test3_bad (line : BadLine syntax3) :
    test3 line.words = some ⟨[], [answer line.bad], 1⟩ := by
  have hloop : syntax3.whileOptions switch3 (start line.words) ⟨0, 0, none⟩
      = .error (some (answer line.bad)) := by
    refine whileOptions_bad switch3_regular line ⟨0, 0, none⟩ ?_
    rw [← question_wrong line.bad_ok]
    cases line.bad <;> rfl
  rw [test3, hloop]

/-- **`test3` reads every command line, and reads it in one way.** Arguments that are well formed, with
    flags in any words, values attached or not, and operands in between, give the settings and the
    operands they are made of. Any other arguments give a message about the first letter that is wrong.
    There are no others, and the `abort` of the `switch` is never reached. -/
theorem test3_reads :
    (∀ line : Options.Line syntax3, test3 line.words = some ⟨accepted3 line, [], 0⟩) ∧
    (∀ line : BadLine syntax3, test3 line.words = some ⟨[], [answer line.bad], 1⟩) ∧
    (∀ args, Classified syntax3 args) ∧ ∀ args, (test3 args).isSome := by
  refine ⟨test3_line, test3_bad, classify, fun args => ?_⟩
  have hclassified : Classified syntax3 args := classify args
  rcases hclassified with ⟨line, rfl⟩ | ⟨line, rfl⟩
  · rw [test3_line]
    rfl
  · rw [test3_bad]
    rfl

/-! ## `main` -/

/-- A number that is not negative does not look like an option. -/
theorem not_isOption_of_strtol {syn : Syntax UInt8} (hdash : syn.dash = byte '-') {w : Word}
    (h : 0 < strtol w) : ¬ syn.isOption w := by
  intro hoption
  obtain ⟨c, cs, rfl⟩ := syn.isOption_iff.1 hoption
  rw [hdash, strtol] at h
  have hspace : (byte '-' :: c :: cs).dropWhile isspace = byte '-' :: c :: cs := rfl
  rw [hspace] at h
  simp only [if_true] at h
  omega

/-- The number of the test in front of the other arguments. -/
theorem operand_ok {syn : Syntax UInt8} (hdash : syn.dash = byte '-') (hpermutes : syn.permutes = true)
    {w : Word} (h : 0 < strtol w) : (Item.operand w).Ok syn :=
  ⟨hpermutes, not_isOption_of_strtol hdash h⟩

/-- **`test1` never asks for a name, and never gets one.** Whatever follows the number of the test, the
    `name` that is printed is that number, and `optind` is less than `argc`; otherwise the first wrong
    letter is reported, and the exit status is 1. Only a number that is negative, as `-4294967295`, which
    is cut to 1, would be an option itself. -/
theorem name_is_the_number {flag : Word} (h : atoi flag = 1) (hpos : 0 < strtol flag) (argv0 : Word) :
    (∀ line : Options.Line syntax1, main argv0 (flag :: line.words) = some
      ⟨[.test 1, .flags (vars1 line.found).flags (vars1 line.found).tfnd (vars1 line.found).nsecs
        line.index, .name flag], [], 0⟩) ∧
    (∀ line : BadLine syntax1, main argv0 (flag :: line.words) = some
      ⟨[.test 1], [complaint line.bad, .usage argv0], 1⟩) ∧
    ∀ args, Classified syntax1 args := by
  have hitem : (Item.operand flag).Ok syntax1 := operand_ok rfl rfl hpos
  have hmain : ∀ args, main argv0 (flag :: args)
      = some { test1 argv0 (flag :: args) with
          stdout := .test 1 :: (test1 argv0 (flag :: args)).stdout } := fun args => by
    simp only [main, if_pos h]
  refine ⟨fun line => ?_, fun line => ?_, classify⟩
  · rw [hmain]
    have hwords : flag :: line.words = (line.cons _ hitem).words :=
      (Options.Line.cons_words hitem line).symm
    rw [hwords, test1_line]
    rfl
  · rw [hmain]
    have hwords : flag :: line.words = (line.cons _ hitem).words :=
      (BadLine.cons_words hitem line).symm
    rw [hwords, test1_bad]
    rfl

/-- The call `test_sample_getopt 1 -t 999 -n Jim` of `run_getopt.sh`. -/
theorem name_is_the_number_jim :
    main (optstring "test_sample_getopt")
      [optstring "1", optstring "-t", optstring "999", optstring "-n", optstring "Jim"]
      = some ⟨[.test 1, .flags 1 1 999 4, .name (optstring "1")], [], 0⟩ := by
  let items : List (Item UInt8) :=
    [.options [] (byte 't') (.separate (optstring "999")), .options [] (byte 'n') .none,
      .operand (optstring "Jim")]
  have hitems : ∀ item ∈ items, item.Ok syntax1 := by
    intro item hitem
    simp only [items, List.mem_cons, List.not_mem_nil, or_false] at hitem
    rcases hitem with rfl | rfl | rfl
    · exact ⟨by simp, rfl⟩
    · exact ⟨by simp, rfl⟩
    · exact ⟨rfl, by decide⟩
  have hone : atoi (optstring "1") = 1 := by decide
  have hpos : 0 < strtol (optstring "1") := by decide
  exact (name_is_the_number hone hpos (optstring "test_sample_getopt")).1
    ⟨items, Ending.none, hitems, trivial⟩

end LinuxSamples.Getopt
