import LinuxSamples.Text.LongOptions
import LinuxSamples.Arguments.Getopt

set_option autoImplicit false

/-! # The options of the getopt_long sample

`sample_getopt_long.cpp` prints what each call of `getopt_long` returns, and the operands at the end. It
also says when digits occur in different arguments, for which it remembers the `optind` before the call.
But operands in front of an argument are skipped by the call itself: `optind` before the first call about
an argument may still be that of an operand, and then two digits of one argument are taken for digits of
different ones.

`optarg` is not null where a value is required. -/

namespace LinuxSamples.GetoptLong

open LinuxSamples.LongOptions
open LinuxSamples.Getopt (Word byte takes optstring)

/-! ## The program -/

/-- A line of the standard output. -/
inductive Line
  /-- `long option "..." value: ...` -/
  | longValue (name : Word) (optarg : Option Word)
  /-- `long option "..."` -/
  | long (name : Word)
  /-- `digits occur in two different argv elements.` -/
  | different
  /-- `option ...` -/
  | option (c : UInt8)
  /-- `option ... with value '...'` -/
  | value (c : UInt8) (optarg : Option Word)
  /-- `?? getopt returned character code 0... ??` -/
  | character (c : UInt8)
  /-- `non-option argv elements: ...` -/
  | elements (words : List Word)
  deriving DecidableEq, Repr

/-- What `getopt_long` writes to the standard error. -/
inductive Message
  /-- `option '--...' is ambiguous` -/
  | ambiguous (body : Word)
  /-- `unrecognized option '--...'` -/
  | unrecognized (body : Word)
  /-- `option '--...' doesn't allow an argument` -/
  | excess (name : Word)
  /-- `option '--...' requires an argument` -/
  | required (name : Word)
  /-- `invalid option -- '...'` -/
  | invalid (c : UInt8)
  /-- `option requires an argument -- '...'` -/
  | requires (c : UInt8)
  deriving DecidableEq, Repr

structure Result where
  stdout : List Line
  stderr : List Message
  status : Nat
  deriving DecidableEq, Repr

def long_options : List (LongOption UInt8) :=
  [⟨optstring "add", true, none⟩, ⟨optstring "append", false, none⟩,
    ⟨optstring "delete", true, none⟩, ⟨optstring "verbose", false, none⟩,
    ⟨optstring "create", true, some (byte 'c')⟩, ⟨optstring "file", true, none⟩]

/-- `"abc:d:012"` and the names. -/
def longSyntax : LongSyntax UInt8 where
  dash := byte '-'
  takes := takes (optstring "abc:d:012")
  dash_none := by decide
  permutes := true
  equals := byte '='
  options := long_options

/-- The variables of `main`, and what has been written. -/
structure Vars where
  digit_optind : Nat
  stdout : List Line
  stderr : List Message

def Vars.print (v : Vars) (lines : List Line) : Vars := { v with stdout := v.stdout ++ lines }

/-- `case 0`. -/
def case0 (o : LongOption UInt8) (optarg : Option Word) : List Line :=
  if o.name = optstring "add" then [.longValue (optstring "add") optarg]
  else if o.name = optstring "append" then [.long (optstring "append")]
  else if o.name = optstring "delete" then [.longValue (optstring "delete") optarg]
  else if o.name = optstring "create" then [.longValue (optstring "create") optarg]
  else if o.name = optstring "verbose" then [.long (optstring "verbose")]
  else if o.name = optstring "file" then [.longValue (optstring "file") optarg]
  else []

def isDigit (c : UInt8) : Bool := c = byte '0' ∨ c = byte '1' ∨ c = byte '2'

/-- The cases of the letters. -/
def letterLines (c : UInt8) (optarg : Option Word) : List Line :=
  if c = byte 'a' then [.option c]
  else if c = byte 'b' then [.option c]
  else if c = byte 'c' then [.value c optarg]
  else if c = byte 'd' then [.value c optarg]
  else if c = byte '?' then []
  else [.character c]

/-- All cases of the `switch` but the first. -/
def switch (this_option_optind : Nat) (c : UInt8) (optarg : Option Word) (v : Vars) : Vars :=
  if isDigit c then
    let v :=
      if v.digit_optind ≠ 0 ∧ v.digit_optind ≠ this_option_optind then v.print [.different] else v
    { v.print [.option c] with digit_optind := this_option_optind }
  else v.print (letterLines c optarg)

/-- What `getopt_long` returns, 0 for `none`, with `optarg`. -/
def returned : Event UInt8 → Option UInt8 × Option Word
  | .letter (.flag c) => (some c, none)
  | .letter (.value c w) => (some c, some w)
  | .long o optarg => (o.val, optarg)
  | _ => (some (byte '?'), none)

/-- What it writes. -/
def complaint : Event UInt8 → List Message
  | .letter (.unknown c) => [.invalid c]
  | .letter (.missing c) => [.requires c]
  | .ambiguous body => [.ambiguous body]
  | .unrecognized body => [.unrecognized body]
  | .excess o => [.excess o.name]
  | .required o => [.required o.name]
  | _ => []

/-- The body of the loop, with `optind` before the call. -/
def body (v : Vars) (call : Nat × Event UInt8) : Vars :=
  let this_option_optind := if call.1 ≠ 0 then call.1 else 1
  let v := { v with stderr := v.stderr ++ complaint call.2 }
  match call.2, returned call.2 with
  | .long o _, (none, optarg) => v.print (case0 o optarg)
  | _, (some c, optarg) => switch this_option_optind c optarg v
  | _, (none, _) => v

def main (args : List Word) : Result :=
  let calls := longSyntax.calls ⟨[], [], [], args⟩
  let v := calls.1.foldl body ⟨0, [], []⟩
  let elements := calls.2.operands ++ calls.2.rest
  ⟨v.stdout ++ if elements = [] then [] else [.elements elements], v.stderr, 0⟩

/-! ## One call -/

/-- What is printed about an option, digits in different arguments apart. -/
def lineOf (e : Event UInt8) : List Line :=
  match e, returned e with
  | .long o _, (none, optarg) => case0 o optarg
  | _, (some c, optarg) => if isDigit c then [.option c] else letterLines c optarg
  | _, (none, _) => []

def digit (e : Event UInt8) : Bool := (returned e).1.any isDigit

theorem body_eq (v : Vars) {before : Nat} (h : before ≠ 0) (e : Event UInt8) :
    body v (before, e) =
      ⟨if digit e then before else v.digit_optind,
        v.stdout ++ (if digit e ∧ v.digit_optind ≠ 0 ∧ v.digit_optind ≠ before then [.different] else [])
          ++ lineOf e,
        v.stderr ++ complaint e⟩ := by
  have hswitch : ∀ (c : UInt8) (optarg : Option Word) (v : Vars), switch before c optarg v =
      ⟨if isDigit c then before else v.digit_optind,
        v.stdout ++ (if isDigit c ∧ v.digit_optind ≠ 0 ∧ v.digit_optind ≠ before then [.different]
          else []) ++ (if isDigit c then [.option c] else letterLines c optarg),
        v.stderr⟩ := by
    intro c optarg v
    unfold switch
    by_cases hdigit : isDigit c = true
    · simp only [hdigit, if_true, true_and]
      split <;> simp [Vars.print]
    · simp [hdigit, Vars.print]
  rw [body]
  simp only [if_pos h]
  cases e with
  | letter e => cases e <;> exact hswitch ..
  | ambiguous body | unrecognized body | excess o | required o => exact hswitch ..
  | long o optarg =>
      obtain ⟨name, takes, val⟩ := o
      cases val with
      | some c => exact hswitch ..
      | none => simp [returned, lineOf, digit, Vars.print]

/-! ## All calls -/

/-- The calls are about different arguments, or the first one has skipped operands. -/
def Parted (c d : Call UInt8) : Prop := c.element ≠ d.element ∨ c.first = true ∧ 0 < c.skipped

instance (c d : Call UInt8) : Decidable (Parted c d) := inferInstanceAs (Decidable (_ ∨ _))

/-- What is printed about digits in different arguments, where `last` was the last digit. -/
def warning (last : Option (Call UInt8)) (c : Call UInt8) : List Line :=
  match last with
  | some d => if digit c.event ∧ Parted d c then [.different] else []
  | none => []

/-- The lines about options. -/
def lines (last : Option (Call UInt8)) : List (Call UInt8) → List Line
  | [] => []
  | c :: cs => warning last c ++ lineOf c.event ++ lines (if digit c.event then some c else last) cs

/-- The variable holds the `optind` before the call about the last digit. -/
def Remembers (v : Vars) (last : Option (Call UInt8)) : Prop :=
  v.digit_optind = (last.map Call.before).getD 0

theorem foldl_body {cs : List (Call UInt8)} (hprecedes : cs.Pairwise Call.Precedes)
    (hskipped : ∀ c ∈ cs, c.skipped < c.element) {last : Option (Call UInt8)}
    (hlast : ∀ d ∈ last, d.skipped < d.element ∧ ∀ c ∈ cs, d.Precedes c) {v : Vars}
    (hv : Remembers v last) :
    ∃ digit_optind, (cs.map fun c => (c.before, c.event)).foldl body v
      = ⟨digit_optind, v.stdout ++ lines last cs, v.stderr ++ cs.flatMap fun c => complaint c.event⟩ := by
  induction cs generalizing last v with
  | nil =>
      refine ⟨v.digit_optind, ?_⟩
      simp [lines]
  | cons c cs ih =>
      obtain ⟨hafter, hprecedes⟩ := List.pairwise_cons.1 hprecedes
      obtain ⟨hc, hskipped⟩ := List.forall_mem_cons.1 hskipped
      have hbefore : ∀ d : Call UInt8, d.skipped < d.element → d.before ≠ 0 := by
        intro d hd
        unfold Call.before
        split <;> omega
      have hwarning : (if digit c.event ∧ v.digit_optind ≠ 0 ∧ v.digit_optind ≠ c.before then [.different]
          else []) = warning last c := by
        rw [hv]
        cases last with
        | none => simp [warning]
        | some d =>
            obtain ⟨hd, hd'⟩ := hlast d rfl
            have hne := (hd' c List.mem_cons_self).before_ne hd
            simp only [warning, Option.map_some, Option.getD_some, ne_eq, hbefore d hd, not_false_eq_true,
              true_and]
            refine if_congr (and_congr_right fun _ => hne) rfl rfl
      have hlast' : ∀ d ∈ (if digit c.event then some c else last),
          d.skipped < d.element ∧ ∀ c ∈ cs, d.Precedes c := by
        intro d hd
        split at hd
        · obtain rfl := Option.some.inj hd
          exact ⟨hc, hafter⟩
        · exact ⟨(hlast d hd).1, fun c hc => (hlast d hd).2 c (List.mem_cons_of_mem _ hc)⟩
      have hv' : Remembers ⟨if digit c.event then c.before else v.digit_optind,
          v.stdout ++ warning last c ++ lineOf c.event, v.stderr ++ complaint c.event⟩
            (if digit c.event then some c else last) := by
        unfold Remembers
        split
        · rfl
        · exact hv
      rw [List.map_cons, List.foldl_cons, body_eq v (hbefore c hc), hwarning]
      obtain ⟨digit_optind, hfold⟩ := ih hprecedes hskipped hlast' hv'
      refine ⟨digit_optind, ?_⟩
      rw [hfold]
      simp [lines]

theorem mem_lines {line : Line} {last : Option (Call UInt8)} {cs : List (Call UInt8)}
    (h : line ∈ lines last cs) : line = .different ∨ ∃ c ∈ cs, line ∈ lineOf c.event := by
  induction cs generalizing last with
  | nil => cases h
  | cons c cs ih =>
      rw [lines, List.append_assoc, List.mem_append, List.mem_append] at h
      rcases h with h | h | h
      · unfold warning at h
        split at h
        · split at h
          · exact Or.inl (List.mem_singleton.1 h)
          · cases h
        · cases h
      · exact Or.inr ⟨c, List.mem_cons_self, h⟩
      · exact (ih h).imp_right fun ⟨d, hd, hline⟩ => ⟨d, List.mem_cons_of_mem _ hd, hline⟩

/-- The line is of a case of the `switch` that no call comes to. -/
def Unreached : Line → Prop
  | .character _ => True
  | .longValue name _ => name = optstring "create"
  | _ => False

theorem letterLines_flag {c : UInt8} (h : longSyntax.takes c = some false) :
    isDigit c = true ∨ letterLines c none = [.option c] :=
  Getopt.of_takes (optstring "abc:d:012")
    (fun c => isDigit c = true ∨ letterLines c none = [.option c]) (by decide) h

theorem letterLines_value {c : UInt8} (h : longSyntax.takes c = some true) (w : Word) :
    isDigit c = false ∧ letterLines c (some w) = [.value c (some w)] := by
  have hc : c = byte 'c' ∨ c = byte 'd' :=
    Getopt.of_takes (optstring "abc:d:012") (fun c => c = byte 'c' ∨ c = byte 'd') (by decide) h
  rcases hc with rfl | rfl <;> exact ⟨rfl, rfl⟩

theorem lineOf_reached {e : Event UInt8} (h : longSyntax.Known e) :
    ∀ line ∈ lineOf e, ¬ Unreached line := by
  cases e with
  | letter e =>
      cases e with
      | flag c =>
          have hline : lineOf (.letter (.flag c)) = [.option c] := by
            rcases letterLines_flag h with hc | hc <;> simp [lineOf, returned, hc]
          rw [hline]
          simp [Unreached]
      | value c w =>
          have hline : lineOf (.letter (.value c w)) = [.value c (some w)] := by
            simp [lineOf, returned, letterLines_value h w]
          rw [hline]
          simp [Unreached]
      | unknown c | missing c => exact fun line hline => absurd hline List.not_mem_nil
  | ambiguous body | unrecognized body | excess o | required o =>
      exact fun line hline => absurd hline List.not_mem_nil
  | long o optarg =>
      have ho := h.1
      simp only [longSyntax, long_options, List.mem_cons, List.not_mem_nil, or_false] at ho
      -- the option of `create` returns a letter
      rcases ho with rfl | rfl | rfl | rfl | rfl | rfl <;> intro line hline <;>
        obtain rfl := List.mem_singleton.1 hline <;> simp [Unreached] <;> decide

/-! ## The program as a whole -/

/-- What is written, word by word. -/
def written (args : List Word) : Result :=
  let r := longSyntax.reading 1 0 args
  ⟨lines none r.1 ++ if r.2 = [] then [] else [.elements r.2],
    r.1.flatMap fun c => complaint c.event, 0⟩

theorem main_eq (args : List Word) : main args = written args := by
  obtain ⟨final, hcalls, hoperands⟩ := longSyntax.calls_eq rfl [] [] [] args (by simp)
  have hskipped : ∀ c ∈ (longSyntax.reading 1 0 args).1, c.skipped < c.element := fun c hc => by
    have hle := longSyntax.reading_behind hc
    omega
  have hlast : ∀ d ∈ (none : Option (Call UInt8)), d.skipped < d.element ∧
      ∀ c ∈ (longSyntax.reading 1 0 args).1, d.Precedes c := by simp
  have hstart : Remembers ⟨0, [], []⟩ none := rfl
  obtain ⟨digit_optind, hfold⟩ :=
    foldl_body (longSyntax.reading_precedes 1 0 args) hskipped hlast hstart
  simp only [List.nil_append, List.length_nil, Nat.zero_add] at hcalls hoperands
  simp only [main, hcalls, hfold, hoperands, written, List.nil_append]

/-- Every beginning of a name will do that is not empty, but `a` begins two of them. -/
theorem lookup_iff (name : Word) (o : LongOption UInt8) : lookup long_options name = .found o ↔
    o ∈ long_options ∧ name <+: o.name ∧ name ≠ [] ∧ name ≠ optstring "a" := by
  constructor
  · intro h
    obtain ⟨hoption, hprefix⟩ := lookup_found h
    refine ⟨hoption, hprefix, ?_, ?_⟩ <;> rintro rfl <;> cases h
  · rintro ⟨hoption, hprefix, hne, ha⟩
    have hall : ∀ o ∈ long_options, ∀ n ∈ List.range (o.name.length + 1), o.name.take n ≠ [] →
        o.name.take n ≠ optstring "a" → lookup long_options (o.name.take n) = .found o := by decide
    rw [List.prefix_iff_eq_take.1 hprefix] at hne ha ⊢
    exact hall o hoption _ (List.mem_range.2 (Nat.lt_succ_of_le hprefix.length_le)) hne ha

/-- **The options are read word by word**: what is printed about each, and when two digits are said to
    occur in different arguments. They are in different ones, or else operands were skipped for the first
    of them. No other case of the `switch` is reached, and names may be shortened, but not to `a`. -/
theorem getopt_long_reads (args : List Word) : main args = written args ∧
    (∀ line ∈ (main args).stdout, ¬ Unreached line) ∧
    ∀ name o, lookup long_options name = .found o ↔
      o ∈ long_options ∧ name <+: o.name ∧ name ≠ [] ∧ name ≠ optstring "a" := by
  refine ⟨main_eq args, ?_, lookup_iff⟩
  rw [main_eq, written]
  intro line hline
  rcases List.mem_append.1 hline with hline | hline
  · rcases mem_lines hline with rfl | ⟨c, hc, hline⟩
    · exact id
    · exact lineOf_reached (longSyntax.reading_known 1 0 args c hc) line hline
  · split at hline
    · cases hline
    · obtain rfl := List.mem_singleton.1 hline
      exact id

/-- Both digits are in one argument, behind an operand. -/
example : (main [optstring "x", optstring "-01"]).stdout
    = [.option (byte '0'), .different, .option (byte '1'), .elements [optstring "x"]] := by
  have hx : ¬ longSyntax.isOption (optstring "x") := by decide
  rw [main_eq, written, longSyntax.reading_operand hx,
    longSyntax.reading_option (show longSyntax.isOption (optstring "-01") by decide) (by decide)]
  simp only [List.take_nil, List.drop_nil, LongSyntax.reading_nil]
  decide

end LinuxSamples.GetoptLong
