import Mathlib.Algebra.GroupWithZero.Nat
import Mathlib.Data.List.Basic
import Mathlib.Data.List.TakeWhile
import Mathlib.Tactic.Common

set_option autoImplicit false

/-! # Options of a command

The words of a command line are scanned letter by letter, in the way of `getopt`: `next` is one call of
it, and `run` the calls of it until the end. A word that begins with a dash holds letters of options; a
letter that takes a value takes the rest of its word, or the next word. The word of two dashes ends the
options. Words of another kind are operands; whether options may follow an operand is a part of the
syntax.

A `Line` is a command line that is well formed, and a `Bad` word is what is wrong with one that is not.
Every list of words is one of the two (`classify`), and what is scanned of it can be read off
(`run_line`, `run_bad`). -/

namespace LinuxSamples.Options

variable {α : Type}

/-! ## Scanning -/

structure Syntax (α : Type) where
  dash : α
  /-- Whether a letter takes a value, if it is one of an option. -/
  takes : α → Option Bool
  dash_none : takes dash = none
  /-- Options may follow operands. -/
  permutes : Bool

/-- What a call of `getopt` finds. -/
inductive Event (α : Type)
  | flag (c : α)
  | value (c : α) (v : List α)
  | unknown (c : α)
  /-- The value of the option is not there. -/
  | missing (c : α)

/-- `letters` are those left of the word that is scanned, which is then the first one of `rest`. -/
structure Scan (α : Type) where
  scanned : List (List α)
  operands : List (List α)
  letters : List α
  rest : List (List α)

/-- `optind`, where the words begin at index 1. -/
def Scan.index (s : Scan α) : Nat := s.scanned.length + 1

/-- `letters` of the word are left. -/
def leave (scanned operands : List (List α)) (letters w : List α) (rest : List (List α)) : Scan α :=
  match letters with
  | [] => ⟨scanned ++ [w], operands, [], rest⟩
  | c :: cs => ⟨scanned, operands, c :: cs, w :: rest⟩

namespace Syntax

variable (syn : Syntax α)

/-- The letter `c` of a word, with those after it and the words after that. -/
def letter (scanned operands : List (List α)) (c : α) (cs w : List α) (rest : List (List α)) :
    Event α × Scan α :=
  match syn.takes c with
  | none => (.unknown c, leave scanned operands cs w rest)
  | some false => (.flag c, leave scanned operands cs w rest)
  | some true =>
      match cs, rest with
      | c' :: cs', rest => (.value c (c' :: cs'), leave scanned operands [] w rest)
      | [], v :: rest => (.value c v, ⟨scanned ++ [w, v], operands, [], rest⟩)
      | [], [] => (.missing c, leave scanned operands [] w [])

variable [DecidableEq α]

/-- A word with letters of options, or the word of two dashes. -/
def isOption : List α → Bool
  | d :: _ :: _ => d = syn.dash
  | _ => false

/-- The operands that are skipped, and the words from the next option on. -/
def skip (words : List (List α)) : List (List α) × List (List α) :=
  if syn.permutes then (words.takeWhile (!syn.isOption ·), words.dropWhile (!syn.isOption ·))
  else ([], words)

/-- What begins with the next word. -/
def word (scanned operands : List (List α)) : List (List α) → Option (Event α) × Scan α
  | [] => (none, ⟨scanned, operands, [], []⟩)
  | w :: rest =>
      if syn.isOption w then
        match w with
        | _ :: c :: cs =>
            if c = syn.dash ∧ cs = [] then (none, ⟨scanned ++ [w], operands, [], rest⟩)
            else (syn.letter scanned operands c cs w rest).map some id
        | _ => (none, ⟨scanned, operands, [], w :: rest⟩)
      else (none, ⟨scanned, operands, [], w :: rest⟩)

/-- A call of `getopt`; nothing is found at the end of the options. -/
def next (s : Scan α) : Option (Event α) × Scan α :=
  match s.letters, s.rest with
  | c :: cs, w :: rest => (syn.letter s.scanned s.operands c cs w rest).map some id
  | _, words => syn.word s.scanned (s.operands ++ (syn.skip words).1) (syn.skip words).2

end Syntax

/-- How many letters are left, those of operands included. -/
def Scan.left (s : Scan α) : Nat :=
  match s.letters, s.rest with
  | c :: cs, _ :: rest => (c :: cs).length + (rest.map List.length).sum
  | _, words => (words.map List.length).sum

namespace Syntax

variable (syn : Syntax α)

variable {scanned operands : List (List α)} {s s' : Scan α} {e : Event α}

theorem leave_left (cs w : List α) (rest : List (List α)) :
    (leave scanned operands cs w rest).left = cs.length + (rest.map List.length).sum := by
  cases cs <;> simp [leave, Scan.left]

theorem letter_left (c : α) (cs w : List α) (rest : List (List α)) :
    (syn.letter scanned operands c cs w rest).2.left
      ≤ cs.length + (rest.map List.length).sum := by
  unfold letter
  split
  · exact Nat.le_of_eq (leave_left ..)
  · exact Nat.le_of_eq (leave_left ..)
  · split
    · rw [leave_left]
      simp
    · simp [Scan.left]
    · rw [leave_left]

variable [DecidableEq α]

theorem skip_left (words : List (List α)) :
    ((syn.skip words).2.map List.length).sum ≤ (words.map List.length).sum := by
  unfold skip
  split
  · conv_rhs => rw [← List.takeWhile_append_dropWhile (p := (!syn.isOption ·)) (l := words)]
    rw [List.map_append, List.sum_append]
    exact Nat.le_add_left _ _
  · exact Nat.le_refl _

theorem isOption_iff {w : List α} : syn.isOption w ↔ ∃ c cs, w = syn.dash :: c :: cs := by
  constructor
  · intro h
    match w, h with
    | d :: c :: cs, h => exact ⟨c, cs, by rw [of_decide_eq_true h]⟩
  · rintro ⟨c, cs, rfl⟩
    exact decide_eq_true rfl

section Words

variable {w : List α} {rest : List (List α)}

theorem word_operand (h : ¬ syn.isOption w) :
    syn.word scanned operands (w :: rest) = (none, ⟨scanned, operands, [], w :: rest⟩) := by
  unfold word
  exact if_neg h

theorem word_end : syn.word scanned operands ([syn.dash, syn.dash] :: rest)
    = (none, ⟨scanned ++ [[syn.dash, syn.dash]], operands, [], rest⟩) := by
  rw [word, if_pos (syn.isOption_iff.2 ⟨_, _, rfl⟩)]
  simp

theorem word_letters {c : α} {cs : List α} (h : ¬ (c = syn.dash ∧ cs = [])) :
    syn.word scanned operands ((syn.dash :: c :: cs) :: rest)
      = (syn.letter scanned operands c cs (syn.dash :: c :: cs) rest).map some id := by
  rw [word, if_pos (syn.isOption_iff.2 ⟨_, _, rfl⟩)]
  simp only [if_neg h]

end Words

theorem word_left {words : List (List α)} (h : syn.word scanned operands words = (some e, s')) :
    s'.left < (words.map List.length).sum := by
  cases words with
  | nil => cases h
  | cons w rest =>
      by_cases hoption : syn.isOption w
      · obtain ⟨c, cs, rfl⟩ := syn.isOption_iff.1 hoption
        by_cases hend : c = syn.dash ∧ cs = []
        · obtain ⟨rfl, rfl⟩ := hend
          rw [word_end] at h
          cases h
        · rw [word_letters _ hend] at h
          have hs' : (syn.letter scanned operands c cs (syn.dash :: c :: cs) rest).2 = s' :=
            congrArg Prod.snd h
          have hle := hs' ▸ syn.letter_left c cs (syn.dash :: c :: cs) rest
          simp only [List.map_cons, List.sum_cons, List.length_cons]
          omega
      · rw [word_operand _ hoption] at h
        cases h

/-- A call at the beginning of a word. -/
theorem next_word (hletters : s.letters = []) :
    syn.next s
      = syn.word s.scanned (s.operands ++ (syn.skip s.rest).1) (syn.skip s.rest).2 := by
  rw [next]
  split
  · next h _ => simp [hletters] at h
  · rfl

/-- A call inside a word. -/
theorem next_letters {c : α} {cs w : List α} {rest : List (List α)} (hletters : s.letters = c :: cs)
    (hrest : s.rest = w :: rest) :
    syn.next s = (syn.letter s.scanned s.operands c cs w rest).map some id := by
  simp only [next, hletters, hrest]

/-- Every event takes letters from what is left. -/
theorem next_left (h : syn.next s = (some e, s')) : s'.left < s.left := by
  have hskip := syn.skip_left s.rest
  cases hletters : s.letters with
  | nil =>
      rw [syn.next_word hletters] at h
      have hlt := syn.word_left h
      have hleft : s.left = (s.rest.map List.length).sum := by
        unfold Scan.left
        rw [hletters]
      omega
  | cons c cs =>
      cases hrest : s.rest with
      | nil => simp [next, hletters, hrest, skip, word] at h
      | cons w rest =>
          rw [syn.next_letters hletters hrest] at h
          have hs' : (syn.letter s.scanned s.operands c cs w rest).2 = s' := congrArg Prod.snd h
          have hle := hs' ▸ syn.letter_left c cs w rest
          have hleft : s.left = (c :: cs).length + (rest.map List.length).sum := by
            unfold Scan.left
            rw [hletters, hrest]
          rw [hleft, List.length_cons]
          omega

/-- The calls of `getopt` until the end: what each finds, with `optind` after it, and where the scan
    ends. -/
def run (s : Scan α) : List (Event α × Nat) × Scan α :=
  match h : syn.next s with
  | (none, s') => ([], s')
  | (some e, s') =>
      have _hlt : s'.left < s.left := syn.next_left h
      ((e, s'.index) :: (run s').1, (run s').2)
termination_by s.left

/-- `while ((opt = getopt(..)) != -1) body(opt)`. -/
def whileOptions {ε σ : Type} (body : σ → Event α × Nat → Except ε σ) (s : Scan α) (a : σ) :
    Except ε (σ × Scan α) :=
  match h : syn.next s with
  | (none, s') => .ok (a, s')
  | (some e, s') =>
      have _hlt : s'.left < s.left := syn.next_left h
      match body a (e, s'.index) with
      | .ok a' => whileOptions body s' a'
      | .error x => .error x
termination_by s.left

theorem run_none (h : syn.next s = (none, s')) : syn.run s = ([], s') := by
  rw [run]
  split
  · next s₁ h₁ =>
      obtain ⟨_, rfl⟩ := Prod.mk.inj (h.symm.trans h₁)
      rfl
  · next e s₁ h₁ => cases (Prod.mk.inj (h.symm.trans h₁)).1

theorem run_some (h : syn.next s = (some e, s')) :
    syn.run s = ((e, s'.index) :: (syn.run s').1, (syn.run s').2) := by
  rw [run]
  split
  · next s₁ h₁ => cases (Prod.mk.inj (h.symm.trans h₁)).1
  · next e₁ s₁ h₁ =>
      obtain ⟨he, rfl⟩ := Prod.mk.inj (h.symm.trans h₁)
      rw [Option.some.inj he]

/-- The loop goes through what the calls find. -/
theorem whileOptions_eq {ε σ : Type} (body : σ → Event α × Nat → Except ε σ) (s : Scan α) (a : σ) :
    syn.whileOptions body s a
      = ((syn.run s).1.foldlM body a).map fun a' => (a', (syn.run s).2) := by
  induction hn : s.left using Nat.strong_induction_on generalizing s a with
  | _ n ih =>
      rw [whileOptions]
      split
      · next s' h =>
          rw [syn.run_none h]
          rfl
      · next e s' h =>
          have hlt := syn.next_left h
          rw [syn.run_some h, List.foldlM_cons]
          cases hbody : body a (e, s'.index) with
          | error x => rfl
          | ok a' => exact ih s'.left (hn ▸ hlt) s' a' rfl

/-! ## What a call finds -/

/-- What is found does not depend on how the scan came to the next call. -/
theorem run_congr (h : syn.next s = syn.next s') : syn.run s = syn.run s' := by
  rcases hnext : syn.next s' with ⟨_ | e, s₁⟩
  · rw [syn.run_none (h.trans hnext), syn.run_none hnext]
  · rw [syn.run_some (h.trans hnext), syn.run_some hnext]

section Calls

variable {sc ops : List (List α)} {w : List α} {rest : List (List α)} {c : α} {cs : List α}

theorem run_nil : syn.run ⟨sc, ops, [], []⟩ = ([], ⟨sc, ops, [], []⟩) :=
  syn.run_none (by simp [next_word, skip, word])

/-- An operand that options may follow is skipped. -/
theorem run_operand (hpermutes : syn.permutes = true) (h : ¬ syn.isOption w) :
    syn.run ⟨sc, ops, [], w :: rest⟩ = syn.run ⟨sc, ops ++ [w], [], rest⟩ := by
  refine syn.run_congr ?_
  rw [syn.next_word rfl, syn.next_word rfl]
  have h' : (!syn.isOption w) = true := by simpa using h
  simp only [skip, if_pos hpermutes, List.takeWhile_cons_of_pos (p := (!syn.isOption ·)) h',
    List.dropWhile_cons_of_pos (p := (!syn.isOption ·)) h', List.append_assoc, List.singleton_append]

/-- An operand that options may not follow ends the scan. -/
theorem run_last (hpermutes : syn.permutes = false) (h : ¬ syn.isOption w) :
    syn.run ⟨sc, ops, [], w :: rest⟩ = ([], ⟨sc, ops, [], w :: rest⟩) := by
  refine syn.run_none ?_
  rw [syn.next_word rfl]
  simp [skip, hpermutes, syn.word_operand h]

theorem skip_option (h : syn.isOption w) : syn.skip (w :: rest) = ([], w :: rest) := by
  have h' : ¬ (!syn.isOption w) = true := by simpa using h
  unfold skip
  split
  · rw [List.takeWhile_cons_of_neg (p := (!syn.isOption ·)) h',
      List.dropWhile_cons_of_neg (p := (!syn.isOption ·)) h']
  · rfl

theorem run_end : syn.run ⟨sc, ops, [], [syn.dash, syn.dash] :: rest⟩
    = ([], ⟨sc ++ [[syn.dash, syn.dash]], ops, [], rest⟩) := by
  refine syn.run_none ?_
  rw [syn.next_word rfl, syn.skip_option (syn.isOption_iff.2 ⟨_, _, rfl⟩), syn.word_end]
  simp

theorem run_start (hne : cs ≠ []) (h : cs ≠ [syn.dash]) :
    syn.run ⟨sc, ops, [], (syn.dash :: cs) :: rest⟩
      = syn.run ⟨sc, ops, cs, (syn.dash :: cs) :: rest⟩ := by
  obtain ⟨c, cs, rfl⟩ := List.exists_cons_of_ne_nil hne
  have h : ¬ (c = syn.dash ∧ cs = []) := by
    rintro ⟨rfl, rfl⟩
    exact h rfl
  refine syn.run_congr ?_
  rw [syn.next_word rfl, syn.skip_option (syn.isOption_iff.2 ⟨_, _, rfl⟩), syn.word_letters h,
    syn.next_letters rfl rfl, List.append_nil]

/-- The letters of flags before others of their word. -/
theorem run_flags {more : List α} (hflags : ∀ c ∈ cs, syn.takes c = some false) (hmore : more ≠ []) :
    syn.run ⟨sc, ops, cs ++ more, w :: rest⟩
      = (cs.map (fun c => (.flag c, sc.length + 1)) ++ (syn.run ⟨sc, ops, more, w :: rest⟩).1,
        (syn.run ⟨sc, ops, more, w :: rest⟩).2) := by
  induction cs with
  | nil => rfl
  | cons c cs ih =>
      have hnext : syn.next ⟨sc, ops, c :: (cs ++ more), w :: rest⟩
          = (some (.flag c), ⟨sc, ops, cs ++ more, w :: rest⟩) := by
        obtain ⟨d, ds, hds⟩ := List.exists_cons_of_ne_nil (List.append_ne_nil_of_right_ne_nil cs hmore)
        rw [syn.next_letters rfl rfl]
        simp [letter, hflags c List.mem_cons_self, leave, hds]
      rw [List.cons_append, syn.run_some hnext, ih fun c hc => hflags c (List.mem_cons_of_mem _ hc)]
      rfl

end Calls

end Syntax

/-! ## Command lines -/

/-- What follows the letter of an option. -/
inductive Argument (α : Type)
  | none
  /-- The rest of the word. -/
  | attached (c : α) (cs : List α)
  /-- The next word. -/
  | separate (w : List α)

/-- Flags and a last option in one word, or an operand. -/
inductive Item (α : Type)
  | options (flags : List α) (c : α) (argument : Argument α)
  | operand (w : List α)

namespace Argument

def letters : Argument α → List α
  | .none | .separate _ => []
  | .attached c cs => c :: cs

def words : Argument α → List (List α)
  | .none | .attached _ _ => []
  | .separate w => [w]

def event (c : α) : Argument α → Event α
  | .none => .flag c
  | .attached d ds => .value c (d :: ds)
  | .separate w => .value c w

def present : Argument α → Bool
  | .none => false
  | .attached _ _ | .separate _ => true

end Argument

namespace Item

variable (syn : Syntax α)

/-- The words of options. -/
def scanned : Item α → List (List α)
  | .options flags c a => (syn.dash :: (flags ++ c :: a.letters)) :: a.words
  | .operand _ => []

def operands : Item α → List (List α)
  | .options _ _ _ => []
  | .operand w => [w]

def words : Item α → List (List α)
  | .options flags c a => (syn.dash :: (flags ++ c :: a.letters)) :: a.words
  | .operand w => [w]

/-- What is found in the item, where its first word has index `i`. -/
def found (i : Nat) : Item α → List (Event α × Nat)
  | .options flags c a => flags.map (fun c => (.flag c, i)) ++ [(a.event c, i + 1 + a.words.length)]
  | .operand _ => []

variable [DecidableEq α]

def Ok : Item α → Prop
  | .options flags c a => (∀ c ∈ flags, syn.takes c = some false) ∧ syn.takes c = some a.present
  | .operand w => syn.permutes = true ∧ ¬ syn.isOption w

end Item

/-- How the options end. -/
inductive Ending (α : Type)
  | none
  | dashes (rest : List (List α))
  /-- An operand that options may not follow. -/
  | operand (w : List α) (rest : List (List α))

namespace Ending

variable (syn : Syntax α)

def words : Ending α → List (List α)
  | .none => []
  | .dashes rest => [syn.dash, syn.dash] :: rest
  | .operand w rest => w :: rest

def operands : Ending α → List (List α)
  | .none => []
  | .dashes rest => rest
  | .operand w rest => w :: rest

/-- The word that is scanned. -/
def scanned : Ending α → List (List α)
  | .none | .operand _ _ => []
  | .dashes _ => [[syn.dash, syn.dash]]

variable [DecidableEq α]

def Ok : Ending α → Prop
  | .none | .dashes _ => True
  | .operand w _ => syn.permutes = false ∧ ¬ syn.isOption w

end Ending

/-- What is wrong with a word. -/
inductive Bad (α : Type)
  | unknown (flags : List α) (c : α) (cs : List α) (rest : List (List α))
  | missing (flags : List α) (c : α)

namespace Bad

variable (syn : Syntax α)

def words : Bad α → List (List α)
  | .unknown flags c cs rest => (syn.dash :: (flags ++ c :: cs)) :: rest
  | .missing flags c => [syn.dash :: (flags ++ [c])]

/-- The flags before the wrong letter. -/
def flags : Bad α → List α
  | .unknown flags _ _ _ | .missing flags _ => flags

def event : Bad α → Event α
  | .unknown _ c _ _ => .unknown c
  | .missing _ c => .missing c

/-- `optind` after the wrong letter, where its word has index `i`. -/
def index (i : Nat) : Bad α → Nat
  | .unknown _ _ [] _ | .missing _ _ => i + 1
  | .unknown _ _ (_ :: _) _ => i

def Ok : Bad α → Prop
  | .unknown flags c cs _ => (∀ c ∈ flags, syn.takes c = some false) ∧ syn.takes c = none ∧
      ¬ (flags = [] ∧ c = syn.dash ∧ cs = [])
  | .missing flags c => (∀ c ∈ flags, syn.takes c = some false) ∧ syn.takes c = some true

end Bad

/-- What is found in items, where the first word has index `i`. -/
def found (syn : Syntax α) (i : Nat) : List (Item α) → List (Event α × Nat)
  | [] => []
  | item :: items => item.found i ++ found syn (i + (item.scanned syn).length) items

section

variable (syn : Syntax α) [DecidableEq α]

/-- A command line that is well formed. -/
structure Line where
  items : List (Item α)
  ending : Ending α
  items_ok : ∀ item ∈ items, item.Ok syn
  ending_ok : ending.Ok syn

/-- A command line that is not: what follows the first wrong word is part of what is wrong. -/
structure BadLine where
  items : List (Item α)
  bad : Bad α
  items_ok : ∀ item ∈ items, item.Ok syn
  bad_ok : bad.Ok syn

variable {syn}

namespace Line

def words (line : Line syn) : List (List α) :=
  line.items.flatMap (Item.words syn) ++ line.ending.words syn

def operands (line : Line syn) : List (List α) :=
  line.items.flatMap Item.operands ++ line.ending.operands

def found (line : Line syn) : List (Event α × Nat) := Options.found syn 1 line.items

/-- `optind` at the end. -/
def index (line : Line syn) : Nat :=
  (line.items.flatMap (Item.scanned syn) ++ line.ending.scanned syn).length + 1

end Line

namespace BadLine

def words (line : BadLine syn) : List (List α) :=
  line.items.flatMap (Item.words syn) ++ line.bad.words syn

/-- The index of the wrong word when the operands before it are out of the way. -/
def place (line : BadLine syn) : Nat := (line.items.flatMap (Item.scanned syn)).length + 1

/-- What is found before what is wrong. -/
def found (line : BadLine syn) : List (Event α × Nat) :=
  Options.found syn 1 line.items ++ line.bad.flags.map fun c => (.flag c, line.place)

/-- `optind` after what is wrong. -/
def index (line : BadLine syn) : Nat := line.bad.index line.place

end BadLine

end

/-! ## What was found -/

section

variable [DecidableEq α] (c : α)

def Event.isFlag : Event α → Bool
  | .flag d => d = c
  | _ => false

def Event.valueOf : Event α → Option (List α)
  | .value d w => if d = c then some w else none
  | _ => none

/-- The flag `c` was given. -/
def flagged (es : List (Event α × Nat)) : Bool := es.any fun e => e.1.isFlag c

/-- The last value that was given for `c`. -/
def lastValue (es : List (Event α × Nat)) : Option (List α) :=
  (es.filterMap fun e => e.1.valueOf c).getLast?

variable {c}

@[simp] theorem flagged_nil : flagged c ([] : List (Event α × Nat)) = false := rfl

@[simp] theorem lastValue_nil : lastValue c ([] : List (Event α × Nat)) = none := rfl

@[simp] theorem flagged_concat (es : List (Event α × Nat)) (e : Event α × Nat) :
    flagged c (es ++ [e]) = (flagged c es || e.1.isFlag c) := by
  simp [flagged]

@[simp] theorem lastValue_concat (es : List (Event α × Nat)) (e : Event α × Nat) :
    lastValue c (es ++ [e]) = (e.1.valueOf c).or (lastValue c es) := by
  rw [lastValue, List.filterMap_append]
  cases hvalue : e.1.valueOf c with
  | none => simp [hvalue, lastValue]
  | some w => simp [hvalue]

end

/-! ## What is found in a command line -/

section

variable {syn : Syntax α} {flags : List α} {c : α}

theorem letters_ne_dash (hflags : ∀ c ∈ flags, syn.takes c = some false) (hc : syn.takes c ≠ none)
    (cs : List α) : flags ++ c :: cs ≠ [syn.dash] := by
  intro h
  cases flags with
  | nil =>
      obtain ⟨rfl, _⟩ := List.cons.inj h
      exact hc syn.dash_none
  | cons d flags =>
      obtain ⟨rfl, _⟩ := List.cons.inj h
      have hd := hflags syn.dash List.mem_cons_self
      rw [syn.dash_none] at hd
      cases hd

/-- The letters of a word: flags only, or flags up to another letter. -/
theorem letters_cases (syn : Syntax α) {l : List α} (h : l ≠ []) :
    ∃ flags c cs, l = flags ++ c :: cs ∧ (∀ c ∈ flags, syn.takes c = some false) ∧
      (syn.takes c = some false ∧ cs = [] ∨ syn.takes c = none ∨ syn.takes c = some true) := by
  induction l with
  | nil => exact absurd rfl h
  | cons c cs ih =>
      match hc : syn.takes c with
      | none => exact ⟨[], c, cs, rfl, by simp, Or.inr (Or.inl hc)⟩
      | some true => exact ⟨[], c, cs, rfl, by simp, Or.inr (Or.inr hc)⟩
      | some false =>
          by_cases hcs : cs = []
          · exact ⟨[], c, [], by rw [hcs]; rfl, by simp, Or.inl ⟨hc, rfl⟩⟩
          · obtain ⟨flags, d, ds, rfl, hflags, hd⟩ := ih hcs
            refine ⟨c :: flags, d, ds, rfl, fun e he => ?_, hd⟩
            rcases List.mem_cons.1 he with rfl | he
            · exact hc
            · exact hflags e he

theorem foldlM_ok {β ε σ : Type} {f : σ → β → Except ε σ} {g : σ → β → σ} {l : List β}
    (h : ∀ s, ∀ b ∈ l, f s b = .ok (g s b)) (a : σ) : l.foldlM f a = .ok (l.foldl g a) := by
  induction l generalizing a with
  | nil => rfl
  | cons b l ih =>
      rw [List.foldlM_cons, h a b List.mem_cons_self]
      exact ih (fun s b hb => h s b (List.mem_cons_of_mem _ hb)) (g a b)

end

section

variable {syn : Syntax α} [DecidableEq α] {sc ops rest : List (List α)} {flags : List α} {c : α}

theorem run_options {w : List α} {a : Argument α} (hflags : ∀ c ∈ flags, syn.takes c = some false)
    (hc : syn.takes c = some a.present) :
    syn.run ⟨sc, ops, flags ++ c :: a.letters, w :: (a.words ++ rest)⟩
      = ((Item.options flags c a).found (sc.length + 1)
          ++ (syn.run ⟨sc ++ w :: a.words, ops, [], rest⟩).1,
        (syn.run ⟨sc ++ w :: a.words, ops, [], rest⟩).2) := by
  have hnext : syn.next ⟨sc, ops, c :: a.letters, w :: (a.words ++ rest)⟩
      = (some (a.event c), ⟨sc ++ w :: a.words, ops, [], rest⟩) := by
    rw [syn.next_letters rfl rfl, Syntax.letter.eq_def, hc]
    cases a <;> rfl
  rw [syn.run_flags hflags (List.cons_ne_nil _ _), syn.run_some hnext, Item.found, List.append_assoc]
  simp only [Scan.index, List.length_append, List.length_cons, List.singleton_append]
  congr 4
  omega

theorem run_item {item : Item α} (h : item.Ok syn) :
    syn.run ⟨sc, ops, [], item.words syn ++ rest⟩
      = (item.found (sc.length + 1)
          ++ (syn.run ⟨sc ++ item.scanned syn, ops ++ item.operands, [], rest⟩).1,
        (syn.run ⟨sc ++ item.scanned syn, ops ++ item.operands, [], rest⟩).2) := by
  cases item with
  | options flags c a =>
      obtain ⟨hflags, hc⟩ := h
      rw [Item.words, List.cons_append,
        syn.run_start (List.append_ne_nil_of_right_ne_nil _ (List.cons_ne_nil _ _))
          (letters_ne_dash hflags (by simp [hc]) _),
        run_options hflags hc, Item.operands, List.append_nil]
      rfl
  | operand w =>
      obtain ⟨hpermutes, hw⟩ := h
      rw [Item.words, List.singleton_append, syn.run_operand hpermutes hw, Item.scanned,
        List.append_nil]
      rfl

theorem run_items {items : List (Item α)} (h : ∀ item ∈ items, item.Ok syn) :
    syn.run ⟨sc, ops, [], items.flatMap (Item.words syn) ++ rest⟩
      = (found syn (sc.length + 1) items
          ++ (syn.run ⟨sc ++ items.flatMap (Item.scanned syn),
            ops ++ items.flatMap Item.operands, [], rest⟩).1,
        (syn.run ⟨sc ++ items.flatMap (Item.scanned syn),
          ops ++ items.flatMap Item.operands, [], rest⟩).2) := by
  induction items generalizing sc ops with
  | nil => simp [found]
  | cons item items ih =>
      have hplace : sc.length + 1 + (item.scanned syn).length
          = (sc ++ item.scanned syn).length + 1 := by
        rw [List.length_append]
        omega
      rw [List.flatMap_cons, List.append_assoc, run_item (h item List.mem_cons_self),
        ih fun item hitem => h item (List.mem_cons_of_mem _ hitem), found, hplace]
      simp only [List.flatMap_cons, List.append_assoc]

theorem run_ending {ending : Ending α} (h : ending.Ok syn) :
    ∃ final, syn.run ⟨sc, ops, [], ending.words syn⟩ = ([], final) ∧
      final.operands ++ final.rest = ops ++ ending.operands ∧
      final.scanned = sc ++ ending.scanned syn := by
  cases ending with
  | none => exact ⟨_, syn.run_nil, rfl, (List.append_nil sc).symm⟩
  | dashes rest => exact ⟨_, syn.run_end, rfl, rfl⟩
  | operand w rest => exact ⟨_, syn.run_last h.1 h.2, rfl, (List.append_nil sc).symm⟩

/-- Nothing is scanned yet. -/
def start (words : List (List α)) : Scan α := ⟨[], [], [], words⟩

/-- **What is found in a command line that is well formed**: its options in their order, with the
    operands left over in theirs. -/
theorem run_line (line : Line syn) : ∃ final, syn.run (start line.words) = (line.found, final) ∧
    final.operands ++ final.rest = line.operands ∧ final.index = line.index := by
  obtain ⟨final, hrun, hoperands, hscanned⟩ := run_ending line.ending_ok
  refine ⟨final, ?_, hoperands, ?_⟩
  · rw [start, Line.words, run_items line.items_ok, List.nil_append, List.nil_append, hrun,
      List.append_nil]
    rfl
  · rw [Scan.index, hscanned]
    rfl

theorem run_bad {bad : Bad α} (h : bad.Ok syn) :
    bad.flags.map (fun c => (.flag c, sc.length + 1)) ++ [(bad.event, bad.index (sc.length + 1))]
      <+: (syn.run ⟨sc, ops, [], bad.words syn⟩).1 := by
  cases bad with
  | unknown flags c cs rest =>
      obtain ⟨hflags, hc, hne⟩ := h
      have hletters : flags ++ c :: cs ≠ [syn.dash] := by
        intro hdash
        cases flags with
        | nil =>
            obtain ⟨rfl, rfl⟩ := List.cons.inj hdash
            exact hne ⟨rfl, rfl, rfl⟩
        | cons d flags => simp at hdash
      have hnext : ∀ w, syn.next ⟨sc, ops, c :: cs, w :: rest⟩
          = (some (.unknown c), leave sc ops cs w rest) := fun w => by
        rw [syn.next_letters rfl rfl, Syntax.letter.eq_def, hc]
        rfl
      have hindex : ∀ w, (leave sc ops cs w rest).index
          = (Bad.unknown flags c cs rest).index (sc.length + 1) := fun w => by
        cases cs <;> simp [leave, Scan.index, Bad.index]
      rw [Bad.words,
        syn.run_start (List.append_ne_nil_of_right_ne_nil _ (List.cons_ne_nil _ _)) hletters,
        syn.run_flags hflags (List.cons_ne_nil _ _), syn.run_some (hnext _), hindex]
      exact (List.prefix_append_right_inj _).2 (List.prefix_append [_] _)
  | missing flags c =>
      obtain ⟨hflags, hc⟩ := h
      have hnext : ∀ w, syn.next ⟨sc, ops, [c], [w]⟩ = (some (.missing c), ⟨sc ++ [w], ops, [], []⟩) :=
        fun w => by
          rw [syn.next_letters rfl rfl, Syntax.letter.eq_def, hc]
          rfl
      rw [Bad.words, syn.run_start (List.append_ne_nil_of_right_ne_nil _ (List.cons_ne_nil _ _))
          (letters_ne_dash hflags (by simp [hc]) _),
        syn.run_flags hflags (List.cons_ne_nil _ _), syn.run_some (hnext _), syn.run_nil]
      simp [Scan.index, Bad.flags, Bad.event, Bad.index]

/-- **What is found in another one**, up to what is wrong. -/
theorem run_badLine (line : BadLine syn) :
    line.found ++ [(line.bad.event, line.index)] <+: (syn.run (start line.words)).1 := by
  rw [start, BadLine.words, run_items line.items_ok, BadLine.found, List.append_assoc]
  exact (List.prefix_append_right_inj _).2 (run_bad line.bad_ok)

/-! ## Every command line is one of the two -/

/-- What an item in front makes of a command line. -/
def Line.cons (item : Item α) (h : item.Ok syn) (line : Line syn) : Line syn where
  items := item :: line.items
  ending := line.ending
  items_ok := List.forall_mem_cons.2 ⟨h, line.items_ok⟩
  ending_ok := line.ending_ok

def BadLine.cons (item : Item α) (h : item.Ok syn) (line : BadLine syn) : BadLine syn where
  items := item :: line.items
  bad := line.bad
  items_ok := List.forall_mem_cons.2 ⟨h, line.items_ok⟩
  bad_ok := line.bad_ok

theorem Line.cons_words {item : Item α} (h : item.Ok syn) (line : Line syn) :
    (line.cons item h).words = item.words syn ++ line.words :=
  List.append_assoc ..

theorem BadLine.cons_words {item : Item α} (h : item.Ok syn) (line : BadLine syn) :
    (line.cons item h).words = item.words syn ++ line.words :=
  List.append_assoc ..

/-- A command line that is well formed, or not. -/
def Classified (syn : Syntax α) (words : List (List α)) : Prop :=
  (∃ line : Line syn, line.words = words) ∨ ∃ line : BadLine syn, line.words = words

theorem Classified.cons {item : Item α} (hitem : item.Ok syn) {words : List (List α)}
    (h : Classified syn words) : Classified syn (item.words syn ++ words) := by
  rcases h with ⟨line, rfl⟩ | ⟨line, rfl⟩
  · exact Or.inl ⟨line.cons item hitem, Line.cons_words hitem line⟩
  · exact Or.inr ⟨line.cons item hitem, BadLine.cons_words hitem line⟩

/-- **Every list of words is a command line of one of the two kinds.** -/
theorem classify (words : List (List α)) : Classified syn words := by
  induction hn : words.length using Nat.strong_induction_on generalizing words with
  | _ n ih =>
      cases words with
      | nil => exact Or.inl ⟨⟨[], .none, by simp, trivial⟩, rfl⟩
      | cons w rest =>
          have hrest : Classified syn rest := ih rest.length (hn ▸ Nat.lt_succ_self _) rest rfl
          by_cases hoption : syn.isOption w
          · obtain ⟨d, ds, rfl⟩ := syn.isOption_iff.1 hoption
            by_cases hend : d = syn.dash ∧ ds = []
            · obtain ⟨rfl, rfl⟩ := hend
              exact Or.inl ⟨⟨[], .dashes rest, by simp, trivial⟩, rfl⟩
            obtain ⟨flags, c, cs, hletters, hflags, hc⟩ := letters_cases syn (List.cons_ne_nil d ds)
            rw [hletters]
            rcases hc with ⟨hc, rfl⟩ | hc | hc
            · have hitem : (Item.options flags c Argument.none).Ok syn := ⟨hflags, hc⟩
              exact hrest.cons hitem
            · refine Or.inr ⟨⟨[], .unknown flags c cs rest, by simp, hflags, hc, ?_⟩, rfl⟩
              rintro ⟨rfl, rfl, rfl⟩
              obtain ⟨rfl, rfl⟩ := List.cons.inj hletters
              exact hend ⟨rfl, rfl⟩
            · cases cs with
              | cons e es =>
                  have hitem : (Item.options flags c (.attached e es)).Ok syn := ⟨hflags, hc⟩
                  exact hrest.cons hitem
              | nil =>
                  cases rest with
                  | nil => exact Or.inr ⟨⟨[], .missing flags c, by simp, hflags, hc⟩, rfl⟩
                  | cons v rest =>
                      have hitem : (Item.options flags c (.separate v)).Ok syn := ⟨hflags, hc⟩
                      refine Classified.cons hitem (ih rest.length ?_ rest rfl)
                      rw [← hn, List.length_cons, List.length_cons]
                      omega
          · cases hpermutes : syn.permutes with
            | true =>
                have hitem : (Item.operand w).Ok syn := ⟨hpermutes, hoption⟩
                exact hrest.cons hitem
            | false =>
                exact Or.inl ⟨⟨[], .operand w rest, by simp, hpermutes, hoption⟩, rfl⟩

/-- Where options may not follow operands, the words are those of the options and what is left over. -/
theorem Line.words_eq (hpermutes : syn.permutes = false) (line : Line syn) :
    line.words = line.items.flatMap (Item.scanned syn) ++ line.ending.scanned syn ++ line.operands := by
  have hitems : ∀ item ∈ line.items, item.words syn = item.scanned syn ∧ item.operands = [] := by
    intro item hitem
    have hok := line.items_ok item hitem
    cases item with
    | options flags c a => exact ⟨rfl, rfl⟩
    | operand w => cases hpermutes.symm.trans hok.1
  have hwords : line.items.flatMap (Item.words syn) = line.items.flatMap (Item.scanned syn) :=
    List.flatMap_congr fun item hitem => (hitems item hitem).1
  have hoperands : line.items.flatMap Item.operands = [] :=
    List.flatMap_eq_nil_iff.2 fun item hitem => (hitems item hitem).2
  rw [Line.words, Line.operands, hwords, hoperands, List.append_assoc, List.nil_append]
  cases line.ending <;> rfl

/-! ## Loops over the options -/

/-- A flag, or an option with its value. -/
def Regular (syn : Syntax α) (e : Event α) : Prop :=
  (∃ c, e = .flag c ∧ syn.takes c = some false) ∨ ∃ c v, e = .value c v ∧ syn.takes c = some true

theorem regular_of_mem {items : List (Item α)} (h : ∀ item ∈ items, item.Ok syn) {i : Nat}
    {e : Event α × Nat} (he : e ∈ found syn i items) : Regular syn e.1 := by
  induction items generalizing i with
  | nil => cases he
  | cons item items ih =>
      rcases List.mem_append.1 he with he | he
      · have hitem := h item List.mem_cons_self
        cases item with
        | operand w => cases he
        | options flags c a =>
            obtain ⟨hflags, hc⟩ := hitem
            rcases List.mem_append.1 he with he | he
            · obtain ⟨d, hd, rfl⟩ := List.mem_map.1 he
              exact Or.inl ⟨d, rfl, hflags d hd⟩
            · obtain rfl := List.mem_singleton.1 he
              cases a with
              | none => exact Or.inl ⟨c, rfl, hc⟩
              | attached d ds => exact Or.inr ⟨c, d :: ds, rfl, hc⟩
              | separate v => exact Or.inr ⟨c, v, rfl, hc⟩
      · exact ih (fun item hitem => h item (List.mem_cons_of_mem _ hitem)) he

theorem Line.regular (line : Line syn) : ∀ e ∈ line.found, Regular syn e.1 :=
  fun _ he => regular_of_mem line.items_ok he

theorem BadLine.regular (line : BadLine syn) : ∀ e ∈ line.found, Regular syn e.1 := by
  intro e he
  rcases List.mem_append.1 he with he | he
  · exact regular_of_mem line.items_ok he
  · obtain ⟨c, hc, rfl⟩ := List.mem_map.1 he
    have hok := line.bad_ok
    cases hbad : line.bad with
    | unknown flags d ds rest =>
        rw [hbad] at hok hc
        exact Or.inl ⟨c, rfl, hok.1 c hc⟩
    | missing flags d =>
        rw [hbad] at hok hc
        exact Or.inl ⟨c, rfl, hok.1 c hc⟩

variable {ε σ : Type} {body : σ → Event α × Nat → Except ε σ} {step : σ → Event α × Nat → σ}

/-- A loop over the options of a command line that is well formed. -/
theorem whileOptions_line (h : ∀ s e, Regular syn e.1 → body s e = .ok (step s e)) (line : Line syn)
    (a : σ) :
    ∃ final, syn.whileOptions body (start line.words) a = .ok (line.found.foldl step a, final) ∧
      final.operands ++ final.rest = line.operands ∧ final.index = line.index := by
  obtain ⟨final, hrun, hoperands, hindex⟩ := run_line line
  refine ⟨final, ?_, hoperands, hindex⟩
  rw [syn.whileOptions_eq, hrun, foldlM_ok fun s e he => h s e (line.regular e he)]
  rfl

/-- A loop that stops at what is wrong. -/
theorem whileOptions_bad (h : ∀ s e, Regular syn e.1 → body s e = .ok (step s e)) (line : BadLine syn)
    (a : σ) {x : ε} (hx : body (line.found.foldl step a) (line.bad.event, line.index) = .error x) :
    syn.whileOptions body (start line.words) a = .error x := by
  obtain ⟨rest, hrest⟩ := run_badLine line
  rw [syn.whileOptions_eq, ← hrest, List.append_assoc, List.foldlM_append,
    foldlM_ok fun s e he => h s e (line.regular e he)]
  show Except.map _ (((line.bad.event, line.index) :: rest).foldlM body _) = _
  rw [List.foldlM_cons, hx]
  rfl

end

end LinuxSamples.Options
