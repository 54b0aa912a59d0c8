import LinuxSamples.Text.Initialiser
import Mathlib.Data.List.TakeWhile

set_option autoImplicit false

/-! # AWK's records, strings and numbers

The built-in functions that the table packer uses, by what the AWK manual says of them. Positions in
a string are counted from 1. The numbers are the integers: a fraction or an exponent in a numeral is
not read, and what a double leaves of an integer beyond `2 ^ 53` is looked at on its own. -/

namespace LinuxSamples.Awk

open LinuxSamples.Text

/-- The records of a text: its lines, the last one with or without a newline at its end. -/
def records : Chars → List Chars
  | [] => []
  | c :: cs =>
      if c = '\n' then [] :: records cs
      else
        match records cs with
        | [] => [[c]]
        | line :: lines => (c :: line) :: lines

theorem records_line {line : Chars} (h : '\n' ∉ line) (rest : Chars) :
    records (line ++ '\n' :: rest) = line :: records rest := by
  induction line with
  | nil => rfl
  | cons c line ih =>
      rw [List.mem_cons, not_or] at h
      rw [List.cons_append, records, if_neg (Ne.symm h.1), ih h.2]

/-- Lines written one after the other are read back. -/
theorem records_unlines {lines : List Chars} (h : ∀ line ∈ lines, '\n' ∉ line) :
    records (unlines lines) = lines := by
  induction lines with
  | nil => rfl
  | cons line lines ih =>
      rw [List.forall_mem_cons] at h
      rw [unlines_cons, records_line h.1, ih h.2]

/-- `s ~ "^t"` for a text `t` without special characters. -/
def startsWith (s t : Chars) : Bool := t.isPrefixOf s

/-- `index(s, t)`: the position of the first occurrence of `t` in `s`, or 0. -/
def index : Chars → Chars → Nat
  | [], _ => 0
  | c :: cs, t =>
      if t.isPrefixOf (c :: cs) then 1
      else
        match index cs t with
        | 0 => 0
        | k + 1 => k + 2

/-- `substr(s, m, n)`: the characters of `s` at the positions from `m` on and before `m + n`. -/
def substr (s : Chars) (m n : Int) : Chars := (s.take (m + n - 1).toNat).drop (m - 1).toNat

/-- The number decimal digits write. -/
def decimal (ds : Chars) : Nat := Nat.ofDigitChars 10 ds 0

/-- `0 + s`: the number at the beginning of `s`, after blanks and a sign; 0 if there is none. -/
def number (s : Chars) : Int :=
  match s.dropWhile Char.isWhitespace with
  | '-' :: t => -(decimal (t.takeWhile Char.isDigit) : Int)
  | '+' :: t => decimal (t.takeWhile Char.isDigit)
  | t => decimal (t.takeWhile Char.isDigit)

/-- A number as `print` writes it. -/
def numeral : Int → Chars
  | .ofNat n => Nat.toDigits 10 n
  | .negSucc n => '-' :: Nat.toDigits 10 (n + 1)

/-- What `match(s, "key .* \"(.*)\"", a)` stores in `a[1]`: at the first place in `s` where the
    pattern matches, the characters between the last blank with a quotation mark after it and the
    last quotation mark. -/
def quotedAfter (key s : Chars) : Option Chars :=
  s.tails.findSome? fun t =>
    if (key ++ [' ']).isPrefixOf t then
      -- backwards from the end: the closing quotation mark, then the opening one and its blank
      match (t.drop (key.length + 1)).reverse.dropWhile (· ≠ '"') with
      | [] => none
      | _ :: before =>
          (List.range before.length).findSome? fun i =>
            if ['"', ' '].isPrefixOf (before.drop i) then some (before.take i).reverse else none
    else none

/-! ## What they return -/

theorem index_char {c : Char} {front : Chars} (h : c ∉ front) (rest : Chars) :
    index (front ++ c :: rest) [c] = front.length + 1 := by
  induction front with
  | nil => simp [index]
  | cons d front ih =>
      rw [List.mem_cons, not_or] at h
      have hd : [c].isPrefixOf (d :: (front ++ c :: rest)) = false := by
        rw [List.isPrefixOf_cons_cons, beq_false_of_ne h.1, Bool.false_and]
      rw [List.cons_append, index, hd, if_neg Bool.false_ne_true, ih h.2, List.length_cons]

/-- Cutting a word out of a line. -/
theorem substr_append (front word rest : Chars) :
    substr (front ++ word ++ rest) (front.length + 1) word.length = word := by
  have htake : ((front.length + 1 : Int) + word.length - 1).toNat = (front ++ word).length := by
    rw [List.length_append]
    omega
  rw [substr, htake, List.take_left', show ((front.length + 1 : Int) - 1).toNat = front.length by
    omega, List.drop_left]
  rfl

theorem number_digits {ds : Chars} (hne : ds ≠ []) (h : ∀ c ∈ ds, c.isDigit) :
    number ds = decimal ds := by
  cases ds with
  | nil => exact absurd rfl hne
  | cons d ds =>
      have hd := h d (List.mem_cons_self ..)
      have hspace : d.isWhitespace = false := by
        by_contra hw
        simp only [Char.isWhitespace, Bool.not_eq_false, Bool.or_eq_true, decide_eq_true_eq] at hw
        rcases hw with ((rfl | rfl) | rfl) | rfl <;> exact absurd hd (by decide)
      have hminus : d ≠ '-' := by
        rintro rfl
        exact absurd hd (by decide)
      have hplus : d ≠ '+' := by
        rintro rfl
        exact absurd hd (by decide)
      rw [number, List.dropWhile_cons_of_neg (by simp [hspace])]
      split
      · next heq => exact absurd (List.cons.inj heq).1 hminus
      · next heq => exact absurd (List.cons.inj heq).1 hplus
      · rw [List.takeWhile_eq_self_iff.2 h]

end LinuxSamples.Awk
