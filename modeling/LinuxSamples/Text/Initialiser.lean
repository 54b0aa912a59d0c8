import Mathlib.Data.List.Basic

set_option autoImplicit false

/-! # Reading a C array of bytes

The reader of an initialiser list of integer constants: comments are removed, the rest is cut into
words and commas, and the words are read as bytes. A list may end with a comma. Texts are read from
left to right, so what a prefix says does not depend on what follows it, once it ends a line and a
list element; `Reads` is this property. -/

namespace LinuxSamples.Text

/-- Texts are lists of characters. -/
abbrev Chars : Type := List Char

/-- The lines, each ended by a newline. -/
def unlines (lines : List Chars) : Chars := lines.flatMap (· ++ ['\n'])

@[simp] theorem unlines_nil : unlines [] = [] := rfl

@[simp] theorem unlines_cons (line : Chars) (lines : List Chars) :
    unlines (line :: lines) = line ++ '\n' :: unlines lines := by
  simp [unlines]

/-! ## Comments -/

/-- Where the reader of comments is: in code, after a `/`, in a line comment, in a block comment, or
    in one after a `*`. -/
inductive Mode | code | slash | line | block | star
  deriving DecidableEq, Repr

/-- The mode after a character, and the characters known by then to be code. A block comment stands
    for a blank. -/
def Mode.next : Mode → Char → Mode × Chars
  | .code, c => if c = '/' then (.slash, []) else (.code, [c])
  | .slash, c =>
      if c = '/' then (.line, []) else if c = '*' then (.block, []) else (.code, ['/', c])
  | .line, c => if c = '\n' then (.code, ['\n']) else (.line, [])
  | .block, c => if c = '*' then (.star, []) else (.block, [])
  | .star, c => if c = '/' then (.code, [' ']) else if c = '*' then (.star, []) else (.block, [])

/-- The code that is left at the end of the text; block comments must be closed. -/
def Mode.finish : Mode → Option Chars
  | .code | .line => some []
  | .slash => some ['/']
  | .block | .star => none

/-- The text without its comments. Backslashes, which could join lines, are not read. -/
def strip : Mode → Chars → Option Chars
  | m, [] => m.finish
  | m, c :: cs => if c = '\\' then none else (strip (m.next c).1 cs).map ((m.next c).2 ++ ·)

/-- A line that can be read by itself is read so when another text follows. -/
theorem strip_line {m : Mode} {line code : Chars} (h : strip m line = some code) (rest : Chars) :
    strip m (line ++ '\n' :: rest) = (strip .code rest).map (code ++ '\n' :: ·) := by
  induction line generalizing m code with
  | nil =>
      rw [strip] at h
      rw [List.nil_append, strip, if_neg (by decide)]
      cases m with
      | code | slash | line =>
          cases h
          rfl
      | block | star => cases h
  | cons c line ih =>
      rw [strip] at h
      rw [List.cons_append, strip]
      by_cases hc : c = '\\'
      · rw [if_pos hc] at h
        cases h
      · rw [if_neg hc] at h ⊢
        obtain ⟨code', hcode, rfl⟩ := Option.map_eq_some_iff.1 h
        rw [ih hcode, Option.map_map]
        congr 1
        funext x
        simp

/-! ## Words and commas -/

/-- A comma, or a run of other characters between blanks. -/
inductive Token
  | comma
  | word (chars : Chars)
  deriving DecidableEq, Repr

/-- The word read so far ends. -/
def flush (word : Chars) : List Token := if word = [] then [] else [.word word]

/-- The tokens of a text, after the beginning of a word. -/
def tokens : Chars → Chars → List Token
  | word, [] => flush word
  | word, c :: cs =>
      if c = ',' then flush word ++ .comma :: tokens [] cs
      else if c.isWhitespace then flush word ++ tokens [] cs
      else tokens (word ++ [c]) cs

theorem tokens_line (word line rest : Chars) :
    tokens word (line ++ '\n' :: rest) = tokens word line ++ tokens [] rest := by
  induction line generalizing word with
  | nil => rfl
  | cons c line ih =>
      rw [List.cons_append, tokens, tokens]
      split
      · rw [ih, List.append_assoc, List.cons_append]
      · split
        · rw [ih, List.append_assoc]
        · exact ih _

/-- The tokens of a text with comments. -/
def lex (text : Chars) : Option (List Token) := (strip .code text).map (tokens [])

/-- What the text is read as does not depend on what follows it. -/
def Lexes (text : Chars) (toks : List Token) : Prop :=
  ∀ rest, lex (text ++ rest) = (lex rest).map (toks ++ ·)

theorem Lexes.nil : Lexes [] [] := fun rest => by
  simp

theorem Lexes.append {text text' : Chars} {toks toks' : List Token} (h : Lexes text toks)
    (h' : Lexes text' toks') : Lexes (text ++ text') (toks ++ toks') := fun rest => by
  rw [List.append_assoc, h, h', Option.map_map]
  congr 1
  funext x
  simp

/-- Complete lines can be read one by one. -/
theorem Lexes.line {line : Chars} {toks : List Token} (h : lex line = some toks) :
    Lexes (line ++ ['\n']) toks := fun rest => by
  obtain ⟨code, hcode, rfl⟩ := Option.map_eq_some_iff.1 h
  rw [List.append_assoc, List.singleton_append, lex, strip_line hcode, Option.map_map, lex,
    Option.map_map]
  congr 1
  funext x
  exact tokens_line [] code x

/-- A line comment says nothing. -/
theorem lex_comment {text : Chars} (hslash : '\\' ∉ text) (hline : '\n' ∉ text) :
    lex ('/' :: '/' :: text) = some [] := by
  have hstrip : strip .line text = some [] := by
    induction text with
    | nil => rfl
    | cons c text ih =>
        rw [List.mem_cons, not_or] at hslash hline
        rw [strip, if_neg (Ne.symm hslash.1), Mode.next, if_neg (Ne.symm hline.1),
          ih hslash.2 hline.2]
        rfl
  simp [lex, strip, Mode.next, hstrip, tokens, flush]

/-! ## Integer constants -/

/-- The value of a digit, in bases up to 16. -/
def digitValue (c : Char) : Option Nat :=
  if '0' ≤ c ∧ c ≤ '9' then some (c.toNat - '0'.toNat)
  else if 'a' ≤ c ∧ c ≤ 'f' then some (c.toNat - 'a'.toNat + 10)
  else if 'A' ≤ c ∧ c ≤ 'F' then some (c.toNat - 'A'.toNat + 10)
  else none

/-- The number that digits of the given base write, after a number read before. -/
def digits (base : Nat) : Nat → Chars → Option Nat
  | n, [] => some n
  | n, c :: cs =>
      match digitValue c with
      | some d => if d < base then digits base (base * n + d) cs else none
      | none => none

/-- A hexadecimal, octal or decimal integer constant. -/
def integerConstant : Chars → Option Nat
  | [] => none
  | '0' :: 'x' :: c :: cs | '0' :: 'X' :: c :: cs => digits 16 0 (c :: cs)
  | '0' :: cs => digits 8 0 cs
  | c :: cs => digits 10 0 (c :: cs)

/-- An integer constant that fits in an `unsigned char`. -/
def byteLiteral (word : Chars) : Option UInt8 := do
  let n ← integerConstant word
  if n < 256 then some (UInt8.ofNat n) else none

/-! ## Lists -/

/-- The bytes of an initialiser list: constants with commas between them, and perhaps one more comma
    at the end. -/
def initialisers : List Token → Option (List UInt8)
  | [] => some []
  | [.word w] => (byteLiteral w).map fun b => [b]
  | .word w :: .comma :: rest => do
      let b ← byteLiteral w
      let bs ← initialisers rest
      some (b :: bs)
  | _ => none

/-- The bytes of the initialiser list a text holds. -/
def readBytes (text : Chars) : Option (List UInt8) := lex text >>= initialisers

/-- The tokens are complete list elements, their commas included. -/
def Opens (toks : List Token) (bytes : List UInt8) : Prop :=
  ∀ rest, initialisers (toks ++ rest) = (initialisers rest).map (bytes ++ ·)

theorem Opens.nil : Opens [] [] := fun rest => by
  simp

theorem Opens.append {toks toks' : List Token} {bytes bytes' : List UInt8} (h : Opens toks bytes)
    (h' : Opens toks' bytes') : Opens (toks ++ toks') (bytes ++ bytes') := fun rest => by
  rw [List.append_assoc, h, h', Option.map_map]
  congr 1
  funext x
  simp

theorem Opens.item {w : Chars} {b : UInt8} (h : byteLiteral w = some b) :
    Opens [.word w, .comma] [b] := fun rest => by
  show initialisers (.word w :: .comma :: rest) = _
  rw [initialisers, h]
  cases initialisers rest <;> rfl

/-- A list whose last element has no comma after it becomes complete with one. -/
theorem Opens.of_list {toks : List Token} {bytes : List UInt8} {w : Chars}
    (h : initialisers toks = some bytes) (hlast : toks.getLast? = some (.word w)) :
    Opens (toks ++ [.comma]) bytes := by
  induction toks using initialisers.induct generalizing bytes with
  | case1 => cases hlast
  | case2 v =>
      obtain ⟨b, hb, rfl⟩ := Option.map_eq_some_iff.1 h
      exact Opens.item hb
  | case3 v rest ih =>
      rw [initialisers] at h
      obtain ⟨b, hb, h⟩ := Option.bind_eq_some_iff.1 h
      obtain ⟨bs, hbs, h⟩ := Option.bind_eq_some_iff.1 h
      cases h
      have hrest : rest.getLast? = some (.word w) := by
        cases rest with
        | nil => cases hlast
        | cons t rest => simpa using hlast
      exact (Opens.item hb).append (ih hbs hrest)
  | case4 toks hnil hword hlist =>
      rw [initialisers.eq_4 toks hnil hword hlist] at h
      cases h

/-- The text holds the given bytes, with commas between them and none after the last. -/
def Lists (text : Chars) (bytes : List UInt8) : Prop :=
  ∃ toks w, lex text = some toks ∧ initialisers toks = some bytes ∧
    toks.getLast? = some (.word w)

/-- A prefix of an initialiser list, read by itself. -/
def Reads (text : Chars) (bytes : List UInt8) : Prop :=
  ∀ rest, readBytes (text ++ rest) = (readBytes rest).map (bytes ++ ·)

theorem Reads.nil : Reads [] [] := fun rest => by
  simp

theorem Reads.append {text text' : Chars} {bytes bytes' : List UInt8} (h : Reads text bytes)
    (h' : Reads text' bytes') : Reads (text ++ text') (bytes ++ bytes') := fun rest => by
  rw [List.append_assoc, h, h', Option.map_map]
  congr 1
  funext x
  simp

theorem Reads.of_lexes {text : Chars} {toks : List Token} {bytes : List UInt8}
    (h : Lexes text toks) (hopen : Opens toks bytes) : Reads text bytes := fun rest => by
  rw [readBytes, readBytes, h]
  cases hrest : lex rest with
  | none => rfl
  | some toks' => exact hopen toks'

/-- A text that is read as a prefix is read so as a whole. -/
theorem Reads.readBytes {text : Chars} {bytes : List UInt8} (h : Reads text bytes) :
    readBytes text = some bytes := by
  have hnil := h []
  rw [List.append_nil] at hnil
  rw [hnil]
  show some (bytes ++ []) = some bytes
  rw [List.append_nil]

end LinuxSamples.Text
