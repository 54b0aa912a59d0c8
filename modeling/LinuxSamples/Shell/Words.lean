import LinuxSamples.Shell.LogScripts

set_option autoImplicit false

/-! # Words and substrings in bash

What the scripts do with the value of a variable: its fields where it stands without quotes, `echo` with
several arguments, and the substrings of `${line:n}` and `${line::-n}`. These count characters: how the
bytes of a value are divided into characters, `chars`, is a matter of the locale. -/

namespace LinuxSamples.Bash

open LinuxSamples.LogScripts

/-- A space, a tab or a newline. -/
def isBlank (b : UInt8) : Bool := b = 32 ∨ b = 9 ∨ b = 10

/-- The fields that a value is split into. -/
def fields (value : Bytes) : List Bytes := (value.splitOnP isBlank).filter (· ≠ [])

/-- Whether backslashes are interpreted after an option of `echo`; the last letter counts. -/
def interprets (before : Bool) (word : Bytes) : Bool :=
  word.foldl (fun b c => if c = 101 then true else if c = 69 then false else b) before

/-- What the builtin `echo` writes for its arguments. `unescape` is what `-e` makes of a text, and
    whether there is a `\c` in it, which ends the output. -/
def echoWords (unescape : Bytes → Bytes × Bool) (silent escapes : Bool) : List Bytes → Bytes
  | [] => if silent then [] else [newline]
  | w :: ws =>
      if isOption w then echoWords unescape (silent || 110 ∈ w) (interprets escapes w) ws
      else
        let line := List.intercalate [32] (w :: ws)
        let (shown, ended) := if escapes then unescape line else (line, false)
        shown ++ if silent || ended then [] else [newline]

section Substrings

variable (chars : Bytes → List Bytes)

/-- `${#value}`. -/
def charCount (value : Bytes) : Nat := (chars value).length

/-- `${value:n}`. -/
def from' (n : Nat) (value : Bytes) : Bytes := ((chars value).drop n).flatten

/-- The characters but the last `n`. -/
def dropLast (n : Nat) (value : Bytes) : Bytes :=
  ((chars value).take (charCount chars value - n)).flatten

/-- `${value::-n}`, which is an error where `n` characters are not there. -/
def upToLast (n : Nat) (value : Bytes) : Option Bytes :=
  if n ≤ charCount chars value then some (dropLast chars n value) else none

end Substrings

end LinuxSamples.Bash
