import LinuxSamples.Awk.Functions

set_option autoImplicit false

/-! # The table packer

The script `Samples_AWK/test.awk`. It reads a source file line by line and moves the byte arrays
defined in it out of the way: `file1` gets the code, with a pointer and an offset in place of each
array, and `file2` one array `data[]` with the bytes of all of them, each padded to a multiple of 64
bytes. -/

namespace LinuxSamples.Awk

open LinuxSamples.Text

/-- What the script is started with: the variables set by `-v`, and the name of the input file as an
    argument and as `FILENAME`. -/
structure Options where
  author : Chars
  file1 : Chars
  file2 : Chars
  argv1 : Chars
  filename : Chars

/-- The values of the variable `state`: 0 in code and 1 in a table. -/
inductive Phase | code | table
  deriving DecidableEq, Repr

/-- The variables of the script, and what it has written to the standard output and to the files
    named by `file1` and `file2`. -/
structure State where
  fnr : Nat
  state : Phase
  offset : Int
  name : Chars
  remain : Int
  blog : Chars
  github : Chars
  stdout : Chars
  out1 : Chars
  out2 : Chars

/-- `print line`. -/
def State.print (s : State) (line : Chars) : State := { s with stdout := s.stdout ++ line ++ ['\n'] }

/-- `print line >> file1`. -/
def State.print1 (s : State) (line : Chars) : State := { s with out1 := s.out1 ++ line ++ ['\n'] }

/-- `print line >> file2`. -/
def State.print2 (s : State) (line : Chars) : State := { s with out2 := s.out2 ++ line ++ ['\n'] }

/-- `printf(text) >> file2`. -/
def State.printf2 (s : State) (text : Chars) : State := { s with out2 := s.out2 ++ text }

/-- The rule `BEGIN`. -/
def begin (o : Options) : State :=
  let s : State :=
    { fnr := 0, state := .code, offset := 0, name := [], remain := 0, blog := [], github := [],
      stdout := [], out1 := [], out2 := [] }
  let s := s.print ("// ===== start process file: ".toList ++ o.argv1)
  s.print ("// Author: ".toList ++ o.author)

/-- What the first record is preceded by in the two files. -/
def opening (o : Options) (s : State) : State :=
  let s := s.print1 ("// file name: ".toList ++ o.file1)
  let s := s.print1 ("// Author: ".toList ++ o.author)
  let s := s.print1 ("// ===== start process file: ".toList ++ o.filename)
  let s := s.print1 []
  let s := s.print2 ("// file name: ".toList ++ o.file2)
  let s := s.print2 ("// Author: ".toList ++ o.author)
  let s := s.print2 ("// ===== start process file: ".toList ++ o.filename)
  let s := s.print2 []
  s.print2 "unsigned char data[] = \x7b ".toList

/-- How many bytes bring a table of `offsetl` bytes to a multiple of 64. -/
def padding (offsetl : Int) : Int :=
  if offsetl.tmod 64 ≠ 0 then 64 - offsetl.tmod 64 else 0

/-- The header of a table. -/
def startTable (line : Chars) (s : State) : State :=
  let pos0 : Int := index line ['_']
  let pos1 : Int := index line ['[']
  let pos2 : Int := index line [']']
  let name := substr line pos0 (pos1 - pos0)
  let offsetstr := substr line (pos1 + 1) (pos2 - pos1 - 1)
  let offsetl := number offsetstr
  let s := { s with state := .table, name := name, remain := padding offsetl }
  let s := s.print1 ("    const unsigned char* ".toList ++ name ++ " = NULL;".toList)
  let s := s.print1
    ("    const unsigned int ".toList ++ name ++ "_offset = ".toList ++ numeral s.offset ++ [';'])
  let s := { s with offset := s.offset + (offsetl + s.remain) }
  s.print2 ("// start data: ".toList ++ name)

/-- `for (i = 0; i < remain; ++i) printf("0x00, ") >> file2`. -/
def zeros : Nat → State → State
  | 0, s => s
  | n + 1, s => zeros n (s.printf2 "0x00, ".toList)

/-- The closing line of a table. -/
def endTable (s : State) : State :=
  let s := s.print2 ("// end data: ".toList ++ s.name)
  let s := s.print2 [',']
  let s := s.print2 ("// ".toList ++ s.name ++ " remain: ".toList ++ numeral s.remain)
  let s := zeros s.remain.toNat s
  let s := s.print2 []
  { s with state := .code }

/-- The beginning of a header line. -/
def headerStart : Chars := "    const unsigned char".toList

/-- The beginning of a closing line. -/
def closingStart : Chars := "    \x7d;".toList

/-- What is done with a line of code, a line of a table, or a line between them. -/
def dispatch (s : State) (line : Chars) : State :=
  if s.state = .code ∧ startsWith line headerStart then startTable line s
  else if s.state = .table then
    if startsWith line closingStart then endTable s else s.print2 line
  else s.print1 line

/-- The rule for every record. -/
def rule (o : Options) (s : State) (line : Chars) : State :=
  let s := { s with fnr := s.fnr + 1 }
  let s := { s with blog := (quotedAfter "blog_name".toList line).getD s.blog }
  let s := { s with github := (quotedAfter "github_name".toList line).getD s.github }
  let s := if s.fnr = 1 then opening o s else s
  dispatch s line

/-- The rule `END`. -/
def finish (o : Options) (s : State) : State :=
  let s := s.printf2 "\x7d;\n\n".toList
  let s := s.print1 ("// blog: ".toList ++ s.blog ++ [' '])
  let s := s.print2 ("// github: ".toList ++ s.github ++ [' '])
  let s := s.print ("// ===== end process file: ".toList ++ o.filename)
  let s := s.print1 ("// ===== end process file: ".toList ++ o.filename)
  s.print2 ("// ===== end process file: ".toList ++ o.filename)

/-- The script on a text. -/
def pack (o : Options) (text : Chars) : State :=
  finish o ((records text).foldl (rule o) (begin o))

end LinuxSamples.Awk
