import LinuxSamples.Memory.CString

set_option autoImplicit false

/-! # `fbcstd::string`

The class of `Samples_STL_Implementation/src/string.hpp`, member function by member function. A new
array of `char` holds no values until it is written. `refuses` says which allocation requests throw
`std::bad_alloc`. A returned local object is the result itself: its copy is elided. -/

namespace LinuxSamples.FbcString

open LinuxSamples.Program LinuxSamples.Memory

/-- The data members of a `string`. -/
structure Fields where
  size_ : Nat
  buffer_ : Option Nat
  deriving DecidableEq, Repr

/-- A piece of code of `string`. -/
abbrev StrProg (β : Type) : Type := CharProg Fields β

/-- The surroundings of a program: new arrays of `char` hold no values. -/
def unwritten (refuses : Nat → Bool) : Platform (Option UInt8) := ⟨refuses, fun _ _ => none⟩

/-- `string::npos`. -/
def npos : Nat := 2 ^ 64 - 1

variable (refuses : Nat → Bool)

/-- `new char[n]`. -/
def newChars (n : Nat) : StrProg Nat := newArray (unwritten refuses) n

/-! ## Constructors, observers -/

/-- `size_ = 0; buffer_ = new char[1]; buffer_[0] = '\0';` -/
def becomeEmpty (this : Nat) : StrProg Unit := do
  modifyObject this fun v => { v with size_ := 0 }
  let b ← newChars refuses 1
  modifyObject this fun v => { v with buffer_ := some b }
  store (some b) 0 (some 0)

/-- `size_ = n; buffer_ = new char[size_+1];` -/
def allocate (this n : Nat) : StrProg (Option Nat) := do
  modifyObject this fun v => { v with size_ := n }
  let b ← newChars refuses (wrap (n + 1))
  modifyObject this fun v => { v with buffer_ := some b }
  return some b

/-- `c_str()` and `data()`. -/
def c_str (this : Nat) : StrProg CPtr := do return .heap (← object this).buffer_ 0

/-- `size()` and `length()`. -/
def size (this : Nat) : StrProg Nat := do return (← object this).size_

/-- `empty()`. -/
def empty (this : Nat) : StrProg Bool := do return (← object this).size_ = 0

/-- `string()`. -/
def default : StrProg Nat := do
  let this ← newObject ⟨0, none⟩
  becomeEmpty refuses this
  return this

/-- `string(const string& str)`. -/
def copyConstruct (str : Nat) : StrProg Nat := do
  let this ← newObject ⟨0, none⟩
  let w ← object str
  let b ← allocate refuses this w.size_
  strcpy b (.heap w.buffer_ 0)
  return this

/-- `string(const string& str, size_t pos, size_t len)`. -/
def substring (str pos len : Nat) : StrProg Nat := do
  let this ← newObject ⟨0, none⟩
  let w ← object str
  if pos > w.size_ then do
    becomeEmpty refuses this
    return this
  else do
    let n := if wrap (pos + len) > w.size_ then w.size_ - pos else len
    let b ← allocate refuses this n
    forUp (fun i => do
      let c ← load w.buffer_ (pos + i)
      store b i c) 0 n
    store b n (some 0)
    return this

/-- `string(const char* s)`. -/
def ofCString (s : CPtr) : StrProg Nat := do
  let this ← newObject ⟨0, none⟩
  let n ← strlen s
  let b ← allocate refuses this n
  strcpy b s
  return this

/-- `string(const char* s, size_t n)`. -/
def ofCStringN (s : CPtr) (n : Nat) : StrProg Nat := do
  let this ← newObject ⟨0, none⟩
  let m ← strlen s
  if m ≤ n then do
    let b ← allocate refuses this m
    strcpy b s
    return this
  else do
    let b ← allocate refuses this n
    strncpy b s n
    return this

/-- `string(size_t n, char c)`. -/
def ofChar (n : Nat) (c : UInt8) : StrProg Nat := do
  let this ← newObject ⟨0, none⟩
  let b ← allocate refuses this n
  memset b c n
  return this

/-- `~string()`. -/
def destroy (this : Nat) : StrProg Unit := do
  let v ← object this
  deleteArray v.buffer_
  dropObject this

/-! ## Modifiers -/

/-- `operator=(const string& str)` and `assign(const string& str)`. -/
def assign (this str : Nat) : StrProg Unit := do
  let v ← object this
  onlyIf (v.size_ ≠ 0) (deleteArray v.buffer_)
  let w ← object str
  let b ← allocate refuses this w.size_
  let p ← c_str str
  strcpy b p

/-- `operator=(const char* s)` and `assign(const char* s)`. -/
def assignCString (this : Nat) (s : CPtr) : StrProg Unit := do
  let v ← object this
  onlyIf (v.size_ ≠ 0) (deleteArray v.buffer_)
  let n ← strlen s
  let b ← allocate refuses this n
  strcpy b s

/-- `operator=(char c)`. -/
def assignChar (this : Nat) (c : UInt8) : StrProg Unit := do
  let v ← object this
  onlyIf (v.size_ ≠ 1) (deleteArray v.buffer_)
  let b ← allocate refuses this 1
  store b 0 (some c)
  store b 1 (some 0)

/-- The lines the overloads of `operator+=` share, after `size_` is updated: the text and the
    argument are put together in a new buffer, which replaces the old one. -/
def concatenate (this : Nat) (argument : StrProg CPtr) : StrProg Unit := do
  let v ← object this
  let data ← newChars refuses (wrap (v.size_ + 1))
  strcpy (some data) (.heap v.buffer_ 0)
  let p ← argument
  strcat (some data) p
  deleteArray v.buffer_
  modifyObject this fun v => { v with buffer_ := some data }

/-- `operator+=(const string& str)` and `append(const string& str)`. -/
def append (this str : Nat) : StrProg Unit := do
  let w ← object str
  modifyObject this fun v => { v with size_ := wrap (v.size_ + w.size_) }
  concatenate refuses this (c_str str)

/-- `operator+=(const char* s)` and `append(const char* s)`. -/
def appendCString (this : Nat) (s : CPtr) : StrProg Unit := do
  let n ← strlen s
  modifyObject this fun v => { v with size_ := wrap (v.size_ + n) }
  concatenate refuses this (pure s)

/-- `&c` for a parameter `c` of type `char`: a pointer to the one byte, and behind it to whatever
    follows it in memory. -/
def addressOf (c : UInt8) (after : List UInt8) : CPtr := .external (c :: after)

/-- `operator+=(char c)`. -/
def appendChar (this : Nat) (c : UInt8) (after : List UInt8) : StrProg Unit := do
  modifyObject this fun v => { v with size_ := wrap (v.size_ + 1) }
  concatenate refuses this (pure (addressOf c after))

/-- `clear()`. -/
def clear (this : Nat) : StrProg Unit := do
  let v ← object this
  deleteArray v.buffer_
  becomeEmpty refuses this

/-- `str[pos] = c` and `str.at(pos) = c`. -/
def set (this pos : Nat) (c : UInt8) : StrProg Unit := do
  let v ← object this
  store v.buffer_ pos (some c)

/-! ## Comparison, concatenation -/

/-- `compare(const string& str)`. -/
def compare (this str : Nat) : StrProg Int := do
  let v ← object this
  let w ← object str
  strcmp (.heap v.buffer_ 0) (.heap w.buffer_ 0)

/-- `compare(const char* s)`. -/
def compareCString (this : Nat) (s : CPtr) : StrProg Int := do
  let v ← object this
  strcmp (.heap v.buffer_ 0) s

/-- `operator + (const string& lhs, const string& rhs)`. -/
def plus (lhs rhs : Nat) : StrProg Nat := do
  let str ← copyConstruct refuses lhs
  append refuses str rhs
  return str

/-- `operator + (const string& lhs, const char* rhs)`. -/
def plusCString (lhs : Nat) (rhs : CPtr) : StrProg Nat := do
  let str ← copyConstruct refuses lhs
  appendCString refuses str rhs
  return str

/-- `operator + (const char* lhs, const string& rhs)`. -/
def cstringPlus (lhs : CPtr) (rhs : Nat) : StrProg Nat := do
  let str ← ofCString refuses lhs
  append refuses str rhs
  return str

/-- `operator + (const string& lhs, char rhs)`; the byte whose address is taken is the parameter of the
    `operator+=` it calls. -/
def plusChar (lhs : Nat) (rhs : UInt8) (after : List UInt8) : StrProg Nat := do
  let str ← copyConstruct refuses lhs
  appendChar refuses str rhs after
  return str

/-- `operator + (char lhs, const string& rhs)`. -/
def charPlus (lhs : UInt8) (after : List UInt8) (rhs : Nat) : StrProg Nat := do
  let str ← ofCString refuses (addressOf lhs after)
  append refuses str rhs
  return str

end LinuxSamples.FbcString
