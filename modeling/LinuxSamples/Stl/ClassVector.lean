import LinuxSamples.Stl.VectorRuns

set_option autoImplicit false

/-! # `fbcstd::vector<T>` of a class `T`

When `T` is a class, the slots of a vector's buffer are objects of it: `new T[n]` constructs them,
`delete []` destroys them, and `buffer_[i] = x` calls the `operator=` of `T`. A `Class` is what its
members do to a state in which its objects have numbers. The state of the vectors has a second part for
these objects, and the slots hold their numbers.

Statements are those of `Vector.Op`. -/

namespace LinuxSamples.ClassVector

open LinuxSamples.Program LinuxSamples.Memory
open LinuxSamples.Vector (Access Arg Op Slot grown)

/-- The members of a class that `vector` uses. `make x` is how a program comes by an object with the
    value `x`. -/
structure Class (τ X : Type) where
  construct : EStateM Fault τ Nat
  make : X → EStateM Fault τ Nat
  copyConstruct : Nat → EStateM Fault τ Nat
  /-- `*this = x`. -/
  assign : Nat → Nat → EStateM Fault τ Unit
  destroy : Nat → EStateM Fault τ Unit

/-- The vectors, with the numbers of the objects in their slots, and the objects. -/
abbrev State (τ : Type) : Type := Store Vector.Fields Nat × τ

abbrev Code (τ β : Type) : Type := EStateM Fault (State τ) β

variable {τ X : Type} (P : Platform Nat) (C : Class τ X)

/-! ## Arrays of objects -/

def destroyAll : List Nat → Code τ Unit
  | [] => pure ()
  | e :: rest => do
      onSecond (C.destroy e)
      destroyAll rest

/-- `delete [] p`: the last object is destroyed first. -/
def deleteObjects (p : Option Nat) : Code τ Unit :=
  match p with
  | none => pure ()
  | some b => do
      let elems ← onFirst (contents (some b))
      destroyAll C elems.reverse
      onFirst (deleteArray (some b))

/-- The objects of slots `k, k + 1, …` of a new array are constructed; if one of their constructors
    throws, those constructed before it are destroyed. -/
def constructAll (b k : Nat) : Nat → Code τ Unit
  | 0 => pure ()
  | count + 1 => do
      let e ← onSecond C.construct
      onFirst (store (some b) k e)
      orCleanUp (constructAll b (k + 1) count) (onSecond (C.destroy e))

/-- `new T[n]`. -/
def newObjects (n : Nat) : Code τ Nat := do
  let b ← onFirst (newArray P n)
  orCleanUp (constructAll C b 0 n) (onFirst (deleteArray (some b)))
  return b

/-! ## Member functions -/

/-- `reserve(n)`. -/
def reserve (this n : Nat) : Code τ Unit := do
  let v ← onFirst (object this)
  onlyIf (v.capacity_ < n) do
    deleteObjects C v.buffer_
    match grown n with
    | none => throw .diverges
    | some c =>
        onFirst (modifyObject this fun v => { v with capacity_ := c })
        let b ← newObjects P C c
        onFirst (modifyObject this fun v => { v with buffer_ := some b })

/-- `for (i = lo; i < hi; ++i) buffer_[i] = val;` -/
def fill (this lo hi val : Nat) : Code τ Unit :=
  forUp (fun i => do
    let v ← onFirst (object this)
    let dst ← onFirst (load v.buffer_ i)
    onSecond (C.assign dst val)) lo (hi - lo)

/-- `for (i = 0; i < n; ++i) buffer_[i] = x.buffer_[i];` -/
def copyFrom (this x n : Nat) : Code τ Unit :=
  forUp (fun i => do
    let v ← onFirst (object this)
    let dst ← onFirst (load v.buffer_ i)
    let w ← onFirst (object x)
    let src ← onFirst (load w.buffer_ i)
    onSecond (C.assign dst src)) 0 n

/-- `vector(n, val)`. -/
def construct (n val : Nat) : Code τ Nat := do
  let this ← onFirst (newObject ⟨0, 0, none⟩)
  reserve P C this n
  onFirst (modifyObject this fun v => { v with size_ := n })
  fill C this 0 n val
  return this

/-- `operator=(const vector& x)`. -/
def operatorAssign (this x : Nat) : Code τ Unit := do
  let w ← onFirst (object x)
  reserve P C this w.size_
  onFirst (modifyObject this fun v => { v with size_ := w.size_ })
  copyFrom C this x w.size_

/-- `vector(const vector& x)`. -/
def copyConstruct (x : Nat) : Code τ Nat := do
  let this ← onFirst (newObject ⟨0, 0, none⟩)
  let w ← onFirst (object x)
  reserve P C this w.size_
  onFirst (modifyObject this fun v => { v with size_ := w.size_ })
  copyFrom C this x w.size_
  return this

/-- `~vector()`. -/
def destroy (this : Nat) : Code τ Unit := do
  let v ← onFirst (object this)
  deleteObjects C v.buffer_
  onFirst (dropObject this)

/-- The lines `push_back` and `resize` share. -/
def regrow (this n : Nat) : Code τ Unit := do
  let v ← onFirst (object this)
  let tmp ← newObjects P C v.size_
  forUp (fun i => do
    let dst ← onFirst (load (some tmp) i)
    let src ← onFirst (load v.buffer_ i)
    onSecond (C.assign dst src)) 0 v.size_
  reserve P C this n
  let v ← onFirst (object this)
  forUp (fun i => do
    let dst ← onFirst (load v.buffer_ i)
    let src ← onFirst (load (some tmp) i)
    onSecond (C.assign dst src)) 0 v.size_
  deleteObjects C (some tmp)

/-- `push_back(val)`. -/
def pushBack (this val : Nat) : Code τ Unit := do
  let v ← onFirst (object this)
  onlyIf (v.capacity_ ≤ v.size_) (regrow P C this (wrap (v.size_ + 1)))
  let v ← onFirst (object this)
  let dst ← onFirst (load v.buffer_ v.size_)
  onSecond (C.assign dst val)
  onFirst (modifyObject this fun v => { v with size_ := wrap (v.size_ + 1) })

/-- `resize(n, val)`, where `val` is the parameter. -/
def resize (this n val : Nat) : Code τ Unit := do
  let v ← onFirst (object this)
  onlyIf (v.size_ < n) do
    onlyIf (v.capacity_ < n) (regrow P C this n)
    fill C this v.size_ n val
  onFirst (modifyObject this fun v => { v with size_ := n })

/-! ## Statements -/

/-- The object that `at`, `[]`, `front` or `back` leads to. -/
def element (a : Access) (this : Nat) : Code τ Nat := onFirst (a.read this)

/-- `m` with an object that is destroyed after it, also when `m` throws. -/
def withTemporary (make : EStateM Fault τ Nat) (m : Nat → Code τ Unit) : Code τ Unit := do
  let e ← onSecond make
  orCleanUp (m e) (onSecond (C.destroy e))
  onSecond (C.destroy e)

/-- A call with an argument for a `const T&`. -/
def withReference (val : Arg X) (m : Nat → Code τ Unit) : Code τ Unit :=
  match val with
  | .value x => withTemporary C (C.make x) m
  | .element j a => do
      let e ← element a j
      m e

/-- A call with an argument for a `T`. -/
def withParameter (val : Arg X) (m : Nat → Code τ Unit) : Code τ Unit :=
  match val with
  | .value x => withTemporary C (C.make x) m
  | .element j a => do
      let e ← element a j
      withTemporary C (C.copyConstruct e) m

/-- What the code does. -/
def run : Op X → Code τ Unit
  | .default => do
      let _ ← onFirst Vector.default
  | .construct n val => withReference C val fun e => do
      let _ ← construct P C n e
  | .copy j => do
      -- the vector to be copied exists before the copy does
      let _ ← onFirst (object j)
      let _ ← copyConstruct P C j
  | .assign i j => operatorAssign P C i j
  | .pushBack i val => withReference C val (pushBack P C i)
  | .popBack i => onFirst (Vector.popBack i)
  | .resize i n val => withParameter C val (resize P C i n)
  | .clear i => onFirst (Vector.clear i)
  | .write i a val => withReference C val fun e => do
      let dst ← element a i
      onSecond (C.assign dst e)
  | .reserve i n => reserve P C i n
  | .destroy i => destroy C i

end LinuxSamples.ClassVector
