import LinuxSamples.Memory.Store

set_option autoImplicit false

/-! # `fbcstd::vector<T>`

The class template of `Samples_STL_Implementation/src/vector.hpp`, member function by member
function. A `size_t` is a natural number below `2 ^ 64`; where the source computes one, the result
is reduced by `wrap`. `Element` collects what the template needs of `T`: its copy assignment, the
result of assigning an object to itself, the value `value_type()`, and the comparisons. -/

namespace LinuxSamples.Vector

open LinuxSamples.Program LinuxSamples.Memory

/-- The data members of a `vector`. -/
structure Fields where
  size_ : Nat
  capacity_ : Nat
  buffer_ : Option Nat
  deriving DecidableEq, Repr

/-- What the template uses of its element type. -/
structure Element (T : Type) where
  /-- What `t = x` leaves in `t`, for an object `x` other than `t`; from the old value of `t` and
      the value of `x`. -/
  assign : T → T → T
  /-- What `t = t` leaves in `t`. -/
  selfAssign : T → T
  /-- `value_type()`. -/
  value : T
  /-- `operator!=`. -/
  ne : T → T → Bool
  /-- `operator>`. -/
  gt : T → T → Bool

/-- Copy assignment from a distinct object makes the target equal to the source. -/
def Element.Copies {T : Type} (E : Element T) : Prop := ∀ old x, E.assign old x = x

/-- The operations of a built-in type such as `int`. -/
def Element.builtin {T : Type} [DecidableEq T] [LT T] [DecidableLT T] (value : T) : Element T where
  assign _ x := x
  selfAssign x := x
  value := value
  ne x y := x ≠ y
  gt x y := y < x

theorem Element.builtin_copies {T : Type} [DecidableEq T] [LT T] [DecidableLT T] (value : T) :
    (Element.builtin value).Copies :=
  fun _ _ => rfl

variable {T : Type}

/-- A piece of code of `vector<T>`. -/
abbrev VecProg (T β : Type) : Type := Prog Fields T β

/-- A `T&` into an array: the array and the index. -/
structure Slot where
  array : Option Nat
  index : Nat
  deriving DecidableEq, Repr

/-- A `const T&`: to an object outside all arrays, or to a slot. -/
inductive Ref (T : Type)
  | value (x : T)
  | slot (p : Slot)

/-- The value a reference leads to when it is read. -/
def Ref.read : Ref T → VecProg T T
  | .value x => pure x
  | .slot p => load p.array p.index

/-- The reference leads to the object in slot `p`. -/
def Ref.isSlot (p : Slot) : Ref T → Bool
  | .value _ => false
  | .slot q => p = q

variable (P : Platform T) (E : Element T)

/-- `dst = src`, the copy assignment of `T`. -/
def assign (dst : Slot) (src : Ref T) : VecProg T Unit := do
  let x ← src.read
  let old ← load dst.array dst.index
  store dst.array dst.index (if src.isSlot dst then E.selfAssign x else E.assign old x)

/-! ## Constructors, capacity -/

/-- `vector()`. -/
def default : VecProg T Nat := newObject ⟨0, 0, none⟩

/-- `while (capacity_ < n) capacity_ *= 2;`, cut off after a number of tests. -/
def doubling (n : Nat) : Nat → Nat → Option Nat
  | 0, _ => none
  | fuel + 1, capacity => if capacity < n then doubling n fuel (wrap (capacity * 2)) else some capacity

/-- The capacity `reserve(n)` settles on. Sixty-four tests decide the loop: by then the doubled
    value has wrapped to 0 and stays there. -/
def grown (n : Nat) : Option Nat := if 1 < n then doubling n 64 2 else some 1

/-- `reserve(n)`. -/
def reserve (this n : Nat) : VecProg T Unit := do
  let v ← object this
  onlyIf (v.capacity_ < n) do
    deleteArray v.buffer_
    match grown n with
    | none => throw .diverges
    | some c =>
        modifyObject this fun v => { v with capacity_ := c }
        let b ← newArray P c
        modifyObject this fun v => { v with buffer_ := some b }

/-- `for (i = lo; i < hi; ++i) buffer_[i] = val;` -/
def fill (this lo hi : Nat) (val : Ref T) : VecProg T Unit :=
  forUp (fun i => do
    let v ← object this
    assign E ⟨v.buffer_, i⟩ val) lo (hi - lo)

/-- `vector(n, val)`. -/
def construct (n : Nat) (val : Ref T) : VecProg T Nat := do
  let this ← newObject ⟨0, 0, none⟩
  reserve P this n
  modifyObject this fun v => { v with size_ := n }
  fill E this 0 n val
  return this

/-- `for (i = 0; i < n; ++i) buffer_[i] = x.buffer_[i];` -/
def copyFrom (this x n : Nat) : VecProg T Unit :=
  forUp (fun i => do
    let v ← object this
    let w ← object x
    assign E ⟨v.buffer_, i⟩ (.slot ⟨w.buffer_, i⟩)) 0 n

/-- `vector(const vector& x)`. -/
def copyConstruct (x : Nat) : VecProg T Nat := do
  let this ← newObject ⟨0, 0, none⟩
  let w ← object x
  reserve P this w.size_
  modifyObject this fun v => { v with size_ := w.size_ }
  copyFrom E this x w.size_
  return this

/-- `~vector()`. -/
def destroy (this : Nat) : VecProg T Unit := do
  let v ← object this
  deleteArray v.buffer_
  dropObject this

/-- `capacity()`. -/
def capacity (this : Nat) : VecProg T Nat := do return (← object this).capacity_

/-- `size()`. -/
def size (this : Nat) : VecProg T Nat := do return (← object this).size_

/-- `empty()`. -/
def empty (this : Nat) : VecProg T Bool := do return (← object this).size_ = 0

/-! ## Element access -/

/-- `at(n)`. -/
def at' (this n : Nat) : VecProg T Slot := do
  let v ← object this
  if v.size_ ≤ n then throw .abort
  else return ⟨v.buffer_, n⟩

/-- `operator[](n)`. -/
def index (this n : Nat) : VecProg T Slot := do
  let v ← object this
  if v.size_ ≤ n then throw .abort
  else return ⟨v.buffer_, n⟩

/-- `back()`. -/
def back (this : Nat) : VecProg T Slot := do
  let v ← object this
  if v.size_ = 0 then throw .abort
  else return ⟨v.buffer_, v.size_ - 1⟩

/-- `front()`. -/
def front (this : Nat) : VecProg T Slot := do
  let v ← object this
  if v.size_ = 0 then throw .abort
  else return ⟨v.buffer_, 0⟩

/-- `data()` and `begin()`. -/
def begin (this : Nat) : VecProg T Slot := do return ⟨(← object this).buffer_, 0⟩

/-- `end()`. -/
def end' (this : Nat) : VecProg T Slot := do
  let v ← object this
  return ⟨v.buffer_, v.size_⟩

/-- The values `*it` for `it` from `p`, `count` times incremented. -/
def scan (p : Slot) : Nat → VecProg T (List T)
  | 0 => pure []
  | count + 1 => do
      let x ← load p.array p.index
      let rest ← scan ⟨p.array, p.index + 1⟩ count
      return x :: rest

/-- `for (it = begin(); it != end(); ++it)`: the values of `*it` in order. -/
def iterate (this : Nat) : VecProg T (List T) := do
  let first ← begin this
  let last ← end' this
  scan first (last.index - first.index)

/-! ## Modifiers -/

/-- `operator=(const vector& x)`. -/
def operatorAssign (this x : Nat) : VecProg T Unit := do
  let w ← object x
  reserve P this w.size_
  modifyObject this fun v => { v with size_ := w.size_ }
  copyFrom E this x w.size_

/-- `clear()`. -/
def clear (this : Nat) : VecProg T Unit := modifyObject this fun v => { v with size_ := 0 }

/-- The lines `push_back` and `resize` share: save the elements in a temporary array, reserve,
    copy them back. -/
def regrow (this n : Nat) : VecProg T Unit := do
  let v ← object this
  let tmp ← newArray P v.size_
  forUp (fun i => assign E ⟨some tmp, i⟩ (.slot ⟨v.buffer_, i⟩)) 0 v.size_
  reserve P this n
  let v ← object this
  forUp (fun i => assign E ⟨v.buffer_, i⟩ (.slot ⟨some tmp, i⟩)) 0 v.size_
  deleteArray (some tmp)

/-- `push_back(val)`. -/
def pushBack (this : Nat) (val : Ref T) : VecProg T Unit := do
  let v ← object this
  onlyIf (v.capacity_ ≤ v.size_) (regrow P E this (wrap (v.size_ + 1)))
  let v ← object this
  assign E ⟨v.buffer_, v.size_⟩ val
  modifyObject this fun v => { v with size_ := wrap (v.size_ + 1) }

/-- `pop_back()`. -/
def popBack (this : Nat) : VecProg T Unit := do
  let v ← object this
  if v.size_ = 0 then throw .abort
  else modifyObject this fun v => { v with size_ := v.size_ - 1 }

/-- `resize(n, val)`; `val` is passed by value. -/
def resize (this n : Nat) (val : T) : VecProg T Unit := do
  let v ← object this
  onlyIf (v.size_ < n) do
    onlyIf (v.capacity_ < n) (regrow P E this n)
    fill E this v.size_ n (.value val)
  modifyObject this fun v => { v with size_ := n }

/-! ## Equality -/

/-- The value `v[i]`. -/
def get (this i : Nat) : VecProg T T := do
  let p ← index this i
  load p.array p.index

/-- `for (i = i; i < i + count; ++i) if (lhs[i] != rhs[i]) return false; return true;` -/
def equalFrom (lhs rhs i : Nat) : Nat → VecProg T Bool
  | 0 => pure true
  | count + 1 => do
      let x ← get lhs i
      let y ← get rhs i
      if E.ne x y then return false
      else equalFrom lhs rhs (i + 1) count

/-- `operator==`. -/
def operatorEq (lhs rhs : Nat) : VecProg T Bool := do
  let n ← size lhs
  let m ← size rhs
  if n ≠ m then return false
  else equalFrom E lhs rhs 0 n

/-- `operator!=`. -/
def operatorNe (lhs rhs : Nat) : VecProg T Bool := do return !(← operatorEq E lhs rhs)

end LinuxSamples.Vector
