import LinuxSamples.Program.Runs
import Mathlib.Logic.Function.Basic
import Mathlib.Data.List.Range

set_option autoImplicit false

/-! # A heap of arrays

The memory a C++ class sees: a heap of arrays obtained from `new[]` and given back to `delete[]`,
and the objects of the class, each a record of fields. Pointers into the heap are array numbers;
`none` is the null pointer. Numbers are never used twice, so a pointer to a released array stays
recognisable as such.

The heap keeps a ledger of every allocation and every release. That the arrays still readable are
exactly those allocated and not released is a field of the structure (`Heap.ledger_iff`).

What the program does not decide is a parameter: `Platform` says which allocation requests are
refused and what a new array holds before it is written. -/

namespace LinuxSamples.Memory

open LinuxSamples.Program

variable {α β Obj : Type}

/-- Why a computation stops before its end. -/
inductive Fault
  /-- `abort()` was called. -/
  | abort
  /-- `new` threw `std::bad_alloc`. -/
  | badAlloc
  /-- A null pointer, or an index past the end of the array. -/
  | outOfBounds
  /-- The value of a byte that was never written is needed. -/
  | unwritten
  /-- The array was released before. -/
  | released
  /-- `delete[]` of an array that is not allocated. -/
  | badDelete
  /-- Source and target of a copy share an array. -/
  | overlap
  /-- A loop never ends. -/
  | diverges
  /-- The object does not exist. -/
  | noObject
  deriving DecidableEq, Repr

/-! ## Families compared entry by entry -/

section Rel

variable {γ : Type} {r q : β → γ → Prop} {x : Option β} {y : Option γ}

theorem rel_some_left {b : β} (h : Option.Rel r (some b) y) : ∃ c, y = some c ∧ r b c := by
  cases h with
  | some hbc => exact ⟨_, rfl, hbc⟩

theorem rel_some_right {c : γ} (h : Option.Rel r x (some c)) : ∃ b, x = some b ∧ r b c := by
  cases h with
  | some hbc => exact ⟨_, rfl, hbc⟩

theorem rel_none_iff (h : Option.Rel r x y) : x = none ↔ y = none := by
  cases h with
  | none => exact iff_of_true rfl rfl
  | some _ => exact iff_of_false (Option.some_ne_none _) (Option.some_ne_none _)

theorem rel_mono (h : Option.Rel r x y)
    (hrq : ∀ b c, x = some b → y = some c → r b c → q b c) : Option.Rel q x y := by
  cases h with
  | none => exact Option.Rel.none
  | some hbc => exact Option.Rel.some (hrq _ _ rfl rfl hbc)

/-- Related families stay related when both change at one place. -/
theorem rel_update {f : Nat → Option β} {g : Nat → Option γ} (h : ∀ j, Option.Rel r (f j) (g j))
    (hxy : Option.Rel r x y) (i j : Nat) :
    Option.Rel r (Function.update f i x j) (Function.update g i y j) := by
  by_cases hj : j = i
  · subst hj
    rw [Function.update_self, Function.update_self]
    exact hxy
  · rw [Function.update_of_ne hj, Function.update_of_ne hj]
    exact h j

end Rel

/-! ## Tables with fresh numbers -/

/-- A finite partial map whose entries get consecutive numbers. -/
structure Table (β : Type) where
  entry : Nat → Option β
  next : Nat
  fresh : ∀ c, next ≤ c → entry c = none

namespace Table

/-- The table without entries. -/
def empty : Table β := ⟨fun _ => none, 0, fun _ _ => rfl⟩

/-- Add an entry under the next number. -/
def add (t : Table β) (x : β) : Table β where
  entry := Function.update t.entry t.next (some x)
  next := t.next + 1
  fresh c hc := by
    rw [Function.update_of_ne (by omega)]
    exact t.fresh c (by omega)

/-- Use up a number without an entry. -/
def skip (t : Table β) : Table β := ⟨t.entry, t.next + 1, fun c hc => t.fresh c (by omega)⟩

/-- Replace entry `c`; nothing happens when there is none. -/
def set (t : Table β) (c : Nat) (x : β) : Table β where
  entry := Function.update t.entry c ((t.entry c).map fun _ => x)
  next := t.next
  fresh d hd := by
    by_cases hdc : d = c
    · subst hdc
      simp [t.fresh d hd]
    · rw [Function.update_of_ne hdc]
      exact t.fresh d hd

/-- Remove entry `c`. -/
def erase (t : Table β) (c : Nat) : Table β where
  entry := Function.update t.entry c none
  next := t.next
  fresh d hd := by
    by_cases hdc : d = c
    · subst hdc
      exact Function.update_self ..
    · rw [Function.update_of_ne hdc]
      exact t.fresh d hd

@[simp] theorem empty_entry (c : Nat) : (empty : Table β).entry c = none := rfl

@[simp] theorem empty_next : (empty : Table β).next = 0 := rfl

@[simp] theorem add_entry (t : Table β) (x : β) :
    (t.add x).entry = Function.update t.entry t.next (some x) := rfl

@[simp] theorem add_next (t : Table β) (x : β) : (t.add x).next = t.next + 1 := rfl

@[simp] theorem set_next (t : Table β) (c : Nat) (x : β) : (t.set c x).next = t.next := rfl

@[simp] theorem erase_entry (t : Table β) (c : Nat) :
    (t.erase c).entry = Function.update t.entry c none := rfl

@[simp] theorem erase_next (t : Table β) (c : Nat) : (t.erase c).next = t.next := rfl

theorem set_entry {t : Table β} {c : Nat} {y : β} (h : t.entry c = some y) (x : β) :
    (t.set c x).entry = Function.update t.entry c (some x) := by
  simp [set, h]

theorem set_entry_self {t : Table β} {c : Nat} {y : β} (h : t.entry c = some y) (x : β) :
    (t.set c x).entry c = some x := by
  rw [set_entry h, Function.update_self]

theorem lt_next {t : Table β} {c : Nat} {x : β} (h : t.entry c = some x) : c < t.next := by
  by_contra hle
  rw [t.fresh c (by omega)] at h
  cases h

theorem add_entry_self (t : Table β) (x : β) : (t.add x).entry t.next = some x :=
  Function.update_self ..

theorem add_entry_old {t : Table β} {c : Nat} {y : β} (h : t.entry c = some y) (x : β) :
    (t.add x).entry c = some y := by
  rw [add_entry, Function.update_of_ne (Nat.ne_of_lt (lt_next h))]
  exact h

/-- A temporary entry is gone again. -/
theorem add_erase_entry (t : Table β) (x : β) : ((t.add x).erase t.next).entry = t.entry := by
  rw [erase_entry, add_entry, Function.update_idem, ← t.fresh t.next (Nat.le_refl _),
    Function.update_eq_self]

@[ext] theorem ext {t u : Table β} (hentry : t.entry = u.entry) (hnext : t.next = u.next) :
    t = u := by
  cases t
  cases u
  cases hentry
  cases hnext
  rfl

theorem set_set (t : Table β) (c : Nat) (x y : β) : (t.set c x).set c y = t.set c y := by
  ext d z
  · by_cases hd : d = c
    · subst hd
      cases h : t.entry d <;> simp [set, h]
    · simp [set, Function.update_of_ne hd]
  · rfl

theorem add_set (t : Table β) (x y : β) : (t.add x).set t.next y = t.add y := by
  ext d z
  · rw [set_entry (x := y) (y := x) (Function.update_self ..)]
    simp
  · rfl

theorem set_self {t : Table β} {c : Nat} {x : β} (h : t.entry c = some x) : t.set c x = t := by
  ext d z
  · rw [set_entry h, ← h, Function.update_eq_self]
  · rfl

end Table

/-! ## The heap -/

/-- A line of the allocation ledger. -/
inductive Event
  | allocated (b : Nat)
  | released (b : Nat)
  deriving DecidableEq, Repr

/-- The arrays of the heap, with the ledger (latest line first). -/
structure Heap (α : Type) where
  arrays : Table (List α)
  ledger : List Event
  ledger_iff : ∀ b, (arrays.entry b).isSome ↔
    Event.allocated b ∈ ledger ∧ Event.released b ∉ ledger
  ledger_lt : ∀ b, Event.allocated b ∈ ledger ∨ Event.released b ∈ ledger → b < arrays.next

namespace Heap

/-- The contents of array `b`, unless it was released or never allocated. -/
def array (h : Heap α) (b : Nat) : Option (List α) := h.arrays.entry b

/-- The number of the next array. -/
def next (h : Heap α) : Nat := h.arrays.next

def empty : Heap α := ⟨Table.empty, [], by simp, by simp⟩

/-- Allocate an array with the given contents. -/
def alloc (h : Heap α) (slots : List α) : Heap α where
  arrays := h.arrays.add slots
  ledger := .allocated h.next :: h.ledger
  ledger_iff b := by
    have hnext := h.ledger_lt h.arrays.next
    by_cases hb : b = h.arrays.next
    · subst hb
      have hr : Event.released h.arrays.next ∉ h.ledger := fun hm => by
        have := hnext (Or.inr hm)
        omega
      simp [next, hr]
    · simp [next, h.ledger_iff b, hb]
  ledger_lt b hb := by
    have hold := h.ledger_lt b
    simp only [next, List.mem_cons, Event.allocated.injEq, reduceCtorEq, false_or] at hb
    simp only [Table.add_next]
    rcases hb with (rfl | hb) | hb
    · omega
    · have := hold (Or.inl hb)
      omega
    · have := hold (Or.inr hb)
      omega

/-- A refused request uses up its number. -/
def skip (h : Heap α) : Heap α :=
  ⟨h.arrays.skip, h.ledger, h.ledger_iff, fun b hb => Nat.lt_succ_of_lt (h.ledger_lt b hb)⟩

/-- Overwrite array `b`; nothing happens when it is not allocated. -/
def write (h : Heap α) (b : Nat) (slots : List α) : Heap α where
  arrays := h.arrays.set b slots
  ledger := h.ledger
  ledger_iff c := by
    rw [← h.ledger_iff c]
    by_cases hc : c = b
    · subst hc
      simp [Table.set]
    · simp [Table.set, Function.update_of_ne hc]
  ledger_lt := h.ledger_lt

/-- Release array `b`; nothing happens when it is not allocated. -/
def release (h : Heap α) (b : Nat) : Heap α :=
  if hb : (h.array b).isSome then
    { arrays := h.arrays.erase b
      ledger := .released b :: h.ledger
      ledger_iff c := by
        by_cases hc : c = b
        · subst hc
          simp
        · simp [h.ledger_iff c, hc]
      ledger_lt c hc := by
        simp only [List.mem_cons, reduceCtorEq, Event.released.injEq, false_or] at hc
        simp only [Table.erase_next]
        rcases hc with hc | rfl | hc
        · exact h.ledger_lt c (Or.inl hc)
        · exact h.ledger_lt c (Or.inl ((h.ledger_iff c).1 hb).1)
        · exact h.ledger_lt c (Or.inr hc) }
  else h

@[simp] theorem empty_array (b : Nat) : (empty : Heap α).array b = none := rfl

@[simp] theorem empty_ledger : (empty : Heap α).ledger = [] := rfl

@[simp] theorem alloc_array (h : Heap α) (slots : List α) :
    (h.alloc slots).array = Function.update h.array h.next (some slots) := rfl

@[simp] theorem alloc_next (h : Heap α) (slots : List α) :
    (h.alloc slots).next = h.next + 1 := rfl

@[simp] theorem alloc_ledger (h : Heap α) (slots : List α) :
    (h.alloc slots).ledger = .allocated h.next :: h.ledger := rfl

@[simp] theorem write_next (h : Heap α) (b : Nat) (slots : List α) :
    (h.write b slots).next = h.next := rfl

@[simp] theorem write_ledger (h : Heap α) (b : Nat) (slots : List α) :
    (h.write b slots).ledger = h.ledger := rfl

theorem write_array {h : Heap α} {b : Nat} {old : List α} (hb : h.array b = some old)
    (slots : List α) : (h.write b slots).array = Function.update h.array b (some slots) :=
  Table.set_entry hb slots

@[simp] theorem release_array (h : Heap α) (b : Nat) :
    (h.release b).array = Function.update h.array b none := by
  unfold release
  split
  · rfl
  · next hb =>
      have hnone : h.array b = none := by simpa using hb
      rw [← hnone, Function.update_eq_self]

@[simp] theorem release_next (h : Heap α) (b : Nat) : (h.release b).next = h.next := by
  unfold release
  split <;> rfl

theorem release_ledger {h : Heap α} {b : Nat} {slots : List α} (hb : h.array b = some slots) :
    (h.release b).ledger = .released b :: h.ledger := by
  rw [release, dif_pos (by simp [hb])]

theorem lt_next {h : Heap α} {b : Nat} {slots : List α} (hb : h.array b = some slots) :
    b < h.next :=
  Table.lt_next hb

theorem array_next (h : Heap α) : h.array h.next = none := h.arrays.fresh _ (Nat.le_refl _)

@[ext] theorem ext {g h : Heap α} (harrays : g.arrays = h.arrays) (hledger : g.ledger = h.ledger) :
    g = h := by
  cases g
  cases h
  cases harrays
  cases hledger
  rfl

@[simp] theorem write_write (h : Heap α) (b : Nat) (x y : List α) :
    (h.write b x).write b y = h.write b y := by
  ext1
  · exact Table.set_set ..
  · rfl

/-- Filling the newest array. -/
theorem alloc_write (h : Heap α) (x y : List α) : (h.alloc x).write h.next y = h.alloc y := by
  ext1
  · exact Table.add_set ..
  · rfl

theorem write_self {h : Heap α} {b : Nat} {slots : List α} (hb : h.array b = some slots) :
    h.write b slots = h := by
  ext1
  · exact Table.set_self hb
  · rfl

end Heap

end LinuxSamples.Memory
