import LinuxSamples.Memory.Heap
import Mathlib.Algebra.Ring.Nat

set_option autoImplicit false

/-! # Objects and arrays: the primitive steps of a member function

`Store Obj α` holds the objects of a class, whose fields are `Obj`, and the heap of arrays of `α`.
A member function is a `Prog`: it reads and writes fields of numbered objects, allocates, reads,
writes and releases arrays, and stops with a `Fault` where C++ leaves the behaviour undefined, throws
or aborts. Each primitive has one lemma that says what it returns. -/

namespace LinuxSamples.Memory

open LinuxSamples.Program

variable {α Obj : Type}

/-- `size_t` arithmetic is modulo `2 ^ 64`. -/
def wrap (n : Nat) : Nat := n % 2 ^ 64

/-- The objects of a class and the heap their pointers lead to. -/
structure Store (Obj α : Type) where
  objects : Table Obj
  heap : Heap α

/-- A piece of code of the class. -/
abbrev Prog (Obj α β : Type) : Type := EStateM Fault (Store Obj α) β

/-- What the surroundings decide: which allocation requests are refused (by number), and what
    slot `i` of array `b` holds before it is written. -/
structure Platform (α : Type) where
  refuses : Nat → Bool
  initial : Nat → Nat → α

/-- Every allocation succeeds. -/
def Platform.Generous (P : Platform α) : Prop := ∀ k, P.refuses k = false

/-- Every allocation succeeds and new arrays hold copies of `x`. -/
def Platform.zeroed (x : α) : Platform α := ⟨fun _ => false, fun _ _ => x⟩

theorem Platform.zeroed_generous (x : α) : (Platform.zeroed x).Generous := fun _ => rfl

namespace Store

def empty : Store Obj α := ⟨Table.empty, Heap.empty⟩

/-- The store with the contents of array `b` replaced. -/
def write (s : Store Obj α) (b : Nat) (slots : List α) : Store Obj α :=
  ⟨s.objects, s.heap.write b slots⟩

/-- The store with the fields of object `i` replaced. -/
def put (s : Store Obj α) (i : Nat) (o : Obj) : Store Obj α := ⟨s.objects.set i o, s.heap⟩

@[simp] theorem write_objects (s : Store Obj α) (b : Nat) (slots : List α) :
    (s.write b slots).objects = s.objects := rfl

@[simp] theorem write_heap (s : Store Obj α) (b : Nat) (slots : List α) :
    (s.write b slots).heap = s.heap.write b slots := rfl

@[simp] theorem put_heap (s : Store Obj α) (i : Nat) (o : Obj) : (s.put i o).heap = s.heap := rfl

@[simp] theorem put_objects (s : Store Obj α) (i : Nat) (o : Obj) :
    (s.put i o).objects = s.objects.set i o := rfl

theorem put_entry {s : Store Obj α} {i : Nat} {o : Obj} (h : s.objects.entry i = some o) (o' : Obj) :
    (s.put i o').objects.entry i = some o' := by
  rw [put_objects, Table.set_entry h, Function.update_self]

@[simp] theorem write_write (s : Store Obj α) (b : Nat) (x y : List α) :
    (s.write b x).write b y = s.write b y := by
  simp [write]

theorem write_self {s : Store Obj α} {b : Nat} {slots : List α}
    (hb : s.heap.array b = some slots) : s.write b slots = s := by
  rw [write, Heap.write_self hb]

end Store

/-- A computation that needs no state. -/
def ofExcept {β : Type} : Except Fault β → Prog Obj α β
  | .ok b => pure b
  | .error e => throw e

theorem ofExcept_returns {β : Type} {x : Except Fault β} {b : β} (h : x = .ok b)
    (s : Store Obj α) : Returns (ofExcept x) s b s := by
  subst h
  exact Returns.pure b s

theorem ofExcept_inv {β : Type} {x : Except Fault β} {b : β} {s s' : Store Obj α}
    (h : Returns (ofExcept x) s b s') : x = .ok b ∧ s' = s := by
  cases x with
  | error e => cases h
  | ok b' =>
      obtain ⟨rfl, rfl⟩ := Returns.pure_inv h
      exact ⟨rfl, rfl⟩

/-! ## Fields of objects -/

/-- The fields of object `i`. -/
def object (i : Nat) : Prog Obj α Obj := fun s =>
  match s.objects.entry i with
  | some o => .ok o s
  | none => .error .noObject s

/-- Change the fields of object `i`. -/
def modifyObject (i : Nat) (f : Obj → Obj) : Prog Obj α Unit := fun s =>
  match s.objects.entry i with
  | some o => .ok () (s.put i (f o))
  | none => .error .noObject s

/-- A new object with the given fields. -/
def newObject (o : Obj) : Prog Obj α Nat := fun s =>
  .ok s.objects.next ⟨s.objects.add o, s.heap⟩

/-- The lifetime of object `i` ends. -/
def dropObject (i : Nat) : Prog Obj α Unit := fun s =>
  match s.objects.entry i with
  | some _ => .ok () ⟨s.objects.erase i, s.heap⟩
  | none => .error .noObject s

theorem object_returns {s : Store Obj α} {i : Nat} {o : Obj} (h : s.objects.entry i = some o) :
    Returns (object i) s o s := by
  simp [Returns, object, EStateM.run, h]

theorem object_fails {s : Store Obj α} {i : Nat} (h : s.objects.entry i = none) :
    Fails (object i) s .noObject :=
  ⟨s, by simp [object, EStateM.run, h]⟩

theorem modifyObject_returns {s : Store Obj α} {i : Nat} {o : Obj}
    (h : s.objects.entry i = some o) (f : Obj → Obj) :
    Returns (modifyObject i f) s () (s.put i (f o)) := by
  simp [Returns, modifyObject, EStateM.run, h]

theorem modifyObject_fails {s : Store Obj α} {i : Nat} (h : s.objects.entry i = none)
    (f : Obj → Obj) : Fails (modifyObject i f) s .noObject :=
  ⟨s, by simp [modifyObject, EStateM.run, h]⟩

theorem newObject_returns (s : Store Obj α) (o : Obj) :
    Returns (newObject o) s s.objects.next ⟨s.objects.add o, s.heap⟩ := rfl

theorem dropObject_returns {s : Store Obj α} {i : Nat} {o : Obj}
    (h : s.objects.entry i = some o) :
    Returns (dropObject i) s () ⟨s.objects.erase i, s.heap⟩ := by
  simp [Returns, dropObject, EStateM.run, h]

/-! ## Arrays -/

/-- `new T[n]`. -/
def newArray (P : Platform α) (n : Nat) : Prog Obj α Nat := fun s =>
  let b := s.heap.next
  if P.refuses b then .error .badAlloc ⟨s.objects, s.heap.skip⟩
  else .ok b ⟨s.objects, s.heap.alloc ((List.range n).map (P.initial b))⟩

/-- `delete [] p`. -/
def deleteArray (p : Option Nat) : Prog Obj α Unit := fun s =>
  match p with
  | none => .ok () s
  | some b =>
      match s.heap.array b with
      | some _ => .ok () ⟨s.objects, s.heap.release b⟩
      | none => .error .badDelete s

/-- The whole array `p` points to. -/
def contents (p : Option Nat) : Prog Obj α (List α) := fun s =>
  match p with
  | none => .error .outOfBounds s
  | some b =>
      match s.heap.array b with
      | some slots => .ok slots s
      | none => .error .released s

/-- `p[i]`. -/
def load (p : Option Nat) (i : Nat) : Prog Obj α α := do
  let slots ← contents p
  match slots[i]? with
  | some x => pure x
  | none => throw .outOfBounds

/-- `p[i] = x`. -/
def store (p : Option Nat) (i : Nat) (x : α) : Prog Obj α Unit := fun s =>
  match p with
  | none => .error .outOfBounds s
  | some b =>
      match s.heap.array b with
      | none => .error .released s
      | some slots =>
          if i < slots.length then .ok () (s.write b (slots.set i x))
          else .error .outOfBounds s

theorem newArray_returns {P : Platform α} (hP : P.Generous) (n : Nat) (s : Store Obj α) :
    Returns (newArray P n) s s.heap.next
      ⟨s.objects, s.heap.alloc ((List.range n).map (P.initial s.heap.next))⟩ := by
  simp [Returns, newArray, EStateM.run, hP s.heap.next]

theorem deleteArray_null (s : Store Obj α) : Returns (deleteArray none) s () s := rfl

theorem deleteArray_returns {s : Store Obj α} {b : Nat} {slots : List α}
    (hb : s.heap.array b = some slots) :
    Returns (deleteArray (some b)) s () ⟨s.objects, s.heap.release b⟩ := by
  simp [Returns, deleteArray, EStateM.run, hb]

theorem contents_returns {s : Store Obj α} {b : Nat} {slots : List α}
    (hb : s.heap.array b = some slots) : Returns (contents (some b)) s slots s := by
  simp [Returns, contents, EStateM.run, hb]

theorem contents_released {s : Store Obj α} {b : Nat} (hb : s.heap.array b = none) :
    Fails (contents (some b)) s .released :=
  ⟨s, by simp [contents, EStateM.run, hb]⟩

theorem contents_inv {s s' : Store Obj α} {p : Option Nat} {slots : List α}
    (h : Returns (contents p) s slots s') :
    s' = s ∧ ∃ b, p = some b ∧ s.heap.array b = some slots := by
  cases p with
  | none => cases h
  | some b =>
      cases hb : s.heap.array b with
      | none => simp [Returns, contents, EStateM.run, hb] at h
      | some slots' =>
          obtain ⟨rfl, rfl⟩ := h.unique (contents_returns hb)
          exact ⟨rfl, b, rfl, hb⟩

theorem load_returns {s : Store Obj α} {b i : Nat} {slots : List α} {x : α}
    (hb : s.heap.array b = some slots) (hi : slots[i]? = some x) :
    Returns (load (some b) i) s x s := by
  refine Returns.bind (contents_returns hb) ?_
  rw [hi]
  exact Returns.pure x s

theorem store_returns {s : Store Obj α} {b i : Nat} {slots : List α}
    (hb : s.heap.array b = some slots) (hi : i < slots.length) (x : α) :
    Returns (store (some b) i x) s () (s.write b (slots.set i x)) := by
  simp [Returns, store, EStateM.run, hb, hi]

theorem load_fails {s : Store Obj α} {b i : Nat} {slots : List α} (hb : s.heap.array b = some slots)
    (hi : slots.length ≤ i) : Fails (load (some b) i) s .outOfBounds := by
  refine Fails.bind_right (contents_returns hb) ?_
  rw [List.getElem?_eq_none hi]
  exact ⟨s, rfl⟩

theorem store_fails {s : Store Obj α} {b i : Nat} {slots : List α} (hb : s.heap.array b = some slots)
    (hi : slots.length ≤ i) (x : α) : Fails (store (some b) i x) s .outOfBounds :=
  ⟨s, by simp [store, EStateM.run, hb, Nat.not_lt.2 hi]⟩

/-! ## Pointers that may be null -/

/-- `p` is null and `slots` empty, or `p` points to an array holding `slots`. -/
def Heap.PointsTo (h : Heap α) : Option Nat → List α → Prop
  | none, slots => slots = []
  | some b, slots => h.array b = some slots

theorem Heap.PointsTo.congr {h h' : Heap α} {p : Option Nat} {slots : List α}
    (hp : h.PointsTo p slots) (hsame : ∀ c, p = some c → h'.array c = h.array c) :
    h'.PointsTo p slots := by
  cases p with
  | none => exact hp
  | some b => exact (hsame b rfl).trans hp

theorem Heap.PointsTo.lt_next {h : Heap α} {p : Option Nat} {slots : List α}
    (hp : h.PointsTo p slots) {c : Nat} (hc : p = some c) : c < h.next := by
  subst hc
  exact Heap.lt_next hp

theorem Heap.PointsTo.unique {h : Heap α} {p : Option Nat} {slots slots' : List α}
    (hp : h.PointsTo p slots) (hp' : h.PointsTo p slots') : slots = slots' := by
  cases p with
  | none => exact Eq.trans hp (Eq.symm hp')
  | some b => exact Option.some.inj (Eq.trans (Eq.symm hp) hp')

/-- The store with the contents of the array `p` points to replaced. -/
def Store.writeAt (s : Store Obj α) (p : Option Nat) (slots : List α) : Store Obj α :=
  match p with
  | none => s
  | some b => s.write b slots

@[simp] theorem Store.writeAt_objects (s : Store Obj α) (p : Option Nat) (slots : List α) :
    (s.writeAt p slots).objects = s.objects := by
  cases p <;> rfl

theorem Store.writeAt_put (s : Store Obj α) (p : Option Nat) (slots : List α) (i : Nat) (o : Obj) :
    (s.put i o).writeAt p slots = (s.writeAt p slots).put i o := by
  cases p <;> rfl

theorem Heap.PointsTo.writeAt_self {s : Store Obj α} {p : Option Nat} {slots : List α}
    (hp : s.heap.PointsTo p slots) : s.writeAt p slots = s := by
  cases p with
  | none => rfl
  | some b => exact Store.write_self hp

theorem Heap.PointsTo.writeAt {s : Store Obj α} {p : Option Nat} {old : List α}
    (hp : s.heap.PointsTo p old) {slots : List α} (hlen : slots.length = old.length) :
    (s.writeAt p slots).heap.PointsTo p slots := by
  cases p with
  | none =>
      have hnil : old = [] := hp
      rw [hnil] at hlen
      exact List.eq_nil_of_length_eq_zero hlen
  | some b =>
      show (s.heap.write b slots).array b = some slots
      rw [Heap.write_array hp, Function.update_self]

theorem Heap.PointsTo.writeAt_other {s : Store Obj α} {p : Option Nat} {old : List α}
    (hp : s.heap.PointsTo p old) {c : Nat} (hc : p ≠ some c) (slots : List α) :
    (s.writeAt p slots).heap.array c = s.heap.array c := by
  cases p with
  | none => rfl
  | some b =>
      show (s.heap.write b slots).array c = _
      rw [Heap.write_array hp]
      exact Function.update_of_ne (fun he => hc (congrArg some he.symm)) _ _

/-- The heap after `delete [] p`. -/
def Heap.drop (h : Heap α) : Option Nat → Heap α
  | none => h
  | some b => h.release b

theorem Heap.drop_array (h : Heap α) (p : Option Nat) (c : Nat) :
    (h.drop p).array c = if p = some c then none else h.array c := by
  cases p with
  | none => rfl
  | some b =>
      rw [Heap.drop, Heap.release_array]
      by_cases hc : c = b
      · subst hc
        simp
      · rw [Function.update_of_ne hc, if_neg fun he => hc (Option.some.inj he).symm]

@[simp] theorem Heap.drop_next (h : Heap α) (p : Option Nat) : (h.drop p).next = h.next := by
  cases p with
  | none => rfl
  | some b => exact Heap.release_next h b

theorem deleteArray_pointsTo {s : Store Obj α} {p : Option Nat} {slots : List α}
    (hp : s.heap.PointsTo p slots) : Returns (deleteArray p) s () ⟨s.objects, s.heap.drop p⟩ := by
  cases p with
  | none => exact deleteArray_null s
  | some b => exact deleteArray_returns hp

theorem load_pointsTo {s : Store Obj α} {p : Option Nat} {slots : List α} {i : Nat} {x : α}
    (hp : s.heap.PointsTo p slots) (hi : slots[i]? = some x) : Returns (load p i) s x s := by
  cases p with
  | none =>
      have hnil : slots = [] := hp
      rw [hnil] at hi
      cases hi
  | some b => exact load_returns hp hi

/-! ## Loops over the slots of an array -/

/-- Apply `f` to the slots at positions `lo, …, hi - 1`. -/
def updateRange (f : Nat → α → α) (lo hi : Nat) (slots : List α) : List α :=
  slots.mapIdx fun i x => if lo ≤ i ∧ i < hi then f i x else x

@[simp] theorem updateRange_length (f : Nat → α → α) (lo hi : Nat) (slots : List α) :
    (updateRange f lo hi slots).length = slots.length := by
  simp [updateRange]

theorem updateRange_getElem? (f : Nat → α → α) (lo hi : Nat) (slots : List α) (i : Nat) :
    (updateRange f lo hi slots)[i]?
      = slots[i]?.map fun x => if lo ≤ i ∧ i < hi then f i x else x := by
  simp [updateRange, List.getElem?_mapIdx]

theorem updateRange_empty (f : Nat → α → α) (lo : Nat) (slots : List α) :
    updateRange f lo lo slots = slots := by
  apply List.ext_getElem?
  intro i
  rw [updateRange_getElem?]
  simp [show ¬ (lo ≤ i ∧ i < lo) by omega]

/-- One more iteration of the loop: slot `hi` is updated too. -/
theorem updateRange_set {f : Nat → α → α} {lo hi : Nat} {slots : List α} {x : α}
    (hlo : lo ≤ hi) (hx : slots[hi]? = some x) :
    (updateRange f lo hi slots).set hi (f hi x) = updateRange f lo (hi + 1) slots := by
  apply List.ext_getElem?
  intro i
  obtain ⟨hlen, hget⟩ := List.getElem?_eq_some_iff.1 hx
  rw [updateRange_getElem?, List.getElem?_set, updateRange_getElem?]
  by_cases hi' : hi = i
  · subst hi'
    simp [hlo, hlen, hget]
  · rw [if_neg hi']
    cases slots[i]? with
    | none => rfl
    | some y =>
        simp only [Option.map_some, Option.some.injEq]
        have hiff : (lo ≤ i ∧ i < hi) ↔ (lo ≤ i ∧ i < hi + 1) := by omega
        simp only [hiff]

/-- A loop whose iteration `i` replaces slot `i` of the array `p` points to, and nothing else, by a
    function of the slot. -/
theorem slotLoop_returns (body : Nat → Prog Obj α Unit) (f : Nat → α → α) (lo count : Nat)
    {s : Store Obj α} {p : Option Nat} {slots : List α} (hp : s.heap.PointsTo p slots)
    (hlen : lo + count ≤ slots.length)
    (hbody : ∀ b i now x, p = some b → lo ≤ i → i < lo + count → now[i]? = some x →
      (s.write b now).heap.array b = some now →
      Returns (body i) (s.write b now) () (s.write b (now.set i (f i x)))) :
    Returns (forUp body lo count) s () (s.writeAt p (updateRange f lo (lo + count) slots)) := by
  cases p with
  | none =>
      -- a null pointer has no slots, so there is no iteration
      have hnil : slots = [] := hp
      rw [hnil, List.length_nil] at hlen
      rw [show count = 0 by omega]
      exact Returns.pure () s
  | some b =>
      have hloop := forUp_returns body (fun i => s.write b (updateRange f lo i slots)) lo
        count fun i hlo hhi => by
          have hx : slots[i]? = some slots[i] := List.getElem?_eq_getElem (by omega)
          have hnow : (updateRange f lo i slots)[i]? = some slots[i] := by
            rw [updateRange_getElem?, hx]
            simp
          have harr : (s.write b (updateRange f lo i slots)).heap.array b
              = some (updateRange f lo i slots) := by
            rw [Store.write_heap, Heap.write_array hp, Function.update_self]
          have hstep := hbody b i _ _ rfl hlo hhi hnow harr
          rwa [updateRange_set hlo hx] at hstep
      simp only [updateRange_empty, Store.write_self hp] at hloop
      exact hloop

/-! ## Platforms that refuse memory -/

/-- The platform that leaves the same values in new arrays and refuses no request. -/
def Platform.generous (P : Platform α) : Platform α := ⟨fun _ => false, P.initial⟩

theorem Platform.generous_generous (P : Platform α) : P.generous.Generous := fun _ => rfl

theorem Platform.Generous.eq {P : Platform α} (hP : P.Generous) : P.generous = P := by
  obtain ⟨refuses, initial⟩ := P
  have hrefuses : refuses = fun _ => false := funext hP
  rw [hrefuses, generous]

/-- `m` does what `m'` does, or an allocation is refused and it throws. -/
def OrThrows {β : Type} (m m' : Prog Obj α β) : Prop :=
  ∀ s, m.run s = m'.run s ∨ Fails m s .badAlloc

section OrThrows

variable {β γ : Type} {m m' : Prog Obj α β}

theorem OrThrows.refl (m : Prog Obj α β) : OrThrows m m := fun _ => Or.inl rfl

theorem OrThrows.bind {f f' : β → Prog Obj α γ} (hm : OrThrows m m')
    (hf : ∀ a, OrThrows (f a) (f' a)) : OrThrows (m >>= f) (m' >>= f') := by
  intro s
  rcases hm s with heq | hfail
  · cases hr : m'.run s with
    | error e s₁ =>
        have hm₁ : m s = .error e s₁ := heq.trans hr
        have hm₂ : m' s = .error e s₁ := hr
        left
        show EStateM.bind m f s = EStateM.bind m' f' s
        rw [EStateM.bind, EStateM.bind, hm₁, hm₂]
    | ok a s₁ =>
        have hm₁ : m s = .ok a s₁ := heq.trans hr
        have hm₂ : m' s = .ok a s₁ := hr
        rcases hf a s₁ with hfeq | hffail
        · left
          show EStateM.bind m f s = EStateM.bind m' f' s
          rw [EStateM.bind, EStateM.bind, hm₁, hm₂]
          exact hfeq
        · exact Or.inr (Fails.bind_right hm₁ hffail)
  · exact Or.inr (Fails.bind_left hfail)

theorem OrThrows.onlyIf {c : Prop} [Decidable c] {m m' : Prog Obj α Unit} (h : OrThrows m m') :
    OrThrows (onlyIf c m) (onlyIf c m') := by
  by_cases hc : c
  · rw [onlyIf_pos hc, onlyIf_pos hc]
    exact h
  · rw [onlyIf_neg hc, onlyIf_neg hc]
    exact OrThrows.refl _

theorem OrThrows.ite {c : Prop} [Decidable c] {k k' : Prog Obj α β} (h : OrThrows m m')
    (hk : OrThrows k k') : OrThrows (if c then m else k) (if c then m' else k') := by
  split
  · exact h
  · exact hk

theorem OrThrows.returns {s s' : Store Obj α} {a : β} (h : OrThrows m m')
    (hret : Returns m s a s') : Returns m' s a s' := by
  rcases h s with heq | hfail
  · exact heq.symm.trans hret
  · exact absurd hfail hret.not_fails

theorem OrThrows.fails {s : Store Obj α} {e : Fault} (h : OrThrows m m') (hfail : Fails m' s e) :
    Fails m s .badAlloc ∨ Fails m s e := by
  obtain ⟨s', hfail⟩ := hfail
  rcases h s with heq | hthrow
  · exact Or.inr ⟨s', heq.trans hfail⟩
  · exact Or.inl hthrow

theorem newArray_orThrows (P : Platform α) (n : Nat) :
    OrThrows (newArray P n : Prog Obj α Nat) (newArray P.generous n) := by
  intro s
  cases hP : P.refuses s.heap.next with
  | true => exact Or.inr ⟨⟨s.objects, s.heap.skip⟩, by simp [newArray, EStateM.run, hP]⟩
  | false => exact Or.inl (by simp [newArray, EStateM.run, hP, Platform.generous])

theorem OrThrows.runAll {Op : Type} {step step' : Op → Prog Obj α Unit}
    (h : ∀ op, OrThrows (step op) (step' op)) (ops : List Op) :
    OrThrows (runAll step ops) (runAll step' ops) := by
  induction ops with
  | nil => exact OrThrows.refl _
  | cons op rest ih => exact (h op).bind fun _ => ih

theorem OrThrows.meets {τ : Type} {R : Store Obj α → τ → Prop} {m m' : Prog Obj α Unit}
    {s : Store Obj α} {x : Except Fault τ} (h : OrThrows m m') (hm : Meets R m' s x) :
    Fails m s .badAlloc ∨ Meets R m s x := by
  cases x with
  | error e => exact h.fails hm
  | ok t =>
      obtain ⟨s', hret, ht⟩ := hm
      rcases h s with heq | hfail
      · exact Or.inr ⟨s', heq.trans hret, ht⟩
      · exact Or.inl hfail

end OrThrows

end LinuxSamples.Memory
