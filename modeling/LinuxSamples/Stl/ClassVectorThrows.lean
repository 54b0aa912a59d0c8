import LinuxSamples.Stl.ClassVectorMembers
import LinuxSamples.Stl.StringFrames
import LinuxSamples.Stl.VectorElements

set_option autoImplicit false

/-! # Allocations that throw inside a `vector<T>`

`push_back` and `resize` first save the elements in a temporary array; until that is done, a throw leaves
the vector as it was. `reserve` then releases the buffer and changes `capacity_` before it asks for the
new one: whatever throws from there on, also a constructor of `T`, leaves another capacity. Without a
reallocation only members of `T` throw, in the slots they are called on. -/

namespace LinuxSamples.ClassVector

open LinuxSamples.Program LinuxSamples.Memory
open LinuxSamples.Vector (Access Arg Fields Op grown maxRequest)

variable {τ X Y : Type} {V : View τ Y} {C : Class τ X} {P : Platform Nat} {A D : Set Nat}
  {σ σ' σ₁ : State τ} {i j n : Nat} {o o' : Fields}

/-! ## Vectors in good order -/

/-- The fields of a vector fit its buffer, unless a throw has taken it. -/
structure View.Row (V : View τ Y) (σ : State τ) (o : Fields) : Prop where
  size : o.size_ ≤ o.capacity_
  capacity : o.capacity_ ≤ maxRequest
  buffer : ∀ b, o.buffer_ = some b → b < σ.1.heap.next
  slots : ∀ b ids, o.buffer_ = some b → σ.1.heap.array b = some ids →
    ids.length = o.capacity_ ∧ ids.Nodup ∧ ∀ e ∈ ids, e < V.next σ.2

structure View.Tidy (V : View τ Y) (σ : State τ) : Prop where
  sound : V.Sound σ.2
  rows : ∀ i o, σ.1.objects.entry i = some o → V.Row σ o

theorem View.Row.frame (h : V.Row σ o) (hframe : V.Frame A D σ σ') : V.Row σ' o where
  size := h.size
  capacity := h.capacity
  buffer b hb := (h.buffer b hb).trans_le hframe.heap
  slots b ids hb harr := by
    rcases hframe.arrays b (h.buffer b hb) with hsame | ⟨_, hnone⟩
    · rw [hsame] at harr
      obtain ⟨hlen, hnodup, hlt⟩ := h.slots b ids hb harr
      exact ⟨hlen, hnodup, fun e he => (hlt e he).trans_le hframe.touches.next⟩
    · rw [hnone] at harr
      cases harr

/-- Another size that the buffer has room for. -/
theorem View.Row.resized (h : V.Row σ o) (hn : n ≤ o.capacity_) :
    V.Row σ ⟨n, o.capacity_, o.buffer_⟩ := ⟨hn, h.capacity, h.buffer, h.slots⟩

theorem View.Tidy.frame (h : V.Tidy σ) (hframe : V.Frame A D σ σ') : V.Tidy σ' where
  sound := hframe.touches.sound
  rows i o ho := by
    rw [hframe.objects] at ho
    exact (h.rows i o ho).frame hframe

theorem View.Tidy.put (h : V.Tidy σ) (ho : σ.1.objects.entry i = some o) (hrow : V.Row σ o') :
    V.Tidy (σ.1.put i o', σ.2) where
  sound := h.sound
  rows k v hv := by
    have hsame : ∀ v, V.Row σ v → V.Row (σ.1.put i o', σ.2) v := fun v hv =>
      ⟨hv.size, hv.capacity, hv.buffer, hv.slots⟩
    by_cases hk : k = i
    · rw [hk, Store.put_entry ho, Option.some.injEq] at hv
      exact hv ▸ hsame o' hrow
    · rw [Store.put_objects, Table.set_entry ho, Function.update_of_ne hk] at hv
      exact hsame v (h.rows k v hv)

theorem View.Tidy.add (h : V.Tidy σ) :
    V.Tidy (⟨σ.1.objects.add ⟨0, 0, none⟩, σ.1.heap⟩, σ.2) where
  sound := h.sound
  rows k v hv := by
    by_cases hk : k = σ.1.objects.next
    · rw [hk, Table.add_entry_self, Option.some.injEq] at hv
      rw [← hv]
      exact ⟨Nat.le_refl _, Nat.zero_le _, fun b hb => (by cases hb), fun b ids hb => (by cases hb)⟩
    · rw [Table.add_entry, Function.update_of_ne hk] at hv
      have hrow := h.rows k v hv
      exact ⟨hrow.size, hrow.capacity, hrow.buffer, hrow.slots⟩

theorem View.Tidy.erase (h : V.Tidy σ) (i : Nat) :
    V.Tidy (⟨σ.1.objects.erase i, σ.1.heap⟩, σ.2) where
  sound := h.sound
  rows k v hv := by
    by_cases hk : k = i
    · rw [hk, Table.erase_entry, Function.update_self] at hv
      cases hv
    · rw [Table.erase_entry, Function.update_of_ne hk] at hv
      have hrow := h.rows k v hv
      exact ⟨hrow.size, hrow.capacity, hrow.buffer, hrow.slots⟩

/-- A change of the fields of a vector. -/
theorem modify_ends {f : Fields → Fields} {Z : State τ → Prop} (h : V.Tidy σ)
    (ho : σ.1.objects.entry i = some o) (hrow : V.Row σ (f o)) :
    Ends .badAlloc (onFirst (modifyObject i f)) σ
      (fun _ σ' => V.Tidy σ' ∧ σ' = (σ.1.put i (f o), σ.2)) Z :=
  Ends.of_returns (onFirst_returns (modifyObject_returns ho f) σ.2) ⟨h.put ho hrow, rfl⟩

/-! ## `reserve` -/

/-- Vector `i` has a capacity of at least `n`. -/
def HasRoom (σ : State τ) (i n : Nat) : Prop :=
  ∃ o, σ.1.objects.entry i = some o ∧ n ≤ o.capacity_

theorem HasRoom.congr (h : HasRoom σ i n) (hobjects : σ'.1.objects = σ.1.objects) :
    HasRoom σ' i n := by
  rw [HasRoom, hobjects]
  exact h

theorem grown_bounds {c : Nat} (hpos : 0 < n) (h : grown n = some c) : n ≤ c ∧ c ≤ maxRequest := by
  by_cases hn : n ≤ maxRequest
  · rw [Vector.grown_eq hpos hn, Option.some.injEq] at h
    rw [← h]
    exact ⟨Vector.le_leastPow n, Vector.leastPow_le_max hn⟩
  · rw [Vector.grown_diverges (Nat.not_le.1 hn)] at h
    cases h

/-- Where there is room, `reserve` does nothing. -/
theorem reserve_room (ho : σ.1.objects.entry i = some o) (hn : n ≤ o.capacity_) :
    Returns (reserve P C i n) σ () σ := by
  refine Returns.bind (onFirst_returns (object_returns ho) σ.2) ?_
  rw [onlyIf_neg (Nat.not_lt.2 hn)]
  exact Returns.pure () σ

/-- Where there is not, the vector has another capacity afterwards, also when a throw stopped it. -/
theorem reserve_ends (hC : Framed C V) (h : V.Tidy σ) (ho : σ.1.objects.entry i = some o)
    (hn : o.capacity_ < n) :
    Ends .badAlloc (reserve P C i n) σ (fun _ σ' => V.Tidy σ' ∧ HasRoom σ' i n)
      (fun σ' => V.Tidy σ' ∧ HasRoom σ' i n) := by
  refine Ends.after (onFirst_returns (object_returns ho) σ.2) ?_
  rw [onlyIf_pos hn]
  refine ((deleteObjects_ends hC o.buffer_ h.sound).mono fun _ => False.elim).bind ?_
  rintro _ σ₁ ⟨hframe, hreleased⟩
  have ho₁ : σ₁.1.objects.entry i = some o := by rw [hframe.objects]; exact ho
  have hold := (h.rows i o ho).frame hframe
  cases hg : grown n with
  | none => exact (Avoids.of_fails ⟨_, rfl⟩ (by decide)).ends _
  | some c =>
      obtain ⟨hnc, hmax⟩ := grown_bounds (Nat.zero_lt_of_lt hn) hg
      have hsize : o.size_ ≤ c := hold.size.trans (hn.le.trans hnc)
      have hrow : V.Row σ₁ ⟨o.size_, c, o.buffer_⟩ := by
        refine ⟨hsize, hmax, hold.buffer, fun b ids hb harr => ?_⟩
        rw [hreleased b hb] at harr
        cases harr
      refine (modify_ends (h.frame hframe) ho₁ hrow).bind ?_
      rintro _ σ₂ ⟨h₂, rfl⟩
      have ho₂ := Store.put_entry ho₁ (⟨o.size_, c, o.buffer_⟩ : Fields)
      refine ((newObjects_ends hC c h₂.sound).mono fun σ' hframe' => ?_).bind ?_
      · exact ⟨h₂.frame hframe', HasRoom.congr ⟨_, ho₂, hnc⟩ hframe'.objects⟩
      rintro b σ₃ ⟨hframe', hnew⟩
      obtain ⟨ids, harr, hlen, hnodup, hids⟩ := hnew.slots
      have ho₃ : σ₃.1.objects.entry i = some ⟨o.size_, c, o.buffer_⟩ := by
        rw [hframe'.objects]
        exact ho₂
      refine (modify_ends (h₂.frame hframe') ho₃ ⟨hsize, hmax, fun b' hb => ?_, ?_⟩).imp ?_
        fun _ h => h
      · exact Option.some.inj hb ▸ Heap.lt_next harr
      · rintro b' ids' hb harr'
        obtain rfl : b = b' := Option.some.inj hb
        obtain rfl : ids = ids' := Option.some.inj (harr.symm.trans harr')
        exact ⟨hlen, hnodup, fun e he => (hids e he).2⟩
      · rintro _ σ₄ ⟨h₄, rfl⟩
        exact ⟨h₄, _, Store.put_entry ho₃ _, hnc⟩

/-- A piece of code that starts with the fields of a vector. -/
theorem Ends.given_object {β : Type} {f : Fields → Code τ β} {Q : β → State τ → Prop}
    {Z : State τ → Prop} (hf : ∀ o, σ.1.objects.entry i = some o →
      Ends .badAlloc (onFirst (object i) >>= f) σ Q Z) :
    Ends .badAlloc (onFirst (object i) >>= f) σ Q Z :=
  Ends.after_object fun o ho => by
    have h := hf o ho
    have hret := onFirst_returns (object_returns ho) σ.2
    exact ⟨fun b σ' hb => h.ensures b σ' (Returns.bind hret hb),
      fun σ' hstop => h.leaves σ' ((Stops.bind_iff hret).2 hstop)⟩

/-- `reserve`, whether or not there is room. -/
theorem reserve_tidy (hC : Framed C V) (h : V.Tidy σ) (ho : σ.1.objects.entry i = some o) (n : Nat) :
    Ends .badAlloc (reserve P C i n) σ (fun _ σ' => V.Tidy σ' ∧ HasRoom σ' i n) V.Tidy := by
  by_cases hn : o.capacity_ < n
  · exact (reserve_ends hC h ho hn).mono fun _ h' => h'.1
  · exact Ends.of_returns (reserve_room ho (Nat.not_lt.1 hn)) ⟨h, o, ho, Nat.not_lt.1 hn⟩

/-! ## Constructors, `operator=`, destructor -/

theorem construct_tidy (hC : Framed C V) (n val : Nat) (h : V.Tidy σ) :
    Ends .badAlloc (construct P C n val) σ (fun _ => V.Tidy) V.Tidy := by
  refine Ends.after (onFirst_returns (newObject_returns σ.1 _) σ.2) ?_
  refine (reserve_tidy hC h.add (Table.add_entry_self ..) n).bind ?_
  rintro _ σ₁ ⟨h₁, o, ho, hn⟩
  refine (modify_ends h₁ ho ((h₁.rows _ o ho).resized hn)).bind ?_
  rintro _ σ₂ ⟨h₂, rfl⟩
  refine ((fill_ends hC (Store.put_entry ho _) 0 n val h₂.sound).mono fun _ hmoves => ?_).bind ?_
  · exact h₂.frame (hmoves.frame (A := ∅))
  · exact fun _ _ hmoves => Ends.pure (h₂.frame (hmoves.frame (A := ∅)))

theorem operatorAssign_tidy (hC : Framed C V) (i j : Nat) (h : V.Tidy σ) :
    Ends .badAlloc (operatorAssign P C i j) σ (fun _ => V.Tidy) V.Tidy := by
  refine Ends.after_object fun w _ => ?_
  refine Ends.bind (R := fun _ σ' => V.Tidy σ' ∧ HasRoom σ' i w.size_)
    (Ends.given_object fun o ho => reserve_tidy hC h ho w.size_) ?_
  rintro _ σ₁ ⟨h₁, o, ho, hn⟩
  refine (modify_ends h₁ ho ((h₁.rows i o ho).resized hn)).bind ?_
  rintro _ σ₂ ⟨h₂, _⟩
  exact (copyFrom_ends hC i j w.size_ h₂.sound).imp (fun _ _ hmoves => h₂.frame (hmoves.frame (A := ∅)))
    fun _ hmoves => h₂.frame (hmoves.frame (A := ∅))

/-- A throw inside `operator=` comes from `reserve`, or later with another capacity, or it comes from an
    assignment to an element. -/
theorem operatorAssign_ends (hC : Framed C V) (h : V.Tidy σ) (ho : σ.1.objects.entry i = some o)
    (j : Nat) :
    Ends .badAlloc (operatorAssign P C i j) σ (fun _ _ => True) fun σ' =>
      ∃ w, σ.1.objects.entry j = some w ∧ (o.capacity_ < w.size_ ∧ HasRoom σ' i w.size_ ∨
        w.size_ ≤ o.capacity_ ∧ Stops (copyFrom C i j w.size_)
          (σ.1.put i ⟨w.size_, o.capacity_, o.buffer_⟩, σ.2) .badAlloc σ') := by
  refine Ends.after_object fun w hw => ?_
  by_cases hn : o.capacity_ < w.size_
  · refine ((reserve_ends hC h ho hn).mono fun σ' h' => ⟨w, hw, Or.inl ⟨hn, h'.2⟩⟩).bind ?_
    rintro _ σ₁ ⟨h₁, o₁, ho₁, hn₁⟩
    refine (modify_ends h₁ ho₁ ((h₁.rows i o₁ ho₁).resized hn₁)).bind ?_
    rintro _ σ₂ ⟨h₂, hσ₂⟩
    have hroom₂ : HasRoom σ₂ i w.size_ := by
      rw [hσ₂]
      exact ⟨_, Store.put_entry ho₁ _, hn₁⟩
    refine (copyFrom_ends hC i j w.size_ h₂.sound).imp (fun _ _ _ => trivial) fun σ' hmoves => ?_
    exact ⟨w, hw, Or.inl ⟨hn, hroom₂.congr (by rw [hmoves.1])⟩⟩
  · have hroom := Nat.not_lt.1 hn
    refine Ends.after (reserve_room ho hroom) ?_
    refine Ends.after (onFirst_returns (modifyObject_returns ho _) σ.2) ?_
    exact ⟨fun _ _ _ => trivial, fun σ' hstop => ⟨w, hw, Or.inr ⟨hroom, hstop⟩⟩⟩

theorem copyConstruct_tidy (hC : Framed C V) (j : Nat) (h : V.Tidy σ) :
    Ends .badAlloc (copyConstruct P C j) σ (fun _ => V.Tidy) V.Tidy := by
  rw [copyConstruct_eq]
  refine Ends.after (onFirst_returns (newObject_returns σ.1 _) σ.2) ?_
  exact (operatorAssign_tidy hC _ j h.add).bind fun _ _ h' => Ends.pure h'

theorem destroy_tidy (hC : Framed C V) (i : Nat) (h : V.Tidy σ) :
    Ends .badAlloc (destroy C i) σ (fun _ => V.Tidy) V.Tidy := by
  refine Ends.after_object fun o ho => ?_
  refine ((deleteObjects_ends hC o.buffer_ h.sound).mono fun _ => False.elim).bind ?_
  rintro _ σ₁ ⟨hframe, _⟩
  have ho₁ : σ₁.1.objects.entry i = some o := by rw [hframe.objects]; exact ho
  exact Ends.of_returns (onFirst_returns (dropObject_returns ho₁) σ₁.2) ((h.frame hframe).erase i)

/-! ## `push_back` and `resize` -/

/-- The lines of `push_back` and `resize` before `reserve`: the elements are saved in a temporary
    array. -/
def save (P : Platform Nat) (C : Class τ X) (this : Nat) : Code τ Nat := do
  let v ← onFirst (object this)
  let tmp ← newObjects P C v.size_
  forUp (fun i => do
    let dst ← onFirst (load (some tmp) i)
    let src ← onFirst (load v.buffer_ i)
    onSecond (C.assign dst src)) 0 v.size_
  return tmp

/-- The lines after `reserve`: the elements are copied back. -/
def restore (C : Class τ X) (this tmp : Nat) : Code τ Unit := do
  let v ← onFirst (object this)
  forUp (fun i => do
    let dst ← onFirst (load v.buffer_ i)
    let src ← onFirst (load (some tmp) i)
    onSecond (C.assign dst src)) 0 v.size_
  deleteObjects C (some tmp)

theorem regrow_eq (i n : Nat) : regrow P C i n = (do
    let tmp ← save P C i
    reserve P C i n
    restore C i tmp) := by
  simp only [regrow, save, restore, bind_assoc, pure_bind]

/-- Only new objects are touched. -/
theorem save_ends (hC : Framed C V) (i : Nat) (h : V.Sound σ.2) :
    Ends .badAlloc (save P C i) σ (fun _ => V.Frame ∅ ∅ σ) (V.Frame ∅ ∅ σ) := by
  refine Ends.after_object fun o ho => (newObjects_ends hC o.size_ h).bind ?_
  rintro tmp σ₁ ⟨hframe, hnew⟩
  have hmoved : ∀ {σ'}, V.Moves (slotsFrom σ₁.1 (some tmp) 0) σ₁ σ' → V.Frame ∅ ∅ σ σ' := by
    intro σ' hmoves
    refine hframe.trans (hmoves.frame (A := ∅)) (fun _ hb => hb.elim) ?_
    rintro e ⟨k, _, b, ids, hb, harr, hk⟩ he
    obtain rfl : tmp = b := Option.some.inj hb
    obtain ⟨ids', harr', _, _, hids⟩ := hnew.slots
    obtain rfl : ids = ids' := Option.some.inj (harr.symm.trans harr')
    exact absurd he (Nat.not_lt.2 (hids e (List.mem_of_getElem? hk)).1)
  refine ((transfer_ends hC (some tmp) o.buffer_ o.size_ hframe.touches.sound).mono
    fun _ => hmoved).bind ?_
  exact fun _ _ hmoves => Ends.pure (hmoved hmoves)

theorem restore_ends (hC : Framed C V) (i tmp : Nat) (h : V.Sound σ.2) :
    Ends .badAlloc (restore C i tmp) σ (fun _ => V.Frame Set.univ Set.univ σ)
      (V.Frame Set.univ Set.univ σ) := by
  have hall : ∀ {D σ'}, V.Moves D σ σ' → V.Frame Set.univ Set.univ σ σ' := fun hmoves =>
    (hmoves.frame (A := Set.univ)).weaken
  refine Ends.after_object fun v _ => ?_
  refine ((transfer_ends hC v.buffer_ (some tmp) v.size_ h).mono fun _ => hall).bind ?_
  intro _ σ₁ hmoves
  refine ((deleteObjects_ends hC (some tmp) hmoves.2.sound).mono fun _ => False.elim).imp ?_
    fun _ h => h
  rintro _ σ₂ ⟨hframe, _⟩
  exact (hall hmoves).trans hframe (fun _ _ _ => Set.mem_univ _) fun _ _ _ => Set.mem_univ _

/-! ## What a throw leaves -/

theorem elements_getElem? {s : Store Fields Nat} {k e : Nat} :
    (Vector.elements s o)[k]? = some e ↔ k < o.size_ ∧ Slot s o.buffer_ k e := by
  have hslots : (Vector.slotsOf s.heap o.buffer_)[k]? = some e ↔ Slot s o.buffer_ k e := by
    constructor
    · intro h
      rcases Vector.slotsOf_cases s.heap o.buffer_ with hnil | ⟨b, hb, harr⟩
      · rw [hnil] at h
        cases h
      · exact ⟨b, _, hb, harr, h⟩
    · rintro ⟨b, ids, hb, harr, hk⟩
      rw [hb, Vector.slotsOf, harr]
      exact hk
  rw [Vector.elements, List.getElem?_take, ← hslots]
  by_cases hk : k < o.size_
  · rw [if_pos hk]
    exact (and_iff_right hk).symm
  · rw [if_neg hk]
    exact iff_of_false (fun h => by cases h) fun h => hk h.1

/-- An object is in one slot. -/
theorem View.Row.slot_unique (h : V.Row σ o) {k l e : Nat} (hk : Slot σ.1 o.buffer_ k e)
    (hl : Slot σ.1 o.buffer_ l e) : k = l := by
  obtain ⟨b, ids, hb, harr, hk⟩ := hk
  obtain ⟨b', ids', hb', harr', hl⟩ := hl
  obtain rfl : b = b' := Option.some.inj (hb.symm.trans hb')
  obtain rfl : ids = ids' := Option.some.inj (harr.symm.trans harr')
  obtain ⟨hk, hke⟩ := List.getElem?_eq_some_iff.1 hk
  obtain ⟨hl, hle⟩ := List.getElem?_eq_some_iff.1 hl
  exact (h.slots b ids hb harr).2.1.getElem_inj_iff.1 (hke.trans hle.symm)

/-- Vector `i` with the fields `o` is as it was: its fields, its array and its elements. -/
structure View.Same (V : View τ Y) (σ σ' : State τ) (i : Nat) (o : Fields) : Prop where
  fields : σ'.1.objects.entry i = some o
  array : ∀ b, o.buffer_ = some b → σ'.1.heap.array b = σ.1.heap.array b
  look : ∀ e ∈ Vector.elements σ.1 o, V.look σ'.2 e = V.look σ.2 e

/-- Where only objects behind the elements are touched, the vector is as it was. -/
theorem View.Frame.same (h : V.Frame ∅ D σ σ') (hrow : V.Row σ o)
    (ho : σ.1.objects.entry i = some o)
    (hD : ∀ e ∈ D, ∀ k, Slot σ.1 o.buffer_ k e → o.size_ ≤ k) : V.Same σ σ' i o where
  fields := by rw [h.objects]; exact ho
  array b hb := (h.arrays b (hrow.buffer b hb)).resolve_right fun hin => hin.1.elim
  look e he := by
    obtain ⟨k, he⟩ := List.mem_iff_getElem?.1 he
    obtain ⟨hk, hslot⟩ := elements_getElem?.1 he
    obtain ⟨b, ids, hb, harr, hid⟩ := hslot
    refine h.touches.look e ((hrow.slots b ids hb harr).2.2 e (List.mem_of_getElem? hid)) ?_
    exact fun hin => Nat.not_lt.2 (hD e hin k ⟨b, ids, hb, harr, hid⟩) hk

/-- A throw came before the lines `early` had ended, or where there was room, and the vector is as it was;
    or it came after them and the capacity is another one. -/
def View.Thrown (V : View τ Y) (early : Code τ Unit) (room : Prop) (σ : State τ) (i : Nat) (o : Fields)
    (σ' : State τ) : Prop :=
  V.Same σ σ' i o ∧ (room ∨ Stops early σ .badAlloc σ') ∨
    (¬ room ∧ ¬ Fails early σ .badAlloc) ∧ HasRoom σ' i (o.capacity_ + 1)

/-- Elements are saved, whatever comes after. -/
def saving (P : Platform Nat) (C : Class τ X) (this : Nat) : Code τ Unit := do
  let _ ← save P C this

theorem saving_stops : Stops (saving P C i) σ .badAlloc σ' ↔ Stops (save P C i) σ .badAlloc σ' := by
  constructor
  · intro h
    rcases Stops.bind_inv h with h | ⟨_, _, _, h⟩
    · exact h
    · cases h
  · exact fun h => h.bind_left

theorem saving_fails : Fails (saving P C i) σ .badAlloc ↔ Fails (save P C i) σ .badAlloc :=
  exists_congr fun _ => saving_stops

/-- The reallocation of `push_back` and `resize`. -/
theorem regrow_ends (hC : Framed C V) (h : V.Tidy σ) (ho : σ.1.objects.entry i = some o)
    (hn : o.capacity_ < n) {room : Prop} (hroom : ¬ room) :
    Ends .badAlloc (regrow P C i n) σ
      (fun _ σ' => (V.Tidy σ' ∧ HasRoom σ' i n) ∧ ¬ Fails (saving P C i) σ .badAlloc)
      (fun σ' => V.Tidy σ' ∧ V.Thrown (saving P C i) room σ i o σ') := by
  rw [regrow_eq]
  refine ((save_ends hC i h.sound).observed.mono ?_).bind ?_
  · rintro σ' ⟨hstop, hframe⟩
    refine ⟨h.frame hframe, Or.inl ⟨?_, Or.inr (saving_stops.2 hstop)⟩⟩
    exact hframe.same (h.rows i o ho) ho fun e he => he.elim
  rintro tmp σ₁ ⟨hret, hframe⟩
  have hsaved : ¬ Fails (saving P C i) σ .badAlloc := fun hfail =>
    hret.not_fails (saving_fails.1 hfail)
  have hlate : ∀ {σ'}, V.Tidy σ' ∧ HasRoom σ' i n →
      V.Tidy σ' ∧ V.Thrown (saving P C i) room σ i o σ' := by
    rintro σ' ⟨h', v, hv, hnv⟩
    exact ⟨h', Or.inr ⟨⟨hroom, hsaved⟩, v, hv, Nat.succ_le_of_lt (hn.trans_le hnv)⟩⟩
  have ho₁ : σ₁.1.objects.entry i = some o := by rw [hframe.objects]; exact ho
  refine ((reserve_ends hC (h.frame hframe) ho₁ hn).mono fun _ => hlate).bind ?_
  rintro _ σ₂ ⟨h₂, hroom₂⟩
  refine (restore_ends hC i tmp h₂.sound).imp (fun _ σ' hframe' => ⟨?_, hsaved⟩) fun σ' hframe' =>
    hlate ?_
  · exact ⟨h₂.frame hframe', hroom₂.congr hframe'.objects⟩
  · exact ⟨h₂.frame hframe', hroom₂.congr hframe'.objects⟩

/-- The lines of `push_back` after the reallocation touch nothing but the slot behind the elements. -/
theorem append_ends (hC : Framed C V) (h : V.Tidy σ) (ho : σ.1.objects.entry i = some o) (val : Nat) :
    Ends .badAlloc (do
        let v ← onFirst (object i)
        let dst ← onFirst (load v.buffer_ v.size_)
        onSecond (C.assign dst val)
        onFirst (modifyObject i fun v => { v with size_ := wrap (v.size_ + 1) })) σ
      (fun _ => V.Tidy) (V.Frame ∅ (slotsFrom σ.1 o.buffer_ o.size_) σ) := by
  refine Ends.after (onFirst_returns (object_returns ho) σ.2) (Ends.after_load fun d hd => ?_)
  have hin : d ∈ slotsFrom σ.1 o.buffer_ o.size_ := ⟨o.size_, Nat.le_refl _, hd⟩
  refine ((assign_ends hC val hin h.sound).mono fun _ hmoves => hmoves.frame).bind ?_
  intro _ σ₁ hmoves
  have ho₁ : σ₁.1.objects.entry i = some o := by rw [hmoves.1]; exact ho
  have hrow := h.rows i o ho
  have hsize : wrap (o.size_ + 1) ≤ o.capacity_ := by
    obtain ⟨b, ids, hb, harr, hk⟩ := hd
    have hlt := (List.getElem?_eq_some_iff.1 hk).1
    rw [(hrow.slots b ids hb harr).1] at hlt
    exact (Nat.mod_le _ _).trans hlt
  have hframe : V.Frame ∅ _ σ σ₁ := hmoves.frame
  exact (modify_ends (h.frame hframe) ho₁ ((hrow.frame hframe).resized hsize)).imp
    (fun _ _ h' => h'.1) fun _ h' => h'

theorem slotsFrom_behind (hrow : V.Row σ o) :
    ∀ e ∈ slotsFrom σ.1 o.buffer_ o.size_, ∀ k, Slot σ.1 o.buffer_ k e → o.size_ ≤ k := by
  rintro e ⟨l, hl, hslot⟩ k hk
  rwa [hrow.slot_unique hk hslot]

theorem pushBack_ends (hC : Framed C V) (h : V.Tidy σ) (ho : σ.1.objects.entry i = some o)
    (val : Nat) :
    Ends .badAlloc (pushBack P C i val) σ (fun _ => V.Tidy)
      (fun σ' => V.Tidy σ' ∧ V.Thrown (saving P C i) (o.size_ < o.capacity_) σ i o σ') := by
  have hrow := h.rows i o ho
  refine Ends.after (onFirst_returns (object_returns ho) σ.2) ?_
  by_cases hroom : o.size_ < o.capacity_
  · rw [onlyIf_neg (Nat.not_le.2 hroom)]
    refine (append_ends hC h ho val).mono fun σ' hframe => ⟨h.frame hframe, Or.inl ⟨?_, Or.inl hroom⟩⟩
    exact hframe.same hrow ho (slotsFrom_behind hrow)
  · rw [onlyIf_pos (Nat.not_lt.1 hroom)]
    have hn : o.capacity_ < wrap (o.size_ + 1) := by
      have hsize := hrow.size
      have hmax : o.capacity_ ≤ 2 ^ 63 := hrow.capacity
      rw [wrap, Nat.mod_eq_of_lt (by omega)]
      omega
    refine (regrow_ends hC h ho hn hroom).bind ?_
    rintro _ σ₁ ⟨⟨h₁, hroom₁⟩, hsaved⟩
    obtain ⟨v, hv, hnv⟩ := hroom₁
    refine (append_ends hC h₁ hv val).mono fun σ' hframe => ⟨h₁.frame hframe, Or.inr ⟨⟨hroom, hsaved⟩, ?_⟩⟩
    exact HasRoom.congr ⟨v, hv, Nat.succ_le_of_lt (hn.trans_le hnv)⟩ hframe.objects

theorem resize_ends (hC : Framed C V) (h : V.Tidy σ) (ho : σ.1.objects.entry i = some o)
    (n val : Nat) :
    Ends .badAlloc (resize P C i n val) σ (fun _ => V.Tidy)
      (fun σ' => V.Tidy σ' ∧ V.Thrown (saving P C i) (n ≤ o.capacity_) σ i o σ') := by
  have hrow := h.rows i o ho
  refine Ends.after (onFirst_returns (object_returns ho) σ.2) ?_
  refine Ends.bind (R := fun _ σ' => V.Tidy σ' ∧ HasRoom σ' i n) (Ends.onlyIf (fun hgrow => ?_) ?_) ?_
  · by_cases hroom : n ≤ o.capacity_
    · rw [onlyIf_neg (Nat.not_lt.2 hroom)]
      refine (fill_ends hC ho o.size_ n val h.sound).imp (fun _ σ' hmoves => ?_) fun σ' hmoves => ?_
      · exact ⟨h.frame (hmoves.frame (A := ∅)), HasRoom.congr ⟨o, ho, hroom⟩ (by rw [hmoves.1])⟩
      · refine ⟨h.frame (hmoves.frame (A := ∅)), Or.inl ⟨?_, Or.inl hroom⟩⟩
        exact hmoves.frame.same hrow ho (slotsFrom_behind hrow)
    · rw [onlyIf_pos (Nat.not_le.1 hroom)]
      refine (regrow_ends hC h ho (Nat.not_le.1 hroom) hroom).bind ?_
      rintro _ σ₁ ⟨⟨h₁, hroom₁⟩, hsaved⟩
      obtain ⟨v, hv, hnv⟩ := hroom₁
      refine (fill_ends hC hv o.size_ n val h₁.sound).imp (fun _ σ' hmoves => ?_) fun σ' hmoves => ?_
      · exact ⟨h₁.frame (hmoves.frame (A := ∅)), HasRoom.congr ⟨v, hv, hnv⟩ (by rw [hmoves.1])⟩
      · refine ⟨h₁.frame (hmoves.frame (A := ∅)), Or.inr ⟨⟨hroom, hsaved⟩, ?_⟩⟩
        exact HasRoom.congr ⟨v, hv, (Nat.not_le.1 hroom).trans_le hnv⟩ (by rw [hmoves.1])
  · exact fun hshrink => ⟨h, o, ho, (Nat.not_lt.1 hshrink).trans hrow.size⟩
  · rintro _ σ₁ ⟨h₁, v, hv, hnv⟩
    exact (modify_ends h₁ hv ((h₁.rows i v hv).resized hnv)).imp (fun _ _ h' => h'.1) fun _ h' => h'

end LinuxSamples.ClassVector
