import LinuxSamples.Memory.Store
import LinuxSamples.Program.Safety

set_option autoImplicit false

/-! # The faults of an access

Reading or writing a field or a slot stops, where it stops, with one of three faults: the object does
not exist, the index is out of bounds, the array was released. With respect to any other fault these
steps are safe, and they leave the objects and the ledger as they were. -/

namespace LinuxSamples.Memory

open LinuxSamples.Program

variable {α Obj β γ : Type} {bad : Fault}

/-- `e` is not the fault of an access to a field or a slot. -/
abbrev Fault.Foreign (e : Fault) : Prop := e ≠ .noObject ∧ e ≠ .outOfBounds ∧ e ≠ .released

/-- `m` does not stop with `bad` and changes nothing. -/
abbrev Reads (bad : Fault) (m : Prog Obj α β) : Prop := Within bad (fun s s' => s' = s) m

/-- Only contents of arrays differ. -/
def Still (s s' : Store Obj α) : Prop :=
  s'.objects = s.objects ∧ s'.heap.ledger = s.heap.ledger

theorem Still.refl (s : Store Obj α) : Still s s := ⟨rfl, rfl⟩

theorem Still.of_eq {s s' : Store Obj α} (h : s' = s) : Still s s' := by
  rw [h]
  exact Still.refl s

/-- Only the contents of the array `p` points to differ. -/
structure Writes (p : Option Nat) (s s' : Store Obj α) : Prop where
  objects : s'.objects = s.objects
  ledger : s'.heap.ledger = s.heap.ledger
  next : s'.heap.next = s.heap.next
  array : ∀ b, p ≠ some b → s'.heap.array b = s.heap.array b

theorem Writes.still {p : Option Nat} (s s' : Store Obj α) (h : Writes p s s') : Still s s' :=
  ⟨h.objects, h.ledger⟩

theorem Writes.write {s : Store Obj α} {b : Nat} {old : List α} (hb : s.heap.array b = some old)
    (slots : List α) : Writes (some b) s (s.write b slots) := by
  refine ⟨rfl, rfl, rfl, fun c hc => ?_⟩
  rw [Store.write_heap, Heap.write_array hb]
  exact Function.update_of_ne (fun he => hc (congrArg some he.symm)) _ _

theorem Reads.pure (a : β) : Reads bad (Pure.pure a : Prog Obj α β) := fun _ => Avoids.pure rfl

theorem Reads.bind {m : Prog Obj α β} {f : β → Prog Obj α γ} (hm : Reads bad m)
    (hf : ∀ a, Reads bad (f a)) : Reads bad (m >>= f) :=
  Within.bind (fun _ _ _ h₁ h₂ => h₂.trans h₁) hm hf

/-- Reading, then a step that moves along a relation. -/
theorem Reads.then_within {R : Store Obj α → Store Obj α → Prop} {m : Prog Obj α β}
    {f : β → Prog Obj α γ} (hm : Reads bad m) (hf : ∀ a, Within bad R (f a)) :
    Within bad R (m >>= f) := fun s =>
  (hm s).bind fun a s' h => by
    rw [h]
    exact hf a s

theorem Reads.throw {e : Fault} (he : e ≠ bad) : Reads bad (throw e : Prog Obj α β) := fun s =>
  Avoids.of_fails ⟨s, rfl⟩ he

/-- The fields of an object that exists. -/
theorem object_found (hbad : bad.Foreign) (i : Nat) (s : Store Obj α) :
    Avoids bad (object i) s fun o s' => s' = s ∧ s.objects.entry i = some o := by
  cases ho : s.objects.entry i with
  | none => exact Avoids.of_fails (object_fails ho) hbad.1.symm
  | some o => exact Avoids.of_returns (object_returns ho) ⟨rfl, rfl⟩

theorem Avoids.after_object (hbad : bad.Foreign) {i : Nat} {s : Store Obj α}
    {f : Obj → Prog Obj α β} {Q : β → Store Obj α → Prop}
    (hf : ∀ o, s.objects.entry i = some o → Avoids bad (f o) s Q) :
    Avoids bad (object i >>= f) s Q :=
  (object_found hbad i s).bind fun o s' h => by
    obtain ⟨rfl, ho⟩ := h
    exact hf o ho

theorem Ends.after_object (hbad : bad.Foreign) {i : Nat} {s : Store Obj α}
    {f : Obj → Prog Obj α β} {Q : β → Store Obj α → Prop} {X : Store Obj α → Prop}
    (hf : ∀ o, s.objects.entry i = some o → Ends bad (f o) s Q X) :
    Ends bad (object i >>= f) s Q X :=
  ((object_found hbad i s).ends X).bind fun o s' h => by
    obtain ⟨rfl, ho⟩ := h
    exact hf o ho

theorem Avoids.after_reads {m : Prog Obj α β} {f : β → Prog Obj α γ} {s : Store Obj α}
    {Q : γ → Store Obj α → Prop} (hm : Reads bad m) (hf : ∀ a, Avoids bad (f a) s Q) :
    Avoids bad (m >>= f) s Q :=
  (hm s).bind fun a s' h => by
    rw [h]
    exact hf a

theorem Ends.after_reads {m : Prog Obj α β} {f : β → Prog Obj α γ} {s : Store Obj α}
    {Q : γ → Store Obj α → Prop} {X : Store Obj α → Prop} (hm : Reads bad m)
    (hf : ∀ a, Ends bad (f a) s Q X) : Ends bad (m >>= f) s Q X :=
  ((hm s).ends X).bind fun a s' h => by
    rw [h]
    exact hf a

theorem Reads.object (hbad : bad.Foreign) (i : Nat) : Reads bad (object i : Prog Obj α Obj) :=
  fun s => (object_found hbad i s).mono fun _ _ h => h.1

theorem Reads.contents (hbad : bad.Foreign) (p : Option Nat) :
    Reads bad (contents p : Prog Obj α (List α)) := by
  intro s
  cases p with
  | none => exact Avoids.of_fails ⟨s, rfl⟩ hbad.2.1.symm
  | some b =>
      cases hb : s.heap.array b with
      | none => exact Avoids.of_fails (contents_released hb) hbad.2.2.symm
      | some slots => exact Avoids.of_returns (contents_returns hb) rfl

theorem Reads.load (hbad : bad.Foreign) (p : Option Nat) (i : Nat) :
    Reads bad (load p i : Prog Obj α α) := by
  refine Reads.bind (Reads.contents hbad p) fun slots => ?_
  split
  · exact Reads.pure _
  · exact Reads.throw hbad.2.1.symm

/-- The slot of an array that is there. -/
theorem load_found (hbad : bad.Foreign) (p : Option Nat) (i : Nat) (s : Store Obj α) :
    Avoids bad (load p i) s fun x s' =>
      s' = s ∧ ∃ b slots, p = some b ∧ s.heap.array b = some slots ∧ slots[i]? = some x where
  not_fails := (Reads.load hbad p i s).not_fails
  ensures x s' hret := by
    obtain ⟨slots, s₁, hslots, hx⟩ := hret.bind_inv
    obtain ⟨rfl, b, rfl, hb⟩ := contents_inv hslots
    split at hx
    · next y hy =>
        obtain ⟨rfl, rfl⟩ := hx.pure_inv
        exact ⟨rfl, b, slots, rfl, hb, hy⟩
    · cases hx

/-- A write changes the contents of one array. -/
theorem store_writes (hbad : bad.Foreign) (p : Option Nat) (i : Nat) (x : α) :
    Within bad (Writes p) (store p i x : Prog Obj α Unit) := by
  intro s
  cases p with
  | none => exact Avoids.of_fails ⟨s, rfl⟩ hbad.2.1.symm
  | some b =>
      cases hb : s.heap.array b with
      | none => exact Avoids.of_fails ⟨s, by simp [Memory.store, EStateM.run, hb]⟩ hbad.2.2.symm
      | some slots =>
          by_cases hi : i < slots.length
          · exact Avoids.of_returns (store_returns hb hi x) (Writes.write hb _)
          · exact Avoids.of_fails (store_fails hb (Nat.not_lt.1 hi) x) hbad.2.1.symm

theorem store_within (hbad : bad.Foreign) (p : Option Nat) (i : Nat) (x : α) :
    Within bad Still (store p i x : Prog Obj α Unit) :=
  (store_writes hbad p i x).mono Writes.still

theorem modifyObject_found (hbad : bad.Foreign) (i : Nat) (f : Obj → Obj) (s : Store Obj α) :
    Avoids bad (modifyObject i f) s fun _ s' =>
      ∃ o, s.objects.entry i = some o ∧ s' = s.put i (f o) := by
  cases ho : s.objects.entry i with
  | none => exact Avoids.of_fails (modifyObject_fails ho f) hbad.1.symm
  | some o => exact Avoids.of_returns (modifyObject_returns ho f) ⟨o, rfl, rfl⟩

theorem modifyObject_within (hbad : bad.Foreign) (i : Nat) (f : Obj → Obj) :
    Within bad (fun _ _ => True) (modifyObject i f : Prog Obj α Unit) := fun s =>
  (modifyObject_found hbad i f s).mono fun _ _ _ => trivial

/-- `delete []` of an array that was released is its own fault. -/
theorem deleteArray_drops (hbad : bad ≠ .badDelete) (p : Option Nat) (s : Store Obj α) :
    Avoids bad (deleteArray p) s fun _ s' => s' = ⟨s.objects, s.heap.drop p⟩ := by
  cases p with
  | none => exact Avoids.of_returns (deleteArray_null s) rfl
  | some b =>
      cases hb : s.heap.array b with
      | none =>
          exact Avoids.of_fails ⟨s, by simp [deleteArray, EStateM.run, hb]⟩ hbad.symm
      | some slots => exact Avoids.of_returns (deleteArray_returns hb) rfl

/-- A refused request leaves everything but the number of the next array. -/
theorem newArray_ends (P : Platform α) (n : Nat) (s : Store Obj α) :
    Ends .badAlloc (newArray P n) s
      (fun b s' => b = s.heap.next ∧
        s' = ⟨s.objects, s.heap.alloc ((List.range n).map (P.initial s.heap.next))⟩)
      (fun s' => s' = ⟨s.objects, s.heap.skip⟩) := by
  cases hP : P.refuses s.heap.next with
  | true =>
      have hstop : Stops (newArray P n) s .badAlloc ⟨s.objects, s.heap.skip⟩ := by
        simp [Stops, newArray, EStateM.run, hP]
      refine ⟨fun b s' hret => absurd hstop.fails hret.not_fails, fun s' h => ?_⟩
      rw [Stops, hstop] at h
      cases h
      rfl
  | false =>
      have hret : Returns (newArray P n) s s.heap.next
          ⟨s.objects, s.heap.alloc ((List.range n).map (P.initial s.heap.next))⟩ := by
        simp [Returns, newArray, EStateM.run, hP]
      exact Ends.of_returns hret ⟨rfl, rfl⟩

/-! ## Code that does not throw -/

/-- `m` never throws `std::bad_alloc`. -/
abbrev NoThrow (m : Prog Obj α β) : Prop := Within Fault.badAlloc (fun _ _ => True) m

theorem NoThrow.bind {m : Prog Obj α β} {f : β → Prog Obj α γ} (hm : NoThrow m)
    (hf : ∀ a, NoThrow (f a)) : NoThrow (m >>= f) :=
  Within.bind (fun _ _ _ _ _ => trivial) hm hf

theorem NoThrow.of_within {R : Store Obj α → Store Obj α → Prop} {m : Prog Obj α β}
    (hm : Within Fault.badAlloc R m) : NoThrow m :=
  hm.mono fun _ _ _ => trivial

theorem NoThrow.modifyObject (i : Nat) (f : Obj → Obj) :
    NoThrow (modifyObject i f : Prog Obj α Unit) :=
  modifyObject_within (by decide) i f

theorem NoThrow.deleteArray (p : Option Nat) : NoThrow (deleteArray p : Prog Obj α Unit) := fun s =>
  (deleteArray_drops (by decide) p s).mono fun _ _ _ => trivial

theorem NoThrow.store (p : Option Nat) (k : Nat) (x : α) : NoThrow (store p k x : Prog Obj α Unit) :=
  NoThrow.of_within (store_within (by decide) p k x)

end LinuxSamples.Memory
