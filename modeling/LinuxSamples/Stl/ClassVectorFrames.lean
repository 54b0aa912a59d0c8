import LinuxSamples.Stl.ClassVector
import LinuxSamples.Memory.Faults
import Mathlib.Data.List.Nodup
import Mathlib.Data.Set.Basic

set_option autoImplicit false

/-! # What `vector<T>` leaves alone

The constructors and the `operator=` of a class `T` may allocate, so they may throw. What is asked of the
class here is only that a member touches no object but the one it is called on, whether it returns or
throws. What is seen of an object is a parameter, the `View`. It follows what `new T[n]`, `delete []` and
the loops of assignments touch, wherever in them an allocation throws. -/

namespace LinuxSamples.ClassVector

open LinuxSamples.Program LinuxSamples.Memory
open LinuxSamples.Vector (Fields)

variable {τ X Y : Type}

/-! ## Classes -/

/-- What is seen of the objects of a class. -/
structure View (τ Y : Type) where
  /-- What its members rely on. -/
  Sound : τ → Prop
  /-- The number of the next object. -/
  next : τ → Nat
  look : τ → Nat → Y

/-- From `t` to `t'`, of the objects there were, only those in `D` may look different. -/
structure View.Touches (V : View τ Y) (D : Set Nat) (t t' : τ) : Prop where
  sound : V.Sound t'
  next : V.next t ≤ V.next t'
  look : ∀ e, e < V.next t → e ∉ D → V.look t' e = V.look t e

/-- `m` makes a new object, or throws. -/
def View.Makes (V : View τ Y) (m : EStateM Fault τ Nat) : Prop :=
  ∀ t, V.Sound t → Ends .badAlloc m t
    (fun e t' => V.Touches ∅ t t' ∧ V.next t ≤ e ∧ e < V.next t') (V.Touches ∅ t)

/-- A class whose members touch no object but the one they are called on, also when they throw. Its
    destructor does not throw. -/
structure Framed (C : Class τ X) (V : View τ Y) : Prop where
  construct : V.Makes C.construct
  make : ∀ x, V.Makes (C.make x)
  copyConstruct : ∀ e, V.Makes (C.copyConstruct e)
  assign : ∀ d e t, V.Sound t →
    Ends .badAlloc (C.assign d e) t (fun _ => V.Touches {d} t) (V.Touches {d} t)
  destroy : ∀ e t, Avoids .badAlloc (C.destroy e) t fun _ t' => V.Sound t → V.Touches {e} t t'

variable {V : View τ Y} {D D' : Set Nat}

theorem View.Touches.refl {t : τ} (h : V.Sound t) : V.Touches D t t :=
  ⟨h, Nat.le_refl _, fun _ _ _ => rfl⟩

/-- What was touched on the way, of what there was at the start. -/
theorem View.Touches.trans {t₀ t₁ t₂ : τ} (h : V.Touches D t₀ t₁) (h' : V.Touches D' t₁ t₂)
    (hD : ∀ e ∈ D', e < V.next t₀ → e ∈ D) : V.Touches D t₀ t₂ where
  sound := h'.sound
  next := h.next.trans h'.next
  look e he hout :=
    (h'.look e (he.trans_le h.next) fun hin => hout (hD e hin he)).trans (h.look e he hout)

theorem View.Touches.mono {t t' : τ} (h : V.Touches D t t') (hD : ∀ e ∈ D, e ∈ D') :
    V.Touches D' t t' :=
  ⟨h.sound, h.next, fun e he hout => h.look e he fun hin => hout (hD e hin)⟩

/-! ## Built-in types -/

/-- A built-in type. Objects that are not given a value hold what `initial` says. -/
def builtin (initial : Nat → X) : Class (Table X) X where
  construct := fun t => .ok t.next (t.add (initial t.next))
  make x := fun t => .ok t.next (t.add x)
  copyConstruct e := fun t =>
    match t.entry e with
    | some x => .ok t.next (t.add x)
    | none => .error .noObject t
  assign d e := fun t =>
    match t.entry d, t.entry e with
    | some _, some x => .ok () (t.set d x)
    | _, _ => .error .noObject t
  destroy e := fun t =>
    match t.entry e with
    | some _ => .ok () (t.erase e)
    | none => .error .noObject t

/-- The value of an object. -/
def builtinView (X : Type) : View (Table X) (Option X) := ⟨fun _ => True, Table.next, Table.entry⟩

theorem builtinView_add (t : Table X) (x : X) :
    (builtinView X).Touches ∅ t (t.add x) ∧ t.next ≤ t.next ∧ t.next < (t.add x).next := by
  refine ⟨⟨trivial, Nat.le_succ _, fun e he _ => ?_⟩, Nat.le_refl _, Nat.lt_succ_self _⟩
  exact Function.update_of_ne (Nat.ne_of_lt he) _ _

theorem builtinView_update {t t' : Table X} {d : Nat} (hnext : t'.next = t.next)
    (hentry : ∀ e, e ≠ d → t'.entry e = t.entry e) : (builtinView X).Touches {d} t t' :=
  ⟨trivial, Nat.le_of_eq hnext.symm, fun e _ hne => hentry e hne⟩

theorem builtin_framed (initial : Nat → X) : Framed (builtin initial) (builtinView X) where
  construct t _ := Ends.of_returns rfl (builtinView_add t _)
  make x t _ := Ends.of_returns rfl (builtinView_add t x)
  copyConstruct e t _ := by
    cases he : t.entry e with
    | none =>
        have hfail : Fails ((builtin initial).copyConstruct e) t .noObject :=
          ⟨t, by simp [builtin, EStateM.run, he]⟩
        exact (Avoids.of_fails hfail (by decide)).ends _
    | some x =>
        have hret : Returns ((builtin initial).copyConstruct e) t t.next (t.add x) := by
          simp [Returns, builtin, EStateM.run, he]
        exact Ends.of_returns hret (builtinView_add t x)
  assign d e t _ := by
    cases hd : t.entry d with
    | none =>
        have hfail : Fails ((builtin initial).assign d e) t .noObject :=
          ⟨t, by simp [builtin, EStateM.run, hd]⟩
        exact (Avoids.of_fails hfail (by decide)).ends _
    | some y =>
        cases he : t.entry e with
        | none =>
            have hfail : Fails ((builtin initial).assign d e) t .noObject :=
              ⟨t, by simp [builtin, EStateM.run, hd, he]⟩
            exact (Avoids.of_fails hfail (by decide)).ends _
        | some x =>
            have hret : Returns ((builtin initial).assign d e) t () (t.set d x) := by
              simp [Returns, builtin, EStateM.run, hd, he]
            refine Ends.of_returns hret (builtinView_update rfl fun k hk => ?_)
            rw [Table.set_entry hd, Function.update_of_ne hk]
  destroy e t := by
    cases he : t.entry e with
    | none =>
        have hfail : Fails ((builtin initial).destroy e) t .noObject :=
          ⟨t, by simp [builtin, EStateM.run, he]⟩
        exact Avoids.of_fails hfail (by decide)
    | some x =>
        have hret : Returns ((builtin initial).destroy e) t () (t.erase e) := by
          simp [Returns, builtin, EStateM.run, he]
        refine Avoids.of_returns hret fun _ => builtinView_update rfl fun k hk => ?_
        rw [Table.erase_entry, Function.update_of_ne hk]

/-! ## Vectors and objects -/

/-- From `σ` to `σ'` at most the arrays `A` were released and, of the objects there were, those in `D`
    touched; no vector has other fields. -/
structure View.Frame (V : View τ Y) (A D : Set Nat) (σ σ' : State τ) : Prop where
  objects : σ'.1.objects = σ.1.objects
  heap : σ.1.heap.next ≤ σ'.1.heap.next
  arrays : ∀ b, b < σ.1.heap.next →
    σ'.1.heap.array b = σ.1.heap.array b ∨ b ∈ A ∧ σ'.1.heap.array b = none
  touches : V.Touches D σ.2 σ'.2

variable {A A' : Set Nat} {σ σ' σ₀ σ₁ σ₂ : State τ} {C : Class τ X} {P : Platform Nat}

theorem View.Frame.of_touches (hfirst : σ'.1 = σ.1) (h : V.Touches D σ.2 σ'.2) :
    V.Frame A D σ σ' where
  objects := by rw [hfirst]
  heap := by rw [hfirst]
  arrays b _ := Or.inl (by rw [hfirst])
  touches := h

theorem View.Frame.refl (h : V.Sound σ.2) : V.Frame A D σ σ :=
  View.Frame.of_touches rfl (View.Touches.refl h)

theorem View.Frame.trans (h : V.Frame A D σ₀ σ₁) (h' : V.Frame A' D' σ₁ σ₂)
    (hA : ∀ b ∈ A', b < σ₀.1.heap.next → b ∈ A) (hD : ∀ e ∈ D', e < V.next σ₀.2 → e ∈ D) :
    V.Frame A D σ₀ σ₂ where
  objects := h'.objects.trans h.objects
  heap := h.heap.trans h'.heap
  arrays b hb := by
    rcases h'.arrays b (hb.trans_le h.heap) with hsame | ⟨hin, hnone⟩
    · rw [hsame]
      exact h.arrays b hb
    · exact Or.inr ⟨hA b hin hb, hnone⟩
  touches := h.touches.trans h'.touches hD

theorem View.Frame.weaken (h : V.Frame A D σ σ') : V.Frame A Set.univ σ σ' :=
  ⟨h.objects, h.heap, h.arrays, h.touches.mono fun _ _ => Set.mem_univ _⟩

/-- A step that touches no object that was there before it. -/
theorem View.Frame.step (h : V.Frame A D σ₀ σ) (hfirst : σ'.1 = σ.1) (htouch : V.Touches ∅ σ.2 σ'.2) :
    V.Frame A D σ₀ σ' :=
  h.trans (View.Frame.of_touches hfirst htouch : V.Frame ∅ _ _ _) (fun _ hb => hb.elim)
    fun _ he => he.elim

/-- Nothing that was there is touched when a new object is. -/
theorem View.Frame.touch_new (h : V.Frame A D σ₀ σ) {e : Nat} (he : V.next σ₀.2 ≤ e)
    (hfirst : σ'.1 = σ.1) (htouch : V.Touches {e} σ.2 σ'.2) : V.Frame A D σ₀ σ' := by
  refine h.trans (View.Frame.of_touches hfirst htouch : V.Frame ∅ _ _ _) (fun _ hb => hb.elim) ?_
  rintro d rfl hd
  exact absurd hd (Nat.not_lt.2 he)

/-! ## Arrays of objects -/

theorem destroy_never (hC : Framed C V) (e : Nat) (σ : State τ) :
    ¬ Fails (onSecond (C.destroy e)) σ .badAlloc := by
  rintro ⟨σ', hstop⟩
  exact (hC.destroy e σ.2).not_fails (onSecond_stops_inv hstop).1.fails

theorem delete_never (p : Option Nat) (σ : State τ) :
    ¬ Fails (onFirst (deleteArray p)) σ .badAlloc := by
  rintro ⟨σ', hstop⟩
  exact (NoThrow.deleteArray p σ.1).not_fails (onFirst_stops_inv hstop).1.fails

/-- The destructor of a new object. -/
theorem destroy_new (hC : Framed C V) {e : Nat} (h : V.Frame A D σ₀ σ) (he : V.next σ₀.2 ≤ e)
    (hret : Returns (onSecond (C.destroy e)) σ () σ') : V.Frame A D σ₀ σ' := by
  obtain ⟨hdestroy, hfirst⟩ := onSecond_returns_inv hret
  exact h.touch_new he hfirst ((hC.destroy e σ.2).ensures _ _ hdestroy h.touches.sound)

theorem destroyAll_ends (hC : Framed C V) (ids : List Nat) (hσ : V.Sound σ.2) :
    Ends .badAlloc (destroyAll C ids) σ
      (fun _ σ' => σ'.1 = σ.1 ∧ V.Touches Set.univ σ.2 σ'.2) fun _ => False := by
  induction ids generalizing σ with
  | nil => exact Ends.pure ⟨rfl, View.Touches.refl hσ⟩
  | cons e rest ih =>
      refine (((hC.destroy e σ.2).ends fun _ => False).onSecond.mono fun _ h => h.1).bind ?_
      rintro _ σ₁ ⟨htouch, hfirst⟩
      refine (ih (htouch hσ).sound).imp ?_ fun _ h => h
      rintro _ σ₂ ⟨hfirst', htouch'⟩
      exact ⟨hfirst'.trans hfirst, (htouch hσ |>.mono fun _ _ => Set.mem_univ _).trans htouch'
        fun _ h _ => h⟩

/-- `delete [] p`. -/
theorem deleteObjects_ends (hC : Framed C V) (p : Option Nat) (hσ : V.Sound σ.2) :
    Ends .badAlloc (deleteObjects C p) σ
      (fun _ σ' => V.Frame {b | p = some b} Set.univ σ σ' ∧
        ∀ b, p = some b → σ'.1.heap.array b = none) fun _ => False := by
  cases p with
  | none => exact Ends.pure ⟨View.Frame.refl hσ, fun b hb => by cases hb⟩
  | some b =>
      refine (((Reads.contents (by decide) (some b) σ.1).ends fun _ => False).onFirst.mono
        fun _ h => h.1).bind ?_
      rintro elems ⟨s, t⟩ ⟨rfl, rfl⟩
      refine (destroyAll_ends hC elems.reverse hσ).bind ?_
      rintro _ ⟨s', t'⟩ ⟨hfirst, htouch⟩
      refine (((deleteArray_drops (by decide) (some b) s').ends fun _ => False).onFirst).imp ?_
        fun _ h => h.1
      rintro _ ⟨s'', t''⟩ ⟨hdrop, rfl⟩
      obtain rfl : s' = σ.1 := hfirst
      obtain rfl : s'' = _ := hdrop
      have harray : ∀ c, (σ.1.heap.drop (some b)).array c
          = if some b = some c then none else σ.1.heap.array c := σ.1.heap.drop_array (some b)
      refine ⟨⟨rfl, Nat.le_of_eq (Heap.drop_next _ _).symm, fun c _ => ?_, htouch⟩, fun c hc => ?_⟩
      · by_cases hc : some b = some c
        · exact Or.inr ⟨hc, (harray c).trans (if_pos hc)⟩
        · exact Or.inl ((harray c).trans (if_neg hc))
      · exact (harray c).trans (if_pos hc)

/-- From `σ` on, array `b` was allocated and its slots were filled with `n` new objects. -/
structure View.NewArray (V : View τ Y) (σ σ' : State τ) (n b : Nat) : Prop where
  fresh : σ.1.heap.next ≤ b
  slots : ∃ ids, σ'.1.heap.array b = some ids ∧ ids.length = n ∧ ids.Nodup ∧
    ∀ e ∈ ids, V.next σ.2 ≤ e ∧ e < V.next σ'.2

/-- Writing into an array that was not there at the start. -/
theorem View.Frame.write_new (h : V.Frame A D σ₀ σ) {b : Nat} (hb : σ₀.1.heap.next ≤ b)
    {old slots : List Nat} (harr : σ.1.heap.array b = some old) :
    V.Frame A D σ₀ (σ.1.write b slots, σ.2) where
  objects := h.objects
  heap := h.heap
  arrays c hc := by
    have hother : (σ.1.write b slots).heap.array c = σ.1.heap.array c := by
      rw [Store.write_heap, Heap.write_array harr]
      exact Function.update_of_ne (Nat.ne_of_lt (hc.trans_le hb)) _ _
    rw [hother]
    exact h.arrays c hc
  touches := h.touches

/-- The constructors of the slots from `k` on. The slots before hold new objects; if a constructor throws,
    nothing that was there at the start was touched. -/
theorem constructAll_ends (hC : Framed C V) {b k count : Nat} {slots : List Nat}
    (h : V.Frame ∅ ∅ σ₀ σ) (hb : σ₀.1.heap.next ≤ b) (harr : σ.1.heap.array b = some slots)
    (hlen : slots.length = k + count) (hnodup : (slots.take k).Nodup)
    (hnew : ∀ e ∈ slots.take k, V.next σ₀.2 ≤ e ∧ e < V.next σ.2) :
    Ends .badAlloc (constructAll C b k count) σ
      (fun _ σ' => V.Frame ∅ ∅ σ₀ σ' ∧ V.NewArray σ₀ σ' (k + count) b) (V.Frame ∅ ∅ σ₀) := by
  induction count generalizing k slots σ with
  | zero =>
      rw [List.take_of_length_le (show slots.length ≤ k by omega)] at hnodup hnew
      exact Ends.pure ⟨h, hb, slots, harr, hlen, hnodup, hnew⟩
  | succ count ih =>
      have hk : k < slots.length := by omega
      refine ((hC.construct σ.2 h.touches.sound).onSecond.mono fun σ₁ h₁ => h.step h₁.2 h₁.1).bind ?_
      rintro e ⟨s, t⟩ ⟨⟨htouch, hge, hlt⟩, hfirst⟩
      obtain rfl : s = σ.1 := hfirst
      have h₁ : V.Frame ∅ ∅ σ₀ (σ.1, t) := h.step rfl htouch
      have he : V.next σ₀.2 ≤ e := h.touches.next.trans hge
      have htake : (slots.set k e).take (k + 1) = slots.take k ++ [e] := by
        rw [List.take_add_one, List.getElem?_set_self hk, List.take_set_of_le (Nat.le_refl k)]
        rfl
      have hwrite : (σ.1.write b (slots.set k e)).heap.array b = some (slots.set k e) := by
        rw [Store.write_heap, Heap.write_array harr, Function.update_self]
      refine Ends.after (onFirst_returns (store_returns harr hk e) t) ?_
      refine Ends.orCleanUp (Y := V.Frame ∅ ∅ σ₀) ?_ (destroy_never hC e)
        fun _ _ h₂ hret => destroy_new hC h₂ he hret
      rw [show k + (count + 1) = k + 1 + count by omega]
      refine ih (h₁.write_new hb harr) hwrite (by rw [List.length_set]; omega) ?_ ?_
      · -- the new object has a larger number than all before it
        rw [htake, List.nodup_append]
        refine ⟨hnodup, List.nodup_singleton e, fun d hd d' hd' => ?_⟩
        have hold := (hnew d hd).2
        rw [List.mem_singleton] at hd'
        omega
      · intro d hd
        rw [htake, List.mem_append, List.mem_singleton] at hd
        rcases hd with hd | rfl
        · exact ⟨(hnew d hd).1, (hnew d hd).2.trans_le htouch.next⟩
        · exact ⟨he, hlt⟩

/-- `new T[n]`. -/
theorem newObjects_ends (hC : Framed C V) (n : Nat) (hσ : V.Sound σ.2) :
    Ends .badAlloc (newObjects P C n) σ
      (fun b σ' => V.Frame ∅ ∅ σ σ' ∧ V.NewArray σ σ' n b) (V.Frame ∅ ∅ σ) := by
  refine ((newArray_ends P n σ.1).onFirst.mono ?_).bind ?_
  · rintro ⟨s, t⟩ ⟨rfl, rfl⟩
    exact ⟨rfl, Nat.le_succ _, fun _ _ => Or.inl rfl, View.Touches.refl hσ⟩
  rintro b ⟨s, t⟩ ⟨⟨rfl, rfl⟩, rfl⟩
  have harray := σ.1.heap.alloc_array ((List.range n).map (P.initial σ.1.heap.next))
  have h : V.Frame ∅ ∅ σ
      (⟨σ.1.objects, σ.1.heap.alloc ((List.range n).map (P.initial σ.1.heap.next))⟩, σ.2) := by
    refine ⟨rfl, Nat.le_succ _, fun c hc => Or.inl ?_, View.Touches.refl hσ⟩
    rw [harray, Function.update_of_ne (Nat.ne_of_lt hc)]
  refine Ends.bind (R := fun _ σ' => V.Frame ∅ ∅ σ σ' ∧ V.NewArray σ σ' n σ.1.heap.next) ?_
    fun _ σ' h' => Ends.pure h'
  refine Ends.orCleanUp (Y := V.Frame ∅ ∅ σ) ?_ (delete_never _) ?_
  · have hlen : ((List.range n).map (P.initial σ.1.heap.next)).length = 0 + n := by simp
    have hall := constructAll_ends hC h (Nat.le_refl _) (by rw [harray, Function.update_self]) hlen
      List.nodup_nil fun e he => by cases he
    rwa [Nat.zero_add] at hall
  · -- the array is released again
    intro σ₁ σ₂ h₁ hret
    obtain ⟨hdelete, hsecond⟩ := onFirst_returns_inv hret
    obtain ⟨s, t⟩ := σ₂
    obtain rfl : t = σ₁.2 := hsecond
    obtain rfl : s = _ :=
      (deleteArray_drops (by decide : Fault.badAlloc ≠ .badDelete) _ _).ensures _ _ hdelete
    have hnext := σ₁.1.heap.drop_next (some σ.1.heap.next)
    refine ⟨h₁.objects, h₁.heap.trans (Nat.le_of_eq hnext.symm), fun c hc => ?_, h₁.touches⟩
    have hother := σ₁.1.heap.drop_array (some σ.1.heap.next) c
    rw [if_neg fun he => Nat.ne_of_lt hc (Option.some.inj he).symm] at hother
    rw [hother]
    exact h₁.arrays c hc

/-! ## Loops of assignments -/

/-- Slot `k` of the array `p` points to holds object `d`. -/
def Slot (s : Store Fields Nat) (p : Option Nat) (k d : Nat) : Prop :=
  ∃ b ids, p = some b ∧ s.heap.array b = some ids ∧ ids[k]? = some d

/-- Only objects in `D` are touched. -/
def View.Moves (V : View τ Y) (D : Set Nat) (σ σ' : State τ) : Prop :=
  σ'.1 = σ.1 ∧ V.Touches D σ.2 σ'.2

theorem View.Moves.frame (h : V.Moves D σ σ') : V.Frame A D σ σ' := View.Frame.of_touches h.1 h.2

theorem View.Moves.trans (h : V.Moves D σ₀ σ₁) (h' : V.Moves D σ₁ σ₂) : V.Moves D σ₀ σ₂ :=
  ⟨h'.1.trans h.1, h.2.trans h'.2 fun _ he _ => he⟩

theorem Ends.after_object {β : Type} {i : Nat} {f : Fields → Code τ β} {Q : β → State τ → Prop}
    {Z : State τ → Prop} (hf : ∀ o, σ.1.objects.entry i = some o → Ends .badAlloc (f o) σ Q Z) :
    Ends .badAlloc (onFirst (object i) >>= f) σ Q Z := by
  refine (((object_found (by decide) i σ.1).ends fun _ => False).onFirst.mono fun _ h => h.1.elim).bind ?_
  rintro o ⟨s, t⟩ ⟨⟨rfl, ho⟩, rfl⟩
  exact hf o ho

theorem Ends.after_load {β : Type} {p : Option Nat} {k : Nat} {f : Nat → Code τ β}
    {Q : β → State τ → Prop} {Z : State τ → Prop}
    (hf : ∀ d, Slot σ.1 p k d → Ends .badAlloc (f d) σ Q Z) :
    Ends .badAlloc (onFirst (load p k) >>= f) σ Q Z := by
  refine (((load_found (by decide) p k σ.1).ends fun _ => False).onFirst.mono fun _ h => h.1.elim).bind ?_
  rintro d ⟨s, t⟩ ⟨⟨rfl, hd⟩, rfl⟩
  exact hf d hd

theorem assign_ends (hC : Framed C V) {d : Nat} (e : Nat) (hd : d ∈ D) (hσ : V.Sound σ.2) :
    Ends .badAlloc (onSecond (C.assign d e)) σ (fun _ => V.Moves D σ) (V.Moves D σ) := by
  have hin : ∀ c ∈ ({d} : Set Nat), c ∈ D := by
    rintro c rfl
    exact hd
  exact (hC.assign d e σ.2 hσ).onSecond.imp (fun _ _ h => ⟨h.2, h.1.mono hin⟩)
    fun _ h => ⟨h.2, h.1.mono hin⟩

/-- A loop whose iterations touch objects in `D`. -/
theorem loop_ends {body : Nat → Code τ Unit} {lo count : Nat} (hσ : V.Sound σ.2)
    (hbody : ∀ k σ₁, lo ≤ k → k < lo + count → σ₁.1 = σ.1 → V.Sound σ₁.2 →
      Ends .badAlloc (body k) σ₁ (fun _ => V.Moves D σ₁) (V.Moves D σ₁)) :
    Ends .badAlloc (forUp body lo count) σ (fun _ => V.Moves D σ) (V.Moves D σ) := by
  refine Ends.forUp (fun k σ₁ hlo hhi h₁ => ?_) ⟨rfl, View.Touches.refl hσ⟩
  exact (hbody k σ₁ hlo hhi h₁.1 h₁.2.sound).imp (fun _ _ => h₁.trans) fun _ => h₁.trans

/-- The objects of slots `lo, lo + 1, …` of the array `p` points to. -/
def slotsFrom (s : Store Fields Nat) (p : Option Nat) (lo : Nat) : Set Nat :=
  {d | ∃ k, lo ≤ k ∧ Slot s p k d}

/-- The loops of `push_back` and `resize`. -/
theorem transfer_ends (hC : Framed C V) (p q : Option Nat) (n : Nat) (hσ : V.Sound σ.2) :
    Ends .badAlloc (forUp (fun k => do
        let dst ← onFirst (load p k)
        let src ← onFirst (load q k)
        onSecond (C.assign dst src)) 0 n) σ
      (fun _ => V.Moves (slotsFrom σ.1 p 0) σ) (V.Moves (slotsFrom σ.1 p 0) σ) := by
  refine loop_ends hσ fun k σ₁ hlo _ hfirst hσ₁ => ?_
  refine Ends.after_load fun d hd => Ends.after_load fun e _ => assign_ends hC e ?_ hσ₁
  rw [hfirst] at hd
  exact ⟨k, hlo, hd⟩

theorem copyFrom_ends (hC : Framed C V) (i j n : Nat) (hσ : V.Sound σ.2) :
    Ends .badAlloc (copyFrom C i j n) σ (fun _ => V.Moves Set.univ σ) (V.Moves Set.univ σ) := by
  refine loop_ends hσ fun k σ₁ _ _ _ hσ₁ => ?_
  exact Ends.after_object fun v _ => Ends.after_load fun d _ => Ends.after_object fun w _ =>
    Ends.after_load fun e _ => assign_ends hC e (Set.mem_univ d) hσ₁

theorem fill_ends (hC : Framed C V) {i : Nat} {o : Fields} (ho : σ.1.objects.entry i = some o)
    (lo hi val : Nat) (hσ : V.Sound σ.2) :
    Ends .badAlloc (fill C i lo hi val) σ (fun _ => V.Moves (slotsFrom σ.1 o.buffer_ lo) σ)
      (V.Moves (slotsFrom σ.1 o.buffer_ lo) σ) := by
  refine loop_ends hσ fun k σ₁ hlo _ hfirst hσ₁ => ?_
  refine Ends.after_object fun v hv => Ends.after_load fun d hd => assign_ends hC val ?_ hσ₁
  rw [hfirst] at hv hd
  obtain rfl : v = o := Option.some.inj (hv.symm.trans ho)
  exact ⟨k, hlo, hd⟩

end LinuxSamples.ClassVector
