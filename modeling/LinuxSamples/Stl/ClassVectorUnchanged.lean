import LinuxSamples.Stl.ClassVectorThrows

set_option autoImplicit false

/-! # When a throw leaves a `vector<T>` unchanged

Runs of statements whose throws are caught. Their vectors stay in good order, save that a throw may have
taken a buffer. In each of their states, what a further throw leaves behind is read off the state and the
allocation that throws. -/

namespace LinuxSamples.ClassVector

open LinuxSamples.Program LinuxSamples.Memory
open LinuxSamples.Vector (Access Arg Fields Op)

variable {τ X Y : Type} {V : View τ Y} {C : Class τ X} {P : Platform Nat} {σ σ' σ₁ : State τ}
  {i j n : Nat} {o : Fields}

/-! ## Arguments -/

theorem slot_reads (a : Access) (i : Nat) :
    Reads Fault.badAlloc (a.slot i : Vector.VecProg Nat Vector.Slot) := by
  cases a with
  | at' k | index k | front | back =>
      refine Reads.bind (Reads.object (by decide) i) fun v => ?_
      exact Within.ite (Reads.throw (by decide)) (Reads.pure _)

theorem read_reads (a : Access) (i : Nat) :
    Reads Fault.badAlloc (a.read i : Vector.VecProg Nat Nat) :=
  (slot_reads a i).bind fun p => Reads.load (by decide) p.array p.index

theorem element_returns {a : Access} {e : Nat} (h : Returns (element a j) σ e σ₁) : σ₁ = σ := by
  obtain ⟨hread, hsecond⟩ := onFirst_returns_inv h
  exact Prod.ext ((read_reads a j σ.1).ensures _ _ hread) hsecond

theorem element_never (a : Access) (j : Nat) (σ : State τ) : ¬ Fails (element a j) σ .badAlloc := by
  rintro ⟨σ', hstop⟩
  exact (read_reads a j σ.1).not_fails (onFirst_stops_inv hstop).1.fails

theorem Ends.after_element {a : Access} {β : Type} {f : Nat → Code τ β} {Q : β → State τ → Prop}
    {Z : State τ → Prop} (hf : ∀ e, Ends .badAlloc (f e) σ Q Z) :
    Ends .badAlloc (element a j >>= f) σ Q Z := by
  refine Ends.bind (R := fun _ σ' => σ' = σ) ⟨fun e σ' => element_returns, fun σ' hstop => ?_⟩ ?_
  · exact absurd hstop.fails (element_never a j σ)
  · rintro e _ rfl
    exact hf e

/-- The destructor of an object leaves the vectors in good order. -/
theorem destroyed_tidy (hC : Framed C V) {e : Nat} (h : V.Tidy σ)
    (hret : Returns (onSecond (C.destroy e)) σ () σ') : V.Tidy σ' := by
  obtain ⟨hdestroy, hfirst⟩ := onSecond_returns_inv hret
  have htouch := (hC.destroy e σ.2).ensures _ _ hdestroy h.sound
  exact h.frame (View.Frame.of_touches hfirst htouch : V.Frame ∅ _ _ _)

theorem withTemporary_tidy (hC : Framed C V) {make : EStateM Fault τ Nat} (hmake : V.Makes make)
    (h : V.Tidy σ) {m : Nat → Code τ Unit}
    (hm : ∀ e σ₁, V.Tidy σ₁ → Ends .badAlloc (m e) σ₁ (fun _ => V.Tidy) V.Tidy) :
    Ends .badAlloc (withTemporary C make m) σ (fun _ => V.Tidy) V.Tidy := by
  have hmade : ∀ {σ' : State τ}, V.Touches ∅ σ.2 σ'.2 → σ'.1 = σ.1 → V.Tidy σ' := fun htouch hfirst =>
    h.frame (View.Frame.of_touches hfirst htouch : V.Frame ∅ _ _ _)
  refine ((hmake σ.2 h.sound).onSecond.mono fun σ' h' => hmade h'.1 h'.2).bind fun e σ₁ h₁ => ?_
  refine (Ends.orCleanUp (hm e σ₁ (hmade h₁.1.1 h₁.2)) (destroy_never hC e)
    fun _ _ => destroyed_tidy hC).bind fun _ σ₂ h₂ => ?_
  exact ⟨fun _ _ => destroyed_tidy hC h₂, fun _ hstop => absurd hstop.fails (destroy_never hC e σ₂)⟩

theorem withReference_tidy (hC : Framed C V) (val : Arg X) (h : V.Tidy σ) {m : Nat → Code τ Unit}
    (hm : ∀ e σ₁, V.Tidy σ₁ → Ends .badAlloc (m e) σ₁ (fun _ => V.Tidy) V.Tidy) :
    Ends .badAlloc (withReference C val m) σ (fun _ => V.Tidy) V.Tidy := by
  cases val with
  | value x => exact withTemporary_tidy hC (hC.make x) h hm
  | element j a => exact Ends.after_element fun e => hm e σ h

theorem withParameter_tidy (hC : Framed C V) (val : Arg X) (h : V.Tidy σ) {m : Nat → Code τ Unit}
    (hm : ∀ e σ₁, V.Tidy σ₁ → Ends .badAlloc (m e) σ₁ (fun _ => V.Tidy) V.Tidy) :
    Ends .badAlloc (withParameter C val m) σ (fun _ => V.Tidy) V.Tidy := by
  cases val with
  | value x => exact withTemporary_tidy hC (hC.make x) h hm
  | element j a => exact Ends.after_element fun e => withTemporary_tidy hC (hC.copyConstruct e) h hm

/-! ## Statements -/

theorem popBack_tidy (i : Nat) (h : V.Tidy σ) :
    Ends .badAlloc (onFirst (Vector.popBack i)) σ (fun _ => V.Tidy) V.Tidy := by
  have hpop : Ends .badAlloc (Vector.popBack i) σ.1
      (fun _ s' => ∃ o, σ.1.objects.entry i = some o ∧
        s' = σ.1.put i ⟨o.size_ - 1, o.capacity_, o.buffer_⟩) fun _ => False := by
    refine Memory.Ends.after_object (by decide) fun o ho => ?_
    split
    · exact (Avoids.of_fails ⟨_, rfl⟩ (by decide)).ends _
    · exact Ends.of_returns (modifyObject_returns ho _) ⟨o, ho, rfl⟩
  refine hpop.onFirst.imp ?_ fun _ h' => h'.1.elim
  rintro _ ⟨s, t⟩ ⟨⟨o, ho, rfl⟩, rfl⟩
  have hrow := h.rows i o ho
  exact h.put ho (hrow.resized ((Nat.sub_le _ _).trans hrow.size))

/-- **Every statement leaves the vectors in good order**, whether it returns or throws. -/
theorem run_tidy (hC : Framed C V) (op : Op X) (h : V.Tidy σ) :
    Ends .badAlloc (run P C op) σ (fun _ => V.Tidy) V.Tidy := by
  cases op with
  | default =>
      exact Ends.after (onFirst_returns (newObject_returns σ.1 _) σ.2) (Ends.pure h.add)
  | construct n val =>
      refine withReference_tidy hC val h fun e σ₁ h₁ => ?_
      exact (construct_tidy hC n e h₁).bind fun _ _ h' => Ends.pure h'
  | copy j =>
      refine Ends.after_object fun w _ => ?_
      exact (copyConstruct_tidy hC j h).bind fun _ _ h' => Ends.pure h'
  | assign i j => exact operatorAssign_tidy hC i j h
  | pushBack i val =>
      refine withReference_tidy hC val h fun e σ₁ h₁ => Ends.given_object fun o ho => ?_
      exact (pushBack_ends hC h₁ ho e).mono fun _ h' => h'.1
  | popBack i => exact popBack_tidy i h
  | resize i n val =>
      refine withParameter_tidy hC val h fun e σ₁ h₁ => Ends.given_object fun o ho => ?_
      exact (resize_ends hC h₁ ho n e).mono fun _ h' => h'.1
  | clear i =>
      have hclear := (modifyObject_found (by decide : Fault.badAlloc.Foreign) i
        (fun v : Fields => { v with size_ := 0 }) σ.1).ends fun _ => False
      refine hclear.onFirst.imp ?_ fun _ h' => h'.1.elim
      rintro _ ⟨s, t⟩ ⟨⟨o, ho, rfl⟩, rfl⟩
      exact h.put ho ((h.rows i o ho).resized (Nat.zero_le _))
  | write i a val =>
      refine withReference_tidy hC val h fun e σ₁ h₁ => Ends.after_element fun d => ?_
      exact (assign_ends hC e (Set.mem_univ d) h₁.sound).imp
        (fun _ _ hmoves => h₁.frame (hmoves.frame (A := ∅)))
        fun _ hmoves => h₁.frame (hmoves.frame (A := ∅))
  | reserve i n =>
      refine Ends.given_object fun o ho => ?_
      exact (reserve_tidy hC h ho n).imp (fun _ _ h' => h'.1) fun _ h' => h'
  | destroy i => exact destroy_tidy hC i h

/-! ## Runs that catch the throws -/

/-- A statement of a program: a call of a member of `vector`, or anything it does with the objects of the
    class itself. -/
inductive Stmt (τ X : Type)
  | call (op : Op X)
  | elsewhere (m : EStateM Fault τ Unit)

/-- What an exception does on its way out of a statement: a vector under construction is gone. -/
def unwind (σ : State τ) : Stmt τ X → State τ → State τ
  | .call (.construct _ _), σ' | .call (.copy _), σ' =>
      (⟨σ'.1.objects.erase σ.1.objects.next, σ'.1.heap⟩, σ'.2)
  | _, σ' => σ'

def Stmt.run (P : Platform Nat) (C : Class τ X) : Stmt τ X → Code τ Unit
  | .call op => ClassVector.run P C op
  | .elsewhere m => onSecond m

/-- `try { statement } catch (const std::bad_alloc&) { }`. -/
def tried (P : Platform Nat) (C : Class τ X) (stmt : Stmt τ X) : Code τ Unit := fun σ =>
  match stmt.run P C σ with
  | .ok () σ' => .ok () σ'
  | .error .badAlloc σ' => .ok () (unwind σ stmt σ')
  | .error e σ' => .error e σ'

/-- Outside the vectors, the program uses the objects of the class as their members allow. -/
def View.Permits (V : View τ Y) (σ : State τ) : Stmt τ X → Prop
  | .call _ => True
  | .elsewhere m =>
      Ends .badAlloc m σ.2 (fun _ => V.Touches Set.univ σ.2) (V.Touches Set.univ σ.2)

theorem tried_inv {stmt : Stmt τ X} (h : Returns (tried P C stmt) σ () σ') :
    Returns (stmt.run P C) σ () σ' ∨
      ∃ σ₁, Stops (stmt.run P C) σ .badAlloc σ₁ ∧ σ' = unwind σ stmt σ₁ := by
  have h' : tried P C stmt σ = .ok () σ' := h
  rw [tried] at h'
  split at h'
  · next σ₁ hrun =>
      cases h'
      exact Or.inl hrun
  · next σ₁ hrun =>
      cases h'
      exact Or.inr ⟨σ₁, hrun, rfl⟩
  · cases h'

theorem unwind_tidy (h : V.Tidy σ') (σ : State τ) (stmt : Stmt τ X) : V.Tidy (unwind σ stmt σ') := by
  unfold unwind
  split
  · exact h.erase _
  · exact h.erase _
  · exact h

theorem stmt_tidy (hC : Framed C V) (h : V.Tidy σ) {stmt : Stmt τ X} (hok : V.Permits σ stmt) :
    Ends .badAlloc (stmt.run P C) σ (fun _ => V.Tidy) V.Tidy := by
  cases stmt with
  | call op => exact run_tidy hC op h
  | elsewhere m =>
      refine hok.onSecond.imp (fun _ _ h' => ?_) fun _ h' => ?_
      · exact h.frame (View.Frame.of_touches h'.2 h'.1 : V.Frame ∅ _ _ _)
      · exact h.frame (View.Frame.of_touches h'.2 h'.1 : V.Frame ∅ _ _ _)

theorem View.Tidy.empty {t : τ} (ht : V.Sound t) : V.Tidy (Store.empty, t) :=
  ⟨ht, fun i o ho => by cases ho⟩

/-- **In every run, whatever throws, the vectors stay in good order.** -/
theorem reachable_tidy (hC : Framed C V) {t : τ} (ht : V.Sound t)
    (hreach : Reach (tried P C) V.Permits (Store.empty, t) σ) : V.Tidy σ := by
  refine hreach.invariant (View.Tidy.empty ht) fun σ σ' stmt h hok hret => ?_
  rcases tried_inv hret with hrun | ⟨σ₁, hstop, rfl⟩
  · exact (stmt_tidy hC h hok).ensures () σ' hrun
  · exact unwind_tidy ((stmt_tidy hC h hok).leaves σ₁ hstop) σ stmt

/-! ## Unchanged vectors -/

/-- `buffer_` is a live array of `capacity_` slots. -/
def HasBuffer (σ : State τ) (o : Fields) : Prop :=
  ∃ slots, σ.1.heap.PointsTo o.buffer_ slots ∧ slots.length = o.capacity_

/-- Vector `i` has the fields `o` it had, its buffer is an array of `capacity_` slots, and its elements
    look as they did. -/
structure View.Unchanged (V : View τ Y) (σ σ' : State τ) (i : Nat) (o : Fields) : Prop where
  fields : σ'.1.objects.entry i = some o
  buffer : HasBuffer σ' o
  elements : (Vector.elements σ'.1 o).map (V.look σ'.2) = (Vector.elements σ.1 o).map (V.look σ.2)

theorem slotsOf_congr {h h' : Heap Nat} {p : Option Nat}
    (harray : ∀ b, p = some b → h'.array b = h.array b) : Vector.slotsOf h' p = Vector.slotsOf h p := by
  cases p with
  | none => rfl
  | some b => rw [Vector.slotsOf, Vector.slotsOf, harray b rfl]

theorem View.Same.elements_eq (h : V.Same σ σ' i o) :
    Vector.elements σ'.1 o = Vector.elements σ.1 o := by
  rw [Vector.elements, Vector.elements, slotsOf_congr h.array]

theorem View.Same.unchanged_iff (h : V.Same σ σ' i o) : V.Unchanged σ σ' i o ↔ HasBuffer σ o := by
  constructor
  · rintro ⟨_, ⟨slots, hp, hlen⟩, _⟩
    exact ⟨slots, hp.congr fun b hb => (h.array b hb).symm, hlen⟩
  · rintro ⟨slots, hp, hlen⟩
    refine ⟨h.fields, ⟨slots, hp.congr fun b hb => h.array b hb, hlen⟩, ?_⟩
    rw [h.elements_eq]
    exact List.map_congr_left h.look

/-- A vector with another capacity is not unchanged. -/
theorem HasRoom.changed (h : HasRoom σ' i n) (hn : o.capacity_ < n) : ¬ V.Unchanged σ σ' i o := by
  rintro ⟨hfields, _, _⟩
  obtain ⟨v, hv, hle⟩ := h
  rw [hfields, Option.some.injEq] at hv
  rw [← hv] at hle
  exact Nat.not_lt.2 hle hn

theorem View.Thrown.unchanged_iff {early : Code τ Unit} {room : Prop}
    (h : V.Thrown early room σ i o σ') :
    V.Unchanged σ σ' i o ↔ HasBuffer σ o ∧ (room ∨ Fails early σ .badAlloc) := by
  rcases h with ⟨hsame, hwhy⟩ | ⟨⟨hroom, hearly⟩, hcapacity⟩
  · rw [hsame.unchanged_iff]
    exact (and_iff_left (hwhy.imp_right Stops.fails)).symm
  · refine iff_of_false (hcapacity.changed (Nat.lt_succ_self _)) fun hwhy => ?_
    exact hwhy.2.elim hroom hearly

/-! ## Arguments that throw -/

theorem View.Same.trans (h : V.Same σ σ₁ i o) (h' : V.Same σ₁ σ' i o) : V.Same σ σ' i o where
  fields := h'.fields
  array b hb := (h'.array b hb).trans (h.array b hb)
  look e he := (h'.look e (by rw [h.elements_eq]; exact he)).trans (h.look e he)

/-- A temporary that throws, or is destroyed after a throw, changes nothing in what the throw left. -/
theorem withTemporary_thrown (hC : Framed C V) {make : EStateM Fault τ Nat} (hmake : V.Makes make)
    (h : V.Tidy σ) (ho : σ.1.objects.entry i = some o) {m : Nat → Code τ Unit} {early : Code τ Unit}
    {room : Prop} (hm : ∀ e σ₁ σ₂, V.Frame ∅ ∅ σ σ₁ → Stops (m e) σ₁ .badAlloc σ₂ →
      V.Tidy σ₂ ∧ V.Thrown early room σ₁ i o σ₂)
    (hstop : Stops (withTemporary C make m) σ .badAlloc σ') :
    V.Thrown (withTemporary C make fun _ => early) room σ i o σ' := by
  have hrow := h.rows i o ho
  have hmade := (hmake σ.2 h.sound).onSecond
  rcases hstop.bind_inv with hstop | ⟨e, σ₁, hret, hstop⟩
  · -- the temporary could not be made
    obtain ⟨htouch, hfirst⟩ := hmade.leaves σ' hstop
    have hframe : V.Frame ∅ ∅ σ σ' := View.Frame.of_touches hfirst htouch
    exact Or.inl ⟨hframe.same hrow ho fun e he => he.elim, Or.inr hstop.bind_left⟩
  obtain ⟨⟨htouch, hnew, _⟩, hfirst⟩ := hmade.ensures e σ₁ hret
  have hframe : V.Frame ∅ ∅ σ σ₁ := View.Frame.of_touches hfirst htouch
  have hstop := hstop.bind_inv.resolve_right fun ⟨_, _, _, hdestroy⟩ =>
    destroy_never hC e _ hdestroy.fails
  obtain ⟨σ₂, hstop, hdestroy⟩ := hstop.orCleanUp_inv (destroy_never hC e)
  obtain ⟨h₂, hthrown⟩ := hm e σ₁ σ₂ hframe hstop
  obtain ⟨hdestroyed, hfirst'⟩ := onSecond_returns_inv hdestroy
  have htouch' := (hC.destroy e σ₂.2).ensures _ _ hdestroyed h₂.sound
  rcases hthrown with ⟨hsame, hwhy⟩ | ⟨⟨hroom, hearly⟩, hcapacity⟩
  · refine Or.inl ⟨?_, hwhy.imp_right fun hearly => ?_⟩
    · -- the temporary is not in a slot of the vector
      have hsame₂ := (hframe.same hrow ho fun e he => he.elim).trans hsame
      have hframe' : V.Frame ∅ {e} σ₂ σ' := View.Frame.of_touches hfirst' htouch'
      refine hsame₂.trans (hframe'.same (h₂.rows i o hsame₂.fields) hsame₂.fields ?_)
      rintro d rfl k ⟨b, ids, hb, harr, hk⟩
      rw [hsame₂.array b hb] at harr
      have hold := (hrow.slots b ids hb harr).2.2 d (List.mem_of_getElem? hk)
      exact absurd hold (Nat.not_lt.2 hnew)
    · exact (Stops.bind_iff hret).2 (hearly.orCleanUp hdestroy).bind_left
  · refine Or.inr ⟨⟨hroom, fun hfail => ?_⟩, hcapacity.congr (by rw [hfirst'])⟩
    obtain ⟨σ₃, hstop₃⟩ := (Fails.bind_iff hret).1 hfail
    have hstop₃ := (Stops.bind_inv hstop₃).resolve_right fun ⟨_, _, _, hdestroy⟩ =>
      destroy_never hC e _ hdestroy.fails
    obtain ⟨_, hstop₃, _⟩ := hstop₃.orCleanUp_inv (destroy_never hC e)
    exact hearly hstop₃.fails

theorem after_element_thrown {a : Access} {m early : Nat → Code τ Unit} {room : Prop}
    (hstop : Stops (element a j >>= m) σ .badAlloc σ')
    (hm : ∀ e, Stops (m e) σ .badAlloc σ' → V.Thrown (early e) room σ i o σ') :
    V.Thrown (element a j >>= early) room σ i o σ' := by
  rcases hstop.bind_inv with hstop | ⟨e, σ₁, hret, hrest⟩
  · exact absurd hstop.fails (element_never a j σ)
  obtain rfl := element_returns hret
  rcases hm e hrest with ⟨hsame, hwhy⟩ | ⟨⟨hroom, hearly⟩, hcapacity⟩
  · exact Or.inl ⟨hsame, hwhy.imp_right (Stops.bind_iff hret).2⟩
  · exact Or.inr ⟨⟨hroom, fun hfail => hearly ((Fails.bind_iff hret).1 hfail)⟩, hcapacity⟩

theorem withReference_thrown (hC : Framed C V) (val : Arg X) (h : V.Tidy σ)
    (ho : σ.1.objects.entry i = some o) {m : Nat → Code τ Unit} {early : Code τ Unit} {room : Prop}
    (hm : ∀ e σ₁ σ₂, V.Frame ∅ ∅ σ σ₁ → Stops (m e) σ₁ .badAlloc σ₂ →
      V.Tidy σ₂ ∧ V.Thrown early room σ₁ i o σ₂)
    (hstop : Stops (withReference C val m) σ .badAlloc σ') :
    V.Thrown (withReference C val fun _ => early) room σ i o σ' := by
  cases val with
  | value x => exact withTemporary_thrown hC (hC.make x) h ho hm hstop
  | element j a =>
      exact after_element_thrown hstop fun e hstop =>
        (hm e σ σ' (View.Frame.refl h.sound) hstop).2

theorem withParameter_thrown (hC : Framed C V) (val : Arg X) (h : V.Tidy σ)
    (ho : σ.1.objects.entry i = some o) {m : Nat → Code τ Unit} {early : Code τ Unit} {room : Prop}
    (hm : ∀ e σ₁ σ₂, V.Frame ∅ ∅ σ σ₁ → Stops (m e) σ₁ .badAlloc σ₂ →
      V.Tidy σ₂ ∧ V.Thrown early room σ₁ i o σ₂)
    (hstop : Stops (withParameter C val m) σ .badAlloc σ') :
    V.Thrown (withParameter C val fun _ => early) room σ i o σ' := by
  cases val with
  | value x => exact withTemporary_thrown hC (hC.make x) h ho hm hstop
  | element j a =>
      exact after_element_thrown hstop fun e hstop =>
        withTemporary_thrown hC (hC.copyConstruct e) h ho hm hstop

/-! ## Assignments that throw -/

/-- The assignments `*d = *e` of a list of pairs. -/
def assignAll (C : Class τ X) : List (Nat × Nat) → EStateM Fault τ Unit
  | [] => pure ()
  | (d, e) :: rest => do
      C.assign d e
      assignAll C rest

/-- Every assignment of the list, up to the one that throws, leaves its target looking as it did. -/
def View.Spares (V : View τ Y) (C : Class τ X) : List (Nat × Nat) → τ → Prop
  | [], _ => True
  | (d, e) :: rest, t =>
      match C.assign d e t with
      | .ok _ t' => V.look t' d = V.look t d ∧ V.Spares C rest t'
      | .error _ t' => V.look t' d = V.look t d

theorem assignAll_ends (hC : Framed C V) (pairs : List (Nat × Nat)) {t : τ} (ht : V.Sound t) :
    Ends .badAlloc (assignAll C pairs) t (fun _ => V.Touches {d | d ∈ pairs.map Prod.fst} t)
      (V.Touches {d | d ∈ pairs.map Prod.fst} t) := by
  induction pairs generalizing t with
  | nil => exact Ends.pure (View.Touches.refl ht)
  | cons pair rest ih =>
      obtain ⟨d, e⟩ := pair
      have hhead : ∀ c ∈ ({d} : Set Nat), c ∈ {c | c ∈ ((d, e) :: rest).map Prod.fst} := by
        rintro c rfl
        exact List.mem_cons_self ..
      refine ((hC.assign d e t ht).mono fun _ h => h.mono hhead).bind fun _ t₁ h₁ => ?_
      exact (ih h₁.sound).imp
        (fun _ _ h => (h₁.mono hhead).trans h fun c hc _ => List.mem_cons_of_mem _ hc)
        fun _ h => (h₁.mono hhead).trans h fun c hc _ => List.mem_cons_of_mem _ hc

/-- A list of assignments that threw has left all targets as they were exactly if each did. -/
theorem spares_iff (hC : Framed C V) {pairs : List (Nat × Nat)} {t t' : τ} (ht : V.Sound t)
    (hnodup : (pairs.map Prod.fst).Nodup) (hlt : ∀ d ∈ pairs.map Prod.fst, d < V.next t)
    (hstop : Stops (assignAll C pairs) t .badAlloc t') :
    (∀ d ∈ pairs.map Prod.fst, V.look t' d = V.look t d) ↔ V.Spares C pairs t := by
  induction pairs generalizing t with
  | nil => cases hstop
  | cons pair rest ih =>
      obtain ⟨d, e⟩ := pair
      rw [List.map_cons, List.nodup_cons] at hnodup
      rw [List.map_cons, List.forall_mem_cons] at hlt
      rw [List.map_cons, List.forall_mem_cons]
      have hne : ∀ c ∈ rest.map Prod.fst, c ∉ ({d} : Set Nat) := by
        rintro c hc rfl
        exact hnodup.1 hc
      rcases hstop.bind_inv with hstop | ⟨_, t₁, hret, hrest⟩
      · have htouch := (hC.assign d e t ht).leaves t' hstop
        have hspares : V.Spares C ((d, e) :: rest) t ↔ V.look t' d = V.look t d := by
          have hstop' : C.assign d e t = .error .badAlloc t' := hstop
          rw [View.Spares, hstop']
        rw [hspares]
        exact and_iff_left fun c hc => htouch.look c (hlt.2 c hc) (hne c hc)
      · have htouch := (hC.assign d e t ht).ensures () t₁ hret
        have hspares : V.Spares C ((d, e) :: rest) t ↔
            V.look t₁ d = V.look t d ∧ V.Spares C rest t₁ := by
          have hret' : C.assign d e t = .ok () t₁ := hret
          rw [View.Spares, hret']
        have hlt₁ : ∀ c ∈ rest.map Prod.fst, c < V.next t₁ := fun c hc =>
          (hlt.2 c hc).trans_le htouch.next
        -- the other assignments do not touch the first target, nor the first one theirs
        have hafter := (assignAll_ends hC rest htouch.sound).leaves t' hrest
        have hlook := hafter.look d (hlt.1.trans_le htouch.next) hnodup.1
        rw [hspares, ← ih htouch.sound hnodup.2 hlt₁ hrest, hlook]
        refine and_congr_right fun _ => forall₂_congr fun c hc => ?_
        rw [htouch.look c (hlt.2 c hc) (hne c hc)]

/-- A loop that makes the assignments of a list. -/
theorem loop_stops {body : Nat → Code τ Unit} {pairs : List (Nat × Nat)} {count : Nat}
    (hbody : ∀ k σ₁, k < n → σ₁.1 = σ.1 → Ends .badAlloc (body k) σ₁
      (fun _ σ' => ∃ d e, pairs[k]? = some (d, e) ∧ σ'.1 = σ₁.1 ∧
        Returns (C.assign d e) σ₁.2 () σ'.2)
      (fun σ' => ∃ d e, pairs[k]? = some (d, e) ∧ σ'.1 = σ₁.1 ∧
        Stops (C.assign d e) σ₁.2 .badAlloc σ'.2))
    {k : Nat} (hk : k + count = n) (hfirst : σ₁.1 = σ.1)
    (hstop : Stops (forUp body k count) σ₁ .badAlloc σ') :
    σ'.1 = σ.1 ∧ Stops (assignAll C (pairs.drop k)) σ₁.2 .badAlloc σ'.2 := by
  induction count generalizing k σ₁ with
  | zero => cases hstop
  | succ count ih =>
      have hdrop : ∀ {d e}, pairs[k]? = some (d, e) → pairs.drop k = (d, e) :: pairs.drop (k + 1) := by
        intro d e hde
        obtain ⟨hlt, hget⟩ := List.getElem?_eq_some_iff.1 hde
        rw [List.drop_eq_getElem_cons hlt, hget]
      have hends := hbody k σ₁ (by omega) hfirst
      rcases Stops.bind_inv hstop with hstop | ⟨_, σ₂, hret, hrest⟩
      · obtain ⟨d, e, hde, hsame, hassign⟩ := hends.leaves σ' hstop
        rw [hdrop hde]
        exact ⟨hsame.trans hfirst, hassign.bind_left⟩
      · obtain ⟨d, e, hde, hsame, hassign⟩ := hends.ensures () σ₂ hret
        obtain ⟨hσ', hafter⟩ := ih (show k + 1 + count = n by omega) (hsame.trans hfirst) hrest
        rw [hdrop hde]
        exact ⟨hσ', (Stops.bind_iff hassign).2 hafter⟩

/-- The pairs of elements that `operator=` goes through. -/
def pairs (σ : State τ) (o w : Fields) : List (Nat × Nat) :=
  (Vector.elements σ.1 o).zip (Vector.elements σ.1 w)

theorem copyFrom_stops {w : Fields} (ho : σ.1.objects.entry i = some o)
    (hw : σ.1.objects.entry j = some w) (hsize : w.size_ = o.size_)
    (hstop : Stops (copyFrom C i j w.size_) σ .badAlloc σ') :
    σ'.1 = σ.1 ∧ Stops (assignAll C (pairs σ o w)) σ.2 .badAlloc σ'.2 := by
  refine loop_stops (fun k σ₁ hk hfirst => ?_) (Nat.zero_add _) rfl hstop
  rw [← hfirst] at ho hw
  refine Ends.after (onFirst_returns (object_returns ho) σ₁.2) (Ends.after_load fun d hd => ?_)
  refine Ends.after (onFirst_returns (object_returns hw) σ₁.2) (Ends.after_load fun e he => ?_)
  rw [hfirst] at hd he
  have hpair : (pairs σ o w)[k]? = some (d, e) := by
    rw [pairs, List.getElem?_zip_eq_some]
    exact ⟨elements_getElem?.2 ⟨hsize ▸ hk, hd⟩, elements_getElem?.2 ⟨hk, he⟩⟩
  refine ⟨fun _ σ₂ hret => ?_, fun σ₂ hstop => ?_⟩
  · obtain ⟨hassign, hsame⟩ := onSecond_returns_inv hret
    exact ⟨d, e, hpair, hsame, hassign⟩
  · obtain ⟨hassign, hsame⟩ := onSecond_stops_inv hstop
    exact ⟨d, e, hpair, hsame, hassign⟩

/-- The elements are different objects, each of which there is; a vector without its buffer has none. -/
theorem View.Row.elements (hrow : V.Row σ o) : (Vector.elements σ.1 o).Nodup ∧
    (∀ e ∈ Vector.elements σ.1 o, e < V.next σ.2) ∧
    (Vector.elements σ.1 o ≠ [] → (Vector.elements σ.1 o).length = o.size_) := by
  rcases Vector.slotsOf_cases σ.1.heap o.buffer_ with hnil | ⟨b, hb, harr⟩
  · rw [Vector.elements, hnil, List.take_nil]
    exact ⟨List.nodup_nil, fun _ he => (by cases he), fun hne => absurd rfl hne⟩
  · obtain ⟨hlen, hnodup, hlt⟩ := hrow.slots b _ hb harr
    have hsize := hrow.size
    refine ⟨hnodup.sublist (List.take_sublist _ _),
      fun e he => hlt e (List.mem_of_mem_take he), fun _ => ?_⟩
    rw [Vector.elements, List.length_take]
    omega

/-- Where an assignment throws, every element of a vector of the same size has its pair. -/
theorem pairs_fst {w : Fields} (hrow : V.Row σ o) (hrow' : V.Row σ w) (hsize : w.size_ = o.size_)
    {t t' : τ} (hstop : Stops (assignAll C (pairs σ o w)) t .badAlloc t') :
    (pairs σ o w).map Prod.fst = Vector.elements σ.1 o := by
  have hne : pairs σ o w ≠ [] := by
    intro hnil
    rw [hnil] at hstop
    cases hstop
  refine List.map_fst_zip ?_
  rw [hrow.elements.2.2 fun hnil => hne (by rw [pairs, hnil, List.zip_nil_left]),
    hrow'.elements.2.2 fun hnil => hne (by rw [pairs, hnil, List.zip_nil_right]), hsize]

/-- The assignments of `operator=` alone: the size was the same before. -/
theorem assigned_unchanged_iff (hC : Framed C V) (h : V.Tidy σ) (ho : σ.1.objects.entry i = some o)
    {w : Fields} (hw : σ.1.objects.entry j = some w) (hsize : w.size_ = o.size_)
    (hstop : Stops (copyFrom C i j w.size_) σ .badAlloc σ') :
    V.Unchanged σ σ' i o ↔ HasBuffer σ o ∧ V.Spares C (pairs σ o w) σ.2 := by
  have hrow := h.rows i o ho
  obtain ⟨hfirst, hassign⟩ := copyFrom_stops ho hw hsize hstop
  have hfst := pairs_fst hrow (h.rows j w hw) hsize hassign
  have hspares := spares_iff hC h.sound (hfst ▸ hrow.elements.1) (hfst ▸ hrow.elements.2.1) hassign
  rw [hfst] at hspares
  rw [← hspares]
  constructor
  · rintro ⟨_, hbuffer, helements⟩
    rw [HasBuffer, hfirst] at hbuffer
    rw [hfirst] at helements
    exact ⟨hbuffer, List.map_inj_left.1 helements⟩
  · rintro ⟨hbuffer, hlook⟩
    have hsame : V.Same σ σ' i o := ⟨by rw [hfirst]; exact ho, fun b _ => by rw [hfirst], hlook⟩
    exact hsame.unchanged_iff.2 hbuffer

/-- Where `operator=` throws, the vector is unchanged exactly if it had the size it was given and the
    elements were spared. -/
theorem operatorAssign_unchanged_iff (hC : Framed C V) (h : V.Tidy σ)
    (ho : σ.1.objects.entry i = some o)
    (hstop : Stops (operatorAssign P C i j) σ .badAlloc σ') :
    V.Unchanged σ σ' i o ↔ HasBuffer σ o ∧ ∃ w, σ.1.objects.entry j = some w ∧
      w.size_ = o.size_ ∧ V.Spares C (pairs σ o w) σ.2 := by
  have hrow := h.rows i o ho
  obtain ⟨w, hw, hcase⟩ := (operatorAssign_ends hC h ho j).leaves σ' hstop
  have hunique : (∃ w', σ.1.objects.entry j = some w' ∧ w'.size_ = o.size_ ∧
      V.Spares C (pairs σ o w') σ.2) ↔ w.size_ = o.size_ ∧ V.Spares C (pairs σ o w) σ.2 := by
    rw [hw]
    simp only [Option.some.injEq, exists_eq_left']
  rw [hunique]
  rcases hcase with ⟨hgrow, hroom⟩ | ⟨hroom, hstop⟩
  · -- another capacity, and another size
    refine iff_of_false (hroom.changed hgrow) fun hwhy => ?_
    have hsize := hrow.size
    omega
  by_cases hsize : w.size_ = o.size_
  · rw [hsize, Store.put, Table.set_self ho, ← hsize] at hstop
    rw [and_iff_right hsize]
    exact assigned_unchanged_iff hC h ho hw hsize hstop
  · refine iff_of_false (fun hsame => ?_) fun hwhy => hsize hwhy.2.1
    have hput := h.put ho (hrow.resized hroom)
    have hfirst := ((copyFrom_ends hC i j w.size_ hput.sound).leaves σ' hstop).1
    have hfields := hsame.fields
    rw [hfirst, Store.put_entry ho, Option.some.injEq] at hfields
    rw [← hfields] at hsize
    exact hsize rfl

/-! ## Runs that are carried out -/

/-- A run in which nothing throws. -/
theorem reach_of_runAll {ops : List (Op X)} (hrun : Returns (runAll (run P C) ops) σ () σ') :
    Reach (tried P C) V.Permits σ σ' := by
  refine Reach.of_runAll Stmt.call (fun σ op σ' hop => ⟨trivial, ?_⟩) hrun
  have hop' : run P C op σ = .ok () σ' := hop
  simp [Returns, EStateM.run, tried, Stmt.run, hop']

open LinuxSamples.FbcString (lacking)
open LinuxSamples.StringClass (Strings stringClass stringView stringClass_framed)

theorem sound_empty : stringView.Sound Store.empty :=
  ⟨fun e b ⟨o, ho, _⟩ => (by cases ho), fun d e b ⟨o, ho, _⟩ => (by cases ho)⟩

/-- Vector 0 has the fields `o` and one element, string `e`, of which `seen` is seen. -/
def ShowsOne (σ : State Strings) (o : Fields) (e : Nat)
    (seen : Option (Nat × Option (List (Option UInt8)))) : Prop :=
  σ.1.objects.entry 0 = some o ∧ Vector.elements σ.1 o = [e] ∧ stringView.look σ.2 e = seen

instance (σ : State Strings) (o : Fields) (e : Nat)
    (seen : Option (Nat × Option (List (Option UInt8)))) : Decidable (ShowsOne σ o e seen) :=
  inferInstanceAs (Decidable (_ ∧ _ ∧ _))

theorem ShowsOne.elements {σ : State Strings} {e : Nat}
    {seen : Option (Nat × Option (List (Option UInt8)))} (h : ShowsOne σ o e seen) :
    (Vector.elements σ.1 o).map (stringView.look σ.2) = [seen] := by
  rw [h.2.1, List.map_cons, h.2.2, List.map_nil]

/-! ## Failed allocations -/

/-- The vector that `reserve`, `push_back`, `resize` or `operator=` is called on. -/
def target : Op X → Option Nat
  | .reserve i _ | .pushBack i _ | .resize i _ _ | .assign i _ => some i
  | _ => none

/-- What makes a throw harmless to a vector with the fields `o`. In `push_back` and `resize` there is room,
    or the throw comes before `reserve`: from the temporary for `val` or while the elements are saved. In
    `operator=` the size stays and the assignments spare the elements. -/
def View.Harmless (V : View τ Y) (P : Platform Nat) (C : Class τ X) (σ : State τ) (o : Fields) :
    Op X → Prop
  | .pushBack i val => o.size_ < o.capacity_ ∨
      Fails (withReference C val fun _ => saving P C i) σ .badAlloc
  | .resize i n val => n ≤ o.capacity_ ∨
      Fails (withParameter C val fun _ => saving P C i) σ .badAlloc
  | .assign _ j => ∃ w, σ.1.objects.entry j = some w ∧ w.size_ = o.size_ ∧
      V.Spares C (pairs σ o w) σ.2
  | _ => False

/-- **When a throw leaves the vector unchanged**: in every state of every run, whichever allocation of the
    call throws, exactly if no earlier throw has taken the buffer and this one is harmless. -/
theorem failed_allocation (hC : Framed C V) {t : τ} (ht : V.Sound t)
    (hreach : Reach (tried P C) V.Permits (Store.empty, t) σ)
    (ho : σ.1.objects.entry i = some o) {op : Op X} (hop : target op = some i)
    (hstop : Stops (run P C op) σ .badAlloc σ') :
    V.Unchanged σ σ' i o ↔ HasBuffer σ o ∧ V.Harmless P C σ o op := by
  have h := reachable_tidy hC ht hreach
  cases op with
  | reserve k n =>
      cases hop
      refine iff_of_false (fun hsame => ?_) fun hwhy => hwhy.2
      by_cases hn : o.capacity_ < n
      · exact ((reserve_ends hC h ho hn).leaves σ' hstop).2.changed hn hsame
      · exact (reserve_room ho (Nat.not_lt.1 hn)).not_fails hstop.fails
  | assign k j =>
      cases hop
      exact operatorAssign_unchanged_iff hC h ho hstop
  | pushBack k val =>
      cases hop
      refine (withReference_thrown hC val h ho (fun e σ₁ σ₂ hframe hstop => ?_) hstop).unchanged_iff
      have ho₁ : σ₁.1.objects.entry i = some o := by rw [hframe.objects]; exact ho
      exact (pushBack_ends hC (h.frame hframe) ho₁ e).leaves σ₂ hstop
  | resize k n val =>
      cases hop
      refine (withParameter_thrown hC val h ho (fun e σ₁ σ₂ hframe hstop => ?_) hstop).unchanged_iff
      have ho₁ : σ₁.1.objects.entry i = some o := by rw [hframe.objects]; exact ho
      exact (resize_ends hC (h.frame hframe) ho₁ n e).leaves σ₂ hstop
  | default | construct | copy | popBack | clear | write | destroy => cases hop

/-- `vector<string> v; v.reserve(2); v.push_back("a"); v.push_back("b");`, where the buffer that
    `string::operator=` asks for in the last statement is refused. -/
theorem failed_allocation_room : ∃ σ σ' o,
    Returns (runAll (run (Platform.zeroed 0) (stringClass (lacking 5)))
      [.default, .reserve 0 2, .pushBack 0 (.value ⟨[97], by decide, by decide⟩)])
      (Store.empty, Store.empty) () σ ∧
    σ.1.objects.entry 0 = some o ∧
    (Vector.elements σ.1 o).map (stringView.look σ.2) = [some (1, some [some 97, some 0])] ∧
    Stops (run (Platform.zeroed 0) (stringClass (lacking 5))
      (.pushBack 0 (.value ⟨[98], by decide, by decide⟩))) σ .badAlloc σ' ∧
    stringView.Unchanged σ σ' 0 o := by
  obtain ⟨σ, hrun, hshown, harray, σ', hstop, _⟩ : ∃ σ,
      Returns (runAll (run (Platform.zeroed 0) (stringClass (lacking 5)))
        [.default, .reserve 0 2, .pushBack 0 (.value ⟨[97], by decide, by decide⟩)])
        (Store.empty, Store.empty) () σ ∧
      ShowsOne σ ⟨1, 2, some 0⟩ 0 (some (1, some [some 97, some 0])) ∧
      σ.1.heap.array 0 = some [0, 1] ∧
      ∃ σ', Stops (run (Platform.zeroed 0) (stringClass (lacking 5))
        (.pushBack 0 (.value ⟨[98], by decide, by decide⟩))) σ .badAlloc σ' ∧ True := by
    decide +kernel
  have hharmless := failed_allocation (stringClass_framed _) sound_empty (reach_of_runAll hrun)
    hshown.1 rfl hstop
  exact ⟨σ, σ', _, hrun, hshown.1, hshown.elements, hstop,
    hharmless.2 ⟨⟨[0, 1], harray, rfl⟩, Or.inl (by decide)⟩⟩

/-- `vector<int> v; v.push_back(7); v.push_back(8);` with the fourth request for an array refused: `v` is
    left with `capacity_` 2 and a pointer to its old buffer, which was released.
    `vector<string> v(1, "a"), w(1, "b"); v = w;` with the last request of `string::operator=` refused: the
    buffer of the string in `v` was released. -/
theorem failed_allocation_changes :
    (∃ σ σ' o, Returns (runAll (run ⟨lacking 3, fun _ _ => 0⟩ (builtin fun _ => 0))
        [.default, .pushBack 0 (.value 7)]) (Store.empty, Table.empty) () σ ∧
      σ.1.objects.entry 0 = some o ∧
      Stops (run ⟨lacking 3, fun _ _ => 0⟩ (builtin fun _ => 0) (.pushBack 0 (.value 8))) σ
        .badAlloc σ' ∧
      σ'.1.objects.entry 0 = some ⟨1, 2, some 1⟩ ∧ σ'.1.heap.array 1 = none ∧
      ¬ (builtinView Nat).Unchanged σ σ' 0 o) ∧
    ∃ σ σ' o, Returns (runAll (run (Platform.zeroed 0) (stringClass (lacking 6)))
        [.construct 1 (.value ⟨[97], by decide, by decide⟩),
          .construct 1 (.value ⟨[98], by decide, by decide⟩)]) (Store.empty, Store.empty) () σ ∧
      σ.1.objects.entry 0 = some o ∧
      Stops (run (Platform.zeroed 0) (stringClass (lacking 6)) (.assign 0 1)) σ .badAlloc σ' ∧
      (Vector.elements σ'.1 o).map (stringView.look σ'.2) = [some (1, none)] ∧
      ¬ stringView.Unchanged σ σ' 0 o := by
  constructor
  · obtain ⟨σ, hrun, ho, σ', hstop, ho', harray⟩ : ∃ σ,
        Returns (runAll (run ⟨lacking 3, fun _ _ => 0⟩ (builtin fun _ => 0))
          [.default, .pushBack 0 (.value 7)]) (Store.empty, Table.empty) () σ ∧
        σ.1.objects.entry 0 = some ⟨1, 1, some 1⟩ ∧
        ∃ σ', Stops (run ⟨lacking 3, fun _ _ => 0⟩ (builtin fun _ => 0) (.pushBack 0 (.value 8))) σ
            .badAlloc σ' ∧
          σ'.1.objects.entry 0 = some ⟨1, 2, some 1⟩ ∧ σ'.1.heap.array 1 = none := by
      decide +kernel
    refine ⟨σ, σ', _, hrun, ho, hstop, ho', harray, fun hsame => ?_⟩
    have hfields := hsame.fields
    rw [ho'] at hfields
    cases hfields
  · obtain ⟨σ, hrun, hshown, σ', hstop, hshown'⟩ : ∃ σ,
        Returns (runAll (run (Platform.zeroed 0) (stringClass (lacking 6)))
          [.construct 1 (.value ⟨[97], by decide, by decide⟩),
            .construct 1 (.value ⟨[98], by decide, by decide⟩)]) (Store.empty, Store.empty) () σ ∧
        ShowsOne σ ⟨1, 1, some 0⟩ 1 (some (1, some [some 97, some 0])) ∧
        ∃ σ', Stops (run (Platform.zeroed 0) (stringClass (lacking 6)) (.assign 0 1)) σ .badAlloc σ' ∧
          ShowsOne σ' ⟨1, 1, some 0⟩ 1 (some (1, none)) := by
      decide +kernel
    refine ⟨σ, σ', _, hrun, hshown.1, hstop, hshown'.elements, fun hsame => ?_⟩
    have hsame := hsame.elements
    rw [hshown.elements, hshown'.elements] at hsame
    exact absurd hsame (by decide)

end LinuxSamples.ClassVector
