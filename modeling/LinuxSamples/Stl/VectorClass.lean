import LinuxSamples.Stl.ClassVectorRuns
import LinuxSamples.Stl.VectorElements

set_option autoImplicit false

/-! # Vectors of vectors

`vector<T>` is a class itself: if `T` is lawful, so is `vector<T>`, its values being lists of values of
`T`. What is proved about vectors of a lawful class therefore holds of vectors of vectors, to any depth. -/

namespace LinuxSamples.ClassVector

open LinuxSamples.Program LinuxSamples.Memory
open LinuxSamples.Vector (Cells Element Fields Op maxRequest)

variable {τ X : Type}

/-! ## Families that agree -/

section Agree

variable {α β γ : Type} {f : α → γ} {g : β → γ} {H : Table α} {F : Table β} {i : Nat} {a : α} {b : β}

/-- Two families with the same numbers, whose entries look the same. -/
structure Agree (f : α → γ) (g : β → γ) (H : Table α) (F : Table β) : Prop where
  next : H.next = F.next
  entry : ∀ i, (H.entry i).map f = (F.entry i).map g

theorem Agree.empty : Agree f g Table.empty Table.empty := ⟨rfl, fun _ => rfl⟩

theorem Agree.lookup (h : Agree f g H F) (hi : H.entry i = some a) :
    ∃ b, F.entry i = some b ∧ g b = f a := by
  have hentry := h.entry i
  rw [hi, Option.map_some] at hentry
  exact Option.map_eq_some_iff.1 hentry.symm

theorem Agree.lookup_none (h : Agree f g H F) (hi : H.entry i = none) : F.entry i = none := by
  have hentry := h.entry i
  rw [hi, Option.map_none] at hentry
  exact Option.map_eq_none_iff.1 hentry.symm

theorem Agree.add (h : Agree f g H F) (hab : f a = g b) : Agree f g (H.add a) (F.add b) := by
  refine ⟨by rw [Table.add_next, Table.add_next, h.next], fun i => ?_⟩
  rw [Table.add_entry, Table.add_entry, h.next]
  by_cases hi : i = F.next
  · rw [hi, Function.update_self, Function.update_self, Option.map_some, Option.map_some, hab]
  · rw [Function.update_of_ne hi, Function.update_of_ne hi, h.entry]

theorem Agree.set (h : Agree f g H F) (hi : H.entry i = some a) {a' : α} {b' : β} (hab : f a' = g b') :
    Agree f g (H.set i a') (F.set i b') := by
  obtain ⟨b, hb, _⟩ := h.lookup hi
  refine ⟨h.next, fun j => ?_⟩
  rw [Table.set_entry hi, Table.set_entry hb]
  by_cases hj : j = i
  · rw [hj, Function.update_self, Function.update_self, Option.map_some, Option.map_some, hab]
  · rw [Function.update_of_ne hj, Function.update_of_ne hj, h.entry]

theorem Agree.erase (h : Agree f g H F) (i : Nat) : Agree f g (H.erase i) (F.erase i) := by
  refine ⟨h.next, fun j => ?_⟩
  rw [Table.erase_entry, Table.erase_entry]
  by_cases hj : j = i
  · rw [hj, Function.update_self, Function.update_self]
    rfl
  · rw [Function.update_of_ne hj, Function.update_of_ne hj, h.entry]

end Agree

/-! ## The class `vector<T>` -/

/-- The lists a vector can hold. -/
def Elems (X : Type) : Type := { xs : List X // xs.length ≤ maxRequest }

def Elems.empty : Elems X := ⟨[], Nat.zero_le _⟩

variable (P : Platform Nat) (C : Class τ X)

/-- `push_back`, element by element. -/
def pushAll (this : Nat) : List X → Code τ Unit
  | [] => pure ()
  | x :: rest => do
      withTemporary C (C.make x) (pushBack P C this)
      pushAll this rest

def vectorClass : Class (State τ) (Elems X) where
  construct := onFirst Vector.default
  make xs := do
    let this ← onFirst Vector.default
    pushAll P C this xs.1
    return this
  copyConstruct := copyConstruct P C
  assign := operatorAssign P C
  destroy := destroy C

/-- The vectors hold these lists. -/
def ShowsLists (Shows : τ → Table X → Prop) (σ : State τ) (H : Table (Elems X)) : Prop :=
  ∃ F G, Nests Shows σ F G ∧ Agree Subtype.val Cells.elems H F

variable {P C} {initial : X} {selfAssigns : Prop} {Shows : τ → Table X → Prop} {σ : State τ}
  {F : Table (Cells X)} {G : Table X} {H : Table (Elems X)} {i : Nat} {c : Cells X} {xs : List X}

theorem ShowsLists.empty {t : τ} (ht : Shows t Table.empty) :
    ShowsLists Shows (Store.empty, t) Table.empty :=
  ⟨Table.empty, Table.empty, Nests.empty ht, Agree.empty⟩

theorem pushAll_returns (hC : Lawful C initial selfAssigns Shows) (hP : P.Generous)
    (h : Nests Shows σ F G) (hi : F.entry i = some c) (hlen : c.elems.length + xs.length ≤ maxRequest) :
    ∃ σ' c' G', Returns (pushAll P C i xs) σ () σ' ∧ c'.elems = c.elems ++ xs ∧
      Nests Shows σ' (F.set i c') G' := by
  induction xs generalizing σ F G c with
  | nil =>
      refine ⟨σ, c, G, Returns.pure () σ, (List.append_nil _).symm, ?_⟩
      rwa [Table.set_self hi]
  | cons x rest ih =>
      obtain ⟨s, t⟩ := σ
      rw [List.length_cons] at hlen
      have hn : c.elems.length + 1 ≤ maxRequest := by omega
      obtain ⟨o, ids, hrow⟩ := h.holding i c hi
      obtain ⟨t₁, hmake, hG₁⟩ := hC.make x h.objects
      obtain ⟨hbeside, hne⟩ := hrow.beside x
      obtain ⟨σ₁, hpush, G₁, h₁⟩ := h.made hi hrow.toRow hn rfl (u := c.pushBack x)
        (withTemporary_makes hC hrow.alive hmake (pushBack_makes hC hP hbeside hG₁ hn
          (G.add_entry_self x) (fun _ => hne) fun l hl => absurd (List.mem_of_getElem? hl) hne))
      obtain ⟨σ', c', G', hrest, helems, h'⟩ := ih h₁ (Table.set_entry_self hi _)
        (by rw [Cells.pushBack_length]; omega)
      rw [Table.set_set] at h'
      refine ⟨σ', c', G', Returns.bind hpush hrest, ?_, h'⟩
      rw [helems]
      exact List.append_assoc ..

/-- **`vector<T>` is a lawful class if `T` is.** -/
theorem vectorClass_lawful (hC : Lawful C initial selfAssigns Shows) (hP : P.Generous) :
    Lawful (vectorClass P C) Elems.empty selfAssigns (ShowsLists Shows) where
  construct := by
    rintro ⟨s, t⟩ H ⟨F, G, h, hagree⟩
    have hnext : H.next = s.objects.next := hagree.next.trans h.vectors.next
    refine ⟨(started s, t), ?_, _, G, h.started, hagree.add rfl⟩
    rw [hnext]
    exact started_returns s t
  make := by
    rintro ⟨s, t⟩ H xs ⟨F, G, h, hagree⟩
    have hnext : H.next = s.objects.next := hagree.next.trans h.vectors.next
    have hlen : (Cells.empty : Cells X).elems.length + xs.1.length ≤ maxRequest := by
      have hle := xs.2
      show 0 + xs.1.length ≤ maxRequest
      omega
    obtain ⟨σ', c', G', hpush, helems, h'⟩ :=
      pushAll_returns hC hP h.started (F.add_entry_self _) hlen
    rw [Table.add_set] at h'
    rw [← hagree.next, hnext] at hpush
    refine ⟨σ', ?_, _, G', h', hagree.add helems.symm⟩
    rw [hnext]
    exact Returns.bind (started_returns s t) (Returns.bind hpush (Returns.pure _ _))
  copyConstruct := by
    rintro ⟨s, t⟩ H i xs ⟨F, G, h, hagree⟩ hi
    have hnext : H.next = s.objects.next := hagree.next.trans h.vectors.next
    obtain ⟨u, hu, helems⟩ := hagree.lookup hi
    obtain ⟨w, src, hj⟩ := h.holding i u hu
    obtain ⟨s', t', G', hret, hG', hcalled⟩ := copyConstruct_builds hC hP h.objects hj (h.length_le hu)
    refine ⟨(s', t'), ?_, _, G', h.built (u := Cells.empty.assign u) (h.length_le hu) (Nat.zero_max _)
      hcalled hG', hagree.add helems.symm⟩
    rw [hnext]
    exact hret
  assign := by
    rintro ⟨s, t⟩ H i j xs ys ⟨F, G, h, hagree⟩ hi hj hself
    obtain ⟨c, hc, _⟩ := hagree.lookup hi
    obtain ⟨u, hu, helems⟩ := hagree.lookup hj
    obtain ⟨o, ids, hrow⟩ := h.holding i c hc
    obtain ⟨w, src, hrow'⟩ := h.holding j u hu
    obtain ⟨σ', hret, G', h'⟩ := h.made hc hrow.toRow (h.length_le hu) rfl (u := c.assign u)
      (operatorAssign_makes hC hP hrow.toRow h.objects hrow' (h.length_le hu) hself
        (fun hij => h.owner_ne hij hrow.entry hrow'.entry)
        fun hij => h.row_apart hij hrow.toRow hrow'.toRow)
    exact ⟨σ', hret, _, G', h', hagree.set hi helems.symm⟩
  destroy := by
    rintro ⟨s, t⟩ H i xs ⟨F, G, h, hagree⟩ hi
    obtain ⟨c, hc, _⟩ := hagree.lookup hi
    obtain ⟨o, ids, hrow⟩ := h.holding i c hc
    obtain ⟨t', hret, hG'⟩ := destroy_returns hC hrow.toRow h.objects
    exact ⟨_, hret, _, _, h.destroyed hrow.toRow hG', hagree.erase i⟩

/-! ## Vectors of a built-in type -/

section Builtin

variable {T : Type} {P : Platform T} {E : Element T}

def pushValues (P : Platform T) (E : Element T) (this : Nat) : List T → Vector.VecProg T Unit
  | [] => pure ()
  | x :: rest => do
      Vector.pushBack P E this (.value x)
      pushValues P E this rest

/-- `vector<T>` where the elements are plain values. -/
def builtinClass (P : Platform T) (E : Element T) : Class (Store Fields T) (Elems T) where
  construct := Vector.default
  make xs := do
    let this ← Vector.default
    pushValues P E this xs.1
    return this
  copyConstruct := Vector.copyConstruct P E
  assign := Vector.operatorAssign P E
  destroy := Vector.destroy

def ShowsValues (s : Store Fields T) (H : Table (Elems T)) : Prop :=
  ∃ F, Represents (Vector.model T True) s F ∧ Agree Subtype.val Cells.elems H F

theorem pushValues_returns (hP : P.Generous) (hE : E.Copies) {s : Store Fields T} {F : Table (Cells T)}
    {i : Nat} {c : Cells T} {xs : List T} (h : Represents (Vector.model T True) s F)
    (hi : F.entry i = some c) (hlen : c.elems.length + xs.length ≤ maxRequest) :
    ∃ s' c', Returns (pushValues P E i xs) s () s' ∧ c'.elems = c.elems ++ xs ∧
      Represents (Vector.model T True) s' (F.set i c') := by
  induction xs generalizing s F c with
  | nil =>
      refine ⟨s, c, Returns.pure () s, (List.append_nil _).symm, ?_⟩
      rwa [Table.set_self hi]
  | cons x rest ih =>
      rw [List.length_cons] at hlen
      have hone : ∃ s₁, Returns (Vector.pushBack P E i (.value x)) s () s₁ ∧
          Represents (Vector.model T True) s₁ (F.set i (c.pushBack x)) :=
        Vector.pushBack_spec hP (fun _ => hE) h hi (by omega) (Returns.pure x s) (fun _ => rfl)
          (fun _ _ _ p hp => by cases hp) fun _ _ => rfl
      obtain ⟨s₁, hpush, h₁⟩ := hone
      obtain ⟨s', c', hrest, helems, h'⟩ := ih h₁ (Table.set_entry_self hi _)
        (by rw [Cells.pushBack_length]; omega)
      rw [Table.set_set] at h'
      refine ⟨s', c', Returns.bind hpush hrest, ?_, h'⟩
      rw [helems]
      exact List.append_assoc ..

theorem builtinClass_lawful (hP : P.Generous) (hE : E.Copies) :
    Lawful (builtinClass P E) Elems.empty (∀ x, E.selfAssign x = x) ShowsValues where
  construct := by
    rintro s H ⟨F, h, hagree⟩
    obtain ⟨s', hret, _, h'⟩ := Vector.default_spec h
    rw [← hagree.next] at hret
    exact ⟨s', hret, _, h', hagree.add rfl⟩
  make := by
    rintro s H xs ⟨F, h, hagree⟩
    have hlen : (Cells.empty : Cells T).elems.length + xs.1.length ≤ maxRequest := by
      have hle := xs.2
      show 0 + xs.1.length ≤ maxRequest
      omega
    obtain ⟨s₁, hnew, _, h₁⟩ := Vector.default_spec h
    obtain ⟨s', c', hpush, helems, h'⟩ := pushValues_returns hP hE h₁ (F.add_entry_self _) hlen
    rw [Table.add_set] at h'
    rw [← hagree.next] at hnew hpush
    exact ⟨s', Returns.bind hnew (Returns.bind hpush (Returns.pure _ _)), _, h', hagree.add helems.symm⟩
  copyConstruct := by
    rintro s H i xs ⟨F, h, hagree⟩ hi
    obtain ⟨u, hu, helems⟩ := hagree.lookup hi
    obtain ⟨s', hret, h'⟩ := Vector.copyConstruct_spec hP (fun _ => hE) h hu
    rw [← hagree.next] at hret
    exact ⟨s', hret, _, h', hagree.add helems.symm⟩
  assign := by
    rintro s H i j xs ys ⟨F, h, hagree⟩ hi hj hself
    obtain ⟨c, hc, hxs⟩ := hagree.lookup hi
    obtain ⟨u, hu, helems⟩ := hagree.lookup hj
    by_cases hij : i = j
    · subst hij
      obtain ⟨s', hret, h'⟩ := Vector.operatorAssign_self_spec (P := P) (E := E) h hc
      obtain rfl : c = u := Option.some.inj (hc.symm.trans hu)
      refine ⟨s', hret, _, h', hagree.set hi ?_⟩
      rw [← helems]
      exact ((List.map_congr_left fun x _ => hself rfl x).trans (List.map_id _)).symm
    · obtain ⟨s', hret, h'⟩ := Vector.operatorAssign_spec hP (fun _ => hE) h hc hij hu
      exact ⟨s', hret, _, h', hagree.set hi helems.symm⟩
  destroy := by
    rintro s H i xs ⟨F, h, hagree⟩ hi
    obtain ⟨c, hc, _⟩ := hagree.lookup hi
    obtain ⟨s', hret, h'⟩ := Vector.destroy_spec h hc
    exact ⟨s', hret, _, h', hagree.erase i⟩

theorem ShowsValues.empty : ShowsValues (T := T) Store.empty Table.empty :=
  ⟨Table.empty, Represents.empty, Agree.empty⟩

theorem ShowsValues.elements {s : Store Fields T} {H : Table (Elems T)} {i : Nat} {xs : Elems T}
    (h : ShowsValues s H) (hi : H.entry i = some xs) :
    (s.objects.entry i).map (Vector.elements s) = some xs.1 := by
  obtain ⟨F, hvectors, hagree⟩ := h
  obtain ⟨c, hc, helems⟩ := hagree.lookup hi
  obtain ⟨o, ho, hold⟩ := hvectors.lookup hc
  rw [ho, Option.map_some, hold.elements, helems]

theorem ShowsValues.gone {s : Store Fields T} {H : Table (Elems T)} (h : ShowsValues s H)
    (hH : ∀ i, H.entry i = none) (i : Nat) : s.objects.entry i = none := by
  obtain ⟨F, hvectors, hagree⟩ := h
  exact hvectors.lookup_none (hagree.lookup_none (hH i))

end Builtin

/-! ## Any depth -/

/-- The state of vectors of vectors … of objects. -/
def NestedState (τ : Type) : Nat → Type
  | 0 => τ
  | d + 1 => State (NestedState τ d)

def NestedValue (X : Type) : Nat → Type
  | 0 => X
  | d + 1 => Elems (NestedValue X d)

/-- `vector<… vector<T> …>`. -/
def nested (P : Nat → Platform Nat) (C : Class τ X) :
    (d : Nat) → Class (NestedState τ d) (NestedValue X d)
  | 0 => C
  | d + 1 => vectorClass (P d) (nested P C d)

def nestedInitial (initial : X) : (d : Nat) → NestedValue X d
  | 0 => initial
  | _ + 1 => Elems.empty

def nestedShows (Shows : τ → Table X → Prop) :
    (d : Nat) → NestedState τ d → Table (NestedValue X d) → Prop
  | 0 => Shows
  | d + 1 => ShowsLists (nestedShows Shows d)

/-- Without vectors and objects. -/
def nestedEmpty (t : τ) : (d : Nat) → NestedState τ d
  | 0 => t
  | d + 1 => (Store.empty, nestedEmpty t d)

/-- Values as they are printed. -/
def NestedList (Y : Type) : Nat → Type
  | 0 => Y
  | d + 1 => List (NestedList Y d)

def plain {Y : Type} (print : X → Y) : (d : Nat) → NestedValue X d → NestedList Y d
  | 0, x => print x
  | d + 1, xs => xs.1.map (plain print d)

/-- What is read from the vector with a number, `look` reading the objects. -/
def shown {Y : Type} (look : τ → Nat → Option Y) : (d : Nat) → NestedState τ d → Nat → Option (NestedList Y d)
  | 0, t, e => look t e
  | d + 1, σ, i => do
      let o ← σ.1.objects.entry i
      (Vector.elements σ.1 o).mapM (shown look d σ.2)

/-- No vector and no array is left, at no level, and no object. -/
def Gone (none_left : τ → Prop) : (d : Nat) → NestedState τ d → Prop
  | 0, t => none_left t
  | d + 1, σ => (∀ i, σ.1.objects.entry i = none) ∧ (∀ b, σ.1.heap.array b = none) ∧
      Gone none_left d σ.2

theorem mapM_of_forall₂ {α β : Type} {f : α → Option β} {as : List α} {bs : List β}
    (h : List.Forall₂ (fun a b => f a = some b) as bs) : as.mapM f = some bs := by
  induction h with
  | nil => rfl
  | cons hhead _ ih => rw [List.mapM_cons, hhead, ih]; rfl

theorem Nests.shown {Y : Type} {f : Nat → Option Y} {g : X → Y} (h : Nests Shows σ F G)
    (hread : ∀ e x, G.entry e = some x → f e = some (g x)) (hi : F.entry i = some c) :
    (do let o ← σ.1.objects.entry i; (Vector.elements σ.1 o).mapM f) = some (c.elems.map g) := by
  obtain ⟨o, ids, hrow⟩ := h.holding i c hi
  rw [hrow.entry, Option.bind_eq_bind, Option.bind_some, Vector.elements,
    Vector.slotsOf_eq hrow.buffer, hrow.size]
  refine mapM_of_forall₂ (List.forall₂_map_right_iff.2 ?_)
  exact hrow.fills.forall₂.imp fun e x => hread e x

/-- Without vectors there is no object in a slot, so there is none, and no array. -/
theorem Nests.gone (h : Nests Shows σ F G) (hF : ∀ i, F.entry i = none) :
    (∀ i, σ.1.objects.entry i = none) ∧ (∀ b, σ.1.heap.array b = none) ∧ ∀ e, G.entry e = none := by
  have hnone : ∀ i, σ.1.objects.entry i = none := fun i =>
    h.vectors.lookup_none (by rw [blanks_entry, hF i, Option.map_none])
  refine ⟨hnone, fun b => ?_, fun e => ?_⟩
  · by_contra hsome
    obtain ⟨slots, hslots⟩ := Option.ne_none_iff_exists'.1 hsome
    obtain ⟨i, o, ho, _⟩ := h.arrays b slots hslots
    rw [hnone i] at ho
    cases ho
  · by_contra hsome
    obtain ⟨x, hx⟩ := Option.ne_none_iff_exists'.1 hsome
    obtain ⟨i, k, o, ids, ho, _⟩ := h.placed e x hx
    rw [hnone i] at ho
    cases ho

section Nested

variable {P : Nat → Platform Nat} {Y : Type} {look : τ → Nat → Option Y} {print : X → Y}
  {none_left : τ → Prop} (hC : Lawful C initial selfAssigns Shows) (hP : ∀ d, (P d).Generous)
  (hlook : ∀ t G e x, Shows t G → G.entry e = some x → look t e = some (print x))
  (hleft : ∀ t G, Shows t G → (∀ e, G.entry e = none) → none_left t)

include hC hP in
theorem nested_lawful (d : Nat) :
    Lawful (nested P C d) (nestedInitial initial d) selfAssigns (nestedShows Shows d) := by
  induction d with
  | zero => exact hC
  | succ d ih => exact vectorClass_lawful ih (hP d)

theorem nestedShows_empty {t : τ} (ht : Shows t Table.empty) (d : Nat) :
    nestedShows Shows d (nestedEmpty t d) Table.empty := by
  induction d with
  | zero => exact ht
  | succ d ih => exact ShowsLists.empty ih

include hlook in
theorem nestedShows_shown {d : Nat} {σ : NestedState τ d} {H : Table (NestedValue X d)} {e : Nat}
    {v : NestedValue X d} (h : nestedShows Shows d σ H) (hv : H.entry e = some v) :
    shown look d σ e = some (plain print d v) := by
  induction d generalizing e with
  | zero => exact hlook _ _ _ _ h hv
  | succ d ih =>
      obtain ⟨F, G, hnests, hagree⟩ := h
      obtain ⟨c, hc, helems⟩ := hagree.lookup hv
      have hshown := hnests.shown (fun e x hx => ih hnests.objects hx) hc
      rw [helems] at hshown
      exact hshown

include hleft in
theorem nestedShows_gone {d : Nat} {σ : NestedState τ d} {H : Table (NestedValue X d)}
    (h : nestedShows Shows d σ H) (hH : ∀ e, H.entry e = none) : Gone none_left d σ := by
  induction d with
  | zero => exact hleft _ _ h hH
  | succ d ih =>
      obtain ⟨F, G, hnests, hagree⟩ := h
      obtain ⟨hvectors, harrays, hobjects⟩ := hnests.gone fun i => hagree.lookup_none (hH i)
      exact ⟨hvectors, harrays, ih hnests.objects hobjects⟩

include hC hP hlook hleft in
/-- **Vectors of vectors, to any depth**: a run that the machine for plain values passes is passed by the
    code. The vectors then show the lists of the machine, and once they are destroyed nothing is left. -/
theorem runs_nest_deep {t : τ} (ht : Shows t Table.empty) (d : Nat) {E : Element (NestedValue X d)}
    (hE : selfAssigns → ∀ x, E.selfAssign x = x) {ops : List (Op (NestedValue X d))}
    {F : Table (Cells (NestedValue X d))}
    (hops : Passes (InScope (nestedInitial initial d) selfAssigns) (Vector.step E) Table.empty ops F) :
    ∃ σ, Returns (runAll (run (P d) (nested P C d)) ops) (Store.empty, nestedEmpty t d) () σ ∧
      (∀ i c, F.entry i = some c →
        shown look (d + 1) σ i = some (c.elems.map (plain print d))) ∧
      ((∀ i, F.entry i = none) → Gone none_left (d + 1) σ) := by
  obtain ⟨σ, hret, G, h⟩ := runs_nest (nested_lawful hC hP d) (hP d) hE
    (Nests.empty (nestedShows_empty ht d)) hops
  refine ⟨σ, hret, fun i c hi => ?_, fun hF => ?_⟩
  · exact h.shown (fun e x hx => nestedShows_shown hlook h.objects hx) hi
  · obtain ⟨hvectors, harrays, hobjects⟩ := h.gone hF
    exact ⟨hvectors, harrays, nestedShows_gone hleft h.objects hobjects⟩

include hP in
/-- The innermost vectors may be the ones whose elements are plain values. -/
theorem runs_nest_values {T : Type} {P₀ : Platform T} (hP₀ : P₀.Generous) {E₀ : Element T}
    (hE₀ : E₀.Copies) (d : Nat) {E : Element (NestedValue (Elems T) d)}
    (hE : (∀ x, E₀.selfAssign x = x) → ∀ x, E.selfAssign x = x)
    {ops : List (Op (NestedValue (Elems T) d))} {F : Table (Cells (NestedValue (Elems T) d))}
    (hops : Passes (InScope (nestedInitial Elems.empty d) (∀ x, E₀.selfAssign x = x)) (Vector.step E)
      Table.empty ops F) :
    ∃ σ, Returns (runAll (run (P d) (nested P (builtinClass P₀ E₀) d)) ops)
        (Store.empty, nestedEmpty Store.empty d) () σ ∧
      ∀ i c, F.entry i = some c →
        shown (fun s j => (s.objects.entry j).map (Vector.elements s)) (d + 1) σ i =
          some (c.elems.map (plain Subtype.val d)) := by
  obtain ⟨σ, hret, hshown, _⟩ := runs_nest_deep (builtinClass_lawful hP₀ hE₀) hP
    (fun _ _ _ _ => ShowsValues.elements) (fun _ _ => ShowsValues.gone) ShowsValues.empty d hE hops
  exact ⟨σ, hret, hshown⟩

end Nested

end LinuxSamples.ClassVector
