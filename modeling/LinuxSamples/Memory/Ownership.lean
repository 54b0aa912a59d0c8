import LinuxSamples.Memory.Store

set_option autoImplicit false

/-! # Families of objects that own their arrays

An object of a container class owns the array its `buffer` field points to: no other object of the
family points there. `ClassModel` says what value an object stands for in a given heap; `Represents`
says that the objects of a store stand for a family of values and own disjoint arrays.

A member function called on object `i` may replace that object's array and use temporary arrays of
its own. `Rebinds` is the footprint of such a call; the update rules at the end turn it into an
update of the family of values at `i`, every other object keeping its value. -/

namespace LinuxSamples.Memory

open LinuxSamples.Program

variable {α Obj V : Type}

/-- The values the objects of a class stand for: which array an object points to, and when an
    object holds a value. Holding depends on that one array, which must be allocated. -/
structure ClassModel (Obj α V : Type) where
  buffer : Obj → Option Nat
  Holds : Heap α → Obj → V → Prop
  holds_congr : ∀ {h h' : Heap α} {o : Obj} {v : V}, Holds h o v →
    (∀ c, buffer o = some c → h'.array c = h.array c) → Holds h' o v
  holds_live : ∀ {h : Heap α} {o : Obj} {v : V} {c : Nat}, Holds h o v → buffer o = some c →
    ∃ slots, h.array c = some slots

variable (D : ClassModel Obj α V)

/-- Object `i` points to array `c`. -/
def Owns (s : Store Obj α) (i c : Nat) : Prop :=
  ∃ o, s.objects.entry i = some o ∧ D.buffer o = some c

/-- The objects of `s` stand for the values of the family `F`, each owning its array. -/
structure Represents (s : Store Obj α) (F : Table V) : Prop where
  next : F.next = s.objects.next
  holds : ∀ i, Option.Rel (D.Holds s.heap) (s.objects.entry i) (F.entry i)
  separate : ∀ i j c, Owns D s i c → Owns D s j c → i = j

/-- From `s` to `s'`, object `i` was rebound to `o'`: arrays other than its old and its new one are
    as before, and the new one is its old one or was not allocated in `s`. -/
structure Rebinds (i : Nat) (o' : Option Obj) (s s' : Store Obj α) : Prop where
  objects : s'.objects.entry = Function.update s.objects.entry i o'
  arrays : ∀ c, ¬ Owns D s i c → (∀ o, o' = some o → D.buffer o ≠ some c) →
    s'.heap.array c = s.heap.array c
  own : ∀ o c, o' = some o → D.buffer o = some c → Owns D s i c ∨ s.heap.array c = none

variable {D} {s s' : Store Obj α} {F : Table V} {i j c : Nat} {o : Obj} {o' : Option Obj} {v v' : V}

theorem Represents.empty : Represents D (Store.empty : Store Obj α) Table.empty where
  next := rfl
  holds _ := Option.Rel.none
  separate _ _ _ hi := by
    obtain ⟨_, ho, _⟩ := hi
    cases ho

theorem Represents.lookup (h : Represents D s F) (hi : F.entry i = some v) :
    ∃ o, s.objects.entry i = some o ∧ D.Holds s.heap o v := by
  have hrel := h.holds i
  rw [hi] at hrel
  exact rel_some_right hrel

theorem Represents.holds_at (h : Represents D s F) (hi : F.entry i = some v)
    (ho : s.objects.entry i = some o) : D.Holds s.heap o v := by
  obtain ⟨o₁, ho₁, hv⟩ := h.lookup hi
  rw [ho] at ho₁
  cases ho₁
  exact hv

theorem Represents.lookup_none (h : Represents D s F) (hi : F.entry i = none) :
    s.objects.entry i = none := (rel_none_iff (h.holds i)).2 hi

theorem Represents.value (h : Represents D s F) (hi : s.objects.entry i = some o) :
    ∃ v, F.entry i = some v ∧ D.Holds s.heap o v := by
  have hrel := h.holds i
  rw [hi] at hrel
  exact rel_some_left hrel

theorem Represents.live (h : Represents D s F) (hown : Owns D s i c) :
    ∃ slots, s.heap.array c = some slots := by
  obtain ⟨o, ho, hc⟩ := hown
  obtain ⟨v, _, hv⟩ := h.value ho
  exact D.holds_live hv hc

/-- The arrays of the other objects are untouched. -/
theorem Rebinds.array_other (hr : Rebinds D i o' s s') (h : Represents D s F) (hij : j ≠ i)
    (hj : Owns D s j c) : s'.heap.array c = s.heap.array c := by
  apply hr.arrays
  · intro hi
    exact hij (h.separate j i c hj hi)
  · intro o ho hc
    obtain ⟨slots, hslots⟩ := h.live hj
    rcases hr.own o c ho hc with hi | hnone
    · exact hij (h.separate j i c hj hi)
    · rw [hslots] at hnone
      cases hnone

theorem Rebinds.owns_other (hr : Rebinds D i o' s s') (hij : j ≠ i) :
    Owns D s' j c ↔ Owns D s j c := by
  rw [Owns, Owns, hr.objects, Function.update_of_ne hij]

theorem Rebinds.owns_self (hr : Rebinds D i o' s s') :
    Owns D s' i c ↔ ∃ o, o' = some o ∧ D.buffer o = some c := by
  rw [Owns, hr.objects, Function.update_self]

/-- **Update rule.** A call that rebinds object `i` to an object holding `v'` updates the family
    at `i` and nowhere else. -/
theorem Represents.rebind (h : Represents D s F) (hr : Rebinds D i o' s s') {G : Table V}
    {v' : Option V} (hG : G.entry = Function.update F.entry i v') (hnext : G.next = s'.objects.next)
    (hv : Option.Rel (D.Holds s'.heap) o' v') : Represents D s' G where
  next := hnext
  holds j := by
    rw [hG, hr.objects]
    by_cases hj : j = i
    · subst hj
      simpa using hv
    · rw [Function.update_of_ne hj, Function.update_of_ne hj]
      exact rel_mono (h.holds j) fun o v hentry _ hold =>
        D.holds_congr hold fun c hc => hr.array_other h hj ⟨o, hentry, hc⟩
  separate := by
    -- a new array of object `i` is owned by no other object: it was `i`'s or not allocated
    have hself : ∀ j c, j ≠ i → Owns D s j c → ¬ Owns D s' i c := by
      intro j c hj hown hi
      obtain ⟨o, ho, hc⟩ := hr.owns_self.1 hi
      obtain ⟨slots, hslots⟩ := h.live hown
      rcases hr.own o c ho hc with hold | hnone
      · exact hj (h.separate j i c hown hold)
      · rw [hslots] at hnone
        cases hnone
    intro j k c hj hk
    by_cases hji : j = i
    · by_cases hki : k = i
      · rw [hji, hki]
      · subst hji
        exact absurd hj (hself k c hki ((hr.owns_other hki).1 hk))
    · by_cases hki : k = i
      · subst hki
        exact absurd hk (hself j c hji ((hr.owns_other hji).1 hj))
      · exact h.separate j k c ((hr.owns_other hji).1 hj) ((hr.owns_other hki).1 hk)

/-- A call on an existing object. -/
theorem Represents.set (h : Represents D s F) (hi : F.entry i = some v)
    (hr : Rebinds D i (some o) s s') (hnext : s'.objects.next = s.objects.next)
    (hv : D.Holds s'.heap o v') : Represents D s' (F.set i v') :=
  h.rebind hr (Table.set_entry hi v') (by rw [Table.set_next, h.next, hnext])
    (Option.Rel.some hv)

/-- A constructor. -/
theorem Represents.add (h : Represents D s F) (hr : Rebinds D F.next (some o) s s')
    (hnext : s'.objects.next = s.objects.next + 1) (hv : D.Holds s'.heap o v') :
    Represents D s' (F.add v') :=
  h.rebind hr (Table.add_entry F v') (by rw [Table.add_next, h.next, hnext]) (Option.Rel.some hv)

/-- A destructor. -/
theorem Represents.erase (h : Represents D s F) (hr : Rebinds D i none s s')
    (hnext : s'.objects.next = s.objects.next) : Represents D s' (F.erase i) :=
  h.rebind hr (Table.erase_entry F i) (by rw [Table.erase_next, h.next, hnext]) Option.Rel.none

end LinuxSamples.Memory
