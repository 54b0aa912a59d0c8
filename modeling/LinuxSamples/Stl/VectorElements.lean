import LinuxSamples.Stl.VectorCorrect

set_option autoImplicit false

/-! # The elements of a reachable `fbcstd::vector`

Whatever a run has done, its vectors have their sizes and capacities from the abstract machine, and
their elements are what the slots hold. Taking these for the values gives a family the store represents
exactly (`Represents.exactly`), so what is proved of vectors with known elements holds of every
reachable vector. First such result: `push_back` of an own element. -/

namespace LinuxSamples.Vector

open LinuxSamples.Program LinuxSamples.Memory

variable {T : Type} {P : Platform T} {E : Element T} {s s' : Store Fields T} {F : Table (Cells T)}
  {i k n : Nat} {o : Fields} {t : Cells T} {exact : Prop}

/-! ## What the slots hold -/

/-- The slots of the array `p` points to; none for the null pointer. -/
def slotsOf (h : Heap T) : Option Nat → List T
  | none => []
  | some b => (h.array b).getD []

theorem slotsOf_eq {h : Heap T} {p : Option Nat} {slots : List T} (hp : h.PointsTo p slots) :
    slotsOf h p = slots := by
  cases p with
  | none => exact Eq.symm hp
  | some b =>
      have hb : h.array b = some slots := hp
      rw [slotsOf, hb, Option.getD_some]

/-- The slots are those of an array that is there, or there are none. -/
theorem slotsOf_cases (h : Heap T) (p : Option Nat) :
    slotsOf h p = [] ∨ ∃ b, p = some b ∧ h.array b = some (slotsOf h p) := by
  cases p with
  | none => exact Or.inl rfl
  | some b =>
      rw [slotsOf]
      cases harr : h.array b with
      | none => exact Or.inl rfl
      | some slots => exact Or.inr ⟨b, rfl, harr⟩

/-- The elements of a vector: its first `size_` slots. -/
def elements (s : Store Fields T) (o : Fields) : List T := (slotsOf s.heap o.buffer_).take o.size_

theorem Holds.elements (hold : Holds True s.heap o t) : elements s o = t.elems := by
  obtain ⟨slots, hp, _, htake⟩ := hold.buffer
  rw [Vector.elements, slotsOf_eq hp, hold.size, htake trivial]

theorem Holds.elements_length (hold : Holds exact s.heap o t) :
    (Vector.elements s o).length = o.size_ := by
  obtain ⟨slots, hp, hlen, _⟩ := hold.buffer
  have hfits := t.fits_capacity
  rw [Vector.elements, slotsOf_eq hp, List.length_take, hold.size]
  omega

/-- The history `t` with the elements the slots hold. -/
def Cells.holding (t : Cells T) (slots : List T) : Cells T :=
  ⟨slots.take t.elems.length, t.peak, (List.length_take_le ..).trans t.fits⟩

theorem Holds.holding (hold : Holds exact s.heap o t) :
    Holds True s.heap o (t.holding (slotsOf s.heap o.buffer_)) := by
  obtain ⟨slots, hp, hlen, _⟩ := hold.buffer
  have hfits := t.fits_capacity
  have hlength : (t.holding (slotsOf s.heap o.buffer_)).elems.length = t.elems.length := by
    rw [Cells.holding, slotsOf_eq hp, List.length_take]
    omega
  refine ⟨hold.size.trans hlength.symm, hold.capacity, hold.bounded, hold.null, slots, hp, hlen, ?_⟩
  intro _
  rw [hlength, Cells.holding, slotsOf_eq hp]

/-- The family of the histories with the elements the slots hold. -/
def holding (s : Store Fields T) (F : Table (Cells T)) : Table (Cells T) where
  entry i := (s.objects.entry i).bind fun o =>
    (F.entry i).map fun t => t.holding (slotsOf s.heap o.buffer_)
  next := F.next
  fresh c hc := by
    rw [F.fresh c hc]
    cases s.objects.entry c <;> rfl

theorem holding_entry (ho : s.objects.entry i = some o) (hi : F.entry i = some t) :
    (holding s F).entry i = some (t.holding (slotsOf s.heap o.buffer_)) := by
  show (s.objects.entry i).bind _ = _
  rw [ho, Option.bind_some, hi, Option.map_some]

/-- **A represented store is represented exactly** by the elements its slots hold. -/
theorem Represents.exactly (h : Represents (model T exact) s F) :
    Represents (model T True) s (holding s F) where
  next := h.next
  holds i := by
    cases ho : s.objects.entry i with
    | none =>
        have hnone : (holding s F).entry i = none := by
          show (s.objects.entry i).bind _ = _
          rw [ho, Option.bind_none]
        rw [hnone]
        exact Option.Rel.none
    | some o =>
        obtain ⟨t, hi, hold⟩ := h.value ho
        rw [holding_entry ho hi]
        exact Option.Rel.some hold.holding
  separate := h.separate

/-! ## Reachable stores -/

/-- Every run that returns leaves a store that is represented exactly. -/
theorem reachable_represents {ops : List (Op T)}
    (hrun : Returns (runAll (Op.run P E) ops) Store.empty () s) :
    ∃ F, Represents (model T True) s F := by
  obtain ⟨F, _, h⟩ := (runs_count (E := E) P.generous_generous ops Represents.empty).of_returns
    ((OrThrows.runAll (Op.run_orThrows P E) ops).returns hrun)
  exact ⟨_, Represents.exactly h⟩

/-! ## `push_back` of an own element -/

/-- `v.push_back(v[k])` leaves the old elements followed by a copy of the old `v[k]`. -/
def AppendsOwn (P : Platform T) (E : Element T) (s : Store Fields T) (i k : Nat) (o : Fields) : Prop :=
  ∃ s' o' x, (elements s o)[k]? = some x ∧
    Returns (Op.run P E (.pushBack i (.element i (.index k)))) s () s' ∧
    s'.objects.entry i = some o' ∧ elements s' o' = elements s o ++ [x]

/-- What the machine does for `v.push_back(v[k])`. -/
theorem step_pushBack_own (hi : F.entry i = some t) {x : T} (hx : t.elems[k]? = some x) :
    step E F (.pushBack i (.element i (.index k))) = (within (t.elems.length + 1)).bind fun _ =>
      if t.capacity ≤ t.elems.length then .error .released else .ok (F.set i (t.pushBack x)) := by
  have hlook : look F i = .ok t := by rw [look, hi]
  have hfind : (Access.index k).find t = .ok (k, x) := by
    have hlt := (List.getElem?_eq_some_iff.1 hx).1
    rw [Access.find, Access.position, if_pos hlt, Option.bind_some, hx]
    rfl
  have heval : Arg.eval F (.element i (.index k)) = .ok (x, some (i, k)) := by
    rw [Arg.eval, hlook]
    show (Except.bind ((Access.index k).find t) _) = _
    rw [hfind]
    rfl
  rw [step, heval]
  show Except.bind (look F i) _ = _
  rw [hlook]
  simp only [Option.map_some, true_and]
  rfl

/-- **`v.push_back(v[k])` is right exactly while `v` is not full**: at its capacity, the buffer `v[k]`
    refers to is released before the reference is read. -/
theorem pushBack_own_iff (hP : P.Generous) (hE : E.Copies) {ops : List (Op T)}
    (hrun : Returns (runAll (Op.run P E) ops) Store.empty () s) (ho : s.objects.entry i = some o)
    (hk : k < o.size_) : AppendsOwn P E s i k o ↔ o.size_ < o.capacity_ := by
  obtain ⟨F, h⟩ := reachable_represents hrun
  obtain ⟨t, hi, hold⟩ := h.value ho
  have hfits := t.fits_capacity
  have hbound := hold.capacity_le
  rw [hold.size] at hk
  obtain ⟨x, hx⟩ : ∃ x, t.elems[k]? = some x := ⟨_, List.getElem?_eq_getElem hk⟩
  have hmeets : Meets (Represents (model T True)) _ s _ := run_meets hP (fun _ => hE) h
    (.pushBack i (.element i (.index k))) fun _ j n u hop => by cases hop
  rw [step_pushBack_own hi hx] at hmeets
  rw [AppendsOwn, hold.elements, hold.size, hold.capacity]
  constructor
  · rintro ⟨s', o', y, _, hret, _⟩
    by_contra hfull
    have hfull' : t.capacity ≤ t.elems.length := by omega
    by_cases hn : t.elems.length + 1 ≤ maxRequest
    · rw [within, if_pos hn] at hmeets
      simp only [Except.bind, if_pos hfull'] at hmeets
      exact hret.not_fails hmeets
    · rw [within, if_neg hn] at hmeets
      exact hret.not_fails hmeets
  · intro hlt
    have hn : t.elems.length + 1 ≤ maxRequest := by omega
    rw [within, if_pos hn] at hmeets
    simp only [Except.bind, if_neg (Nat.not_le.2 hlt)] at hmeets
    obtain ⟨s', hret, h'⟩ := hmeets
    obtain ⟨o', ho', hold'⟩ := h'.lookup (Table.set_entry_self hi _)
    exact ⟨s', o', x, hx, hret, ho', hold'.elements⟩

/-- `vector<int> v(3, 7); v.push_back(v[1]);` -/
theorem pushBack_own_iff_room : ∃ s o,
    Returns (runAll (Op.run (Platform.zeroed 0) (Element.builtin 0)) [.construct 3 (.value 7)])
      Store.empty () s ∧ s.objects.entry 0 = some o ∧ o.size_ = 3 ∧ o.capacity_ = 4 ∧
    AppendsOwn (Platform.zeroed 0) (Element.builtin 0) s 0 1 o := by
  have hstore : ∃ s, Returns (runAll (Op.run (Platform.zeroed 0) (Element.builtin 0))
      [.construct 3 (.value 7)]) Store.empty () s ∧ s.objects.entry 0 = some ⟨3, 4, some 0⟩ :=
    ⟨_, rfl, rfl⟩
  obtain ⟨s, hrun, ho⟩ := hstore
  exact ⟨s, _, hrun, ho, rfl, rfl, (pushBack_own_iff (Platform.zeroed_generous 0)
    (Element.builtin_copies 0) hrun ho (by decide)).2 (by decide)⟩

/-- `vector<int> v; v.push_back(7); v.push_back(v[0]);`: the vector is full with its one element. -/
theorem pushBack_own_released : ∃ s o,
    Returns (runAll (Op.run (Platform.zeroed 0) (Element.builtin 0))
      [.default, .pushBack 0 (.value 7)]) Store.empty () s ∧
    s.objects.entry 0 = some o ∧ elements s o = [7] ∧ o.capacity_ = 1 ∧
    Fails (Op.run (Platform.zeroed 0) (Element.builtin 0) (.pushBack 0 (.element 0 (.index 0)))) s
      .released ∧
    ¬ AppendsOwn (Platform.zeroed 0) (Element.builtin 0) s 0 0 o := by
  refine ⟨_, ⟨1, 1, some 1⟩, rfl, rfl, rfl, rfl, ⟨_, rfl⟩, ?_⟩
  rintro ⟨s', o', x, _, hret, _⟩
  exact hret.not_fails ⟨_, rfl⟩

end LinuxSamples.Vector
