import LinuxSamples.Stl.VectorRuns

set_option autoImplicit false

/-! # Runs of `fbcstd::vector`: contents and capacities

The consequences of the simulation for whole runs. For element types whose assignment copies, the
vectors show exactly the lists of the abstract machine; for every element type, the capacity of a
vector is determined by its peak. Since a run is an arbitrary list of statements, what is said about
its end holds at every point between two statements. -/

namespace LinuxSamples.Vector

open LinuxSamples.Program LinuxSamples.Memory

variable {T : Type}

/-! ## No run needs more memory than it gets, or it throws -/

section Throws

variable (P : Platform T) (E : Element T)

theorem reserve_orThrows (this n : Nat) :
    OrThrows (reserve P this n) (reserve P.generous this n) := by
  refine (OrThrows.refl _).bind fun v => OrThrows.onlyIf ((OrThrows.refl _).bind fun _ => ?_)
  cases grown n with
  | none => exact OrThrows.refl _
  | some c =>
      exact (OrThrows.refl _).bind fun _ =>
        (newArray_orThrows P c).bind fun _ => OrThrows.refl _

theorem operatorAssign_orThrows (this x : Nat) :
    OrThrows (operatorAssign P E this x) (operatorAssign P.generous E this x) :=
  (OrThrows.refl _).bind fun _ => (reserve_orThrows P this _).bind fun _ => OrThrows.refl _

theorem regrow_orThrows (this n : Nat) :
    OrThrows (regrow P E this n) (regrow P.generous E this n) :=
  (OrThrows.refl _).bind fun _ => (newArray_orThrows P _).bind fun _ => (OrThrows.refl _).bind
    fun _ => (reserve_orThrows P this n).bind fun _ => OrThrows.refl _

/-- On a platform that may refuse memory, a statement does what it does with enough memory, or it
    throws `std::bad_alloc`. -/
theorem Op.run_orThrows (op : Op T) : OrThrows (op.run P E) (op.run P.generous E) := by
  cases op with
  | default | popBack i | clear i | write i a val | destroy i => exact OrThrows.refl _
  | construct n val =>
      exact (OrThrows.refl _).bind fun r => ((OrThrows.refl _).bind fun this =>
        (reserve_orThrows P this n).bind fun _ => OrThrows.refl _).bind fun _ => OrThrows.refl _
  | copy j =>
      refine (OrThrows.refl _).bind fun _ => ?_
      rw [copyConstruct_eq, copyConstruct_eq]
      exact ((OrThrows.refl _).bind fun this => (operatorAssign_orThrows P E this j).bind
        fun _ => OrThrows.refl _).bind fun _ => OrThrows.refl _
  | assign i j => exact operatorAssign_orThrows P E i j
  | pushBack i val =>
      exact (OrThrows.refl _).bind fun r => (OrThrows.refl _).bind fun _ =>
        (regrow_orThrows P E i _).onlyIf.bind fun _ => OrThrows.refl _
  | resize i n val =>
      exact (OrThrows.refl _).bind fun r => (OrThrows.refl _).bind fun x =>
        (OrThrows.refl _).bind fun _ => (((regrow_orThrows P E i n).onlyIf).bind
          fun _ => OrThrows.refl _).onlyIf.bind fun _ => OrThrows.refl _
  | reserve i n => exact reserve_orThrows P i n

end Throws

/-! ## Contents -/

/-- Vector `i` shows the list `xs`: its slots hold it and every observer returns what it gives. -/
structure Shows (E : Element T) (s : Store Fields T) (F : Table (Cells T)) (i : Nat)
    (xs : List T) : Prop where
  contents : ∃ o slots, s.objects.entry i = some o ∧ s.heap.PointsTo o.buffer_ slots ∧
    o.size_ = xs.length ∧ slots.take o.size_ = xs
  size : Returns (size i) s xs.length s
  empty : Returns (empty i) s xs.isEmpty s
  access : ∀ (a : Access) k x, a.position xs.length = some k → xs[k]? = some x →
    Returns (a.read i) s x s
  aborts : ∀ a : Access, a.position xs.length = none → Fails (a.slot i) s .abort
  popBack : xs = [] → Fails (popBack i) s .abort
  iterate : Returns (iterate i) s xs s
  equal : ∀ j u, F.entry j = some u → ∃ same, Returns (operatorEq E i j) s same s ∧
    Returns (operatorNe E i j) s (!same) s ∧ same = sameElems E xs u.elems ∧
    ((∀ x y, E.ne x y = true ↔ x ≠ y) → (same = true ↔ xs = u.elems))

theorem Represents.shows {E : Element T} {s : Store Fields T} {F : Table (Cells T)}
    (h : Represents (model T True) s F) {i : Nat} {t : Cells T} (hi : F.entry i = some t) :
    Shows E s F i t.elems where
  contents := by
    obtain ⟨o, ho, hold⟩ := h.lookup hi
    obtain ⟨slots, hp, _, htake⟩ := hold.buffer
    exact ⟨o, slots, ho, hp, hold.size, by rw [hold.size]; exact htake trivial⟩
  size := size_spec h hi
  empty := empty_spec h hi
  access _ _ _ hk hx := Access.read_spec h hi hk hx
  aborts _ hk := Access.slot_aborts h hi hk
  popBack hnil := popBack_aborts h hi hnil
  iterate := iterate_spec h hi
  equal j u hj := ⟨_, operatorEq_spec h hi hj, operatorNe_spec h hi hj, rfl,
    fun hne => sameElems_iff hne⟩

/-- The vectors of `s` are those of `F`, each showing its list. -/
def Displays (E : Element T) (s : Store Fields T) (F : Table (Cells T)) : Prop :=
  ∀ i, ((s.objects.entry i).isSome ↔ (F.entry i).isSome) ∧
    ∀ t, F.entry i = some t → Shows E s F i t.elems

theorem Represents.displays {E : Element T} {s : Store Fields T} {F : Table (Cells T)}
    (h : Represents (model T True) s F) : Displays E s F := by
  intro i
  refine ⟨?_, fun t hi => Represents.shows h hi⟩
  cases hi : F.entry i with
  | none =>
      rw [h.lookup_none hi]
      exact Iff.rfl
  | some t =>
      obtain ⟨o, ho, _⟩ := h.lookup hi
      rw [ho]
      exact Iff.rfl

/-- The statements whose effect on the lists does not depend on the capacities: no `reserve`, and
    no `push_back` of an element of the vector itself. -/
def Op.OnLists : Op T → Prop
  | .reserve _ _ => False
  | .pushBack i (.element j _) => j ≠ i
  | _ => True

/-- **Vectors refine lists.** Every run ends as the abstract machine ends, showing the machine's
    lists; it stops early only when an allocation is refused. -/
theorem runs_refine_lists (P : Platform T) (E : Element T) (hE : E.Copies) (ops : List (Op T))
    (hops : ∀ op ∈ ops, op.OnLists) :
    (¬ P.Generous ∧ Fails (runAll (Op.run P E) ops) Store.empty .badAlloc) ∨
    Meets (Displays E) (runAll (Op.run P E) ops) Store.empty
      (specAll (step E) Table.empty ops) := by
  have hsim := runs_meet P.generous_generous hE ops fun op hmem i n hop => by
    subst hop
    exact hops _ hmem
  have hshow := hsim.mono fun s F h => Represents.displays (E := E) h
  by_cases hP : P.Generous
  · rw [hP.eq] at hshow
    exact Or.inr hshow
  · rcases (OrThrows.runAll (Op.run_orThrows P E) ops).meets hshow with hfail | hmeets
    · exact Or.inl ⟨hP, hfail⟩
    · exact Or.inr hmeets

/-- A run over two vectors of `int`: push, push, copy, write an own element, pop. -/
theorem runs_refine_lists_ints : ∃ s F,
    Returns (runAll (Op.run (Platform.zeroed 0) (Element.builtin 0))
      [.default, .pushBack 0 (.value 3), .pushBack 0 (.value 4), .copy 0,
        .write 1 .front (.element 1 .back), .popBack 0]) Store.empty () s ∧
    Displays (Element.builtin 0) s F ∧ (F.entry 0).map Cells.elems = some [3] ∧
    (F.entry 1).map Cells.elems = some [4, 4] := by
  have hops : ∀ op ∈ ([.default, .pushBack 0 (.value 3), .pushBack 0 (.value 4), .copy 0,
      .write 1 .front (.element 1 .back), .popBack 0] : List (Op Nat)), op.OnLists := by
    simp [Op.OnLists]
  rcases runs_refine_lists (Platform.zeroed 0) (Element.builtin 0)
    (Element.builtin_copies 0) _ hops with
    ⟨hP, _⟩ | ⟨s, hret, hs⟩
  · exact absurd (Platform.zeroed_generous 0) hP
  · exact ⟨s, _, hret, hs, rfl, rfl⟩

/-! ## Capacities -/

/-- The capacity law for one vector of the given size and peak. -/
structure Lawful (h : Heap T) (o : Fields) (size peak : Nat) : Prop where
  size : o.size_ = size
  fits : o.size_ ≤ o.capacity_
  null : o.buffer_ = none ↔ o.capacity_ = 0
  slots : ∃ slots, h.PointsTo o.buffer_ slots ∧ slots.length = o.capacity_
  zero : peak = 0 → o.capacity_ = 0
  least : peak ≠ 0 → IsLeast {c | (∃ k, c = 2 ^ k) ∧ peak ≤ c} o.capacity_
  power : o.capacity_ = 0 ∨ ∃ k, o.capacity_ = 2 ^ k
  twice : peak ≠ 0 → o.capacity_ < 2 * peak

theorem Holds.lawful {exact : Prop} {h : Heap T} {o : Fields} {t : Cells T}
    (hold : Holds exact h o t) : Lawful h o t.elems.length t.peak where
  size := hold.size
  fits := by
    rw [hold.size, hold.capacity]
    exact t.fits_capacity
  null := by
    rw [hold.capacity]
    exact hold.null
  slots := by
    obtain ⟨slots, hp, hlen, _⟩ := hold.buffer
    exact ⟨slots, hp, hlen.trans hold.capacity.symm⟩
  zero hzero := by rw [hold.capacity, Cells.capacity, capacityFor, if_pos hzero]
  least hne := by
    rw [hold.capacity, Cells.capacity, capacityFor, if_neg hne]
    exact leastPow_isLeast t.peak
  power := by
    rw [hold.capacity, Cells.capacity, capacityFor]
    split
    · exact Or.inl rfl
    · exact Or.inr ⟨_, rfl⟩
  twice hne := by
    rw [hold.capacity, Cells.capacity, capacityFor, if_neg hne]
    exact leastPow_lt_two_mul (Nat.pos_of_ne_zero hne)

/-- From `F` to `G` no peak decreases and no number is used again. -/
structure Grows (F G : Table (Cells T)) : Prop where
  next : F.next ≤ G.next
  peak : ∀ i t u, F.entry i = some t → G.entry i = some u → t.peak ≤ u.peak
  gone : ∀ i, i < F.next → F.entry i = none → G.entry i = none

namespace Grows

variable {F G H : Table (Cells T)} {i : Nat} {t u : Cells T}

theorem refl (F : Table (Cells T)) : Grows F F := by
  refine ⟨Nat.le_refl _, fun i t u ht hu => ?_, fun i _ hnone => hnone⟩
  rw [ht] at hu
  cases hu
  exact Nat.le_refl _

theorem trans (h₁ : Grows F G) (h₂ : Grows G H) : Grows F H := by
  refine ⟨Nat.le_trans h₁.next h₂.next, fun i t v ht hv => ?_, fun i hi hnone => ?_⟩
  · have hlt := Table.lt_next ht
    cases hu : G.entry i with
    | none =>
        rw [h₂.gone i (Nat.lt_of_lt_of_le hlt h₁.next) hu] at hv
        cases hv
    | some u => exact Nat.le_trans (h₁.peak i t u ht hu) (h₂.peak i u v hu hv)
  · exact h₂.gone i (Nat.lt_of_lt_of_le hi h₁.next) (h₁.gone i hi hnone)

theorem add (F : Table (Cells T)) (t : Cells T) : Grows F (F.add t) := by
  have hold : ∀ i, i < F.next → (F.add t).entry i = F.entry i := fun i hi =>
    Function.update_of_ne (Nat.ne_of_lt hi) _ _
  refine ⟨Nat.le_succ _, fun i t u ht hu => ?_, fun i hi hnone => (hold i hi).trans hnone⟩
  rw [hold i (Table.lt_next ht), ht] at hu
  cases hu
  exact Nat.le_refl _

theorem set (hi : F.entry i = some t) (hle : t.peak ≤ u.peak) : Grows F (F.set i u) := by
  refine ⟨Nat.le_refl _, fun j t' u' ht' hu' => ?_, fun j _ hnone => ?_⟩
  · rw [Table.set_entry hi] at hu'
    by_cases hj : j = i
    · subst hj
      rw [hi] at ht'
      rw [Function.update_self] at hu'
      cases ht'
      cases hu'
      exact hle
    · rw [Function.update_of_ne hj, ht'] at hu'
      cases hu'
      exact Nat.le_refl _
  · rw [Table.set_entry hi, Function.update_of_ne]
    · exact hnone
    · rintro rfl
      rw [hi] at hnone
      cases hnone

theorem erase (F : Table (Cells T)) (i : Nat) : Grows F (F.erase i) := by
  refine ⟨Nat.le_refl _, fun j t u ht hu => ?_, fun j _ hnone => ?_⟩
  · by_cases hj : j = i
    · subst hj
      rw [Table.erase_entry, Function.update_self] at hu
      cases hu
    · rw [Table.erase_entry, Function.update_of_ne hj, ht] at hu
      cases hu
      exact Nat.le_refl _
  · by_cases hj : j = i
    · subst hj
      exact Function.update_self ..
    · rw [Table.erase_entry, Function.update_of_ne hj]
      exact hnone

end Grows

theorem look_eq {F : Table (Cells T)} {i : Nat} {t : Cells T} (h : look F i = .ok t) :
    F.entry i = some t := by
  rw [look] at h
  split at h
  · next t' hi =>
      cases h
      exact hi
  · cases h

/-- A step of the machine decreases no peak. -/
theorem step_grows {E : Element T} {F G : Table (Cells T)} {op : Op T}
    (h : step E F op = .ok G) : Grows F G := by
  cases op with
  | default =>
      cases h
      exact Grows.add F _
  | construct n val =>
      obtain ⟨_, _, h⟩ := ok_of_bind h
      obtain ⟨_, _, h⟩ := ok_of_bind h
      cases h
      exact Grows.add F _
  | copy j =>
      obtain ⟨_, _, h⟩ := ok_of_bind h
      cases h
      exact Grows.add F _
  | assign i j =>
      obtain ⟨_, _, h⟩ := ok_of_bind h
      obtain ⟨t, ht, h⟩ := ok_of_bind h
      cases h
      refine Grows.set (look_eq ht) ?_
      split
      · exact Nat.le_refl _
      · exact Nat.le_max_left ..
  | pushBack i val =>
      obtain ⟨_, _, h⟩ := ok_of_bind h
      obtain ⟨t, ht, h⟩ := ok_of_bind h
      obtain ⟨_, _, h⟩ := ok_of_bind h
      split at h
      · cases h
      · cases h
        exact Grows.set (look_eq ht) (Nat.le_max_left ..)
  | popBack i =>
      obtain ⟨t, ht, h⟩ := ok_of_bind h
      split at h
      · cases h
      · cases h
        exact Grows.set (look_eq ht) (Nat.le_refl _)
  | resize i n val =>
      obtain ⟨_, _, h⟩ := ok_of_bind h
      obtain ⟨t, ht, h⟩ := ok_of_bind h
      obtain ⟨_, _, h⟩ := ok_of_bind h
      cases h
      exact Grows.set (look_eq ht) (Nat.le_max_left ..)
  | clear i =>
      obtain ⟨t, ht, h⟩ := ok_of_bind h
      cases h
      exact Grows.set (look_eq ht) (Nat.le_refl _)
  | write i a val =>
      obtain ⟨_, _, h⟩ := ok_of_bind h
      obtain ⟨t, ht, h⟩ := ok_of_bind h
      obtain ⟨_, _, h⟩ := ok_of_bind h
      cases h
      exact Grows.set (look_eq ht) (Nat.le_refl _)
  | reserve i n =>
      obtain ⟨t, ht, h⟩ := ok_of_bind h
      obtain ⟨_, _, h⟩ := ok_of_bind h
      cases h
      exact Grows.set (look_eq ht) (Nat.le_max_left ..)
  | destroy i =>
      obtain ⟨_, _, h⟩ := ok_of_bind h
      cases h
      exact Grows.erase F i

theorem Represents.lawful {s : Store Fields T} {F : Table (Cells T)}
    (h : Represents (model T False) s F) (i : Nat) :
    Option.Rel (fun o t => Lawful s.heap o t.elems.length t.peak) (s.objects.entry i)
      (F.entry i) :=
  rel_mono (h.holds i) fun _ _ _ _ hold => hold.lawful

/-- **The capacity law.** At the end of every run the capacity of each vector is the least power of
    two that is at least its peak, or 0 when the peak is 0; and however the run goes on, the
    capacity of a vector does not decrease. -/
theorem capacity_law (P : Platform T) (hP : P.Generous) (E : Element T) (ops later : List (Op T)) :
    Meets (fun s F => ∀ i, Option.Rel (fun o t => Lawful s.heap o t.elems.length t.peak)
        (s.objects.entry i) (F.entry i))
      (runAll (Op.run P E) ops) Store.empty (specAll (step E) Table.empty ops) ∧
    ∀ s s' i o o', Returns (runAll (Op.run P E) ops) Store.empty () s →
      Returns (runAll (Op.run P E) later) s () s' → s.objects.entry i = some o →
      s'.objects.entry i = some o' → o.capacity_ ≤ o'.capacity_ := by
  have hsim := runs_count (E := E) hP ops Represents.empty
  refine ⟨hsim.mono fun s F h i => Represents.lawful h i, ?_⟩
  intro s s' i o o' hret hlater ho ho'
  obtain ⟨F, _, hF⟩ := hsim.of_returns hret
  obtain ⟨G, hspec, hG⟩ := (runs_count (E := E) hP later hF).of_returns hlater
  obtain ⟨t, hi, hold⟩ := hF.value ho
  obtain ⟨u, hj, hold'⟩ := hG.value ho'
  have hgrows : Grows F G := specAll_invariant (I := Grows F)
    (fun G H op hG hop => hG.trans (step_grows hop)) later F G (Grows.refl F) hspec
  rw [hold.capacity, hold'.capacity]
  exact capacityFor_mono (hgrows.peak i t u hi hj)

/-- Constructed with 3 elements, resized to 5, popped: the capacity is the one for 5 elements. -/
theorem capacity_law_resized : ∃ s o,
    Returns (runAll (Op.run (Platform.zeroed 0) (Element.builtin 0))
      [.construct 3 (.value 7), .resize 0 5 (.value 1), .popBack 0]) Store.empty () s ∧
    s.objects.entry 0 = some o ∧ Lawful s.heap o 4 5 := by
  obtain ⟨s, hret, hs⟩ := (capacity_law (Platform.zeroed 0) (Platform.zeroed_generous 0)
    (Element.builtin 0) [.construct 3 (.value 7), .resize 0 5 (.value 1), .popBack 0] []).1
  have h0 := hs 0
  cases ho : s.objects.entry 0 with
  | none =>
      rw [ho] at h0
      cases h0
  | some o =>
      rw [ho] at h0
      cases h0 with
      | some hlaw => exact ⟨s, o, hret, ho, hlaw⟩

/-- A vector that has never held anything has peak 0, and its capacity, 0, is not less than twice
    that. -/
theorem capacity_not_lt_twice_peak : ∃ s F o t,
    Returns (runAll (Op.run (Platform.zeroed 0) (Element.builtin 0)) [.default]) Store.empty () s ∧
    specAll (step (Element.builtin 0)) Table.empty [.default] = .ok F ∧
    s.objects.entry 0 = some o ∧ F.entry 0 = some t ∧ ¬ o.capacity_ < 2 * t.peak :=
  ⟨_, _, ⟨0, 0, none⟩, Cells.empty, rfl, rfl, rfl, rfl, by decide⟩

end LinuxSamples.Vector
