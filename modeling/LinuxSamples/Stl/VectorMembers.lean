import LinuxSamples.Stl.VectorSpec

set_option autoImplicit false

/-! # Constructors, element access and observers of `fbcstd::vector`

The constructors add an object to the family; `at`, `[]`, `front` and `back` lead to the slot of an
element or abort; and the observers return what the elements give. -/

namespace LinuxSamples.Vector

open LinuxSamples.Program LinuxSamples.Memory

variable {T : Type} {P : Platform T} {E : Element T} {exact : Prop} {s : Store Fields T}
  {F : Table (Cells T)} {i j : Nat} {o : Fields} {t u : Cells T}

/-! ## Constructors -/

theorem default_spec (h : Represents (model T exact) s F) :
    ∃ s', Returns default s F.next s' ∧ s'.heap = s.heap ∧
      Represents (model T exact) s' (F.add Cells.empty) := by
  have hret := newObject_returns s (⟨0, 0, none⟩ : Fields)
  rw [← h.next] at hret
  have hb : Rebinds (model T exact) F.next (some ⟨0, 0, none⟩) s
      ⟨s.objects.add ⟨0, 0, none⟩, s.heap⟩ := by
    refine ⟨by rw [h.next]; rfl, fun _ _ _ => rfl, fun o c ho hc => ?_⟩
    cases ho
    cases hc
  refine ⟨_, hret, rfl, h.add hb rfl ⟨rfl, rfl, Nat.zero_le _, ?_, [], rfl, rfl, fun _ => rfl⟩⟩
  exact ⟨fun _ => rfl, fun _ => rfl⟩

/-- `vector(n, val)` holds `n` copies of `val`. -/
theorem construct_spec (hP : P.Generous) (hE : exact → E.Copies)
    (h : Represents (model T exact) s F) {n : Nat} (hn : n ≤ maxRequest) {val : Ref T} {x y : T}
    (hread : Returns val.read s x s) (hxy : exact → x = y) :
    ∃ s', Returns (construct P E n val) s F.next s' ∧
      Represents (model T exact) s' (F.add (Cells.replicate n y)) := by
  obtain ⟨s₀, hnew, hheap, h₀⟩ := default_spec h
  obtain ⟨o, ho, hold⟩ := h₀.lookup (F.add_entry_self _)
  obtain ⟨s₁, o₁, slots, hret, hr, _⟩ := reserve_roomy hP ho hold hn
  -- the new object has no buffer yet, so `val` is outside it
  have hnull : o.buffer_ = none := hold.null.2 rfl
  obtain ⟨hread₁, hout⟩ := hr.read (Ref.read_congr hread fun _ _ _ _ => by rw [hheap])
    fun c hc => by rw [hnull] at hc; cases hc
  have ho₁ : s₁.objects.entry F.next = some o₁ := hr.entry ho
  have hroom : n ≤ slots.length := hr.le_length
  have hmod := modifyObject_returns ho₁ fun v : Fields => { v with size_ := n }
  have hfill := fill_returns (E := E) val (s := s₁.put F.next { o₁ with size_ := n })
    (Store.put_entry ho₁ _) hr.buffer (Nat.zero_le n) hroom
    (Ref.read_congr hread₁ fun _ _ _ _ => rfl) hout
  have hlen : (Cells.replicate n y).elems.length = n := List.length_replicate
  have hcall : Returns (construct P E n val) s F.next
      ((s₁.put F.next { o₁ with size_ := n }).writeAt o₁.buffer_
        (updateRange (fun _ old => E.assign old x) 0 n slots)) :=
    Returns.bind hnew (Returns.bind hret (Returns.bind hmod (Returns.bind hfill
      (Returns.pure _ _))))
  have hnow := updateRange_length (fun (_ : Nat) old => E.assign old x) 0 n slots
  refine ⟨_, hcall, ?_⟩
  rw [← Table.add_set F Cells.empty]
  refine hr.represents _ h₀ (F.add_entry_self _) ho hn (Cells.replicate n y) (Nat.zero_max n).symm hnow
    (fun hx => ?_) ?_ ?_
  · rw [hlen, take_fill (hE hx) (Nat.zero_le n) hroom, hxy hx]
    rfl
  · rw [hlen, Store.writeAt_objects, Store.put_objects, hr.objects, Table.set_set]
  · rw [Store.writeAt_put]
    rfl

theorem construct_never_ends (h : Represents (model T exact) s F) {n : Nat} (hn : maxRequest < n)
    (val : Ref T) : Fails (construct P E n val) s .diverges := by
  obtain ⟨s₀, hnew, _, h₀⟩ := default_spec h
  exact Fails.bind_right hnew (Fails.bind_left (reserve_never_ends h₀ (F.add_entry_self _) hn))

/-- The copy constructor is the default constructor followed by `operator=`. -/
theorem copyConstruct_eq (x : Nat) : copyConstruct P E x = (do
    let this ← default
    operatorAssign P E this x
    return this) := by
  simp only [copyConstruct, default, operatorAssign, bind_assoc]

theorem copyConstruct_spec (hP : P.Generous) (hE : exact → E.Copies)
    (h : Represents (model T exact) s F) (hj : F.entry j = some u) :
    ∃ s', Returns (copyConstruct P E j) s F.next s' ∧
      Represents (model T exact) s' (F.add (Cells.empty.assign u)) := by
  obtain ⟨s₀, hnew, _, h₀⟩ := default_spec h
  have hne : F.next ≠ j := Nat.ne_of_gt (Table.lt_next hj)
  obtain ⟨s₁, hret, h₁⟩ :=
    operatorAssign_spec hP hE h₀ (F.add_entry_self _) hne (Table.add_entry_old hj _)
  rw [Table.add_set] at h₁
  refine ⟨s₁, ?_, h₁⟩
  rw [copyConstruct_eq]
  exact Returns.bind hnew (Returns.bind hret (Returns.pure _ _))

/-! ## Element access -/

/-- The four ways to name an element. -/
inductive Access
  | at' (k : Nat)
  | index (k : Nat)
  | front
  | back
  deriving DecidableEq, Repr

/-- The reference the member function returns. -/
def Access.slot (a : Access) (this : Nat) : VecProg T Slot :=
  match a with
  | .at' k => Vector.at' this k
  | .index k => Vector.index this k
  | .front => Vector.front this
  | .back => Vector.back this

/-- The value of the named element. -/
def Access.read (a : Access) (this : Nat) : VecProg T T := do
  let p ← a.slot this
  load p.array p.index

/-- The position named in a list of `n` elements, if there is one. -/
def Access.position (a : Access) (n : Nat) : Option Nat :=
  match a with
  | .at' k => if k < n then some k else none
  | .index k => if k < n then some k else none
  | .front => if n = 0 then none else some 0
  | .back => if n = 0 then none else some (n - 1)

theorem Access.position_lt {a : Access} {n k : Nat} (h : a.position n = some k) : k < n := by
  cases a with
  | at' m | index m =>
      simp only [position, Option.ite_none_right_eq_some, Option.some.injEq] at h
      omega
  | front | back =>
      simp only [position, Option.ite_none_left_eq_some, Option.some.injEq] at h
      omega

theorem Access.slot_missing (hi : s.objects.entry i = none) (a : Access) :
    Fails (a.slot i) s .noObject := by
  cases a with
  | at' m | index m | front | back => exact Fails.bind_left (object_fails hi)

section Access

variable (h : Represents (model T exact) s F) (hi : F.entry i = some t)

include h hi in
theorem Access.slot_returns {a : Access} {k : Nat} (hk : a.position t.elems.length = some k) :
    ∃ o, s.objects.entry i = some o ∧ Returns (a.slot i) s ⟨o.buffer_, k⟩ s := by
  obtain ⟨o, ho, hold⟩ := h.lookup hi
  refine ⟨o, ho, ?_⟩
  rw [← hold.size] at hk
  cases a with
  | at' m | index m =>
      simp only [position, Option.ite_none_right_eq_some, Option.some.injEq] at hk
      obtain ⟨hlt, rfl⟩ := hk
      refine Returns.bind (object_returns ho) ?_
      rw [if_neg (by omega)]
      exact Returns.pure _ s
  | front | back =>
      simp only [position, Option.ite_none_left_eq_some, Option.some.injEq] at hk
      obtain ⟨hne, rfl⟩ := hk
      refine Returns.bind (object_returns ho) ?_
      rw [if_neg hne]
      exact Returns.pure _ s

include h hi in
/-- `front` and `back` of an empty vector and `at` and `[]` past the end abort. -/
theorem Access.slot_aborts {a : Access} (hk : a.position t.elems.length = none) :
    Fails (a.slot i) s .abort := by
  obtain ⟨o, ho, hold⟩ := h.lookup hi
  rw [← hold.size] at hk
  cases a with
  | at' m | index m =>
      simp only [position, ite_eq_right_iff, reduceCtorEq, imp_false] at hk
      refine Fails.bind_right (object_returns ho) ?_
      rw [if_pos (by omega)]
      exact ⟨s, rfl⟩
  | front | back =>
      simp only [position, ite_eq_left_iff, reduceCtorEq, imp_false, Decidable.not_not] at hk
      refine Fails.bind_right (object_returns ho) ?_
      rw [if_pos hk]
      exact ⟨s, rfl⟩

include h hi in
theorem slot_read (ho : s.objects.entry i = some o) {k : Nat} (hk : k < t.elems.length) :
    ∃ x, Returns (Ref.read (.slot ⟨o.buffer_, k⟩)) s x s ∧ (exact → t.elems[k]? = some x) := by
  have hold := h.holds_at hi ho
  obtain ⟨slots, hp, hlen, htake⟩ := hold.buffer
  have hfits := t.fits_capacity
  have hx : slots[k]? = some slots[k] := List.getElem?_eq_getElem (by omega)
  refine ⟨slots[k], load_pointsTo hp hx, fun he => ?_⟩
  rw [← htake he, List.getElem?_take_of_lt hk]
  exact hx

include h hi in
theorem buffer_of_lt (ho : s.objects.entry i = some o) {k : Nat} (hk : k < t.elems.length) :
    ∃ b, o.buffer_ = some b := by
  have hold := h.holds_at hi ho
  have hfits := t.fits_capacity
  cases hb : o.buffer_ with
  | none =>
      have := hold.null.1 hb
      omega
  | some b => exact ⟨b, rfl⟩

include h hi in
/-- An assignment through a reference to element `k`. -/
theorem write_spec (hE : exact → E.Copies) (ho : s.objects.entry i = some o) {k : Nat}
    (hk : k < t.elems.length) {src : Ref T} {x y : T} (hread : Returns src.read s x s)
    (hxy : exact → (if src.isSlot ⟨o.buffer_, k⟩ then E.selfAssign x else x) = y) :
    ∃ s', Returns (assign E ⟨o.buffer_, k⟩ src) s () s' ∧
      Represents (model T exact) s' (F.set i (t.write k y)) := by
  have hold := h.holds_at hi ho
  obtain ⟨slots, hp, hlen, htake⟩ := hold.buffer
  have hfits := t.fits_capacity
  have hslot : slots[k]? = some slots[k] := List.getElem?_eq_getElem (by omega)
  obtain ⟨b, hb⟩ := buffer_of_lt h hi ho hk
  rw [hb] at hp hxy ⊢
  refine ⟨_, assign_returns (E := E) hp hslot hread, ?_⟩
  refine overwritten _ h hi ho (by rw [hb]; exact hp) (List.length_set ..) (t.write k y) rfl
    (fun hx => ?_) rfl ?_ (by rw [hb]; rfl)
  · rw [Cells.write_length, List.take_set, htake hx, Cells.write, ← hxy hx]
    split
    · rfl
    · rw [hE hx]
  · show s.objects = s.objects.set i { o with size_ := (t.write k y).elems.length }
    rw [Cells.write_length, ← hold.size]
    exact (Table.set_self ho).symm

end Access

/-! ## Observers -/

theorem size_spec (h : Represents (model T exact) s F) (hi : F.entry i = some t) :
    Returns (size i) s t.elems.length s := by
  obtain ⟨o, ho, hold⟩ := h.lookup hi
  rw [← hold.size]
  exact Returns.bind (object_returns ho) (Returns.pure _ s)

theorem empty_spec (h : Represents (model T exact) s F) (hi : F.entry i = some t) :
    Returns (empty i) s (t.elems.isEmpty) s := by
  obtain ⟨o, ho, hold⟩ := h.lookup hi
  have heq : t.elems.isEmpty = decide (o.size_ = 0) := by
    rw [hold.size]
    cases t.elems <;> rfl
  rw [heq]
  exact Returns.bind (object_returns ho) (Returns.pure _ s)

section Exact

variable (h : Represents (model T True) s F) (hi : F.entry i = some t)

include h hi in
/-- The value an element access leads to. -/
theorem Access.read_spec {a : Access} {k : Nat} {x : T}
    (hk : a.position t.elems.length = some k) (hx : t.elems[k]? = some x) :
    Returns (a.read i) s x s := by
  obtain ⟨o, ho, hslot⟩ := Access.slot_returns h hi hk
  obtain ⟨y, hread, hy⟩ := slot_read h hi ho (Access.position_lt hk)
  rw [hx] at hy
  cases hy trivial
  exact Returns.bind hslot hread

include h hi in
theorem get_spec {k : Nat} {x : T} (hx : t.elems[k]? = some x) : Returns (get i k) s x s := by
  obtain ⟨hk, _⟩ := List.getElem?_eq_some_iff.1 hx
  exact Access.read_spec (a := .index k) h hi (if_pos hk) hx

theorem scan_returns {p : Option Nat} {slots : List T} (hp : s.heap.PointsTo p slots) :
    ∀ count k, k + count ≤ slots.length →
      Returns (scan ⟨p, k⟩ count) s ((slots.drop k).take count) s := by
  intro count
  induction count with
  | zero =>
      intro k _
      rw [List.take_zero]
      exact Returns.pure [] s
  | succ count ih =>
      intro k hk
      have hx : slots[k]? = some slots[k] := List.getElem?_eq_getElem (by omega)
      rw [List.drop_eq_getElem_cons (by omega), List.take_succ_cons]
      exact Returns.bind (load_pointsTo hp hx)
        (Returns.bind (ih (k + 1) (by omega)) (Returns.pure _ s))

include h hi in
/-- Iterating from `begin()` to `end()` visits the elements in order. -/
theorem iterate_spec : Returns (iterate i) s t.elems s := by
  obtain ⟨o, ho, hold⟩ := h.lookup hi
  obtain ⟨slots, hp, hlen, htake⟩ := hold.buffer
  have hfits := t.fits_capacity
  have hscan := scan_returns hp t.elems.length 0 (by omega)
  rw [List.drop_zero, htake trivial, ← hold.size] at hscan
  exact Returns.bind (Returns.bind (object_returns ho) (Returns.pure _ s))
    (Returns.bind (Returns.bind (object_returns ho) (Returns.pure _ s)) hscan)

/-- The elementwise comparison of `operator==`. -/
def sameElems (E : Element T) (xs ys : List T) : Bool := xs.isEqv ys fun x y => !E.ne x y

theorem sameElems_of_length_ne {xs ys : List T} (hne : xs.length ≠ ys.length) :
    sameElems E xs ys = false := by
  induction xs generalizing ys with
  | nil =>
      cases ys with
      | nil => exact absurd rfl hne
      | cons y ys => rfl
  | cons x xs ih =>
      cases ys with
      | nil => rfl
      | cons y ys =>
          rw [sameElems, List.isEqv_cons_cons, ← sameElems, ih (by simpa using hne), Bool.and_false]

/-- When `!=` is inequality, the comparison decides equality of the lists. -/
theorem sameElems_iff (hne : ∀ x y, E.ne x y = true ↔ x ≠ y) {xs ys : List T} :
    sameElems E xs ys = true ↔ xs = ys := by
  induction xs generalizing ys with
  | nil => cases ys <;> simp [sameElems]
  | cons x xs ih =>
      cases ys with
      | nil => simp [sameElems]
      | cons y ys =>
          have hxy : E.ne x y = false ↔ x = y := by
            rw [← Bool.not_eq_true, hne, not_not]
          rw [sameElems, List.isEqv_cons_cons, ← sameElems, Bool.and_eq_true, ih, List.cons.injEq,
            Bool.not_eq_true', hxy]

variable (hj : F.entry j = some u)

include h hi hj in
theorem equalFrom_returns : ∀ count k, k + count = t.elems.length →
    t.elems.length = u.elems.length →
    Returns (equalFrom E i j k count) s (sameElems E (t.elems.drop k) (u.elems.drop k)) s := by
  intro count
  induction count with
  | zero =>
      intro k hk hlen
      rw [List.drop_of_length_le (by omega), List.drop_of_length_le (by omega)]
      exact Returns.pure true s
  | succ count ih =>
      intro k hk hlen
      have hkt : k < t.elems.length := by omega
      have hku : k < u.elems.length := by omega
      rw [List.drop_eq_getElem_cons hkt, List.drop_eq_getElem_cons hku, sameElems,
        List.isEqv_cons_cons, ← sameElems]
      refine Returns.bind (get_spec h hi (List.getElem?_eq_getElem hkt))
        (Returns.bind (get_spec h hj (List.getElem?_eq_getElem hku)) ?_)
      cases hne : E.ne t.elems[k] u.elems[k] with
      | true => exact Returns.pure false s
      | false => exact ih (k + 1) (by omega) hlen

include h hi hj in
theorem operatorEq_spec :
    Returns (operatorEq E i j) s (sameElems E t.elems u.elems) s := by
  refine Returns.bind (size_spec h hi) (Returns.bind (size_spec h hj) ?_)
  by_cases hlen : t.elems.length = u.elems.length
  · rw [if_neg (not_not.2 hlen)]
    exact equalFrom_returns h hi hj t.elems.length 0 (Nat.zero_add _) hlen
  · rw [if_pos hlen, sameElems_of_length_ne hlen]
    exact Returns.pure false s

include h hi hj in
theorem operatorNe_spec :
    Returns (operatorNe E i j) s (!sameElems E t.elems u.elems) s :=
  Returns.bind (operatorEq_spec h hi hj) (Returns.pure _ s)

end Exact

end LinuxSamples.Vector
