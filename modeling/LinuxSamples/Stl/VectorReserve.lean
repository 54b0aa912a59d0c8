import LinuxSamples.Stl.VectorElements

set_option autoImplicit false

/-! # What `reserve` does to the elements of an `fbcstd::vector`

`reserve` releases the buffer and takes a new one without copying; `push_back` and `resize` save the
elements around it, a caller cannot. Called directly it keeps the elements when it does not reallocate,
or when the new array happens to hold them. A run in which every `reserve` is of this kind shows what
the run without them shows: the machine of the first has larger peaks, and the same lists. -/

namespace LinuxSamples.Vector

open LinuxSamples.Program LinuxSamples.Memory

variable {T : Type} {P : Platform T} {E : Element T} {s s' : Store Fields T}
  {F G : Table (Cells T)} {i j n : Nat} {o : Fields} {t u : Cells T}

/-! ## One call -/

/-- The condition under which `reserve(n)` keeps the elements: nothing is reallocated, or the new array
    starts with them, as it does when there are none. -/
def KeepsElements (P : Platform T) (s : Store Fields T) (o : Fields) (n : Nat) : Prop :=
  n ≤ o.capacity_ ∨ fresh P s o.size_ = elements s o

/-- `reserve(n)` leaves the size and the elements as they were. -/
def Preserves (P : Platform T) (E : Element T) (s : Store Fields T) (i n : Nat) (o : Fields) : Prop :=
  ∃ s' o', Returns (Op.run P E (.reserve i n)) s () s' ∧ s'.objects.entry i = some o' ∧
    o'.size_ = o.size_ ∧ elements s' o' = elements s o

theorem reserve_preserves_iff (hP : P.Generous) {ops : List (Op T)}
    (hrun : Returns (runAll (Op.run P E) ops) Store.empty () s) (ho : s.objects.entry i = some o)
    (hn : n ≤ maxRequest) : Preserves P E s i n o ↔ KeepsElements P s o n := by
  obtain ⟨F, h⟩ := reachable_represents hrun
  obtain ⟨t, hi, hold⟩ := h.value ho
  obtain ⟨slots, hp, hlen, _⟩ := hold.buffer
  by_cases hcap : n ≤ o.capacity_
  · exact iff_of_true ⟨s, o, reserve_noop ho hcap, ho, rfl, rfl⟩ (Or.inl hcap)
  · have hlt : o.capacity_ < n := by omega
    have hret := reserve_grows hP ho hp hlt hn
    -- the new elements are what the platform leaves in the new array
    have helems : elements (reserved P s i o n) ⟨o.size_, leastPow n, some s.heap.next⟩
        = fresh P s o.size_ := by
      have hfits := t.fits_capacity
      have hpow := le_leastPow n
      rw [elements, slotsOf_eq (p := some s.heap.next) reserved_array]
      refine take_fresh ?_
      rw [hold.size]
      rw [hold.capacity] at hlt
      omega
    rw [KeepsElements, or_iff_right hcap, ← helems]
    have hentry := Table.set_entry_self ho (⟨o.size_, leastPow n, some s.heap.next⟩ : Fields)
    constructor
    · rintro ⟨s', o', hret', ho', _, hsame⟩
      obtain ⟨_, rfl⟩ := hret.unique hret'
      rw [reserved, hentry] at ho'
      cases ho'
      exact hsame
    · exact fun hsame => ⟨_, _, hret, hentry, rfl, hsame⟩

/-- `reserve(n)` never ends exactly if its loop is not left after any number of tests; whether the
    allocation behind the loop is refused makes no difference. -/
theorem reserve_diverges_iff {slots : List T} (ho : s.objects.entry i = some o)
    (hp : s.heap.PointsTo o.buffer_ slots) : Fails (reserve P i n) s .diverges ↔
      ∀ tests, capacityAfter tests o.capacity_ n = none := by
  by_cases hcap : n ≤ o.capacity_
  · refine iff_of_false (reserve_noop ho hcap).not_fails fun hnone => ?_
    have hsome := hnone 64
    rw [capacityAfter_room (Or.inl hcap)] at hsome
    cases hsome
  · by_cases hn : n ≤ maxRequest
    · have hret := reserve_grows P.generous_generous ho hp (by omega) hn
      refine iff_of_false (fun hfail => ?_) fun hnone => ?_
      · rcases reserve_orThrows P i n s with heq | ⟨s', hthrow⟩
        · obtain ⟨s', hfail⟩ := hfail
          exact hret.not_fails ⟨s', heq.symm.trans hfail⟩
        · obtain ⟨s'', hfail⟩ := hfail
          rw [hthrow] at hfail
          cases hfail
      · have hsome := hnone 64
        rw [capacityAfter_room (Or.inr hn)] at hsome
        cases hsome
    · exact iff_of_true (reserve_diverges ho hp (by omega) (by omega))
        (capacityAfter_diverges (by omega) (by omega))

/-! ## The machine with larger peaks -/

/-- The same list, with a peak at least as large. -/
structure Wider (t u : Cells T) : Prop where
  elems : t.elems = u.elems
  peak : u.peak ≤ t.peak

theorem Wider.capacity_le (h : Wider t u) : u.capacity ≤ t.capacity := capacityFor_mono h.peak

theorem Wider.refl (t : Cells T) : Wider t t := ⟨rfl, Nat.le_refl _⟩

theorem Wider.assign {t' u' : Cells T} (h : Wider t u) (h' : Wider t' u') :
    Wider (t.assign t') (u.assign u') := by
  refine ⟨h'.elems, ?_⟩
  have hpeak := h.peak
  show max _ _ ≤ max _ _
  rw [h'.elems]
  omega

theorem Wider.selfAssign (h : Wider t u) (E : Element T) :
    Wider (t.selfAssign E) (u.selfAssign E) :=
  ⟨congrArg (List.map E.selfAssign) h.elems, h.peak⟩

theorem Wider.pushBack (h : Wider t u) (x : T) : Wider (t.pushBack x) (u.pushBack x) := by
  refine ⟨congrArg (· ++ [x]) h.elems, ?_⟩
  have hpeak := h.peak
  show max _ _ ≤ max _ _
  rw [h.elems]
  omega

theorem Wider.popBack (h : Wider t u) : Wider t.popBack u.popBack :=
  ⟨congrArg List.dropLast h.elems, h.peak⟩

theorem Wider.resize (h : Wider t u) (n : Nat) (x : T) : Wider (t.resize n x) (u.resize n x) := by
  refine ⟨?_, ?_⟩
  · rw [Cells.resize_elems, Cells.resize_elems, h.elems]
  · have hpeak := h.peak
    show max _ _ ≤ max _ _
    omega

theorem Wider.clear (h : Wider t u) : Wider t.clear u.clear := ⟨rfl, h.peak⟩

theorem Wider.write (h : Wider t u) (k : Nat) (x : T) : Wider (t.write k x) (u.write k x) :=
  ⟨congrArg (fun elems => elems.set k x) h.elems, h.peak⟩

/-- The same family of lists, with peaks at least as large. -/
structure WiderAll (F G : Table (Cells T)) : Prop where
  next : F.next = G.next
  entry : ∀ i, Option.Rel Wider (F.entry i) (G.entry i)

theorem WiderAll.refl (F : Table (Cells T)) : WiderAll F F := by
  refine ⟨rfl, fun i => ?_⟩
  cases F.entry i with
  | none => exact Option.Rel.none
  | some t => exact Option.Rel.some ⟨rfl, Nat.le_refl _⟩

theorem WiderAll.add (h : WiderAll F G) (ht : Wider t u) : WiderAll (F.add t) (G.add u) := by
  refine ⟨congrArg (· + 1) h.next, ?_⟩
  rw [Table.add_entry, Table.add_entry, h.next]
  exact rel_update h.entry (Option.Rel.some ht) G.next

theorem WiderAll.set (h : WiderAll F G) (ht : Wider t u) (i : Nat) :
    WiderAll (F.set i t) (G.set i u) := by
  have hboth : Option.Rel Wider ((F.entry i).map fun _ => t) ((G.entry i).map fun _ => u) := by
    have hi := h.entry i
    cases hF : F.entry i with
    | none =>
        rw [(rel_none_iff hi).1 hF]
        exact Option.Rel.none
    | some t' =>
        rw [hF] at hi
        obtain ⟨u', hG, _⟩ := rel_some_left hi
        rw [hG]
        exact Option.Rel.some ht
  exact ⟨h.next, rel_update h.entry hboth i⟩

theorem WiderAll.erase (h : WiderAll F G) (i : Nat) : WiderAll (F.erase i) (G.erase i) :=
  ⟨h.next, rel_update h.entry Option.Rel.none i⟩

theorem WiderAll.look (h : WiderAll F G) (i : Nat) : Follows Wider (look F i) (look G i) := by
  intro u hu
  have hrel := h.entry i
  rw [look_eq hu] at hrel
  obtain ⟨t, hF, ht⟩ := rel_some_right hrel
  exact ⟨t, by rw [Vector.look, hF], ht⟩

theorem Wider.find (h : Wider t u) (a : Access) : a.find t = a.find u := by
  rw [Access.find, Access.find, h.elems]

/-- Arguments have the same values. -/
theorem WiderAll.eval (h : WiderAll F G) (val : Arg T) : Follows Eq (val.eval F) (val.eval G) := by
  cases val with
  | value x => exact Follows.refl _
  | element j a =>
      refine (h.look j).bind fun t u ht => ?_
      rw [ht.find]
      exact Follows.refl _

/-- A statement other than `reserve` that the machine with the smaller peaks makes, the other one makes
    too. -/
theorem step_wider (h : WiderAll F G) (op : Op T) (hop : ∀ i n, op ≠ .reserve i n) :
    Follows WiderAll (step E F op) (step E G op) := by
  cases op with
  | default => exact Follows.ok (h.add (Wider.refl _))
  | construct n val =>
      refine (h.eval val).bind ?_
      rintro ⟨x, place⟩ _ rfl
      exact (Follows.refl _).bind fun _ _ _ => Follows.ok (h.add (Wider.refl _))
  | copy j =>
      exact (h.look j).bind fun _ _ ht => Follows.ok (h.add ((Wider.refl _).assign ht))
  | assign i j =>
      refine (h.look j).bind fun u u' hu => (h.look i).bind fun t t' ht => ?_
      by_cases hij : i = j
      · rw [if_pos hij, if_pos hij]
        exact Follows.ok (h.set (ht.selfAssign E) i)
      · rw [if_neg hij, if_neg hij]
        exact Follows.ok (h.set (ht.assign hu) i)
  | pushBack i val =>
      refine (h.eval val).bind ?_
      rintro ⟨x, place⟩ _ rfl
      refine (h.look i).bind fun t u ht => ?_
      rw [ht.elems]
      -- with the smaller peaks the vector is full whenever it is with the larger ones
      refine (Follows.refl _).bind fun _ _ _ => Follows.unless (fun hfull => ?_) fun _ =>
        Follows.ok (h.set (ht.pushBack x) i)
      exact ⟨hfull.1, ht.capacity_le.trans hfull.2⟩
  | popBack i =>
      refine (h.look i).bind fun t u ht => ?_
      rw [ht.elems]
      exact Follows.unless id fun _ => Follows.ok (h.set ht.popBack i)
  | resize i n val =>
      refine (h.eval val).bind ?_
      rintro ⟨x, place⟩ _ rfl
      exact (h.look i).bind fun t u ht => (Follows.refl _).bind fun _ _ _ =>
        Follows.ok (h.set (ht.resize n x) i)
  | clear i => exact (h.look i).bind fun t u ht => Follows.ok (h.set ht.clear i)
  | write i a val =>
      refine (h.eval val).bind ?_
      rintro ⟨x, place⟩ _ rfl
      refine (h.look i).bind fun t u ht => ?_
      rw [ht.find]
      refine (Follows.refl _).bind ?_
      rintro ⟨k, y⟩ _ rfl
      exact Follows.ok (h.set (ht.write k _) i)
  | reserve i n => exact absurd rfl (hop i n)
  | destroy i => exact (h.look i).bind fun _ _ _ => Follows.ok (h.erase i)

/-! ## Runs with and without `reserve` -/

/-- The statement is a `reserve`. -/
def Op.isReserve : Op T → Bool
  | .reserve _ _ => true
  | _ => false

/-- The run without its `reserve` calls. -/
def withoutReserves (ops : List (Op T)) : List (Op T) := ops.filter fun op => !op.isReserve

theorem Op.eq_reserve {op : Op T} (h : op.isReserve = true) : ∃ i n, op = .reserve i n := by
  cases op with
  | reserve i n => exact ⟨i, n, rfl⟩
  | _ => cases h

theorem Op.ne_reserve {op : Op T} (h : op.isReserve = false) (i n : Nat) : op ≠ .reserve i n := by
  rintro rfl
  cases h

/-- In the run of `ops` from `s`, every `reserve(n)` is called on an existing vector, for at most
    `2 ^ 63` elements, under the condition that keeps the elements. -/
def Reserving (P : Platform T) (E : Element T) : List (Op T) → Store Fields T → Prop
  | [], _ => True
  | op :: rest, s =>
      (∀ i n, op = .reserve i n →
        ∃ o, s.objects.entry i = some o ∧ n ≤ maxRequest ∧ KeepsElements P s o n) ∧
      ∀ s₁, Returns (op.run P E) s () s₁ → Reserving P E rest s₁

theorem Reserving.cons {op : Op T} {rest : List (Op T)} {s₁ : Store Fields T}
    (hop : ∀ i n, op = .reserve i n →
      ∃ o, s.objects.entry i = some o ∧ n ≤ maxRequest ∧ KeepsElements P s o n)
    (hret : Returns (op.run P E) s () s₁) (h : Reserving P E rest s₁) :
    Reserving P E (op :: rest) s := by
  refine ⟨hop, fun s₂ hret₂ => ?_⟩
  obtain ⟨_, rfl⟩ := hret.unique hret₂
  exact h

/-- The same vectors with the same elements, whatever their capacities. -/
def SameContents (s s' : Store Fields T) : Prop :=
  ∀ i, Option.Rel (fun o o' => o.size_ = o'.size_ ∧ elements s o = elements s' o')
    (s.objects.entry i) (s'.objects.entry i)

theorem WiderAll.sameContents (hFG : WiderAll F G) (h : Represents (model T True) s F)
    (h' : Represents (model T True) s' G) : SameContents s s' := by
  intro i
  cases hs : s.objects.entry i with
  | none =>
      have hF := (rel_none_iff (h.holds i)).1 hs
      rw [h'.lookup_none ((rel_none_iff (hFG.entry i)).1 hF)]
      exact Option.Rel.none
  | some o =>
      obtain ⟨t, hF, hold⟩ := h.value hs
      have hrel := hFG.entry i
      rw [hF] at hrel
      obtain ⟨u, hG, ht⟩ := rel_some_left hrel
      obtain ⟨o', ho', hold'⟩ := h'.lookup hG
      rw [ho']
      refine Option.Rel.some ⟨?_, ?_⟩
      · rw [hold.size, hold'.size, ht.elems]
      · rw [hold.elements, hold'.elements, ht.elems]

/-- A `reserve` that keeps the elements only raises the peak. -/
theorem reserve_wider (hP : P.Generous) (h : Represents (model T True) s F)
    (ho : s.objects.entry i = some o) (hn : n ≤ maxRequest) (hkeep : KeepsElements P s o n)
    (hFG : WiderAll F G) : ∃ s₁ F₁, Returns (Op.run P E (.reserve i n)) s () s₁ ∧
      Represents (model T True) s₁ F₁ ∧ WiderAll F₁ G := by
  obtain ⟨t, hi, hold⟩ := h.value ho
  have hx : n ≤ t.capacity ∨ fresh P s t.elems.length = t.elems := by
    rw [← hold.capacity, ← hold.elements, hold.elements_length]
    exact hkeep
  obtain ⟨s₁, hret, h₁⟩ := reserve_spec hP h hi hn fun _ => hx
  refine ⟨s₁, _, hret, h₁, hFG.next, fun j => ?_⟩
  have hrel := hFG.entry j
  by_cases hji : j = i
  · subst hji
    rw [Table.set_entry_self hi]
    rw [hi] at hrel
    obtain ⟨u, hG, ht⟩ := rel_some_left hrel
    rw [hG]
    exact Option.Rel.some ⟨ht.elems, ht.peak.trans (Nat.le_max_left ..)⟩
  · rw [Table.set_entry hi, Function.update_of_ne hji]
    exact hrel

/-- The run with the `reserve` calls follows the run without them. -/
theorem reserves_follow (hP : P.Generous) (hE : E.Copies) (ops : List (Op T)) :
    ∀ (s s' s'₁ : Store Fields T) (F G : Table (Cells T)), Represents (model T True) s F →
      Represents (model T True) s' G → WiderAll F G → Reserving P E ops s →
      Returns (runAll (Op.run P E) (withoutReserves ops)) s' () s'₁ →
      ∃ s₁, Returns (runAll (Op.run P E) ops) s () s₁ ∧ SameContents s₁ s'₁ := by
  induction ops with
  | nil =>
      intro s s' s'₁ F G h h' hFG _ hret
      obtain ⟨_, rfl⟩ := Returns.pure_inv hret
      exact ⟨s, Returns.pure () s, hFG.sameContents h h'⟩
  | cons op rest ih =>
      rintro s s' s'₁ F G h h' hFG ⟨hop, hrest⟩ hret
      cases hres : op.isReserve with
      | true =>
          obtain ⟨i, n, rfl⟩ := Op.eq_reserve hres
          obtain ⟨o, ho, hn, hkeep⟩ := hop i n rfl
          obtain ⟨s₁, F₁, hret₁, h₁, hF₁⟩ := reserve_wider (E := E) hP h ho hn hkeep hFG
          obtain ⟨s₂, hret₂, hsame⟩ := ih s₁ s' s'₁ F₁ G h₁ h' hF₁ (hrest s₁ hret₁) hret
          exact ⟨s₂, Returns.bind hret₁ hret₂, hsame⟩
      | false =>
          have hne := Op.ne_reserve hres
          rw [withoutReserves, List.filter_cons_of_pos (by rw [hres]; rfl)] at hret
          obtain ⟨_, s'₂, hret', hret''⟩ := Returns.bind_inv hret
          -- both machines make the step, and the code follows both
          obtain ⟨G₁, hG₁, h'₁⟩ := (run_meets hP (fun _ => hE) h' op
            fun _ i n _ he => absurd he (hne i n)).of_returns hret'
          obtain ⟨F₁, hF₁, hFG₁⟩ := step_wider (E := E) hFG op hne G₁ hG₁
          have hmeets := run_meets hP (fun _ => hE) h op fun _ i n _ he => absurd he (hne i n)
          rw [hF₁] at hmeets
          obtain ⟨s₁, hret₁, h₁⟩ := hmeets
          obtain ⟨s₂, hret₂, hsame⟩ := ih s₁ s'₂ s'₁ F₁ G₁ h₁ h'₁ hFG₁ (hrest s₁ hret₁) hret''
          exact ⟨s₂, Returns.bind hret₁ hret₂, hsame⟩

/-- **`reserve` and the elements.** Called on a vector of any reachable store, `reserve(n)` leaves its size
    and elements exactly when nothing is reallocated or the new array happens to hold them; and a run
    in which every `reserve` is called so returns when the run without these calls does, with the same
    contents. -/
theorem reserve_frame (hP : P.Generous) (hE : E.Copies) :
    (∀ ops s i o n, Returns (runAll (Op.run P E) ops) Store.empty () s →
      s.objects.entry i = some o → n ≤ maxRequest →
      (Preserves P E s i n o ↔ KeepsElements P s o n)) ∧
    ∀ ops s', Reserving P E ops Store.empty →
      Returns (runAll (Op.run P E) (withoutReserves ops)) Store.empty () s' →
      ∃ s, Returns (runAll (Op.run P E) ops) Store.empty () s ∧ SameContents s s' :=
  ⟨fun _ _ _ _ _ hrun ho hn => reserve_preserves_iff hP hrun ho hn,
    fun ops s' hres hret => reserves_follow hP hE ops Store.empty Store.empty s' Table.empty Table.empty
      Represents.empty Represents.empty (WiderAll.refl _) hres hret⟩

/-- `vector<int> v(3, 7); v.reserve(4); v.push_back(3);` and the run without the `reserve`. -/
theorem reserve_frame_three : ∃ s s',
    Returns (runAll (Op.run (Platform.zeroed 0) (Element.builtin 0))
      [.construct 3 (.value 7), .reserve 0 4, .pushBack 0 (.value 3)]) Store.empty () s ∧
    Returns (runAll (Op.run (Platform.zeroed 0) (Element.builtin 0))
      [.construct 3 (.value 7), .pushBack 0 (.value 3)]) Store.empty () s' ∧ SameContents s s' := by
  have hstart : ∃ s₁ s₂, Returns (Op.run (Platform.zeroed 0) (Element.builtin 0)
      (.construct 3 (.value 7))) Store.empty () s₁ ∧ s₁.objects.entry 0 = some ⟨3, 4, some 0⟩ ∧
      Returns (Op.run (Platform.zeroed 0) (Element.builtin 0) (.reserve 0 4)) s₁ () s₂ :=
    ⟨_, _, rfl, rfl, rfl⟩
  obtain ⟨s₁, s₂, hconstruct, ho, hreserve⟩ := hstart
  have hthree : ∀ i n, (Op.reserve 0 4 : Op Nat) = .reserve i n →
      ∃ o, s₁.objects.entry i = some o ∧ n ≤ maxRequest ∧
        KeepsElements (Platform.zeroed 0) s₁ o n := by
    intro i n hop
    cases hop
    exact ⟨⟨3, 4, some 0⟩, ho, by decide, Or.inl (Nat.le_refl 4)⟩
  have hres : Reserving (Platform.zeroed 0) (Element.builtin 0)
      [.construct 3 (.value 7), .reserve 0 4, .pushBack 0 (.value 3)] Store.empty := by
    refine Reserving.cons (fun i n hop => ?_) hconstruct (Reserving.cons hthree hreserve
      ⟨fun i n hop => ?_, fun _ _ => trivial⟩)
    · cases hop
    · cases hop
  obtain ⟨s, hret, hsame⟩ := (reserve_frame (Platform.zeroed_generous 0)
    (Element.builtin_copies 0)).2 [.construct 3 (.value 7), .reserve 0 4, .pushBack 0 (.value 3)] _
    hres rfl
  exact ⟨s, _, hret, rfl, hsame⟩

/-- `vector<int> v(3, 7); v.reserve(5);`, where new memory holds zeros. -/
theorem reserve_loses_elements : ∃ s s' o o',
    Returns (runAll (Op.run (Platform.zeroed 0) (Element.builtin 0)) [.construct 3 (.value 7)])
      Store.empty () s ∧ s.objects.entry 0 = some o ∧ elements s o = [7, 7, 7] ∧
    Returns (Op.run (Platform.zeroed 0) (Element.builtin 0) (.reserve 0 5)) s () s' ∧
    s'.objects.entry 0 = some o' ∧ elements s' o' = [0, 0, 0] ∧
    ¬ Preserves (Platform.zeroed 0) (Element.builtin 0) s 0 5 o := by
  have hstore : ∃ s s', Returns (runAll (Op.run (Platform.zeroed 0) (Element.builtin 0))
      [.construct 3 (.value 7)]) Store.empty () s ∧ s.objects.entry 0 = some ⟨3, 4, some 0⟩ ∧
      elements s ⟨3, 4, some 0⟩ = [7, 7, 7] ∧
      Returns (Op.run (Platform.zeroed 0) (Element.builtin 0) (.reserve 0 5)) s () s' ∧
      s'.objects.entry 0 = some ⟨3, 8, some 1⟩ ∧ elements s' ⟨3, 8, some 1⟩ = [0, 0, 0] :=
    ⟨_, _, rfl, rfl, rfl, rfl, rfl, rfl⟩
  obtain ⟨s, s', hrun, ho, helems, hret, ho', helems'⟩ := hstore
  refine ⟨s, s', _, _, hrun, ho, helems, hret, ho', helems', ?_⟩
  rintro ⟨s₁, o₁, hret₁, ho₁, _, hsame⟩
  obtain ⟨_, rfl⟩ := hret.unique hret₁
  rw [ho'] at ho₁
  cases ho₁
  rw [helems, helems'] at hsame
  cases hsame

end LinuxSamples.Vector
