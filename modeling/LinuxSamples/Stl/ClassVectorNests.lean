import LinuxSamples.Stl.ClassVectorMembers

set_option autoImplicit false

/-! # Vectors and the objects in their slots

`Nests` says that the vectors hold the elements of a family, that the objects of the class are exactly those
in the slots of the vectors, each in one slot, and the arrays exactly the buffers of the vectors, each of
one vector. A call keeps this if it keeps its footprint (`Nests.called`), and so do constructors and
destructors. -/

namespace LinuxSamples.ClassVector

open LinuxSamples.Program LinuxSamples.Memory
open LinuxSamples.Vector (Fields Cells model maxRequest)

variable {τ X : Type}

/-! ## Slots -/

/-- Object `e` is in slot `k` of vector `i`. -/
def InSlot (s : Store Fields Nat) (i k e : Nat) : Prop :=
  ∃ o ids, s.objects.entry i = some o ∧ s.heap.PointsTo o.buffer_ ids ∧ ids[k]? = some e

/-- The history of a vector without its elements. -/
def blank (t : Cells X) : Cells Nat :=
  ⟨t.elems.map fun _ => 0, t.peak, by rw [List.length_map]; exact t.fits⟩

def blanks (F : Table (Cells X)) : Table (Cells Nat) where
  entry i := (F.entry i).map blank
  next := F.next
  fresh c hc := by rw [F.fresh c hc, Option.map_none]

@[simp] theorem blank_length (t : Cells X) : (blank t).elems.length = t.elems.length := List.length_map ..

@[simp] theorem blanks_entry (F : Table (Cells X)) (i : Nat) :
    (blanks F).entry i = (F.entry i).map blank := rfl

/-- The vectors of the first part hold the lists of `F`, their elements being the objects of `G`. -/
structure Nests (Shows : τ → Table X → Prop) (σ : State τ) (F : Table (Cells X)) (G : Table X) :
    Prop where
  vectors : Represents (model Nat False) σ.1 (blanks F)
  objects : Shows σ.2 G
  holding : ∀ i t, F.entry i = some t → ∃ o ids, Holding σ.1 G i o ids t.elems
  placed : ∀ e x, G.entry e = some x → ∃ i k, InSlot σ.1 i k e
  apart : ∀ i j k l e, InSlot σ.1 i k e → InSlot σ.1 j l e → i = j ∧ k = l
  arrays : ∀ c slots, σ.1.heap.array c = some slots → ∃ i, Owns (model Nat False) σ.1 i c

section Slots

variable {Shows : τ → Table X → Prop} {s s' : Store Fields Nat} {σ : State τ} {F : Table (Cells X)}
  {G : Table X} {i j k e : Nat} {o : Fields} {ids : List Nat}

theorem Row.inSlot (h : Row s G i o ids) : InSlot s i k e ↔ ids[k]? = some e := by
  constructor
  · rintro ⟨o', ids', ho, hp, hk⟩
    obtain rfl : o = o' := Option.some.inj (h.entry.symm.trans ho)
    obtain rfl := h.buffer.unique hp
    exact hk
  · exact fun hk => ⟨o, ids, h.entry, h.buffer, hk⟩

theorem not_inSlot (hi : s.objects.entry i = none) : ¬ InSlot s i k e := by
  rintro ⟨o, ids, ho, _⟩
  rw [hi] at ho
  cases ho

theorem Nests.empty {t : τ} (ht : Shows t Table.empty) :
    Nests Shows (Store.empty, t) Table.empty Table.empty where
  vectors := Represents.empty
  objects := ht
  holding _ _ hi := nomatch hi
  placed _ _ he := nomatch he
  apart _ _ _ _ _ h := absurd h (not_inSlot rfl)
  arrays _ _ hc := nomatch hc

theorem Nests.lookup (h : Nests Shows σ F G) (ho : σ.1.objects.entry i = some o) :
    ∃ t ids, F.entry i = some t ∧ Holding σ.1 G i o ids t.elems := by
  obtain ⟨u, hu, _⟩ := h.vectors.value ho
  rw [blanks_entry, Option.map_eq_some_iff] at hu
  obtain ⟨t, hi, _⟩ := hu
  obtain ⟨o', ids, hhold⟩ := h.holding i t hi
  obtain rfl : o = o' := Option.some.inj (ho.symm.trans hhold.entry)
  exact ⟨t, ids, hi, hhold⟩

/-- An object in a slot is there. -/
theorem Nests.alive (h : Nests Shows σ F G) (he : InSlot σ.1 i k e) : ∃ x, G.entry e = some x := by
  obtain ⟨o, ids, ho, hp, hk⟩ := he
  obtain ⟨t, ids', _, hhold⟩ := h.lookup ho
  obtain rfl := hp.unique hhold.buffer
  exact hhold.alive e (List.mem_of_getElem? hk)

theorem Nests.owner_ne (h : Nests Shows σ F G) {w : Fields} (hij : i ≠ j)
    (ho : σ.1.objects.entry i = some o) (hw : σ.1.objects.entry j = some w) (c : Nat)
    (hc : o.buffer_ = some c) : w.buffer_ ≠ some c := fun hc' =>
  hij (h.vectors.separate i j c ⟨o, ho, hc⟩ ⟨w, hw, hc'⟩)

theorem Nests.row_apart (h : Nests Shows σ F G) {w : Fields} {src : List Nat} (hij : i ≠ j)
    (hi : Row σ.1 G i o ids) (hj : Row σ.1 G j w src) : ∀ e ∈ src, e ∉ ids := by
  intro e he hmem
  obtain ⟨k, hk⟩ := List.mem_iff_getElem?.1 he
  obtain ⟨l, hl⟩ := List.mem_iff_getElem?.1 hmem
  exact hij (h.apart i j l k e (hi.inSlot.2 hl) (hj.inSlot.2 hk)).1

end Slots

/-! ## One vector changes -/

section Rebind

variable {Shows : τ → Table X → Prop} {σ σ' : State τ} {F F' : Table (Cells X)} {G G' : Table X}
  {i : Nat} {o' : Option Fields} {u' : Option (Cells X)} {ids ids' : List Nat}

/-- The slots of the other vectors are as before. -/
theorem Rebinds.inSlot_other (hr : Rebinds (model Nat False) i o' σ.1 σ'.1) (h : Nests Shows σ F G)
    {j k e : Nat} (hj : j ≠ i) : InSlot σ'.1 j k e ↔ InSlot σ.1 j k e := by
  have hentry : σ'.1.objects.entry j = σ.1.objects.entry j := by
    rw [hr.objects, Function.update_of_ne hj]
  have hsame : ∀ o, σ.1.objects.entry j = some o → ∀ c, o.buffer_ = some c →
      σ'.1.heap.array c = σ.1.heap.array c := fun o ho c hc =>
    hr.array_other h.vectors hj ⟨o, ho, hc⟩
  constructor
  · rintro ⟨o, slots, ho, hp, hk⟩
    rw [hentry] at ho
    exact ⟨o, slots, ho, hp.congr fun c hc => (hsame o ho c hc).symm, hk⟩
  · rintro ⟨o, slots, ho, hp, hk⟩
    exact ⟨o, slots, by rw [hentry, ho], hp.congr (hsame o ho), hk⟩

/-- **Update rule.** A call that rebinds vector `i` and trades the objects in its slots. -/
theorem Nests.rebind (h : Nests Shows σ F G) (σ' : State τ) (ids' : List Nat)
    (u' : Option (Cells X)) (hr : Rebinds (model Nat False) i o' σ.1 σ'.1)
    (hold : ∀ k e, InSlot σ.1 i k e ↔ ids[k]? = some e)
    (hnew : ∀ k e, InSlot σ'.1 i k e ↔ ids'[k]? = some e) (hx : Exchange G G' ids ids')
    (hgone : ∀ c, Owns (model Nat False) σ.1 i c → (∀ o, o' = some o → o.buffer_ ≠ some c) →
      σ'.1.heap.array c = none)
    (hG' : Shows σ'.2 G') (hF : F'.entry = Function.update F.entry i u')
    (hnext : F'.next = σ'.1.objects.next)
    (hv : Option.Rel (Vector.Holds False σ'.1.heap) o' (u'.map blank))
    (hhold : ∀ u, u' = some u → ∃ o, Holding σ'.1 G' i o ids' u.elems) : Nests Shows σ' F' G' := by
  have hblanks : (blanks F').entry = Function.update (blanks F).entry i (u'.map blank) := by
    funext j
    rw [blanks_entry, hF]
    by_cases hj : j = i
    · subst hj
      rw [Function.update_self, Function.update_self]
    · rw [Function.update_of_ne hj, Function.update_of_ne hj, blanks_entry]
  -- the objects in the slots of other vectors were not traded
  have hother : ∀ j k e, j ≠ i → InSlot σ.1 j k e → e ∉ ids ∧ e ∉ ids' ∧ G'.entry e = G.entry e := by
    intro j k e hj he
    have hids : e ∉ ids := by
      intro hmem
      obtain ⟨l, hl⟩ := List.mem_iff_getElem?.1 hmem
      exact hj (h.apart j i k l e he ((hold l e).2 hl)).1
    obtain ⟨x, hval⟩ := h.alive he
    obtain ⟨hids', hval'⟩ := hx.keeps hval hids
    exact ⟨hids, hids', hval'.trans hval.symm⟩
  refine ⟨h.vectors.rebind hr hblanks hnext hv, hG', fun j t hj => ?_, fun e x he => ?_,
    fun j l k m e hj hl => ?_, fun c slots hc => ?_⟩
  · rw [hF] at hj
    by_cases hji : j = i
    · subst hji
      rw [Function.update_self] at hj
      obtain ⟨o, hhold⟩ := hhold t hj
      exact ⟨o, ids', hhold⟩
    · rw [Function.update_of_ne hji] at hj
      obtain ⟨o, slots, hrow⟩ := h.holding j t hj
      have hsame : ∀ e ∈ slots, G'.entry e = G.entry e := by
        intro e he
        obtain ⟨k, hk⟩ := List.mem_iff_getElem?.1 he
        exact (hother j k e hji (hrow.inSlot.2 hk)).2.2
      refine ⟨o, slots, ⟨⟨?_, hrow.buffer.congr fun c hc =>
        hr.array_other h.vectors hji ⟨o, hrow.entry, hc⟩, hrow.length, hrow.null, hrow.nodup,
        fun e he => ?_⟩, hrow.fills.congr hsame, hrow.size, hrow.fits⟩⟩
      · rw [hr.objects, Function.update_of_ne hji, hrow.entry]
      · rw [hsame e he]
        exact hrow.alive e he
  · by_cases hids' : e ∈ ids'
    · obtain ⟨k, hk⟩ := List.mem_iff_getElem?.1 hids'
      exact ⟨i, k, (hnew k e).2 hk⟩
    · by_cases hids : e ∈ ids
      · rw [hx.gone e hids hids'] at he
        cases he
      · rw [hx.others e hids hids'] at he
        obtain ⟨j, k, hslot⟩ := h.placed e x he
        have hji : j ≠ i := by
          rintro rfl
          exact hids (List.mem_of_getElem? ((hold k e).1 hslot))
        exact ⟨j, k, (Rebinds.inSlot_other hr h hji).2 hslot⟩
  · have hclash : ∀ j k m, j ≠ i → InSlot σ'.1 j k e → InSlot σ'.1 i m e → False := by
      intro j k m hj hslot hslot'
      exact (hother j k e hj ((Rebinds.inSlot_other hr h hj).1 hslot)).2.1
        (List.mem_of_getElem? ((hnew m e).1 hslot'))
    by_cases hji : j = i
    · by_cases hli : l = i
      · subst hji
        subst hli
        exact ⟨rfl, slot_unique hx.nodup ((hnew k e).1 hj) ((hnew m e).1 hl)⟩
      · subst hji
        exact (hclash l m k hli hl hj).elim
    · by_cases hli : l = i
      · subst hli
        exact (hclash j k m hji hj hl).elim
      · exact h.apart j l k m e ((Rebinds.inSlot_other hr h hji).1 hj)
          ((Rebinds.inSlot_other hr h hli).1 hl)
  · by_cases hown' : ∃ o, o' = some o ∧ o.buffer_ = some c
    · exact ⟨i, hr.owns_self.2 hown'⟩
    · have hne : ∀ o, o' = some o → o.buffer_ ≠ some c := fun o ho hc' => hown' ⟨o, ho, hc'⟩
      by_cases hown : Owns (model Nat False) σ.1 i c
      · rw [hgone c hown hne] at hc
        cases hc
      · rw [hr.arrays c hown hne] at hc
        obtain ⟨j, hj⟩ := h.arrays c slots hc
        have hji : j ≠ i := by
          rintro rfl
          exact hown hj
        exact ⟨j, (hr.owns_other hji).2 hj⟩

end Rebind

/-! ## Calls -/

section Calls

variable {Shows : τ → Table X → Prop} {s s' : Store Fields Nat} {t t' : τ} {F : Table (Cells X)}
  {G G' : Table X} {i n : Nat} {o : Fields} {ids : List Nat} {c u : Cells X}

theorem Nests.called (h : Nests Shows (s, t) F G) (hi : F.entry i = some c)
    (hrow : Row s G i o ids) (hn : n ≤ maxRequest) (hu : u.peak = max c.peak n)
    (hcalled : Called i n o s s' G G' ids u.elems) (hG' : Shows t' G') :
    Nests Shows (s', t') (F.set i u) G' := by
  obtain ⟨s₁, o₁, ids₁, hmoved, hobj, hheap, hfills⟩ := hcalled.state
  have hroomy := hmoved.roomy
  set o' : Fields := { o₁ with size_ := u.elems.length } with ho'
  have hc : (blanks F).entry i = some (blank c) := by rw [blanks_entry, hi, Option.map_some]
  have hold := h.vectors.holds_at hc hrow.entry
  have hentry : s'.objects.entry = Function.update s.objects.entry i (some o') := by
    rw [hobj]
    exact Table.set_entry hrow.entry _
  have hrow' : Row s' G' i o' ids₁ := by
    refine ⟨by rw [hentry, Function.update_self], ?_, hroomy.length, hroomy.null,
      hmoved.exchange.nodup, hmoved.exchange.alive⟩
    rw [hheap]
    exact hroomy.buffer
  have hcap : o₁.capacity_ = u.capacity :=
    hroomy.capacity.trans (hold.room (u := blank u) hu).symm
  have hr : Rebinds (model Nat False) i (some o') s s' := by
    refine ⟨hentry, fun d hown hne => ?_, fun o₂ d ho₂ hd => ?_⟩
    · rw [hheap]
      exact hroomy.arrays d (fun hd => hown ⟨o, hrow.entry, hd⟩) (hne o' rfl)
    · cases ho₂
      exact (hroomy.own d hd).imp_left fun hd => ⟨o, hrow.entry, hd⟩
  refine h.rebind (s', t') ids₁ (some u) hr (fun k e => hrow.inSlot) (fun k e => hrow'.inSlot)
    hmoved.exchange (fun d hown hne => ?_) hG' (Table.set_entry hi u) ?_ (Option.Rel.some ?_)
    fun v hv => ?_
  · obtain ⟨o₂, ho₂, hd⟩ := hown
    obtain rfl : o = o₂ := Option.some.inj (hrow.entry.symm.trans ho₂)
    rw [hheap]
    exact hmoved.released d hd (hne o' rfl)
  · show F.next = s'.objects.next
    rw [hobj, Table.set_next]
    exact h.vectors.next
  · refine ⟨(blank_length u).symm, hcap, ?_, ?_, ids₁, hrow'.buffer, ?_, False.elim⟩
    · show u.peak ≤ maxRequest
      rw [hu]
      exact Nat.max_le.2 ⟨hold.bounded, hn⟩
    · show o₁.buffer_ = none ↔ u.capacity = 0
      rw [← hcap]
      exact hroomy.null
    · show ids₁.length = u.capacity
      rw [← hcap]
      exact hroomy.length
  · cases hv
    refine ⟨o', ⟨hrow', hfills, rfl, ?_⟩⟩
    rw [ho', hcap]
    exact u.fits_capacity

theorem Nests.started (h : Nests Shows (s, t) F G) :
    Nests Shows (started s, t) (F.add Cells.empty) G := by
  have hnext : F.next = s.objects.next := h.vectors.next
  have hrow := started_row s G
  have hnone : s.objects.entry s.objects.next = none := s.objects.fresh _ (Nat.le_refl _)
  have hr : Rebinds (model Nat False) s.objects.next (some ⟨0, 0, none⟩) s (ClassVector.started s) :=
    ⟨rfl, fun _ _ _ => rfl, fun o d ho hd => by
      cases ho
      cases hd⟩
  refine h.rebind (ClassVector.started s, t) [] (some Cells.empty) hr
    (fun k e => iff_of_false (not_inSlot hnone) (by simp)) (fun k e => hrow.inSlot)
    (Exchange.refl List.nodup_nil fun _ he => absurd he List.not_mem_nil)
    (fun d hown _ => ?_) h.objects ?_ ?_ (Option.Rel.some ?_) fun v hv => ?_
  · obtain ⟨o, ho, _⟩ := hown
    rw [hnone] at ho
    cases ho
  · rw [Table.add_entry, hnext]
  · show F.next + 1 = s.objects.next + 1
    rw [hnext]
  · exact ⟨rfl, rfl, Nat.zero_le _, iff_of_true rfl rfl, [], rfl, rfl, False.elim⟩
  · cases hv
    exact ⟨_, ⟨hrow, Fills.nil _ _, rfl, Nat.zero_le _⟩⟩

/-- A constructor. -/
theorem Nests.built (h : Nests Shows (s, t) F G) (hn : n ≤ maxRequest) (hu : u.peak = n)
    (hcalled : Called s.objects.next n ⟨0, 0, none⟩ (ClassVector.started s) s' G G' [] u.elems)
    (hG' : Shows t' G') : Nests Shows (s', t') (F.add u) G' := by
  have hnext : F.next = s.objects.next := h.vectors.next
  have hnew := h.started.called (u := u) (hnext ▸ F.add_entry_self Cells.empty) (started_row s G) hn
    (hu.trans (Nat.zero_max n).symm) hcalled hG'
  rwa [← hnext, Table.add_set] at hnew

/-- The destructor. -/
theorem Nests.destroyed (h : Nests Shows (s, t) F G) (hrow : Row s G i o ids)
    (hG' : Shows t' (eraseMany G ids.reverse)) :
    Nests Shows (⟨s.objects.erase i, s.heap.drop o.buffer_⟩, t') (F.erase i)
      (eraseMany G ids.reverse) := by
  have hnone : (s.objects.erase i).entry i = none := by
    rw [Table.erase_entry, Function.update_self]
  have hr : Rebinds (model Nat False) i none s ⟨s.objects.erase i, s.heap.drop o.buffer_⟩ := by
    refine ⟨rfl, fun d hown _ => ?_, fun o₂ d ho₂ => by cases ho₂⟩
    exact (Heap.drop_array ..).trans (if_neg fun hd => hown ⟨o, hrow.entry, hd⟩)
  refine h.rebind (⟨s.objects.erase i, s.heap.drop o.buffer_⟩, t') [] none hr
    (fun k e => hrow.inSlot) (fun k e => iff_of_false (not_inSlot hnone) (by simp))
    ⟨Nat.le_of_eq (eraseMany_next G _).symm, List.nodup_nil, fun _ he => absurd he List.not_mem_nil,
      fun _ he => absurd he List.not_mem_nil, fun e he _ => ?_, fun e he _ => ?_⟩
    (fun d hown _ => ?_) hG' rfl h.vectors.next Option.Rel.none fun v hv => by cases hv
  · exact eraseMany_of_mem (List.mem_reverse.2 he)
  · exact eraseMany_of_notMem fun hin => he (List.mem_reverse.1 hin)
  · obtain ⟨o₂, ho₂, hd⟩ := hown
    obtain rfl : o = o₂ := Option.some.inj (hrow.entry.symm.trans ho₂)
    exact (Heap.drop_array ..).trans (if_pos hd)

end Calls

end LinuxSamples.ClassVector
