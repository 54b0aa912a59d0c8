import LinuxSamples.Stl.ClassVectorSpec

set_option autoImplicit false

/-! # The member functions of `vector<T>`, one by one

Each theorem says what a call does to the vector it is made on. -/

namespace LinuxSamples.ClassVector

open LinuxSamples.Program LinuxSamples.Memory
open LinuxSamples.Vector (Fields Roomy maxRequest)

variable {τ X : Type} {P : Platform Nat} {C : Class τ X} {initial : X} {selfAssigns : Prop}
  {Shows : τ → Table X → Prop} {s : Store Fields Nat} {t : τ} {G : Table X} {i j n val : Nat}
  {o w : Fields} {ids src : List Nat} {x : X} {xs ys : List X}

/-- The vector holds `xs`. -/
structure Holding (s : Store Fields Nat) (G : Table X) (i : Nat) (o : Fields) (ids : List Nat)
    (xs : List X) : Prop extends Row s G i o ids where
  fills : Fills G ids xs
  size : o.size_ = xs.length
  fits : xs.length ≤ o.capacity_

/-- The call `m` on vector `i`, for which there must be room for `n` elements, makes it hold `xs`. In `s`
    the vector is there; it may be one that `m` itself builds. -/
def Makes (Shows : τ → Table X → Prop) (m : Code τ Unit) (i n : Nat) (o : Fields)
    (s : Store Fields Nat) (σ : State τ) (G : Table X) (ids : List Nat) (xs : List X) : Prop :=
  ∃ s' t' G', Returns m σ () (s', t') ∧ Shows t' G' ∧ Called i n o s s' G G' ids xs

/-! ## Sizes -/

section Sizes

variable (h : Holding s G i o ids xs) (hG : Shows t G)
include h hG

theorem clear_makes : Makes Shows (onFirst (Vector.clear i)) i 0 o s (s, t) G ids [] :=
  ⟨_, t, G, onFirst_returns (modifyObject_returns h.entry _) t, hG, h.toRow.called (Fills.nil G ids)⟩

theorem popBack_makes (hne : xs ≠ []) :
    Makes Shows (onFirst (Vector.popBack i)) i 0 o s (s, t) G ids xs.dropLast := by
  have hpos : 0 < xs.length := List.length_pos_iff.2 hne
  refine ⟨s.put i { o with size_ := o.size_ - 1 }, t, G, onFirst_returns (Returns.bind
    (object_returns h.entry) ?_) t, hG, ?_⟩
  · rw [if_neg (by rw [h.size]; omega)]
    exact modifyObject_returns h.entry _
  · have hfills : Fills G ids xs.dropLast := by
      rw [List.dropLast_eq_take]
      exact h.fills.take _
    have hcalled := h.toRow.called hfills
    rwa [List.length_dropLast, ← h.size] at hcalled

end Sizes

/-- An element is assigned to. -/
theorem assign_makes (hC : Lawful C initial selfAssigns Shows) (h : Holding s G i o ids xs)
    (hG : Shows t G) {k d : Nat} (hk : k < xs.length) (hd : ids[k]? = some d)
    (hval : G.entry val = some x) (hself : d = val → selfAssigns) :
    Makes Shows (onSecond (C.assign d val)) i 0 o s (s, t) G ids (xs.set k x) := by
  obtain ⟨y, hy⟩ := h.alive d (List.mem_of_getElem? hd)
  obtain ⟨t', hassign, hG'⟩ := hC.assign hG hy hval hself
  have hlen : (xs.set k x).length = xs.length := List.length_set
  have hass := (Assigned.refl G ids (xs.set k x) k).step h.nodup (Nat.le_refl k) hd
    (by rw [List.getElem?_set_self hk]) hy
  refine ⟨s, t', G.set d x, onSecond_returns hassign s, hG', s, o, ids,
    (h.toRow.moved (Nat.zero_le _)).assigned hass (by rw [hlen]; omega), ?_, rfl, ?_⟩
  · rw [hlen, ← h.size]
    exact (Table.set_self h.entry).symm
  · intro l z hz
    rw [Table.set_entry hy]
    by_cases hlk : l = k
    · subst hlk
      rw [List.getElem?_set_self hk] at hz
      exact ⟨d, hd, by rw [Function.update_self, hz]⟩
    · rw [List.getElem?_set_ne (Ne.symm hlk)] at hz
      obtain ⟨e, he, hval'⟩ := h.fills l z hz
      have hne : e ≠ d := by
        rintro rfl
        exact hlk (slot_unique h.nodup he hd)
      exact ⟨e, he, by rw [Function.update_of_ne hne, hval']⟩

section Growing

variable (hC : Lawful C initial selfAssigns Shows) (hP : P.Generous)
include hC hP

/-! ## `reserve`, `push_back` and `resize` -/

theorem reserve_makes (h : Holding s G i o ids xs) (hG : Shows t G) (hn : n ≤ maxRequest)
    (hkeep : n ≤ o.capacity_ ∨ ∀ x ∈ xs, x = initial) :
    Makes Shows (reserve P C i n) i n o s (s, t) G ids xs := by
  obtain ⟨s₁, t₁, o₁, ids₁, G₁, hret, hG₁, hmoved, hsame, hnew⟩ := reserve_moves hC hP h.toRow hG hn
  have hobj : s₁.objects = s.objects.set i { o₁ with size_ := xs.length } := by
    rw [← h.size, ← hmoved.roomy.size]
    exact hmoved.roomy.objects
  refine ⟨s₁, t₁, G₁, hret, hG₁, s₁, o₁, ids₁, hmoved, hobj, rfl, ?_⟩
  by_cases hlt : o.capacity_ < n
  · have hroom := hmoved.roomy.le_length
    have hfits := h.fits
    intro k x hx
    have hk := (List.getElem?_eq_some_iff.1 hx).1
    have hid : ids₁[k]? = some ids₁[k] := List.getElem?_eq_getElem (by omega)
    refine ⟨_, hid, ?_⟩
    rw [hkeep.resolve_left (Nat.not_le.2 hlt) x (List.mem_of_getElem? hx)]
    exact hnew hlt _ (List.mem_of_getElem? hid)
  · obtain ⟨rfl, rfl⟩ := hsame (Nat.le_of_not_lt hlt)
    exact h.fills

/-- The first lines of `push_back` and `resize`: there is room for `n` elements, and an object that is not
    in the row if this has to grow is still there. -/
theorem onlyIf_regrow_moves (h : Holding s G i o ids xs) (hG : Shows t G) {full : Prop}
    [Decidable full] (hfull : full ↔ o.capacity_ < n) (hn : n ≤ maxRequest)
    (hval : G.entry val = some x) (hout : full → val ∉ ids) :
    ∃ (s₁ : Store Fields Nat) (t₁ : τ) (o₁ : Fields) (ids₁ : List Nat) (G₁ : Table X),
      Returns (onlyIf full (regrow P C i n)) (s, t) () (s₁, t₁) ∧ Shows t₁ G₁ ∧
      Moved i n o o₁ s s₁ G G₁ ids ids₁ ∧ Fills G₁ ids₁ xs ∧ G₁.entry val = some x ∧
      ∀ k : Nat, ids₁[k]? = some val → ids[k]? = some val := by
  by_cases hc : full
  · rw [onlyIf_pos hc]
    have hcap := h.fits
    obtain ⟨s₁, t₁, o₁, ids₁, G₁, hret, hG₁, hmoved, hfills⟩ := regrow_moves hC hP h.toRow hG h.fills
      h.size (by rw [h.size]; exact hcap) (hfull.1 hc) hn
    obtain ⟨hne, hval₁⟩ := hmoved.exchange.keeps hval (hout hc)
    exact ⟨s₁, t₁, o₁, ids₁, G₁, hret, hG₁, hmoved, hfills, hval₁, fun k hk =>
      absurd (List.mem_of_getElem? hk) hne⟩
  · rw [onlyIf_neg hc]
    have hroom : n ≤ o.capacity_ := Nat.le_of_not_lt fun hlt => hc (hfull.2 hlt)
    exact ⟨s, t, o, ids, G, Returns.pure () _, hG, h.toRow.moved hroom, h.fills, hval, fun _ hk => hk⟩

/-- `push_back`, of an element of the vector itself only while there is room. -/
theorem pushBack_makes (h : Holding s G i o ids xs) (hG : Shows t G) (hn : xs.length + 1 ≤ maxRequest)
    (hval : G.entry val = some x) (hfull : o.capacity_ ≤ xs.length → val ∉ ids)
    (hown : ∀ k, ids[k]? = some val → k < xs.length) :
    Makes Shows (pushBack P C i val) i (xs.length + 1) o s (s, t) G ids (xs ++ [x]) := by
  have hwrap : wrap (o.size_ + 1) = xs.length + 1 := by
    rw [h.size]
    exact Nat.mod_eq_of_lt (Nat.lt_of_le_of_lt hn (by decide))
  have hiff : o.capacity_ ≤ o.size_ ↔ o.capacity_ < xs.length + 1 := by
    rw [h.size]
    omega
  obtain ⟨s₁, t₁, o₁, ids₁, G₁, hgrow, hG₁, hmoved, hfills, hval₁, hkept⟩ :=
    onlyIf_regrow_moves hC hP h hG (n := xs.length + 1) hiff hn hval
      fun hle => hfull (by rwa [h.size] at hle)
  have hrow := hmoved.row h.toRow
  have hsize₁ : o₁.size_ = xs.length := hmoved.roomy.size.trans h.size
  have hroom := hmoved.roomy.le_length
  obtain ⟨d, hd⟩ : ∃ d, ids₁[xs.length]? = some d := ⟨_, List.getElem?_eq_getElem (by omega)⟩
  obtain ⟨y, hy⟩ := hrow.alive d (List.mem_of_getElem? hd)
  have hself : d = val → selfAssigns := by
    rintro rfl
    exact absurd (hown _ (hkept _ hd)) (Nat.lt_irrefl _)
  obtain ⟨t₂, hassign, hG₂⟩ := hC.assign hG₁ hy hval₁ hself
  have hlen : (xs ++ [x]).length = xs.length + 1 := List.length_append
  have hass := (Assigned.refl G₁ ids₁ (xs ++ [x]) xs.length).step hrow.nodup (Nat.le_refl _) hd
    (x := x) (by simp) hy
  have hfills₂ : Fills (G₁.set d x) ids₁ (xs ++ [x]) := by
    rw [← hlen] at hass
    exact hass.fills hrow.nodup (by omega) (by rwa [List.take_left])
  refine ⟨s₁.put i { o₁ with size_ := xs.length + 1 }, t₂, G₁.set d x, ?_, hG₂, s₁, o₁, ids₁,
    hmoved.assigned hass (by omega), ?_, rfl, hfills₂⟩
  · refine Returns.bind (onFirst_returns (object_returns h.entry) t) ?_
    rw [hwrap]
    refine Returns.bind hgrow (Returns.bind (onFirst_returns (object_returns hrow.entry) t₁) ?_)
    rw [hsize₁]
    have hmod := modifyObject_returns hrow.entry fun v => { v with size_ := wrap (v.size_ + 1) }
    rw [hsize₁, ← h.size, hwrap] at hmod
    exact Returns.bind (onFirst_returns (load_pointsTo hrow.buffer hd) t₁)
      (Returns.bind (onSecond_returns hassign s₁) (onFirst_returns hmod t₂))
  · rw [hlen, Store.put_objects, hmoved.roomy.objects, Table.set_set]

/-- `resize`; the parameter is not in the row. -/
theorem resize_makes (h : Holding s G i o ids xs) (hG : Shows t G) (hn : n ≤ maxRequest)
    (hval : G.entry val = some x) (hout : val ∉ ids) :
    Makes Shows (resize P C i n val) i n o s (s, t) G ids
      (xs.take n ++ List.replicate (n - xs.length) x) := by
  have hfits := h.fits
  set zs := xs.take n ++ List.replicate (n - xs.length) x with hzs
  have hlen : zs.length = n := by
    simp only [hzs, List.length_append, List.length_take, List.length_replicate]
    omega
  by_cases hlt : o.size_ < n
  · obtain ⟨s₁, t₁, o₁, ids₁, G₁, hgrow, hG₁, hmoved, hfills, hval₁, _⟩ :=
      onlyIf_regrow_moves hC hP h hG (n := n) Iff.rfl hn hval fun _ => hout
    have hrow := hmoved.row h.toRow
    have hroom := hmoved.roomy.le_length
    have hout₁ := (hmoved.exchange.keeps hval hout).1
    rw [h.size] at hlt
    have hold : xs.take n = xs := List.take_of_length_le (by omega)
    obtain ⟨t₂, G₂, hfill, hG₂, hass⟩ := fill_returns hC hrow.entry hrow.buffer hrow.nodup hrow.alive
      hG₁ xs.length n zs hval₁ hout₁ (by omega) hroom fun k hk hk' => by
        rw [hzs, hold, List.getElem?_append_right hk, List.getElem?_replicate, if_pos (by omega)]
    have hfills₂ : Fills G₂ ids₁ zs := by
      rw [← hlen] at hass
      refine hass.fills hrow.nodup (by omega) ?_
      rwa [hzs, hold, List.take_left]
    refine ⟨s₁.put i { o₁ with size_ := n }, t₂, G₂, ?_, hG₂, s₁, o₁, ids₁,
      hmoved.assigned hass (by omega), ?_, rfl, hfills₂⟩
    · refine Returns.bind (onFirst_returns (object_returns h.entry) t) ?_
      rw [h.size, onlyIf_pos hlt]
      exact Returns.bind (Returns.bind hgrow hfill)
        (onFirst_returns (modifyObject_returns hrow.entry _) t₂)
    · rw [hlen, Store.put_objects, hmoved.roomy.objects, Table.set_set]
  · have hle := h.size
    have hshort : zs = xs.take n := by
      rw [hzs, Nat.sub_eq_zero_of_le (by omega), List.replicate_zero, List.append_nil]
    refine ⟨s.put i { o with size_ := n }, t, G, ?_, hG, s, o, ids, h.toRow.moved (by omega), ?_, rfl, ?_⟩
    · refine Returns.bind (onFirst_returns (object_returns h.entry) t) ?_
      rw [onlyIf_neg hlt]
      exact Returns.bind (Returns.pure () _) (onFirst_returns (modifyObject_returns h.entry _) t)
    · rw [hlen]
      rfl
    · rw [hshort]
      exact h.fills.take n

/-! ## `operator=` -/

/-- Assignment from vector `j`, which is another one unless objects may be assigned to themselves. -/
theorem operatorAssign_makes (hrow : Row s G i o ids) (hG : Shows t G) (hj : Holding s G j w src ys)
    (hn : ys.length ≤ maxRequest) (hself : i = j → selfAssigns)
    (hbuf : i ≠ j → ∀ c, o.buffer_ = some c → w.buffer_ ≠ some c)
    (hout : i ≠ j → ∀ e ∈ src, e ∉ ids) :
    Makes Shows (operatorAssign P C i j) i ys.length o s (s, t) G ids ys := by
  obtain ⟨s₁, t₁, o₁, ids₁, G₁, hret, hG₁, hmoved, hsame, _⟩ := reserve_moves hC hP hrow hG hn
  have hrow₁ := hmoved.row hrow
  set s₂ := s₁.put i { o₁ with size_ := ys.length } with hs₂
  have ho₂ : s₂.objects.entry i = some { o₁ with size_ := ys.length } := Store.put_entry hrow₁.entry _
  have hcopy : ∃ t' G', Returns (copyFrom C i j ys.length) (s₂, t₁) () (s₂, t') ∧ Shows t' G' ∧
      Assigned G₁ G' ids₁ ys 0 ys.length := by
    by_cases hij : i = j
    · subst hij
      obtain rfl : o = w := Option.some.inj (hrow.entry.symm.trans hj.entry)
      obtain rfl := hrow.buffer.unique hj.buffer
      obtain ⟨rfl, rfl⟩ := hsame hj.fits
      exact copyFrom_returns hC ho₂ hrow₁.buffer hrow₁.nodup hrow₁.alive hG₁ ho₂ hrow₁.buffer hj.fills
        hmoved.roomy.le_length fun k l e hk hl => ⟨slot_unique hrow₁.nodup hk hl, hself rfl⟩
    · have hkeeps : ∀ e ∈ src, e ∉ ids₁ ∧ G₁.entry e = G.entry e := by
        intro e he
        obtain ⟨x, hx⟩ := hj.alive e he
        obtain ⟨hne, hval⟩ := hmoved.exchange.keeps hx (hout hij e he)
        exact ⟨hne, hval.trans hx.symm⟩
      have hw₂ : s₂.objects.entry j = some w := by
        rw [hs₂, Store.put_objects, Table.set_entry hrow₁.entry, Function.update_of_ne (Ne.symm hij),
          hmoved.entry_other hrow (Ne.symm hij), hj.entry]
      have hq₂ : s₂.heap.PointsTo w.buffer_ src := hj.buffer.congr fun c hc => by
        have hlive : s.heap.array c = some src := by
          have hq := hj.buffer
          rwa [hc] at hq
        rw [hlive]
        exact (hmoved.array_other hlive fun ho => hbuf hij c ho hc).2
      exact copyFrom_returns hC ho₂ hrow₁.buffer hrow₁.nodup hrow₁.alive hG₁ hw₂ hq₂
        (hj.fills.congr fun e he => (hkeeps e he).2) hmoved.roomy.le_length
        fun k l e hk hl => absurd (List.mem_of_getElem? hl) (hkeeps e (List.mem_of_getElem? hk)).1
  obtain ⟨t₂, G₂, hcopied, hG₂, hass⟩ := hcopy
  refine ⟨s₂, t₂, G₂, ?_, hG₂, s₁, o₁, ids₁, hmoved.assigned hass (Nat.le_refl _), ?_, rfl,
    hass.fills hrow₁.nodup hmoved.roomy.le_length (Fills.nil _ _)⟩
  · refine Returns.bind (onFirst_returns (object_returns hj.entry) t) ?_
    rw [hj.size]
    exact Returns.bind hret (Returns.bind (onFirst_returns (modifyObject_returns hrow₁.entry _) t₁)
      hcopied)
  · rw [hs₂, Store.put_objects, hmoved.roomy.objects, Table.set_set]

/-! ## Constructors -/

omit hC hP

/-- The store with a new vector, which has no buffer yet. -/
def started (s : Store Fields Nat) : Store Fields Nat := ⟨s.objects.add ⟨0, 0, none⟩, s.heap⟩

theorem started_row (s : Store Fields Nat) (G : Table X) :
    Row (started s) G s.objects.next ⟨0, 0, none⟩ [] where
  entry := s.objects.add_entry_self _
  buffer := rfl
  length := rfl
  null := iff_of_true rfl rfl
  nodup := List.nodup_nil
  alive _ he := absurd he List.not_mem_nil

theorem started_returns (s : Store Fields Nat) (t : τ) :
    Returns (onFirst Vector.default) (s, t) s.objects.next (started s, t) :=
  onFirst_returns (newObject_returns s _) t

/-- The constructor `m` builds a new vector that holds `xs`. -/
def Builds (Shows : τ → Table X → Prop) (m : Code τ Nat) (n : Nat) (s : Store Fields Nat) (t : τ)
    (G : Table X) (xs : List X) : Prop :=
  ∃ s' t' G', Returns m (s, t) s.objects.next (s', t') ∧ Shows t' G' ∧
    Called s.objects.next n ⟨0, 0, none⟩ (started s) s' G G' [] xs

include hC hP

theorem construct_builds (hG : Shows t G) (hn : n ≤ maxRequest) (hval : G.entry val = some x) :
    Builds Shows (construct P C n val) n s t G (List.replicate n x) := by
  have hstart := started_row s G
  obtain ⟨s₁, t₁, o₁, ids₁, G₁, hret, hG₁, hmoved, _, _⟩ := reserve_moves hC hP hstart hG hn
  have hrow₁ := hmoved.row hstart
  obtain ⟨hout, hval₁⟩ := hmoved.exchange.keeps hval List.not_mem_nil
  have hlen : (List.replicate n x).length = n := List.length_replicate
  obtain ⟨t₂, G₂, hfill, hG₂, hass⟩ := fill_returns hC
    (s := s₁.put s.objects.next { o₁ with size_ := n }) (Store.put_entry hrow₁.entry _) hrow₁.buffer
    hrow₁.nodup hrow₁.alive hG₁ 0 n (List.replicate n x) hval₁ hout (Nat.zero_le n)
    hmoved.roomy.le_length fun k _ hk => by rw [List.getElem?_replicate, if_pos hk]
  have hroom := hmoved.roomy.le_length
  have hall : Assigned G₁ G₂ ids₁ (List.replicate n x) 0 (List.replicate n x).length := by
    rwa [hlen]
  have hfills := hall.fills hrow₁.nodup (by omega) (Fills.nil _ _)
  refine ⟨s₁.put s.objects.next { o₁ with size_ := n }, t₂, G₂, ?_, hG₂, s₁, o₁, ids₁,
    hmoved.assigned hass (by omega), ?_, rfl, hfills⟩
  · exact Returns.bind (started_returns s t) (Returns.bind hret (Returns.bind
      (onFirst_returns (modifyObject_returns hrow₁.entry _) t₁)
      (Returns.bind hfill (Returns.pure _ _))))
  · rw [hlen, Store.put_objects, hmoved.roomy.objects, Table.set_set]

omit hC hP in
/-- The copy constructor is the default constructor followed by `operator=`. -/
theorem copyConstruct_eq (j : Nat) : copyConstruct P C j = (do
    let this ← onFirst Vector.default
    operatorAssign P C this j
    return this) := by
  simp only [copyConstruct, Vector.default, operatorAssign, bind_assoc]

theorem copyConstruct_builds (hG : Shows t G) (hj : Holding s G j w src ys)
    (hn : ys.length ≤ maxRequest) : Builds Shows (copyConstruct P C j) ys.length s t G ys := by
  have hne : s.objects.next ≠ j := Nat.ne_of_gt (Table.lt_next hj.entry)
  have hj' : Holding (started s) G j w src ys :=
    ⟨⟨Table.add_entry_old hj.entry _, hj.buffer, hj.length, hj.null, hj.nodup, hj.alive⟩, hj.fills,
      hj.size, hj.fits⟩
  obtain ⟨s', t', G', hret, hG', hcalled⟩ := operatorAssign_makes hC hP (started_row s G) hG hj' hn
    (fun he => absurd he hne) (fun _ c hc => by cases hc) fun _ _ _ => List.not_mem_nil
  refine ⟨s', t', G', ?_, hG', hcalled⟩
  rw [copyConstruct_eq]
  exact Returns.bind (started_returns s t) (Returns.bind hret (Returns.pure _ _))

omit hP in
/-- The destructor destroys the objects in the slots. -/
theorem destroy_returns (hrow : Row s G i o ids) (hG : Shows t G) :
    ∃ t', Returns (destroy C i) (s, t) () (⟨s.objects.erase i, s.heap.drop o.buffer_⟩, t') ∧
      Shows t' (eraseMany G ids.reverse) := by
  obtain ⟨t', hdelete, hG'⟩ := deleteObjects_returns hC hrow.buffer hG hrow.nodup hrow.alive
  exact ⟨t', Returns.bind (onFirst_returns (object_returns hrow.entry) t) (Returns.bind hdelete
    (onFirst_returns (dropObject_returns (s := ⟨s.objects, s.heap.drop o.buffer_⟩) hrow.entry) t')),
    hG'⟩

end Growing

end LinuxSamples.ClassVector
