import LinuxSamples.Stl.ClassVectorNests

set_option autoImplicit false

/-! # Runs over vectors of a class

A run that the machine of `Vector` passes, the one for elements that are plain values, is passed by the
vectors of any lawful class, and they end up with the lists of the machine. What is left out are assignments
of an object to itself, if the class does not allow them, and a `reserve` that loses elements. -/

namespace LinuxSamples.ClassVector

open LinuxSamples.Program LinuxSamples.Memory
open LinuxSamples.Vector (Access Arg Cells Element Fields Op maxRequest)

variable {τ X : Type} {P : Platform Nat} {C : Class τ X} {initial : X} {selfAssigns : Prop}
  {Shows : τ → Table X → Prop} {E : Element X} {s s₀ : Store Fields Nat} {t : τ} {σ : State τ}
  {F F' : Table (Cells X)} {G : Table X} {i j k n : Nat} {o : Fields} {ids : List Nat} {x : X}
  {xs : List X} {c u : Cells X}

/-! ## The machine -/

theorem look_ok (h : Vector.look F i = .ok c) : F.entry i = some c := by
  unfold Vector.look at h
  split at h
  · next d hd =>
      cases h
      exact hd
  · cases h

theorem within_ok (h : Vector.within n = .ok ()) : n ≤ maxRequest := by
  unfold Vector.within at h
  split at h
  · assumption
  · cases h

theorem find_ok {a : Access} (h : a.find c = .ok (k, x)) :
    a.position c.elems.length = some k ∧ c.elems[k]? = some x := by
  unfold Access.find at h
  split at h
  · next found hfound =>
      cases h
      obtain ⟨l, hl, hx⟩ := Option.bind_eq_some_iff.1 hfound
      obtain ⟨y, hy, heq⟩ := Option.map_eq_some_iff.1 hx
      cases heq
      exact ⟨hl, hy⟩
  · cases h

/-- An argument is an object outside the vectors, or an element. -/
theorem eval_ok {val : Arg X} {place : Option (Nat × Nat)} (h : val.eval F = .ok (x, place)) :
    (val = .value x ∧ place = none) ∨ ∃ j a u k, val = .element j a ∧ place = some (j, k) ∧
      F.entry j = some u ∧ a.position u.elems.length = some k ∧ u.elems[k]? = some x := by
  cases val with
  | value y =>
      cases h
      exact Or.inl ⟨rfl, rfl⟩
  | element j a =>
      obtain ⟨u, hlook, h⟩ := ok_of_bind h
      obtain ⟨⟨k, y⟩, hfind, h⟩ := ok_of_bind h
      cases h
      obtain ⟨hk, hx⟩ := find_ok hfind
      exact Or.inr ⟨j, a, u, k, rfl, rfl, look_ok hlook, hk, hx⟩

/-! ## Arguments -/

theorem Nests.length_le (h : Nests Shows σ F G) (hi : F.entry i = some c) :
    c.elems.length ≤ maxRequest := by
  have hc : (blanks F).entry i = some (blank c) := by rw [blanks_entry, hi, Option.map_some]
  obtain ⟨o, _, hold⟩ := h.vectors.lookup hc
  exact Nat.le_trans c.fits hold.bounded

theorem Nests.capacity (h : Nests Shows (s, t) F G) (hi : F.entry i = some c)
    (ho : s.objects.entry i = some o) : o.capacity_ = c.capacity := by
  have hc : (blanks F).entry i = some (blank c) := by rw [blanks_entry, hi, Option.map_some]
  exact (h.vectors.holds_at hc ho).capacity

/-- The element that an access names. -/
theorem Nests.element (h : Nests Shows (s, t) F G) (hj : F.entry j = some u) {a : Access}
    (hk : a.position u.elems.length = some k) (hx : u.elems[k]? = some x) :
    ∃ e, (∀ t₁ : τ, Returns (element a j) (s, t₁) e (s, t₁)) ∧ InSlot s j k e ∧
      G.entry e = some x := by
  have hu : (blanks F).entry j = some (blank u) := by rw [blanks_entry, hj, Option.map_some]
  obtain ⟨o, ids, hhold⟩ := h.holding j u hj
  obtain ⟨o', ho', hslot⟩ := Access.slot_returns (a := a) (k := k) h.vectors hu
    (by rw [blank_length, hk])
  obtain rfl : o = o' := Option.some.inj (hhold.entry.symm.trans ho')
  obtain ⟨e, he, hval⟩ := hhold.fills k x hx
  exact ⟨e, fun t₁ => onFirst_returns (Returns.bind hslot (load_pointsTo hhold.buffer he)) t₁,
    hhold.inSlot.2 he, hval⟩

theorem Builds.makes {m : Code τ Nat} (h : Builds Shows m n s t G xs) :
    Makes Shows (do let _ ← m) s.objects.next n ⟨0, 0, none⟩ (started s) (s, t) G [] xs := by
  obtain ⟨s', t', G', hret, hG', hcalled⟩ := h
  exact ⟨s', t', G', Returns.bind hret (Returns.pure () _), hG', hcalled⟩

/-- A vector beside a new object. -/
theorem Holding.beside (h : Holding s G i o ids xs) (x : X) :
    Holding s (G.add x) i o ids xs ∧ G.next ∉ ids := by
  have hne : G.next ∉ ids := fun hmem => Nat.lt_irrefl _ (h.alive.lt_next hmem)
  have hsame : ∀ e ∈ ids, (G.add x).entry e = G.entry e := fun e he => by
    rw [Table.add_entry, Function.update_of_ne (ne_of_mem_of_not_mem he hne)]
  exact ⟨⟨h.toRow.congr hsame, h.fills.congr hsame, h.size, h.fits⟩, hne⟩

section Arguments

variable (hC : Lawful C initial selfAssigns Shows) {m : Nat → Code τ Unit} (halive : Alive G ids)
include hC halive

theorem withTemporary_makes {make : EStateM Fault τ Nat} {t₁ : τ} (hmake : Returns make t G.next t₁)
    (hm : Makes Shows (m G.next) i n o s₀ (s, t₁) (G.add x) ids xs) :
    Makes Shows (withTemporary C make m) i n o s₀ (s, t) G ids xs := by
  obtain ⟨s', t', G', hret, hG', hcalled⟩ := hm
  obtain ⟨hval, hcalled'⟩ := hcalled.without halive
  obtain ⟨t'', hdestroy, hG''⟩ := hC.destroy hG' hval
  exact ⟨s', t'', _, Returns.bind (onSecond_returns hmake s) (Returns.bind (orCleanUp_returns hret _)
    (onSecond_returns hdestroy s')), hG'', hcalled'⟩

variable {val : Arg X} {place : Option (Nat × Nat)} (h : Nests Shows (s, t) F G)
  (heval : val.eval F = .ok (x, place))
  (hvalue : ∀ t₁, Shows t₁ (G.add x) → Makes Shows (m G.next) i n o s₀ (s, t₁) (G.add x) ids xs)
include h heval hvalue

theorem withReference_makes
    (helement : ∀ j k e, place = some (j, k) → InSlot s j k e → G.entry e = some x →
      Makes Shows (m e) i n o s₀ (s, t) G ids xs) :
    Makes Shows (withReference C val m) i n o s₀ (s, t) G ids xs := by
  rcases eval_ok heval with ⟨rfl, _⟩ | ⟨j, a, u, k, rfl, hplace, hj, hk, hx⟩
  · obtain ⟨t₁, hmake, hG₁⟩ := hC.make x h.objects
    exact withTemporary_makes hC halive hmake (hvalue t₁ hG₁)
  · obtain ⟨e, hret, hslot, hval⟩ := h.element hj hk hx
    obtain ⟨s', t', G', hm, hG', hcalled⟩ := helement j k e hplace hslot hval
    exact ⟨s', t', G', Returns.bind (hret t) hm, hG', hcalled⟩

theorem withParameter_makes : Makes Shows (withParameter C val m) i n o s₀ (s, t) G ids xs := by
  rcases eval_ok heval with ⟨rfl, _⟩ | ⟨j, a, u, k, rfl, _, hj, hk, hx⟩
  · obtain ⟨t₁, hmake, hG₁⟩ := hC.make x h.objects
    exact withTemporary_makes hC halive hmake (hvalue t₁ hG₁)
  · obtain ⟨e, hret, _, hval⟩ := h.element hj hk hx
    obtain ⟨t₁, hcopy, hG₁⟩ := hC.copyConstruct h.objects hval
    obtain ⟨s', t', G', hm, hG', hcalled⟩ := withTemporary_makes hC halive hcopy (hvalue t₁ hG₁)
    exact ⟨s', t', G', Returns.bind (hret t) hm, hG', hcalled⟩

end Arguments

/-! ## One statement -/

/-- No object is assigned to itself unless the class allows it, and no `reserve` makes room for a vector
    with elements, as these would be lost. -/
def InScope (initial : X) (selfAssigns : Prop) (F : Table (Cells X)) : Op X → Prop
  | .assign i j => i = j → selfAssigns
  | .write i a val => ∀ t k x, F.entry i = some t → a.position t.elems.length = some k →
      val.eval F = .ok (x, some (i, k)) → selfAssigns
  | .reserve i n => ∀ t, F.entry i = some t → n ≤ t.capacity ∨ ∀ x ∈ t.elems, x = initial
  | _ => True

section Simulation

variable (hC : Lawful C initial selfAssigns Shows) (hP : P.Generous)
  (hE : selfAssigns → ∀ x, E.selfAssign x = x) (h : Nests Shows (s, t) F G)

/-- A call on vector `i` that makes it hold what the machine says. -/
theorem Nests.made (h : Nests Shows (s, t) F G) {m : Code τ Unit} (hi : F.entry i = some c)
    (hrow : Row s G i o ids) (hn : n ≤ maxRequest) (hu : u.peak = max c.peak n)
    (hm : Makes Shows m i n o s (s, t) G ids u.elems) :
    ∃ σ', Returns m (s, t) () σ' ∧ ∃ G', Nests Shows σ' (F.set i u) G' := by
  obtain ⟨s', t', G', hret, hG', hcalled⟩ := hm
  exact ⟨(s', t'), hret, G', h.called hi hrow hn hu hcalled hG'⟩

/-- A constructor that makes the new vector hold what the machine says. -/
theorem Nests.madeNew (h : Nests Shows (s, t) F G) {m : Code τ Unit} (hn : n ≤ maxRequest)
    (hu : u.peak = n)
    (hm : Makes Shows m s.objects.next n ⟨0, 0, none⟩ (ClassVector.started s) (s, t) G [] u.elems) :
    ∃ σ', Returns m (s, t) () σ' ∧ ∃ G', Nests Shows σ' (F.add u) G' := by
  obtain ⟨s', t', G', hret, hG', hcalled⟩ := hm
  exact ⟨(s', t'), hret, G', h.built hn hu hcalled hG'⟩

include hC hP h

theorem construct_run {val : Arg X}
    (hstep : Vector.step E F (.construct n val) = .ok F') :
    ∃ σ', Returns (run P C (.construct n val)) (s, t) () σ' ∧ ∃ G', Nests Shows σ' F' G' := by
  obtain ⟨⟨x, place⟩, heval, hstep⟩ := ok_of_bind hstep
  obtain ⟨_, hn, hstep⟩ := ok_of_bind hstep
  cases hstep
  refine h.madeNew (within_ok hn) rfl (u := Cells.replicate n x) ?_
  exact withReference_makes hC (fun _ he => absurd he List.not_mem_nil) h heval
    (fun t₁ hG₁ => (construct_builds hC hP hG₁ (within_ok hn) (G.add_entry_self x)).makes)
    fun j k e _ _ hval => (construct_builds hC hP h.objects (within_ok hn) hval).makes

theorem copy_run (hstep : Vector.step E F (.copy j) = .ok F') :
    ∃ σ', Returns (run P C (.copy j)) (s, t) () σ' ∧ ∃ G', Nests Shows σ' F' G' := by
  obtain ⟨u, hlook, hstep⟩ := ok_of_bind hstep
  cases hstep
  obtain ⟨w, src, hj⟩ := h.holding j u (look_ok hlook)
  have hle := h.length_le (look_ok hlook)
  obtain ⟨σ', hret, hnests⟩ := h.madeNew hle (Nat.zero_max _) (u := Cells.empty.assign u)
    (copyConstruct_builds hC hP h.objects hj hle).makes
  exact ⟨σ', Returns.bind (onFirst_returns (object_returns hj.entry) t) hret, hnests⟩

include hE in
theorem assign_run (hscope : i = j → selfAssigns) (hstep : Vector.step E F (.assign i j) = .ok F') :
    ∃ σ', Returns (run P C (.assign i j)) (s, t) () σ' ∧ ∃ G', Nests Shows σ' F' G' := by
  obtain ⟨u, hlook, hstep⟩ := ok_of_bind hstep
  obtain ⟨c, hlook', hstep⟩ := ok_of_bind hstep
  cases hstep
  have hi := look_ok hlook'
  obtain ⟨o, ids, hrow⟩ := h.holding i c hi
  obtain ⟨w, src, hj⟩ := h.holding j u (look_ok hlook)
  have hle := h.length_le (look_ok hlook)
  have hsame : (if i = j then c.selfAssign E else c.assign u) = c.assign u := by
    split
    · next hij =>
        subst hij
        obtain rfl : c = u := Option.some.inj (hi.symm.trans (look_ok hlook))
        refine Cells.ext ?_ (Nat.max_eq_left c.fits).symm
        exact (List.map_congr_left fun x _ => hE (hscope rfl) x).trans (List.map_id _)
    · rfl
  rw [hsame]
  refine h.made hi hrow.toRow hle rfl (u := c.assign u) ?_
  exact operatorAssign_makes hC hP hrow.toRow h.objects hj hle hscope
    (fun hij => h.owner_ne hij hrow.entry hj.entry) fun hij => h.row_apart hij hrow.toRow hj.toRow

theorem pushBack_run {val : Arg X} (hstep : Vector.step E F (.pushBack i val) = .ok F') :
    ∃ σ', Returns (run P C (.pushBack i val)) (s, t) () σ' ∧ ∃ G', Nests Shows σ' F' G' := by
  obtain ⟨⟨x, place⟩, heval, hstep⟩ := ok_of_bind hstep
  obtain ⟨c, hlook, hstep⟩ := ok_of_bind hstep
  obtain ⟨_, hn, hstep⟩ := ok_of_bind hstep
  have hi := look_ok hlook
  obtain ⟨o, ids, hrow⟩ := h.holding i c hi
  split at hstep
  · cases hstep
  · next hown =>
      cases hstep
      refine h.made hi hrow.toRow (within_ok hn) rfl (u := c.pushBack x) ?_
      refine withReference_makes hC hrow.alive h heval (fun t₁ hG₁ => ?_) fun j k e hplace hslot hval => ?_
      · obtain ⟨hbeside, hne⟩ := hrow.beside x
        exact pushBack_makes hC hP hbeside hG₁ (within_ok hn) (G.add_entry_self x) (fun _ => hne)
          fun l hl => absurd (List.mem_of_getElem? hl) hne
      · have hslots : ∀ l, ids[l]? = some e → i = j ∧ l = k := fun l hl =>
          h.apart i j l k e (hrow.inSlot.2 hl) hslot
        refine pushBack_makes hC hP hrow h.objects (within_ok hn) hval (fun hfull hmem => ?_)
          fun l hl => ?_
        · obtain ⟨l, hl⟩ := List.mem_iff_getElem?.1 hmem
          obtain ⟨rfl, _⟩ := hslots l hl
          rw [h.capacity hi hrow.entry] at hfull
          exact hown ⟨by rw [hplace]; rfl, hfull⟩
        · obtain ⟨rfl, rfl⟩ := hslots l hl
          rcases eval_ok heval with ⟨_, hnone⟩ | ⟨j', a, u, k', _, hplace', hj', hk', _⟩
          · rw [hplace] at hnone
            cases hnone
          · rw [hplace] at hplace'
            cases hplace'
            rw [hi] at hj'
            cases hj'
            exact Access.position_lt hk'

omit hC hP in
theorem popBack_run (hstep : Vector.step E F (.popBack i) = .ok F') :
    ∃ σ', Returns (run P C (.popBack i)) (s, t) () σ' ∧ ∃ G', Nests Shows σ' F' G' := by
  obtain ⟨c, hlook, hstep⟩ := ok_of_bind hstep
  obtain ⟨o, ids, hrow⟩ := h.holding i c (look_ok hlook)
  split at hstep
  · cases hstep
  · next hne =>
      cases hstep
      exact h.made (look_ok hlook) hrow.toRow (Nat.zero_le _) (Nat.max_zero _).symm (u := c.popBack)
        (popBack_makes hrow h.objects hne)

theorem resize_run {val : Arg X} (hstep : Vector.step E F (.resize i n val) = .ok F') :
    ∃ σ', Returns (run P C (.resize i n val)) (s, t) () σ' ∧ ∃ G', Nests Shows σ' F' G' := by
  obtain ⟨⟨x, place⟩, heval, hstep⟩ := ok_of_bind hstep
  obtain ⟨c, hlook, hstep⟩ := ok_of_bind hstep
  obtain ⟨_, hn, hstep⟩ := ok_of_bind hstep
  cases hstep
  obtain ⟨o, ids, hrow⟩ := h.holding i c (look_ok hlook)
  refine h.made (look_ok hlook) hrow.toRow (within_ok hn) rfl (u := c.resize n x) ?_
  refine withParameter_makes hC hrow.alive h heval fun t₁ hG₁ => ?_
  obtain ⟨hbeside, hne⟩ := hrow.beside x
  exact resize_makes hC hP hbeside hG₁ (within_ok hn) (G.add_entry_self x) hne

omit hP in
include hE in
theorem write_run {a : Access} {val : Arg X}
    (hscope : InScope initial selfAssigns F (.write i a val))
    (hstep : Vector.step E F (.write i a val) = .ok F') :
    ∃ σ', Returns (run P C (.write i a val)) (s, t) () σ' ∧ ∃ G', Nests Shows σ' F' G' := by
  obtain ⟨⟨x, place⟩, heval, hstep⟩ := ok_of_bind hstep
  obtain ⟨c, hlook, hstep⟩ := ok_of_bind hstep
  obtain ⟨⟨k, y⟩, hfind, hstep⟩ := ok_of_bind hstep
  cases hstep
  have hi := look_ok hlook
  obtain ⟨hk, hy⟩ := find_ok hfind
  have hself : place = some (i, k) → selfAssigns := fun hplace => hscope c k x hi hk (hplace ▸ heval)
  have hvalue : (if place = some (i, k) then E.selfAssign x else x) = x := by
    split
    · next hplace => exact hE (hself hplace) x
    · rfl
  obtain ⟨o, ids, hrow⟩ := h.holding i c hi
  obtain ⟨d, hret, hslot, _⟩ := h.element hi hk hy
  have hd := hrow.inSlot.1 hslot
  simp only [hvalue]
  refine h.made hi hrow.toRow (Nat.zero_le _) (Nat.max_zero _).symm (u := c.write k x) ?_
  refine withReference_makes hC hrow.alive h heval (fun t₁ hG₁ => ?_) fun j l e hplace hslot' hval => ?_
  · obtain ⟨hbeside, hne⟩ := hrow.beside x
    obtain ⟨s', t', G', hassign, hG', hcalled⟩ := assign_makes hC hbeside hG₁ (Access.position_lt hk) hd
      (G.add_entry_self x) fun he => absurd (he ▸ List.mem_of_getElem? hd) hne
    exact ⟨s', t', G', Returns.bind (hret t₁) hassign, hG', hcalled⟩
  · have hown : d = e → selfAssigns := by
      rintro rfl
      obtain ⟨rfl, rfl⟩ := h.apart i j k l d hslot hslot'
      exact hself hplace
    obtain ⟨s', t', G', hassign, hG', hcalled⟩ := assign_makes hC hrow h.objects (Access.position_lt hk)
      hd hval hown
    exact ⟨s', t', G', Returns.bind (hret t) hassign, hG', hcalled⟩

include hE in
/-- **One statement** does what the machine for plain values says. -/
theorem run_nests {op : Op X} (hscope : InScope initial selfAssigns F op)
    (hstep : Vector.step E F op = .ok F') :
    ∃ σ', Returns (run P C op) (s, t) () σ' ∧ ∃ G', Nests Shows σ' F' G' := by
  cases op with
  | default =>
      cases hstep
      exact ⟨_, Returns.bind (started_returns s t) (Returns.pure () _), G, h.started⟩
  | construct n val => exact construct_run hC hP h hstep
  | copy j => exact copy_run hC hP h hstep
  | assign i j => exact assign_run hC hP hE h hscope hstep
  | pushBack i val => exact pushBack_run hC hP h hstep
  | popBack i => exact popBack_run h hstep
  | resize i n val => exact resize_run hC hP h hstep
  | clear i =>
      obtain ⟨c, hlook, hstep⟩ := ok_of_bind hstep
      cases hstep
      obtain ⟨o, ids, hrow⟩ := h.holding i c (look_ok hlook)
      exact h.made (look_ok hlook) hrow.toRow (Nat.zero_le _) (Nat.max_zero _).symm (u := c.clear)
        (clear_makes hrow h.objects)
  | write i a val => exact write_run hC hE h hscope hstep
  | reserve i n =>
      obtain ⟨c, hlook, hstep⟩ := ok_of_bind hstep
      obtain ⟨_, hn, hstep⟩ := ok_of_bind hstep
      cases hstep
      obtain ⟨o, ids, hrow⟩ := h.holding i c (look_ok hlook)
      refine h.made (look_ok hlook) hrow.toRow (within_ok hn) rfl (u := c.reserve n) ?_
      refine reserve_makes hC hP hrow h.objects (within_ok hn) ?_
      rw [h.capacity (look_ok hlook) hrow.entry]
      exact hscope c (look_ok hlook)
  | destroy i =>
      obtain ⟨c, hlook, hstep⟩ := ok_of_bind hstep
      cases hstep
      obtain ⟨o, ids, hrow⟩ := h.holding i c (look_ok hlook)
      obtain ⟨t', hret, hG'⟩ := destroy_returns hC hrow.toRow h.objects
      exact ⟨_, hret, _, h.destroyed hrow.toRow hG'⟩

include hC hP hE in
omit h in
/-- **Every run** that the machine passes is passed by the code, and ends with the lists of the machine. -/
theorem runs_nest {ops : List (Op X)} (h : Nests Shows σ F G)
    (hops : Passes (InScope initial selfAssigns) (Vector.step E) F ops F') :
    ∃ σ', Returns (runAll (run P C) ops) σ () σ' ∧ ∃ G', Nests Shows σ' F' G' :=
  runAll_passes (R := fun σ F => ∃ G, Nests Shows σ F G)
    (fun _ _ _ _ ⟨_, h⟩ hscope hstep => run_nests hC hP hE h hscope hstep) ⟨G, h⟩ hops

end Simulation

end LinuxSamples.ClassVector
