import LinuxSamples.Stl.Growth

set_option autoImplicit false

/-! # The loops and the regrowing of `fbcstd::vector`

What `reserve`, the element loops and `regrow` do to one object and to the heap, for any element
type and any contents. The element values come out right under `Element.Copies`; sizes, capacities
and array lengths do not depend on it. -/

namespace LinuxSamples.Vector

open LinuxSamples.Program LinuxSamples.Memory

variable {T : Type} {P : Platform T} {E : Element T} {s : Store Fields T} {i : Nat} {o : Fields}

/-! ## One copy assignment -/

/-- A reference that does not lead into array `b`. -/
def Ref.Outside (b : Nat) (r : Ref T) : Prop := ∀ p, r = .slot p → p.array ≠ some b

theorem Ref.Outside.isSlot {b k : Nat} {r : Ref T} (h : r.Outside b) :
    r.isSlot ⟨some b, k⟩ = false := by
  cases r with
  | value x => rfl
  | slot p =>
      have hp := h p rfl
      simp only [Ref.isSlot, decide_eq_false_iff_not]
      rintro rfl
      exact hp rfl

theorem Ref.outside_slot {b k : Nat} {p : Option Nat} (h : p ≠ some b) :
    Ref.Outside b (.slot ⟨p, k⟩ : Ref T) := by
  intro q hq
  cases hq
  exact h

theorem Ref.read_live {r : Ref T} {x : T} (hread : Returns r.read s x s) {p : Slot} {b : Nat}
    (hr : r = .slot p) (hb : p.array = some b) :
    ∃ slots, s.heap.array b = some slots ∧ slots[p.index]? = some x := by
  subst hr
  obtain ⟨slots, s₁, hslots, hk⟩ := Returns.bind_inv hread
  rw [hb] at hslots
  cases harr : s.heap.array b with
  | none => simp [Returns, contents, EStateM.run, harr] at hslots
  | some now =>
      obtain ⟨rfl, rfl⟩ := hslots.unique (contents_returns harr)
      refine ⟨slots, rfl, ?_⟩
      cases hx : slots[p.index]? with
      | none => rw [hx] at hk; cases hk
      | some y =>
          rw [hx] at hk
          obtain ⟨rfl, _⟩ := Returns.pure_inv hk
          rfl

theorem Ref.read_congr {s' : Store Fields T} {r : Ref T} {x : T} (hread : Returns r.read s x s)
    (hr : ∀ p b, r = .slot p → p.array = some b → s'.heap.array b = s.heap.array b) :
    Returns r.read s' x s' := by
  cases r with
  | value y =>
      obtain ⟨hx, _⟩ := Returns.pure_inv hread
      rw [hx]
      exact Returns.pure y s'
  | slot p =>
      obtain ⟨array, k⟩ := p
      cases array with
      | none => cases hread
      | some b =>
          obtain ⟨slots, hlive, hk⟩ := Ref.read_live hread rfl rfl
          exact load_returns ((hr _ b rfl rfl).trans hlive) hk

theorem Ref.read_write {b : Nat} {r : Ref T} {x : T} (h : r.Outside b) {slots : List T}
    (hb : s.heap.array b = some slots) (hread : Returns r.read s x s) (now : List T) :
    Returns r.read (s.write b now) x (s.write b now) := by
  refine Ref.read_congr hread fun p c hr hc => ?_
  rw [Store.write_heap, Heap.write_array hb]
  apply Function.update_of_ne
  rintro rfl
  exact h p hr hc

theorem assign_returns {b k : Nat} {slots : List T} {old x : T} {src : Ref T}
    (hb : s.heap.array b = some slots) (hk : slots[k]? = some old)
    (hsrc : Returns src.read s x s) :
    Returns (assign E ⟨some b, k⟩ src) s () (s.write b (slots.set k
      (if src.isSlot ⟨some b, k⟩ then E.selfAssign x else E.assign old x))) := by
  refine Returns.bind hsrc (Returns.bind (load_returns hb hk) ?_)
  exact store_returns hb (List.getElem?_eq_some_iff.1 hk).1 _

theorem assign_outside {b k : Nat} {slots : List T} {old x : T} {src : Ref T}
    (hb : s.heap.array b = some slots) (hk : slots[k]? = some old)
    (hsrc : Returns src.read s x s) (hout : src.Outside b) :
    Returns (assign E ⟨some b, k⟩ src) s () (s.write b (slots.set k (E.assign old x))) := by
  have h := assign_returns (E := E) hb hk hsrc
  rwa [hout.isSlot, if_neg Bool.false_ne_true] at h

/-! ## The loops -/

/-- What one iteration of a copying loop leaves in a slot. -/
def copySlot (E : Element T) (src : List T) (k : Nat) (old : T) : T :=
  match src[k]? with
  | some x => E.assign old x
  | none => old

theorem copySlot_of_some {src : List T} {k : Nat} {old x : T} (h : src[k]? = some x) :
    copySlot E src k old = E.assign old x := by
  rw [copySlot, h]

/-- After a copying loop the target starts with the copied elements. -/
theorem take_copySlot (hE : E.Copies) {dst src : List T} {n : Nat} (hd : n ≤ dst.length)
    (hs : n ≤ src.length) : (updateRange (copySlot E src) 0 n dst).take n = src.take n := by
  apply List.ext_getElem?
  intro k
  rw [List.getElem?_take, List.getElem?_take, updateRange_getElem?]
  by_cases hk : k < n
  · have hdk : dst[k]? = some dst[k] := List.getElem?_eq_getElem (by omega)
    have hsk : src[k]? = some src[k] := List.getElem?_eq_getElem (by omega)
    rw [if_pos hk, if_pos hk, hdk, hsk]
    simp [hk, copySlot_of_some hsk, hE _ _]
  · rw [if_neg hk, if_neg hk]

/-- After a filling loop the elements before it are followed by copies of the value. -/
theorem take_fill (hE : E.Copies) {dst : List T} {lo hi : Nat} {x : T} (hlo : lo ≤ hi)
    (hhi : hi ≤ dst.length) : (updateRange (fun _ old => E.assign old x) lo hi dst).take hi
      = dst.take lo ++ List.replicate (hi - lo) x := by
  apply List.ext_getElem?
  intro k
  have hlen : (dst.take lo).length = lo := by
    rw [List.length_take]
    omega
  rw [List.getElem?_take, updateRange_getElem?, List.getElem?_append, hlen, List.getElem?_take,
    List.getElem?_replicate]
  by_cases hk : k < hi
  · have hdk : dst[k]? = some dst[k] := List.getElem?_eq_getElem (by omega)
    rw [if_pos hk, hdk]
    by_cases hklo : k < lo
    · rw [if_pos hklo, if_pos hklo]
      simp [show ¬ lo ≤ k by omega]
    · rw [if_neg hklo, if_pos (by omega)]
      simp [hk, show lo ≤ k by omega, hE _ _]
  · rw [if_neg hk, if_neg (by omega), if_neg (by omega)]

theorem take_updateRange (f : T → T) (n : Nat) (slots : List T) :
    (updateRange (fun _ old => f old) 0 n slots).take n = (slots.take n).map f := by
  apply List.ext_getElem?
  intro k
  rw [List.getElem?_take, updateRange_getElem?, List.getElem?_map, List.getElem?_take]
  by_cases hk : k < n
  · simp [hk]
  · simp [hk]

/-- `for (k = 0; k < n; ++k) d[k] = p[k];`, `p` not pointing to `d`. -/
theorem copyLoop_returns {d n : Nat} {p : Option Nat} {dst src : List T}
    (hd : s.heap.array d = some dst) (hp : s.heap.PointsTo p src) (hpd : p ≠ some d)
    (hdn : n ≤ dst.length) (hsn : n ≤ src.length) :
    Returns (forUp (fun k => assign E ⟨some d, k⟩ (.slot ⟨p, k⟩)) 0 n) s ()
      (s.write d (updateRange (copySlot E src) 0 n dst)) := by
  have hloop := slotLoop_returns (fun k => assign E ⟨some d, k⟩ (.slot ⟨p, k⟩)) (copySlot E src) 0 n
    (p := some d) hd (by omega)
    fun b k now old hb _ hk hnow harr => by
      cases hb
      have hsk : src[k]? = some src[k] := List.getElem?_eq_getElem (by omega)
      have hread : Returns (Ref.read (.slot ⟨p, k⟩)) s src[k] s := load_pointsTo hp hsk
      have hout : Ref.Outside d (.slot ⟨p, k⟩ : Ref T) := Ref.outside_slot hpd
      have hstep := assign_outside (E := E) harr hnow (Ref.read_write hout hd hread now) hout
      rwa [Store.write_write, ← copySlot_of_some hsk] at hstep
  rwa [Nat.zero_add] at hloop

/-- `for (k = lo; k < hi; ++k) buffer_[k] = val;`, `val` not a reference into the buffer. -/
theorem fill_returns (val : Ref T) {i lo hi : Nat} {o : Fields} {slots : List T} {x : T}
    (hobj : s.objects.entry i = some o) (hp : s.heap.PointsTo o.buffer_ slots) (hlo : lo ≤ hi)
    (hhi : hi ≤ slots.length) (hread : Returns val.read s x s)
    (hout : ∀ b, o.buffer_ = some b → val.Outside b) :
    Returns (fill E i lo hi val) s ()
      (s.writeAt o.buffer_ (updateRange (fun _ old => E.assign old x) lo hi slots)) := by
  have hloop := slotLoop_returns (fun k => do
      let v ← object i
      assign E ⟨v.buffer_, k⟩ val) (fun _ old => E.assign old x) lo (hi - lo) hp (by omega)
    fun b k now old hb _ hk hnow harr => by
      rw [hb] at hp
      refine Returns.bind (object_returns (o := o) (s := s.write b now) hobj) ?_
      have hstep := assign_outside (E := E) harr hnow
        (Ref.read_write (hout b hb) hp hread now) (hout b hb)
      rwa [Store.write_write, ← hb] at hstep
  rwa [Nat.add_sub_cancel' hlo] at hloop

/-- `for (k = 0; k < n; ++k) buffer_[k] = x.buffer_[k];` between objects with different buffers. -/
theorem copyFrom_returns {i j n : Nat} {o w : Fields} {dst src : List T}
    (hi : s.objects.entry i = some o) (hj : s.objects.entry j = some w)
    (hd : s.heap.PointsTo o.buffer_ dst) (hp : s.heap.PointsTo w.buffer_ src)
    (hpd : ∀ d, o.buffer_ = some d → w.buffer_ ≠ some d) (hdn : n ≤ dst.length)
    (hsn : n ≤ src.length) :
    Returns (copyFrom E i j n) s ()
      (s.writeAt o.buffer_ (updateRange (copySlot E src) 0 n dst)) := by
  have hloop := slotLoop_returns (fun k => do
      let v ← object i
      let w ← object j
      assign E ⟨v.buffer_, k⟩ (.slot ⟨w.buffer_, k⟩)) (copySlot E src) 0 n hd (by omega)
    fun b k now old hb _ hk hnow harr => by
      rw [hb] at hd
      have hsk : src[k]? = some src[k] := List.getElem?_eq_getElem (by omega)
      have hread : Returns (Ref.read (.slot ⟨w.buffer_, k⟩)) s src[k] s := load_pointsTo hp hsk
      have hout : Ref.Outside b (.slot ⟨w.buffer_, k⟩ : Ref T) := Ref.outside_slot (hpd b hb)
      refine Returns.bind (object_returns (o := o) (s := s.write b now) hi) ?_
      refine Returns.bind (object_returns (o := w) (s := s.write b now) hj) ?_
      have hstep := assign_outside (E := E) harr hnow (Ref.read_write hout hd hread now) hout
      rwa [Store.write_write, ← copySlot_of_some hsk, ← hb] at hstep
  rwa [Nat.zero_add] at hloop

/-- The same loop when both names stand for one object: every element is assigned to itself. -/
theorem copyFrom_self {i n : Nat} {o : Fields} {slots : List T}
    (hi : s.objects.entry i = some o) (hp : s.heap.PointsTo o.buffer_ slots)
    (hn : n ≤ slots.length) :
    Returns (copyFrom E i i n) s ()
      (s.writeAt o.buffer_ (updateRange (fun _ old => E.selfAssign old) 0 n slots)) := by
  have hloop := slotLoop_returns (fun k => do
      let v ← object i
      let w ← object i
      assign E ⟨v.buffer_, k⟩ (.slot ⟨w.buffer_, k⟩)) (fun _ old => E.selfAssign old) 0 n hp
    (by omega)
    fun b k now old hb _ hk hnow harr => by
      refine Returns.bind (object_returns (o := o) (s := s.write b now) hi) ?_
      refine Returns.bind (object_returns (o := o) (s := s.write b now) hi) ?_
      have hread : Returns (Ref.read (.slot ⟨some b, k⟩)) (s.write b now) old (s.write b now) :=
        load_returns harr hnow
      have hstep := assign_returns (E := E) harr hnow hread
      rwa [Store.write_write, Ref.isSlot, if_pos (decide_eq_true rfl), ← hb] at hstep
  rwa [Nat.zero_add] at hloop

/-! ## `reserve` -/

theorem reserve_noop {i n : Nat} {o : Fields} (hi : s.objects.entry i = some o)
    (hn : n ≤ o.capacity_) : Returns (reserve P i n) s () s := by
  refine Returns.bind (object_returns hi) ?_
  rw [onlyIf_neg (by omega)]
  exact Returns.pure () s

/-- The store after a `reserve(n)` that reallocates: the old array is released, the new one is the
    next array, and its contents are what the platform leaves in it. -/
def reserved (P : Platform T) (s : Store Fields T) (i : Nat) (o : Fields) (n : Nat) :
    Store Fields T :=
  ⟨s.objects.set i ⟨o.size_, leastPow n, some s.heap.next⟩,
    (s.heap.drop o.buffer_).alloc ((List.range (leastPow n)).map (P.initial s.heap.next))⟩

/-- What the platform leaves in the first `n` slots of the next array. -/
def fresh (P : Platform T) (s : Store Fields T) (n : Nat) : List T :=
  (List.range n).map (P.initial s.heap.next)

theorem take_fresh {m n : Nat} (h : m ≤ n) : (fresh P s n).take m = fresh P s m := by
  rw [fresh, ← List.map_take, List.take_range, Nat.min_eq_left h, fresh]

theorem reserved_array {i n : Nat} {o : Fields} :
    (reserved P s i o n).heap.array s.heap.next = some (fresh P s (leastPow n)) := by
  rw [reserved, Heap.alloc_array, Heap.drop_next, Function.update_self]
  rfl

theorem reserve_grows (hP : P.Generous) {i n : Nat} {o : Fields} {slots : List T}
    (hi : s.objects.entry i = some o) (hbuf : s.heap.PointsTo o.buffer_ slots)
    (hlt : o.capacity_ < n) (hn : n ≤ maxRequest) :
    Returns (reserve P i n) s () (reserved P s i o n) := by
  refine Returns.bind (object_returns hi) ?_
  rw [onlyIf_pos hlt]
  refine Returns.bind (deleteArray_pointsTo hbuf) ?_
  rw [grown_eq (by omega) hn]
  refine Returns.bind (modifyObject_returns (s := ⟨s.objects, s.heap.drop o.buffer_⟩) hi _) ?_
  refine Returns.bind (newArray_returns hP _ _) ?_
  have hput := modifyObject_returns (s := ⟨s.objects.set i ⟨o.size_, leastPow n, o.buffer_⟩,
    (s.heap.drop o.buffer_).alloc ((List.range (leastPow n)).map (P.initial s.heap.next))⟩)
    (Store.put_entry hi _) (fun v => { v with buffer_ := some s.heap.next })
  rw [Store.put, Table.set_set] at hput
  simpa [Store.put, reserved] using hput

theorem reserve_diverges {i n : Nat} {o : Fields} {slots : List T}
    (hi : s.objects.entry i = some o) (hbuf : s.heap.PointsTo o.buffer_ slots)
    (hlt : o.capacity_ < n) (hn : maxRequest < n) : Fails (reserve P i n) s .diverges := by
  refine Fails.bind_right (object_returns hi) ?_
  rw [onlyIf_pos hlt]
  refine Fails.bind_right (deleteArray_pointsTo hbuf) ?_
  rw [grown_diverges hn]
  exact ⟨_, rfl⟩

/-! ## Regrowing -/

/-- The first lines of `regrow`: the elements are saved in a new array, the next one. -/
theorem save_returns (hP : P.Generous) {old : List T} (hbuf : s.heap.PointsTo o.buffer_ old)
    (hsize : o.size_ ≤ old.length) : ∃ (s₁ s₂ : Store Fields T) (saved : List T),
      Returns (newArray P o.size_) s s.heap.next s₁ ∧
      Returns (forUp (fun k => assign E ⟨some s.heap.next, k⟩ (.slot ⟨o.buffer_, k⟩)) 0 o.size_)
        s₁ () s₂ ∧
      s₂.objects = s.objects ∧ s₂.heap.next = s.heap.next + 1 ∧
      s₂.heap.array = Function.update s.heap.array s.heap.next (some saved) ∧
      saved.length = o.size_ ∧ (E.Copies → saved = old.take o.size_) := by
  -- the buffer is another array than the new one, or null
  have hne : o.buffer_ ≠ some s.heap.next := fun he => by
    have := hbuf.lt_next he
    omega
  have htmp := newArray_returns hP o.size_ s
  set init := (List.range o.size_).map (P.initial s.heap.next) with hinit
  have hinitlen : init.length = o.size_ := by simp [hinit]
  have harr : (s.heap.alloc init).array s.heap.next = some init := Function.update_self ..
  have hbuf₁ : (s.heap.alloc init).PointsTo o.buffer_ old :=
    hbuf.congr fun c hc => Function.update_of_ne (Nat.ne_of_lt (hbuf.lt_next hc)) _ _
  have hcopy := copyLoop_returns (E := E) (s := ⟨s.objects, s.heap.alloc init⟩) harr hbuf₁ hne
    (Nat.le_of_eq hinitlen.symm) hsize
  refine ⟨_, _, updateRange (copySlot E old) 0 o.size_ init, htmp, hcopy, rfl, rfl, ?_, ?_, ?_⟩
  · rw [Store.write_heap, Heap.write_array harr, Heap.alloc_array, Function.update_idem]
  · rw [updateRange_length, hinitlen]
  · intro hE
    have htake := take_copySlot hE (Nat.le_of_eq hinitlen.symm) hsize
    rwa [List.take_of_length_le (by rw [updateRange_length, hinitlen])] at htake

/-- What `regrow(n)` past the capacity leaves: object `i` owns a new array of `leastPow n` slots
    that starts with the old elements, its old array is released, nothing else changed. -/
structure Regrown (E : Element T) (i n : Nat) (o : Fields) (s s' : Store Fields T) (old : List T) :
    Prop where
  objects : s'.objects = s.objects.set i ⟨o.size_, leastPow n, some (s.heap.next + 1)⟩
  new : ∃ slots, s'.heap.array (s.heap.next + 1) = some slots ∧ slots.length = leastPow n ∧
    (E.Copies → slots.take o.size_ = old.take o.size_)
  gone : ∀ c, o.buffer_ = some c → s'.heap.array c = none
  others : ∀ c, o.buffer_ ≠ some c → c ≠ s.heap.next + 1 → s'.heap.array c = s.heap.array c

theorem regrow_returns (hP : P.Generous) {n : Nat} {old : List T}
    (ho : s.objects.entry i = some o) (hbuf : s.heap.PointsTo o.buffer_ old)
    (hsize : o.size_ ≤ old.length) (hcap : old.length = o.capacity_) (hlt : o.capacity_ < n)
    (hn : n ≤ maxRequest) :
    ∃ s', Returns (regrow P E i n) s () s' ∧ Regrown E i n o s s' old := by
  obtain ⟨s₁, s₂, saved, htmp, hsave, hobj, hnext, harr₂, hsavedlen, hsaved⟩ :=
    save_returns (E := E) hP hbuf hsize
  have hlt_next : ∀ c, o.buffer_ = some c → c < s.heap.next := fun _ hc => hbuf.lt_next hc
  have ho₂ : s₂.objects.entry i = some o := by rw [hobj]; exact ho
  have hbuf₂ : s₂.heap.PointsTo o.buffer_ old := hbuf.congr fun c hc => by
    have := hlt_next c hc
    rw [harr₂, Function.update_of_ne (by omega)]
  -- `reserve` releases the old buffer and allocates number `next + 1`
  have hres := reserve_grows hP ho₂ hbuf₂ hlt hn
  set fresh := (List.range (leastPow n)).map (P.initial s₂.heap.next) with hfresh
  have hfreshlen : fresh.length = leastPow n := by simp [hfresh]
  set s₃ := reserved P s₂ i o n with hs₃
  have harr₃ : ∀ c, s₃.heap.array c = if c = s.heap.next + 1 then some fresh
      else if o.buffer_ = some c then none else s₂.heap.array c := by
    intro c
    rw [hs₃, reserved, Heap.alloc_array, Heap.drop_next, ← hnext]
    by_cases hc : c = s₂.heap.next
    · rw [if_pos hc, hc, Function.update_self]
    · rw [if_neg hc, Function.update_of_ne hc, Heap.drop_array]
  have hnew₃ : s₃.heap.array (s.heap.next + 1) = some fresh := by rw [harr₃, if_pos rfl]
  have htmp₃ : s₃.heap.array s.heap.next = some saved := by
    rw [harr₃, if_neg (by omega), if_neg fun hc => absurd (hlt_next _ hc) (by omega), harr₂,
      Function.update_self]
  have ho₃ : s₃.objects.entry i = some ⟨o.size_, leastPow n, some (s.heap.next + 1)⟩ := by
    rw [hs₃, reserved, hnext]
    exact Store.put_entry ho₂ _
  have hsizen : o.size_ ≤ leastPow n := by
    have := le_leastPow n
    omega
  -- the saved elements go to the new buffer, the temporary array is released
  have hcopy := copyLoop_returns (E := E) (n := o.size_) (p := some s.heap.next) hnew₃ htmp₃
    (by simp) (by rw [hfreshlen]; exact hsizen) (Nat.le_of_eq hsavedlen.symm)
  set final := updateRange (copySlot E saved) 0 o.size_ fresh with hfinal
  have harr₄ : (s₃.write (s.heap.next + 1) final).heap.array
      = Function.update s₃.heap.array (s.heap.next + 1) (some final) := Heap.write_array hnew₃ final
  have htmp₄ : (s₃.write (s.heap.next + 1) final).heap.array s.heap.next = some saved := by
    rw [harr₄, Function.update_of_ne (by omega), htmp₃]
  refine ⟨_, Returns.bind (object_returns ho) (Returns.bind htmp (Returns.bind hsave
    (Returns.bind hres (Returns.bind (object_returns ho₃) (Returns.bind hcopy
      (deleteArray_returns htmp₄)))))), ?_, ⟨final, ?_, ?_, ?_⟩, ?_, ?_⟩
  · rw [Store.write_objects, hs₃, reserved, hobj, hnext]
  · rw [Heap.release_array, Function.update_of_ne (by omega), harr₄, Function.update_self]
  · rw [hfinal, updateRange_length, hfreshlen]
  · intro hE
    rw [hfinal, take_copySlot hE (by omega) (by omega), hsaved hE, List.take_take, Nat.min_self]
  · intro c hc
    have := hlt_next c hc
    rw [Heap.release_array, Function.update_of_ne (by omega), harr₄,
      Function.update_of_ne (by omega), harr₃, if_neg (by omega), if_pos hc]
  · intro c hc hcn
    by_cases hct : c = s.heap.next
    · rw [hct, Heap.release_array, Function.update_self, Heap.array_next]
    · rw [Heap.release_array, Function.update_of_ne hct, harr₄, Function.update_of_ne hcn, harr₃,
        if_neg hcn, if_neg hc, harr₂, Function.update_of_ne hct]

theorem regrow_diverges (hP : P.Generous) {n : Nat} {old : List T}
    (ho : s.objects.entry i = some o) (hbuf : s.heap.PointsTo o.buffer_ old)
    (hsize : o.size_ ≤ old.length) (hlt : o.capacity_ < n) (hn : maxRequest < n) :
    Fails (regrow P E i n) s .diverges := by
  obtain ⟨s₁, s₂, saved, htmp, hsave, hobj, _, harr₂, _, _⟩ := save_returns (E := E) hP hbuf hsize
  have hbuf₂ : s₂.heap.PointsTo o.buffer_ old := hbuf.congr fun c hc => by
    have := hbuf.lt_next hc
    rw [harr₂, Function.update_of_ne (by omega)]
  refine Fails.bind_right (object_returns ho) (Fails.bind_right htmp (Fails.bind_right hsave ?_))
  exact Fails.bind_left (reserve_diverges (by rw [hobj]; exact ho) hbuf₂ hlt hn)

end LinuxSamples.Vector
