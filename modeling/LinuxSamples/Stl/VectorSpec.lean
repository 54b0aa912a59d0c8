import LinuxSamples.Memory.Ownership
import LinuxSamples.Stl.VectorLoops

set_option autoImplicit false

/-! # What each member function of `fbcstd::vector` does to the value of its object

`Cells` is the value of a vector: its elements, and as a history variable its peak, the largest size
it has ever had or been asked to reserve. Each operation has its counterpart on `Cells`, and one
theorem here says that the member function, called on an object standing for `t`, leaves it standing
for the counterpart applied to `t` and every other object of the family unchanged.

The flag `exact` of the value model says whether the element values are followed too, or only their
number: after a `reserve` that reallocates the code has lost the values. -/

namespace LinuxSamples.Vector

open LinuxSamples.Program LinuxSamples.Memory

variable {T : Type}

/-! ## Elements with a history -/

/-- The elements of a vector, and the largest size it has ever had or been asked to reserve. -/
structure Cells (T : Type) where
  elems : List T
  peak : Nat
  fits : elems.length ≤ peak

theorem take_set_succ {l : List T} {n : Nat} {x : T} (h : n < l.length) :
    (l.set n x).take (n + 1) = l.take n ++ [x] := by
  rw [List.take_succ_eq_append_getElem (by simpa using h)]
  simp [List.take_set_of_le]

namespace Cells

/-- The capacity the code has for this history. -/
def capacity (t : Cells T) : Nat := capacityFor t.peak

def empty : Cells T := ⟨[], 0, Nat.le_refl 0⟩

def replicate (n : Nat) (x : T) : Cells T := ⟨List.replicate n x, n, Nat.le_of_eq (by simp)⟩

def assign (t u : Cells T) : Cells T :=
  ⟨u.elems, max t.peak u.elems.length, Nat.le_max_right ..⟩

def selfAssign (E : Element T) (t : Cells T) : Cells T :=
  ⟨t.elems.map E.selfAssign, t.peak, by rw [List.length_map]; exact t.fits⟩

def reserve (t : Cells T) (n : Nat) : Cells T :=
  ⟨t.elems, max t.peak n, Nat.le_trans t.fits (Nat.le_max_left ..)⟩

def pushBack (t : Cells T) (x : T) : Cells T :=
  ⟨t.elems ++ [x], max t.peak (t.elems.length + 1), by
    rw [List.length_append]
    exact Nat.le_max_right ..⟩

def popBack (t : Cells T) : Cells T :=
  ⟨t.elems.dropLast, t.peak, by
    have := t.fits
    rw [List.length_dropLast]
    omega⟩

def resize (t : Cells T) (n : Nat) (x : T) : Cells T :=
  ⟨t.elems.take n ++ List.replicate (n - t.elems.length) x, max t.peak n, by
    simp only [List.length_append, List.length_take, List.length_replicate]
    omega⟩

def clear (t : Cells T) : Cells T := ⟨[], t.peak, Nat.zero_le _⟩

def write (t : Cells T) (k : Nat) (x : T) : Cells T :=
  ⟨t.elems.set k x, t.peak, by rw [List.length_set]; exact t.fits⟩

@[ext] theorem ext {t u : Cells T} (helems : t.elems = u.elems) (hpeak : t.peak = u.peak) :
    t = u := by
  cases t
  cases u
  cases helems
  cases hpeak
  rfl

@[simp] theorem pushBack_length (t : Cells T) (x : T) :
    (t.pushBack x).elems.length = t.elems.length + 1 := List.length_append

@[simp] theorem write_length (t : Cells T) (k : Nat) (x : T) :
    (t.write k x).elems.length = t.elems.length := List.length_set

theorem resize_length (t : Cells T) (n : Nat) (x : T) : (t.resize n x).elems.length = n := by
  simp only [resize, List.length_append, List.length_take, List.length_replicate]
  omega

theorem resize_elems (t : Cells T) (n : Nat) (x : T) :
    (t.resize n x).elems = t.elems.take n ++ List.replicate (n - t.elems.length) x := rfl

theorem fits_capacity (t : Cells T) : t.elems.length ≤ t.capacity :=
  Nat.le_trans t.fits (le_capacityFor t.peak)

end Cells

/-! ## The value of an object -/

/-- Object fields `o` stand for `t` in heap `h`: the buffer has exactly `capacity_` slots, is null
    iff there are none, and, when `exact` holds, starts with the elements. -/
structure Holds (exact : Prop) (h : Heap T) (o : Fields) (t : Cells T) : Prop where
  size : o.size_ = t.elems.length
  capacity : o.capacity_ = t.capacity
  bounded : t.peak ≤ maxRequest
  null : o.buffer_ = none ↔ t.capacity = 0
  buffer : ∃ slots, h.PointsTo o.buffer_ slots ∧ slots.length = t.capacity ∧
    (exact → slots.take t.elems.length = t.elems)

/-- `fbcstd::vector<T>` as a class whose objects own their buffers. -/
def model (T : Type) (exact : Prop) : ClassModel Fields T (Cells T) where
  buffer := Fields.buffer_
  Holds := Holds exact
  holds_congr := by
    intro h h' o t hold hsame
    refine ⟨hold.size, hold.capacity, hold.bounded, hold.null, ?_⟩
    obtain ⟨slots, hp, hrest⟩ := hold.buffer
    refine ⟨slots, ?_, hrest⟩
    exact hp.congr hsame
  holds_live := by
    intro h o t c hold hc
    obtain ⟨slots, hp, _⟩ := hold.buffer
    rw [hc] at hp
    exact ⟨slots, hp⟩

variable {P : Platform T} {E : Element T} {exact : Prop} {s s' : Store Fields T}
  {F : Table (Cells T)} {i j : Nat} {o : Fields} {t u : Cells T}

theorem Holds.capacity_le (hold : Holds exact s.heap o t) : t.capacity ≤ maxRequest :=
  capacityFor_le_max hold.bounded

/-- The room made for `n` elements is the capacity the new history asks for. -/
theorem Holds.room (hold : Holds exact s.heap o t) {n : Nat} (hu : u.peak = max t.peak n) :
    u.capacity = Vector.room o.capacity_ n := by
  rw [hold.capacity, Cells.capacity, hu, ← room_capacityFor, Cells.capacity]

/-! ## Making room -/

/-- From `s` to `s₁`, object `i` was given room for `n` elements: its capacity is the one `reserve`
    settles on, its buffer, now holding `slots`, is the old one or a new one, and no other array
    changed. -/
structure Roomy (i n : Nat) (o o₁ : Fields) (s s₁ : Store Fields T) (slots : List T) : Prop where
  objects : s₁.objects = s.objects.set i o₁
  size : o₁.size_ = o.size_
  capacity : o₁.capacity_ = room o.capacity_ n
  null : o₁.buffer_ = none ↔ o₁.capacity_ = 0
  buffer : s₁.heap.PointsTo o₁.buffer_ slots
  length : slots.length = o₁.capacity_
  arrays : ∀ c, o.buffer_ ≠ some c → o₁.buffer_ ≠ some c → s₁.heap.array c = s.heap.array c
  own : ∀ c, o₁.buffer_ = some c → o.buffer_ = some c ∨ s.heap.array c = none

theorem Roomy.refl {n : Nat} {slots : List T} (ho : s.objects.entry i = some o)
    (hold : Holds exact s.heap o t) (hp : s.heap.PointsTo o.buffer_ slots)
    (hlen : slots.length = t.capacity) (hn : n ≤ t.capacity) : Roomy i n o o s s slots where
  objects := (Table.set_self ho).symm
  size := rfl
  capacity := by rw [hold.capacity, room_of_le hn]
  null := by rw [hold.capacity]; exact hold.null
  buffer := hp
  length := by rw [hold.capacity, hlen]
  arrays _ _ _ := rfl
  own _ hc := Or.inl hc

theorem Roomy.entry {n : Nat} {o₁ : Fields} {s₁ : Store Fields T} {slots : List T}
    (hr : Roomy i n o o₁ s s₁ slots) (ho : s.objects.entry i = some o) :
    s₁.objects.entry i = some o₁ := by
  rw [hr.objects]
  exact Store.put_entry ho o₁

theorem Roomy.le_length {n : Nat} {o₁ : Fields} {s₁ : Store Fields T} {slots : List T}
    (hr : Roomy i n o o₁ s s₁ slots) : n ≤ slots.length := by
  rw [hr.length, hr.capacity]
  exact le_room o.capacity_ n

theorem reserve_roomy (hP : P.Generous) {n : Nat} (ho : s.objects.entry i = some o)
    (hold : Holds exact s.heap o t) (hn : n ≤ maxRequest) :
    ∃ s₁ o₁ slots, Returns (reserve P i n) s () s₁ ∧ Roomy i n o o₁ s s₁ slots ∧
      (t.capacity < n → slots = fresh P s (leastPow n)) := by
  obtain ⟨old, hp, hlen, _⟩ := hold.buffer
  by_cases hlt : o.capacity_ < n
  · refine ⟨_, ⟨o.size_, leastPow n, some s.heap.next⟩, _, reserve_grows hP ho hp hlt hn,
      ⟨rfl, rfl, (room_of_lt hlt).symm, ?_, reserved_array, by simp [fresh], ?_, ?_⟩, fun _ => rfl⟩
    · have := leastPow_pos n
      simp only [reduceCtorEq, false_iff]
      omega
    · intro c hc hnew
      have hnew' : c ≠ s.heap.next := fun he => hnew (congrArg some he.symm)
      rw [reserved, Heap.alloc_array, Heap.drop_next, Function.update_of_ne hnew',
        Heap.drop_array, if_neg hc]
    · intro c hc
      cases hc
      exact Or.inr s.heap.array_next
  · rw [hold.capacity] at hlt
    exact ⟨s, o, old, reserve_noop ho (by rw [hold.capacity]; omega),
      Roomy.refl ho hold hp hlen (by omega), fun hgrow => absurd hgrow hlt⟩

/-- Saving and restoring the elements around `reserve` keeps them. -/
theorem regrow_roomy (hP : P.Generous) {n : Nat} (ho : s.objects.entry i = some o)
    (hold : Holds exact s.heap o t) (hlt : t.capacity < n) (hn : n ≤ maxRequest) :
    ∃ s₁ o₁ slots, Returns (regrow P E i n) s () s₁ ∧ Roomy i n o o₁ s s₁ slots ∧
      (exact → E.Copies → slots.take t.elems.length = t.elems) ∧
      ∀ c, o.buffer_ = some c → s₁.heap.array c = none := by
  obtain ⟨old, hp, hlen, htake⟩ := hold.buffer
  have hfits := t.fits_capacity
  have hsize : o.size_ ≤ old.length := by rw [hold.size]; omega
  rw [← hold.capacity] at hlt
  obtain ⟨s₁, hret, hgrown⟩ := regrow_returns (E := E) hP ho hp hsize
    (hlen.trans hold.capacity.symm) hlt hn
  obtain ⟨slots, hnew, hlen', hkeep⟩ := hgrown.new
  refine ⟨s₁, ⟨o.size_, leastPow n, some (s.heap.next + 1)⟩, slots, hret,
    ⟨hgrown.objects, rfl, (room_of_lt hlt).symm, ?_, hnew, hlen', ?_, ?_⟩, ?_, hgrown.gone⟩
  · have := leastPow_pos n
    simp only [reduceCtorEq, false_iff]
    omega
  · intro c hc hcn
    exact hgrown.others c hc fun he => hcn (congrArg some he.symm)
  · intro c hc
    cases hc
    exact Or.inr (s.heap.arrays.fresh _ (Nat.le_succ _))
  · intro hx hE
    have hsame := hkeep hE
    rw [hold.size, htake hx] at hsame
    exact hsame

/-- A readable reference stays readable while its array is neither the old nor the new buffer. -/
theorem Roomy.read {n : Nat} {o₁ : Fields} {s₁ : Store Fields T} {slots : List T} {val : Ref T}
    {x : T} (hr : Roomy i n o o₁ s s₁ slots)
    (hread : Returns val.read s x s) (hout : ∀ c, o.buffer_ = some c → val.Outside c) :
    Returns val.read s₁ x s₁ ∧ ∀ c, o₁.buffer_ = some c → val.Outside c := by
  have hnew : ∀ c, o₁.buffer_ = some c → val.Outside c := by
    intro c hc p hp hpc
    rcases hr.own c hc with hold | hnone
    · exact hout c hold p hp hpc
    · obtain ⟨slots', hlive, _⟩ := Ref.read_live hread hp hpc
      rw [hnone] at hlive
      cases hlive
  refine ⟨Ref.read_congr hread fun p b hp hb => hr.arrays b (fun hc => hout b hc p hp hb) ?_, hnew⟩
  exact fun hc => hnew b hc p hp hb

/-- **Finishing a call.** Once there is room, overwriting the buffer and setting the size field
    leaves the object standing for whatever the buffer now starts with. -/
theorem Roomy.represents {n : Nat} {o₁ : Fields} {s₁ s₂ : Store Fields T} {slots : List T}
    (hr : Roomy i n o o₁ s s₁ slots) (now : List T) (h : Represents (model T exact) s F)
    (hi : F.entry i = some t) (ho : s.objects.entry i = some o) (hmax : n ≤ maxRequest)
    (u : Cells T) (hpeak : u.peak = max t.peak n) (hnow : now.length = slots.length)
    (hu : exact → now.take u.elems.length = u.elems)
    (hobj : s₂.objects = s.objects.set i { o₁ with size_ := u.elems.length })
    (hheap : s₂.heap = (s₁.writeAt o₁.buffer_ now).heap) :
    Represents (model T exact) s₂ (F.set i u) := by
  have hold := h.holds_at hi ho
  have hb : Rebinds (model T exact) i (some { o₁ with size_ := u.elems.length }) s s₂ := by
    refine ⟨by rw [hobj]; exact Table.set_entry ho _, ?_, ?_⟩
    · intro c hold' hnew
      have hne : o₁.buffer_ ≠ some c := hnew { o₁ with size_ := u.elems.length } rfl
      rw [hheap, hr.buffer.writeAt_other hne]
      exact hr.arrays c (fun hc => hold' ⟨o, ho, hc⟩) hne
    · intro o₂ c ho₂ hc
      cases ho₂
      rcases hr.own c hc with hc' | hnone
      · exact Or.inl ⟨o, ho, hc'⟩
      · exact Or.inr hnone
  have hbuf : s₂.heap.PointsTo o₁.buffer_ now := by
    rw [hheap]
    exact hr.buffer.writeAt hnow
  have hcap : u.capacity = o₁.capacity_ := (hold.room hpeak).trans hr.capacity.symm
  refine h.set hi hb (by rw [hobj, Table.set_next])
    ⟨rfl, hcap.symm, ?_, by rw [hcap]; exact hr.null, now, hbuf, ?_, hu⟩
  · rw [hpeak]
    exact Nat.max_le.2 ⟨hold.bounded, hmax⟩
  · rw [hnow, hr.length, hcap]

/-- The same, for a call that starts with enough room. -/
theorem overwritten {k : Nat} {s₂ : Store Fields T} {slots : List T} (now : List T)
    (h : Represents (model T exact) s F) (hi : F.entry i = some t)
    (ho : s.objects.entry i = some o) (hp : s.heap.PointsTo o.buffer_ slots)
    (hnow : now.length = slots.length) (u : Cells T) (hpeak : u.peak = t.peak)
    (hu : exact → now.take u.elems.length = u.elems) (hk : u.elems.length = k)
    (hobj : s₂.objects = s.objects.set i { o with size_ := k })
    (hheap : s₂.heap = (s.writeAt o.buffer_ now).heap) :
    Represents (model T exact) s₂ (F.set i u) := by
  have hold := h.holds_at hi ho
  obtain ⟨slots', hp', hlen, _⟩ := hold.buffer
  obtain rfl := hp'.unique hp
  subst hk
  exact (Roomy.refl (n := 0) ho hold hp hlen (Nat.zero_le _)).represents now h hi ho (Nat.zero_le _) u
    (by rw [hpeak, Nat.max_zero]) hnow hu hobj hheap

/-! ## The modifiers -/

section Modifiers

variable (hP : P.Generous) (hE : exact → E.Copies) (h : Represents (model T exact) s F)
  (hi : F.entry i = some t)

include h hi in
/-- The size field changes, the buffer stays. -/
theorem resized {k : Nat} {u : Cells T} (ho : s.objects.entry i = some o)
    (hpeak : u.peak = t.peak) (hk : u.elems.length = k)
    (hu : ∀ slots : List T, slots.take t.elems.length = t.elems → slots.take k = u.elems) :
    Represents (model T exact) (s.put i { o with size_ := k }) (F.set i u) := by
  have hold := h.holds_at hi ho
  obtain ⟨slots, hp, _, htake⟩ := hold.buffer
  exact overwritten _ h hi ho hp rfl u hpeak (fun hx => by rw [hk]; exact hu slots (htake hx)) hk rfl
    (by rw [hp.writeAt_self]; rfl)

include h hi in
theorem clear_spec : ∃ s', Returns (clear i) s () s' ∧
    Represents (model T exact) s' (F.set i t.clear) := by
  obtain ⟨o, ho, _⟩ := h.lookup hi
  exact ⟨_, modifyObject_returns ho _, resized h hi (u := t.clear) ho rfl rfl fun _ _ => rfl⟩

include h hi in
theorem popBack_spec (hne : t.elems ≠ []) : ∃ s', Returns (popBack i) s () s' ∧
    Represents (model T exact) s' (F.set i t.popBack) := by
  obtain ⟨o, ho, hold⟩ := h.lookup hi
  have hpos : t.elems.length ≠ 0 := fun hz => hne (List.eq_nil_of_length_eq_zero hz)
  refine ⟨s.put i { o with size_ := o.size_ - 1 }, ?_,
    resized h hi (u := t.popBack) ho rfl ?_ fun slots hs => ?_⟩
  · refine Returns.bind (object_returns ho) ?_
    rw [if_neg (by rwa [hold.size])]
    exact modifyObject_returns ho _
  · rw [hold.size]
    exact List.length_dropLast
  · show slots.take (o.size_ - 1) = t.elems.dropLast
    rw [hold.size, List.dropLast_eq_take, ← hs, List.take_take]
    simp

include h hi in
theorem popBack_aborts (hnil : t.elems = []) : Fails (popBack i) s .abort := by
  obtain ⟨o, ho, hold⟩ := h.lookup hi
  refine Fails.bind_right (object_returns ho) ?_
  rw [if_pos (by rw [hold.size, hnil, List.length_nil])]
  exact ⟨s, rfl⟩

include hP h hi in
/-- `reserve` keeps the number of elements; their values only when it does not reallocate, or the new
    array happens to hold them. -/
theorem reserve_spec {n : Nat} (hn : n ≤ maxRequest)
    (hx : exact → n ≤ t.capacity ∨ fresh P s t.elems.length = t.elems) :
    ∃ s', Returns (reserve P i n) s () s' ∧
      Represents (model T exact) s' (F.set i (t.reserve n)) := by
  obtain ⟨o, ho, hold⟩ := h.lookup hi
  obtain ⟨slots, hp, hlen, htake⟩ := hold.buffer
  by_cases hcap : n ≤ t.capacity
  · have hroomy : Roomy i n o o s s slots := Roomy.refl ho hold hp hlen hcap
    refine ⟨s, reserve_noop ho (by rw [hold.capacity]; exact hcap),
      hroomy.represents slots h hi ho hn (t.reserve n) rfl rfl htake ?_ ?_⟩
    · show s.objects = s.objects.set i { o with size_ := t.elems.length }
      rw [← hold.size]
      exact (Table.set_self ho).symm
    · rw [hp.writeAt_self]
  · obtain ⟨s₁, o₁, new, hret, hr, hnew⟩ := reserve_roomy hP ho hold hn
    refine ⟨s₁, hret, hr.represents new h hi ho hn (t.reserve n) rfl rfl (fun he => ?_) ?_
      (by rw [hr.buffer.writeAt_self])⟩
    · have hsame : fresh P s t.elems.length = t.elems := (hx he).resolve_left hcap
      have hfits := t.fits_capacity
      have hpow := le_leastPow n
      show new.take t.elems.length = t.elems
      rw [hnew (by omega), take_fresh (by omega), hsame]
    · show s₁.objects = s.objects.set i { o₁ with size_ := t.elems.length }
      rw [← hold.size, ← hr.size]
      exact hr.objects

include h hi in
theorem reserve_never_ends {n : Nat} (hn : maxRequest < n) : Fails (reserve P i n) s .diverges := by
  obtain ⟨o, ho, hold⟩ := h.lookup hi
  obtain ⟨slots, hp, _⟩ := hold.buffer
  have := hold.capacity_le
  exact reserve_diverges ho hp (by rw [hold.capacity]; omega) hn

include h hi in
theorem destroy_spec : ∃ s', Returns (destroy i) s () s' ∧
    Represents (model T exact) s' (F.erase i) := by
  obtain ⟨o, ho, hold⟩ := h.lookup hi
  obtain ⟨slots, hp, _⟩ := hold.buffer
  refine ⟨⟨s.objects.erase i, s.heap.drop o.buffer_⟩, ?_, h.erase ⟨rfl, ?_, ?_⟩ rfl⟩
  · refine Returns.bind (object_returns ho) (Returns.bind (deleteArray_pointsTo hp) ?_)
    exact dropObject_returns (s := ⟨s.objects, s.heap.drop o.buffer_⟩) ho
  · intro c hc _
    rw [Heap.drop_array]
    exact if_neg fun hb => hc ⟨o, ho, hb⟩
  · intro o' c ho' _
    cases ho'

/-! ## Adding elements -/

/-- The last two lines of `push_back`, once there is room. -/
theorem append_returns {o₁ : Fields} {s₁ : Store Fields T} {slots : List T} {val : Ref T} {x : T}
    (ho : s₁.objects.entry i = some o₁) (hp : s₁.heap.PointsTo o₁.buffer_ slots)
    (hroom : o₁.size_ < slots.length) (hmax : o₁.size_ + 1 ≤ maxRequest)
    (hread : Returns val.read s₁ x s₁)
    (hslot : ∀ c, o₁.buffer_ = some c → val.isSlot ⟨some c, o₁.size_⟩ = false) :
    Returns (do
      let v ← object i
      assign E ⟨v.buffer_, v.size_⟩ val
      modifyObject i fun v => { v with size_ := wrap (v.size_ + 1) }) s₁ ()
      ((s₁.writeAt o₁.buffer_ (slots.set o₁.size_ (E.assign slots[o₁.size_] x))).put i
        { o₁ with size_ := o₁.size_ + 1 }) := by
  refine Returns.bind (object_returns ho) ?_
  cases hb : o₁.buffer_ with
  | none =>
      rw [hb] at hp
      have hnil : slots = [] := hp
      rw [hnil, List.length_nil] at hroom
      omega
  | some b =>
      rw [hb] at hp
      have hassign := assign_returns (E := E) hp (List.getElem?_eq_getElem hroom) hread
      rw [hslot b hb, if_neg Bool.false_ne_true] at hassign
      refine Returns.bind hassign ?_
      have hmod := modifyObject_returns
        (s := s₁.write b (slots.set o₁.size_ (E.assign slots[o₁.size_] x))) ho
        fun v : Fields => { v with size_ := wrap (v.size_ + 1) }
      have hwrap : wrap (o₁.size_ + 1) = o₁.size_ + 1 :=
        Nat.mod_eq_of_lt (Nat.lt_of_le_of_lt hmax (by decide))
      rw [hwrap, hb] at hmod
      exact hmod

include hP hE h hi in
/-- **`push_back` appends**, for a value outside the vector's own buffer, or inside it while no
    reallocation is needed. -/
theorem pushBack_spec {val : Ref T} {x y : T} (hn : t.elems.length + 1 ≤ maxRequest)
    (hread : Returns val.read s x s) (hxy : exact → x = y)
    (hout : t.capacity ≤ t.elems.length → ∀ c, Owns (model T exact) s i c → val.Outside c)
    (hslot : ∀ c, Owns (model T exact) s i c → val.isSlot ⟨some c, t.elems.length⟩ = false) :
    ∃ s', Returns (pushBack P E i val) s () s' ∧
      Represents (model T exact) s' (F.set i (t.pushBack y)) := by
  obtain ⟨o, ho, hold⟩ := h.lookup hi
  have hwrap : wrap (o.size_ + 1) = t.elems.length + 1 := by
    rw [hold.size]
    exact Nat.mod_eq_of_lt (Nat.lt_of_le_of_lt hn (by decide))
  -- both branches of the capacity test leave room and the elements in place
  have hroomy : ∃ s₁ o₁ slots,
      Returns (onlyIf (o.capacity_ ≤ o.size_) (regrow P E i (wrap (o.size_ + 1)))) s () s₁ ∧
      Roomy i (t.elems.length + 1) o o₁ s s₁ slots ∧
      (exact → slots.take t.elems.length = t.elems) ∧ Returns val.read s₁ x s₁ ∧
      ∀ c, o₁.buffer_ = some c → val.isSlot ⟨some c, t.elems.length⟩ = false := by
    rw [hold.capacity, hold.size] at *
    by_cases hfull : t.capacity ≤ t.elems.length
    · rw [onlyIf_pos hfull, hwrap]
      obtain ⟨s₁, o₁, slots, hret, hr, hkeep, _⟩ :=
        regrow_roomy (E := E) hP ho hold (n := t.elems.length + 1) (by omega) hn
      obtain ⟨hread₁, hout₁⟩ := hr.read hread fun c hc => hout hfull c ⟨o, ho, hc⟩
      exact ⟨s₁, o₁, slots, hret, hr, fun hx => hkeep hx (hE hx), hread₁,
        fun c hc => (hout₁ c hc).isSlot⟩
    · rw [onlyIf_neg hfull]
      obtain ⟨slots, hp, hlen, htake⟩ := hold.buffer
      exact ⟨s, o, slots, Returns.pure () s, Roomy.refl ho hold hp hlen (by omega), htake, hread,
        fun c hc => hslot c ⟨o, ho, hc⟩⟩
  obtain ⟨s₁, o₁, slots, hret, hr, htake, hread₁, hslot₁⟩ := hroomy
  have ho₁ : s₁.objects.entry i = some o₁ := hr.entry ho
  have hsize₁ : o₁.size_ = t.elems.length := hr.size.trans hold.size
  have hroom : o₁.size_ < slots.length := by
    rw [hsize₁]
    exact hr.le_length
  have hfinal := append_returns (E := E) ho₁ hr.buffer hroom (by rw [hsize₁]; exact hn) hread₁
    (by rw [hsize₁]; exact hslot₁)
  refine ⟨_, Returns.bind (object_returns ho) (Returns.bind hret hfinal), ?_⟩
  refine hr.represents _ h hi ho hn (t.pushBack y) rfl (List.length_set ..) (fun hx => ?_) ?_ rfl
  · rw [Cells.pushBack_length, ← hsize₁, take_set_succ hroom, hE hx, hsize₁, htake hx, hxy hx]
    rfl
  · rw [Store.put_objects, Store.writeAt_objects, hr.objects, Table.set_set, hsize₁]
    rw [Cells.pushBack_length]

include h hi in
/-- A `push_back` that reallocates has released the buffer before it reads its argument. -/
theorem pushBack_dangles (hP : P.Generous) {val : Ref T} (hfull : t.capacity ≤ t.elems.length)
    (hn : t.elems.length + 1 ≤ maxRequest) {p : Slot} {c : Nat} (hval : val = .slot p)
    (hp : p.array = some c) (hown : Owns (model T exact) s i c) :
    Fails (pushBack P E i val) s .released := by
  obtain ⟨o, ho, hc⟩ := hown
  have hold := h.holds_at hi ho
  have hwrap : wrap (o.size_ + 1) = t.elems.length + 1 := by
    rw [hold.size]
    exact Nat.mod_eq_of_lt (Nat.lt_of_le_of_lt hn (by decide))
  obtain ⟨s₁, o₁, slots, hret, hr, _, hgone⟩ :=
    regrow_roomy (E := E) hP ho hold (n := t.elems.length + 1) (by omega) hn
  have ho₁ : s₁.objects.entry i = some o₁ := hr.entry ho
  have hread : Fails val.read s₁ .released := by
    rw [hval, Ref.read, hp]
    exact Fails.bind_left (contents_released (hgone c hc))
  refine Fails.bind_right (object_returns ho) ?_
  rw [onlyIf_pos (by rw [hold.capacity, hold.size]; exact hfull), hwrap]
  exact Fails.bind_right hret (Fails.bind_right (object_returns ho₁)
    (Fails.bind_left (Fails.bind_left hread)))

include h hi in
theorem regrow_never_ends (hP : P.Generous) {n : Nat} (hn : maxRequest < n) :
    Fails (regrow P E i n) s .diverges := by
  obtain ⟨o, ho, hold⟩ := h.lookup hi
  obtain ⟨old, hp, hlen, _⟩ := hold.buffer
  have hfits := t.fits_capacity
  have hbound := hold.capacity_le
  exact regrow_diverges hP ho hp (by rw [hold.size]; omega) (by rw [hold.capacity]; omega) hn

include h hi in
theorem pushBack_never_ends (hP : P.Generous) {val : Ref T}
    (hn : maxRequest < t.elems.length + 1) : Fails (pushBack P E i val) s .diverges := by
  obtain ⟨o, ho, hold⟩ := h.lookup hi
  have hfits := t.fits_capacity
  have hbound := hold.capacity_le
  have hwrap : wrap (o.size_ + 1) = t.elems.length + 1 := by
    rw [hold.size]
    refine Nat.mod_eq_of_lt (Nat.lt_of_le_of_lt (Nat.succ_le_succ (hfits.trans hbound)) ?_)
    decide
  refine Fails.bind_right (object_returns ho) ?_
  rw [onlyIf_pos (by rw [hold.capacity, hold.size]; omega), hwrap]
  exact Fails.bind_left (regrow_never_ends h hi hP hn)

include hP hE h hi in
/-- `resize` truncates or pads. -/
theorem resize_spec {n : Nat} (hn : n ≤ maxRequest) {x y : T} (hxy : exact → x = y) :
    ∃ s', Returns (resize P E i n x) s () s' ∧
      Represents (model T exact) s' (F.set i (t.resize n y)) := by
  obtain ⟨o, ho, hold⟩ := h.lookup hi
  have hfits := t.fits
  by_cases hlt : t.elems.length < n
  · -- both branches of the capacity test leave room and the elements in place
    have hroomy : ∃ s₁ o₁ slots, Returns (onlyIf (o.capacity_ < n) (regrow P E i n)) s () s₁ ∧
        Roomy i n o o₁ s s₁ slots ∧ (exact → slots.take t.elems.length = t.elems) := by
      rw [hold.capacity]
      by_cases hcap : t.capacity < n
      · rw [onlyIf_pos hcap]
        obtain ⟨s₁, o₁, slots, hret, hr, hkeep, _⟩ := regrow_roomy (E := E) hP ho hold hcap hn
        exact ⟨s₁, o₁, slots, hret, hr, fun hx => hkeep hx (hE hx)⟩
      · rw [onlyIf_neg hcap]
        obtain ⟨slots, hp, hlen, htake⟩ := hold.buffer
        exact ⟨s, o, slots, Returns.pure () s, Roomy.refl ho hold hp hlen (by omega), htake⟩
    obtain ⟨s₁, o₁, slots, hret, hr, htake⟩ := hroomy
    have ho₁ : s₁.objects.entry i = some o₁ := hr.entry ho
    have hroom : n ≤ slots.length := hr.le_length
    have hfill := fill_returns (E := E) (.value x) ho₁ hr.buffer (Nat.le_of_lt hlt) hroom
      (Returns.pure x s₁) (fun b _ p hp => by cases hp)
    have hput := modifyObject_returns
      (s := s₁.writeAt o₁.buffer_ (updateRange (fun _ old => E.assign old x) t.elems.length n slots))
      (by rw [Store.writeAt_objects]; exact ho₁) fun v : Fields => { v with size_ := n }
    refine ⟨_, Returns.bind (object_returns ho) (Returns.bind (a := ()) ?_ hput), ?_⟩
    · rw [onlyIf_pos (by rwa [hold.size]), hold.size]
      exact Returns.bind hret hfill
    · refine hr.represents _ h hi ho hn (t.resize n y) rfl (updateRange_length ..)
        (fun hx => ?_) ?_ rfl
      · rw [Cells.resize_length, take_fill (hE hx) (Nat.le_of_lt hlt) hroom, htake hx,
          Cells.resize_elems, hxy hx, List.take_of_length_le (Nat.le_of_lt hlt)]
      · rw [Store.put_objects, Store.writeAt_objects, hr.objects, Table.set_set, Cells.resize_length]
  · have hle : n ≤ t.elems.length := by omega
    refine ⟨_, Returns.bind (object_returns ho) (Returns.bind (a := ()) ?_ (modifyObject_returns ho _)),
      resized h hi (u := t.resize n y) ho (Nat.max_eq_left (by omega)) (Cells.resize_length t n y) ?_⟩
    · rw [onlyIf_neg (by rwa [hold.size])]
      exact Returns.pure () s
    · intro slots hs
      rw [Cells.resize_elems, Nat.sub_eq_zero_of_le hle, List.replicate_zero, List.append_nil, ← hs,
        List.take_take, Nat.min_eq_left hle]

include h hi in
theorem resize_never_ends (hP : P.Generous) {n : Nat} (hn : maxRequest < n) (x : T) :
    Fails (resize P E i n x) s .diverges := by
  obtain ⟨o, ho, hold⟩ := h.lookup hi
  have hfits := t.fits_capacity
  have hbound := hold.capacity_le
  refine Fails.bind_right (object_returns ho) (Fails.bind_left ?_)
  rw [onlyIf_pos (by rw [hold.size]; omega), onlyIf_pos (by rw [hold.capacity]; omega)]
  exact Fails.bind_left (regrow_never_ends h hi hP hn)

include hP hE h hi in
/-- `operator=` from another vector makes the target's list the source's. -/
theorem operatorAssign_spec (hij : i ≠ j) (hj : F.entry j = some u) :
    ∃ s', Returns (operatorAssign P E i j) s () s' ∧
      Represents (model T exact) s' (F.set i (t.assign u)) := by
  obtain ⟨o, ho, hold⟩ := h.lookup hi
  obtain ⟨w, hw, wold⟩ := h.lookup hj
  obtain ⟨src, hsrc, hsrclen, hsrctake⟩ := wold.buffer
  have hufits := u.fits_capacity
  have hn : u.elems.length ≤ maxRequest := hufits.trans wold.capacity_le
  obtain ⟨s₁, o₁, slots, hret, hr, _⟩ := reserve_roomy hP ho hold hn
  have ho₁ : s₁.objects.entry i = some o₁ := hr.entry ho
  have hw₁ : s₁.objects.entry j = some w := by
    rw [hr.objects, Table.set_entry ho, Function.update_of_ne hij.symm]
    exact hw
  have hroom : u.elems.length ≤ slots.length := hr.le_length
  -- the source's buffer is neither the old nor the new buffer of the target
  have hother : ∀ c, w.buffer_ = some c → o.buffer_ ≠ some c ∧ o₁.buffer_ ≠ some c := by
    intro c hc
    have hoc : o.buffer_ ≠ some c := fun hb => hij (h.separate i j c ⟨o, ho, hb⟩ ⟨w, hw, hc⟩)
    refine ⟨hoc, fun hb => ?_⟩
    rcases hr.own c hb with hb' | hnone
    · exact hoc hb'
    · rw [hc] at hsrc
      exact absurd (hnone.symm.trans hsrc) (by simp)
  have hsrc₁ : s₁.heap.PointsTo w.buffer_ src :=
    hsrc.congr fun c hc => hr.arrays c (hother c hc).1 (hother c hc).2
  have hmod := modifyObject_returns ho₁ fun v : Fields => { v with size_ := u.elems.length }
  have hput := Store.put_entry ho₁ { o₁ with size_ := u.elems.length }
  have hjput : (s₁.put i { o₁ with size_ := u.elems.length }).objects.entry j = some w := by
    rw [Store.put_objects, Table.set_entry ho₁, Function.update_of_ne hij.symm]
    exact hw₁
  have hloop := copyFrom_returns (E := E) (n := u.elems.length) hput hjput hr.buffer hsrc₁
    (fun d hd hwd => (hother d hwd).2 hd) hroom (by omega)
  have hcall : Returns (operatorAssign P E i j) s ()
      ((s₁.put i { o₁ with size_ := u.elems.length }).writeAt o₁.buffer_
        (updateRange (copySlot E src) 0 u.elems.length slots)) := by
    refine Returns.bind (object_returns hw) ?_
    rw [wold.size]
    exact Returns.bind hret (Returns.bind hmod hloop)
  have hlen := updateRange_length (copySlot E src) 0 u.elems.length slots
  refine ⟨_, hcall, hr.represents _ h hi ho hn (t.assign u) rfl hlen (fun hx => ?_) ?_ ?_⟩
  · show (updateRange (copySlot E src) 0 u.elems.length slots).take u.elems.length = u.elems
    rw [take_copySlot (hE hx) hroom (by omega)]
    exact hsrctake hx
  · rw [Store.writeAt_objects, Store.put_objects, hr.objects, Table.set_set]
    rfl
  · rw [Store.writeAt_put]
    rfl

include h hi in
/-- `operator=` from the vector itself assigns every element to itself. -/
theorem operatorAssign_self_spec : ∃ s', Returns (operatorAssign P E i i) s () s' ∧
    Represents (model T exact) s' (F.set i (t.selfAssign E)) := by
  obtain ⟨o, ho, hold⟩ := h.lookup hi
  obtain ⟨slots, hp, hlen, htake⟩ := hold.buffer
  have hfits := t.fits_capacity
  have hmod := modifyObject_returns ho fun v : Fields => { v with size_ := o.size_ }
  have hput := Store.put_entry ho o
  have hloop := copyFrom_self (E := E) (n := o.size_) hput hp (by rw [hold.size]; omega)
  have hnoop : Returns (reserve P i o.size_) s () s :=
    reserve_noop ho (by rw [hold.capacity, hold.size]; exact hfits)
  have hcall : Returns (operatorAssign P E i i) s () ((s.put i o).writeAt o.buffer_
      (updateRange (fun _ old => E.selfAssign old) 0 o.size_ slots)) :=
    Returns.bind (object_returns ho) (Returns.bind hnoop (Returns.bind hmod hloop))
  refine ⟨_, hcall, overwritten (k := o.size_)
    (updateRange (fun _ old => E.selfAssign old) 0 o.size_ slots) h hi ho hp (updateRange_length ..)
    (t.selfAssign E) rfl (fun hx => ?_) ?_ ?_ ?_⟩
  · show (updateRange (fun _ old => E.selfAssign old) 0 o.size_ slots).take
      (t.elems.map E.selfAssign).length = t.elems.map E.selfAssign
    rw [List.length_map, hold.size, take_updateRange, htake hx]
  · rw [hold.size]
    exact List.length_map ..
  · rw [Store.writeAt_objects, Store.put_objects]
  · rw [Store.writeAt_put]
    rfl

end Modifiers

end LinuxSamples.Vector
