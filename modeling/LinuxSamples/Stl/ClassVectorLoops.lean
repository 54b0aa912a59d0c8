import LinuxSamples.Stl.ClassVector
import Mathlib.Data.List.Nodup

set_option autoImplicit false

/-! # Arrays of objects

What `new T[n]`, `delete []`, the loops of assignments, `reserve` and the growing of `push_back` and
`resize` do to the objects of a class. `Lawful` is what is asked of the class; the family of its values is
followed from state to state. -/

namespace LinuxSamples.ClassVector

open LinuxSamples.Program LinuxSamples.Memory
open LinuxSamples.Vector (Fields Roomy maxRequest leastPow room)

variable {τ X : Type}

/-! ## Steps on one part of the state -/

theorem onSecond_returns {σ β : Type} {m : EStateM Fault τ β} {t t' : τ} {a : β}
    (h : Returns m t a t') (s : σ) : Returns (onSecond m) (s, t) a (s, t') := by
  have h' : m t = .ok a t' := h
  simp [Returns, onSecond, EStateM.run, h']

theorem orCleanUp_returns {σ β : Type} {m : EStateM Fault σ β} {s s' : σ} {a : β}
    (h : Returns m s a s') (cleanup : EStateM Fault σ Unit) : Returns (orCleanUp m cleanup) s a s' := by
  have h' : m s = .ok a s' := h
  simp [Returns, orCleanUp, EStateM.run, h']

/-! ## Classes -/

/-- The objects of `t` have the values of the family: a class whose members keep the values of other
    objects. Whether an object may be assigned to itself is left open. -/
structure Lawful (C : Class τ X) (initial : X) (selfAssigns : Prop) (Shows : τ → Table X → Prop) :
    Prop where
  construct : ∀ {t G}, Shows t G → ∃ t', Returns C.construct t G.next t' ∧ Shows t' (G.add initial)
  make : ∀ {t G} x, Shows t G → ∃ t', Returns (C.make x) t G.next t' ∧ Shows t' (G.add x)
  copyConstruct : ∀ {t G i x}, Shows t G → G.entry i = some x →
    ∃ t', Returns (C.copyConstruct i) t G.next t' ∧ Shows t' (G.add x)
  assign : ∀ {t G i j x y}, Shows t G → G.entry i = some y → G.entry j = some x →
    (i = j → selfAssigns) → ∃ t', Returns (C.assign i j) t () t' ∧ Shows t' (G.set i x)
  destroy : ∀ {t G i x}, Shows t G → G.entry i = some x →
    ∃ t', Returns (C.destroy i) t () t' ∧ Shows t' (G.erase i)

/-! ## Families -/

/-- `n` more entries `x`. -/
def addMany (G : Table X) (x : X) : Nat → Table X
  | 0 => G
  | n + 1 => addMany (G.add x) x n

def eraseMany (G : Table X) : List Nat → Table X
  | [] => G
  | e :: rest => eraseMany (G.erase e) rest

@[simp] theorem addMany_next (G : Table X) (x : X) (n : Nat) : (addMany G x n).next = G.next + n := by
  induction n generalizing G with
  | zero => rfl
  | succ n ih =>
      rw [addMany, ih, Table.add_next]
      omega

theorem addMany_old (G : Table X) (x : X) {n e : Nat} (h : e < G.next ∨ G.next + n ≤ e) :
    (addMany G x n).entry e = G.entry e := by
  induction n generalizing G with
  | zero => rfl
  | succ n ih =>
      have hne : e ≠ G.next := by omega
      rw [addMany, ih _ (by rw [Table.add_next]; omega), Table.add_entry, Function.update_of_ne hne]

theorem addMany_new (G : Table X) (x : X) {n e : Nat} (hlo : G.next ≤ e) (hhi : e < G.next + n) :
    (addMany G x n).entry e = some x := by
  induction n generalizing G with
  | zero => omega
  | succ n ih =>
      rw [addMany]
      by_cases he : e = G.next
      · subst he
        rw [addMany_old _ _ (Or.inl (Nat.lt_succ_self _)), Table.add_entry_self]
      · exact ih _ (by rw [Table.add_next]; omega) (by rw [Table.add_next]; omega)

@[simp] theorem eraseMany_next (G : Table X) (ids : List Nat) : (eraseMany G ids).next = G.next := by
  induction ids generalizing G with
  | nil => rfl
  | cons e rest ih => rw [eraseMany, ih, Table.erase_next]

theorem eraseMany_of_notMem {G : Table X} {ids : List Nat} {e : Nat} (h : e ∉ ids) :
    (eraseMany G ids).entry e = G.entry e := by
  induction ids generalizing G with
  | nil => rfl
  | cons d rest ih =>
      rw [List.mem_cons, not_or] at h
      obtain ⟨hne, hrest⟩ := h
      rw [eraseMany, ih hrest, Table.erase_entry, Function.update_of_ne hne]

theorem eraseMany_of_mem {G : Table X} {ids : List Nat} {e : Nat} (h : e ∈ ids) :
    (eraseMany G ids).entry e = none := by
  induction ids generalizing G with
  | nil => cases h
  | cons d rest ih =>
      rw [eraseMany]
      by_cases hrest : e ∈ rest
      · exact ih hrest
      · obtain rfl : e = d := (List.mem_cons.1 h).resolve_right hrest
        rw [eraseMany_of_notMem hrest, Table.erase_entry, Function.update_self]

/-- All of the objects are there. -/
def Alive (G : Table X) (ids : List Nat) : Prop := ∀ e ∈ ids, ∃ x, G.entry e = some x

theorem Alive.lt_next {G : Table X} {ids : List Nat} (h : Alive G ids) {e : Nat} (he : e ∈ ids) :
    e < G.next := by
  obtain ⟨x, hx⟩ := h e he
  exact Table.lt_next hx

/-- The first of the objects have the values `xs`. -/
def Fills (G : Table X) (ids : List Nat) (xs : List X) : Prop :=
  ∀ (k : Nat) (x : X), xs[k]? = some x → ∃ e, ids[k]? = some e ∧ G.entry e = some x

theorem Fills.nil (G : Table X) (ids : List Nat) : Fills G ids [] := by
  intro k x hx
  cases hx

/-- The objects of the list, one by one. -/
theorem Fills.forall₂ {G : Table X} {ids : List Nat} {xs : List X} (h : Fills G ids xs) :
    List.Forall₂ (fun e x => G.entry e = some x) (ids.take xs.length) xs := by
  induction xs generalizing ids with
  | nil =>
      rw [List.length_nil, List.take_zero]
      exact List.Forall₂.nil
  | cons x rest ih =>
      obtain ⟨e, he, hval⟩ := h 0 x rfl
      cases ids with
      | nil => cases he
      | cons d ids =>
          obtain rfl : d = e := Option.some.inj he
          exact List.Forall₂.cons hval (ih fun k y hy => h (k + 1) y hy)

theorem Fills.congr {G G' : Table X} {ids : List Nat} {xs : List X} (h : Fills G ids xs)
    (hsame : ∀ e ∈ ids, G'.entry e = G.entry e) : Fills G' ids xs := by
  intro k x hx
  obtain ⟨e, he, hval⟩ := h k x hx
  exact ⟨e, he, by rw [hsame e (List.mem_of_getElem? he), hval]⟩

theorem Fills.take {G : Table X} {ids : List Nat} {xs : List X} (h : Fills G ids xs) (n : Nat) :
    Fills G ids (xs.take n) := by
  intro k x hx
  rw [List.getElem?_take] at hx
  split at hx
  · exact h k x hx
  · cases hx

/-- The objects `ids` were traded for `ids'`: those that are not kept are gone, the others are new, and
    nothing else has changed. -/
structure Exchange (G G' : Table X) (ids ids' : List Nat) : Prop where
  next : G.next ≤ G'.next
  nodup : ids'.Nodup
  origin : ∀ e ∈ ids', e ∈ ids ∨ G.next ≤ e
  alive : Alive G' ids'
  gone : ∀ e ∈ ids, e ∉ ids' → G'.entry e = none
  others : ∀ e, e ∉ ids → e ∉ ids' → G'.entry e = G.entry e

section Exchange

variable {G G₁ G₂ : Table X} {ids ids₁ ids₂ : List Nat}

theorem Exchange.refl (hnodup : ids.Nodup) (halive : Alive G ids) : Exchange G G ids ids :=
  ⟨Nat.le_refl _, hnodup, fun _ => Or.inl, halive, fun _ he hne => absurd he hne, fun _ _ _ => rfl⟩

theorem Exchange.trans (h : Exchange G G₁ ids ids₁) (h' : Exchange G₁ G₂ ids₁ ids₂) :
    Exchange G G₂ ids ids₂ where
  next := Nat.le_trans h.next h'.next
  nodup := h'.nodup
  origin e he := by
    rcases h'.origin e he with he | he
    · exact h.origin e he
    · exact Or.inr (Nat.le_trans h.next he)
  alive := h'.alive
  gone e he hne := by
    by_cases he₁ : e ∈ ids₁
    · exact h'.gone e he₁ hne
    · rw [h'.others e he₁ hne, h.gone e he he₁]
  others e he hne := by
    by_cases he₁ : e ∈ ids₁
    · rcases h.origin e he₁ with hold | hnew
      · exact absurd hold he
      · rw [h'.gone e he₁ hne, G.fresh e hnew]
    · rw [h'.others e he₁ hne, h.others e he he₁]

/-- An object that is there, and not among those traded, keeps its value. -/
theorem Exchange.keeps (h : Exchange G G₁ ids ids₁) {e : Nat} {x : X} (hx : G.entry e = some x)
    (he : e ∉ ids) : e ∉ ids₁ ∧ G₁.entry e = some x := by
  have hne : e ∉ ids₁ := by
    intro hmem
    rcases h.origin e hmem with hold | hnew
    · exact he hold
    · exact absurd (Table.lt_next hx) (Nat.not_lt.2 hnew)
  exact ⟨hne, by rw [h.others e he hne, hx]⟩

/-- Objects that were there only meanwhile: `G` is `H` without them. -/
theorem Exchange.without {H : Table X} (h : Exchange H G₁ ids ids₁) (tmp : List Nat)
    (halive : Alive G ids) (hnext : G.next ≤ H.next) (hsame : ∀ e, e ∉ tmp → H.entry e = G.entry e)
    (hfresh : ∀ e ∈ tmp, G.next ≤ e) (htmp : Alive H tmp) :
    (∀ e ∈ ids₁, e ∉ tmp) ∧ Exchange G (eraseMany G₁ tmp) ids ids₁ := by
  have hids : ∀ e ∈ ids, e ∉ tmp := fun e he hmem =>
    absurd (halive.lt_next he) (Nat.not_lt.2 (hfresh e hmem))
  have hids₁ : ∀ e ∈ ids₁, e ∉ tmp := by
    intro e he hmem
    obtain ⟨x, hx⟩ := htmp e hmem
    exact (h.keeps hx fun hold => hids e hold hmem).1 he
  refine ⟨hids₁, ?_, h.nodup, fun e he => ?_, fun e he => ?_, fun e he hne => ?_, fun e he hne => ?_⟩
  · rw [eraseMany_next]
    exact Nat.le_trans hnext h.next
  · exact (h.origin e he).imp_right (Nat.le_trans hnext)
  · rw [eraseMany_of_notMem (hids₁ e he)]
    exact h.alive e he
  · rw [eraseMany_of_notMem (hids e he), h.gone e he hne]
  · by_cases hmem : e ∈ tmp
    · rw [eraseMany_of_mem hmem, G.fresh e (hfresh e hmem)]
    · rw [eraseMany_of_notMem hmem, h.others e he hne, hsame e hmem]

/-- All objects are new. -/
theorem Exchange.renewed (halive : Alive G ids) (x : X) (n : Nat) :
    Exchange G (addMany (eraseMany G ids.reverse) x n) ids (List.range' G.next n) := by
  have hnext : (eraseMany G ids.reverse).next = G.next := eraseMany_next G _
  have hmem : ∀ e, e ∈ List.range' G.next n ↔ G.next ≤ e ∧ e < G.next + n := fun e => by
    rw [List.mem_range'_1]
  refine ⟨?_, List.nodup_range', fun e he => Or.inr ((hmem e).1 he).1, fun e he => ⟨x, ?_⟩,
    fun e he hne => ?_, fun e he hne => ?_⟩
  · rw [addMany_next, hnext]
    exact Nat.le_add_right _ _
  · obtain ⟨hlo, hhi⟩ := (hmem e).1 he
    exact addMany_new _ _ (by rw [hnext]; exact hlo) (by rw [hnext]; exact hhi)
  · have hlt := halive.lt_next he
    rw [addMany_old _ _ (Or.inl (by rw [hnext]; exact hlt)), eraseMany_of_mem (List.mem_reverse.2 he)]
  · rw [hmem] at hne
    rw [addMany_old _ _ (by rw [hnext]; omega),
      eraseMany_of_notMem fun hin => he (List.mem_reverse.1 hin)]

end Exchange

theorem slot_unique {ids : List Nat} (hnodup : ids.Nodup) {i j e : Nat} (hi : ids[i]? = some e)
    (hj : ids[j]? = some e) : i = j :=
  (List.getElem?_inj (List.getElem?_eq_some_iff.1 hi).1 hnodup).1 (hi.trans hj.symm)

/-- The objects of slots `lo, …, hi - 1` were assigned the values `xs[lo], …`, and nothing else has
    changed. -/
structure Assigned (G G' : Table X) (ids : List Nat) (xs : List X) (lo hi : Nat) : Prop where
  next : G'.next = G.next
  new : ∀ (i e : Nat) (x : X), lo ≤ i → i < hi → ids[i]? = some e → xs[i]? = some x →
    G'.entry e = some x
  old : ∀ e : Nat, (∀ i, lo ≤ i → i < hi → ids[i]? ≠ some e) → G'.entry e = G.entry e

section Assigned

variable {G G' : Table X} {ids : List Nat} {xs : List X} {lo hi : Nat}

theorem Assigned.refl (G : Table X) (ids : List Nat) (xs : List X) (lo : Nat) :
    Assigned G G ids xs lo lo :=
  ⟨rfl, fun _ _ _ hlo hhi => absurd hlo (Nat.not_le.2 hhi), fun _ _ => rfl⟩

/-- No object occurs twice, so slot `hi` has its old value until it is assigned. -/
theorem Assigned.pending (h : Assigned G G' ids xs lo hi) (hnodup : ids.Nodup) {e : Nat}
    (he : ids[hi]? = some e) : G'.entry e = G.entry e := by
  refine h.old e fun i _ hlt hi' => ?_
  have heq := slot_unique hnodup hi' he
  omega

theorem Assigned.step (h : Assigned G G' ids xs lo hi) (hnodup : ids.Nodup) (hlo : lo ≤ hi) {e : Nat}
    {x y : X} (he : ids[hi]? = some e) (hx : xs[hi]? = some x) (hy : G.entry e = some y) :
    Assigned G (G'.set e x) ids xs lo (hi + 1) := by
  have hy' : G'.entry e = some y := (h.pending hnodup he).trans hy
  refine ⟨h.next, fun i d z hi' hlt hd hz => ?_, fun d hd => ?_⟩
  · rw [Table.set_entry hy']
    by_cases hde : d = e
    · subst hde
      obtain rfl := slot_unique hnodup hd he
      rw [Function.update_self, ← hx, hz]
    · have hne : i ≠ hi := by
        rintro rfl
        exact hde (Option.some.inj (hd.symm.trans he))
      rw [Function.update_of_ne hde]
      exact h.new i d z hi' (by omega) hd hz
  · have hde : d ≠ e := by
      rintro rfl
      exact hd hi hlo (Nat.lt_succ_self hi) he
    rw [Table.set_entry hy', Function.update_of_ne hde]
    exact h.old d fun i hi' hlt => hd i hi' (Nat.lt_succ_of_lt hlt)

theorem Assigned.alive (h : Assigned G G' ids xs lo hi) (hlen : hi ≤ xs.length) (halive : Alive G ids) :
    Alive G' ids := by
  intro e he
  by_cases hin : ∃ i, lo ≤ i ∧ i < hi ∧ ids[i]? = some e
  · obtain ⟨i, hlo, hhi, hi⟩ := hin
    exact ⟨_, h.new i e _ hlo hhi hi (List.getElem?_eq_getElem (by omega))⟩
  · rw [h.old e fun _ hlo hhi hi => hin ⟨_, hlo, hhi, hi⟩]
    exact halive e he

theorem Assigned.exchange (h : Assigned G G' ids xs lo hi) (hlen : hi ≤ xs.length)
    (hnodup : ids.Nodup) (halive : Alive G ids) : Exchange G G' ids ids where
  next := Nat.le_of_eq h.next.symm
  nodup := hnodup
  origin _ he := Or.inl he
  alive := h.alive hlen halive
  gone _ he hne := absurd he hne
  others e he _ := h.old e fun _ _ _ hi => he (List.mem_of_getElem? hi)

/-- The slots before `lo` keep their values. -/
theorem Assigned.fills (h : Assigned G G' ids xs lo xs.length) (hnodup : ids.Nodup)
    (hlen : xs.length ≤ ids.length) (hbefore : Fills G ids (xs.take lo)) : Fills G' ids xs := by
  intro k x hx
  have hk := (List.getElem?_eq_some_iff.1 hx).1
  by_cases hlo : lo ≤ k
  · have hid : ids[k]? = some ids[k] := List.getElem?_eq_getElem (by omega)
    exact ⟨_, hid, h.new k _ x hlo hk hid hx⟩
  · obtain ⟨e, he, hval⟩ := hbefore k x (by rw [List.getElem?_take_of_lt (by omega), hx])
    refine ⟨e, he, ?_⟩
    rw [h.old e fun i hi _ hi' => ?_, hval]
    have heq := slot_unique hnodup hi' he
    omega

end Assigned

/-! ## Construction and destruction -/

section Arrays

variable {P : Platform Nat} {C : Class τ X} {initial : X} {selfAssigns : Prop}
  {Shows : τ → Table X → Prop} (hC : Lawful C initial selfAssigns Shows)
  {s : Store Fields Nat} {t : τ} {G : Table X}

include hC

theorem destroyAll_returns {ids : List Nat} (hG : Shows t G) (hnodup : ids.Nodup)
    (halive : Alive G ids) :
    ∃ t', Returns (destroyAll C ids) (s, t) () (s, t') ∧ Shows t' (eraseMany G ids) := by
  induction ids generalizing t G with
  | nil => exact ⟨t, Returns.pure () _, hG⟩
  | cons e rest ih =>
      obtain ⟨hne, hrest⟩ := List.nodup_cons.1 hnodup
      obtain ⟨x, hx⟩ := halive e List.mem_cons_self
      obtain ⟨t₁, hdestroy, hG₁⟩ := hC.destroy hG hx
      have halive₁ : Alive (G.erase e) rest := by
        intro d hd
        rw [Table.erase_entry, Function.update_of_ne (ne_of_mem_of_not_mem hd hne)]
        exact halive d (List.mem_cons_of_mem _ hd)
      obtain ⟨t', hall, hG'⟩ := ih hG₁ hrest halive₁
      exact ⟨t', Returns.bind (onSecond_returns hdestroy s) hall, hG'⟩

theorem deleteObjects_returns {p : Option Nat} {ids : List Nat} (hp : s.heap.PointsTo p ids)
    (hG : Shows t G) (hnodup : ids.Nodup) (halive : Alive G ids) :
    ∃ t', Returns (deleteObjects C p) (s, t) () (⟨s.objects, s.heap.drop p⟩, t') ∧
      Shows t' (eraseMany G ids.reverse) := by
  cases p with
  | none =>
      obtain rfl : ids = [] := hp
      exact ⟨t, Returns.pure () _, hG⟩
  | some b =>
      obtain ⟨t', hall, hG'⟩ := destroyAll_returns hC (s := s) hG (List.nodup_reverse.2 hnodup)
        fun e he => halive e (List.mem_reverse.1 he)
      exact ⟨t', Returns.bind (onFirst_returns (contents_returns hp) t)
        (Returns.bind hall (onFirst_returns (deleteArray_returns hp) t')), hG'⟩

theorem constructAll_returns {b : Nat} {slots : List Nat} (k count : Nat) (hb : s.heap.array b = some slots)
    (hlen : slots.length = k + count) (hG : Shows t G) :
    ∃ t', Returns (constructAll C b k count) (s, t) ()
        (s.write b (slots.take k ++ List.range' G.next count), t') ∧
      Shows t' (addMany G initial count) := by
  induction count generalizing k s t G slots with
  | zero =>
      have htake : slots.take k ++ List.range' G.next 0 = slots := by
        simp only [List.range'_zero, List.append_nil]
        exact List.take_of_length_le (by omega)
      rw [htake, Store.write_self hb]
      exact ⟨t, Returns.pure () _, hG⟩
  | succ count ih =>
      obtain ⟨t₁, hconstruct, hG₁⟩ := hC.construct hG
      have hstore := onFirst_returns (store_returns hb (by omega : k < slots.length) G.next) t₁
      have hb₁ : (s.write b (slots.set k G.next)).heap.array b = some (slots.set k G.next) := by
        rw [Store.write_heap, Heap.write_array hb, Function.update_self]
      obtain ⟨t', hall, hG'⟩ := ih (k + 1) hb₁ (by rw [List.length_set]; omega) hG₁
      rw [Store.write_write, Vector.take_set_succ (by omega), List.append_assoc, Table.add_next] at hall
      refine ⟨t', Returns.bind (onSecond_returns hconstruct s) (Returns.bind hstore ?_), hG'⟩
      rw [List.range'_succ]
      exact orCleanUp_returns hall _

theorem newObjects_returns (hP : P.Generous) (n : Nat) (hG : Shows t G) :
    ∃ t', Returns (newObjects P C n) (s, t) s.heap.next
        (⟨s.objects, s.heap.alloc (List.range' G.next n)⟩, t') ∧
      Shows t' (addMany G initial n) := by
  have hnew := onFirst_returns (newArray_returns hP n s) t
  obtain ⟨t', hall, hG'⟩ := constructAll_returns hC (b := s.heap.next)
    (s := ⟨s.objects, s.heap.alloc ((List.range n).map (P.initial s.heap.next))⟩) 0 n
    (Function.update_self ..) (by simp) hG
  rw [Store.write, Heap.alloc_write, List.take_zero, List.nil_append] at hall
  exact ⟨t', Returns.bind hnew (Returns.bind (orCleanUp_returns hall _) (Returns.pure _ _)), hG'⟩

/-! ## Assignments -/

/-- A loop that assigns to object `ids[i]` the object `src[i]`, whose value is `xs[i]`. An object is
    assigned to itself only if the class allows it. -/
theorem assignLoop_returns (ids src : List Nat) (xs : List X) (lo count : Nat) (body : Nat → Code τ Unit)
    (hbody : ∀ i d e : Nat, ids[i]? = some d → src[i]? = some e → ∀ t t',
      Returns (C.assign d e) t () t' → Returns (body i) (s, t) () (s, t'))
    (hG : Shows t G) (hnodup : ids.Nodup) (halive : Alive G ids) (hlen : lo + count ≤ ids.length)
    (hsrc : ∀ i, lo ≤ i → i < lo + count → ∃ e x, src[i]? = some e ∧ xs[i]? = some x ∧
      G.entry e = some x)
    (hapart : ∀ i j e : Nat, src[i]? = some e → ids[j]? = some e → i = j ∧ selfAssigns) :
    ∃ t' G', Returns (forUp body lo count) (s, t) () (s, t') ∧ Shows t' G' ∧
      Assigned G G' ids xs lo (lo + count) := by
  have hstep : ∀ k (σ : State τ), lo ≤ k → k < lo + count →
      (σ.1 = s ∧ ∃ G', Shows σ.2 G' ∧ Assigned G G' ids xs lo k) →
      ∃ σ', Returns (body k) σ () σ' ∧
        (σ'.1 = s ∧ ∃ G', Shows σ'.2 G' ∧ Assigned G G' ids xs lo (k + 1)) := by
    rintro k ⟨s₁, t₁⟩ hlo hhi ⟨rfl, G₁, hshow, hass⟩
    obtain ⟨e, x, he, hx, hval⟩ := hsrc k hlo hhi
    obtain ⟨d, hd⟩ : ∃ d, ids[k]? = some d := ⟨_, List.getElem?_eq_getElem (by omega)⟩
    obtain ⟨y, hy⟩ := halive d (List.mem_of_getElem? hd)
    -- the source has not been assigned to before
    have he₁ : G₁.entry e = some x := by
      rw [hass.old e fun i _ hik hi => ?_, hval]
      have heq := (hapart k i e he hi).1
      omega
    have hself : d = e → selfAssigns := by
      rintro rfl
      exact (hapart k k d he hd).2
    obtain ⟨t₂, hassign, hshow₂⟩ :=
      hC.assign hshow ((hass.pending hnodup hd).trans hy) he₁ hself
    exact ⟨(s₁, t₂), hbody k d e hd he t₁ t₂ hassign, rfl, _, hshow₂, hass.step hnodup hlo hd hx hy⟩
  obtain ⟨⟨s', t'⟩, hloop, rfl, G', hshow, hass⟩ :=
    forUp_invariant body _ lo count hstep (s, t) ⟨rfl, G, hG, Assigned.refl G ids xs lo⟩
  exact ⟨t', G', hloop, hshow, hass⟩

end Arrays

end LinuxSamples.ClassVector
