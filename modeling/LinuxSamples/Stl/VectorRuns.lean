import LinuxSamples.Stl.VectorMembers

set_option autoImplicit false

/-! # Runs over a family of `fbcstd::vector` objects

`Op` is one statement of a program that uses vectors, and `Op.run` what the code does. `step` is the
abstract machine: the same statement on a family of lists with their peaks, ending in the fault the
code ends in where it aborts, loops forever or reads a released array.

The code simulates the machine (`run_meets`); the results about whole runs follow: the contents are
those of the lists, and the capacity is the least power of two that is at least the peak. -/

namespace LinuxSamples.Vector

open LinuxSamples.Program LinuxSamples.Memory

variable {T : Type}

/-! ## Statements -/

/-- The argument of a call: an object outside all vectors, or an element of vector `j`. -/
inductive Arg (T : Type)
  | value (x : T)
  | element (j : Nat) (a : Access)

/-- The reference the argument is passed as. -/
def Arg.ref : Arg T → VecProg T (Ref T)
  | .value x => pure (.value x)
  | .element j a => do
      let p ← a.slot j
      return .slot p

/-- A statement; vectors are numbered in the order of their construction. -/
inductive Op (T : Type)
  | default
  | construct (n : Nat) (val : Arg T)
  | copy (j : Nat)
  | assign (i j : Nat)
  | pushBack (i : Nat) (val : Arg T)
  | popBack (i : Nat)
  | resize (i n : Nat) (val : Arg T)
  | clear (i : Nat)
  | write (i : Nat) (a : Access) (val : Arg T)
  | reserve (i n : Nat)
  | destroy (i : Nat)

/-- What the code does. -/
def Op.run (P : Platform T) (E : Element T) : Op T → VecProg T Unit
  | .default => do
      let _ ← Vector.default
  | .construct n val => do
      let r ← val.ref
      let _ ← Vector.construct P E n r
  | .copy j => do
      -- the vector to be copied exists before the copy does
      let _ ← object j
      let _ ← copyConstruct P E j
  | .assign i j => operatorAssign P E i j
  | .pushBack i val => do
      let r ← val.ref
      Vector.pushBack P E i r
  | .popBack i => Vector.popBack i
  | .resize i n val => do
      let r ← val.ref
      let x ← r.read
      Vector.resize P E i n x
  | .clear i => Vector.clear i
  | .write i a val => do
      let r ← val.ref
      let p ← a.slot i
      Vector.assign E p r
  | .reserve i n => Vector.reserve P i n
  | .destroy i => Vector.destroy i

/-! ## The abstract machine -/

/-- The value of vector `i`. -/
def look (F : Table (Cells T)) (i : Nat) : Except Fault (Cells T) :=
  match F.entry i with
  | some t => .ok t
  | none => .error .noObject

/-- The element an access names, with its position; the code aborts when there is none. -/
def Access.find (a : Access) (t : Cells T) : Except Fault (Nat × T) :=
  match (a.position t.elems.length).bind fun k => t.elems[k]?.map fun x => (k, x) with
  | some found => .ok found
  | none => .error .abort

/-- The value of an argument, and the vector and position it is stored at, if any. -/
def Arg.eval (F : Table (Cells T)) : Arg T → Except Fault (T × Option (Nat × Nat))
  | .value x => .ok (x, none)
  | .element j a => do
      let u ← look F j
      let (k, x) ← a.find u
      return (x, some (j, k))

/-- The doubling loop of `reserve` ends only for requests up to `2 ^ 63`. -/
def within (n : Nat) : Except Fault Unit := if n ≤ maxRequest then .ok () else .error .diverges

/-- **One statement on a family of lists.** -/
def step (E : Element T) (F : Table (Cells T)) : Op T → Except Fault (Table (Cells T))
  | .default => .ok (F.add Cells.empty)
  | .construct n val => do
      let (x, _) ← val.eval F
      within n
      return F.add (Cells.replicate n x)
  | .copy j => do
      let u ← look F j
      return F.add (Cells.empty.assign u)
  | .assign i j => do
      let u ← look F j
      let t ← look F i
      return F.set i (if i = j then t.selfAssign E else t.assign u)
  | .pushBack i val => do
      let (x, place) ← val.eval F
      let t ← look F i
      within (t.elems.length + 1)
      -- growing has released the buffer an own element is read from
      if place.map Prod.fst = some i ∧ t.capacity ≤ t.elems.length then .error .released
      else return F.set i (t.pushBack x)
  | .popBack i => do
      let t ← look F i
      if t.elems = [] then .error .abort
      else return F.set i t.popBack
  | .resize i n val => do
      let (x, _) ← val.eval F
      let t ← look F i
      within n
      return F.set i (t.resize n x)
  | .clear i => do
      let t ← look F i
      return F.set i t.clear
  | .write i a val => do
      let (x, place) ← val.eval F
      let t ← look F i
      let (k, _) ← a.find t
      return F.set i (t.write k (if place = some (i, k) then E.selfAssign x else x))
  | .reserve i n => do
      let t ← look F i
      within n
      return F.set i (t.reserve n)
  | .destroy i => do
      let _ ← look F i
      return F.erase i

/-! ## One statement meets one step of the machine -/

section Simulation

variable {P : Platform T} {E : Element T} {exact : Prop} {s : Store Fields T}
  {F : Table (Cells T)} {i : Nat} {m : VecProg T Unit}
  {R : Store Fields T → Table (Cells T) → Prop}

theorem meets_look {f : Cells T → Except Fault (Table (Cells T))}
    (hnone : F.entry i = none → Fails m s .noObject)
    (hsome : ∀ t, F.entry i = some t → Meets R m s (f t)) : Meets R m s (look F i >>= f) := by
  cases hi : F.entry i with
  | none =>
      rw [look, hi]
      exact hnone hi
  | some t =>
      rw [look, hi]
      exact hsome t hi

theorem meets_within {n : Nat} {f : Unit → Except Fault (Table (Cells T))}
    (hgt : maxRequest < n → Fails m s .diverges) (hle : n ≤ maxRequest → Meets R m s (f ())) :
    Meets R m s (within n >>= f) := by
  by_cases hn : n ≤ maxRequest
  · rw [within, if_pos hn]
    exact hle hn
  · rw [within, if_neg hn]
    exact hgt (by omega)

theorem meets_find {a : Access} {t : Cells T} {f : Nat × T → Except Fault (Table (Cells T))}
    (hnone : a.position t.elems.length = none → Fails m s .abort)
    (hsome : ∀ k x, a.position t.elems.length = some k → t.elems[k]? = some x →
      Meets R m s (f (k, x))) : Meets R m s (a.find t >>= f) := by
  cases hk : a.position t.elems.length with
  | none =>
      rw [Access.find, hk]
      exact hnone hk
  | some k =>
      obtain ⟨x, hx⟩ : ∃ x, t.elems[k]? = some x :=
        ⟨_, List.getElem?_eq_getElem (Access.position_lt hk)⟩
      rw [Access.find, hk, Option.bind_some, hx]
      exact hsome k x hk hx

/-- Where the object an argument refers to is stored. -/
inductive Located (s : Store Fields T) (F : Table (Cells T)) : Ref T → Option (Nat × Nat) → Prop
  | outside (x : T) : Located s F (.value x) none
  | inside {j k b : Nat} {o : Fields} {u : Cells T} (hj : F.entry j = some u)
      (ho : s.objects.entry j = some o) (hb : o.buffer_ = some b) (hk : k < u.elems.length) :
      Located s F (.slot ⟨some b, k⟩) (some (j, k))

/-- An argument stored in another vector, or in none, is outside the vector's buffer. -/
theorem Located.outside_of (h : Represents (model T exact) s F) {r : Ref T}
    {place : Option (Nat × Nat)} (hloc : Located s F r place) (hne : place.map Prod.fst ≠ some i)
    {c : Nat} (hown : Owns (model T exact) s i c) : r.Outside c := by
  cases hloc with
  | outside x =>
      intro p hp
      cases hp
  | inside hj ho hb hk =>
      apply Ref.outside_slot
      rintro hc
      cases hc
      exact hne (congrArg some (h.separate _ _ _ ⟨_, ho, hb⟩ hown))

/-- An argument refers to slot `k` of vector `i` only if it is stored there. -/
theorem Located.isSlot (h : Represents (model T exact) s F) {r : Ref T}
    {place : Option (Nat × Nat)} (hloc : Located s F r place) {c k : Nat}
    (hown : Owns (model T exact) s i c) :
    r.isSlot ⟨some c, k⟩ = decide (place = some (i, k)) := by
  cases hloc with
  | outside x => rfl
  | @inside j k' b o u hj ho hb hk =>
      simp only [Ref.isSlot, decide_eq_decide, Slot.mk.injEq, Option.some.injEq, Prod.mk.injEq]
      constructor
      · rintro ⟨rfl, rfl⟩
        exact ⟨h.separate _ _ _ ⟨_, ho, hb⟩ hown, rfl⟩
      · rintro ⟨rfl, rfl⟩
        obtain ⟨o', ho', hb'⟩ := hown
        rw [ho] at ho'
        cases ho'
        exact ⟨Option.some.inj (hb'.symm.trans hb), rfl⟩

theorem Located.lt {r : Ref T} {place : Option (Nat × Nat)} (hloc : Located s F r place) {k : Nat}
    {t : Cells T} (hplace : place = some (i, k)) (hi : F.entry i = some t) :
    k < t.elems.length := by
  cases hloc with
  | outside x => cases hplace
  | inside hj ho hb hk =>
      cases hplace
      rw [hi] at hj
      cases hj
      exact hk

/-- An argument stored in vector `i` is a reference into its buffer. -/
theorem Located.own {r : Ref T} {place : Option (Nat × Nat)} (hloc : Located s F r place)
    (hplace : place.map Prod.fst = some i) :
    ∃ p c, r = .slot p ∧ p.array = some c ∧ Owns (model T exact) s i c := by
  cases hloc with
  | outside x => cases hplace
  | inside hj ho hb hk =>
      cases hplace
      exact ⟨_, _, rfl, rfl, _, ho, hb⟩

/-- **Arguments.** The code evaluates an argument to a reference to the object the machine says. -/
theorem meets_eval (h : Represents (model T exact) s F) (val : Arg T)
    {m : Ref T → VecProg T Unit} {f : T × Option (Nat × Nat) → Except Fault (Table (Cells T))}
    (hok : ∀ r x y place, Returns r.read s x s → (exact → x = y) → Located s F r place →
      Meets R (m r) s (f (y, place))) : Meets R (val.ref >>= m) s (val.eval F >>= f) := by
  cases val with
  | value x => exact hok (.value x) x x none (Returns.pure x s) (fun _ => rfl) (.outside x)
  | element j a =>
      simp only [Arg.ref, Arg.eval, bind_assoc, pure_bind]
      refine meets_look (fun hj => ?_) fun u hj => meets_find (fun hk => ?_) fun k y hk hy => ?_
      · exact Fails.bind_left (Access.slot_missing (h.lookup_none hj) a)
      · exact Fails.bind_left (Access.slot_aborts h hj hk)
      · have hlt := Access.position_lt hk
        obtain ⟨o, ho, hslot⟩ := Access.slot_returns h hj hk
        obtain ⟨x, hread, hx⟩ := slot_read h hj ho hlt
        refine Meets.after hslot (hok _ x y _ hread (fun he => ?_) ?_)
        · exact Option.some.inj ((hx he).symm.trans hy)
        · obtain ⟨b, hb⟩ := buffer_of_lt h hj ho hlt
          obtain ⟨size, capacity, buffer⟩ := o
          cases hb
          exact .inside hj ho rfl hlt

/-- **The code simulates the machine**, statement by statement. The element values are followed
    while no `reserve` reallocates a vector that holds elements, unless the new array holds them too. -/
theorem run_meets (hP : P.Generous) (hE : exact → E.Copies) (h : Represents (model T exact) s F)
    (op : Op T) (hop : exact → ∀ i n t, op = .reserve i n → F.entry i = some t →
      n ≤ t.capacity ∨ fresh P s t.elems.length = t.elems) :
    Meets (Represents (model T exact)) (op.run P E) s (step E F op) := by
  cases op with
  | default =>
      obtain ⟨s', hret, _, h'⟩ := default_spec h
      exact Meets.returns (Returns.bind hret (Returns.pure () s')) h'
  | construct n val =>
      refine meets_eval h val fun r x y place hread hxy _ =>
        meets_within (fun hn => ?_) fun hn => ?_
      · exact Fails.bind_left (construct_never_ends h hn r)
      · obtain ⟨s', hret, h'⟩ := construct_spec hP hE h hn hread hxy
        exact Meets.returns (Returns.bind hret (Returns.pure () s')) h'
  | copy j =>
      refine meets_look (fun hj => ?_) fun u hj => ?_
      · exact Fails.bind_left (object_fails (h.lookup_none hj))
      · obtain ⟨w, hw, _⟩ := h.lookup hj
        obtain ⟨s', hret, h'⟩ := copyConstruct_spec hP hE h hj
        exact Meets.returns (Returns.bind (object_returns hw) (Returns.bind hret
          (Returns.pure () s'))) h'
  | assign i j =>
      refine meets_look (fun hj => ?_) fun u hj => meets_look (fun hi => ?_) fun t hi => ?_
      · exact Fails.bind_left (object_fails (h.lookup_none hj))
      · obtain ⟨w, hw, _⟩ := h.lookup hj
        exact Fails.bind_right (object_returns hw) (Fails.bind_left (Fails.bind_left
          (object_fails (h.lookup_none hi))))
      · by_cases hij : i = j
        · subst hij
          rw [if_pos rfl]
          obtain ⟨s', hret, h'⟩ := operatorAssign_self_spec (P := P) (E := E) h hi
          exact Meets.returns hret h'
        · rw [if_neg hij]
          obtain ⟨s', hret, h'⟩ := operatorAssign_spec hP hE h hi hij hj
          exact Meets.returns hret h'
  | pushBack i val =>
      refine meets_eval h val fun r x y place hread hxy hloc =>
        meets_look (fun hi => ?_) fun t hi => meets_within (fun hn => ?_) fun hn => ?_
      · exact Fails.bind_left (object_fails (h.lookup_none hi))
      · exact pushBack_never_ends h hi hP hn
      · by_cases halias : place.map Prod.fst = some i ∧ t.capacity ≤ t.elems.length
        · obtain ⟨p, c, hr, hp, hown⟩ := hloc.own halias.1
          rw [if_pos halias]
          exact pushBack_dangles h hi hP halias.2 hn hr hp hown
        · rw [if_neg halias]
          obtain ⟨s', hret, h'⟩ := pushBack_spec hP hE h hi hn hread hxy
            (fun hfull c hown => hloc.outside_of h (fun hp => halias ⟨hp, hfull⟩) hown)
            fun c hown => by
              rw [hloc.isSlot h hown, decide_eq_false_iff_not]
              exact fun hplace => absurd (hloc.lt hplace hi) (Nat.lt_irrefl _)
          exact Meets.returns hret h'
  | popBack i =>
      refine meets_look (fun hi => ?_) fun t hi => ?_
      · exact Fails.bind_left (object_fails (h.lookup_none hi))
      · by_cases hnil : t.elems = []
        · rw [if_pos hnil]
          exact popBack_aborts h hi hnil
        · rw [if_neg hnil]
          obtain ⟨s', hret, h'⟩ := popBack_spec h hi hnil
          exact Meets.returns hret h'
  | resize i n val =>
      refine meets_eval h val fun r x y place hread hxy _ => Meets.after hread ?_
      refine meets_look (fun hi => ?_) fun t hi => meets_within (fun hn => ?_) fun hn => ?_
      · exact Fails.bind_left (object_fails (h.lookup_none hi))
      · exact resize_never_ends h hi hP hn x
      · obtain ⟨s', hret, h'⟩ := resize_spec hP hE h hi hn hxy
        exact Meets.returns hret h'
  | clear i =>
      refine meets_look (fun hi => ?_) fun t hi => ?_
      · exact modifyObject_fails (h.lookup_none hi) _
      · obtain ⟨s', hret, h'⟩ := clear_spec h hi
        exact Meets.returns hret h'
  | write i a val =>
      refine meets_eval h val fun r x y place hread hxy hloc =>
        meets_look (fun hi => ?_) fun t hi => meets_find (fun hk => ?_) fun k old hk _ => ?_
      · exact Fails.bind_left (Access.slot_missing (h.lookup_none hi) a)
      · exact Fails.bind_left (Access.slot_aborts h hi hk)
      · have hlt := Access.position_lt hk
        obtain ⟨o, ho, hslot⟩ := Access.slot_returns h hi hk
        obtain ⟨b, hb⟩ := buffer_of_lt h hi ho hlt
        have hsame : r.isSlot ⟨o.buffer_, k⟩ = decide (place = some (i, k)) := by
          rw [hb]
          exact hloc.isSlot h ⟨o, ho, hb⟩
        obtain ⟨s', hret, h'⟩ := write_spec (E := E) h hi hE ho hlt hread
          (y := if place = some (i, k) then E.selfAssign y else y) fun he => by
            rw [hsame, hxy he]
            simp only [decide_eq_true_eq]
        exact Meets.returns (Returns.bind hslot hret) h'
  | reserve i n =>
      refine meets_look (fun hi => ?_) fun t hi => meets_within (fun hn => ?_) fun hn => ?_
      · exact Fails.bind_left (object_fails (h.lookup_none hi))
      · exact reserve_never_ends h hi hn
      · obtain ⟨s', hret, h'⟩ := reserve_spec hP h hi hn fun he => hop he i n t rfl hi
        exact Meets.returns hret h'
  | destroy i =>
      refine meets_look (fun hi => ?_) fun t hi => ?_
      · exact Fails.bind_left (object_fails (h.lookup_none hi))
      · obtain ⟨s', hret, h'⟩ := destroy_spec h hi
        exact Meets.returns hret h'

/-- **Sizes and capacities** follow the machine in every run. -/
theorem runs_count (hP : P.Generous) (ops : List (Op T)) (h : Represents (model T False) s F) :
    Meets (Represents (model T False)) (runAll (Op.run P E) ops) s (specAll (step E) F ops) :=
  runAll_meets ops (fun _ _ op _ h => run_meets hP False.elim h op False.elim) s F h

/-- **Runs without `reserve`** end as the machine ends, the vectors holding the machine's lists. -/
theorem runs_meet (hP : P.Generous) (hE : E.Copies) (ops : List (Op T))
    (hops : ∀ op ∈ ops, ∀ i n, op ≠ .reserve i n) :
    Meets (Represents (model T True)) (runAll (Op.run P E) ops) Store.empty
      (specAll (step E) Table.empty ops) := by
  refine runAll_meets ops (fun s F op hmem h => ?_) _ _ Represents.empty
  exact run_meets hP (fun _ => hE) h op fun _ i n t hop _ => absurd hop (hops op hmem i n)

end Simulation

end LinuxSamples.Vector
