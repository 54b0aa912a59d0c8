import LinuxSamples.Stl.ClassVectorLoops

set_option autoImplicit false

/-! # What each member function of `vector<T>` does to its objects

A vector has a row of objects, one in each slot of its buffer. `Moved` is what `reserve` and the growing of
`push_back` and `resize` make of the row, and `Called` the footprint of a whole call: the row may be traded
for a new one, no other array and no other object has changed, and what was allocated meanwhile is
released. -/

namespace LinuxSamples.ClassVector

open LinuxSamples.Program LinuxSamples.Memory
open LinuxSamples.Vector (Fields Roomy maxRequest leastPow room)

variable {τ X : Type}

/-! ## Rows -/

/-- Vector `i` has the objects `ids` in its slots: they are there, and no one is in two slots. -/
structure Row (s : Store Fields Nat) (G : Table X) (i : Nat) (o : Fields) (ids : List Nat) : Prop where
  entry : s.objects.entry i = some o
  buffer : s.heap.PointsTo o.buffer_ ids
  length : ids.length = o.capacity_
  null : o.buffer_ = none ↔ o.capacity_ = 0
  nodup : ids.Nodup
  alive : Alive G ids

/-- Vector `i` was given room for `n` elements: its old array is kept or released, and its objects are kept
    or traded for new ones. -/
structure Moved (i n : Nat) (o o₁ : Fields) (s s₁ : Store Fields Nat) (G G₁ : Table X)
    (ids ids₁ : List Nat) : Prop where
  roomy : Roomy i n o o₁ s s₁ ids₁
  exchange : Exchange G G₁ ids ids₁
  released : ∀ c, o.buffer_ = some c → o₁.buffer_ ≠ some c → s₁.heap.array c = none

section Rows

variable {s s₁ : Store Fields Nat} {G G₁ : Table X} {i n : Nat} {o o₁ : Fields} {ids ids₁ : List Nat}

theorem Row.congr (h : Row s G i o ids) (hsame : ∀ e ∈ ids, G₁.entry e = G.entry e) :
    Row s G₁ i o ids :=
  ⟨h.entry, h.buffer, h.length, h.null, h.nodup, fun e he => by
    rw [hsame e he]
    exact h.alive e he⟩

/-- A vector with enough room. -/
theorem Row.moved (h : Row s G i o ids) (hn : n ≤ o.capacity_) : Moved i n o o s s G G ids ids where
  roomy := ⟨(Table.set_self h.entry).symm, rfl, (Vector.room_of_le hn).symm, h.null, h.buffer, h.length,
    fun _ _ _ => rfl, fun _ => Or.inl⟩
  exchange := Exchange.refl h.nodup h.alive
  released _ hc hne := absurd hc hne

theorem Moved.row (h : Moved i n o o₁ s s₁ G G₁ ids ids₁) (hrow : Row s G i o ids) :
    Row s₁ G₁ i o₁ ids₁ :=
  ⟨h.roomy.entry hrow.entry, h.roomy.buffer, h.roomy.length, h.roomy.null, h.exchange.nodup,
    h.exchange.alive⟩

theorem Moved.entry_other (h : Moved i n o o₁ s s₁ G G₁ ids ids₁) (hrow : Row s G i o ids) {j : Nat}
    (hji : j ≠ i) : s₁.objects.entry j = s.objects.entry j := by
  rw [h.roomy.objects, Table.set_entry hrow.entry, Function.update_of_ne hji]

/-- An array that is not the old buffer is not the new one either. -/
theorem Moved.array_other (h : Moved i n o o₁ s s₁ G G₁ ids ids₁) {c : Nat} {slots : List Nat}
    (hc : s.heap.array c = some slots) (hne : o.buffer_ ≠ some c) :
    o₁.buffer_ ≠ some c ∧ s₁.heap.array c = some slots := by
  have hne₁ : o₁.buffer_ ≠ some c := by
    intro hnew
    rcases h.roomy.own c hnew with hold | hnone
    · exact hne hold
    · rw [hc] at hnone
      cases hnone
  exact ⟨hne₁, by rw [h.roomy.arrays c hne hne₁, hc]⟩

/-- Objects of the row are assigned to. -/
theorem Moved.assigned {G₂ : Table X} {xs : List X} {lo hi : Nat} (h : Moved i n o o₁ s s₁ G G₁ ids ids₁)
    (hass : Assigned G₁ G₂ ids₁ xs lo hi) (hhi : hi ≤ xs.length) :
    Moved i n o o₁ s s₁ G G₂ ids ids₁ :=
  ⟨h.roomy, h.exchange.trans (hass.exchange hhi h.exchange.nodup h.exchange.alive), h.released⟩

end Rows

/-! ## `reserve` -/

section Growing

variable {P : Platform Nat} {C : Class τ X} {initial : X} {selfAssigns : Prop}
  {Shows : τ → Table X → Prop} (hC : Lawful C initial selfAssigns Shows) (hP : P.Generous)
  {s : Store Fields Nat} {t : τ} {G : Table X} {i n : Nat} {o : Fields} {ids : List Nat}
  (hrow : Row s G i o ids) (hG : Shows t G)

include hC hP hrow hG

/-- Past the capacity, all objects are destroyed and new ones constructed. -/
theorem reserve_grows (hlt : o.capacity_ < n) (hn : n ≤ maxRequest) : ∃ s₁ t₁ o₁,
    Returns (reserve P C i n) (s, t) () (s₁, t₁) ∧
    Shows t₁ (addMany (eraseMany G ids.reverse) initial (leastPow n)) ∧
    Moved i n o o₁ s s₁ G (addMany (eraseMany G ids.reverse) initial (leastPow n)) ids
      (List.range' G.next (leastPow n)) := by
  have ho := hrow.entry
  obtain ⟨t₁, hdelete, hG₁⟩ := deleteObjects_returns hC hrow.buffer hG hrow.nodup hrow.alive
  obtain ⟨t₂, hnew, hG₂⟩ := newObjects_returns hC hP (leastPow n) hG₁
    (s := ⟨s.objects.set i ⟨o.size_, leastPow n, o.buffer_⟩, s.heap.drop o.buffer_⟩)
  have hcapacity := onFirst_returns (modifyObject_returns (s := ⟨s.objects, s.heap.drop o.buffer_⟩) ho
    fun v => { v with capacity_ := leastPow n }) t₁
  set heap := (s.heap.drop o.buffer_).alloc (List.range' (eraseMany G ids.reverse).next (leastPow n))
  have hbuffer := modifyObject_returns
    (s := ⟨s.objects.set i ⟨o.size_, leastPow n, o.buffer_⟩, heap⟩) (Store.put_entry ho _)
    fun v => { v with buffer_ := some s.heap.next }
  rw [Store.put, Table.set_set] at hbuffer
  refine ⟨⟨s.objects.set i ⟨o.size_, leastPow n, some s.heap.next⟩, heap⟩, t₂,
    ⟨o.size_, leastPow n, some s.heap.next⟩, ?_, hG₂, ?_, Exchange.renewed hrow.alive _ _, ?_⟩
  · refine Returns.bind (onFirst_returns (object_returns ho) t) ?_
    rw [onlyIf_pos hlt]
    refine Returns.bind hdelete ?_
    rw [Vector.grown_eq (by omega) hn]
    rw [Heap.drop_next] at hnew
    exact Returns.bind hcapacity (Returns.bind hnew (onFirst_returns hbuffer t₂))
  · have hpos := Vector.leastPow_pos n
    refine ⟨rfl, rfl, (Vector.room_of_lt hlt).symm, ?_, ?_, List.length_range', ?_, ?_⟩
    · simp only [reduceCtorEq, false_iff]
      omega
    · show heap.array s.heap.next = _
      rw [Heap.alloc_array, Heap.drop_next, Function.update_self, eraseMany_next]
    · intro c hc hnew'
      have hne : c ≠ s.heap.next := fun he => hnew' (congrArg some he.symm)
      rw [Heap.alloc_array, Heap.drop_next, Function.update_of_ne hne, Heap.drop_array, if_neg hc]
    · intro c hc
      cases hc
      exact Or.inr s.heap.array_next
  · intro c hc _
    have hne : c ≠ s.heap.next := Nat.ne_of_lt (hrow.buffer.lt_next hc)
    rw [Heap.alloc_array, Heap.drop_next, Function.update_of_ne hne, Heap.drop_array, if_pos hc]

theorem reserve_moves (hn : n ≤ maxRequest) : ∃ s₁ t₁ o₁ ids₁ G₁,
    Returns (reserve P C i n) (s, t) () (s₁, t₁) ∧ Shows t₁ G₁ ∧
    Moved i n o o₁ s s₁ G G₁ ids ids₁ ∧ (n ≤ o.capacity_ → ids₁ = ids ∧ G₁ = G) ∧
    (o.capacity_ < n → ∀ e ∈ ids₁, G₁.entry e = some initial) := by
  by_cases hlt : o.capacity_ < n
  · obtain ⟨s₁, t₁, o₁, hret, hG₁, hmoved⟩ := reserve_grows hC hP hrow hG hlt hn
    refine ⟨s₁, t₁, o₁, _, _, hret, hG₁, hmoved, fun hle => absurd hlt (Nat.not_lt.2 hle), ?_⟩
    intro _ e he
    obtain ⟨hlo, hhi⟩ := List.mem_range'_1.1 he
    exact addMany_new _ _ (by rwa [eraseMany_next]) (by rwa [eraseMany_next])
  · refine ⟨s, t, o, ids, G, Returns.bind (onFirst_returns (object_returns hrow.entry) t) ?_, hG,
      hrow.moved (by omega), fun _ => ⟨rfl, rfl⟩, fun hgrow => absurd hgrow hlt⟩
    rw [onlyIf_neg hlt]
    exact Returns.pure () _

/-! ## Growing with the elements kept -/

omit hC hP hG in
/-- The row beside a new array of new objects. -/
theorem Row.beside (G₁ : Table X) (hsame : ∀ e, e < G.next → G₁.entry e = G.entry e)
    (slots : List Nat) : Row ⟨s.objects, s.heap.alloc slots⟩ G₁ i o ids where
  entry := hrow.entry
  buffer := hrow.buffer.congr fun c hc => Function.update_of_ne (Nat.ne_of_lt (hrow.buffer.lt_next hc)) _ _
  length := hrow.length
  null := hrow.null
  nodup := hrow.nodup
  alive e he := by
    rw [hsame e (hrow.alive.lt_next he)]
    exact hrow.alive e he

/-- The first loop of `regrow`: the elements are saved in new objects. -/
theorem save_returns {xs : List X} (hfills : Fills G ids xs) :
    ∃ t₁ t₂ G₂, Returns (newObjects P C xs.length) (s, t) s.heap.next
        (⟨s.objects, s.heap.alloc (List.range' G.next xs.length)⟩, t₁) ∧
      Returns (forUp (fun k => do
          let dst ← onFirst (load (some s.heap.next) k)
          let src ← onFirst (load o.buffer_ k)
          onSecond (C.assign dst src)) 0 xs.length)
        (⟨s.objects, s.heap.alloc (List.range' G.next xs.length)⟩, t₁) ()
        (⟨s.objects, s.heap.alloc (List.range' G.next xs.length)⟩, t₂) ∧
      Shows t₂ G₂ ∧ G₂.next = G.next + xs.length ∧
      Fills G₂ (List.range' G.next xs.length) xs ∧ Alive G₂ (List.range' G.next xs.length) ∧
      ∀ e, e ∉ List.range' G.next xs.length → G₂.entry e = G.entry e := by
  obtain ⟨t₁, hnew, hG₁⟩ := newObjects_returns hC hP (s := s) xs.length hG
  set tmp := List.range' G.next xs.length with htmp
  have hmem : ∀ e, e ∈ tmp ↔ G.next ≤ e ∧ e < G.next + xs.length := fun e => by
    rw [htmp, List.mem_range'_1]
  have hlength : tmp.length = xs.length := List.length_range'
  have hnodup : tmp.Nodup := List.nodup_range'
  have halive : Alive (addMany G initial xs.length) tmp := by
    intro e he
    obtain ⟨hlo, hhi⟩ := (hmem e).1 he
    exact ⟨initial, addMany_new _ _ hlo hhi⟩
  have hbeside := hrow.beside (addMany G initial xs.length)
    (fun e he => addMany_old _ _ (Or.inl he)) tmp
  have harr : (s.heap.alloc tmp).array s.heap.next = some tmp := Function.update_self ..
  obtain ⟨t₂, G₂, hloop, hG₂, hass⟩ := assignLoop_returns hC
    (s := ⟨s.objects, s.heap.alloc tmp⟩) tmp ids xs 0 xs.length
    (fun k => do
      let dst ← onFirst (load (some s.heap.next) k)
      let src ← onFirst (load o.buffer_ k)
      onSecond (C.assign dst src))
    (fun k d e hd he u u' hassign => Returns.bind
      (onFirst_returns (load_returns harr hd) u)
      (Returns.bind (onFirst_returns (load_pointsTo hbeside.buffer he) u)
        (onSecond_returns hassign _)))
    hG₁ hnodup halive (by omega)
    (fun k _ hk => by
      rw [Nat.zero_add] at hk
      have hx : xs[k]? = some xs[k] := List.getElem?_eq_getElem hk
      obtain ⟨e, he, hval⟩ := hfills k _ hx
      exact ⟨e, _, he, hx, by rw [addMany_old _ _ (Or.inl (Table.lt_next hval)), hval]⟩)
    (fun k j e he hj => by
      -- the objects of the row are older than those of the new array
      have hlt := hrow.alive.lt_next (List.mem_of_getElem? he)
      have hle := ((hmem e).1 (List.mem_of_getElem? hj)).1
      omega)
  rw [Nat.zero_add] at hass
  refine ⟨t₁, t₂, G₂, hnew, hloop, hG₂, ?_, ?_, hass.alive (Nat.le_refl _) halive, fun e he => ?_⟩
  · rw [hass.next, addMany_next]
  · exact hass.fills hnodup (Nat.le_of_eq hlength.symm) (Fills.nil _ _)
  · rw [hass.old e fun k _ _ hk => he (List.mem_of_getElem? hk)]
    rw [hmem] at he
    exact addMany_old _ _ (by omega)

theorem regrow_moves {xs : List X} (hfills : Fills G ids xs) (hsize : o.size_ = xs.length)
    (hcap : o.size_ ≤ o.capacity_) (hlt : o.capacity_ < n) (hn : n ≤ maxRequest) :
    ∃ s₁ t₁ o₁ ids₁ G₁, Returns (regrow P C i n) (s, t) () (s₁, t₁) ∧ Shows t₁ G₁ ∧
      Moved i n o o₁ s s₁ G G₁ ids ids₁ ∧ Fills G₁ ids₁ xs := by
  obtain ⟨t₁, t₂, G₂, hnew, hsave, hG₂, hnext₂, hsaved, halive₂, hsame₂⟩ :=
    save_returns hC hP hrow hG hfills
  set tmp := List.range' G.next xs.length with htmp
  have hmem : ∀ e, e ∈ tmp ↔ G.next ≤ e ∧ e < G.next + xs.length := fun e => by
    rw [htmp, List.mem_range'_1]
  set s₂ : Store Fields Nat := ⟨s.objects, s.heap.alloc tmp⟩ with hs₂
  have harr₂ : s₂.heap.array s.heap.next = some tmp := Function.update_self ..
  have hold₂ : ∀ c, c ≠ s.heap.next → s₂.heap.array c = s.heap.array c := fun c hc =>
    Function.update_of_ne hc _ _
  have hrow₂ : Row s₂ G₂ i o ids := hrow.beside G₂ (fun e he => hsame₂ e fun hin => by
    have hle := ((hmem e).1 hin).1
    omega) tmp
  obtain ⟨s₃, t₃, o₁, ids₁, G₃, hreserve, hG₃, hmoved, _, _⟩ := reserve_moves hC hP hrow₂ hG₂ hn
  have hrow₃ := hmoved.row hrow₂
  -- the temporary array is neither the old buffer nor the new one
  have hne_old : o.buffer_ ≠ some s.heap.next := fun hc =>
    Nat.lt_irrefl _ (hrow.buffer.lt_next hc)
  obtain ⟨hne_new, harr₃⟩ := hmoved.array_other harr₂ hne_old
  have hapart : ∀ e ∈ tmp, e ∉ ids := fun e he hin => by
    have hlt := hrow.alive.lt_next hin
    have hle := ((hmem e).1 he).1
    omega
  have hkeeps : ∀ e ∈ tmp, e ∉ ids₁ ∧ G₃.entry e = G₂.entry e := by
    intro e he
    obtain ⟨x, hx⟩ := halive₂ e he
    obtain ⟨hne, hval⟩ := hmoved.exchange.keeps hx (hapart e he)
    exact ⟨hne, hval.trans hx.symm⟩
  have hroom : xs.length ≤ ids₁.length := by
    have hle := hmoved.roomy.le_length
    omega
  -- the elements are copied back
  obtain ⟨t₄, G₄, hrestore, hG₄, hass⟩ := assignLoop_returns hC (s := s₃) ids₁ tmp xs 0 xs.length
    (fun k => do
      let dst ← onFirst (load o₁.buffer_ k)
      let src ← onFirst (load (some s.heap.next) k)
      onSecond (C.assign dst src))
    (fun k d e hd he u u' hassign => Returns.bind
      (onFirst_returns (load_pointsTo hrow₃.buffer hd) u)
      (Returns.bind (onFirst_returns (load_returns harr₃ he) u) (onSecond_returns hassign _)))
    hG₃ hrow₃.nodup hrow₃.alive (by omega)
    (fun k _ hk => by
      rw [Nat.zero_add] at hk
      have hx : xs[k]? = some xs[k] := List.getElem?_eq_getElem hk
      obtain ⟨e, he, hval⟩ := hsaved k _ hx
      exact ⟨e, _, he, hx, by rw [(hkeeps e (List.mem_of_getElem? he)).2, hval]⟩)
    (fun k j e he hj =>
      absurd (List.mem_of_getElem? hj) (hkeeps e (List.mem_of_getElem? he)).1)
  rw [Nat.zero_add] at hass
  -- the temporary array and its objects are released
  have halive₄ : Alive G₄ tmp := by
    intro e he
    rw [hass.old e fun k _ _ hk => (hkeeps e he).1 (List.mem_of_getElem? hk), (hkeeps e he).2]
    exact halive₂ e he
  obtain ⟨t₅, hdelete, hG₅⟩ := deleteObjects_returns hC (p := some s.heap.next) harr₃ hG₄
    List.nodup_range' halive₄
  obtain ⟨hids₁, hexchange⟩ := (hmoved.assigned hass (Nat.le_refl _)).exchange.without
    (G := G) tmp.reverse hrow.alive (by omega) (fun e he => hsame₂ e fun hin => by
      exact he (List.mem_reverse.2 hin))
    (fun e he => ((hmem e).1 (List.mem_reverse.1 he)).1)
    fun e he => halive₂ e (List.mem_reverse.1 he)
  have hfinal : ∀ c, c ≠ s.heap.next →
      (s₃.heap.drop (some s.heap.next)).array c = s₃.heap.array c := by
    intro c hc
    rw [Heap.drop_array, if_neg fun he => hc (Option.some.inj he).symm]
  refine ⟨⟨s₃.objects, s₃.heap.drop (some s.heap.next)⟩, t₅, o₁, ids₁, _, ?_, hG₅,
    ⟨⟨hmoved.roomy.objects, hmoved.roomy.size, hmoved.roomy.capacity, hmoved.roomy.null, ?_,
      hmoved.roomy.length, ?_, ?_⟩, hexchange, ?_⟩, ?_⟩
  · refine Returns.bind (onFirst_returns (object_returns hrow.entry) t) ?_
    rw [hsize]
    refine Returns.bind hnew (Returns.bind hsave (Returns.bind hreserve
      (Returns.bind (onFirst_returns (object_returns hrow₃.entry) t₃) ?_)))
    rw [hmoved.roomy.size, hsize]
    exact Returns.bind hrestore hdelete
  · exact hrow₃.buffer.congr fun c hc => hfinal c fun he => hne_new (he ▸ hc)
  · intro c hc hc'
    by_cases htmp' : c = s.heap.next
    · rw [htmp', Heap.drop_array, if_pos rfl, s.heap.array_next]
    · rw [hfinal c htmp', hmoved.roomy.arrays c hc hc', hold₂ c htmp']
  · intro c hc
    refine (hmoved.roomy.own c hc).imp_right fun hnone => ?_
    rw [← hold₂ c fun he => hne_new (he ▸ hc)]
    exact hnone
  · intro c hc hne
    rw [hfinal c fun he => hne_old (he ▸ hc)]
    exact hmoved.released c hc hne
  · have hfills₄ := hass.fills hrow₃.nodup hroom (Fills.nil _ _)
    exact hfills₄.congr fun e he => eraseMany_of_notMem (hids₁ e he)

end Growing

/-! ## Loops over a row -/

section Loops

variable {C : Class τ X} {initial : X} {selfAssigns : Prop} {Shows : τ → Table X → Prop}
  (hC : Lawful C initial selfAssigns Shows) {s : Store Fields Nat} {t : τ} {G : Table X} {i : Nat}
  {o : Fields} {ids : List Nat} (ho : s.objects.entry i = some o) (hp : s.heap.PointsTo o.buffer_ ids)
  (hnodup : ids.Nodup) (halive : Alive G ids) (hG : Shows t G)

include hC ho hp hnodup halive hG

/-- `for (k = lo; k < hi; ++k) buffer_[k] = val;`, `val` not in the row. -/
theorem fill_returns {val : Nat} {x : X} (lo hi : Nat) (xs : List X) (hval : G.entry val = some x)
    (hout : val ∉ ids) (hlo : lo ≤ hi) (hhi : hi ≤ ids.length)
    (hxs : ∀ k, lo ≤ k → k < hi → xs[k]? = some x) :
    ∃ t' G', Returns (fill C i lo hi val) (s, t) () (s, t') ∧ Shows t' G' ∧
      Assigned G G' ids xs lo hi := by
  have hrange : lo + (hi - lo) = hi := by omega
  have hloop := assignLoop_returns hC (s := s) ids (List.replicate hi val) xs lo (hi - lo)
    (fun k => do
      let v ← onFirst (object i)
      let dst ← onFirst (load v.buffer_ k)
      onSecond (C.assign dst val))
    (fun k d e hd he u u' hassign => by
      obtain rfl := List.eq_of_mem_replicate (List.mem_of_getElem? he)
      exact Returns.bind (onFirst_returns (object_returns ho) u)
        (Returns.bind (onFirst_returns (load_pointsTo hp hd) u) (onSecond_returns hassign s)))
    hG hnodup halive (by omega)
    (fun k hk hk' => ⟨val, x, by rw [List.getElem?_replicate, if_pos (by omega)],
      hxs k hk (by omega), hval⟩)
    (fun k j e he hj => by
      obtain rfl := List.eq_of_mem_replicate (List.mem_of_getElem? he)
      exact absurd (List.mem_of_getElem? hj) hout)
  rwa [hrange] at hloop

/-- `for (k = 0; k < n; ++k) buffer_[k] = x.buffer_[k];` -/
theorem copyFrom_returns {j : Nat} {w : Fields} {src : List Nat} {ys : List X}
    (hw : s.objects.entry j = some w) (hq : s.heap.PointsTo w.buffer_ src) (hfills : Fills G src ys)
    (hlen : ys.length ≤ ids.length)
    (hapart : ∀ k l e : Nat, src[k]? = some e → ids[l]? = some e → k = l ∧ selfAssigns) :
    ∃ t' G', Returns (copyFrom C i j ys.length) (s, t) () (s, t') ∧ Shows t' G' ∧
      Assigned G G' ids ys 0 ys.length := by
  have hloop := assignLoop_returns hC (s := s) ids src ys 0 ys.length
    (fun k => do
      let v ← onFirst (object i)
      let dst ← onFirst (load v.buffer_ k)
      let w ← onFirst (object j)
      let src ← onFirst (load w.buffer_ k)
      onSecond (C.assign dst src))
    (fun k d e hd he u u' hassign => Returns.bind (onFirst_returns (object_returns ho) u)
      (Returns.bind (onFirst_returns (load_pointsTo hp hd) u)
        (Returns.bind (onFirst_returns (object_returns hw) u)
          (Returns.bind (onFirst_returns (load_pointsTo hq he) u) (onSecond_returns hassign s)))))
    hG hnodup halive (by omega)
    (fun k _ hk => by
      rw [Nat.zero_add] at hk
      have hx : ys[k]? = some ys[k] := List.getElem?_eq_getElem hk
      obtain ⟨e, he, hval⟩ := hfills k _ hx
      exact ⟨e, _, he, hx, hval⟩)
    hapart
  rwa [Nat.zero_add] at hloop

end Loops

/-! ## Calls -/

/-- A call on vector `i`, after which it holds `xs`. -/
structure Called (i n : Nat) (o : Fields) (s s' : Store Fields Nat) (G G' : Table X) (ids : List Nat)
    (xs : List X) : Prop where
  state : ∃ s₁ o₁ ids₁, Moved i n o o₁ s s₁ G G' ids ids₁ ∧
    s'.objects = s.objects.set i { o₁ with size_ := xs.length } ∧ s'.heap = s₁.heap ∧
    Fills G' ids₁ xs

section Calls

variable {s s' : Store Fields Nat} {G G' : Table X} {i n : Nat} {o : Fields} {ids : List Nat}
  {xs : List X}

/-- A call that only changes the size. -/
theorem Row.called (hrow : Row s G i o ids) (hfills : Fills G ids xs) :
    Called i 0 o s (s.put i { o with size_ := xs.length }) G G ids xs :=
  ⟨s, o, ids, hrow.moved (Nat.zero_le _), rfl, rfl, hfills⟩

/-- A temporary object that was there during the call. -/
theorem Called.without {x : X} (h : Called i n o s s' (G.add x) G' ids xs) (halive : Alive G ids) :
    G'.entry G.next = some x ∧ Called i n o s s' G (G'.erase G.next) ids xs := by
  obtain ⟨s₁, o₁, ids₁, hmoved, hobj, hheap, hfills⟩ := h.state
  have hids : G.next ∉ ids := fun hmem => Nat.lt_irrefl _ (halive.lt_next hmem)
  have hsame : ∀ e, e ∉ [G.next] → (G.add x).entry e = G.entry e := fun e he => by
    rw [Table.add_entry, Function.update_of_ne (by simpa using he)]
  obtain ⟨hids₁, hexchange⟩ := hmoved.exchange.without [G.next] halive (Nat.le_succ _) hsame
    (fun e he => Nat.le_of_eq (List.mem_singleton.1 he).symm)
    fun e he => ⟨x, by rw [List.mem_singleton.1 he, Table.add_entry_self]⟩
  refine ⟨(hmoved.exchange.keeps (G.add_entry_self x) hids).2, s₁, o₁, ids₁,
    ⟨hmoved.roomy, hexchange, hmoved.released⟩, hobj, hheap, hfills.congr fun e he => ?_⟩
  exact eraseMany_of_notMem (hids₁ e he)

end Calls

end LinuxSamples.ClassVector
