import LinuxSamples.Stl.StringAlias
import LinuxSamples.Stl.StringElements

set_option autoImplicit false

/-! # `fbcstd::vector<fbcstd::string>` assigned to itself

With `string` for `T`, `buffer_[i] = x.buffer_[i]` is the `operator=` of `string`, so that a vector assigned
to itself assigns each of its strings to itself. -/

namespace LinuxSamples.StringVector

open LinuxSamples.Program LinuxSamples.Memory LinuxSamples.ClassVector
open LinuxSamples.StringClass (Strings stringClass)

/-! ## Self-assignment -/

/-- Vector `i` has `capacity_` slots, and the strings in the first `size_` of them hold `texts`. -/
structure Contains (σ : State Strings) (i : Nat) (texts : List (List UInt8)) : Prop where
  state : ∃ o ids F, σ.1.objects.entry i = some o ∧ σ.1.heap.PointsTo o.buffer_ ids ∧
    ids.length = o.capacity_ ∧ o.size_ ≤ o.capacity_ ∧
    Represents FbcString.model σ.2 F ∧ (ids.take o.size_).map F.entry = texts.map some

variable {P : Platform Nat} {refuses : Nat → Bool} {σ : State Strings} {i : Nat}
  {texts : List (List UInt8)}

theorem reserve_noop {n : Nat} {o : Vector.Fields} (ho : σ.1.objects.entry i = some o)
    (hn : n ≤ o.capacity_) : Returns (reserve P (stringClass refuses) i n) σ () σ := by
  refine Returns.bind (onFirst_returns (object_returns ho) σ.2) ?_
  rw [onlyIf_neg (by omega)]
  exact Returns.pure () σ

/-- Setting the size field to the value it has. -/
theorem resize_same {o : Vector.Fields} (ho : σ.1.objects.entry i = some o) :
    Returns (onFirst (modifyObject i fun v : Vector.Fields => { v with size_ := o.size_ }) :
      Code Strings Unit)
      σ () σ := by
  have hmod := onFirst_returns
    (modifyObject_returns ho fun v : Vector.Fields => { v with size_ := o.size_ }) σ.2
  have hsame : σ.1.put i o = σ.1 := by rw [Store.put, Table.set_self ho]
  rwa [hsame] at hmod

/-- The first iteration assigns a string to itself. -/
theorem operatorAssign_self_fails (hg : FbcString.Generous refuses) (hc : Contains σ i texts)
    (hne : texts ≠ []) : Fails (operatorAssign P (stringClass refuses) i i) σ .unwritten := by
  obtain ⟨o, ids, F, ho, hp, hlen, hsize, h, htexts⟩ := hc.state
  obtain ⟨text, rest, rfl⟩ := List.exists_cons_of_ne_nil hne
  obtain ⟨e, es, hids, he, _⟩ := List.map_eq_cons_iff.1 (htexts.trans (List.map_cons ..))
  have hpos : 0 < o.size_ := by
    have hcount := congrArg List.length hids
    rw [List.length_take, List.length_cons] at hcount
    omega
  have hslot : ids[0]? = some e := by
    rw [← List.getElem?_take_of_lt hpos, hids]
    rfl
  have hload := onFirst_returns (load_pointsTo hp hslot) σ.2
  have hobj := onFirst_returns (object_returns ho) σ.2
  refine Fails.bind_right hobj (Fails.bind_right (reserve_noop ho hsize)
    (Fails.bind_right (resize_same ho) ?_))
  obtain ⟨m, hm⟩ := Nat.exists_eq_add_of_lt hpos
  rw [hm, Nat.zero_add]
  exact Fails.bind_left (Fails.bind_right hobj (Fails.bind_right hload (Fails.bind_right hobj
    (Fails.bind_right hload (onSecond_fails (FbcString.assign_self_fails hg h he) σ.1)))))

theorem operatorAssign_self_empty (hc : Contains σ i []) :
    Returns (operatorAssign P (stringClass refuses) i i) σ () σ := by
  obtain ⟨o, ids, F, ho, hp, hlen, hsize, h, htexts⟩ := hc.state
  have hnone : o.size_ = 0 := by
    have hnil := congrArg List.length htexts
    rw [List.length_map, List.length_take, List.map_nil, List.length_nil] at hnil
    omega
  refine Returns.bind (onFirst_returns (object_returns ho) σ.2)
    (Returns.bind (reserve_noop ho hsize) (Returns.bind (resize_same ho) ?_))
  rw [hnone]
  exact Returns.pure () σ

theorem operatorAssign_self_iff (hg : FbcString.Generous refuses) (hc : Contains σ i texts) :
    (∃ σ', Returns (operatorAssign P (stringClass refuses) i i) σ () σ' ∧ Contains σ' i texts) ↔ texts = [] := by
  constructor
  · rintro ⟨σ', hret, _⟩
    by_contra hne
    exact hret.not_fails (operatorAssign_self_fails hg hc hne)
  · rintro rfl
    exact ⟨σ, operatorAssign_self_empty hc, hc⟩

/-! ## Assignment from inside the target -/

section Aliased

open FbcString

variable {s : Store Fields (Option UInt8)} {F : Table (List UInt8)} {j k : Nat} {bs : List UInt8}

/-- **Assignment from inside the target**: `s = s` and `s.assign(s)` never keep the text;
    `s = s.c_str() + k` and `s.assign(s.c_str() + k)` leave the end of the text only of an empty string;
    and a vector of strings survives `v = v` only without elements. -/
theorem aliased_assignment (hg : Generous refuses) (h : Represents model s F)
    (hj : F.entry j = some bs) (hk : k ≤ bs.length) :
    ¬ Leaves (Op.run refuses (.assign j j)) s F j bs ∧
    (Leaves (Op.run refuses (.assignCString j (.suffix j k))) s F j (bs.drop k) ↔ bs = []) ∧
    ∀ (P : Platform Nat) (σ : State Strings) (i : Nat) (texts : List (List UInt8)), Contains σ i texts →
      ((∃ σ', Returns (operatorAssign P (stringClass refuses) i i) σ () σ' ∧ Contains σ' i texts) ↔ texts = []) :=
  ⟨fun hright => hright.not_fails (assign_self_fails hg h hj), assign_suffix_iff hg h hj hk,
    fun _ _ _ _ hc => operatorAssign_self_iff hg hc⟩

/-- `string s;` -/
theorem aliased_assignment_empty : ∃ s F, Represents model s F ∧ F.entry 0 = some [] ∧
    Leaves (Op.run (fun _ => false) (.assignCString 0 (.suffix 0 0))) s F 0 [] ∧
    ¬ Leaves (Op.run (fun _ => false) (.assign 0 0)) s F 0 [] := by
  obtain ⟨s, F, h, hj⟩ := exists_string [] (by decide) (by decide)
  obtain ⟨hself, hsuffix, _⟩ := aliased_assignment (fun _ => rfl) h hj (Nat.le_refl 0)
  exact ⟨s, _, h, hj, hsuffix.2 rfl, hself⟩

/-- `string s("ab"); s = s;`, `s = s.c_str() + 1;` and `vector<string> v(1, s); v = v;` -/
theorem aliased_assignment_ab : ∃ s F, Represents model s F ∧ F.entry 0 = some [97, 98] ∧
    Fails (Op.run (fun _ => false) (.assign 0 0)) s .unwritten ∧
    Fails (Op.run (fun _ => false) (.assignCString 0 (.suffix 0 1))) s .released ∧
    ∃ v : Store Vector.Fields Nat, Contains (v, s) 0 [[97, 98]] ∧
      Fails (operatorAssign (Platform.zeroed 0) (stringClass fun _ => false) 0 0) (v, s) .unwritten := by
  obtain ⟨s, F, h, hj⟩ := exists_string [97, 98] (by decide) (by decide)
  have hc : Contains (⟨Table.empty.add ⟨1, 1, some 0⟩, Heap.empty.alloc [0]⟩, s) 0 [[97, 98]] :=
    ⟨⟨1, 1, some 0⟩, [0], F, rfl, rfl, rfl, Nat.le_refl 1, h, by simp [hj]⟩
  exact ⟨s, _, h, hj, assign_self_fails (fun _ => rfl) h hj, assign_suffix_fails h hj (by decide), _, hc,
    operatorAssign_self_fails (fun _ => rfl) hc (by decide)⟩

end Aliased

end LinuxSamples.StringVector
