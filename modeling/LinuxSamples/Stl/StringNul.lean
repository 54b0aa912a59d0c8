import LinuxSamples.Stl.StringAlias
import LinuxSamples.Stl.StringOrder

set_option autoImplicit false

/-! # `fbcstd::string`s that hold NUL bytes

A string counts its bytes, but copies with `strcpy` and compares with `strcmp`, which stop at the first
NUL. What a copy holds behind it is not written, and what the strings hold behind it is not compared. -/

namespace LinuxSamples.FbcString

open LinuxSamples.Program LinuxSamples.Memory

variable {refuses : Nat → Bool} {s s' : Store Fields (Option UInt8)} {F : Table (List UInt8)}
  {i j k : Nat} {bs cs : List UInt8}

/-- String `k` has as many bytes as `bs`, and these bytes. -/
structure HasBytes (s : Store Fields (Option UInt8)) (k : Nat) (bs : List UInt8) : Prop where
  state : ∃ o b slots, s.objects.entry k = some o ∧ o.size_ = bs.length ∧ o.buffer_ = some b ∧
    s.heap.array b = some slots ∧ slots.take o.size_ = bs.map some

/-- A buffer for all the bytes, filled up to the first NUL, holds the bytes if no NUL comes before the
    last of them: then the terminator stands for it. -/
theorem take_filled_iff (bs : List UInt8) :
    (filled bs.length (cstring bs)).take bs.length = bs.map some ↔ 0 ∉ bs.dropLast := by
  by_cases hmem : 0 ∈ bs
  · obtain ⟨head, rest, rfl, hhead⟩ := List.eq_append_cons_of_mem hmem
    have htake : (filled (head ++ 0 :: rest).length (cstring (head ++ 0 :: rest))).take
        (head ++ 0 :: rest).length = head.map some ++ some 0 :: List.replicate rest.length none := by
      rw [cstring_append_zero, cstring_of_textual hhead, filled, terminated, List.length_append,
        List.length_cons, Nat.add_sub_cancel_left, List.append_assoc, List.singleton_append,
        List.take_append, List.length_map, Nat.add_sub_cancel_left, List.take_succ_cons,
        List.take_replicate, Nat.min_eq_left (Nat.le_succ _), List.take_of_length_le (by simp)]
    rw [htake, List.map_append, List.map_cons, List.append_cancel_left_eq, List.cons.injEq,
      List.dropLast_append_of_ne_nil (List.cons_ne_nil _ _)]
    cases rest with
    | nil => simp [hhead]
    | cons r rest => simp [List.replicate_succ]
  · rw [cstring_of_textual hmem, filled_self, terminated, List.take_left' (by simp)]
    exact iff_of_true rfl fun hlast => hmem (List.dropLast_subset bs hlast)

/-! ## Copies -/

/-- A string whose buffer was filled with `strcpy` has the bytes of the source, or not. -/
theorem hasBytes_filled (bs : List UInt8) {o : Fields} {b : Nat} (ho : s.objects.entry k = some o)
    (hsize : o.size_ = bs.length) (hb : o.buffer_ = some b)
    (harr : s.heap.array b = some (filled bs.length (cstring bs))) :
    HasBytes s k bs ↔ 0 ∉ bs.dropLast := by
  rw [← take_filled_iff]
  constructor
  · rintro ⟨o', b', slots, ho', hsize', hb', harr', htake⟩
    rw [ho] at ho'
    cases ho'
    rw [hb] at hb'
    cases hb'
    rw [harr] at harr'
    cases harr'
    rwa [hsize] at htake
  · intro htake
    exact ⟨o, b, _, ho, hsize, hb, harr, by rwa [hsize]⟩

section Copies

variable (hg : Generous refuses) (h : Represents model s F) (hi : F.entry i = some bs)

include hg h hi

theorem copyConstruct_iff :
    (∃ s', Returns (copyConstruct refuses i) s F.next s' ∧ HasBytes s' F.next bs) ↔
      0 ∉ bs.dropLast := by
  rw [(copyConstruct_returns hg h hi).exists_iff]
  exact hasBytes_filled (k := F.next) bs (by rw [h.next]; exact s.objects.add_entry_self _) rfl rfl
    (Function.update_self ..)

theorem assign_iff (hj : F.entry j = some cs) :
    (∃ s', Returns (assign refuses j i) s () s' ∧ HasBytes s' j bs) ↔ j ≠ i ∧ 0 ∉ bs.dropLast := by
  by_cases hij : j = i
  · subst hij
    refine iff_of_false ?_ fun hne => hne.1 rfl
    rintro ⟨s', hret, _⟩
    exact hret.not_fails (assign_self_fails hg h hi)
  · obtain ⟨heap, hret, _, _⟩ := assign_returns hg h hj hi hij
    obtain ⟨o, ho, _⟩ := h.lookup hj
    rw [hret.exists_iff, and_iff_right hij]
    exact hasBytes_filled (k := j) bs (Table.set_entry_self ho _) rfl rfl (Function.update_self ..)

end Copies

/-! ## Equality -/

/-- `==` compares the bytes up to the first NULs. -/
theorem operatorEq_returns (h : Represents model s F) (hi : F.entry i = some bs)
    (hj : F.entry j = some cs) :
    Returns (operatorEq i j) s (decide (cstring bs = cstring cs)) s := by
  obtain ⟨r, hr, _, hzero⟩ := compare_spec h hi hj
  rw [← decide_eq_decide.2 hzero]
  exact Returns.bind hr (Returns.pure _ s)

theorem operatorEq_iff (h : Represents model s F) (hi : F.entry i = some bs)
    (hj : F.entry j = some cs) :
    (∃ same s', Returns (operatorEq i j) s same s' ∧ (same = true ↔ bs = cs)) ↔
      (cstring bs = cstring cs → bs = cs) := by
  have hret := operatorEq_returns h hi hj
  constructor
  · rintro ⟨same, s', hret', hsame⟩ htext
    obtain ⟨rfl, _⟩ := hret.unique hret'
    exact hsame.1 (decide_eq_true htext)
  · intro htext
    refine ⟨_, s, hret, ?_⟩
    rw [decide_eq_true_iff]
    exact ⟨htext, fun heq => congrArg cstring heq⟩

/-- **Embedded NULs.** A copy has the bytes of its source exactly when no NUL comes before the last of
    them, and the target is another string; and `==` decides the equality of the bytes exactly when the
    two strings are equal or differ up to their first NULs. -/
theorem embedded_nuls (hg : Generous refuses) (h : Represents model s F)
    (hi : F.entry i = some bs) :
    ((∃ s', Returns (copyConstruct refuses i) s F.next s' ∧ HasBytes s' F.next bs) ↔
      0 ∉ bs.dropLast) ∧
    (∀ j cs, F.entry j = some cs →
      ((∃ s', Returns (assign refuses j i) s () s' ∧ HasBytes s' j bs) ↔
        j ≠ i ∧ 0 ∉ bs.dropLast)) ∧
    ∀ j cs, F.entry j = some cs →
      ((∃ same s', Returns (operatorEq i j) s same s' ∧ (same = true ↔ bs = cs)) ↔
        (cstring bs = cstring cs → bs = cs)) :=
  ⟨copyConstruct_iff hg h hi, fun _ _ hj => assign_iff hg h hi hj,
    fun _ _ hj => operatorEq_iff h hi hj⟩

/-- `string a("abc"); a[2] = '\0'; string b("ac");` -/
theorem embedded_nuls_last : ∃ s F, Represents model s F ∧ F.entry 0 = some [97, 98, 0] ∧
    F.entry 1 = some [97, 99] ∧
    (∃ s', Returns (copyConstruct (fun _ => false) 0) s F.next s' ∧ HasBytes s' F.next [97, 98, 0]) ∧
    ∃ same s', Returns (operatorEq 0 1) s same s' ∧
      (same = true ↔ ([97, 98, 0] : List UInt8) = [97, 99]) := by
  obtain ⟨s, _, h⟩ := allowed_returns (fun _ => rfl)
    [.ofCString (.literal [97, 98, 99]), .set 0 2 0, .ofCString (.literal [97, 99])]
    ⟨⟨⟨_, rfl, by decide⟩, trivial⟩, ⟨⟨_, rfl, by decide⟩, trivial⟩,
      ⟨⟨_, rfl, by decide⟩, trivial⟩, trivial⟩
  have hi : (([.ofCString (.literal [97, 98, 99]), .set 0 2 0, .ofCString (.literal [97, 99])]
    : List Op).foldl result Table.empty).entry 0 = some [97, 98, 0] := rfl
  obtain ⟨hcopy, _, heq⟩ := embedded_nuls (fun _ => rfl) h hi
  exact ⟨s, _, h, rfl, rfl, hcopy.2 (by decide), (heq 1 [97, 99] rfl).2 (by decide)⟩

/-- `string a("abc"), b("abd"); a[1] = b[1] = '\0';`: a copy of `a` does not have its third byte, and
    `a == b`. -/
theorem embedded_nuls_lost : ∃ s F, Represents model s F ∧ F.entry 0 = some [97, 0, 99] ∧
    F.entry 1 = some [97, 0, 100] ∧
    (¬ ∃ s', Returns (copyConstruct (fun _ => false) 0) s F.next s' ∧ HasBytes s' F.next [97, 0, 99]) ∧
    (¬ ∃ s', Returns (assign (fun _ => false) 1 0) s () s' ∧ HasBytes s' 1 [97, 0, 99]) ∧
    Returns (operatorEq 0 1) s true s := by
  obtain ⟨s, _, h⟩ := allowed_returns (fun _ => rfl)
    [.ofCString (.literal [97, 98, 99]), .ofCString (.literal [97, 98, 100]), .set 0 1 0, .set 1 1 0]
    ⟨⟨⟨_, rfl, by decide⟩, trivial⟩, ⟨⟨_, rfl, by decide⟩, trivial⟩,
      ⟨⟨_, rfl, by decide⟩, trivial⟩, ⟨⟨_, rfl, by decide⟩, trivial⟩, trivial⟩
  set F := ([.ofCString (.literal [97, 98, 99]), .ofCString (.literal [97, 98, 100]), .set 0 1 0,
    .set 1 1 0] : List Op).foldl result Table.empty
  have hi : F.entry 0 = some [97, 0, 99] := rfl
  have hj : F.entry 1 = some [97, 0, 100] := rfl
  refine ⟨s, F, h, hi, hj, fun hcopy => ?_, fun hassign => ?_, operatorEq_returns h hi hj⟩
  · exact absurd ((copyConstruct_iff (fun _ => rfl) h hi).1 hcopy) (by decide)
  · exact absurd ((assign_iff (fun _ => rfl) h hi hj).1 hassign).2 (by decide)

end LinuxSamples.FbcString
