import LinuxSamples.Stl.StringRuns
import LinuxSamples.Stl.VectorLoops

set_option autoImplicit false

/-! # Assigning to an `fbcstd::string` from its own buffer

`operator=` releases the buffer of its target, unless that is empty, and takes a new one before it
reads the source. When source and target are one string, what it copies is the new buffer onto itself,
which was never written; when the source is a C string inside the target's buffer, it is read after its
release. The same happens to each element of a `vector<string>` that is assigned to itself. -/

namespace LinuxSamples.FbcString

open LinuxSamples.Program LinuxSamples.Memory

variable {refuses : Nat → Bool} {s : Store Fields (Option UInt8)} {F : Table (List UInt8)}
  {i k : Nat} {bs : List UInt8}

/-! ## One string -/

section Strings

variable (hg : Generous refuses) (h : Represents model s F) (hi : F.entry i = some bs)

include hg h hi

/-- `s = s` and `s.assign(s)` read the new buffer before anything was written to it. -/
theorem assign_self_fails : Fails (assign refuses i i) s .unwritten := by
  obtain ⟨o, ho, hold⟩ := h.lookup hi
  obtain ⟨heap, hdel, _, _⟩ := onlyIf_delete h hi ho (o.size_ ≠ 0)
  have hfits : o.size_ + 1 < 2 ^ 64 := by
    rw [hold.size]
    exact hold.fits
  have halloc := allocate_returns (s := ⟨s.objects, heap⟩) hg ho hfits
  have hentry := Table.set_entry_self ho (⟨o.size_, some heap.next⟩ : Fields)
  refine Fails.bind_right (object_returns ho) (Fails.bind_right hdel
    (Fails.bind_right (object_returns (s := ⟨s.objects, heap⟩) ho) (Fails.bind_right halloc
      (Fails.bind_right (Returns.bind (object_returns hentry) (Returns.pure _ _)) ?_))))
  have hnew : (heap.alloc (List.replicate (o.size_ + 1) none)).array heap.next
      = some (List.replicate (o.size_ + 1) none) := Function.update_self ..
  refine Fails.bind_left (Fails.bind_right (Returns.bind (contents_returns hnew)
    (Returns.pure _ _)) ?_)
  rw [List.drop_zero, List.replicate_succ]
  exact ⟨_, rfl⟩

omit hg in
/-- `s = s.c_str() + k` reads the buffer it has released, if it releases it. -/
theorem assign_suffix_fails (hne : bs ≠ []) :
    Fails (Op.run refuses (.assignCString i (.suffix i k))) s .released := by
  obtain ⟨o, ho, hsize, _, b, hb, harr⟩ := h.lookup hi
  have hpos : o.size_ ≠ 0 := by
    rw [hsize]
    exact fun hz => hne (List.eq_nil_of_length_eq_zero hz)
  refine Fails.bind_right (Returns.bind (object_returns ho) (Returns.pure _ s))
    (Fails.bind_right (object_returns ho) ?_)
  rw [onlyIf_pos hpos, hb]
  have hgone : (s.heap.release b).array b = none := by
    rw [Heap.release_array, Function.update_self]
  exact Fails.bind_right (deleteArray_returns harr) (Fails.bind_left (Fails.bind_left
    (Fails.bind_left (Fails.bind_left (contents_released hgone)))))

omit hi in
/-- An empty string keeps its buffer, and assigning its own C string to it leaves it empty. -/
theorem assign_suffix_empty (hi : F.entry i = some []) :
    ∃ s', Returns (Op.run refuses (.assignCString i (.suffix i 0))) s () s' ∧
      Represents model s' (F.set i []) := by
  obtain ⟨o, ho, hsize, hread⟩ := read_spec h hi (Nat.zero_le _)
  obtain ⟨s₁, halloc, _, hcopy⟩ := copied hg ho (n := 0) (by decide) hread (Nat.le_refl _)
  have hfilled : filled 0 (cstring (([] : List UInt8).drop 0)) = terminated [] := rfl
  rw [hfilled] at hcopy
  refine ⟨_, Returns.bind (Returns.bind (object_returns ho) (Returns.pure _ s))
    (Returns.bind (object_returns ho) ?_), rebuffered h hi [] (by decide) rfl fun _ _ => rfl⟩
  rw [onlyIf_neg (by rw [hsize]; decide)]
  exact Returns.bind (Returns.pure () s) (Returns.bind (strlen_returns hread)
    (Returns.bind halloc hcopy))

theorem assign_suffix_iff (hk : k ≤ bs.length) :
    Leaves (Op.run refuses (.assignCString i (.suffix i k))) s F i (bs.drop k) ↔ bs = [] := by
  constructor
  · intro hright
    by_contra hne
    exact hright.not_fails (assign_suffix_fails h hi hne)
  · rintro rfl
    obtain rfl : k = 0 := Nat.le_zero.1 hk
    obtain ⟨s', hret, h'⟩ := assign_suffix_empty hg h hi
    exact Yields.of_represents hret h' (Table.set_entry_self hi _)

end Strings

end LinuxSamples.FbcString
