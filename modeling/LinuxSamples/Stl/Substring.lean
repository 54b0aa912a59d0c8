import LinuxSamples.Stl.StringSpec

set_option autoImplicit false

/-! # The substring constructor of `fbcstd::string`

`string(str, pos, len)` clamps `len` to the end of `str` by testing `pos + len > str.size_` in
`size_t`. As long as the sum does not wrap this is the minimum of `len` and `str.size_ - pos`; when it
wraps, as it does for the default `len = npos` and every `pos` but 0, the sum is below `pos`, `len` is
taken as the size and the copying loop leaves one of the two buffers. -/

namespace LinuxSamples.FbcString

open LinuxSamples.Program LinuxSamples.Memory

variable {refuses : Nat → Bool} {s : Store Fields (Option UInt8)} {F : Table (List UInt8)}
  {j pos len : Nat} {bs : List UInt8}

/-- What `string(str, pos, len)` is meant to hold: nothing when `pos` is past the end, else the
    `min(len, n - pos)` bytes from position `pos` on. -/
def substr (bs : List UInt8) (pos len : Nat) : List UInt8 :=
  if pos > bs.length then [] else (bs.drop pos).take (min len (bs.length - pos))

theorem substr_eq (bs : List UInt8) (pos len : Nat) : substr bs pos len = (bs.drop pos).take len := by
  rw [substr]
  split
  · next hpos => rw [List.drop_of_length_le (Nat.le_of_lt hpos), List.take_nil]
  · rw [← List.length_drop, List.take_eq_take_iff]
    omega

/-- The loop that copies `count` bytes from position `pos` on, when there are not that many. -/
theorem copyLoop_leaves {b d count : Nat} {new : List (Option UInt8)} (hbd : b ≠ d)
    (hb : s.heap.array b = some (terminated bs)) (hd : s.heap.array d = some new)
    (hpos : pos ≤ bs.length) (hn : bs.length - pos + 1 < count) :
    Fails (forUp (fun i => do
      let c ← load (some b) (pos + i)
      store (some d) i c) 0 count) s .outOfBounds := by
  refine forUp_fails _ (fun _ s => s.heap.array b = some (terminated bs) ∧
      ∃ now, s.heap.array d = some now) _ 0 (bs.length - pos + 1) count hn ?_ ?_ s ⟨hb, new, hd⟩
  · rintro i s hi ⟨hb, now, hd⟩
    obtain ⟨x, hbyte⟩ : ∃ x, (terminated bs)[pos + i]? = some x :=
      ⟨_, List.getElem?_eq_getElem (by rw [terminated_length]; omega)⟩
    by_cases hlt : i < now.length
    · refine Or.inr ⟨_, Returns.bind (load_returns hb hbyte) (store_returns hd hlt _), ?_, ?_⟩
      · rw [Store.write_heap, Heap.write_array hd, Function.update_of_ne hbd]
        exact hb
      · exact ⟨_, by rw [Store.write_heap, Heap.write_array hd, Function.update_self]⟩
    · exact Or.inl (Fails.bind_right (load_returns hb hbyte) (store_fails hd (by omega) _))
  · rintro s ⟨hb, _⟩
    exact Fails.bind_left (load_fails hb (by rw [terminated_length]; omega))

/-- When `pos + len` wraps, the constructor accesses a buffer out of its bounds. -/
theorem substring_leaves (hg : Generous refuses) (h : Represents model s F)
    (hj : F.entry j = some bs) (hn : bs.length < 2 ^ 63) (hpos : pos ≤ bs.length)
    (hlen : len < 2 ^ 64) (hwrap : 2 ^ 64 ≤ pos + len) :
    Fails (substring refuses j pos len) s .outOfBounds := by
  obtain ⟨w, hw, hwsize, _, b, hb, harr⟩ := h.lookup hj
  have hbnext : b ≠ s.heap.next := Nat.ne_of_lt (Heap.lt_next harr)
  have hw₀ := Table.add_entry_old hw (⟨0, none⟩ : Fields)
  -- the wrapped sum is below `pos`, so `len` is not clamped
  have hsum : wrap (pos + len) = pos + len - 2 ^ 64 := by
    rw [wrap, Nat.mod_eq_sub_mod hwrap, Nat.mod_eq_of_lt (by omega)]
  have hsize : (if wrap (pos + len) > w.size_ then w.size_ - pos else len) = len := by
    rw [hsum, hwsize]
    exact if_neg (by omega)
  have halloc := allocate_wrapped (s := ⟨s.objects.add ⟨0, none⟩, s.heap⟩) hg
    (s.objects.add_entry_self _) len
  refine Fails.bind_right (newObject_returns s _) (Fails.bind_right (object_returns hw₀) ?_)
  rw [if_neg (by rw [hwsize]; omega), hsize, hb]
  refine Fails.bind_right halloc (Fails.bind_left ?_)
  exact copyLoop_leaves hbnext ((Function.update_of_ne hbnext _ _).trans harr)
    (Function.update_self ..) hpos (by omega)

/-- **The substring constructor is right exactly when `pos` is past the end or `pos + len` does not
    wrap.** -/
theorem substring_iff (hg : Generous refuses) (h : Represents model s F)
    (hj : F.entry j = some bs) (hn : bs.length < 2 ^ 63) (hlen : len < 2 ^ 64) :
    Constructs (substring refuses j pos len) s F (substr bs pos len) ↔
      bs.length < pos ∨ pos + len < 2 ^ 64 := by
  constructor
  · intro hright
    by_contra hcond
    obtain ⟨hpos, hwrap⟩ := not_or.1 hcond
    exact hright.not_fails
      (substring_leaves hg h hj hn (Nat.not_lt.1 hpos) hlen (Nat.not_lt.1 hwrap))
  · intro hcond
    obtain ⟨s', hret, h'⟩ := substring_spec hg h hj hcond
    rw [← substr_eq] at h'
    exact Yields.of_represents hret h' (F.add_entry_self _)

/-- `string str("hello")`, then `string(str, 1, 3)` and, with the default length, `string(str, 0)`. -/
theorem substring_iff_hello : ∃ s F,
    Represents model s F ∧ F.entry 0 = some [104, 101, 108, 108, 111] ∧
    Constructs (substring (fun _ => false) 0 1 3) s F [101, 108, 108] ∧
    Constructs (substring (fun _ => false) 0 0 npos) s F [104, 101, 108, 108, 111] := by
  obtain ⟨s, F, h, hj⟩ := exists_string [104, 101, 108, 108, 111] (by decide) (by decide)
  exact ⟨s, _, h, hj,
    (substring_iff (fun _ => rfl) h hj (by decide) (by decide)).2 (Or.inr (by decide)),
    (substring_iff (fun _ => rfl) h hj (by decide) (by decide)).2 (Or.inr (by decide))⟩

/-- `string str("ab"); string(str, 1)`: the default length wraps the sum to 0, and instead of copying
    "b" the loop leaves the buffers. -/
theorem substring_out_of_bounds : ∃ s F, Represents model s F ∧ F.entry 0 = some [97, 98] ∧
    substr [97, 98] 1 npos = [98] ∧ Fails (substring (fun _ => false) 0 1 npos) s .outOfBounds ∧
    ¬ Constructs (substring (fun _ => false) 0 1 npos) s F (substr [97, 98] 1 npos) := by
  obtain ⟨s, F, h, hj⟩ := exists_string [97, 98] (by decide) (by decide)
  have hfail : Fails (substring (fun _ => false) 0 1 npos) s .outOfBounds :=
    substring_leaves (fun _ => rfl) h hj (by decide) (by decide) (by decide) (by decide)
  exact ⟨s, _, h, hj, by decide, hfail, fun hright => hright.not_fails hfail⟩

end LinuxSamples.FbcString
