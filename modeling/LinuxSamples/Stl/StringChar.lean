import LinuxSamples.Stl.StringSpec

set_option autoImplicit false

/-! # Single characters concatenated to an `fbcstd::string`

`s += c`, `s + c` and `c + s` pass the address of a lone `char` to `strcat` and `strlen`, which read on
until they meet a NUL. With a NUL right behind the character the result is right; with other bytes
there, `strcat` writes past the new buffer or the bytes become part of the result; and what is read is
in no case the one byte only. -/

namespace LinuxSamples.FbcString

open LinuxSamples.Program LinuxSamples.Memory

variable {refuses : Nat → Bool} {s : Store Fields (Option UInt8)} {F : Table (List UInt8)}
  {i : Nat} {bs : List UInt8} {c : UInt8} {after : List UInt8}

/-! ## What is read at the address of a character -/

theorem head_zero_iff (after : List UInt8) :
    after.head? = some 0 ↔ 0 ∈ after ∧ cstring after = [] := by
  cases after with
  | nil => simp
  | cons b rest =>
      rw [cstring_cons]
      by_cases hb : b = 0
      · simp [hb]
      · simp [hb]

theorem addressOf_reads (hc : c ≠ 0) (h : 0 ∈ after) :
    Returns (readString (addressOf c after)) s (c :: cstring after) s := by
  have hread := readString_external_of_mem (s := s) (List.mem_cons_of_mem c h)
  rwa [cstring_cons, if_neg hc] at hread

theorem addressOf_fails (hc : c ≠ 0) (h : 0 ∉ after) :
    Fails (readString (addressOf c after)) s .outOfBounds :=
  readString_external_fails (List.not_mem_cons_of_ne_of_not_mem hc.symm h)

/-- `operator+=` for a `char` is the one for a C string, if the C string read has one byte. -/
theorem appendChar_of_appendCString {s' : Store Fields (Option UInt8)} {bs : List UInt8}
    (hread : Returns (readString (addressOf c after)) s bs s) (hlen : bs.length = 1)
    (hret : Returns (appendCString refuses i (addressOf c after)) s () s') :
    Returns (appendChar refuses i c after) s () s' := by
  obtain ⟨n, s₁, hstrlen, hrest⟩ := Returns.bind_inv hret
  obtain ⟨rfl, rfl⟩ := hstrlen.unique (strlen_returns hread)
  rw [hlen] at hrest
  exact hrest

/-- `strcat` from the address of a character into an array with one byte to spare. -/
theorem strcat_char_fails {b : Nat} {bs : List UInt8} (hbs : 0 ∉ bs) (hc : c ≠ 0)
    (hafter : after.head? ≠ some 0) (hb : s.heap.array b = some (terminated bs ++ [none])) :
    Fails (strcat (some b) (addressOf c after)) s .outOfBounds := by
  by_cases hmem : 0 ∈ after
  · have hne : cstring after ≠ [] := fun hnil => hafter ((head_zero_iff after).2 ⟨hmem, hnil⟩)
    have hpos := List.length_pos_iff.2 hne
    refine strcat_overruns hbs hb (addressOf_reads hc hmem) (fun he => by cases he) ?_
    simp only [List.length_cons, List.length_nil]
    omega
  · exact Fails.bind_right (readString_head hbs hb) (Fails.bind_left (addressOf_fails hc hmem))

/-! ## The three operators -/

section Operators

variable (hg : Generous refuses) (h : Represents model s F) (hi : F.entry i = some bs) (hbs : 0 ∉ bs)
  (hc : c ≠ 0)

include hg h hi hbs hc

/-- With a NUL behind the character, `+=` appends the character. -/
theorem appendChar_spec (hfits : bs.length + 2 < 2 ^ 64) (hafter : after.head? = some 0) :
    ∃ s', Returns (appendChar refuses i c after) s () s' ∧
      Represents model s' (F.set i (bs ++ [c])) := by
  obtain ⟨hmem, hnil⟩ := (head_zero_iff after).1 hafter
  have hread := addressOf_reads (s := s) hc hmem
  rw [hnil] at hread
  obtain ⟨s', hret, h'⟩ := appendCString_spec hg h hi hread hbs hfits
  exact ⟨s', appendChar_of_appendCString hread rfl hret, h'⟩

/-- With anything else behind it, memory is accessed out of bounds: the new buffer has one byte for the
    character, and `strcat` reads on for the NUL. -/
theorem appendChar_fails (hfits : bs.length + 2 < 2 ^ 64) (hafter : after.head? ≠ some 0) :
    Fails (appendChar refuses i c after) s .outOfBounds := by
  obtain ⟨o, ho, hsize, _, b, hb, harr⟩ := h.lookup hi
  have hwrap : wrap (o.size_ + 1) = bs.length + 1 := by
    rw [hsize]
    exact Nat.mod_eq_of_lt (by omega)
  have hmod := modifyObject_returns ho fun v : Fields => { v with size_ := wrap (v.size_ + 1) }
  rw [hwrap, hb] at hmod
  have hput := Store.put_entry ho (⟨bs.length + 1, some b⟩ : Fields)
  have htext := cstring_of_textual hbs
  have hcopy := text_copied (n := bs.length + 1) (s.objects.set i ⟨bs.length + 1, some b⟩) harr
    (by rw [htext]; omega)
  have hfilled : filled (bs.length + 1) (cstring bs) = terminated bs ++ [none] := by
    rw [htext, filled, Nat.add_sub_cancel_left]
    rfl
  rw [hfilled] at hcopy
  refine Fails.bind_right hmod (Fails.bind_right (object_returns hput) ?_)
  have hwrap' : wrap (bs.length + 1 + 1) = bs.length + 1 + 1 := Nat.mod_eq_of_lt (by omega)
  rw [hwrap']
  refine Fails.bind_right (newChars_returns hg _ _) (Fails.bind_right hcopy
    (Fails.bind_right (Returns.pure _ _) (Fails.bind_left ?_)))
  exact strcat_char_fails hbs hc hafter (Function.update_self ..)

theorem appendChar_iff (hfits : bs.length + 2 < 2 ^ 64) (after : List UInt8) :
    Leaves (appendChar refuses i c after) s F i (bs ++ [c]) ↔ after.head? = some 0 := by
  constructor
  · intro hright
    by_contra hafter
    exact hright.not_fails (appendChar_fails hg h hi hbs hc hfits hafter)
  · intro hafter
    obtain ⟨s', hret, h'⟩ := appendChar_spec hg h hi hbs hc hfits hafter
    exact Yields.of_represents hret h' (Table.set_entry_self hi _)

theorem plusChar_iff (hfits : bs.length + 2 < 2 ^ 64) (after : List UInt8) :
    Constructs (plusChar refuses i c after) s F (bs ++ [c]) ↔ after.head? = some 0 := by
  obtain ⟨s₁, hcopy, h₁⟩ := copyConstruct_spec hg h hi hbs
  have hnew := F.add_entry_self bs
  constructor
  · intro hright
    by_contra hafter
    exact hright.not_fails (Fails.bind_right hcopy
      (Fails.bind_left (appendChar_fails hg h₁ hnew hbs hc hfits hafter)))
  · intro hafter
    obtain ⟨s₂, happ, h₂⟩ := appendChar_spec hg h₁ hnew hbs hc hfits hafter
    rw [Table.add_set] at h₂
    exact Yields.of_represents (Returns.bind hcopy (Returns.bind happ (Returns.pure _ s₂))) h₂
      (F.add_entry_self _)

/-- The bytes behind the character become part of the result. -/
theorem charPlus_spec (hfits : bs.length + after.length + 2 < 2 ^ 64) (hmem : 0 ∈ after) :
    ∃ s', Returns (charPlus refuses c after i) s F.next s' ∧
      Represents model s' (F.add (c :: cstring after ++ bs)) := by
  have hlen := cstring_length_le after
  have hfits' : (c :: cstring after).length + bs.length + 1 < 2 ^ 64 := by
    rw [List.length_cons]
    omega
  have hnul : 0 ∉ c :: cstring after :=
    List.not_mem_cons_of_ne_of_not_mem hc.symm (zero_notMem_cstring after)
  exact cstringPlus_spec hg h (addressOf_reads hc hmem) hi hnul hbs hfits'

theorem charPlus_iff (hfits : bs.length + after.length + 2 < 2 ^ 64) :
    Constructs (charPlus refuses c after i) s F (c :: bs) ↔ after.head? = some 0 := by
  rw [head_zero_iff]
  constructor
  · intro hright
    have hmem : 0 ∈ after := by
      by_contra hmem
      exact hright.not_fails (Fails.bind_left (Fails.bind_right (newObject_returns s _)
        (Fails.bind_left (Fails.bind_left (addressOf_fails hc hmem)))))
    obtain ⟨s₁, hret, h₁⟩ := charPlus_spec hg h hi hbs hc hfits hmem
    obtain ⟨s₂, o, b, hret', _, ho, hsize, _⟩ := hright.state
    obtain ⟨_, rfl⟩ := hret.unique hret'
    -- the sizes differ by the number of bytes behind the character
    have hold := h₁.holds_at (F.add_entry_self _) ho
    have hlen := hold.size.symm.trans hsize
    rw [List.cons_append, List.length_cons, List.length_cons, List.length_append] at hlen
    exact ⟨hmem, List.eq_nil_of_length_eq_zero (by omega)⟩
  · rintro ⟨hmem, hnil⟩
    obtain ⟨s', hret, h'⟩ := charPlus_spec hg h hi hbs hc hfits hmem
    rw [hnil] at h'
    exact Yields.of_represents hret h' (F.add_entry_self _)

/-- **Single-character concatenation** gives the right string exactly when the byte behind the character
    in memory is a NUL; so none of the operators is right whatever the memory there holds. -/
theorem char_concatenation (hfits : bs.length + 2 < 2 ^ 64) :
    (∀ after : List UInt8, bs.length + after.length + 2 < 2 ^ 64 →
      (Leaves (appendChar refuses i c after) s F i (bs ++ [c]) ↔ after.head? = some 0) ∧
      (Constructs (plusChar refuses i c after) s F (bs ++ [c]) ↔ after.head? = some 0) ∧
      (Constructs (charPlus refuses c after i) s F (c :: bs) ↔ after.head? = some 0)) ∧
    (¬ ∀ after, Leaves (appendChar refuses i c after) s F i (bs ++ [c])) ∧
    (¬ ∀ after, Constructs (plusChar refuses i c after) s F (bs ++ [c])) ∧
    (¬ ∀ after, Constructs (charPlus refuses c after i) s F (c :: bs)) := by
  have hiff : ∀ after : List UInt8, bs.length + after.length + 2 < 2 ^ 64 → _ := fun after hafter =>
    And.intro (appendChar_iff hg h hi hbs hc hfits after) (And.intro
      (plusChar_iff hg h hi hbs hc hfits after) (charPlus_iff hg h hi hbs hc hafter))
  -- the memory behind the character may end there
  have hend : ([] : List UInt8).head? ≠ some 0 := fun he => by cases he
  obtain ⟨happend, hplus, hcharPlus⟩ := hiff [] hfits
  exact ⟨hiff, fun hall => hend (happend.1 (hall [])), fun hall => hend (hplus.1 (hall [])),
    fun hall => hend (hcharPlus.1 (hall []))⟩

end Operators

/-- `string s("ab")` and the character 'c'. -/
theorem char_concatenation_ab : ∃ s F, Represents model s F ∧ F.entry 0 = some [97, 98] ∧
    Leaves (appendChar (fun _ => false) 0 99 [0, 1]) s F 0 [97, 98, 99] ∧
    ¬ ∀ after, Leaves (appendChar (fun _ => false) 0 99 after) s F 0 [97, 98, 99] := by
  obtain ⟨s, F, h, hi⟩ := exists_string [97, 98] (by decide) (by decide)
  obtain ⟨hiff, hnever, _⟩ := char_concatenation (c := 99) (fun _ => rfl) h hi (by decide) (by decide)
    (by decide)
  exact ⟨s, _, h, hi, ((hiff [0, 1] (by decide)).1).2 rfl, hnever⟩

/-- `string s("ab"); char c = 'c';` with the bytes "d" behind `c`: `s += c` and `s + c` write past the
    new buffer, and `c + s` is "cdab". -/
theorem char_concatenation_reads_on : ∃ s F, Represents model s F ∧ F.entry 0 = some [97, 98] ∧
    Fails (appendChar (fun _ => false) 0 99 [100, 0]) s .outOfBounds ∧
    Fails (plusChar (fun _ => false) 0 99 [100, 0]) s .outOfBounds ∧
    Constructs (charPlus (fun _ => false) 99 [100, 0] 0) s F [99, 100, 97, 98] := by
  obtain ⟨s, F, h, hi⟩ := exists_string [97, 98] (by decide) (by decide)
  obtain ⟨s₁, hcopy, h₁⟩ := copyConstruct_spec (fun _ => rfl) h hi (by decide)
  have hmem : 0 ∈ ([100, 0] : List UInt8) := by decide
  have hafter : ([100, 0] : List UInt8).head? ≠ some 0 := by decide
  obtain ⟨s₂, hplus, h₂⟩ := charPlus_spec (c := 99) (fun _ => rfl) h hi (by decide) (by decide)
    (by decide) hmem
  have hfail := appendChar_fails (c := 99) (fun _ => rfl) h hi (by decide) (by decide) (by decide) hafter
  have hfail₁ := appendChar_fails (c := 99) (fun _ => rfl) h₁ (Table.add_entry_self _ _) (by decide)
    (by decide) (by decide) hafter
  exact ⟨s, _, h, hi, hfail, Fails.bind_right hcopy (Fails.bind_left hfail₁),
    Yields.of_represents hplus h₂ (Table.add_entry_self _ _)⟩

end LinuxSamples.FbcString
