import LinuxSamples.Stl.StringRuns

set_option autoImplicit false

/-! # Runs of `fbcstd::string`: texts and terminators

Over texts, strings without a NUL, the class is a list of bytes: whole runs keep every buffer equal
to its list and one NUL, and the observers return what the list gives. With arbitrary bytes the
terminator is kept exactly as long as nothing with a NUL is copied as a C string. -/

namespace LinuxSamples.FbcString

open LinuxSamples.Program LinuxSamples.Memory

variable {refuses : Nat → Bool} {s : Store Fields (Option UInt8)} {F : Table (List UInt8)}
  {i j : Nat} {o : Fields} {bs cs : List UInt8}

/-! ## Observers -/

theorem size_spec (h : Represents model s F) (hi : F.entry i = some bs) :
    Returns (size i) s bs.length s := by
  obtain ⟨o, ho, hold⟩ := h.lookup hi
  rw [← hold.size]
  exact Returns.bind (object_returns ho) (Returns.pure _ s)

theorem empty_spec (h : Represents model s F) (hi : F.entry i = some bs) :
    Returns (empty i) s bs.isEmpty s := by
  obtain ⟨o, ho, hold⟩ := h.lookup hi
  have heq : bs.isEmpty = decide (o.size_ = 0) := by
    rw [hold.size]
    cases bs <;> rfl
  rw [heq]
  exact Returns.bind (object_returns ho) (Returns.pure _ s)

/-- Reading the buffer from its beginning stops at the first NUL, at the latest at the terminator. -/
theorem c_str_spec (h : Represents model s F) (hi : F.entry i = some bs) : ∃ p,
    Returns (c_str i) s p s ∧ Returns (readString p) s (cstring bs) s := by
  obtain ⟨o, ho, _, hread⟩ := read_spec h hi (Nat.zero_le _)
  rw [List.drop_zero] at hread
  exact ⟨_, Returns.bind (object_returns ho) (Returns.pure _ s), hread⟩

/-- `compare` orders the texts up to their first NULs. -/
theorem compare_spec (h : Represents model s F) (hi : F.entry i = some bs)
    (hj : F.entry j = some cs) : ∃ r, Returns (compare i j) s r s ∧
      (r < 0 ↔ cstring bs < cstring cs) ∧ (r = 0 ↔ cstring bs = cstring cs) := by
  obtain ⟨o, ho, _, hread⟩ := read_spec h hi (Nat.zero_le _)
  obtain ⟨w, hw, _, hread'⟩ := read_spec h hj (Nat.zero_le _)
  rw [List.drop_zero] at hread hread'
  obtain ⟨r, hr, hsign⟩ := strcmp_returns hread hread'
  exact ⟨r, Returns.bind (object_returns ho) (Returns.bind (object_returns hw) hr), hsign⟩

/-! ## Texts -/

/-- The statements about texts: strings are made from C strings and from other strings, and the only
    single character stored is not the NUL. -/
def Op.OverTexts : Op → Prop
  | .substring _ _ _ | .ofCStringN _ _ | .ofChar _ _ | .set _ _ _ => False
  | .assignChar _ c => c ≠ 0
  | _ => True

/-- No string of the family holds a NUL. -/
def Textual (F : Table (List UInt8)) : Prop := ∀ i bs, F.entry i = some bs → 0 ∉ bs

theorem Textual.empty : Textual Table.empty := by
  intro i bs hi
  cases hi

theorem Textual.add (h : Textual F) (hbs : 0 ∉ bs) : Textual (F.add bs) := by
  intro j cs hj
  by_cases hjn : j = F.next
  · subst hjn
    rw [F.add_entry_self] at hj
    cases hj
    exact hbs
  · rw [Table.add_entry, Function.update_of_ne hjn] at hj
    exact h j cs hj

theorem Textual.set (h : Textual F) (hbs : 0 ∉ bs) : Textual (F.set i bs) := by
  intro j cs hj
  by_cases hji : j = i
  · subst hji
    cases hF : F.entry j with
    | none => simp [Table.set, hF] at hj
    | some old =>
        rw [Table.set_entry hF, Function.update_self] at hj
        cases hj
        exact hbs
  · have hsame : (F.set i bs).entry j = F.entry j := Function.update_of_ne hji _ _
    rw [hsame] at hj
    exact h j cs hj

theorem Textual.erase (h : Textual F) : Textual (F.erase i) := by
  intro j cs hj
  by_cases hji : j = i
  · subst hji
    rw [Table.erase_entry, Function.update_self] at hj
    cases hj
  · rw [Table.erase_entry, Function.update_of_ne hji] at hj
    exact h j cs hj

theorem Textual.bytesOf (h : Textual F) (i : Nat) : 0 ∉ bytesOf F i := by
  rw [FbcString.bytesOf]
  cases hi : F.entry i with
  | none => exact List.not_mem_nil
  | some bs => exact h i bs hi

theorem Arg.textOf_textual (p : Arg) : 0 ∉ p.textOf F := by
  rw [Arg.textOf]
  cases hp : p.text F.entry with
  | none => exact List.not_mem_nil
  | some cs => exact Arg.text_textual hp

theorem append_textual (hbs : 0 ∉ bs) (hcs : 0 ∉ cs) : 0 ∉ bs ++ cs := by
  rw [List.mem_append]
  rintro (h | h)
  · exact hbs h
  · exact hcs h

/-- Statements about texts make texts. -/
theorem Textual.result (h : Textual F) {op : Op} (hop : op.OverTexts) : Textual (result F op) := by
  cases op with
  | default => exact h.add List.not_mem_nil
  | copy j => exact h.add (h.bytesOf j)
  | ofCString p => exact h.add p.textOf_textual
  | destroy i => exact h.erase
  | assign i j => exact h.set (h.bytesOf j)
  | assignCString i p => exact h.set p.textOf_textual
  | assignChar i c => exact h.set (fun hc => hop (List.mem_singleton.1 hc).symm)
  | append i j => exact h.set (append_textual (h.bytesOf i) (h.bytesOf j))
  | appendCString i p => exact h.set (append_textual (h.bytesOf i) p.textOf_textual)
  | clear i => exact h.set List.not_mem_nil
  | plus i j => exact h.add (append_textual (h.bytesOf i) (h.bytesOf j))
  | plusCString i p => exact h.add (append_textual (h.bytesOf i) p.textOf_textual)
  | cstringPlus p j => exact h.add (append_textual p.textOf_textual (h.bytesOf j))
  | substring j pos len | ofCStringN p n | ofChar n c | set i k c => exact hop.elim

/-- Statements about texts copy no NUL. -/
theorem Textual.sound (h : Textual F) {op : Op} (hop : op.OverTexts) : op.Sound F.entry := by
  cases op with
  | copy j | assign i j | cstringPlus p j => exact fun bs hj => h j bs hj
  | append i j | plus i j => exact ⟨fun bs hi => h i bs hi, fun cs hj => h j cs hj⟩
  | appendCString i p | plusCString i p => exact fun bs hi => h i bs hi
  | ofCStringN p n | ofChar n c => exact hop.elim
  | default | substring j pos len | ofCString p | destroy i | assignCString i p | assignChar i c
  | clear i | set i k c => exact trivial

/-- String `i` shows the text `bs`: its buffer holds it and one NUL in as many bytes, and every
    observer returns what the list gives. -/
structure Shows (s : Store Fields (Option UInt8)) (F : Table (List UInt8)) (i : Nat)
    (bs : List UInt8) : Prop where
  contents : ∃ o b, s.objects.entry i = some o ∧ o.buffer_ = some b ∧ o.size_ = bs.length ∧
    s.heap.array b = some (bs.map some ++ [some 0])
  size : Returns (size i) s bs.length s
  strlen : Returns (do
    let p ← c_str i
    strlen p) s bs.length s
  empty : Returns (empty i) s bs.isEmpty s
  compare : ∀ j cs, F.entry j = some cs → ∃ r, Returns (compare i j) s r s ∧ (r = 0 ↔ bs = cs)

theorem Represents.shows (h : Represents model s F) (htext : Textual F) (hi : F.entry i = some bs) :
    Shows s F i bs where
  contents := by
    obtain ⟨o, ho, hold⟩ := h.lookup hi
    obtain ⟨b, hb, harr⟩ := hold.buffer
    exact ⟨o, b, ho, hb, hold.size, harr⟩
  size := size_spec h hi
  strlen := by
    obtain ⟨p, hp, hread⟩ := c_str_spec h hi
    rw [cstring_of_textual (htext i bs hi)] at hread
    exact Returns.bind hp (strlen_returns hread)
  empty := empty_spec h hi
  compare j cs hj := by
    obtain ⟨r, hr, _, heq⟩ := compare_spec h hi hj
    rw [cstring_of_textual (htext i bs hi), cstring_of_textual (htext j cs hj)] at heq
    exact ⟨r, hr, heq⟩

/-- **Strings refine lists of bytes.** A run of statements about texts, as long as the lengths can be
    counted, ends with every string showing its list. -/
theorem runs_refine_texts (hg : Generous refuses) (ops : List Op)
    (hops : Along (fun F op => op.InScope F.entry ∧ op.OverTexts) result Table.empty ops) :
    ∃ s, Returns (runAll (Op.run refuses) ops) Store.empty () s ∧
      ∀ i, ((s.objects.entry i).isSome ↔ ((ops.foldl result Table.empty).entry i).isSome) ∧
        ∀ bs, (ops.foldl result Table.empty).entry i = some bs →
          0 ∉ bs ∧ Shows s (ops.foldl result Table.empty) i bs := by
  obtain ⟨s, hret, h, htext⟩ := runAll_along (R := fun s F => Represents model s F ∧ Textual F)
    (fun s F op ⟨h, htext⟩ ⟨hscope, hop⟩ => by
      obtain ⟨s', hret, h'⟩ := run_result hg h op hscope (htext.sound hop)
      exact ⟨s', hret, h', htext.result hop⟩)
    ops Store.empty Table.empty ⟨Represents.empty, Textual.empty⟩ hops
  refine ⟨s, hret, fun i => ⟨?_, fun bs hi => ⟨htext i bs hi, Represents.shows h htext hi⟩⟩⟩
  cases hi : (ops.foldl result Table.empty).entry i with
  | none =>
      rw [h.lookup_none hi]
      exact Iff.rfl
  | some bs =>
      obtain ⟨o, ho, _⟩ := h.lookup hi
      rw [ho]
      exact Iff.rfl

/-- `string s("hi"); s += s; s += s.c_str() + 3; string t = s + "!"; s = t; s.clear();` -/
theorem runs_refine_texts_hi : ∃ s F, Returns (runAll (Op.run fun _ => false)
      [.ofCString (.literal [104, 105]), .append 0 0, .appendCString 0 (.suffix 0 3),
        .plusCString 0 (.literal [33]), .assign 0 1, .clear 0]) Store.empty () s ∧
    Shows s F 0 [] ∧ Shows s F 1 [104, 105, 104, 105, 105, 33] := by
  obtain ⟨s, hret, hs⟩ := runs_refine_texts (fun _ => rfl)
    [.ofCString (.literal [104, 105]), .append 0 0, .appendCString 0 (.suffix 0 3),
      .plusCString 0 (.literal [33]), .assign 0 1, .clear 0]
    ⟨⟨⟨_, rfl, by decide⟩, trivial⟩, ⟨⟨_, _, rfl, rfl, by decide⟩, trivial⟩,
      ⟨⟨_, _, rfl, rfl, by decide⟩, trivial⟩, ⟨⟨_, _, rfl, rfl, by decide⟩, trivial⟩,
      ⟨⟨by decide, ⟨_, rfl⟩, _, rfl⟩, trivial⟩, ⟨⟨_, rfl⟩, trivial⟩, trivial⟩
  exact ⟨s, _, hret, ((hs 0).2 _ rfl).2, ((hs 1).2 _ rfl).2⟩

/-! ## Terminators -/

/-- The first `size_` bytes of string `i`, where they are written. -/
def bytesAt (s : Store Fields (Option UInt8)) : Bytes := fun i => do
  let o ← s.objects.entry i
  let b ← o.buffer_
  let slots ← s.heap.array b
  (slots.take o.size_).mapM id

/-- The buffer has `size_ + 1` bytes, all of them written, the last a NUL. -/
def Terminated (h : Heap (Option UInt8)) (o : Fields) : Prop :=
  ∃ b slots, o.buffer_ = some b ∧ h.array b = some slots ∧ slots.length = o.size_ + 1 ∧
    none ∉ slots ∧ slots[o.size_]? = some (some 0)

theorem Holds.terminated {h : Heap (Option UInt8)} (hold : Holds h o bs) : Terminated h o := by
  obtain ⟨b, hb, harr⟩ := hold.buffer
  refine ⟨b, _, hb, harr, ?_, ?_, ?_⟩
  · rw [terminated_length, hold.size]
  · simp [Memory.terminated]
  · rw [hold.size, Memory.terminated, List.getElem?_append_right (by simp)]
    simp

theorem mapM_id_some (bs : List UInt8) : (bs.map some).mapM id = some bs := by
  induction bs with
  | nil => rfl
  | cons b bs ih =>
      rw [List.map_cons, List.mapM_cons, ih]
      rfl

theorem bytesAt_eq (h : Represents model s F) : bytesAt s = F.entry := by
  funext i
  cases hi : F.entry i with
  | none => rw [bytesAt, h.lookup_none hi]; rfl
  | some bs =>
      obtain ⟨o, ho, hsize, _, b, hb, harr⟩ := h.lookup hi
      have htake : (terminated bs).take o.size_ = bs.map some := by
        rw [hsize, terminated, List.take_left' (by simp)]
      show (s.objects.entry i).bind _ = _
      rw [ho, Option.bind_some]
      show o.buffer_.bind _ = _
      rw [hb, Option.bind_some]
      show (s.heap.array b).bind _ = _
      rw [harr, Option.bind_some, htake, mapM_id_some]

/-- Later operations on strings `i` and `j` read only bytes of their buffers that were written. -/
structure Readable (s : Store Fields (Option UInt8)) (i j : Nat) : Prop where
  c_str : ∃ p bs, Returns (c_str i) s p s ∧ Returns (readString p) s bs s
  compare : ∃ r, Returns (compare i j) s r s
  copy : ∃ k s', Returns (copyConstruct (fun _ => false) i) s k s'
  append : ∀ o w, s.objects.entry i = some o → s.objects.entry j = some w →
    Fits (o.size_ + w.size_) → ∃ s', Returns (append (fun _ => false) i j) s () s'

theorem Represents.readable (h : Represents model s F) (hi : F.entry i = some bs)
    (hj : F.entry j = some cs) : Readable s i j where
  c_str := by
    obtain ⟨p, hp, hread⟩ := c_str_spec h hi
    exact ⟨p, _, hp, hread⟩
  compare := by
    obtain ⟨r, hr, _⟩ := compare_spec h hi hj
    exact ⟨r, hr⟩
  copy := ⟨_, _, copyConstruct_returns (fun _ => rfl) h hi⟩
  append o w ho hw hfits := by
    rw [(h.holds_at hi ho).size, (h.holds_at hj hw).size] at hfits
    obtain ⟨b, _, hret⟩ := append_returns (fun _ => rfl) h hi hj hfits
    exact ⟨_, hret⟩

/-- A statement that is in scope and copies no NUL as a C string. -/
def Op.Allowed (s : Store Fields (Option UInt8)) (op : Op) : Prop :=
  op.InScope (bytesAt s) ∧ op.Sound (bytesAt s)

/-- **Terminators.** In every state reached by allowed statements every buffer has `size_ + 1` written
    bytes and ends in a NUL, and the operations that follow read nothing else. -/
theorem reachable_terminated (hreach : Reach (Op.run refuses) Op.Allowed Store.empty s) :
    (∀ i o, s.objects.entry i = some o → Terminated s.heap o) ∧
    ∀ i j, (s.objects.entry i).isSome → (s.objects.entry j).isSome → Readable s i j := by
  have hinv : ∃ F, Represents model s F := by
    refine hreach.invariant (I := fun s => ∃ F, Represents model s F)
      ⟨Table.empty, Represents.empty⟩ ?_
    rintro s s' op ⟨F, h⟩ ⟨hscope, hsound⟩ hret
    rw [bytesAt_eq h] at hscope hsound
    obtain ⟨s'', hret', h'⟩ := run_result (fun _ => rfl) h op hscope hsound
    obtain ⟨_, rfl⟩ := ((Op.run_orThrows refuses op).returns hret).unique hret'
    exact ⟨_, h'⟩
  obtain ⟨F, h⟩ := hinv
  refine ⟨fun i o ho => ?_, fun i j hi hj => ?_⟩
  · obtain ⟨bs, _, hold⟩ := h.value ho
    exact hold.terminated
  · obtain ⟨o, ho⟩ := Option.isSome_iff_exists.1 hi
    obtain ⟨w, hw⟩ := Option.isSome_iff_exists.1 hj
    obtain ⟨bs, hbs, _⟩ := h.value ho
    obtain ⟨cs, hcs, _⟩ := h.value hw
    exact Represents.readable h hbs hcs

/-- Every list of allowed statements is run to its end. -/
theorem allowed_returns (hg : Generous refuses) (ops : List Op)
    (hops : Along (fun F op => op.InScope F.entry ∧ op.Sound F.entry) result Table.empty ops) :
    ∃ s, Reach (Op.run refuses) Op.Allowed Store.empty s ∧
      Represents model s (ops.foldl result Table.empty) := by
  obtain ⟨s, _, hreach, h⟩ := runAll_along
    (R := fun s F => Reach (Op.run refuses) Op.Allowed Store.empty s ∧ Represents model s F)
    (fun s F op ⟨hreach, h⟩ ⟨hscope, hsound⟩ => by
      obtain ⟨s', hret, h'⟩ := run_result hg h op hscope hsound
      rw [← bytesAt_eq h] at hscope hsound
      exact ⟨s', hret, hreach.next ⟨hscope, hsound⟩ hret, h'⟩)
    ops Store.empty Table.empty ⟨Reach.start, Represents.empty⟩ hops
  exact ⟨s, hreach, h⟩

/-- `string s("hi"); s[0] = '\0'; s.clear(); string t("ab", 2);` -/
theorem reachable_terminated_hi : ∃ s o, s.objects.entry 1 = some o ∧ Terminated s.heap o ∧
    Reach (Op.run fun _ => false) Op.Allowed Store.empty s := by
  obtain ⟨s, hreach, h⟩ := allowed_returns (fun _ => rfl)
    [.ofCString (.literal [104, 105]), .set 0 0 0, .clear 0, .ofCStringN (.literal [97, 98]) 2]
    ⟨⟨⟨_, rfl, by decide⟩, trivial⟩, ⟨⟨_, rfl, by decide⟩, trivial⟩, ⟨⟨_, rfl⟩, trivial⟩,
      ⟨⟨⟨_, rfl, by decide⟩, by decide⟩, fun cs hcs => by cases hcs; decide⟩, trivial⟩
  obtain ⟨o, ho, _⟩ := h.lookup (i := 1) (v := [97, 98]) rfl
  exact ⟨s, o, ho, (reachable_terminated hreach).1 1 o ho, hreach⟩

/-- A buffer with a byte that was never written. -/
theorem not_terminated {h : Heap (Option UInt8)} {o : Fields} {b : Nat}
    (slots : List (Option UInt8)) (hb : o.buffer_ = some b) (harr : h.array b = some slots)
    (hnone : none ∈ slots) : ¬ Terminated h o := by
  rintro ⟨c, slots', hc, harr', _, hwritten, _⟩
  rw [hb] at hc
  cases hc
  rw [harr] at harr'
  cases harr'
  exact hwritten hnone

/-- `string("ab", 1)`, `string(3, 'x')`, and a copy of a string that holds a NUL: the last byte of the
    buffer is not written. -/
theorem terminator_missing :
    (∃ s o, Returns (runAll (Op.run fun _ => false) [.ofCStringN (.literal [97, 98]) 1]) Store.empty
      () s ∧ s.objects.entry 0 = some o ∧ ¬ Terminated s.heap o) ∧
    (∃ s o, Returns (runAll (Op.run fun _ => false) [.ofChar 3 120]) Store.empty () s ∧
      s.objects.entry 0 = some o ∧ ¬ Terminated s.heap o) ∧
    ∃ s o, Returns (runAll (Op.run fun _ => false)
      [.ofCString (.literal [97, 98]), .set 0 0 0, .copy 0]) Store.empty () s ∧
      s.objects.entry 1 = some o ∧ ¬ Terminated s.heap o := by
  refine ⟨⟨_, ⟨1, some 0⟩, rfl, rfl, ?_⟩, ⟨_, ⟨3, some 0⟩, rfl, rfl, ?_⟩,
    ⟨_, ⟨2, some 1⟩, rfl, rfl, ?_⟩⟩
  · exact not_terminated [some 97, none] rfl rfl (by decide)
  · exact not_terminated [some 120, some 120, some 120, none] rfl rfl (by decide)
  · exact not_terminated [some 0, none, none] rfl rfl (by decide)

end LinuxSamples.FbcString
