import LinuxSamples.Stl.StringSpec

set_option autoImplicit false

/-! # Runs over a family of `fbcstd::string` objects

`Op` is one statement of a program that uses strings, and `Op.run` what the code does. `result` is
the same statement on a family of byte lists, and `Op.Sound` the condition under which the code does
it: where the code copies with `strcpy` and `strcat`, what it copies has no NUL. Under this condition
every string keeps its terminator (`run_result`). -/

namespace LinuxSamples.FbcString

open LinuxSamples.Program LinuxSamples.Memory

/-! ## Statements -/

/-- A `const char*` argument: a C string outside all strings, or `s.c_str() + k` for string `j`. -/
inductive Arg
  | literal (bytes : List UInt8)
  | suffix (j k : Nat)

/-- The pointer that is passed. -/
def Arg.ptr : Arg → StrProg CPtr
  | .literal bytes => pure (.external (bytes ++ [0]))
  | .suffix j k => do
      let v ← object j
      return .heap v.buffer_ k

/-- A statement; strings are numbered in the order of their construction. -/
inductive Op
  | default
  | copy (j : Nat)
  | substring (j pos len : Nat)
  | ofCString (p : Arg)
  | ofCStringN (p : Arg) (n : Nat)
  | ofChar (n : Nat) (c : UInt8)
  | destroy (i : Nat)
  | assign (i j : Nat)
  | assignCString (i : Nat) (p : Arg)
  | assignChar (i : Nat) (c : UInt8)
  | append (i j : Nat)
  | appendCString (i : Nat) (p : Arg)
  | clear (i : Nat)
  | set (i k : Nat) (c : UInt8)
  | plus (i j : Nat)
  | plusCString (i : Nat) (p : Arg)
  | cstringPlus (p : Arg) (j : Nat)

/-- What the code does. -/
def Op.run (refuses : Nat → Bool) : Op → StrProg Unit
  | .default => do
      let _ ← FbcString.default refuses
  | .copy j => do
      -- the string to be copied exists before the copy does
      let _ ← object j
      let _ ← copyConstruct refuses j
  | .substring j pos len => do
      let _ ← object j
      let _ ← FbcString.substring refuses j pos len
  | .ofCString p => do
      let q ← p.ptr
      let _ ← FbcString.ofCString refuses q
  | .ofCStringN p n => do
      let q ← p.ptr
      let _ ← FbcString.ofCStringN refuses q n
  | .ofChar n c => do
      let _ ← FbcString.ofChar refuses n c
  | .destroy i => FbcString.destroy i
  | .assign i j => FbcString.assign refuses i j
  | .assignCString i p => do
      let q ← p.ptr
      FbcString.assignCString refuses i q
  | .assignChar i c => FbcString.assignChar refuses i c
  | .append i j => FbcString.append refuses i j
  | .appendCString i p => do
      let q ← p.ptr
      FbcString.appendCString refuses i q
  | .clear i => FbcString.clear refuses i
  | .set i k c => FbcString.set i k c
  | .plus i j => do
      let _ ← object i
      let _ ← object j
      let _ ← FbcString.plus refuses i j
  | .plusCString i p => do
      let _ ← object i
      let q ← p.ptr
      let _ ← FbcString.plusCString refuses i q
  | .cstringPlus p j => do
      let q ← p.ptr
      let _ ← object j
      let _ ← FbcString.cstringPlus refuses q j

/-! ## The abstract machine -/

/-- The bytes of a string, by its number. -/
abbrev Bytes : Type := Nat → Option (List UInt8)

/-- The C string an argument leads to. -/
def Arg.text (look : Bytes) : Arg → Option (List UInt8)
  | .literal bytes => some (cstring bytes)
  | .suffix j k => do
      let bs ← look j
      if k ≤ bs.length then some (cstring (bs.drop k)) else none

/-- The bytes of string `i`, none when there is no string. -/
def bytesOf (F : Table (List UInt8)) (i : Nat) : List UInt8 := (F.entry i).getD []

/-- The text of an argument, none when it does not lead into a string. -/
def Arg.textOf (F : Table (List UInt8)) (p : Arg) : List UInt8 := (p.text F.entry).getD []

/-- **One statement on a family of byte lists.** -/
def result (F : Table (List UInt8)) : Op → Table (List UInt8)
  | .default => F.add []
  | .copy j => F.add (bytesOf F j)
  | .substring j pos len => F.add (((bytesOf F j).drop pos).take len)
  | .ofCString p => F.add (p.textOf F)
  | .ofCStringN p n => F.add ((p.textOf F).take n)
  | .ofChar n c => F.add (List.replicate n c)
  | .destroy i => F.erase i
  | .assign i j => F.set i (bytesOf F j)
  | .assignCString i p => F.set i (p.textOf F)
  | .assignChar i c => F.set i [c]
  | .append i j => F.set i (bytesOf F i ++ bytesOf F j)
  | .appendCString i p => F.set i (bytesOf F i ++ p.textOf F)
  | .clear i => F.set i []
  | .set i k c => F.set i ((bytesOf F i).set k c)
  | .plus i j => F.add (bytesOf F i ++ bytesOf F j)
  | .plusCString i p => F.add (bytesOf F i ++ p.textOf F)
  | .cstringPlus p j => F.add (p.textOf F ++ bytesOf F j)

/-- `n` bytes and a terminator can be counted in a `size_t`. -/
def Fits (n : Nat) : Prop := n + 1 < 2 ^ 64

instance Fits.decidable (n : Nat) : Decidable (Fits n) := inferInstanceAs (Decidable (_ < _))

/-- The argument does not lead into string `i`. -/
def Arg.Outside (i : Nat) : Arg → Prop
  | .literal _ => True
  | .suffix j _ => j ≠ i

/-- The strings and pointers a statement names exist, assignments are from other strings, positions
    are inside, sums of lengths do not wrap. -/
def Op.InScope (look : Bytes) : Op → Prop
  | .default => True
  | .copy j => ∃ bs, look j = some bs
  | .substring j pos len => (∃ bs, look j = some bs) ∧ pos + len < 2 ^ 64
  | .ofCString p => ∃ cs, p.text look = some cs ∧ Fits cs.length
  | .ofCStringN p n => (∃ cs, p.text look = some cs ∧ Fits cs.length) ∧ Fits n
  | .ofChar n _ => Fits n
  | .destroy i => ∃ bs, look i = some bs
  | .assign i j => i ≠ j ∧ (∃ bs, look i = some bs) ∧ ∃ cs, look j = some cs
  | .assignCString i p => p.Outside i ∧ (∃ bs, look i = some bs) ∧
      ∃ cs, p.text look = some cs ∧ Fits cs.length
  | .assignChar i _ => ∃ bs, look i = some bs
  | .append i j => ∃ bs cs, look i = some bs ∧ look j = some cs ∧ Fits (bs.length + cs.length)
  | .appendCString i p => ∃ bs cs, look i = some bs ∧ p.text look = some cs ∧
      Fits (bs.length + cs.length)
  | .clear i => ∃ bs, look i = some bs
  | .set i k _ => ∃ bs, look i = some bs ∧ k < bs.length
  | .plus i j => ∃ bs cs, look i = some bs ∧ look j = some cs ∧ Fits (bs.length + cs.length)
  | .plusCString i p => ∃ bs cs, look i = some bs ∧ p.text look = some cs ∧
      Fits (bs.length + cs.length)
  | .cstringPlus p j => ∃ bs cs, p.text look = some bs ∧ look j = some cs ∧
      Fits (bs.length + cs.length)

/-- **What keeps the terminators.** No string is made by `string(n, c)`, or by `string(s, n)` from a
    longer `s`; and what is copied by `strcpy` or `strcat` from a string holds no NUL. -/
def Op.Sound (look : Bytes) : Op → Prop
  | .ofChar _ _ => False
  | .ofCStringN p n => ∀ cs, p.text look = some cs → cs.length ≤ n
  | .copy j | .assign _ j | .cstringPlus _ j => ∀ bs, look j = some bs → 0 ∉ bs
  | .append i j | .plus i j =>
      (∀ bs, look i = some bs → 0 ∉ bs) ∧ ∀ cs, look j = some cs → 0 ∉ cs
  | .appendCString i _ | .plusCString i _ => ∀ bs, look i = some bs → 0 ∉ bs
  | _ => True

/-! ## Refused allocations -/

section Throws

variable (refuses : Nat → Bool)

theorem newChars_orThrows (n : Nat) :
    OrThrows (newChars refuses n) (newChars (fun _ => false) n) :=
  newArray_orThrows (unwritten refuses) n

theorem becomeEmpty_orThrows (this : Nat) :
    OrThrows (becomeEmpty refuses this) (becomeEmpty (fun _ => false) this) :=
  (OrThrows.refl _).bind fun _ => (newChars_orThrows refuses 1).bind fun _ => OrThrows.refl _

theorem allocate_orThrows (this n : Nat) :
    OrThrows (allocate refuses this n) (allocate (fun _ => false) this n) :=
  (OrThrows.refl _).bind fun _ => (newChars_orThrows refuses _).bind fun _ => OrThrows.refl _

theorem copyConstruct_orThrows (str : Nat) :
    OrThrows (copyConstruct refuses str) (copyConstruct (fun _ => false) str) :=
  (OrThrows.refl _).bind fun this => (OrThrows.refl _).bind fun _ =>
    (allocate_orThrows refuses this _).bind fun _ => OrThrows.refl _

theorem substring_orThrows (str pos len : Nat) :
    OrThrows (substring refuses str pos len) (substring (fun _ => false) str pos len) :=
  (OrThrows.refl _).bind fun this => (OrThrows.refl _).bind fun _ =>
    OrThrows.ite ((becomeEmpty_orThrows refuses this).bind fun _ => OrThrows.refl _)
      ((allocate_orThrows refuses this _).bind fun _ => OrThrows.refl _)

theorem ofCString_orThrows (s : CPtr) :
    OrThrows (ofCString refuses s) (ofCString (fun _ => false) s) :=
  (OrThrows.refl _).bind fun this => (OrThrows.refl _).bind fun n =>
    (allocate_orThrows refuses this n).bind fun _ => OrThrows.refl _

theorem concatenate_orThrows (this : Nat) (argument : StrProg CPtr) :
    OrThrows (concatenate refuses this argument) (concatenate (fun _ => false) this argument) :=
  (OrThrows.refl _).bind fun _ => (newChars_orThrows refuses _).bind fun _ => OrThrows.refl _

theorem append_orThrows (this str : Nat) :
    OrThrows (append refuses this str) (append (fun _ => false) this str) :=
  (OrThrows.refl _).bind fun _ => (OrThrows.refl _).bind fun _ =>
    concatenate_orThrows refuses this _

theorem appendCString_orThrows (this : Nat) (s : CPtr) :
    OrThrows (appendCString refuses this s) (appendCString (fun _ => false) this s) :=
  (OrThrows.refl _).bind fun _ => (OrThrows.refl _).bind fun _ =>
    concatenate_orThrows refuses this _

/-- On a platform that may refuse memory, a statement does what it does with enough memory, or it
    throws `std::bad_alloc`. -/
theorem Op.run_orThrows (op : Op) : OrThrows (op.run refuses) (op.run fun _ => false) := by
  cases op with
  | destroy i | set i k c => exact OrThrows.refl _
  | default =>
      exact ((OrThrows.refl _).bind fun this => (becomeEmpty_orThrows refuses this).bind
        fun _ => OrThrows.refl _).bind fun _ => OrThrows.refl _
  | copy j =>
      exact (OrThrows.refl _).bind fun _ => (copyConstruct_orThrows refuses j).bind
        fun _ => OrThrows.refl _
  | substring j pos len =>
      exact (OrThrows.refl _).bind fun _ => (substring_orThrows refuses j pos len).bind
        fun _ => OrThrows.refl _
  | ofCString p =>
      exact (OrThrows.refl _).bind fun q => (ofCString_orThrows refuses q).bind
        fun _ => OrThrows.refl _
  | ofCStringN p n =>
      refine (OrThrows.refl _).bind fun q => OrThrows.bind ?_ fun _ => OrThrows.refl _
      exact (OrThrows.refl _).bind fun this => (OrThrows.refl _).bind fun m =>
        OrThrows.ite ((allocate_orThrows refuses this m).bind fun _ => OrThrows.refl _)
          ((allocate_orThrows refuses this n).bind fun _ => OrThrows.refl _)
  | ofChar n c =>
      refine OrThrows.bind ?_ fun _ => OrThrows.refl _
      exact (OrThrows.refl _).bind fun this =>
        (allocate_orThrows refuses this n).bind fun _ => OrThrows.refl _
  | assign i j =>
      exact (OrThrows.refl _).bind fun _ => (OrThrows.refl _).bind fun _ =>
        (OrThrows.refl _).bind fun _ => (allocate_orThrows refuses i _).bind
          fun _ => OrThrows.refl _
  | assignCString i p =>
      exact (OrThrows.refl _).bind fun q => (OrThrows.refl _).bind fun _ =>
        (OrThrows.refl _).bind fun _ => (OrThrows.refl _).bind fun n =>
          (allocate_orThrows refuses i n).bind fun _ => OrThrows.refl _
  | assignChar i c =>
      exact (OrThrows.refl _).bind fun _ => (OrThrows.refl _).bind fun _ =>
        (allocate_orThrows refuses i 1).bind fun _ => OrThrows.refl _
  | append i j => exact append_orThrows refuses i j
  | appendCString i p => exact (OrThrows.refl _).bind fun q => appendCString_orThrows refuses i q
  | clear i =>
      exact (OrThrows.refl _).bind fun _ => (OrThrows.refl _).bind fun _ =>
        becomeEmpty_orThrows refuses i
  | plus i j =>
      refine (OrThrows.refl _).bind fun _ => (OrThrows.refl _).bind fun _ =>
        OrThrows.bind ?_ fun _ => OrThrows.refl _
      exact (copyConstruct_orThrows refuses i).bind fun str =>
        (append_orThrows refuses str j).bind fun _ => OrThrows.refl _
  | plusCString i p =>
      refine (OrThrows.refl _).bind fun _ => (OrThrows.refl _).bind fun q =>
        OrThrows.bind ?_ fun _ => OrThrows.refl _
      exact (copyConstruct_orThrows refuses i).bind fun str =>
        (appendCString_orThrows refuses str q).bind fun _ => OrThrows.refl _
  | cstringPlus p j =>
      refine (OrThrows.refl _).bind fun q => (OrThrows.refl _).bind fun _ =>
        OrThrows.bind ?_ fun _ => OrThrows.refl _
      exact (ofCString_orThrows refuses q).bind fun str =>
        (append_orThrows refuses str j).bind fun _ => OrThrows.refl _

end Throws

/-! ## One statement of the code -/

section Simulation

variable {refuses : Nat → Bool} {s : Store Fields (Option UInt8)} {F : Table (List UInt8)}
  {i : Nat} {bs cs : List UInt8}

theorem bytesOf_eq (hi : F.entry i = some bs) : bytesOf F i = bs := by
  rw [bytesOf, hi, Option.getD_some]

theorem Arg.textOf_eq {p : Arg} (hp : p.text F.entry = some cs) : p.textOf F = cs := by
  rw [Arg.textOf, hp, Option.getD_some]

/-- The pointer passed for an argument reads as the argument's text, from a buffer of the string the
    argument leads into. -/
theorem Arg.ptr_returns (h : Represents model s F) {p : Arg} (hp : p.text F.entry = some cs) :
    ∃ q, Returns p.ptr s q s ∧ Returns (readString q) s cs s ∧
      ∀ i c, p.Outside i → q.array = some c → ¬ Owns model s i c := by
  cases p with
  | literal bytes =>
      cases hp
      refine ⟨_, Returns.pure _ s, readString_external bytes, fun i c _ hc => ?_⟩
      cases hc
  | suffix j k =>
      rw [Arg.text, Option.bind_eq_bind, Option.bind_eq_some_iff] at hp
      obtain ⟨bs, hj, htext⟩ := hp
      rw [Option.ite_none_right_eq_some] at htext
      obtain ⟨hk, htext⟩ := htext
      cases htext
      obtain ⟨o, ho, _, hread⟩ := read_spec h hj hk
      refine ⟨_, Returns.bind (object_returns ho) (Returns.pure _ s), hread, fun i c hout hc hown => ?_⟩
      exact hout (h.separate j i c ⟨o, ho, hc⟩ hown)

theorem Arg.text_textual {look : Bytes} {p : Arg} (hp : p.text look = some cs) : 0 ∉ cs := by
  cases p with
  | literal bytes =>
      cases hp
      exact zero_notMem_cstring bytes
  | suffix j k =>
      rw [Arg.text, Option.bind_eq_bind, Option.bind_eq_some_iff] at hp
      obtain ⟨bs, _, htext⟩ := hp
      rw [Option.ite_none_right_eq_some] at htext
      obtain ⟨_, htext⟩ := htext
      cases htext
      exact zero_notMem_cstring _

/-- **The code does what the machine does**, while nothing it copies as a C string has a NUL. -/
theorem run_result (hg : Generous refuses) (h : Represents model s F) (op : Op)
    (hscope : op.InScope F.entry) (hsound : op.Sound F.entry) :
    ∃ s', Returns (op.run refuses) s () s' ∧ Represents model s' (result F op) := by
  cases op with
  | default =>
      obtain ⟨s', hret, h'⟩ := default_spec hg h
      exact ⟨s', Returns.bind hret (Returns.pure () s'), h'⟩
  | copy j =>
      obtain ⟨bs, hj⟩ := hscope
      obtain ⟨o, ho, _⟩ := h.lookup hj
      obtain ⟨s', hret, h'⟩ := copyConstruct_spec hg h hj (hsound bs hj)
      rw [result, bytesOf_eq hj]
      exact ⟨s', Returns.bind (object_returns ho) (Returns.bind hret (Returns.pure () s')), h'⟩
  | substring j pos len =>
      obtain ⟨⟨bs, hj⟩, hsum⟩ := hscope
      obtain ⟨o, ho, _⟩ := h.lookup hj
      obtain ⟨s', hret, h'⟩ := substring_spec hg h hj (Or.inr hsum)
      rw [result, bytesOf_eq hj]
      exact ⟨s', Returns.bind (object_returns ho) (Returns.bind hret (Returns.pure () s')), h'⟩
  | ofCString p =>
      obtain ⟨cs, hp, hfits⟩ := hscope
      obtain ⟨q, hptr, hread, _⟩ := Arg.ptr_returns h hp
      obtain ⟨s', hret, h'⟩ := ofCString_spec hg h hread hfits
      rw [result, Arg.textOf_eq hp]
      exact ⟨s', Returns.bind hptr (Returns.bind hret (Returns.pure () s')), h'⟩
  | ofCStringN p n =>
      obtain ⟨⟨cs, hp, hfits⟩, _⟩ := hscope
      obtain ⟨q, hptr, hread, _⟩ := Arg.ptr_returns h hp
      obtain ⟨s', hret, h'⟩ := ofCStringN_spec hg h hread hfits (hsound cs hp)
      rw [result, Arg.textOf_eq hp, List.take_of_length_le (hsound cs hp)]
      exact ⟨s', Returns.bind hptr (Returns.bind hret (Returns.pure () s')), h'⟩
  | ofChar n c => exact hsound.elim
  | destroy i =>
      obtain ⟨bs, hi⟩ := hscope
      exact destroy_spec h hi
  | assign i j =>
      obtain ⟨hij, ⟨bs, hi⟩, cs, hj⟩ := hscope
      rw [result, bytesOf_eq hj]
      exact assign_spec hg h hi hj hij (hsound cs hj)
  | assignCString i p =>
      obtain ⟨hout, ⟨bs, hi⟩, cs, hp, hfits⟩ := hscope
      obtain ⟨q, hptr, hread, hown⟩ := Arg.ptr_returns h hp
      obtain ⟨s', hret, h'⟩ := assignCString_spec hg h hi hread hfits fun b hb => hown i b hout hb
      rw [result, Arg.textOf_eq hp]
      exact ⟨s', Returns.bind hptr hret, h'⟩
  | assignChar i c =>
      obtain ⟨bs, hi⟩ := hscope
      exact assignChar_spec hg h hi c
  | append i j =>
      obtain ⟨bs, cs, hi, hj, hfits⟩ := hscope
      rw [result, bytesOf_eq hi, bytesOf_eq hj]
      exact append_spec hg h hi hj (hsound.1 bs hi) (hsound.2 cs hj) hfits
  | appendCString i p =>
      obtain ⟨bs, cs, hi, hp, hfits⟩ := hscope
      obtain ⟨q, hptr, hread, _⟩ := Arg.ptr_returns h hp
      obtain ⟨s', hret, h'⟩ := appendCString_spec hg h hi hread (hsound bs hi) hfits
      rw [result, bytesOf_eq hi, Arg.textOf_eq hp]
      exact ⟨s', Returns.bind hptr hret, h'⟩
  | clear i =>
      obtain ⟨bs, hi⟩ := hscope
      exact clear_spec hg h hi
  | set i k c =>
      obtain ⟨bs, hi, hk⟩ := hscope
      rw [result, bytesOf_eq hi]
      exact set_spec h hi hk c
  | plus i j =>
      obtain ⟨bs, cs, hi, hj, hfits⟩ := hscope
      obtain ⟨o, ho, _⟩ := h.lookup hi
      obtain ⟨w, hw, _⟩ := h.lookup hj
      obtain ⟨s', hret, h'⟩ := plus_spec hg h hi hj (hsound.1 bs hi) (hsound.2 cs hj) hfits
      rw [result, bytesOf_eq hi, bytesOf_eq hj]
      exact ⟨s', Returns.bind (object_returns ho) (Returns.bind (object_returns hw)
        (Returns.bind hret (Returns.pure () s'))), h'⟩
  | plusCString i p =>
      obtain ⟨bs, cs, hi, hp, hfits⟩ := hscope
      obtain ⟨o, ho, _⟩ := h.lookup hi
      obtain ⟨q, hptr, hread, _⟩ := Arg.ptr_returns h hp
      obtain ⟨s', hret, h'⟩ := plusCString_spec hg h hi hread (hsound bs hi) hfits
      rw [result, bytesOf_eq hi, Arg.textOf_eq hp]
      exact ⟨s', Returns.bind (object_returns ho) (Returns.bind hptr
        (Returns.bind hret (Returns.pure () s'))), h'⟩
  | cstringPlus p j =>
      obtain ⟨bs, cs, hp, hj, hfits⟩ := hscope
      obtain ⟨w, hw, _⟩ := h.lookup hj
      obtain ⟨q, hptr, hread, _⟩ := Arg.ptr_returns h hp
      obtain ⟨s', hret, h'⟩ :=
        cstringPlus_spec hg h hread hj (Arg.text_textual hp) (hsound cs hj) hfits
      rw [result, Arg.textOf_eq hp, bytesOf_eq hj]
      exact ⟨s', Returns.bind hptr (Returns.bind (object_returns hw)
        (Returns.bind hret (Returns.pure () s'))), h'⟩

end Simulation

end LinuxSamples.FbcString
