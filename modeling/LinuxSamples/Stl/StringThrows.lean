import LinuxSamples.Stl.StringLedger

set_option autoImplicit false

/-! # Allocations that throw inside an `fbcstd::string`

Every mutating member function changes `size_` before it asks for the new buffer, and the assignments
and `clear` have released the old one by then. A throw therefore leaves the string as it was only
where both steps happen to do nothing: an empty string is assigned to an empty one, a single character
to a string of one byte, or nothing is appended. -/

namespace LinuxSamples.FbcString

open LinuxSamples.Program LinuxSamples.Memory

variable {refuses : Nat → Bool} {s s' : Store Fields (Option UInt8)} {F : Table (List UInt8)}
  {i j n : Nat} {o : Fields} {bs cs : List UInt8}

/-! ## The mutating operations -/

/-- A mutating operation and its argument; `append` and `assign` call `operator+=` and `operator=`. -/
inductive Mutation
  | assign (j : Nat)
  | assignCString (p : Arg)
  | assignChar (c : UInt8)
  | append (j : Nat)
  | appendCString (p : Arg)
  | appendChar (c : UInt8) (after : List UInt8)
  | clear

/-- What the code does, on string `i`. -/
def Mutation.run (refuses : Nat → Bool) (i : Nat) : Mutation → StrProg Unit
  | .assign j => FbcString.assign refuses i j
  | .assignCString p => do
      let q ← p.ptr
      FbcString.assignCString refuses i q
  | .assignChar c => FbcString.assignChar refuses i c
  | .append j => FbcString.append refuses i j
  | .appendCString p => do
      let q ← p.ptr
      FbcString.appendCString refuses i q
  | .appendChar c after => FbcString.appendChar refuses i c after
  | .clear => FbcString.clear refuses i

/-! ## Code that does not throw -/

theorem strcpy_noThrow (dst : Option Nat) (src : CPtr) : NoThrow (strcpy dst src : StrProg Unit) :=
  NoThrow.of_within (strcpy_within Fault.badAlloc_alien dst src)

theorem strcat_noThrow (dst : Option Nat) (src : CPtr) : NoThrow (strcat dst src : StrProg Unit) :=
  NoThrow.of_within (strcat_within Fault.badAlloc_alien dst src)

theorem c_str_reads (i : Nat) : Reads Fault.badAlloc (c_str i) :=
  (Reads.object (by decide) i).bind fun _ => Reads.pure _

/-! ## What a throw leaves behind -/

/-- The store in which buffer `p` was released, or not. -/
def dropped (s : Store Fields (Option UInt8)) (p : Option Nat) (released : Bool) :
    Store Fields (Option UInt8) :=
  ⟨s.objects, if released then s.heap.drop p else s.heap⟩

/-- The store in which string `i`, with fields `o` in `s`, got the size `n` and a request for memory
    was refused, after the buffer was released or not. -/
def halted (s : Store Fields (Option UInt8)) (i : Nat) (o : Fields) (n : Nat) (released : Bool) :
    Store Fields (Option UInt8) :=
  ⟨s.objects.set i ⟨n, o.buffer_⟩, (dropped s o.buffer_ released).heap.skip⟩

theorem dropped_entry (ho : s.objects.entry i = some o) (p : Option Nat) (released : Bool) :
    (dropped s p released).objects.entry i = some o := ho

/-- A refused request for characters. -/
theorem newChars_ends (n : Nat) (s : Store Fields (Option UInt8)) :
    Ends .badAlloc (newChars refuses n) s (fun _ _ => True)
      fun s' => s' = ⟨s.objects, s.heap.skip⟩ := by
  have hnew := newArray_ends (unwritten refuses) n s
  exact ⟨fun _ _ _ => trivial, hnew.leaves⟩

/-- `size_` is updated, and the request for a new buffer throws. -/
theorem resized_ends {β : Type} {f : Fields → Fields} {m : Nat} {rest : Nat → StrProg β}
    (ho : s.objects.entry i = some o) (hbuffer : (f o).buffer_ = o.buffer_)
    (hrest : ∀ b, NoThrow (rest b)) :
    Ends .badAlloc (do modifyObject i f; let b ← newChars refuses m; rest b) s (fun _ _ => True)
      fun s' => s' = halted s i o (f o).size_ false := by
  refine Ends.after (modifyObject_returns ho f) ?_
  refine Ends.then_within ((newChars_ends m _).mono ?_) hrest
  rintro _ rfl
  rw [halted, ← hbuffer]
  rfl

theorem allocate_ends (ho : s.objects.entry i = some o) (n : Nat) :
    Ends .badAlloc (allocate refuses i n) s (fun _ _ => True)
      fun s' => s' = halted s i o n false :=
  resized_ends ho rfl fun _ => (NoThrow.modifyObject i _).bind fun _ =>
    NoThrow.of_within (Reads.pure _)

theorem becomeEmpty_ends (ho : s.objects.entry i = some o) :
    Ends .badAlloc (becomeEmpty refuses i) s (fun _ _ => True)
      fun s' => s' = halted s i o 0 false :=
  resized_ends ho rfl fun b => (NoThrow.modifyObject i _).bind fun _ => NoThrow.store (some b) 0 _

/-- `delete [] p`, perhaps only under a condition. -/
theorem onlyIf_delete_drops (c : Prop) [Decidable c] (p : Option Nat)
    (s : Store Fields (Option UInt8)) :
    Avoids Fault.badAlloc (onlyIf c (deleteArray p)) s fun _ s' =>
      s' = dropped s p (decide c) := by
  by_cases hc : c
  · rw [onlyIf_pos hc, decide_eq_true hc]
    exact deleteArray_drops (by decide) p s
  · rw [onlyIf_neg hc, decide_eq_false hc]
    exact Avoids.pure rfl

/-- A C string that can be read after a buffer was released can be read before. -/
theorem readString_undropped {p : Option Nat} {q : CPtr} {released : Bool}
    (hread : Returns (readString q) (dropped s p released) cs (dropped s p released)) :
    Returns (readString q) s cs s := by
  cases released with
  | false => exact hread
  | true =>
      refine readString_congr hread fun c hc => ?_
      obtain ⟨slots, hslots⟩ := readString_live hread hc
      have hdrop := s.heap.drop_array p c
      have hslots' : (s.heap.drop p).array c = some slots := hslots
      rw [hslots'] at hdrop
      split at hdrop
      · cases hdrop
      · exact hdrop.symm.trans hslots'.symm

theorem concatenate_ends (argument : StrProg CPtr) (harg : NoThrow argument)
    (s : Store Fields (Option UInt8)) :
    Ends .badAlloc (concatenate refuses i argument) s (fun _ _ => True)
      fun s' => s' = ⟨s.objects, s.heap.skip⟩ := by
  refine Ends.after_object (by decide) fun v _ => (newChars_ends _ s).then_within fun data => ?_
  refine (strcpy_noThrow _ _).bind fun _ => harg.bind fun p => (strcat_noThrow _ p).bind fun _ => ?_
  exact (NoThrow.deleteArray _).bind fun _ => NoThrow.modifyObject i _

/-- The overloads of `operator+=`, from the update of `size_` on. -/
theorem extended_ends (ho : s.objects.entry i = some o) (k : Nat) {argument : StrProg CPtr}
    (harg : NoThrow argument) :
    Ends .badAlloc (do
        modifyObject i fun v => { v with size_ := wrap (v.size_ + k) }
        concatenate refuses i argument) s (fun _ _ => True)
      fun s' => s' = halted s i o (wrap (o.size_ + k)) false :=
  Ends.after (modifyObject_returns ho _) (concatenate_ends argument harg _)

theorem assign_ends (ho : s.objects.entry i = some o) (j : Nat) :
    Ends .badAlloc (assign refuses i j) s (fun _ _ => True) fun s' =>
      ∃ w, s.objects.entry j = some w ∧ s' = halted s i o w.size_ (decide (o.size_ ≠ 0)) := by
  refine Ends.after (object_returns ho) ?_
  refine ((onlyIf_delete_drops (o.size_ ≠ 0) o.buffer_ s).ends _).bind ?_
  rintro _ _ rfl
  refine Ends.after_object (by decide) fun w hw => ?_
  refine Ends.then_within ((allocate_ends (dropped_entry ho _ _) w.size_).mono ?_) fun b =>
    (NoThrow.of_within (c_str_reads j)).bind fun p => strcpy_noThrow b p
  rintro _ rfl
  exact ⟨w, hw, rfl⟩

theorem assignCString_ends (ho : s.objects.entry i = some o) (q : CPtr) :
    Ends .badAlloc (assignCString refuses i q) s (fun _ _ => True) fun s' =>
      ∃ cs, Returns (readString q) s cs s ∧
        s' = halted s i o cs.length (decide (o.size_ ≠ 0)) := by
  refine Ends.after (object_returns ho) ?_
  refine ((onlyIf_delete_drops (o.size_ ≠ 0) o.buffer_ s).ends _).bind ?_
  rintro _ s₁ rfl
  refine ((strlen_found Fault.badAlloc_alien q _).ends _).bind ?_
  rintro _ _ ⟨rfl, cs, hread, rfl⟩
  refine Ends.then_within ((allocate_ends (dropped_entry ho _ _) cs.length).mono ?_) fun b =>
    strcpy_noThrow b q
  rintro _ rfl
  exact ⟨cs, readString_undropped hread, rfl⟩

theorem assignChar_ends (ho : s.objects.entry i = some o) (c : UInt8) :
    Ends .badAlloc (assignChar refuses i c) s (fun _ _ => True) fun s' =>
      s' = halted s i o 1 (decide (o.size_ ≠ 1)) := by
  refine Ends.after (object_returns ho) ?_
  refine ((onlyIf_delete_drops (o.size_ ≠ 1) o.buffer_ s).ends _).bind ?_
  rintro _ _ rfl
  exact Ends.then_within ((allocate_ends (dropped_entry ho _ _) 1).mono fun _ h => h) fun b =>
    (NoThrow.store b 0 _).bind fun _ => NoThrow.store b 1 _

theorem append_ends (ho : s.objects.entry i = some o) (j : Nat) :
    Ends .badAlloc (append refuses i j) s (fun _ _ => True) fun s' =>
      ∃ w, s.objects.entry j = some w ∧ s' = halted s i o (wrap (o.size_ + w.size_)) false := by
  refine Ends.after_object (by decide) fun w hw => ?_
  exact (extended_ends ho w.size_ (NoThrow.of_within (c_str_reads j))).mono fun _ h => ⟨w, hw, h⟩

theorem appendCString_ends (ho : s.objects.entry i = some o) (q : CPtr) :
    Ends .badAlloc (appendCString refuses i q) s (fun _ _ => True) fun s' =>
      ∃ cs, Returns (readString q) s cs s ∧
        s' = halted s i o (wrap (o.size_ + cs.length)) false := by
  refine ((strlen_found Fault.badAlloc_alien q s).ends _).bind ?_
  rintro _ _ ⟨rfl, cs, hread, rfl⟩
  exact (extended_ends ho cs.length (NoThrow.of_within (Reads.pure q))).mono fun _ h =>
    ⟨cs, hread, h⟩

theorem clear_ends (ho : s.objects.entry i = some o) :
    Ends .badAlloc (clear refuses i) s (fun _ _ => True) fun s' => s' = halted s i o 0 true := by
  refine Ends.after (object_returns ho) ?_
  refine ((deleteArray_drops (by decide) o.buffer_ s).ends _).bind ?_
  rintro _ _ rfl
  exact (becomeEmpty_ends (dropped_entry ho o.buffer_ true)).mono fun _ h => h

/-! ## When nothing has changed -/

/-- String `i` still has the fields `o`, and every string holds what it held, in a live buffer with
    its terminator. -/
structure Intact (s' : Store Fields (Option UInt8)) (F : Table (List UInt8)) (i : Nat) (o : Fields) :
    Prop where
  fields : s'.objects.entry i = some o
  strings : Represents model s' F

theorem represents_skip (h : Represents model s F) :
    Represents model ⟨s.objects, s.heap.skip⟩ F where
  next := h.next
  holds k := rel_mono (h.holds k) fun _ _ _ _ hold => model.holds_congr hold fun _ _ => rfl
  separate := h.separate

/-- A throw leaves the string as it was exactly when the size was set to what it was and the buffer
    was not released. -/
theorem halted_intact (h : Represents model s F) (ho : s.objects.entry i = some o)
    (released : Bool) :
    Intact (halted s i o n released) F i o ↔ n = o.size_ ∧ released = false := by
  constructor
  · intro hsame
    have hfields : (⟨n, o.buffer_⟩ : Fields) = o := by
      have hset := hsame.fields
      rw [halted, Table.set_entry_self ho] at hset
      exact Option.some.inj hset
    refine ⟨congrArg Fields.size_ hfields, ?_⟩
    cases released with
    | false => rfl
    | true =>
        -- the buffer the string points to would be a released one
        obtain ⟨bs, _, _, _, b, hb, harr⟩ := hsame.strings.value hsame.fields
        have hdrop := s.heap.drop_array o.buffer_ b
        rw [if_pos hb] at hdrop
        have harr' : (s.heap.drop o.buffer_).array b = some (terminated bs) := harr
        rw [hdrop] at harr'
        cases harr'
  · rintro ⟨rfl, rfl⟩
    have hself : halted s i o o.size_ false = ⟨s.objects, s.heap.skip⟩ := by
      rw [halted, show (⟨o.size_, o.buffer_⟩ : Fields) = o from rfl, Table.set_self ho]
      rfl
    rw [hself]
    exact ⟨ho, represents_skip h⟩

/-- What makes a failed allocation harmless to string `i`: the operation keeps the size, and it does
    not release the buffer. -/
def Mutation.Harmless (F : Table (List UInt8)) (i : Nat) : Mutation → Prop
  | .assign j => bytesOf F i = [] ∧ bytesOf F j = []
  | .assignCString p => bytesOf F i = [] ∧ p.text F.entry = some []
  | .assignChar _ => (bytesOf F i).length = 1
  | .append j => bytesOf F j = []
  | .appendCString p => ∃ cs, p.text F.entry = some cs ∧ wrap cs.length = 0
  | .appendChar _ _ => False
  | .clear => False

/-- Behind its terminator, a string's buffer ends. -/
theorem readString_beyond {b k : Nat} (hb : s.heap.array b = some (terminated bs))
    (hk : bs.length < k) : Fails (readString (.heap (some b) k)) s .outOfBounds := by
  refine Fails.bind_right (Returns.bind (contents_returns hb) (Returns.pure _ s)) ?_
  rw [List.drop_of_length_le (by rw [terminated_length]; omega)]
  exact ⟨s, rfl⟩

/-- A pointer that reads as a C string leads to the text of the argument. -/
theorem Arg.text_of_reads (h : Represents model s F) {p : Arg} {q : CPtr}
    (hptr : Returns p.ptr s q s) (hread : Returns (readString q) s cs s) :
    p.text F.entry = some cs := by
  cases p with
  | literal bytes =>
      obtain ⟨rfl, _⟩ := Returns.pure_inv hptr
      rw [(hread.unique (readString_external bytes)).1]
      rfl
  | suffix j k =>
      obtain ⟨v, s₁, hv, hptr⟩ := Returns.bind_inv hptr
      obtain ⟨rfl, rfl⟩ := Returns.pure_inv hptr
      have hfound := object_found (by decide : Fault.badAlloc.Foreign) j s
      obtain ⟨_, hentry⟩ := hfound.ensures v s hv
      obtain ⟨bs, hj, _, _, b, hb, harr⟩ := h.value hentry
      rw [hb] at hread
      have hk : k ≤ bs.length := by
        by_contra hk
        exact hread.not_fails (readString_beyond harr (Nat.not_le.1 hk))
      rw [Arg.text, Option.bind_eq_bind, hj, Option.bind_some, if_pos hk]
      rw [(hread.unique (readString_terminated harr hk)).1]

theorem wrap_add_eq {m k : Nat} (hm : m < 2 ^ 64) : wrap (m + k) = m ↔ wrap k = 0 := by
  simp only [wrap]
  omega

theorem ptr_found (p : Arg) (s : Store Fields (Option UInt8)) :
    Avoids Fault.badAlloc p.ptr s fun q s' => s' = s ∧ Returns p.ptr s q s where
  not_fails := (ptr_reads (by decide) p s).not_fails
  ensures q s' hret := by
    obtain rfl := (ptr_reads (by decide : Fault.badAlloc.Foreign) p s).ensures q s' hret
    exact ⟨rfl, hret⟩

/-- What a throw leaves behind, for every mutating operation. -/
theorem Mutation.run_ends (h : Represents model s F) (ho : s.objects.entry i = some o)
    (m : Mutation) :
    Ends .badAlloc (m.run refuses i) s (fun _ _ => True) fun s' =>
      ∃ n released, s' = halted s i o n released ∧
        (n = o.size_ ∧ released = false ↔ m.Harmless F i) := by
  obtain ⟨bs, hi, hold⟩ := h.value ho
  have hsize : o.size_ = bs.length := hold.size
  have hlt : o.size_ < 2 ^ 64 := by
    have hfits : bs.length + 1 < 2 ^ 64 := hold.fits
    omega
  have hlength : ∀ {k w}, s.objects.entry k = some w → (w.size_ = 0 ↔ bytesOf F k = []) := by
    intro k w hw
    obtain ⟨cs, hk, hcs⟩ := h.value hw
    rw [show w.size_ = cs.length from hcs.size, bytesOf_eq hk, List.length_eq_zero_iff]
  cases m with
  | assign j =>
      refine (assign_ends ho j).mono ?_
      rintro _ ⟨w, hw, rfl⟩
      refine ⟨_, _, rfl, ?_⟩
      rw [Mutation.Harmless, ← hlength ho, ← hlength hw, decide_eq_false_iff_not]
      omega
  | assignCString p =>
      refine ((ptr_found p s).ends _).bind ?_
      rintro q _ ⟨rfl, hptr⟩
      refine (assignCString_ends ho q).mono ?_
      rintro _ ⟨cs, hread, rfl⟩
      refine ⟨_, _, rfl, ?_⟩
      rw [Mutation.Harmless, ← hlength ho, Arg.text_of_reads h hptr hread, Option.some.injEq,
        ← List.length_eq_zero_iff (l := cs), decide_eq_false_iff_not]
      omega
  | assignChar c =>
      refine (assignChar_ends ho c).mono ?_
      rintro _ rfl
      refine ⟨_, _, rfl, ?_⟩
      rw [Mutation.Harmless, bytesOf_eq hi, ← hsize, decide_eq_false_iff_not]
      omega
  | append j =>
      refine (append_ends ho j).mono ?_
      rintro _ ⟨w, hw, rfl⟩
      obtain ⟨cs, hj, hcs⟩ := h.value hw
      have hwrap : wrap w.size_ = w.size_ := by
        have hfits : cs.length + 1 < 2 ^ 64 := hcs.fits
        exact Nat.mod_eq_of_lt (by rw [show w.size_ = cs.length from hcs.size]; omega)
      refine ⟨_, _, rfl, ?_⟩
      rw [wrap_add_eq hlt, hwrap, Mutation.Harmless, hlength hw]
      exact and_iff_left rfl
  | appendCString p =>
      refine ((ptr_found p s).ends _).bind ?_
      rintro q _ ⟨rfl, hptr⟩
      refine (appendCString_ends ho q).mono ?_
      rintro _ ⟨cs, hread, rfl⟩
      refine ⟨_, _, rfl, ?_⟩
      rw [wrap_add_eq hlt, Mutation.Harmless, Arg.text_of_reads h hptr hread]
      simp
  | appendChar c after =>
      refine (extended_ends ho 1 (NoThrow.of_within (Reads.pure _))).mono ?_
      rintro _ rfl
      refine ⟨_, _, rfl, iff_of_false ?_ not_false⟩
      rw [wrap_add_eq hlt]
      decide
  | clear =>
      refine (clear_ends ho).mono ?_
      rintro _ rfl
      exact ⟨_, _, rfl, iff_of_false (by simp) not_false⟩

/-- **A throw leaves a string unchanged exactly when the operation was harmless**: an empty string
    assigned to an empty one, a character to a string of one byte, or nothing appended. -/
theorem failed_mutation (h : Represents model s F) (ho : s.objects.entry i = some o) {m : Mutation}
    (hstop : Stops (m.run refuses i) s .badAlloc s') : Intact s' F i o ↔ m.Harmless F i := by
  obtain ⟨n, released, rfl, hiff⟩ := (Mutation.run_ends h ho m).leaves s' hstop
  rw [halted_intact h ho, hiff]

/-- Memory for every request but number `k`. -/
def lacking (k : Nat) : Nat → Bool := fun r => r == k

/-- `string s("ab");` -/
theorem built_ab (hrun : Returns (Op.run refuses (.ofCString (.literal [97, 98]))) Store.empty () s) :
    Represents model s (Table.empty.add [97, 98]) := by
  have hret := (Op.run_orThrows refuses (.ofCString (.literal [97, 98]))).returns hrun
  obtain ⟨s₁, hret₁, h₁⟩ := run_result (fun _ => rfl) Represents.empty
    (.ofCString (.literal [97, 98])) ⟨_, rfl, by decide⟩ trivial
  obtain ⟨_, rfl⟩ := hret.unique hret₁
  exact h₁

/-- `string s("ab"); s += "";`, where the second request is refused. -/
theorem failed_mutation_ab : ∃ s s' F o, Represents model s F ∧ s.objects.entry 0 = some o ∧
    F.entry 0 = some [97, 98] ∧
    Stops ((Mutation.appendCString (.literal [])).run (lacking 1) 0) s .badAlloc s' ∧
    Intact s' F 0 o := by
  obtain ⟨s, s', hrun, ho, hstop⟩ : ∃ s s',
      Returns (Op.run (lacking 1) (.ofCString (.literal [97, 98]))) Store.empty () s ∧
      s.objects.entry 0 = some ⟨2, some 0⟩ ∧
      Stops ((Mutation.appendCString (.literal [])).run (lacking 1) 0) s .badAlloc s' :=
    ⟨_, _, rfl, rfl, rfl⟩
  exact ⟨s, s', _, _, built_ab hrun, ho, rfl, hstop,
    (failed_mutation (built_ab hrun) ho hstop).2 ⟨[], rfl, rfl⟩⟩

/-- `string s("ab"); s += "c";` with the second request refused leaves `size_` 3 over the text "ab",
    and `s = "c";` a pointer to the released buffer. -/
theorem failed_mutation_changes : ∃ s F o, Represents model s F ∧ s.objects.entry 0 = some o ∧
    F.entry 0 = some [97, 98] ∧
    (∃ s', Stops ((Mutation.appendCString (.literal [99])).run (lacking 1) 0) s .badAlloc s' ∧
      s'.objects.entry 0 = some ⟨3, o.buffer_⟩ ∧ ¬ Intact s' F 0 o) ∧
    ∃ s', Stops ((Mutation.assignCString (.literal [99])).run (lacking 1) 0) s .badAlloc s' ∧
      s'.heap.array 0 = none ∧ ¬ Intact s' F 0 o := by
  obtain ⟨s, hrun, ho, s₁, hstop₁, ho₁, s₂, hstop₂, ho₂, harr⟩ : ∃ s,
      Returns (Op.run (lacking 1) (.ofCString (.literal [97, 98]))) Store.empty () s ∧
      s.objects.entry 0 = some ⟨2, some 0⟩ ∧
      ∃ s₁, Stops ((Mutation.appendCString (.literal [99])).run (lacking 1) 0) s .badAlloc s₁ ∧
        s₁.objects.entry 0 = some ⟨3, some 0⟩ ∧
        ∃ s₂, Stops ((Mutation.assignCString (.literal [99])).run (lacking 1) 0) s .badAlloc s₂ ∧
          s₂.objects.entry 0 = some ⟨1, some 0⟩ ∧ s₂.heap.array 0 = none :=
    ⟨_, rfl, rfl, _, rfl, rfl, _, rfl, rfl, rfl⟩
  refine ⟨s, _, _, built_ab hrun, ho, rfl, ⟨s₁, hstop₁, ho₁, fun hsame => ?_⟩,
    s₂, hstop₂, harr, fun hsame => ?_⟩
  · have hfields := hsame.fields
    rw [ho₁] at hfields
    cases hfields
  · have hfields := hsame.fields
    rw [ho₂] at hfields
    cases hfields

end LinuxSamples.FbcString
