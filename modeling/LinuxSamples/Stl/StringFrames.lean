import LinuxSamples.Stl.ClassVectorFrames
import LinuxSamples.Stl.StringElements
import LinuxSamples.Stl.StringThrows

set_option autoImplicit false

/-! # What the members of `fbcstd::string` leave alone

A member of `string` that `vector` calls changes one string, its buffer and what it allocates itself. That
holds whatever state the strings are in: one whose `operator=` threw has a buffer that was released. -/

namespace LinuxSamples.StringClass

open LinuxSamples.Program LinuxSamples.Memory LinuxSamples.ClassVector
open LinuxSamples.FbcString (model unwritten newChars)

variable {refuses : Nat → Bool} {s₀ s s' : Strings} {d n : Nat}

/-! ## One string and what is new -/

/-- From `s₀` to `s` at most string `d`, its buffer and what is new has changed. -/
structure Own (d : Nat) (s₀ s : Strings) : Prop where
  next : s₀.objects.next ≤ s.objects.next
  heap : s₀.heap.next ≤ s.heap.next
  entry : ∀ e, e ≠ d → s.objects.entry e = s₀.objects.entry e
  array : ∀ b, b < s₀.heap.next → ¬ Owns model s₀ d b → s.heap.array b = s₀.heap.array b
  buffer : ∀ b, Owns model s d b → Owns model s₀ d b ∨ s₀.heap.next ≤ b ∧ b < s.heap.next

theorem Own.refl (d : Nat) (s : Strings) : Own d s s :=
  ⟨Nat.le_refl _, Nat.le_refl _, fun _ _ => rfl, fun _ _ _ => rfl, fun _ hb => Or.inl hb⟩

/-- The heap grows, and the arrays there were at the start stay. -/
theorem Own.grow (h : Own d s₀ s) (hobjects : s'.objects = s.objects)
    (hnext : s.heap.next ≤ s'.heap.next)
    (harray : ∀ b, b < s₀.heap.next → s'.heap.array b = s.heap.array b) : Own d s₀ s' where
  next := by rw [hobjects]; exact h.next
  heap := h.heap.trans hnext
  entry e he := by rw [hobjects]; exact h.entry e he
  array b hb hout := (harray b hb).trans (h.array b hb hout)
  buffer b hb := by
    rw [Owns, hobjects] at hb
    exact (h.buffer b hb).imp_right fun hin => ⟨hin.1, hin.2.trans_le hnext⟩

theorem Own.alloc (h : Own d s₀ s) (slots : List (Option UInt8)) :
    Own d s₀ ⟨s.objects, s.heap.alloc slots⟩ :=
  h.grow rfl (Nat.le_succ _) fun _ hb =>
    Function.update_of_ne (Nat.ne_of_lt (hb.trans_le h.heap)) _ _

/-- String `d` gets other fields: its buffer is one it had, or a new one. -/
theorem Own.modify (h : Own d s₀ s) {o o' : FbcString.Fields} (ho : s.objects.entry d = some o)
    (hbuffer : ∀ b, o'.buffer_ = some b →
      Owns model s d b ∨ s₀.heap.next ≤ b ∧ b < s.heap.next) : Own d s₀ (s.put d o') where
  next := h.next
  heap := h.heap
  entry e he := by
    rw [Store.put_objects, Table.set_entry ho, Function.update_of_ne he]
    exact h.entry e he
  array := h.array
  buffer b hb := by
    obtain ⟨o'', ho'', hb⟩ := hb
    rw [Store.put_entry ho, Option.some.injEq] at ho''
    rw [← ho''] at hb
    exact (hbuffer b hb).elim (h.buffer b) Or.inr

theorem Own.drop (h : Own d s₀ s) {p : Option Nat} (hp : ∀ b, p = some b → Owns model s d b) :
    Own d s₀ ⟨s.objects, s.heap.drop p⟩ where
  next := h.next
  heap := h.heap.trans (Nat.le_of_eq (Heap.drop_next _ _).symm)
  entry := h.entry
  array b hb hout := by
    refine Eq.trans ?_ (h.array b hb hout)
    refine (s.heap.drop_array p b).trans (if_neg fun hpb => ?_)
    rcases h.buffer b (hp b hpb) with hin | hin
    · exact hout hin
    · exact Nat.not_lt.2 hin.1 hb
  buffer b hb := (h.buffer b hb).imp_right fun hin =>
    ⟨hin.1, hin.2.trans_le (Nat.le_of_eq (Heap.drop_next _ _).symm)⟩

/-! ## The lines of the members -/

/-- `size_` is updated, and the string gets a new buffer. -/
theorem renewed_ends {β : Type} {f : FbcString.Fields → FbcString.Fields} {m : Nat}
    {rest : Nat → FbcString.StrProg β} {Q : β → Strings → Prop} (h : Own d s₀ s)
    (hf : ∀ o, (f o).buffer_ = o.buffer_)
    (hrest : ∀ b s', s₀.heap.next ≤ b → Own d s₀ s' → Ends .badAlloc (rest b) s' Q (Own d s₀)) :
    Ends .badAlloc (do
        modifyObject d f
        let b ← newChars refuses m
        modifyObject d fun v => { v with buffer_ := some b }
        rest b) s Q (Own d s₀) := by
  refine ((modifyObject_found (by decide) d f s).ends _).bind ?_
  rintro _ _ ⟨o, ho, rfl⟩
  have h₁ : Own d s₀ (s.put d (f o)) := h.modify ho fun b hb => Or.inl ⟨o, ho, (hf o).symm.trans hb⟩
  refine ((newArray_ends (unwritten refuses) m _).mono ?_).bind ?_
  · rintro _ rfl
    exact h₁.grow rfl (Nat.le_succ _) fun _ _ => rfl
  rintro b _ ⟨rfl, rfl⟩
  refine ((modifyObject_found (by decide) d _ _).ends _).bind ?_
  rintro _ _ ⟨v, hv, rfl⟩
  refine hrest _ _ h.heap ((h₁.alloc _).modify hv fun b hb => ?_)
  obtain rfl : _ = b := Option.some.inj hb
  exact Or.inr ⟨h.heap, Nat.lt_succ_self _⟩

/-- Writing into a buffer that was not there at the start. -/
theorem Own.writes (h : Own d s₀ s) {b : Nat} (hb : s₀.heap.next ≤ b) (hw : Writes (some b) s s') :
    Own d s₀ s' :=
  h.grow hw.objects (Nat.le_of_eq hw.next.symm) fun c hc =>
    hw.array c fun he => Nat.not_lt.2 hb (Option.some.inj he ▸ hc)

theorem becomeEmpty_ends (h : Own d s₀ s) :
    Ends .badAlloc (FbcString.becomeEmpty refuses d) s (fun _ => Own d s₀) (Own d s₀) :=
  renewed_ends h (fun _ => rfl) fun b _ hb h₁ =>
    ((store_writes (by decide) (some b) 0 _ _).mono fun _ _ => h₁.writes hb).ends _

/-- The buffer `p` is new since `s₀`. -/
def New (s₀ : Strings) (p : Option Nat) : Prop := ∃ b, p = some b ∧ s₀.heap.next ≤ b

theorem allocate_ends (h : Own d s₀ s) :
    Ends .badAlloc (FbcString.allocate refuses d n) s (fun p s' => New s₀ p ∧ Own d s₀ s')
      (Own d s₀) :=
  renewed_ends h (fun _ => rfl) fun b _ hb h' => Ends.pure ⟨⟨b, rfl, hb⟩, h'⟩

theorem strcpy_ends (h : Own d s₀ s) {p : Option Nat} (hp : New s₀ p) (q : CPtr) :
    Ends .badAlloc (strcpy p q) s (fun _ => Own d s₀) (Own d s₀) := by
  obtain ⟨b, rfl, hb⟩ := hp
  exact ((strcpy_writes Fault.badAlloc_alien (some b) q s).mono fun _ _ => h.writes hb).ends _

/-! ## The members -/

theorem assign_ends (d e : Nat) (s : Strings) :
    Ends .badAlloc (FbcString.assign refuses d e) s (fun _ => Own d s) (Own d s) := by
  refine Ends.after_object (by decide) fun v hv => ?_
  refine Ends.bind (R := fun _ => Own d s) ?_ fun _ s₁ h₁ => ?_
  · refine Ends.onlyIf (fun _ => ?_) fun _ => Own.refl d s
    refine ((deleteArray_drops (by decide) v.buffer_ s).mono ?_).ends _
    rintro _ _ rfl
    exact (Own.refl d s).drop fun b hb => ⟨v, hv, hb⟩
  refine Ends.after_object (by decide) fun w _ => (allocate_ends h₁).bind fun p s₂ h₂ => ?_
  exact Ends.after_reads (FbcString.c_str_reads e) fun q => strcpy_ends h₂.2 h₂.1 q

theorem default_lines (h : Own d s₀ s) :
    Ends .badAlloc (do
        FbcString.becomeEmpty refuses d
        return d) s (fun e s' => e = d ∧ Own d s₀ s') (Own d s₀) :=
  (becomeEmpty_ends h).bind fun _ _ h' => Ends.pure ⟨rfl, h'⟩

theorem copy_lines (h : Own d s₀ s) (q : CPtr) :
    Ends .badAlloc (do
        let b ← FbcString.allocate refuses d n
        strcpy b q
        return d) s (fun e s' => e = d ∧ Own d s₀ s') (Own d s₀) :=
  (allocate_ends h).bind fun _ _ h₁ => (strcpy_ends h₁.2 h₁.1 q).bind fun _ _ h' =>
    Ends.pure ⟨rfl, h'⟩

/-! ## The class -/

/-- What is seen of a string: its size, and the contents of its buffer, unless it was released. Buffers
    are not shared. -/
def stringView : View Strings (Option (Nat × Option (List (Option UInt8)))) where
  Sound s := (∀ e b, Owns model s e b → b < s.heap.next) ∧
    ∀ d e b, Owns model s d b → Owns model s e b → d = e
  next s := s.objects.next
  look s e := (s.objects.entry e).map fun o => (o.size_, o.buffer_.bind s.heap.array)

/-- No other string has a buffer that string `d` has. -/
theorem Own.apart (h : Own d s₀ s) (h₀ : stringView.Sound s₀) {e b : Nat} (he : e ≠ d)
    (hown : Owns model s e b) : Owns model s₀ e b ∧ ¬ Owns model s d b := by
  obtain ⟨o, ho, hb⟩ := hown
  have hold : Owns model s₀ e b := ⟨o, (h.entry e he).symm.trans ho, hb⟩
  refine ⟨hold, fun hd => ?_⟩
  rcases h.buffer b hd with hd | hnew
  · exact he (h₀.2 e d b hold hd)
  · exact Nat.not_lt.2 hnew.1 (h₀.1 e b hold)

theorem Own.sound (h : Own d s₀ s) (h₀ : stringView.Sound s₀) : stringView.Sound s := by
  constructor
  · intro e b hb
    by_cases he : e = d
    · rw [he] at hb
      exact (h.buffer b hb).elim (fun hold => (h₀.1 d b hold).trans_le h.heap) And.right
    · exact (h₀.1 e b (h.apart h₀ he hb).1).trans_le h.heap
  · intro e e' b hb hb'
    by_cases he : e = d
    · by_contra hne
      rw [he] at hb hne
      exact (h.apart h₀ (Ne.symm hne) hb').2 hb
    · by_cases he' : e' = d
      · rw [he'] at hb'
        exact absurd hb' (h.apart h₀ he hb).2
      · exact h₀.2 e e' b (h.apart h₀ he hb).1 (h.apart h₀ he' hb').1

theorem Own.touches (h : Own d s₀ s) (h₀ : stringView.Sound s₀) : stringView.Touches {d} s₀ s := by
  refine ⟨h.sound h₀, h.next, fun e _ he => ?_⟩
  show Option.map _ _ = Option.map _ _
  rw [h.entry e he]
  cases ho : s₀.objects.entry e with
  | none => rfl
  | some o =>
      have harray : o.buffer_.bind s.heap.array = o.buffer_.bind s₀.heap.array := by
        cases hb : o.buffer_ with
        | none => rfl
        | some b =>
            have hown : Owns model s₀ e b := ⟨o, ho, hb⟩
            exact h.array b (h₀.1 e b hown) fun hd => he (h₀.2 e d b hown hd)
      rw [Option.map_some, Option.map_some, harray]

/-- A new string without a buffer. -/
theorem add_touches (hs : stringView.Sound s) :
    stringView.Touches ∅ s ⟨s.objects.add ⟨0, none⟩, s.heap⟩ := by
  have hold : ∀ {e b}, Owns model ⟨s.objects.add ⟨0, none⟩, s.heap⟩ e b → Owns model s e b := by
    rintro e b ⟨o, ho, hb⟩
    by_cases he : e = s.objects.next
    · rw [he, Table.add_entry_self, Option.some.injEq] at ho
      rw [← ho] at hb
      cases hb
    · rw [Table.add_entry, Function.update_of_ne he] at ho
      exact ⟨o, ho, hb⟩
  refine ⟨⟨fun e b hb => hs.1 e b (hold hb), fun d e b hd he => hs.2 d e b (hold hd) (hold he)⟩,
    Nat.le_succ _, fun e he _ => ?_⟩
  have hentry : (s.objects.add ⟨0, none⟩).entry e = s.objects.entry e :=
    Function.update_of_ne (Nat.ne_of_lt he) _ _
  show Option.map _ ((s.objects.add _).entry e) = _
  rw [hentry]
  rfl

/-- Constructors. -/
theorem makes_of_lines {rest : Nat → FbcString.StrProg Nat}
    (hrest : ∀ d s, Ends .badAlloc (rest d) s (fun e s' => e = d ∧ Own d s s') (Own d s)) :
    stringView.Makes (newObject ⟨0, none⟩ >>= rest) := by
  intro s hs
  have hafter : ∀ {s'}, Own s.objects.next ⟨s.objects.add ⟨0, none⟩, s.heap⟩ s' →
      stringView.Touches ∅ s s' := by
    intro s' h
    refine (add_touches hs).trans (h.touches (add_touches hs).sound) ?_
    rintro e rfl he
    exact absurd he (Nat.lt_irrefl _)
  refine Ends.after (newObject_returns s _) ((hrest _ _).imp ?_ fun _ => hafter)
  rintro e s' ⟨rfl, h⟩
  exact ⟨hafter h, Nat.le_refl _, h.next⟩

theorem stringClass_framed (refuses : Nat → Bool) : Framed (stringClass refuses) stringView where
  construct := makes_of_lines fun d s => default_lines (Own.refl d s)
  make x := makes_of_lines fun d s => by
    refine ((Reads.strlen Fault.badAlloc_alien _ s).ends _).bind ?_
    rintro _ _ rfl
    exact copy_lines (Own.refl d _) _
  copyConstruct e := makes_of_lines fun d s =>
    Ends.after_object (by decide) fun w _ => copy_lines (Own.refl d s) _
  assign d e s hs := (assign_ends d e s).imp (fun _ _ h => h.touches hs) fun _ h => h.touches hs
  destroy e s := by
    refine Avoids.after_object (by decide) fun v hv => ?_
    refine (deleteArray_drops (by decide) v.buffer_ s).bind ?_
    rintro _ _ rfl
    refine Avoids.of_returns (dropObject_returns (s := ⟨s.objects, s.heap.drop v.buffer_⟩) hv)
      fun hs => Own.touches ?_ hs
    have hdrop := (Own.refl e s).drop (p := v.buffer_) fun b hb => ⟨v, hv, hb⟩
    refine ⟨Nat.le_refl _, hdrop.heap, fun d hd => ?_, hdrop.array, ?_⟩
    · exact Function.update_of_ne hd _ _
    · rintro b ⟨o, ho, _⟩
      rw [Table.erase_entry, Function.update_self] at ho
      cases ho

end LinuxSamples.StringClass
