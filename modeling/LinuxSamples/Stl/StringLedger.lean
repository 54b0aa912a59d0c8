import LinuxSamples.Memory.Ledger
import LinuxSamples.Memory.CStringFaults
import LinuxSamples.Stl.StringRuns

set_option autoImplicit false

/-! # The buffer ledger of `fbcstd::string`

Every string owns a buffer, also the empty one. The assignments release the target's buffer only when
its `size_` is not 0 (not 1 when a single character is assigned), so the others lose it; all the
other operations keep the ledger balanced. -/

namespace LinuxSamples.FbcString

open LinuxSamples.Program LinuxSamples.Memory

/-- The buffers allocated and not released are those of the strings alive, one each, and no buffer
    was released twice. -/
abbrev Settled (s : Store Fields (Option UInt8)) : Prop :=
  Balanced (owner Fields.buffer_ s) s.heap.ledger

variable {refuses : Nat → Bool} {s s₁ s' : Store Fields (Option UInt8)} {i j k c : Nat}
  {β γ : Type}

/-! ## The functions of `<string.h>` -/

/-- A program that does nothing to the ledger. -/
abbrev Idle (m : StrProg β) : Prop := Silent Fields.buffer_ m

theorem Idle.strlen (p : CPtr) : Idle (strlen p) :=
  Silent.of_reads (Reads.strlen Fault.badDelete_alien p)

theorem Idle.of_still {m : StrProg β} (hm : Within Fault.badDelete Still m) : Idle m :=
  hm.mono fun _ _ => Quiet.of_still

theorem Idle.writeSlots (dst : Option Nat) (k : Nat) (new : List (Option UInt8)) :
    Idle (writeSlots dst k new) :=
  Idle.of_still (writeSlots_within Fault.badDelete_alien dst k new)

theorem Idle.strcpy (dst : Option Nat) (src : CPtr) : Idle (strcpy dst src) :=
  Idle.of_still (strcpy_within Fault.badDelete_alien dst src)

theorem Idle.strcat (dst : Option Nat) (src : CPtr) : Idle (strcat dst src) :=
  Idle.of_still (strcat_within Fault.badDelete_alien dst src)

theorem Idle.strncpy (dst : Option Nat) (src : CPtr) (n : Nat) : Idle (strncpy dst src n) :=
  Idle.of_still (strncpy_within Fault.badDelete_alien dst src n)

theorem Idle.c_str (i : Nat) : Idle (c_str i) := (Silent.object i).bind fun _ => Silent.pure _

theorem ptr_reads {bad : Fault} (hbad : bad.Foreign) (p : Arg) : Reads bad p.ptr := by
  cases p with
  | literal bytes => exact Reads.pure _
  | suffix j k => exact (Reads.object hbad j).bind fun _ => Reads.pure _

theorem Idle.ptr (p : Arg) : Idle p.ptr := Silent.of_reads (ptr_reads (by decide) p)

/-! ## Programs that give an object a new buffer -/

/-- From `s` to `s'`, object `i` was pointed to the new array `c`. -/
structure Acquires (s s' : Store Fields (Option UInt8)) (i c : Nat) : Prop where
  owner : owner Fields.buffer_ s' = Function.update (owner Fields.buffer_ s) i (some (some c))
  ledger : s'.heap.ledger = .allocated c :: s.heap.ledger
  unused : Unused s.heap.ledger c

theorem Acquires.after_quiet (h : Acquires s₁ s' i c) (hq : Quiet Fields.buffer_ s s₁) :
    Acquires s s' i c :=
  ⟨by rw [h.owner, hq.1], by rw [h.ledger, hq.2], by rw [← hq.2]; exact h.unused⟩

theorem Acquires.then_quiet (h : Acquires s s₁ i c) (hq : Quiet Fields.buffer_ s₁ s') :
    Acquires s s' i c :=
  ⟨by rw [hq.1, h.owner], by rw [hq.2, h.ledger], h.unused⟩

/-- The program gives object `i` a new buffer and does nothing else to the ledger. -/
def Gains (i : Nat) (m : StrProg β) : Prop :=
  ∀ s, Avoids Fault.badDelete m s fun _ s' => ∃ c, Acquires s s' i c

theorem Gains.after_idle {m : StrProg β} {f : β → StrProg γ} (hm : Idle m)
    (hf : ∀ a, Gains i (f a)) : Gains i (m >>= f) := fun s =>
  (hm s).bind fun a s₁ hq => (hf a s₁).mono fun _ _ h => by
    obtain ⟨c, h⟩ := h
    exact ⟨c, h.after_quiet hq⟩

theorem Gains.then_idle {m : StrProg β} {f : β → StrProg γ} (hm : Gains i m)
    (hf : ∀ a, Idle (f a)) : Gains i (m >>= f) := fun s =>
  (hm s).then_within hf fun _ _ _ h hq => by
    obtain ⟨c, h⟩ := h
    exact ⟨c, h.then_quiet hq⟩

theorem Gains.ite {p : Prop} [Decidable p] {m n : StrProg β} (hm : Gains i m) (hn : Gains i n) :
    Gains i (if p then m else n) := by
  split
  · exact hm
  · exact hn

/-- `buffer_ = new char[n];`. -/
theorem Gains.newBuffer (i n : Nat) {rest : Nat → StrProg β} (hrest : ∀ b, Idle (rest b)) :
    Gains i (do
      let b ← newChars refuses n
      modifyObject i fun v => { v with buffer_ := some b }
      rest b) := by
  intro s
  refine (newArray_avoids Fields.buffer_ _ n s).bind fun b s₁ h₁ => ?_
  obtain ⟨howner₁, hledger₁, hunused⟩ := h₁
  refine (modifyObject_avoids Fields.buffer_ i _ s₁).then_within
    (fun _ => hrest b) fun _ s₂ s' h₂ hq => ?_
  obtain ⟨o, _, howner₂, hledger₂⟩ := h₂
  exact ⟨b, Acquires.then_quiet
    ⟨by rw [howner₂, howner₁], by rw [hledger₂, hledger₁], hunused⟩ hq⟩

theorem Gains.becomeEmpty (i : Nat) : Gains i (becomeEmpty refuses i) :=
  Gains.after_idle (Silent.modifyObject i fun _ => rfl) fun _ =>
    Gains.newBuffer i 1 fun _ => Silent.store _ _ _

theorem Gains.allocate (i n : Nat) : Gains i (allocate refuses i n) :=
  Gains.after_idle (Silent.modifyObject i fun _ => rfl) fun _ =>
    Gains.newBuffer i _ fun _ => Silent.pure _

/-! ## Constructors and destructor -/

/-- The program builds a new object with a new buffer. -/
def Builds (m : StrProg Nat) : Prop :=
  ∀ s, Avoids Fault.badDelete m s fun _ s' => ∃ k c,
    owner Fields.buffer_ s k = none ∧ Acquires s s' k c

/-- A constructor: members are initialised in the new object. -/
theorem Builds.of_gains {rest : Nat → StrProg Nat} (hrest : ∀ this, Gains this (rest this)) :
    Builds (newObject ⟨0, none⟩ >>= rest) := by
  intro s
  refine (newObject_avoids Fields.buffer_ _ s).bind fun k s₁ h₁ => ?_
  obtain ⟨hnone, howner₁, hledger₁⟩ := h₁
  refine (hrest k s₁).mono fun _ s' h => ?_
  obtain ⟨c, howner, hledger, hunused⟩ := h
  refine ⟨k, c, hnone, ?_, ?_, ?_⟩
  · rw [howner, howner₁, Function.update_idem]
  · rw [hledger, hledger₁]
  · rwa [hledger₁] at hunused

theorem default_builds : Builds (default refuses) :=
  Builds.of_gains fun this => (Gains.becomeEmpty this).then_idle fun _ => Silent.pure _

theorem copyConstruct_builds (str : Nat) : Builds (copyConstruct refuses str) :=
  Builds.of_gains fun this => Gains.after_idle (Silent.object str) fun _ =>
    (Gains.allocate this _).then_idle fun _ => (Idle.strcpy _ _).bind fun _ => Silent.pure _

theorem substring_builds (str pos len : Nat) : Builds (substring refuses str pos len) :=
  Builds.of_gains fun this => Gains.after_idle (Silent.object str) fun _ =>
    Gains.ite ((Gains.becomeEmpty this).then_idle fun _ => Silent.pure _)
      ((Gains.allocate this _).then_idle fun _ => (Silent.forUp (fun _ =>
        (Silent.load _ _).bind fun _ => Silent.store _ _ _) 0 _).bind fun _ =>
          (Silent.store _ _ _).bind fun _ => Silent.pure _)

theorem ofCString_builds (p : CPtr) : Builds (ofCString refuses p) :=
  Builds.of_gains fun this => Gains.after_idle (Idle.strlen p) fun _ =>
    (Gains.allocate this _).then_idle fun _ => (Idle.strcpy _ _).bind fun _ => Silent.pure _

theorem ofCStringN_builds (p : CPtr) (n : Nat) : Builds (ofCStringN refuses p n) :=
  Builds.of_gains fun this => Gains.after_idle (Idle.strlen p) fun _ =>
    Gains.ite
      ((Gains.allocate this _).then_idle fun _ => (Idle.strcpy _ _).bind fun _ => Silent.pure _)
      ((Gains.allocate this _).then_idle fun _ =>
        (Idle.strncpy _ _ _).bind fun _ => Silent.pure _)

theorem ofChar_builds (n : Nat) (ch : UInt8) : Builds (ofChar refuses n ch) :=
  Builds.of_gains fun this => (Gains.allocate this _).then_idle fun _ =>
    (Idle.writeSlots _ _ _).bind fun _ => Silent.pure _

/-- From a settled state, every way the program returns leads to a settled state. -/
def Settles (m : StrProg β) (s : Store Fields (Option UInt8)) : Prop :=
  Avoids Fault.badDelete m s fun _ s' => Settled s'

theorem Quiet.settled (hq : Quiet Fields.buffer_ s s') (h : Settled s) : Settled s' := by
  rw [Settled, hq.1, hq.2]
  exact h

theorem Idle.settles {m : StrProg β} (hm : Idle m) (h : Settled s) : Settles m s :=
  (hm s).mono fun _ _ hq => Quiet.settled hq h

theorem Settles.bind {m : StrProg β} {f : β → StrProg γ} (hm : Settles m s)
    (hf : ∀ a s', Settled s' → Settles (f a) s') : Settles (m >>= f) s :=
  Avoids.bind hm hf

theorem Builds.settles {m : StrProg Nat} (hm : Builds m) (h : Settled s) : Settles m s :=
  (hm s).mono fun _ s' hbuilt => by
    obtain ⟨k, c, hnone, hacq⟩ := hbuilt
    rw [Settled, hacq.owner, hacq.ledger]
    exact h.add hnone hacq.unused

/-- In a settled state every string points to a live buffer. -/
theorem Balanced.buffer (h : Settled s) {o : Fields} (ho : s.objects.entry i = some o) :
    ∃ b, o.buffer_ = some b ∧ owner Fields.buffer_ s i = some (some b) ∧ Live s.heap.ledger b := by
  have howner : owner Fields.buffer_ s i = some o.buffer_ := by
    rw [owner, ho, Option.map_some]
  obtain ⟨b, hb⟩ := h.owns i o.buffer_ howner
  rw [hb] at howner
  exact ⟨b, hb, howner, (h.live b).2 ⟨i, howner⟩⟩

theorem destroy_settles (h : Settled s) : Settles (destroy i) s := by
  refine Avoids.after_object (by decide) fun o ho => ?_
  obtain ⟨b, hb, howner, hlive⟩ := Balanced.buffer h ho
  rw [hb]
  refine (deleteArray_avoids s hlive).bind fun _ s₁ hdel => ?_
  obtain ⟨hobjects, hledger⟩ := hdel
  refine (dropObject_avoids Fields.buffer_ i s₁).mono fun _ s₂ hdrop => ?_
  obtain ⟨howner₂, hledger₂⟩ := hdrop
  have hsame : owner Fields.buffer_ s₁ = owner Fields.buffer_ s := owner_congr hobjects
  rw [Settled, howner₂, hledger₂, hsame, hledger]
  exact h.erase howner

/-! ## Modifiers -/

/-- `if (cond) delete [] buffer_;` and a new buffer: the ledger stays balanced exactly when the old
    buffer was released. -/
theorem reallocate_settled (h : Settled s) {o : Fields} (ho : s.objects.entry i = some o)
    (cond : Prop) [Decidable cond] {rest : Unit → StrProg Unit} (hrest : ∀ u, Gains i (rest u)) :
    Avoids Fault.badDelete (onlyIf cond (deleteArray o.buffer_) >>= rest) s fun _ s' =>
      (Settled s' ↔ cond) := by
  obtain ⟨b, hb, howner, hlive⟩ := Balanced.buffer h ho
  by_cases hc : cond
  · rw [onlyIf_pos hc, hb]
    refine (deleteArray_avoids s hlive).bind fun u s₁ hdel => ?_
    obtain ⟨hobjects, hledger⟩ := hdel
    refine (hrest u s₁).mono fun _ s' hacq => iff_of_true ?_ hc
    obtain ⟨c, hacq⟩ := hacq
    have hsame : owner Fields.buffer_ s₁ = owner Fields.buffer_ s := owner_congr hobjects
    have hunused := hacq.unused
    rw [hledger] at hunused
    rw [Settled, hacq.owner, hacq.ledger, hsame, hledger]
    exact h.replace howner hunused
  · rw [onlyIf_neg hc]
    refine Avoids.bind (R := fun _ s₁ => s₁ = s) (Avoids.of_returns (Returns.pure () s) rfl)
      fun u s₁ hs₁ => ?_
    subst hs₁
    refine (hrest u s₁).mono fun _ s' hacq => iff_of_false ?_ hc
    obtain ⟨c, hacq⟩ := hacq
    rw [Settled, hacq.owner, hacq.ledger]
    exact h.not_leak howner hacq.unused

/-- The overloads of `operator+=` write the new buffer before they release the old one. -/
theorem concatenate_settles (h : Settled s) {argument : StrProg CPtr} (harg : Idle argument) :
    Settles (concatenate refuses i argument) s := by
  refine Avoids.after_object (by decide) fun o ho => ?_
  obtain ⟨b, hb, howner, hlive⟩ := Balanced.buffer h ho
  rw [hb]
  refine (newArray_avoids Fields.buffer_ _ _ s).bind fun c s₁ hnew => ?_
  obtain ⟨howner₁, hledger₁, hunused⟩ := hnew
  refine (Idle.strcpy _ _ s₁).bind fun _ s₂ hq₂ => (harg s₂).bind fun p s₃ hq₃ =>
    (Idle.strcat _ p s₃).bind fun _ s₄ hq₄ => ?_
  obtain ⟨howner₄, hledger₄⟩ := Quiet.trans _ _ _ hq₂ (Quiet.trans _ _ _ hq₃ hq₄)
  have hunused' : Unused (.released b :: s.heap.ledger) c := by
    refine ⟨by simpa using hunused.1, ?_⟩
    rw [List.mem_cons, Event.released.injEq]
    rintro (rfl | hr)
    · exact hunused.1 hlive.1
    · exact hunused.2 hr
  have hlive₄ : Live s₄.heap.ledger b := by
    rw [hledger₄, hledger₁]
    exact ⟨List.mem_cons_of_mem _ hlive.1, by simpa using hlive.2⟩
  refine (deleteArray_avoids s₄ hlive₄).bind fun _ s₅ hdel => ?_
  obtain ⟨hobjects, hledger₅⟩ := hdel
  refine (modifyObject_avoids Fields.buffer_ i _ s₅).mono fun _ s₆ hmod => ?_
  obtain ⟨o', _, howner₆, hledger₆⟩ := hmod
  have hsame : owner Fields.buffer_ s₅ = owner Fields.buffer_ s :=
    (owner_congr hobjects).trans (howner₄.trans howner₁)
  rw [Settled, howner₆, hledger₆, hsame, hledger₅, hledger₄, hledger₁]
  exact (h.replace howner hunused').perm (List.Perm.swap _ _ _)

theorem append_settles (h : Settled s) (str : Nat) : Settles (append refuses i str) s := by
  refine Settles.bind (Idle.settles (Silent.object str) h) fun w s₁ h₁ => ?_
  refine Settles.bind (Idle.settles (Silent.modifyObject i ?_) h₁) fun _ s₂ h₂ =>
    concatenate_settles h₂ (Idle.c_str str)
  exact fun _ => rfl

theorem appendCString_settles (h : Settled s) (p : CPtr) :
    Settles (appendCString refuses i p) s := by
  refine Settles.bind (Idle.settles (Idle.strlen p) h) fun n s₁ h₁ => ?_
  refine Settles.bind (Idle.settles (Silent.modifyObject i ?_) h₁) fun _ s₂ h₂ =>
    concatenate_settles h₂ (Silent.pure p)
  exact fun _ => rfl

/-- The overloads of `operator +` build their result and append to it. -/
theorem appended_settles (h : Settled s) {build : StrProg Nat} {extend : Nat → StrProg Unit}
    (hbuild : Builds build) (hextend : ∀ {s₁} str, Settled s₁ → Settles (extend str) s₁) :
    Settles (do
      let str ← build
      extend str
      return str) s :=
  (hbuild.settles h).bind fun str _ h₁ => (hextend str h₁).bind fun _ _ h₂ => Avoids.pure h₂

/-! ## Runs -/

/-- The assignment releases the target's old buffer. -/
def Op.Releases (s : Store Fields (Option UInt8)) : Op → Prop
  | .assign i _ | .assignCString i _ => ∀ o, s.objects.entry i = some o → o.size_ ≠ 0
  | .assignChar i _ => ∀ o, s.objects.entry i = some o → o.size_ ≠ 1
  | _ => True

theorem Settles.keeps {m : StrProg β} (hm : Settles m s) {cond : Prop} (hc : cond) :
    Avoids Fault.badDelete m s fun _ s' => (Settled s' ↔ cond) :=
  Avoids.mono hm fun _ _ h' => iff_of_true h' hc

/-- An assignment: the target's fields, the release of its buffer under a condition on its size, and
    a new buffer. -/
theorem assignment_settled (h : Settled s) (cond : Nat → Prop) [DecidablePred cond]
    {rest : Unit → StrProg Unit} (hrest : ∀ u, Gains i (rest u)) :
    Avoids Fault.badDelete (object i >>= fun v =>
        onlyIf (cond v.size_) (deleteArray v.buffer_) >>= rest) s
      fun _ s' => (Settled s' ↔ ∀ o, s.objects.entry i = some o → cond o.size_) := by
  refine Avoids.after_object (by decide) fun o ho => ?_
  refine (reallocate_settled h ho _ hrest).mono fun _ s' hiff => ?_
  rw [hiff]
  constructor
  · intro hc o' ho'
    rw [ho, Option.some.injEq] at ho'
    rwa [← ho']
  · intro hall
    exact hall o ho

/-- **One statement and the ledger.** No statement releases a buffer twice, and it keeps the ledger
    balanced exactly when, as an assignment, it releases the target's old buffer. -/
theorem run_settled (h : Settled s) (op : Op) :
    Avoids Fault.badDelete (op.run refuses) s fun _ s' => (Settled s' ↔ op.Releases s) := by
  have hignore : ∀ {m : StrProg Nat} {s₁}, Settles m s₁ → Settles (do let _ ← m) s₁ := fun hm =>
    hm.bind fun _ _ h₁ => Avoids.pure h₁
  cases op with
  | default => exact (hignore (default_builds.settles h)).keeps trivial
  | copy j =>
      exact ((Idle.settles (Silent.object j) h).bind fun _ _ h₁ =>
        hignore ((copyConstruct_builds j).settles h₁)).keeps trivial
  | substring j pos len =>
      exact ((Idle.settles (Silent.object j) h).bind fun _ _ h₁ =>
        hignore ((substring_builds j pos len).settles h₁)).keeps trivial
  | ofCString p =>
      exact ((Idle.settles (Idle.ptr p) h).bind fun q _ h₁ =>
        hignore ((ofCString_builds q).settles h₁)).keeps trivial
  | ofCStringN p n =>
      exact ((Idle.settles (Idle.ptr p) h).bind fun q _ h₁ =>
        hignore ((ofCStringN_builds q n).settles h₁)).keeps trivial
  | ofChar n ch => exact (hignore ((ofChar_builds n ch).settles h)).keeps trivial
  | destroy i => exact (destroy_settles h).keeps trivial
  | assign i j =>
      exact assignment_settled h (· ≠ 0) fun _ => Gains.after_idle (Silent.object j) fun _ =>
        (Gains.allocate i _).then_idle fun _ => (Idle.c_str j).bind fun _ => Idle.strcpy _ _
  | assignCString i p =>
      refine Avoids.after_reads (ptr_reads (by decide) p) fun q => ?_
      exact assignment_settled h (· ≠ 0) fun _ => Gains.after_idle (Idle.strlen q) fun _ =>
        (Gains.allocate i _).then_idle fun _ => Idle.strcpy _ _
  | assignChar i ch =>
      exact assignment_settled h (· ≠ 1) fun _ => (Gains.allocate i 1).then_idle fun _ =>
        (Silent.store _ _ _).bind fun _ => Silent.store _ _ _
  | append i j => exact (append_settles h j).keeps trivial
  | appendCString i p =>
      exact ((Idle.settles (Idle.ptr p) h).bind fun q _ h₁ =>
        appendCString_settles h₁ q).keeps trivial
  | clear i =>
      refine Avoids.after_object (by decide) fun o ho => ?_
      have hgains : ∀ _ : Unit, Gains i (becomeEmpty refuses i) := fun _ => Gains.becomeEmpty i
      have hall := reallocate_settled h ho True hgains
      rw [onlyIf_pos trivial] at hall
      exact hall
  | set i k ch =>
      exact (Idle.settles ((Silent.object i).bind fun _ => Silent.store _ _ _) h).keeps trivial
  | plus i j =>
      exact ((Idle.settles (Silent.object i) h).bind fun _ _ h₁ =>
        (Idle.settles (Silent.object j) h₁).bind fun _ _ h₂ =>
          hignore (appended_settles h₂ (copyConstruct_builds i) fun _ h₃ =>
            append_settles h₃ j)).keeps trivial
  | plusCString i p =>
      exact ((Idle.settles (Silent.object i) h).bind fun _ _ h₁ =>
        (Idle.settles (Idle.ptr p) h₁).bind fun q _ h₂ =>
          hignore (appended_settles h₂ (copyConstruct_builds i) fun _ h₃ =>
            appendCString_settles h₃ q)).keeps trivial
  | cstringPlus p j =>
      exact ((Idle.settles (Idle.ptr p) h).bind fun q _ h₁ =>
        (Idle.settles (Silent.object j) h₁).bind fun _ _ h₂ =>
          hignore (appended_settles h₂ (ofCString_builds q) fun _ h₃ =>
            append_settles h₃ j)).keeps trivial

/-- **The ledger over whole runs.** As long as every assignment releases the target's old buffer, the
    ledger is balanced in every state reached; no further statement releases a buffer twice, and it
    keeps the ledger balanced exactly when it releases the old buffer as well. -/
theorem reachable_settled (hreach : Reach (Op.run refuses) Op.Releases Store.empty s) :
    Settled s ∧ ∀ op : Op, ¬ Fails (op.run refuses) s .badDelete ∧
      ∀ s', Returns (op.run refuses) s () s' → (Settled s' ↔ op.Releases s) := by
  have hinv : Settled s := by
    refine hreach.invariant Balanced.empty ?_
    intro s₁ s₂ op h hop hret
    exact ((run_settled h op).ensures () s₂ hret).2 hop
  exact ⟨hinv, fun op => ⟨(run_settled hinv op).not_fails, (run_settled hinv op).ensures ()⟩⟩

/-- `string s("hi"); s = "x"; s += s; s = 'c';` -/
theorem reachable_settled_hi : ∃ s, Reach (Op.run fun _ => false) Op.Releases Store.empty s ∧
    Settled s ∧ s.heap.ledger.length = 7 := by
  have hruns : ∃ s₁ s₂ s₃ s₄,
      Returns (Op.run (fun _ => false) (.ofCString (.literal [104, 105]))) Store.empty () s₁ ∧
      Returns (Op.run (fun _ => false) (.assignCString 0 (.literal [120]))) s₁ () s₂ ∧
      Op.Releases s₁ (.assignCString 0 (.literal [120])) ∧
      Returns (Op.run (fun _ => false) (.append 0 0)) s₂ () s₃ ∧
      Returns (Op.run (fun _ => false) (.assignChar 0 99)) s₃ () s₄ ∧
      Op.Releases s₃ (.assignChar 0 99) ∧ s₄.heap.ledger.length = 7 := by
    refine ⟨_, _, _, _, rfl, rfl, ?_, rfl, rfl, ?_, rfl⟩
    · intro o ho
      cases ho
      decide
    · intro o ho
      cases ho
      decide
  obtain ⟨s₁, s₂, s₃, s₄, h₁, h₂, hr₂, h₃, h₄, hr₄, hlen⟩ := hruns
  have hreach := (((Reach.start.next (by trivial) h₁).next hr₂ h₂).next (by trivial) h₃).next hr₄ h₄
  exact ⟨s₄, hreach, (reachable_settled hreach).1, hlen⟩

/-- `string s; s = "ab";` and `string s("a"); s = 'b';` lose the first buffer. -/
theorem buffer_lost :
    (∃ s, Returns (runAll (Op.run fun _ => false)
        [.default, .assignCString 0 (.literal [97, 98])]) Store.empty () s ∧
      Live s.heap.ledger 0 ∧ ∀ i o, s.objects.entry i = some o → o.buffer_ ≠ some 0) ∧
    ∃ s, Returns (runAll (Op.run fun _ => false)
        [.ofCString (.literal [97]), .assignChar 0 98]) Store.empty () s ∧
      Live s.heap.ledger 0 ∧ ∀ i o, s.objects.entry i = some o → o.buffer_ ≠ some 0 := by
  refine ⟨⟨_, rfl, ⟨by decide, by decide⟩, ?_⟩, ⟨_, rfl, ⟨by decide, by decide⟩, ?_⟩⟩
  · rintro (_ | i) o ho
    · cases ho
      decide
    · cases ho
  · rintro (_ | i) o ho
    · cases ho
      decide
    · cases ho

end LinuxSamples.FbcString
