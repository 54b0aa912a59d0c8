import LinuxSamples.Stl.VectorClass
import LinuxSamples.Stl.StringElements
import LinuxSamples.Stl.VectorElements
import LinuxSamples.Stl.StringCorrect

set_option autoImplicit false

/-! # `fbcstd::vector<fbcstd::string>`

`string` is a lawful class as long as its objects hold texts and none is assigned to itself. So vectors of
strings, and vectors of vectors of strings, do what vectors of plain values do; and every string that there
is belongs to one slot of one vector. -/

namespace LinuxSamples.StringClass

open LinuxSamples.Program LinuxSamples.Memory LinuxSamples.ClassVector
open LinuxSamples.Vector (Access Arg Cells Element Op)

variable {P : Platform Nat} {refuses : Nat → Bool}

/-! ## The class is lawful -/

/-- The strings hold these texts. -/
def ShowsTexts (s : Strings) (G : Table Text) : Prop :=
  ∃ F, Represents FbcString.model s F ∧ Agree Text.bytes id G F

theorem ShowsTexts.empty : ShowsTexts Store.empty Table.empty :=
  ⟨Table.empty, Represents.empty, Agree.empty⟩

theorem ShowsTexts.gone {t : Strings} {G : Table Text} (h : ShowsTexts t G)
    (hG : ∀ e, G.entry e = none) (e : Nat) : t.objects.entry e = none := by
  obtain ⟨F, hstrings, hagree⟩ := h
  refine hstrings.lookup_none ?_
  have hentry := hagree.entry e
  rw [hG e, Option.map_none, Option.map_id] at hentry
  exact hentry.symm

theorem ShowsTexts.bytesAt {t : Strings} {G : Table Text} (h : ShowsTexts t G) {e : Nat} {x : Text}
    (he : G.entry e = some x) : FbcString.bytesAt t e = some x.bytes := by
  obtain ⟨F, hstrings, hagree⟩ := h
  obtain ⟨bs, hbs, rfl⟩ := hagree.lookup he
  rw [FbcString.bytesAt_eq hstrings, hbs]

theorem stringClass_lawful (hg : FbcString.Generous refuses) :
    Lawful (stringClass refuses) Text.empty False ShowsTexts where
  construct := by
    rintro s G ⟨F, h, hagree⟩
    obtain ⟨s', hret, h'⟩ := FbcString.default_spec hg h
    rw [← hagree.next] at hret
    exact ⟨s', hret, _, h', hagree.add rfl⟩
  make := by
    rintro s G x ⟨F, h, hagree⟩
    have hread := readString_external (s := s) x.bytes
    rw [cstring_of_textual x.textual] at hread
    obtain ⟨s', hret, h'⟩ := FbcString.ofCString_spec hg h hread x.fits
    rw [← hagree.next] at hret
    exact ⟨s', hret, _, h', hagree.add rfl⟩
  copyConstruct := by
    rintro s G i x ⟨F, h, hagree⟩ hi
    obtain ⟨bs, hbs, rfl⟩ := hagree.lookup hi
    obtain ⟨s', hret, h'⟩ := FbcString.copyConstruct_spec hg h hbs x.textual
    rw [← hagree.next] at hret
    exact ⟨s', hret, _, h', hagree.add rfl⟩
  assign := by
    rintro s G i j x y ⟨F, h, hagree⟩ hi hj hself
    obtain ⟨bs, hbs, _⟩ := hagree.lookup hi
    obtain ⟨cs, hcs, rfl⟩ := hagree.lookup hj
    obtain ⟨s', hret, h'⟩ := FbcString.assign_spec hg h hbs hcs hself x.textual
    exact ⟨s', hret, _, h', hagree.set hi rfl⟩
  destroy := by
    rintro s G i x ⟨F, h, hagree⟩ hi
    obtain ⟨bs, hbs, _⟩ := hagree.lookup hi
    obtain ⟨s', hret, h'⟩ := FbcString.destroy_spec h hbs
    exact ⟨s', hret, _, h', hagree.erase i⟩

/-! ## Vectors of strings -/

/-- The vectors hold the texts of `F`. All strings are in their slots, each in one, and all arrays of
    slots are their buffers. -/
structure Displays (σ : State Strings) (F : Table (Cells Text)) : Prop where
  alive : ∀ i, (σ.1.objects.entry i).isSome ↔ (F.entry i).isSome
  vectors : ∀ i c, F.entry i = some c → ∃ o, σ.1.objects.entry i = some o ∧
    o.size_ = c.elems.length ∧ o.capacity_ = c.capacity ∧
    (Vector.elements σ.1 o).map (FbcString.bytesAt σ.2) = c.elems.map fun x => some x.bytes
  strings : ∀ e, (σ.2.objects.entry e).isSome ↔ ∃ i k, InSlot σ.1 i k e
  apart : ∀ i j k l e, InSlot σ.1 i k e → InSlot σ.1 j l e → i = j ∧ k = l
  arrays : ∀ b, (σ.1.heap.array b).isSome ↔
    ∃ i o, σ.1.objects.entry i = some o ∧ o.buffer_ = some b

theorem displays_of_nests {σ : State Strings} {F : Table (Cells Text)} {G : Table Text}
    (h : Nests ShowsTexts σ F G) : Displays σ F := by
  obtain ⟨s, t⟩ := σ
  obtain ⟨F', hstrings, hagree⟩ := h.objects
  have hbytes : ∀ {e x}, G.entry e = some x → FbcString.bytesAt t e = some x.bytes := by
    intro e x he
    obtain ⟨bs, hbs, rfl⟩ := hagree.lookup he
    rw [FbcString.bytesAt_eq hstrings, hbs]
  refine ⟨fun i => ?_, fun i c hi => ?_, fun e => ⟨fun he => ?_, fun he => ?_⟩, h.apart,
    fun b => ⟨fun hb => ?_, fun hb => ?_⟩⟩
  · cases hi : F.entry i with
    | none =>
        have hnone : (blanks F).entry i = none := by rw [blanks_entry, hi, Option.map_none]
        rw [h.vectors.lookup_none hnone]
        rfl
    | some c =>
        obtain ⟨o, ids, hrow⟩ := h.holding i c hi
        rw [hrow.entry]
        rfl
  · obtain ⟨o, ids, hrow⟩ := h.holding i c hi
    refine ⟨o, hrow.entry, hrow.size, h.capacity hi hrow.entry, ?_⟩
    rw [Vector.elements, Vector.slotsOf_eq hrow.buffer, hrow.size, ← List.forall₂_eq_eq_eq,
      List.forall₂_map_left_iff, List.forall₂_map_right_iff]
    exact hrow.fills.forall₂.imp fun _ _ => h.objects.bytesAt
  · obtain ⟨o, ho⟩ := Option.isSome_iff_exists.1 he
    obtain ⟨bs, hbs, _⟩ := hstrings.value ho
    have hentry := hagree.entry e
    rw [hbs, Option.map_some] at hentry
    obtain ⟨x, hx, _⟩ := Option.map_eq_some_iff.1 hentry
    exact h.placed e x hx
  · obtain ⟨i, k, hslot⟩ := he
    obtain ⟨x, hx⟩ := h.alive hslot
    obtain ⟨bs, hbs, _⟩ := hagree.lookup hx
    obtain ⟨o, ho, _⟩ := hstrings.lookup hbs
    rw [ho]
    rfl
  · obtain ⟨slots, hslots⟩ := Option.isSome_iff_exists.1 hb
    obtain ⟨i, o, ho, hbuf⟩ := h.arrays b slots hslots
    exact ⟨i, o, ho, hbuf⟩
  · obtain ⟨i, o, ho, hbuf⟩ := hb
    obtain ⟨slots, hslots⟩ := h.vectors.live ⟨o, ho, hbuf⟩
    rw [hslots]
    rfl

/-- **Vectors of strings** go through every run that vectors of plain texts go through, unless a string is
    assigned to itself or a `reserve` loses elements. They end up with the same texts and capacities; no
    string is in two places, and none is left over, nor is an array of them. -/
theorem vectors_of_strings (hP : P.Generous) (hg : FbcString.Generous refuses) (E : Element Text)
    {ops : List (Op Text)} {F : Table (Cells Text)}
    (hops : Passes (InScope Text.empty False) (Vector.step E) Table.empty ops F) :
    ∃ σ, Returns (runAll (run P (stringClass refuses)) ops) (Store.empty, Store.empty) () σ ∧
      Displays σ F ∧
      ((∀ i, F.entry i = none) →
        (∀ e, σ.2.objects.entry e = none) ∧ ∀ b, σ.1.heap.array b = none) := by
  obtain ⟨σ, hret, G, h⟩ := runs_nest (stringClass_lawful hg) hP False.elim
    (Nests.empty ShowsTexts.empty) hops
  refine ⟨σ, hret, displays_of_nests h, fun hF => ?_⟩
  obtain ⟨_, harrays, hobjects⟩ := h.gone hF
  exact ⟨h.objects.gone hobjects, harrays⟩

/-- A copy that grows with an element of the original, which is then destroyed. -/
theorem vectors_of_strings_copy : ∃ σ F,
    Returns (runAll (run (Platform.zeroed 0) (stringClass fun _ => false))
      [.default, .pushBack 0 (.value ⟨[97, 98], by decide, by decide⟩), .copy 0,
        .resize 1 3 (.element 0 .front), .write 1 .back (.value ⟨[99], by decide, by decide⟩),
        .destroy 0]) (Store.empty, Store.empty) () σ ∧
    F.entry 0 = none ∧
    (F.entry 1).map (fun c => c.elems.map Text.bytes) = some [[97, 98], [97, 98], [99]] ∧
    Displays σ F := by
  let E : Element Text :=
    ⟨fun _ x => x, id, Text.empty, fun x y => decide (x ≠ y), fun x y => decide (y.bytes < x.bytes)⟩
  have hops : Passes (InScope Text.empty False) (Vector.step E) Table.empty
      [.default, .pushBack 0 (.value ⟨[97, 98], by decide, by decide⟩), .copy 0,
        .resize 1 3 (.element 0 .front), .write 1 .back (.value ⟨[99], by decide, by decide⟩),
        .destroy 0] _ :=
    ⟨_, trivial, rfl, _, trivial, rfl, _, trivial, rfl, _, trivial, rfl,
      _, fun _ _ _ _ _ hval => (by cases hval), rfl, _, trivial, rfl, rfl⟩
  obtain ⟨σ, hret, hdisplays, _⟩ := vectors_of_strings (Platform.zeroed_generous 0)
    (fun _ => rfl : FbcString.Generous fun _ => false) E hops
  exact ⟨σ, _, hret, rfl, rfl, hdisplays⟩

/-- Two vectors of vectors of strings. -/
theorem runs_nest_deep_strings : ∃ σ,
    Returns (runAll (run (Platform.zeroed 0)
        (nested (fun _ => Platform.zeroed 0) (stringClass fun _ => false) 1))
      [.default, .pushBack 0 (.value ⟨[⟨[97, 98], by decide, by decide⟩, Text.empty], by decide⟩),
        .copy 0, .pushBack 1 (.element 0 .back), .destroy 0])
      (Store.empty, nestedEmpty Store.empty 1) () σ ∧
    shown FbcString.bytesAt 2 σ 1 = some [[[97, 98], []], [[97, 98], []]] := by
  let E : Element (Elems Text) :=
    ⟨fun _ x => x, id, Elems.empty, fun x y => decide (x.1 ≠ y.1),
      fun x y => decide (y.1.map Text.bytes < x.1.map Text.bytes)⟩
  have hops : Passes (InScope (nestedInitial Text.empty 1) False) (Vector.step E) Table.empty
      [.default, .pushBack 0 (.value ⟨[⟨[97, 98], by decide, by decide⟩, Text.empty], by decide⟩),
        .copy 0, .pushBack 1 (.element 0 .back), .destroy 0] _ :=
    ⟨_, trivial, rfl, _, trivial, rfl, _, trivial, rfl, _, trivial, rfl, _, trivial, rfl, rfl⟩
  have hread : ∀ t G e x, ShowsTexts t G → G.entry e = some x →
      FbcString.bytesAt t e = some (Text.bytes x) := fun _ _ _ _ h => h.bytesAt
  obtain ⟨σ, hret, hshown, _⟩ := runs_nest_deep (stringClass_lawful fun _ => rfl)
    (fun _ => Platform.zeroed_generous 0) hread (fun _ _ => ShowsTexts.gone) ShowsTexts.empty 1
    False.elim hops
  exact ⟨σ, hret, hshown 1 _ rfl⟩

end LinuxSamples.StringClass
