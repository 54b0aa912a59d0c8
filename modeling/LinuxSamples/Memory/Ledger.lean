import LinuxSamples.Memory.Faults

set_option autoImplicit false

/-! # The ledger of a family of objects

Every allocation and every release is a line of the heap's ledger. `Balanced` compares the ledger
with the pointers of the objects that are alive: the arrays allocated and not released are those the
objects point to, one each, and no line occurs twice. The primitive steps of a program have one rule
each that says which line they write. -/

namespace LinuxSamples.Memory

open LinuxSamples.Program

variable {α Obj : Type}

/-! ## Balanced ledgers -/

/-- Array `b` was allocated and has not been released. -/
def Live (ledger : List Event) (b : Nat) : Prop :=
  .allocated b ∈ ledger ∧ .released b ∉ ledger

/-- The ledger has no line about array `b`. -/
def Unused (ledger : List Event) (b : Nat) : Prop :=
  .allocated b ∉ ledger ∧ .released b ∉ ledger

/-- Which array each object points to. -/
abbrev Owners : Type := Nat → Option (Option Nat)

/-- Every object points to an array of its own, these arrays are exactly the live ones, and no array
    was allocated or released twice. -/
structure Balanced (owner : Owners) (ledger : List Event) : Prop where
  owns : ∀ i p, owner i = some p → ∃ b, p = some b
  separate : ∀ i j b, owner i = some (some b) → owner j = some (some b) → i = j
  live : ∀ b, Live ledger b ↔ ∃ i, owner i = some (some b)
  once : ledger.Nodup

section Balanced

variable {owner : Owners} {ledger ledger' : List Event} {i b c : Nat}

theorem Balanced.empty : Balanced (fun _ => none) [] where
  owns _ _ h := by cases h
  separate _ _ _ h := by cases h
  live b := by simp [Live]
  once := List.nodup_nil

/-- The order of the lines does not matter. -/
theorem Balanced.perm (h : Balanced owner ledger) (hp : ledger.Perm ledger') :
    Balanced owner ledger' where
  owns := h.owns
  separate := h.separate
  live b := by
    rw [← h.live b, Live, Live, hp.mem_iff, hp.mem_iff]
  once := hp.nodup_iff.1 h.once

theorem Balanced.unowned (h : Balanced owner ledger) (hc : Unused ledger c) (j : Nat) :
    owner j ≠ some (some c) := fun hj => hc.1 ((h.live c).2 ⟨j, hj⟩).1

/-- An object is built with an array of its own. -/
theorem Balanced.add (h : Balanced owner ledger) (hi : owner i = none) (hc : Unused ledger c) :
    Balanced (Function.update owner i (some (some c))) (.allocated c :: ledger) where
  owns j p hj := by
    by_cases hji : j = i
    · subst hji
      rw [Function.update_self] at hj
      exact ⟨c, (Option.some.inj hj).symm⟩
    · rw [Function.update_of_ne hji] at hj
      exact h.owns j p hj
  separate j k d hj hk := by
    have hd : ∀ l, l ≠ i → Function.update owner i (some (some c)) l = some (some d) → d ≠ c := by
      rintro l hl hown rfl
      rw [Function.update_of_ne hl] at hown
      exact h.unowned hc l hown
    by_cases hji : j = i <;> by_cases hki : k = i
    · rw [hji, hki]
    · subst hji
      rw [Function.update_self, Option.some.injEq, Option.some.injEq] at hj
      exact absurd hj.symm (hd k hki hk)
    · subst hki
      rw [Function.update_self, Option.some.injEq, Option.some.injEq] at hk
      exact absurd hk.symm (hd j hji hj)
    · rw [Function.update_of_ne hji] at hj
      rw [Function.update_of_ne hki] at hk
      exact h.separate j k d hj hk
  live d := by
    have hlive : Live (.allocated c :: ledger) d ↔ d = c ∨ Live ledger d := by
      simp only [Live, List.mem_cons, Event.allocated.injEq, reduceCtorEq, false_or]
      constructor
      · rintro ⟨rfl | hd, hr⟩
        · exact Or.inl rfl
        · exact Or.inr ⟨hd, hr⟩
      · rintro (rfl | ⟨hd, hr⟩)
        · exact ⟨Or.inl rfl, hc.2⟩
        · exact ⟨Or.inr hd, hr⟩
    rw [hlive, h.live d]
    constructor
    · rintro (rfl | ⟨j, hj⟩)
      · exact ⟨i, Function.update_self ..⟩
      · have hji : j ≠ i := by
          rintro rfl
          rw [hi] at hj
          cases hj
        exact ⟨j, by rw [Function.update_of_ne hji, hj]⟩
    · rintro ⟨j, hj⟩
      by_cases hji : j = i
      · subst hji
        rw [Function.update_self, Option.some.injEq, Option.some.injEq] at hj
        exact Or.inl hj.symm
      · rw [Function.update_of_ne hji] at hj
        exact Or.inr ⟨j, hj⟩
  once := List.nodup_cons.2 ⟨hc.1, h.once⟩

/-- An object is destroyed and its array released. -/
theorem Balanced.erase (h : Balanced owner ledger) (hi : owner i = some (some b)) :
    Balanced (Function.update owner i none) (.released b :: ledger) where
  owns j p hj := by
    by_cases hji : j = i
    · subst hji
      rw [Function.update_self] at hj
      cases hj
    · rw [Function.update_of_ne hji] at hj
      exact h.owns j p hj
  separate j k d hj hk := by
    have hold : ∀ l, Function.update owner i none l = some (some d) → owner l = some (some d) := by
      intro l hl
      by_cases hli : l = i
      · subst hli
        rw [Function.update_self] at hl
        cases hl
      · rwa [Function.update_of_ne hli] at hl
    exact h.separate j k d (hold j hj) (hold k hk)
  live d := by
    have hlive : Live (.released b :: ledger) d ↔ d ≠ b ∧ Live ledger d := by
      simp only [Live, List.mem_cons, Event.released.injEq, reduceCtorEq, false_or, not_or]
      tauto
    rw [hlive, h.live d]
    constructor
    · rintro ⟨hdb, j, hj⟩
      have hji : j ≠ i := by
        rintro rfl
        rw [hi, Option.some.injEq, Option.some.injEq] at hj
        exact hdb hj.symm
      exact ⟨j, by rw [Function.update_of_ne hji, hj]⟩
    · rintro ⟨j, hj⟩
      by_cases hji : j = i
      · subst hji
        rw [Function.update_self] at hj
        cases hj
      · rw [Function.update_of_ne hji] at hj
        refine ⟨?_, j, hj⟩
        rintro rfl
        exact hji (h.separate j i d hj hi)
  once := List.nodup_cons.2 ⟨((h.live b).2 ⟨i, hi⟩).2, h.once⟩

/-- An object trades its array for a new one. -/
theorem Balanced.replace (h : Balanced owner ledger) (hi : owner i = some (some b))
    (hc : Unused (.released b :: ledger) c) :
    Balanced (Function.update owner i (some (some c))) (.allocated c :: .released b :: ledger) := by
  have hadd := (h.erase hi).add (Function.update_self ..) hc
  rwa [Function.update_idem] at hadd

/-- An object that gets a new array and whose old one is not released leaves the old one live. -/
theorem Balanced.not_leak (h : Balanced owner ledger) (hi : owner i = some (some b))
    (hc : Unused ledger c) :
    ¬ Balanced (Function.update owner i (some (some c))) (.allocated c :: ledger) := by
  intro hnew
  obtain ⟨hb, hrb⟩ := (h.live b).2 ⟨i, hi⟩
  have hlive : Live (.allocated c :: ledger) b := ⟨List.mem_cons_of_mem _ hb, by simpa using hrb⟩
  obtain ⟨j, hj⟩ := (hnew.live b).1 hlive
  by_cases hji : j = i
  · subst hji
    rw [Function.update_self, Option.some.injEq, Option.some.injEq] at hj
    subst hj
    exact h.unowned hc j hi
  · rw [Function.update_of_ne hji] at hj
    exact hji (h.separate j i b hj hi)

end Balanced

/-! ## What each step writes -/

section Steps

variable (buffer : Obj → Option Nat)

/-- Which array each object of the store points to. -/
def owner (s : Store Obj α) : Owners := fun i => (s.objects.entry i).map buffer

/-- The objects point where they pointed, and nothing was allocated or released. -/
def Quiet (s s' : Store Obj α) : Prop :=
  owner buffer s' = owner buffer s ∧ s'.heap.ledger = s.heap.ledger

/-- A step that allocates and releases nothing, keeps every pointer and releases no array twice. -/
abbrev Silent {β : Type} (m : Prog Obj α β) : Prop := Within Fault.badDelete (Quiet buffer) m

variable {buffer} {β γ : Type} {s s' : Store Obj α} {i : Nat}

theorem Quiet.refl (s : Store Obj α) : Quiet buffer s s := ⟨rfl, rfl⟩

theorem Quiet.trans (s₁ s₂ s₃ : Store Obj α) (h₁ : Quiet buffer s₁ s₂) (h₂ : Quiet buffer s₂ s₃) :
    Quiet buffer s₁ s₃ :=
  ⟨h₂.1.trans h₁.1, h₂.2.trans h₁.2⟩

theorem Silent.pure (a : β) : Silent buffer (Pure.pure a : Prog Obj α β) := Within.pure Quiet.refl a

theorem Silent.bind {m : Prog Obj α β} {f : β → Prog Obj α γ} (hm : Silent buffer m)
    (hf : ∀ a, Silent buffer (f a)) : Silent buffer (m >>= f) := Within.bind Quiet.trans hm hf

theorem Silent.forUp {body : Nat → Prog Obj α Unit} (hbody : ∀ i, Silent buffer (body i))
    (lo count : Nat) : Silent buffer (forUp body lo count) :=
  Within.forUp Quiet.refl Quiet.trans hbody lo count

theorem owner_congr (h : s'.objects = s.objects) : owner buffer s' = owner buffer s := by
  funext i
  rw [owner, owner, h]

theorem Quiet.of_still (h : Still s s') : Quiet buffer s s' := ⟨owner_congr h.1, h.2⟩

/-- A step that only reads is silent. -/
theorem Silent.of_reads {m : Prog Obj α β} (hm : Reads Fault.badDelete m) : Silent buffer m :=
  hm.mono fun _ _ h => Quiet.of_still (Still.of_eq h)

theorem Silent.object (i : Nat) : Silent buffer (object i : Prog Obj α Obj) :=
  Silent.of_reads (Reads.object (by decide) i)

theorem Silent.load (p : Option Nat) (i : Nat) : Silent buffer (load p i : Prog Obj α α) :=
  Silent.of_reads (Reads.load (by decide) p i)

theorem Silent.store (p : Option Nat) (i : Nat) (x : α) :
    Silent buffer (store p i x : Prog Obj α Unit) :=
  (store_within (by decide) p i x).mono fun _ _ => Quiet.of_still

/-- What becomes of the pointers when the fields of object `i` change. -/
theorem owner_put (s : Store Obj α) {o : Obj} (ho : s.objects.entry i = some o) (o' : Obj) :
    owner buffer (s.put i o') = Function.update (owner buffer s) i (some (buffer o')) := by
  funext j
  rw [owner, Store.put_objects, Table.set_entry ho]
  by_cases hji : j = i
  · subst hji
    rw [Function.update_self, Function.update_self, Option.map_some]
  · rw [Function.update_of_ne hji, Function.update_of_ne hji, owner]

variable (buffer) in
/-- Changing the fields of object `i` changes at most its pointer. -/
theorem modifyObject_avoids (i : Nat) (f : Obj → Obj) (s : Store Obj α) :
    Avoids Fault.badDelete (modifyObject i f) s fun _ s' => ∃ o, s.objects.entry i = some o ∧
      owner buffer s' = Function.update (owner buffer s) i (some (buffer (f o))) ∧
      s'.heap.ledger = s.heap.ledger := by
  cases ho : s.objects.entry i with
  | none => exact Avoids.of_fails (modifyObject_fails ho f) (by decide)
  | some o =>
      exact Avoids.of_returns (modifyObject_returns ho f) ⟨o, rfl, owner_put s ho (f o), rfl⟩

theorem Silent.modifyObject (i : Nat) {f : Obj → Obj} (hf : ∀ o, buffer (f o) = buffer o) :
    Silent buffer (modifyObject i f : Prog Obj α Unit) := fun s =>
  (modifyObject_avoids buffer i f s).mono fun _ s' h => by
    obtain ⟨o, ho, howner, hledger⟩ := h
    have hsame : owner buffer s i = some (buffer (f o)) := by
      rw [owner, ho, hf, Option.map_some]
    exact ⟨by rw [howner, ← hsame, Function.update_eq_self], hledger⟩

variable (buffer) in
theorem newObject_avoids (o : Obj) (s : Store Obj α) :
    Avoids Fault.badDelete (newObject o) s fun i s' => owner buffer s i = none ∧
      owner buffer s' = Function.update (owner buffer s) i (some (buffer o)) ∧
      s'.heap.ledger = s.heap.ledger := by
  refine Avoids.of_returns (newObject_returns s o) ⟨?_, ?_, rfl⟩
  · rw [owner, s.objects.fresh _ (Nat.le_refl _), Option.map_none]
  · funext j
    by_cases hj : j = s.objects.next
    · subst hj
      rw [owner, Table.add_entry_self, Function.update_self, Option.map_some]
    · rw [owner, Table.add_entry, Function.update_of_ne hj, Function.update_of_ne hj, owner]

variable (buffer) in
theorem dropObject_avoids (i : Nat) (s : Store Obj α) :
    Avoids Fault.badDelete (dropObject i) s fun _ s' =>
      owner buffer s' = Function.update (owner buffer s) i none ∧
      s'.heap.ledger = s.heap.ledger := by
  cases ho : s.objects.entry i with
  | none => exact Avoids.of_fails ⟨s, by simp [dropObject, EStateM.run, ho]⟩
              (by decide : Fault.noObject ≠ .badDelete)
  | some o =>
      refine Avoids.of_returns (dropObject_returns ho) ⟨?_, rfl⟩
      funext j
      by_cases hji : j = i
      · subst hji
        rw [owner, Table.erase_entry, Function.update_self, Function.update_self, Option.map_none]
      · rw [owner, Table.erase_entry, Function.update_of_ne hji, Function.update_of_ne hji, owner]

variable (buffer) in
/-- An allocation writes a line about a new array. -/
theorem newArray_avoids (P : Platform α) (n : Nat) (s : Store Obj α) :
    Avoids Fault.badDelete (newArray P n) s fun b s' => owner buffer s' = owner buffer s ∧
      s'.heap.ledger = .allocated b :: s.heap.ledger ∧ Unused s.heap.ledger b := by
  cases hP : P.refuses s.heap.next with
  | true =>
      exact Avoids.of_fails ⟨⟨s.objects, s.heap.skip⟩, by simp [newArray, EStateM.run, hP]⟩
        (by decide : Fault.badAlloc ≠ .badDelete)
  | false =>
      have hnew : ∀ e, (e = .allocated s.heap.next ∨ e = .released s.heap.next) →
          e ∉ s.heap.ledger := by
        rintro e he hmem
        refine Nat.lt_irrefl s.heap.next (s.heap.ledger_lt _ ?_)
        rcases he with rfl | rfl
        · exact Or.inl hmem
        · exact Or.inr hmem
      have hret : Returns (newArray P n) s s.heap.next
          ⟨s.objects, s.heap.alloc ((List.range n).map (P.initial s.heap.next))⟩ := by
        simp [Returns, newArray, EStateM.run, hP]
      exact Avoids.of_returns hret ⟨rfl, rfl, hnew _ (Or.inl rfl), hnew _ (Or.inr rfl)⟩

/-- The release of a live array writes a line about it. -/
theorem deleteArray_avoids {b : Nat} (s : Store Obj α) (hb : Live s.heap.ledger b) :
    Avoids Fault.badDelete (deleteArray (some b) : Prog Obj α Unit) s fun _ s' =>
      s'.objects = s.objects ∧ s'.heap.ledger = .released b :: s.heap.ledger := by
  obtain ⟨slots, hslots⟩ := Option.isSome_iff_exists.1 ((s.heap.ledger_iff b).2 hb)
  exact Avoids.of_returns (deleteArray_returns hslots) ⟨rfl, Heap.release_ledger hslots⟩

end Steps

end LinuxSamples.Memory
