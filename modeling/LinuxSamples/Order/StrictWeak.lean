import Mathlib.Order.Comparable
import Mathlib.Order.RelClasses

set_option autoImplicit false

/-! # Strict weak orderings compared by two keys

In a strict weak ordering the elements that are below neither one another are as good as equal: the
ordering does not tell them apart. Comparing by one key first, and by a second key where the first
does not tell two elements apart, is a strict weak ordering again. -/

namespace LinuxSamples.Order

variable {α β γ : Type} {r : α → α → Prop} {s : β → β → Prop} {a b c : α}

/-! ## One ordering -/

/-- A strict weak ordering is negatively transitive. -/
theorem connected (r : α → α → Prop) [IsStrictWeakOrder α r] : IsOrderConnected α r where
  conn a b c hac := by
    by_contra hnot
    rw [not_or] at hnot
    obtain ⟨hab, hbc⟩ := hnot
    have hba : ¬ r b a := fun hba => hbc (trans_of r hba hac)
    have hcb : ¬ r c b := fun hcb => hab (trans_of r hac hcb)
    exact (IsStrictWeakOrder.incomp_trans a b c ⟨hab, hba⟩ ⟨hbc, hcb⟩).1 hac

variable [IsStrictWeakOrder α r]

theorem below_or_below (hac : r a c) (b : α) : r a b ∨ r b c :=
  (connected r).conn a b c hac

/-- The ordering does not tell `b` and `c` apart. -/
theorem below_of_below_of_incomp (hab : r a b) (hbc : IncompRel r b c) : r a c :=
  (below_or_below hab c).resolve_right hbc.2

theorem incomp_trans (hab : IncompRel r a b) (hbc : IncompRel r b c) : IncompRel r a c :=
  IsStrictWeakOrder.incomp_trans a b c hab hbc

/-! ## Two keys -/

/-- Compare by the key `f`, and by the key `g` where `f` does not tell the elements apart. -/
def LexBy (r : α → α → Prop) (s : β → β → Prop) (f : γ → α) (g : γ → β) (p q : γ) : Prop :=
  r (f p) (f q) ∨ IncompRel r (f p) (f q) ∧ s (g p) (g q)

variable [IsStrictWeakOrder β s] {f : γ → α} {g : γ → β} {p q t : γ}

theorem LexBy.asymm (hpq : LexBy r s f g p q) : ¬ LexBy r s f g q p := by
  rintro (hqp | ⟨hincomp, hqp⟩)
  · rcases hpq with hpq | ⟨hincomp, _⟩
    · exact asymm_of r hpq hqp
    · exact hincomp.2 hqp
  · rcases hpq with hpq | ⟨_, hpq⟩
    · exact hincomp.2 hpq
    · exact asymm_of s hpq hqp

theorem LexBy.below_or_below (hpt : LexBy r s f g p t) (q : γ) :
    LexBy r s f g p q ∨ LexBy r s f g q t := by
  rcases hpt with hpt | ⟨hincomp, hpt⟩
  · rcases Order.below_or_below hpt (f q) with hpq | hqt
    · exact Or.inl (Or.inl hpq)
    · exact Or.inr (Or.inl hqt)
  by_cases hpq : r (f p) (f q)
  · exact Or.inl (Or.inl hpq)
  by_cases hqp : r (f q) (f p)
  · exact Or.inr (Or.inl (below_of_below_of_incomp hqp hincomp))
  -- the first key tells none of the three apart
  have hfpq : IncompRel r (f p) (f q) := ⟨hpq, hqp⟩
  rcases Order.below_or_below hpt (g q) with hgpq | hgqt
  · exact Or.inl (Or.inr ⟨hfpq, hgpq⟩)
  · exact Or.inr (Or.inr ⟨incomp_trans hfpq.symm hincomp, hgqt⟩)

/-- **Two keys make a strict weak ordering.** -/
theorem LexBy.isStrictWeakOrder (r : α → α → Prop) (s : β → β → Prop) [IsStrictWeakOrder α r]
    [IsStrictWeakOrder β s] (f : γ → α) (g : γ → β) :
    IsStrictWeakOrder γ (LexBy r s f g) := by
  have hasymm : Std.Asymm (LexBy r s f g) := ⟨fun _ _ h => h.asymm⟩
  have hconn : IsOrderConnected γ (LexBy r s f g) := ⟨fun _ q _ h => h.below_or_below q⟩
  exact isStrictWeakOrder_of_isOrderConnected

omit [IsStrictWeakOrder α r] [IsStrictWeakOrder β s] in
/-- Elements are not told apart when neither key tells them apart. -/
theorem LexBy.incomp_iff : IncompRel (LexBy r s f g) p q ↔
    IncompRel r (f p) (f q) ∧ IncompRel s (g p) (g q) := by
  simp only [IncompRel, LexBy]
  tauto

end LinuxSamples.Order
