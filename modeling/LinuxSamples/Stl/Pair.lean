import LinuxSamples.Order.StrictWeak

set_option autoImplicit false

/-! # `fbcstd::pair`

The relational operators of `Samples_STL_Implementation/src/pair.hpp`. They use the operators `==` and
`<` of the two types and nothing else of them. -/

namespace LinuxSamples.StlPair

open LinuxSamples.Order

/-- `pair<T1, T2>`. -/
structure Pair (T1 T2 : Type) where
  first : T1
  second : T2
  deriving DecidableEq, Repr

/-- The operators `==` and `<` of a type. -/
structure Operators (T : Type) where
  eq : T → T → Bool
  lt : T → T → Bool

variable {T1 T2 : Type} (O1 : Operators T1) (O2 : Operators T2)

/-! ## The operators -/

def operatorEq (lhs rhs : Pair T1 T2) : Bool :=
  O1.eq lhs.first rhs.first && O2.eq lhs.second rhs.second

def operatorNe (lhs rhs : Pair T1 T2) : Bool := !operatorEq O1 O2 lhs rhs

def operatorLt (lhs rhs : Pair T1 T2) : Bool :=
  O1.lt lhs.first rhs.first || (!O1.lt rhs.first lhs.first && O2.lt lhs.second rhs.second)

def operatorGt (lhs rhs : Pair T1 T2) : Bool := operatorLt O1 O2 rhs lhs

def operatorLe (lhs rhs : Pair T1 T2) : Bool := !operatorLt O1 O2 rhs lhs

def operatorGe (lhs rhs : Pair T1 T2) : Bool := !operatorLt O1 O2 lhs rhs

/-- The operators `==` and `<` of `pair<T1, T2>`, which may itself be an element type. -/
def operators : Operators (Pair T1 T2) := ⟨operatorEq O1 O2, operatorLt O1 O2⟩

/-! ## Their meaning -/

section Meaning

variable {T : Type} (O : Operators T)

/-- `a < b` -/
def Operators.Below (a b : T) : Prop := O.lt a b = true

/-- `<` is irreflexive and transitive, and so is incomparability. -/
abbrev Operators.StrictWeak : Prop := IsStrictWeakOrder T O.Below

/-- `a == b` exactly when neither `a < b` nor `b < a`. -/
def Operators.Coincides : Prop := ∀ a b, O.eq a b = true ↔ IncompRel O.Below a b

end Meaning

/-- One of three propositions holds, and only one. -/
def ExactlyOne (a b c : Prop) : Prop := (a ∧ ¬ b ∧ ¬ c) ∨ (¬ a ∧ b ∧ ¬ c) ∨ (¬ a ∧ ¬ b ∧ c)

variable {O1 O2} {p q : Pair T1 T2}

theorem operatorLt_iff : operatorLt O1 O2 p q = true ↔
    O1.Below p.first q.first ∨ ¬ O1.Below q.first p.first ∧ O2.Below p.second q.second := by
  simp [operatorLt, Operators.Below]

/-- The code tests only that the first of `rhs` is not below the first of `lhs`: the other half of
    incomparability is what the first test found. -/
theorem below_iff_lexBy : (operators O1 O2).Below p q ↔
    LexBy O1.Below O2.Below Pair.first Pair.second p q := by
  rw [Operators.Below, operators, operatorLt_iff, LexBy, IncompRel]
  tauto

theorem below_eq_lexBy : (operators O1 O2).Below =
    LexBy O1.Below O2.Below Pair.first Pair.second := by
  funext p q
  exact propext below_iff_lexBy

theorem operators_strictWeak (h1 : O1.StrictWeak) (h2 : O2.StrictWeak) :
    (operators O1 O2).StrictWeak := by
  rw [Operators.StrictWeak, below_eq_lexBy]
  exact LexBy.isStrictWeakOrder _ _ _ _

theorem operatorLe_iff : operatorLe O1 O2 p q = true ↔ ¬ (operators O1 O2).Below q p := by
  simp [operatorLe, Operators.Below, operators]

/-- `==` on pairs is again incomparability. -/
theorem operators_coincides (h1 : O1.Coincides) (h2 : O2.Coincides) :
    (operators O1 O2).Coincides := by
  intro p q
  rw [below_eq_lexBy, LexBy.incomp_iff, ← h1, ← h2]
  simp [operators, operatorEq]

/-- In a strict weak ordering in which `==` is incomparability, exactly one of the three holds. -/
theorem Operators.trichotomy {T : Type} {O : Operators T} (h : O.StrictWeak) (heq : O.Coincides)
    (a b : T) : ExactlyOne (O.Below a b) (O.eq a b = true) (O.Below b a) := by
  have hasymm : O.Below a b → ¬ O.Below b a := fun hab => asymm_of O.Below hab
  rw [ExactlyOne, heq, IncompRel]
  tauto

/-- **`pair` lifts orderings.** -/
theorem pair_ordering (h1 : O1.StrictWeak) (h2 : O2.StrictWeak) :
    (operators O1 O2).StrictWeak ∧
    (∀ p q, operatorLt O1 O2 p q = true ↔ O1.Below p.first q.first ∨
      IncompRel O1.Below p.first q.first ∧ O2.Below p.second q.second) ∧
    (∀ p q, operatorGt O1 O2 p q = operatorLt O1 O2 q p) ∧
    (∀ p q, operatorLe O1 O2 p q = true ↔ ¬ operatorLt O1 O2 q p = true) ∧
    (∀ p q, operatorGe O1 O2 p q = operatorLe O1 O2 q p) ∧
    (∀ p q, operatorLe O1 O2 p q = true ∨ operatorLe O1 O2 q p = true) ∧
    (O1.Coincides → O2.Coincides → ∀ p q, ExactlyOne (operatorLt O1 O2 p q = true)
      (operatorEq O1 O2 p q = true) (operatorLt O1 O2 q p = true)) := by
  have hweak := operators_strictWeak h1 h2
  refine ⟨hweak, fun p q => below_iff_lexBy, fun p q => rfl, fun p q => operatorLe_iff,
    fun p q => rfl, fun p q => ?_, fun heq1 heq2 p q => ?_⟩
  · rw [operatorLe_iff, operatorLe_iff, ← not_and_or]
    rintro ⟨hqp, hpq⟩
    exact asymm_of _ hqp hpq
  · exact Operators.trichotomy hweak (operators_coincides heq1 heq2) p q

/-- The built-in operators of `int`. -/
def intOperators : Operators Int := ⟨fun a b => a == b, fun a b => decide (a < b)⟩

theorem intOperators_below (a b : Int) : intOperators.Below a b ↔ a < b := by
  simp [Operators.Below, intOperators]

theorem intOperators_strictWeak : intOperators.StrictWeak where
  irrefl a := by simp [intOperators_below]
  trans a b c := by
    simp only [intOperators_below]
    omega
  incomp_trans a b c := by
    simp only [intOperators_below]
    omega

theorem intOperators_coincides : intOperators.Coincides := by
  intro a b
  have heq : intOperators.eq a b = true ↔ a = b := by simp [intOperators]
  rw [heq, IncompRel, intOperators_below, intOperators_below]
  omega

/-- `pair<int, int>`, with `bar(10, 20)` and `cat(10, 15)`. -/
theorem pair_ordering_ints : (operators intOperators intOperators).StrictWeak ∧
    operatorLe intOperators intOperators ⟨10, 15⟩ ⟨10, 20⟩ = true ∧
    ExactlyOne (operatorLt intOperators intOperators ⟨10, 15⟩ ⟨10, 20⟩ = true)
      (operatorEq intOperators intOperators ⟨10, 15⟩ ⟨10, 20⟩ = true)
      (operatorLt intOperators intOperators ⟨10, 20⟩ ⟨10, 15⟩ = true) := by
  obtain ⟨hweak, _, _, hle, _, _, hone⟩ :=
    pair_ordering intOperators_strictWeak intOperators_strictWeak
  exact ⟨hweak, (hle _ _).2 (by decide), hone intOperators_coincides intOperators_coincides _ _⟩

end LinuxSamples.StlPair
