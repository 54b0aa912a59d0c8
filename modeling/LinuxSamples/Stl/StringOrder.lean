import LinuxSamples.Stl.StringCorrect
import Mathlib.Data.List.Lex

set_option autoImplicit false

/-! # The relational operators of `fbcstd::string`

Each of the six operators has three overloads. With a string on the left they test the sign of
`compare`; with a C string on the left they test the sign of the comparison the other way round, and
the four ordering operators take the negated test instead of the mirrored one. All the overloads
decide the lexicographic order of the texts exactly when the two texts differ. -/

namespace LinuxSamples.FbcString

open LinuxSamples.Program LinuxSamples.Memory

/-! ## The operators -/

/-- `test(lhs.compare(rhs))`. -/
def comparison (test : Int → Bool) (lhs rhs : Nat) : StrProg Bool := do
  let r ← compare lhs rhs
  return test r

/-- `test(lhs.compare(rhs))` for a C string `rhs`. -/
def comparisonCString (test : Int → Bool) (lhs : Nat) (rhs : CPtr) : StrProg Bool := do
  let r ← compareCString lhs rhs
  return test r

/-- `operator == (const string& lhs, const string& rhs)`. -/
def operatorEq (lhs rhs : Nat) : StrProg Bool := comparison (fun r => r = 0) lhs rhs

/-- `operator == (const char* lhs, const string& rhs)`. -/
def cstringOperatorEq (lhs : CPtr) (rhs : Nat) : StrProg Bool :=
  comparisonCString (fun r => r = 0) rhs lhs

/-- `operator == (const string& lhs, const char* rhs)`. -/
def operatorEqCString (lhs : Nat) (rhs : CPtr) : StrProg Bool :=
  comparisonCString (fun r => r = 0) lhs rhs

/-- `operator != (const string& lhs, const string& rhs)`. -/
def operatorNe (lhs rhs : Nat) : StrProg Bool := comparison (fun r => r ≠ 0) lhs rhs

/-- `operator != (const char* lhs, const string& rhs)`. -/
def cstringOperatorNe (lhs : CPtr) (rhs : Nat) : StrProg Bool :=
  comparisonCString (fun r => r ≠ 0) rhs lhs

/-- `operator != (const string& lhs, const char* rhs)`. -/
def operatorNeCString (lhs : Nat) (rhs : CPtr) : StrProg Bool :=
  comparisonCString (fun r => r ≠ 0) lhs rhs

/-- `operator < (const string& lhs, const string& rhs)`. -/
def operatorLt (lhs rhs : Nat) : StrProg Bool := comparison (fun r => r < 0) lhs rhs

/-- `operator < (const char* lhs, const string& rhs)`. -/
def cstringOperatorLt (lhs : CPtr) (rhs : Nat) : StrProg Bool :=
  comparisonCString (fun r => r ≥ 0) rhs lhs

/-- `operator < (const string& lhs, const char* rhs)`. -/
def operatorLtCString (lhs : Nat) (rhs : CPtr) : StrProg Bool :=
  comparisonCString (fun r => r < 0) lhs rhs

/-- `operator <= (const string& lhs, const string& rhs)`. -/
def operatorLe (lhs rhs : Nat) : StrProg Bool := comparison (fun r => r ≤ 0) lhs rhs

/-- `operator <= (const char* lhs, const string& rhs)`. -/
def cstringOperatorLe (lhs : CPtr) (rhs : Nat) : StrProg Bool :=
  comparisonCString (fun r => r > 0) rhs lhs

/-- `operator <= (const string& lhs, const char* rhs)`. -/
def operatorLeCString (lhs : Nat) (rhs : CPtr) : StrProg Bool :=
  comparisonCString (fun r => r ≤ 0) lhs rhs

/-- `operator > (const string& lhs, const string& rhs)`. -/
def operatorGt (lhs rhs : Nat) : StrProg Bool := comparison (fun r => r > 0) lhs rhs

/-- `operator > (const char* lhs, const string& rhs)`. -/
def cstringOperatorGt (lhs : CPtr) (rhs : Nat) : StrProg Bool :=
  comparisonCString (fun r => r ≤ 0) rhs lhs

/-- `operator > (const string& lhs, const char* rhs)`. -/
def operatorGtCString (lhs : Nat) (rhs : CPtr) : StrProg Bool :=
  comparisonCString (fun r => r > 0) lhs rhs

/-- `operator >= (const string& lhs, const string& rhs)`. -/
def operatorGe (lhs rhs : Nat) : StrProg Bool := comparison (fun r => r ≥ 0) lhs rhs

/-- `operator >= (const char* lhs, const string& rhs)`. -/
def cstringOperatorGe (lhs : CPtr) (rhs : Nat) : StrProg Bool :=
  comparisonCString (fun r => r < 0) rhs lhs

/-- `operator >= (const string& lhs, const char* rhs)`. -/
def operatorGeCString (lhs : Nat) (rhs : CPtr) : StrProg Bool :=
  comparisonCString (fun r => r ≥ 0) lhs rhs

/-! ## The six relations -/

/-- A relational operator. -/
inductive Rel | eq | ne | lt | le | gt | ge
  deriving DecidableEq, Repr

/-- The operator with its operands exchanged. -/
def Rel.mirror : Rel → Rel
  | .eq => .eq
  | .ne => .ne
  | .lt => .gt
  | .le => .ge
  | .gt => .lt
  | .ge => .le

/-- What the operator means: the lexicographic order of lists of `unsigned char`. -/
def Rel.holds : Rel → List UInt8 → List UInt8 → Bool
  | .eq, as, bs => as = bs
  | .ne, as, bs => as ≠ bs
  | .lt, as, bs => as < bs
  | .le, as, bs => as ≤ bs
  | .gt, as, bs => bs < as
  | .ge, as, bs => bs ≤ as

/-- `lhs OP rhs` on two strings. -/
def Rel.strings : Rel → Nat → Nat → StrProg Bool
  | .eq => operatorEq
  | .ne => operatorNe
  | .lt => operatorLt
  | .le => operatorLe
  | .gt => operatorGt
  | .ge => operatorGe

/-- `lhs OP rhs` with a C string on the left. -/
def Rel.cstringLeft : Rel → CPtr → Nat → StrProg Bool
  | .eq => cstringOperatorEq
  | .ne => cstringOperatorNe
  | .lt => cstringOperatorLt
  | .le => cstringOperatorLe
  | .gt => cstringOperatorGt
  | .ge => cstringOperatorGe

/-- `lhs OP rhs` with a C string on the right. -/
def Rel.cstringRight : Rel → Nat → CPtr → StrProg Bool
  | .eq => operatorEqCString
  | .ne => operatorNeCString
  | .lt => operatorLtCString
  | .le => operatorLeCString
  | .gt => operatorGtCString
  | .ge => operatorGeCString

/-- How a C string is compared with a string: by the overload for it, or as the temporary
    `string(a)`. -/
inductive Overload | direct | converted

variable (refuses : Nat → Bool)

/-- `a OP b`, by the chosen overload. -/
def Rel.before (op : Rel) : Overload → CPtr → Nat → StrProg Bool
  | .direct, a, b => op.cstringLeft a b
  | .converted, a, b => do
      let t ← ofCString refuses a
      let answer ← op.strings t b
      destroy t
      return answer

/-- `b OP a`, by the chosen overload. -/
def Rel.behind (op : Rel) : Overload → Nat → CPtr → StrProg Bool
  | .direct, b, a => op.cstringRight b a
  | .converted, b, a => do
      let t ← ofCString refuses a
      let answer ← op.strings b t
      destroy t
      return answer

variable {refuses : Nat → Bool} {s : Store Fields (Option UInt8)} {F : Table (List UInt8)}
  {i j : Nat} {as bs cs : List UInt8}

/-! ## Signs -/

/-- The test of the sign of a comparison that belongs to an operator. -/
def Rel.test : Rel → Int → Bool
  | .eq, r => r = 0
  | .ne, r => r ≠ 0
  | .lt, r => r < 0
  | .le, r => r ≤ 0
  | .gt, r => r > 0
  | .ge, r => r ≥ 0

/-- The test an overload with a C string on the left makes. -/
def Rel.cstringTest : Rel → Int → Bool
  | .eq, r => r = 0
  | .ne, r => r ≠ 0
  | .lt, r => r ≥ 0
  | .le, r => r > 0
  | .gt, r => r ≤ 0
  | .ge, r => r < 0

/-- `r` has the sign of a comparison of `as` with `bs`. -/
structure Sign (r : Int) (as bs : List UInt8) : Prop where
  neg : r < 0 ↔ as < bs
  zero : r = 0 ↔ as = bs

theorem Sign.pos {r : Int} (h : Sign r as bs) : 0 < r ↔ bs < as := by
  constructor
  · intro hr
    by_contra hba
    have hab : ¬ as < bs := fun hlt => by have := h.neg.2 hlt; omega
    have := h.zero.2 (List.le_antisymm hba hab)
    omega
  · intro hba
    have hnlt : ¬ r < 0 := fun hr => List.lt_asymm hba (h.neg.1 hr)
    have hne : r ≠ 0 := fun hr => List.lt_irrefl as (by rwa [← h.zero.1 hr] at hba)
    omega

/-- The test of an operator decides its meaning. -/
theorem Sign.test {r : Int} (h : Sign r as bs) (op : Rel) : op.test r = op.holds as bs := by
  have hle : r ≤ 0 ↔ as ≤ bs := Int.not_lt.symm.trans h.pos.not
  have hge : r ≥ 0 ↔ bs ≤ as := Int.not_lt.symm.trans h.neg.not
  cases op with
  | eq => exact decide_eq_decide.2 h.zero
  | ne => exact decide_eq_decide.2 h.zero.not
  | lt => exact decide_eq_decide.2 h.neg
  | le => exact decide_eq_decide.2 hle
  | gt => exact decide_eq_decide.2 h.pos
  | ge => exact decide_eq_decide.2 hge

/-- The negated test agrees with the mirrored one on a sign that is not zero. -/
theorem Rel.cstringTest_eq (op : Rel) {r : Int} (hr : r ≠ 0) :
    op.cstringTest r = op.mirror.test r := by
  cases op with
  | eq | ne => rfl
  | lt | le | gt | ge => exact decide_eq_decide.2 (by omega)

theorem Rel.mirror_holds (op : Rel) (as bs : List UInt8) :
    op.mirror.holds as bs = op.holds bs as := by
  cases op with
  | eq => exact decide_eq_decide.2 eq_comm
  | ne => exact decide_eq_decide.2 ne_comm
  | lt | le | gt | ge => rfl

theorem holds_le (as bs : List UInt8) :
    Rel.le.holds as bs = (Rel.lt.holds as bs || Rel.eq.holds as bs) := by
  have hle : as ≤ bs ↔ as < bs ∨ as = bs := List.le_iff_lt_or_eq
  show decide (as ≤ bs) = (decide (as < bs) || decide (as = bs))
  rw [← Bool.decide_or]
  exact decide_eq_decide.2 hle

/-! ## What the overloads answer -/

theorem Rel.strings_eq (op : Rel) : op.strings = comparison op.test := by
  cases op <;> rfl

theorem Rel.cstringRight_eq (op : Rel) : op.cstringRight = comparisonCString op.test := by
  cases op <;> rfl

theorem Rel.cstringLeft_eq (op : Rel) (a : CPtr) (b : Nat) :
    op.cstringLeft a b = comparisonCString op.cstringTest b a := by
  cases op <;> rfl

/-- Between texts, `compare` gives the sign. -/
theorem compare_sign (h : Represents model s F) (hi : F.entry i = some as)
    (hj : F.entry j = some bs) (has : 0 ∉ as) (hbs : 0 ∉ bs) :
    ∃ r, Returns (compare i j) s r s ∧ Sign r as bs := by
  obtain ⟨r, hr, hneg, hzero⟩ := compare_spec h hi hj
  rw [cstring_of_textual has, cstring_of_textual hbs] at hneg hzero
  exact ⟨r, hr, hneg, hzero⟩

theorem compareCString_sign (h : Represents model s F) (hj : F.entry j = some bs) (hbs : 0 ∉ bs)
    {a : CPtr} (ha : Returns (readString a) s as s) :
    ∃ r, Returns (compareCString j a) s r s ∧ Sign r bs as := by
  obtain ⟨o, ho, _, hread⟩ := read_spec h hj (Nat.zero_le _)
  rw [List.drop_zero, cstring_of_textual hbs] at hread
  obtain ⟨r, hr, hneg, hzero⟩ := strcmp_returns hread ha
  exact ⟨r, Returns.bind (object_returns ho) hr, hneg, hzero⟩

theorem strings_answers (h : Represents model s F) (hi : F.entry i = some as)
    (hj : F.entry j = some bs) (has : 0 ∉ as) (hbs : 0 ∉ bs) (op : Rel) :
    Returns (op.strings i j) s (op.holds as bs) s := by
  obtain ⟨r, hr, hsign⟩ := compare_sign h hi hj has hbs
  rw [Rel.strings_eq, ← hsign.test op]
  exact Returns.bind hr (Returns.pure _ s)

theorem cstringRight_answers (h : Represents model s F) (hj : F.entry j = some bs) (hbs : 0 ∉ bs)
    {a : CPtr} (ha : Returns (readString a) s as s) (op : Rel) :
    Returns (op.cstringRight j a) s (op.holds bs as) s := by
  obtain ⟨r, hr, hsign⟩ := compareCString_sign h hj hbs ha
  rw [Rel.cstringRight_eq, ← hsign.test op]
  exact Returns.bind hr (Returns.pure _ s)

/-- With the C string on the left the answer is right when the texts differ. -/
theorem cstringLeft_answers (h : Represents model s F) (hj : F.entry j = some bs) (hbs : 0 ∉ bs)
    {a : CPtr} (ha : Returns (readString a) s as s) (hne : as ≠ bs) (op : Rel) :
    Returns (op.cstringLeft a j) s (op.holds as bs) s := by
  obtain ⟨r, hr, hsign⟩ := compareCString_sign h hj hbs ha
  have hr₀ : r ≠ 0 := fun hr₀ => hne (hsign.zero.1 hr₀).symm
  rw [Rel.cstringLeft_eq, ← op.mirror_holds, ← hsign.test op.mirror, ← op.cstringTest_eq hr₀]
  exact Returns.bind hr (Returns.pure _ s)

/-- On equal texts `a < b`, with the C string on the left, is answered with true. -/
theorem cstringLeft_equal (h : Represents model s F) (hj : F.entry j = some bs) (hbs : 0 ∉ bs)
    {a : CPtr} (ha : Returns (readString a) s bs s) :
    Returns (Rel.lt.cstringLeft a j) s true s := by
  obtain ⟨r, hr, hsign⟩ := compareCString_sign h hj hbs ha
  obtain rfl : r = 0 := hsign.zero.2 rfl
  exact Returns.bind hr (Returns.pure _ s)

/-- The question is answered, or an allocation is refused and `std::bad_alloc` is thrown. -/
def Answers (question : StrProg Bool) (s : Store Fields (Option UInt8)) (answer : Bool) : Prop :=
  (∃ s', Returns question s answer s') ∨ Fails question s .badAlloc

theorem Answers.unique {question : StrProg Bool} {answer x : Bool} {s' : Store Fields (Option UInt8)}
    (h : Answers question s answer) (hx : Returns question s x s') : x = answer := by
  rcases h with ⟨_, hret⟩ | hfail
  · exact (hx.unique hret).1
  · exact absurd hfail hx.not_fails

/-- A comparison with the temporary `string(a)` answers what the strings' texts say. -/
theorem converted_answers (h : Represents model s F) (hfits : as.length + 1 < 2 ^ 64) {a : CPtr}
    (ha : Returns (readString a) s as s) {question : Nat → StrProg Bool} {answer : Bool}
    (hquestion : ∀ s', Represents model s' (F.add as) →
      Returns (question F.next) s' answer s') :
    Answers (do
      let t ← ofCString refuses a
      let answer ← question t
      destroy t
      return answer) s answer := by
  obtain ⟨s₁, hnew, h₁⟩ := ofCString_spec (fun _ => rfl) h ha hfits
  obtain ⟨s₂, hdestroy, _⟩ := destroy_spec h₁ (F.add_entry_self as)
  have hret : Returns (do
      let t ← ofCString (fun _ => false) a
      let answer ← question t
      destroy t
      return answer) s answer s₂ :=
    Returns.bind hnew (Returns.bind (hquestion s₁ h₁)
      (Returns.bind hdestroy (Returns.pure answer s₂)))
  rcases (ofCString_orThrows refuses a).bind (fun _ => OrThrows.refl _) s with heq | hfail
  · exact Or.inl ⟨s₂, heq.trans hret⟩
  · exact Or.inr hfail

/-! ## Agreement -/

/-- **All the overloads agree** on the C string `a`, with text `as`, and string `b`, with text `bs`:
    whichever is picked, the answer is the lexicographic comparison; `a OP b` is `b OP' a` with the
    mirrored operator; and `a <= b` is `a < b` or `a == b`. -/
structure Agree (refuses : Nat → Bool) (s : Store Fields (Option UInt8)) (a : CPtr) (b : Nat)
    (as bs : List UInt8) : Prop where
  left : ∀ op : Rel, Returns (op.cstringLeft a b) s (op.holds as bs) s
  right : ∀ op : Rel, Returns (op.cstringRight b a) s (op.holds bs as) s
  before : ∀ (op : Rel) v, Answers (op.before refuses v a b) s (op.holds as bs)
  behind : ∀ (op : Rel) v, Answers (op.behind refuses v b a) s (op.holds bs as)
  mirrored : ∀ (op : Rel) v v' x y s₁ s₂, Returns (op.before refuses v a b) s x s₁ →
    Returns (op.mirror.behind refuses v' b a) s y s₂ → x = y
  weak : ∀ v₁ v₂ v₃ x y z s₁ s₂ s₃, Returns (Rel.le.before refuses v₁ a b) s x s₁ →
    Returns (Rel.lt.before refuses v₂ a b) s y s₂ →
    Returns (Rel.eq.before refuses v₃ a b) s z s₃ → x = (y || z)

/-- The overloads agree as soon as each of them decides the lexicographic order. -/
theorem Agree.of_answers {a : CPtr} {b : Nat}
    (hleft : ∀ op : Rel, Returns (op.cstringLeft a b) s (op.holds as bs) s)
    (hright : ∀ op : Rel, Returns (op.cstringRight b a) s (op.holds bs as) s)
    (hbefore : ∀ op : Rel, Answers (op.before refuses .converted a b) s (op.holds as bs))
    (hbehind : ∀ op : Rel, Answers (op.behind refuses .converted b a) s (op.holds bs as)) :
    Agree refuses s a b as bs := by
  have hbefore' : ∀ (op : Rel) v, Answers (op.before refuses v a b) s (op.holds as bs) := by
    intro op v
    cases v with
    | direct => exact Or.inl ⟨s, hleft op⟩
    | converted => exact hbefore op
  have hbehind' : ∀ (op : Rel) v, Answers (op.behind refuses v b a) s (op.holds bs as) := by
    intro op v
    cases v with
    | direct => exact Or.inl ⟨s, hright op⟩
    | converted => exact hbehind op
  refine ⟨hleft, hright, hbefore', hbehind', ?_, ?_⟩
  · intro op v v' x y s₁ s₂ hx hy
    rw [(hbefore' op v).unique hx, (hbehind' op.mirror v').unique hy, op.mirror_holds]
  · intro v₁ v₂ v₃ x y z s₁ s₂ s₃ hx hy hz
    rw [(hbefore' .le v₁).unique hx, (hbefore' .lt v₂).unique hy, (hbefore' .eq v₃).unique hz,
      holds_le]

/-- **The overloads agree exactly on different texts.** -/
theorem overloads_agree_iff_ne (h : Represents model s F) (hj : F.entry j = some bs) (hbs : 0 ∉ bs)
    {a : CPtr} (ha : Returns (readString a) s as s) (hfits : as.length + 1 < 2 ^ 64) :
    Agree refuses s a j as bs ↔ as ≠ bs := by
  constructor
  · rintro hagree rfl
    have hwrong := ((hagree.left .lt).unique (cstringLeft_equal h hj hbs ha)).1
    exact List.lt_irrefl as (of_decide_eq_true hwrong)
  · intro hne
    have has : 0 ∉ as := readString_textual ha
    have hold : (F.add as).entry j = some bs := Table.add_entry_old hj as
    refine Agree.of_answers (fun op => cstringLeft_answers h hj hbs ha hne op)
      (fun op => cstringRight_answers h hj hbs ha op) (fun op => ?_) fun op => ?_
    · exact converted_answers h hfits ha fun s' h' =>
        strings_answers h' (F.add_entry_self as) hold has hbs op
    · exact converted_answers h hfits ha fun s' h' =>
        strings_answers h' hold (F.add_entry_self as) hbs has op

/-- `"a"` and `string b("b")`. -/
theorem overloads_agree_iff_ne_letters : ∃ s F, Represents model s F ∧ F.entry 0 = some [98] ∧
    Agree (fun _ => false) s (.external [97, 0]) 0 [97] [98] := by
  obtain ⟨s, F, h, hj⟩ := exists_string [98] (by decide) (by decide)
  have ha : Returns (readString (.external [97, 0])) s [97] s := readString_external [97]
  exact ⟨s, _, h, hj, (overloads_agree_iff_ne h hj (by decide) ha (by decide)).2 (by decide)⟩

/-- `"a"` and `string b("a")`: `"a" < b` holds, `b > "a"` and `string("a") < b` do not. -/
theorem overloads_disagree_on_equal : ∃ s F, Represents model s F ∧ F.entry 0 = some [97] ∧
    Returns (cstringOperatorLt (.external [97, 0]) 0) s true s ∧
    Returns (operatorGtCString 0 (.external [97, 0])) s false s ∧
    Answers (Rel.lt.before (fun _ => false) .converted (.external [97, 0]) 0) s false ∧
    ¬ ([97] : List UInt8) < [97] := by
  obtain ⟨s, F, h, hj⟩ := exists_string [97] (by decide) (by decide)
  have ha : Returns (readString (.external [97, 0])) s [97] s := readString_external [97]
  refine ⟨s, _, h, hj, cstringLeft_equal h hj (by decide) ha,
    cstringRight_answers h hj (by decide) ha .gt, ?_, by decide⟩
  exact converted_answers h (by decide) ha fun s' h' =>
    strings_answers h' (Table.add_entry_self _ [97]) (Table.add_entry_old hj [97]) (by decide)
      (by decide) .lt

end LinuxSamples.FbcString
