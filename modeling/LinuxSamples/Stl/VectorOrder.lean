import LinuxSamples.Stl.VectorRuns
import Mathlib.Data.List.Infix
import Mathlib.Data.List.Lex
import Mathlib.Data.List.Zip
import Mathlib.Order.Defs.LinearOrder

set_option autoImplicit false

/-! # The relational operators of `fbcstd::vector`

`operator <` looks for a position where the left vector is greater, but never stops at one where it
is smaller. It therefore decides the lexicographic order exactly for those pairs of vectors in which
no position after the first difference has the opposite order. -/

namespace LinuxSamples.Vector

open LinuxSamples.Program LinuxSamples.Memory

variable {T : Type}

/-! ## The operators -/

section Operators

variable (P : Platform T) (E : Element T)

/-- `for (i = i; i < i + count; ++i) if (lhs[i] > rhs[i]) { flag = false; break; }` and the value of
    `flag` after it. -/
def notGreaterFrom (lhs rhs i : Nat) : Nat → VecProg T Bool
  | 0 => pure true
  | count + 1 => do
      let x ← get lhs i
      let y ← get rhs i
      if E.gt x y then return false
      else notGreaterFrom lhs rhs (i + 1) count

/-- `vector<T> vec(n); for (i = 0; i < n; ++i) vec[i] = src[i];` -/
def firstElems (src n : Nat) : VecProg T Nat := do
  let vec ← construct P E n (.value E.value)
  forUp (fun i => do
    let q ← index src i
    let p ← index vec i
    assign E p (.slot q)) 0 n
  return vec

/-- `operator <`. -/
def operatorLt (lhs rhs : Nat) : VecProg T Bool := do
  let n ← size lhs
  let m ← size rhs
  if n = m then do
    let same ← operatorEq E lhs rhs
    if same then return false
    else notGreaterFrom E lhs rhs 0 n
  else if n < m then do
    let vec ← firstElems P E rhs n
    let same ← operatorEq E lhs vec
    let flag ← (if same then pure true else notGreaterFrom E lhs rhs 0 n)
    destroy vec
    return flag
  else do
    let vec ← firstElems P E lhs m
    let same ← operatorEq E vec rhs
    let flag ← (if same then pure false else notGreaterFrom E lhs rhs 0 m)
    destroy vec
    return flag

/-- `operator <=`. -/
def operatorLe (lhs rhs : Nat) : VecProg T Bool := do return !(← operatorLt P E rhs lhs)

/-- `operator >`. -/
def operatorGt (lhs rhs : Nat) : VecProg T Bool := operatorLt P E rhs lhs

/-- `operator >=`. -/
def operatorGe (lhs rhs : Nat) : VecProg T Bool := do return !(← operatorLt P E lhs rhs)

end Operators

/-! ## What they compute from the elements -/

variable {P : Platform T} {E : Element T} {s : Store Fields T} {F : Table (Cells T)} {i j : Nat}
  {t u : Cells T}

/-- No common position has a greater element on the left. -/
def notGreater (E : Element T) (xs ys : List T) : Bool :=
  (xs.zip ys).all fun p => !E.gt p.1 p.2

/-- The result of `operator <`. -/
def lessThan (E : Element T) (xs ys : List T) : Bool :=
  if xs.length = ys.length then
    if sameElems E xs ys then false else notGreater E xs ys
  else if xs.length < ys.length then
    if sameElems E xs (ys.take xs.length) then true else notGreater E xs ys
  else
    if sameElems E (xs.take ys.length) ys then false else notGreater E xs ys

theorem notGreaterFrom_returns (h : Represents (model T True) s F) (hi : F.entry i = some t)
    (hj : F.entry j = some u) : ∀ count k, k + count = min t.elems.length u.elems.length →
    Returns (notGreaterFrom E i j k count) s
      (notGreater E (t.elems.drop k) (u.elems.drop k)) s := by
  intro count
  induction count with
  | zero =>
      intro k hk
      have hend : notGreater E (t.elems.drop k) (u.elems.drop k) = true := by
        rcases Nat.le_total t.elems.length u.elems.length with hle | hle
        · rw [notGreater, List.drop_of_length_le (by omega)]
          rfl
        · rw [notGreater, List.drop_of_length_le (l := u.elems) (by omega), List.zip_nil_right]
          rfl
      rw [hend]
      exact Returns.pure true s
  | succ count ih =>
      intro k hk
      have hkt : k < t.elems.length := by omega
      have hku : k < u.elems.length := by omega
      rw [List.drop_eq_getElem_cons hkt, List.drop_eq_getElem_cons hku, notGreater,
        List.zip_cons_cons, List.all_cons, ← notGreater]
      refine Returns.bind (get_spec h hi (List.getElem?_eq_getElem hkt))
        (Returns.bind (get_spec h hj (List.getElem?_eq_getElem hku)) ?_)
      cases hgt : E.gt t.elems[k] u.elems[k] with
      | true => exact Returns.pure false s
      | false => exact ih (k + 1) (by omega)

/-- The temporary vector holds the first elements of the longer vector. -/
theorem firstElems_spec (hP : P.Generous) (hE : E.Copies) (h : Represents (model T True) s F)
    (hj : F.entry j = some u) {n : Nat} (hn : n ≤ u.elems.length) :
    ∃ s' c, Returns (firstElems P E j n) s F.next s' ∧ c.elems = u.elems.take n ∧
      Represents (model T True) s' (F.add c) := by
  obtain ⟨o, _, hold⟩ := h.lookup hj
  have hmax : n ≤ maxRequest := (hn.trans u.fits_capacity).trans hold.capacity_le
  have hvalue : Returns (Ref.read (.value E.value)) s E.value s := Returns.pure E.value s
  obtain ⟨s₁, hnew, h₁⟩ := construct_spec hP (fun _ => hE) h hmax hvalue (fun _ => rfl)
  -- invariant: the first `k` elements have been copied
  obtain ⟨s₂, hloop, c, h₂, hlen, htake⟩ := forUp_invariant (fun k => do
      let q ← index j k
      let p ← index F.next k
      assign E p (.slot q))
    (fun k s => ∃ c : Cells T, Represents (model T True) s (F.add c) ∧ c.elems.length = n ∧
      c.elems.take k = u.elems.take k) 0 n (by
    rintro k s' - hk ⟨c, h', hlen, htake⟩
    have hkn : k < n := by omega
    have hi' := F.add_entry_self c
    have hj' := Table.add_entry_old hj c
    obtain ⟨w, hw, hq⟩ := Access.slot_returns h' hj' (a := .index k) (if_pos (by omega))
    obtain ⟨v, hv, hp⟩ := Access.slot_returns h' hi' (a := .index k) (if_pos (by omega))
    obtain ⟨x, hread, hx⟩ := slot_read h' hj' hw (k := k) (by omega)
    have hne : (Ref.slot ⟨w.buffer_, k⟩ : Ref T).isSlot ⟨v.buffer_, k⟩ = false := by
      obtain ⟨b, hb⟩ := buffer_of_lt h' hi' hv (k := k) (by omega)
      simp only [Ref.isSlot, decide_eq_false_iff_not, Slot.mk.injEq, and_true]
      intro hsame
      rw [hb] at hsame
      have := h'.separate _ _ b ⟨v, hv, hb⟩ ⟨w, hw, hsame.symm⟩
      have := Table.lt_next hj
      omega
    obtain ⟨s'', hassign, h''⟩ := write_spec h' hi' (fun _ => hE) hv (k := k) (y := x) (by omega)
      hread (fun _ => by rw [hne, if_neg Bool.false_ne_true])
    rw [Table.add_set] at h''
    refine ⟨s'', Returns.bind hq (Returns.bind hp hassign), c.write k x, h'', ?_, ?_⟩
    · rw [Cells.write_length, hlen]
    · show (c.elems.set k x).take (k + 1) = u.elems.take (k + 1)
      rw [take_set_succ (by omega), htake, List.take_add_one, hx trivial]
      rfl) s₁ ⟨_, h₁, List.length_replicate, rfl⟩
  rw [Nat.zero_add] at htake
  refine ⟨s₂, c, Returns.bind hnew (Returns.bind hloop (Returns.pure _ s₂)), ?_, h₂⟩
  rw [← htake, List.take_of_length_le (Nat.le_of_eq hlen)]

/-- Started in `s`, the comparison answers `b` and leaves every vector as it was. -/
def Answers (m : VecProg T Bool) (s : Store Fields T) (F : Table (Cells T)) (b : Bool) : Prop :=
  ∃ s' G, Returns m s b s' ∧ Represents (model T True) s' G ∧ G.entry = F.entry

theorem Answers.unique {m : VecProg T Bool} {b c : Bool} (hb : Answers m s F b)
    (hc : Answers m s F c) : b = c := by
  obtain ⟨_, _, hb, _⟩ := hb
  obtain ⟨_, _, hc, _⟩ := hc
  exact (hb.unique hc).1

theorem Answers.not {m : VecProg T Bool} {b : Bool} (hb : Answers m s F b) :
    Answers (do return !(← m)) s F (!b) := by
  obtain ⟨s', G, hret, hG⟩ := hb
  exact ⟨s', G, Returns.bind hret (Returns.pure _ s'), hG⟩

/-- What follows the making of the temporary vector `c`: the comparison `k == l` with it, the loop if
    they differ, the end of its life. -/
theorem compareFirst_returns (start : Bool) {c : Cells T} {s₁ : Store Fields T}
    (h₁ : Represents (model T True) s₁ (F.add c)) (hi : F.entry i = some t)
    (hj : F.entry j = some u) {k l n : Nat} {same : Bool}
    (hn : n = min t.elems.length u.elems.length)
    (heq : Returns (operatorEq E k l) s₁ same s₁) : ∃ s₂ G,
      Returns (do
        let same ← operatorEq E k l
        let flag ← (if same then pure start else notGreaterFrom E i j 0 n)
        destroy F.next
        return flag) s₁ (if same then start else notGreater E t.elems u.elems) s₂ ∧
      Represents (model T True) s₂ G ∧ G.entry = F.entry := by
  have hi₁ := Table.add_entry_old hi c
  have hj₁ := Table.add_entry_old hj c
  obtain ⟨s₂, hdrop, h₂⟩ := destroy_spec h₁ (F.add_entry_self c)
  refine ⟨s₂, _, Returns.bind heq ?_, h₂, F.add_erase_entry c⟩
  cases same with
  | true => exact Returns.bind (Returns.pure start s₁) (Returns.bind hdrop (Returns.pure _ s₂))
  | false =>
      exact Returns.bind (notGreaterFrom_returns h₁ hi₁ hj₁ n 0 (by omega))
        (Returns.bind hdrop (Returns.pure _ s₂))

theorem operatorLt_answers (hP : P.Generous) (hE : E.Copies)
    (h : Represents (model T True) s F) (hi : F.entry i = some t) (hj : F.entry j = some u) :
    Answers (operatorLt P E i j) s F (lessThan E t.elems u.elems) := by
  have hloop := notGreaterFrom_returns (E := E) h hi hj
  by_cases heq : t.elems.length = u.elems.length
  · refine ⟨s, F, ?_, h, rfl⟩
    refine Returns.bind (size_spec h hi) (Returns.bind (size_spec h hj) ?_)
    rw [if_pos heq, lessThan, if_pos heq]
    refine Returns.bind (operatorEq_spec h hi hj) ?_
    cases sameElems E t.elems u.elems with
    | true => exact Returns.pure false s
    | false => exact hloop t.elems.length 0 (by omega)
  · by_cases hlt : t.elems.length < u.elems.length
    · obtain ⟨s₁, c, hvec, hc, h₁⟩ := firstElems_spec hP hE h hj (Nat.le_of_lt hlt)
      have heq₁ := operatorEq_spec (E := E) h₁ (Table.add_entry_old hi c) (F.add_entry_self c)
      have hn : t.elems.length = min t.elems.length u.elems.length := by omega
      obtain ⟨s₂, G, hcompare, hG⟩ := compareFirst_returns true h₁ hi hj hn heq₁
      refine ⟨s₂, G, ?_, hG⟩
      refine Returns.bind (size_spec h hi) (Returns.bind (size_spec h hj) ?_)
      rw [if_neg heq, if_pos hlt, lessThan, if_neg heq, if_pos hlt, ← hc]
      exact Returns.bind hvec hcompare
    · obtain ⟨s₁, c, hvec, hc, h₁⟩ := firstElems_spec hP hE h hi (n := u.elems.length) (by omega)
      have heq₁ := operatorEq_spec (E := E) h₁ (F.add_entry_self c) (Table.add_entry_old hj c)
      have hn : u.elems.length = min t.elems.length u.elems.length := by omega
      obtain ⟨s₂, G, hcompare, hG⟩ := compareFirst_returns false h₁ hi hj hn heq₁
      refine ⟨s₂, G, ?_, hG⟩
      refine Returns.bind (size_spec h hi) (Returns.bind (size_spec h hj) ?_)
      rw [if_neg heq, if_neg hlt, lessThan, if_neg heq, if_neg hlt, ← hc]
      exact Returns.bind hvec hcompare

/-! ## Comparison with the lexicographic order -/

/-- The element type's `!=` and `>` are those of a linear order. -/
structure Element.Ordered [LinearOrder T] (E : Element T) : Prop where
  ne : ∀ x y, E.ne x y = true ↔ x ≠ y
  gt : ∀ x y, E.gt x y = true ↔ y < x

section Lexicographic

variable [LinearOrder T]

/-- After the first position in which the lists differ, no position of both has the opposite
    order. -/
def Steady : List T → List T → Prop
  | x :: xs, y :: ys =>
      (x < y → ∀ p ∈ xs.zip ys, p.1 ≤ p.2) ∧ (y < x → ∀ p ∈ xs.zip ys, p.2 ≤ p.1) ∧
        (x = y → Steady xs ys)
  | _, _ => True

instance Steady.decidable : ∀ xs ys : List T, Decidable (Steady xs ys)
  | [], _ => inferInstanceAs (Decidable True)
  | _ :: _, [] => inferInstanceAs (Decidable True)
  | x :: xs, y :: ys =>
      have := Steady.decidable xs ys
      inferInstanceAs (Decidable ((x < y → ∀ p ∈ xs.zip ys, p.1 ≤ p.2) ∧
        (y < x → ∀ p ∈ xs.zip ys, p.2 ≤ p.1) ∧ (x = y → Steady xs ys)))

/-- What `operator <` decides: no common position is greater on the left, and the right list does
    not begin the left one. -/
def Below (xs ys : List T) : Prop := (∀ p ∈ xs.zip ys, p.1 ≤ p.2) ∧ ¬ ys <+: xs

theorem notGreater_iff (hE : E.Ordered) {xs ys : List T} :
    notGreater E xs ys = true ↔ ∀ p ∈ xs.zip ys, p.1 ≤ p.2 := by
  rw [notGreater, List.all_eq_true]
  refine forall₂_congr fun p _ => ?_
  rw [Bool.not_eq_true', ← Bool.not_eq_true, hE.gt, not_lt]

theorem le_of_isPrefix {xs ys : List T} (h : xs <+: ys) : ∀ p ∈ xs.zip ys, p.1 ≤ p.2 := by
  obtain ⟨zs, rfl⟩ := h
  intro p hp
  obtain ⟨k, hk⟩ := List.getElem?_of_mem hp
  rw [List.getElem?_zip_eq_some] at hk
  obtain ⟨hx, hy⟩ := hk
  have hlt : k < xs.length := (List.getElem?_eq_some_iff.1 hx).1
  rw [List.getElem?_append_left hlt, hx] at hy
  exact le_of_eq (Option.some.inj hy)

theorem lessThan_iff (hE : E.Ordered) {xs ys : List T} :
    lessThan E xs ys = true ↔ Below xs ys := by
  have hsame : ∀ {as bs : List T}, sameElems E as bs = true ↔ as = bs := sameElems_iff hE.ne
  rw [lessThan, Below]
  by_cases heq : xs.length = ys.length
  · have hpre : ys <+: xs ↔ xs = ys :=
      ⟨fun h => (h.eq_of_length heq.symm).symm, fun h => h ▸ List.prefix_refl _⟩
    rw [if_pos heq, hpre]
    by_cases h : xs = ys
    · rw [if_pos (hsame.2 h)]
      simp [h]
    · rw [if_neg (mt hsame.1 h), notGreater_iff hE]
      simp [h]
  · rw [if_neg heq]
    by_cases hlt : xs.length < ys.length
    · have hpre : ¬ ys <+: xs := fun h => absurd h.length_le (by omega)
      rw [if_pos hlt]
      by_cases h : xs = ys.take xs.length
      · rw [if_pos (hsame.2 h)]
        have hle := le_of_isPrefix (List.prefix_iff_eq_take.2 h)
        simp only [hpre, not_false_eq_true, and_true, true_iff]
        exact hle
      · rw [if_neg (mt hsame.1 h), notGreater_iff hE]
        simp [hpre]
    · have hpre : ys <+: xs ↔ xs.take ys.length = ys := by
        rw [List.prefix_iff_eq_take]
        exact eq_comm
      rw [if_neg hlt, hpre]
      by_cases h : xs.take ys.length = ys
      · rw [if_pos (hsame.2 h)]
        simp [h]
      · rw [if_neg (mt hsame.1 h), notGreater_iff hE]
        simp [h]

theorem below_cons {x y : T} {xs ys : List T} : Below (x :: xs) (y :: ys) ↔
    (x ≤ y ∧ ∀ p ∈ xs.zip ys, p.1 ≤ p.2) ∧ ¬ (x = y ∧ ys <+: xs) := by
  rw [Below, List.zip_cons_cons, List.forall_mem_cons, List.cons_prefix_cons, eq_comm (a := y)]

/-- **Where `operator <` is the lexicographic order.** Between two lists it answers as the order
    does, in both directions, exactly when the lists are steady. -/
theorem below_iff_lt_iff (xs ys : List T) :
    ((Below xs ys ↔ xs < ys) ∧ (Below ys xs ↔ ys < xs)) ↔ Steady xs ys := by
  induction xs generalizing ys with
  | nil =>
      cases ys with
      | nil => simp [Below, Steady]
      | cons y ys => simp [Below, Steady]
  | cons x xs ih =>
      cases ys with
      | nil => simp [Below, Steady]
      | cons y ys =>
          rw [below_cons, below_cons, List.cons_lt_cons_iff, List.cons_lt_cons_iff, Steady]
          rcases lt_trichotomy x y with hlt | rfl | hgt
          · simp [hlt, hlt.le, hlt.ne, hlt.ne', not_lt.2 hlt.le, not_le.2 hlt]
          · simp only [le_refl, true_and, lt_irrefl, false_or, forall_true_left, false_implies]
            exact ih ys
          · have hswap : (∀ p ∈ ys.zip xs, p.1 ≤ p.2) ↔ ∀ p ∈ xs.zip ys, p.2 ≤ p.1 := by
              rw [← List.zip_swap, List.forall_mem_map]
              rfl
            rw [hswap]
            simp [hgt, hgt.le, hgt.ne, hgt.ne', not_lt.2 hgt.le, not_le.2 hgt]

/-- The relational operators, used on the vectors numbered in `S`, are the lexicographic order. -/
structure Lexicographic (P : Platform T) (E : Element T) (s : Store Fields T)
    (F : Table (Cells T)) (S : Set Nat) : Prop where
  lt : ∀ i ∈ S, ∀ j ∈ S, ∀ t u, F.entry i = some t → F.entry j = some u →
    Answers (operatorLt P E i j) s F (decide (t.elems < u.elems))
  gt : ∀ i ∈ S, ∀ j ∈ S, ∀ t u, F.entry i = some t → F.entry j = some u →
    Answers (operatorGt P E i j) s F (decide (u.elems < t.elems))
  le : ∀ i ∈ S, ∀ j ∈ S, ∀ t u, F.entry i = some t → F.entry j = some u →
    Answers (operatorLe P E i j) s F (decide (t.elems ≤ u.elems))
  ge : ∀ i ∈ S, ∀ j ∈ S, ∀ t u, F.entry i = some t → F.entry j = some u →
    Answers (operatorGe P E i j) s F (decide (u.elems ≤ t.elems))
  irrefl : ∀ i ∈ S, ¬ Answers (operatorLt P E i i) s F true
  trans : ∀ i ∈ S, ∀ j ∈ S, ∀ k ∈ S, Answers (operatorLt P E i j) s F true →
    Answers (operatorLt P E j k) s F true → Answers (operatorLt P E i k) s F true
  trichotomy : ∀ i ∈ S, ∀ j ∈ S, ∃ before same after,
    Answers (operatorLt P E i j) s F before ∧ Answers (operatorEq E i j) s F same ∧
    Answers (operatorLt P E j i) s F after ∧
    [before, same, after].count true = 1

/-- **The relational operators are the lexicographic order** on a set of vectors exactly when its
    vectors are pairwise steady. -/
theorem lexicographic_iff_steady (hP : P.Generous) (hE : E.Copies) (hord : E.Ordered)
    (h : Represents (model T True) s F) (S : Set Nat) (hS : ∀ i ∈ S, ∃ t, F.entry i = some t) :
    Lexicographic P E s F S ↔ ∀ i ∈ S, ∀ j ∈ S, ∀ t u, F.entry i = some t → F.entry j = some u →
      Steady t.elems u.elems := by
  constructor
  · intro hlex i hiS j hjS t u hi hj
    have hij := (hlex.lt i hiS j hjS t u hi hj).unique (operatorLt_answers hP hE h hi hj)
    have hji := (hlex.lt j hjS i hiS u t hj hi).unique (operatorLt_answers hP hE h hj hi)
    rw [← below_iff_lt_iff, ← lessThan_iff hord, ← lessThan_iff hord, ← hij, ← hji]
    simp only [decide_eq_true_eq, and_self]
  · intro hsteady
    have hlt : ∀ i ∈ S, ∀ j ∈ S, ∀ t u, F.entry i = some t → F.entry j = some u →
        Answers (operatorLt P E i j) s F (decide (t.elems < u.elems)) := by
      intro i hiS j hjS t u hi hj
      have hbelow := ((below_iff_lt_iff _ _).2 (hsteady i hiS j hjS t u hi hj)).1
      have heq : decide (t.elems < u.elems) = lessThan E t.elems u.elems := by
        rw [Bool.eq_iff_iff, decide_eq_true_eq, lessThan_iff hord, hbelow]
      rw [heq]
      exact operatorLt_answers hP hE h hi hj
    have hle : ∀ xs ys : List T, (!decide (ys < xs)) = decide (xs ≤ ys) := fun xs ys => by
      rw [← decide_not]
      exact decide_eq_decide.2 not_lt
    refine ⟨hlt, fun i hiS j hjS t u hi hj => hlt j hjS i hiS u t hj hi, ?_, ?_, ?_, ?_, ?_⟩
    · intro i hiS j hjS t u hi hj
      rw [← hle]
      exact (hlt j hjS i hiS u t hj hi).not
    · intro i hiS j hjS t u hi hj
      rw [← hle]
      exact (hlt i hiS j hjS t u hi hj).not
    · intro i hiS htrue
      obtain ⟨t, hi⟩ := hS i hiS
      have hself := htrue.unique (hlt i hiS i hiS t t hi hi)
      exact absurd (of_decide_eq_true hself.symm) (List.lt_irrefl _)
    · intro i hiS j hjS k hkS hij hjk
      obtain ⟨t, hi⟩ := hS i hiS
      obtain ⟨u, hj⟩ := hS j hjS
      obtain ⟨v, hk⟩ := hS k hkS
      have htu := of_decide_eq_true (hij.unique (hlt i hiS j hjS t u hi hj)).symm
      have huv := of_decide_eq_true (hjk.unique (hlt j hjS k hkS u v hj hk)).symm
      have hik := hlt i hiS k hkS t v hi hk
      rwa [decide_eq_true (List.lt_trans htu huv)] at hik
    · intro i hiS j hjS
      obtain ⟨t, hi⟩ := hS i hiS
      obtain ⟨u, hj⟩ := hS j hjS
      refine ⟨_, _, _, hlt i hiS j hjS t u hi hj, ⟨s, F, operatorEq_spec h hi hj, h, rfl⟩,
        hlt j hjS i hiS u t hj hi, ?_⟩
      have hsame : sameElems E t.elems u.elems = decide (t.elems = u.elems) := by
        rw [Bool.eq_iff_iff, decide_eq_true_eq, sameElems_iff hord.ne]
      rw [hsame]
      rcases lt_trichotomy t.elems u.elems with hlt | heq | hgt
      · simp [hlt, hlt.ne, not_lt.2 hlt.le]
      · simp [heq]
      · simp [hgt, hgt.ne', not_lt.2 hgt.le]

end Lexicographic

/-- Two vectors of `int`, the first a proper beginning of the second. -/
theorem lexicographic_iff_steady_ints : ∃ s F,
    Returns (runAll (Op.run (Platform.zeroed 0) (Element.builtin 0))
      [.construct 2 (.value 1), .construct 3 (.value 1)]) Store.empty () s ∧
    (F.entry 0).map Cells.elems = some [1, 1] ∧ (F.entry 1).map Cells.elems = some [1, 1, 1] ∧
    Lexicographic (Platform.zeroed 0) (Element.builtin 0) s F {0, 1} := by
  obtain ⟨s, hret, h⟩ := runs_meet (Platform.zeroed_generous 0) (Element.builtin_copies 0)
    [.construct 2 (.value 1), .construct 3 (.value 1)] (by simp)
  refine ⟨s, _, hret, rfl, rfl, (lexicographic_iff_steady (Platform.zeroed_generous 0)
    (Element.builtin_copies 0) ⟨?_, ?_⟩ h {0, 1} ?_).2 ?_⟩
  · intro x y
    exact decide_eq_true_iff
  · intro x y
    exact decide_eq_true_iff
  · rintro i (rfl | rfl)
    · exact ⟨_, rfl⟩
    · exact ⟨_, rfl⟩
  · rintro i (rfl | rfl) j (rfl | rfl) t u hi hj
    all_goals
      cases hi
      cases hj
      decide

/-- `{1, 3} < {2, 1}` is answered with `false`: 1 is smaller than 2, but the loop goes on and finds
    3 greater than 1. -/
theorem operatorLt_not_lexicographic : ∃ s F,
    Returns (runAll (Op.run (Platform.zeroed 0) (Element.builtin 0))
      [.construct 2 (.value 1), .write 0 .back (.value 3), .construct 2 (.value 1),
        .write 1 .front (.value 2)]) Store.empty () s ∧
    (F.entry 0).map Cells.elems = some [1, 3] ∧ (F.entry 1).map Cells.elems = some [2, 1] ∧
    Answers (operatorLt (Platform.zeroed 0) (Element.builtin 0) 0 1) s F false ∧
    [1, 3] < [2, 1] := by
  obtain ⟨s, hret, h⟩ := runs_meet (Platform.zeroed_generous 0) (Element.builtin_copies 0)
    [.construct 2 (.value 1), .write 0 .back (.value 3), .construct 2 (.value 1),
      .write 1 .front (.value 2)] (by simp)
  have hanswer := operatorLt_answers (Platform.zeroed_generous 0) (Element.builtin_copies 0)
    (i := 0) (j := 1) h rfl rfl
  exact ⟨s, _, hret, rfl, rfl, hanswer, by decide⟩

end LinuxSamples.Vector
