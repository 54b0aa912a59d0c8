import LinuxSamples.Stl.Vector
import Mathlib.Data.Nat.Log
import Mathlib.Order.Bounds.Basic

set_option autoImplicit false

/-! # The capacity `reserve` settles on

The doubling loop of `reserve` ends with the least power of two that is at least the requested size,
for every request up to `2 ^ 63`. A larger request makes the capacity wrap to 0, and the loop never
ends. -/

namespace LinuxSamples.Vector

open LinuxSamples.Memory

/-- The largest request the doubling loop can meet. -/
def maxRequest : Nat := 2 ^ 63

/-- The least power of two at least `n`. -/
def leastPow (n : Nat) : Nat := 2 ^ Nat.clog 2 n

theorem le_leastPow (n : Nat) : n ≤ leastPow n := Nat.le_pow_clog (by decide) n

theorem leastPow_mono {m n : Nat} (h : m ≤ n) : leastPow m ≤ leastPow n :=
  Nat.pow_le_pow_right (by decide) (Nat.clog_mono_right 2 h)

theorem leastPow_pos (n : Nat) : 0 < leastPow n := Nat.pow_pos (by decide)

theorem leastPow_isLeast (n : Nat) : IsLeast {c | (∃ k, c = 2 ^ k) ∧ n ≤ c} (leastPow n) := by
  refine ⟨⟨⟨_, rfl⟩, le_leastPow n⟩, ?_⟩
  rintro c ⟨⟨k, rfl⟩, hn⟩
  exact Nat.pow_le_pow_right (by decide) (Nat.clog_le_of_le_pow hn)

theorem leastPow_lt_two_mul {n : Nat} (hn : 0 < n) : leastPow n < 2 * n := by
  by_cases h1 : n = 1
  · subst h1
    simp [leastPow]
  · have hpred := Nat.pow_pred_clog_lt_self (b := 2) (by decide) (x := n) (by omega)
    have hpos := Nat.clog_pos (b := 2) (by decide) (n := n) (by omega)
    have hsucc : leastPow n = 2 * 2 ^ (Nat.clog 2 n).pred := by
      rw [leastPow, ← Nat.pow_succ', Nat.succ_pred_eq_of_pos hpos]
    omega

theorem leastPow_of_le {m n : Nat} (hmn : m ≤ n) (hn : n ≤ leastPow m) :
    leastPow n = leastPow m := by
  apply Nat.le_antisymm
  · exact (leastPow_isLeast n).2 ⟨⟨_, rfl⟩, hn⟩
  · exact leastPow_mono hmn

theorem leastPow_le_max {n : Nat} (hn : n ≤ maxRequest) : leastPow n ≤ maxRequest :=
  (leastPow_isLeast n).2 ⟨⟨63, rfl⟩, hn⟩

/-! ## The capacity after a `reserve` -/

/-- The capacity after `reserve(n)`. -/
def room (capacity n : Nat) : Nat := if capacity < n then leastPow n else capacity

/-- The capacity of a vector that has needed room for `peak` elements. -/
def capacityFor (peak : Nat) : Nat := if peak = 0 then 0 else leastPow peak

theorem le_room (capacity n : Nat) : n ≤ room capacity n := by
  unfold room
  split
  · exact le_leastPow n
  · omega

theorem room_of_le {capacity n : Nat} (h : n ≤ capacity) : room capacity n = capacity :=
  if_neg (by omega)

theorem room_of_lt {capacity n : Nat} (h : capacity < n) : room capacity n = leastPow n := if_pos h

theorem le_capacityFor (peak : Nat) : peak ≤ capacityFor peak := by
  unfold capacityFor
  split
  · omega
  · exact le_leastPow peak

theorem capacityFor_mono {p q : Nat} (h : p ≤ q) : capacityFor p ≤ capacityFor q := by
  unfold capacityFor
  split
  · exact Nat.zero_le _
  · rw [if_neg (by omega)]
    exact leastPow_mono h

theorem capacityFor_le_max {peak : Nat} (h : peak ≤ maxRequest) :
    capacityFor peak ≤ maxRequest := by
  unfold capacityFor
  split
  · exact Nat.zero_le _
  · exact leastPow_le_max h

/-- **The capacity law is kept by `reserve`**: skipping the growth when the capacity suffices leaves
    it on the least power of two for the new peak. -/
theorem room_capacityFor (peak n : Nat) : room (capacityFor peak) n = capacityFor (max peak n) := by
  have hle := le_capacityFor peak
  unfold room
  by_cases hlt : capacityFor peak < n
  · rw [if_pos hlt, Nat.max_eq_right (by omega), capacityFor, if_neg (by omega)]
  · rw [if_neg hlt]
    by_cases hzero : peak = 0
    · subst hzero
      have hn : n = 0 := by
        simp only [capacityFor, if_true] at hlt
        omega
      rw [hn, Nat.max_self]
    · rw [capacityFor, if_neg hzero, capacityFor, if_neg (by omega)]
      rw [capacityFor, if_neg hzero] at hlt hle
      exact (leastPow_of_le (Nat.le_max_left ..) (Nat.max_le.2 ⟨hle, by omega⟩)).symm

/-! ## Requests up to `2 ^ 63` -/

/-- The loop invariant: the capacity is `2 ^ k`, no larger than the least power that fits. -/
theorem doubling_eq {n : Nat} (hn : n ≤ maxRequest) :
    ∀ (fuel k : Nat), k ≤ Nat.clog 2 n → 64 ≤ fuel + k →
      doubling n fuel (2 ^ k) = some (leastPow n) := by
  have hclog : Nat.clog 2 n ≤ 63 := Nat.clog_le_of_le_pow hn
  intro fuel
  induction fuel with
  | zero => intro k hk hfuel; omega
  | succ fuel ih =>
      intro k hk hfuel
      rw [doubling]
      by_cases hlt : 2 ^ k < n
      · have hk' : k < Nat.clog 2 n := (Nat.lt_clog_iff_pow_lt (by decide)).2 hlt
        have hwrap : wrap (2 ^ k * 2) = 2 ^ (k + 1) := by
          rw [wrap, ← Nat.pow_succ, Nat.mod_eq_of_lt]
          exact Nat.pow_lt_pow_right (by decide) (by omega)
        rw [if_pos hlt, hwrap]
        exact ih (k + 1) hk' (by omega)
      · have hk' : Nat.clog 2 n ≤ k := Nat.clog_le_of_le_pow (Nat.le_of_not_lt hlt)
        rw [if_neg hlt, leastPow, Nat.le_antisymm hk' hk]

theorem grown_eq {n : Nat} (hpos : 0 < n) (hn : n ≤ maxRequest) : grown n = some (leastPow n) := by
  unfold grown
  split
  · next h1 => exact doubling_eq hn 64 1 (Nat.clog_pos (by decide) (by omega)) (by omega)
  · next h1 =>
      have : n = 1 := by omega
      subst this
      simp [leastPow]

/-! ## Larger requests -/

/-- Beyond `2 ^ 63` the loop only ever sees the powers `2, 4, …, 2 ^ 63` and then 0. -/
theorem doubling_diverges {n : Nat} (hn : maxRequest < n) :
    ∀ (fuel capacity : Nat), (capacity = 0 ∨ ∃ k, k ≤ 63 ∧ capacity = 2 ^ k) →
      doubling n fuel capacity = none := by
  intro fuel
  induction fuel with
  | zero => intro capacity _; rfl
  | succ fuel ih =>
      intro capacity hcap
      have hlt : capacity < n := by
        rcases hcap with rfl | ⟨k, hk, rfl⟩
        · omega
        · exact lt_of_le_of_lt (Nat.pow_le_pow_right (by decide) hk) hn
      rw [doubling, if_pos hlt]
      apply ih
      rcases hcap with rfl | ⟨k, hk, rfl⟩
      · exact Or.inl rfl
      · by_cases h63 : k = 63
        · subst h63
          exact Or.inl (by decide)
        · refine Or.inr ⟨k + 1, by omega, ?_⟩
          rw [wrap, ← Nat.pow_succ, Nat.mod_eq_of_lt]
          exact Nat.pow_lt_pow_right (by decide) (by omega)

theorem grown_diverges {n : Nat} (hn : maxRequest < n) : grown n = none := by
  have h1 : 1 < n := lt_trans (by decide) hn
  rw [grown, if_pos h1]
  exact doubling_diverges hn 64 2 (Or.inr ⟨1, by decide, rfl⟩)

/-! ## When the loop ends -/

/-- The capacity after `reserve(n)`, if its loop makes at most the given number of tests. -/
def capacityAfter (tests capacity n : Nat) : Option Nat :=
  if capacity < n then if 1 < n then doubling n tests 2 else some 1 else some capacity

/-- Sixty-four tests are enough for every loop that ends. -/
theorem capacityAfter_room {capacity n : Nat} (h : n ≤ capacity ∨ n ≤ maxRequest) :
    capacityAfter 64 capacity n = some (room capacity n) := by
  unfold capacityAfter room
  split
  · next hlt => exact grown_eq (by omega) (h.resolve_left (by omega))
  · rfl

theorem capacityAfter_diverges {capacity n : Nat} (hcap : capacity < n) (hn : maxRequest < n)
    (tests : Nat) : capacityAfter tests capacity n = none := by
  rw [capacityAfter, if_pos hcap, if_pos (lt_trans (by decide) hn)]
  exact doubling_diverges hn tests 2 (Or.inr ⟨1, by decide, rfl⟩)

/-- **The loop of `reserve` ends**, and then with room for the request, exactly if there was room before
    or the request is at most `2 ^ 63`. -/
theorem reserve_loop_ends (capacity n : Nat) :
    (∃ tests c, capacityAfter tests capacity n = some c ∧ n ≤ c) ↔
      n ≤ capacity ∨ n ≤ maxRequest := by
  constructor
  · rintro ⟨tests, c, hc, _⟩
    by_contra hno
    rw [not_or, Nat.not_le, Nat.not_le] at hno
    rw [capacityAfter_diverges hno.1 hno.2] at hc
    cases hc
  · exact fun h => ⟨64, _, capacityAfter_room h, le_room capacity n⟩

/-- `vector<T> v; v.reserve(9223372036854775809);` -/
theorem reserve_loop_never_ends :
    ¬ ∃ tests c, capacityAfter tests 0 9223372036854775809 = some c ∧ 9223372036854775809 ≤ c := by
  rintro ⟨tests, c, hc, _⟩
  rw [capacityAfter_diverges (by decide) (by decide)] at hc
  cases hc

end LinuxSamples.Vector
