import Mathlib.Algebra.Ring.Nat
import Mathlib.Data.Option.Basic

set_option autoImplicit false

/-! # Integers as doubles

A double holds an integer if this has at most 53 significant binary digits and is below `2 ^ 1024`. Of
any other integer it holds the nearest such, of two equally near the one with the even significand, or
infinity. -/

namespace LinuxSamples.Number

/-- The digits of a significand. -/
def precision : Nat := 53

/-- `2 ^ 1024`, where the exponents end. -/
def limit : Nat := (2 ^ 256) ^ 4

/-- A double has this value. -/
def IsDouble (n : Nat) : Prop := n < limit ∧ ∃ m e, m < 2 ^ precision ∧ n = m * 2 ^ e

/-- How many of the binary digits are too many. -/
def excess (n : Nat) : Nat := n.log2 + 1 - precision

/-- The integer nearest to `n / d`, of two the even one. -/
def roundDiv (n d : Nat) : Nat :=
  if 2 * (n % d) < d ∨ 2 * (n % d) = d ∧ n / d % 2 = 0 then n / d else n / d + 1

/-- What a double holds of `n`; `none` is infinity. -/
def nearest (n : Nat) : Option Nat :=
  if roundDiv n (2 ^ excess n) * 2 ^ excess n < limit then
    some (roundDiv n (2 ^ excess n) * 2 ^ excess n)
  else none

/-- What a double holds of an integer. -/
def rounded : Int → Option Int
  | .ofNat n => (nearest n).map Int.ofNat
  | .negSucc n => (nearest (n + 1)).map fun k => -(k : Int)

variable {n : Nat}

theorem roundDiv_of_dvd {d : Nat} (hd : 0 < d) (h : d ∣ n) : roundDiv n d = n / d := by
  rw [roundDiv, Nat.mod_eq_zero_of_dvd h, if_pos (Or.inl (by omega))]

theorem lt_significand (n : Nat) : n < 2 ^ precision * 2 ^ excess n := by
  rw [← Nat.pow_add]
  refine Nat.lt_of_lt_of_le Nat.lt_log2_self (Nat.pow_le_pow_right (by decide) ?_)
  rw [excess]
  omega

theorem excess_le {m e : Nat} (hm : m < 2 ^ precision) (hn : n = m * 2 ^ e) : excess n ≤ e := by
  rcases Nat.eq_zero_or_pos n with hzero | hpos
  · rw [hzero]
    exact Nat.zero_le e
  · have hlt : n < 2 ^ (precision + e) := by
      rw [hn, Nat.pow_add]
      exact Nat.mul_lt_mul_of_pos_right hm (Nat.two_pow_pos e)
    have hlog := (Nat.log2_lt (Nat.ne_of_gt hpos)).2 hlt
    rw [excess]
    omega

/-- **The integers that survive.** -/
theorem nearest_eq_iff : nearest n = some n ↔ IsDouble n := by
  have hpos : 0 < 2 ^ excess n := Nat.two_pow_pos _
  constructor
  · intro h
    unfold nearest at h
    split at h
    · next hlt =>
        have heq := Option.some.inj h
        have hdvd : 2 ^ excess n ∣ n := ⟨_, (heq.symm.trans (Nat.mul_comm ..))⟩
        refine ⟨heq ▸ hlt, n / 2 ^ excess n, excess n, ?_, (Nat.div_mul_cancel hdvd).symm⟩
        exact Nat.div_lt_of_lt_mul (Nat.mul_comm .. ▸ lt_significand n)
    · cases h
  · rintro ⟨hlt, m, e, hm, hn⟩
    have hdvd : 2 ^ excess n ∣ n := by
      rw [hn]
      exact Nat.dvd_mul_left_of_dvd (Nat.pow_dvd_pow 2 (hn ▸ excess_le hm hn)) m
    have hr : roundDiv n (2 ^ excess n) * 2 ^ excess n = n := by
      rw [roundDiv_of_dvd hpos hdvd, Nat.div_mul_cancel hdvd]
    rw [nearest, hr, if_pos hlt]

instance (n : Nat) : Decidable (IsDouble n) := decidable_of_iff _ nearest_eq_iff

theorem rounded_natCast_iff : rounded n = some (n : Int) ↔ IsDouble n := by
  rw [← nearest_eq_iff]
  show (nearest n).map Int.ofNat = (some n).map Int.ofNat ↔ _
  exact (Option.map_injective fun _ _ h => Int.ofNat.inj h).eq_iff

example : nearest (2 ^ 53 + 1) = some (2 ^ 53) := by decide +kernel

end LinuxSamples.Number
