import Mathlib.Algebra.BigOperators.Group.Finset.Piecewise
import Mathlib.Data.Fintype.Basic

set_option autoImplicit false

/-! # How many processes are where

A system of finitely many processes, each of which is at some place; `tally` counts those at a place
of a given kind. When one process moves, the counts change by its place before and after. -/

namespace LinuxSamples.Program

variable {ι P : Type} [Fintype ι] {place : ι → P} {kind : P → Prop} [DecidablePred kind]

/-- The number of processes at a place of the given kind. -/
def tally (place : ι → P) (kind : P → Prop) [DecidablePred kind] : Nat :=
  (Finset.univ.filter fun i => kind (place i)).card

theorem tally_eq_sum : tally place kind = ∑ i, if kind (place i) then 1 else 0 :=
  Finset.card_filter ..

/-- One process moves. -/
theorem tally_update [DecidableEq ι] (i : ι) (p : P) :
    tally (Function.update place i p) kind + (if kind (place i) then 1 else 0)
      = tally place kind + if kind p then 1 else 0 := by
  have hrest : ∑ j ∈ Finset.univ.erase i, (if kind (Function.update place i p j) then 1 else 0)
      = ∑ j ∈ Finset.univ.erase i, if kind (place j) then 1 else 0 := by
    refine Finset.sum_congr rfl fun j hj => ?_
    rw [Function.update_of_ne (Finset.ne_of_mem_erase hj)]
  rw [tally_eq_sum, tally_eq_sum, ← Finset.add_sum_erase _ _ (Finset.mem_univ i),
    ← Finset.add_sum_erase _ (fun j => if kind (place j) then 1 else 0) (Finset.mem_univ i), hrest,
    Function.update_self]
  omega

theorem tally_eq_zero : tally place kind = 0 ↔ ∀ i, ¬ kind (place i) := by
  simp [tally, Finset.card_eq_zero, Finset.filter_eq_empty_iff]

theorem tally_mono {kind' : P → Prop} [DecidablePred kind'] (h : ∀ p, kind p → kind' p) :
    tally place kind ≤ tally place kind' :=
  Finset.card_le_card (Finset.monotone_filter_right _ fun i _ => h (place i))

end LinuxSamples.Program
