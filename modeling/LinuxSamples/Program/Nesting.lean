import LinuxSamples.Program.Runs

set_option autoImplicit false

/-! # Programs that call themselves

A recursive program is given by its approximations: `m depth` is the program that is cut off where
calls are nested deeper than `depth`. It terminates if all approximations from some depth on return
the same. -/

namespace LinuxSamples.Program

variable {ε σ α β Op : Type} {m : Nat → EStateM ε σ α} {s s₁ s₂ : σ} {a : α} {b : β}

/-- Started in `s`, the program with the approximations `m` ends with result `a` in state `s₁`. -/
def Terminates (m : Nat → EStateM ε σ α) (s : σ) (a : α) (s₁ : σ) : Prop :=
  ∃ depth, ∀ d, depth ≤ d → Returns (m d) s a s₁

theorem Returns.terminates {m : EStateM ε σ α} (h : Returns m s a s₁) :
    Terminates (fun _ => m) s a s₁ :=
  ⟨0, fun _ _ => h⟩

theorem Terminates.bind {f : Nat → α → EStateM ε σ β} (hm : Terminates m s a s₁)
    (hf : Terminates (fun d => f d a) s₁ b s₂) : Terminates (fun d => m d >>= f d) s b s₂ := by
  obtain ⟨depth, hm⟩ := hm
  obtain ⟨depth', hf⟩ := hf
  refine ⟨max depth depth', fun d hd => ?_⟩
  exact (hm d (by omega)).bind (hf d (by omega))

/-- One more level of nesting. -/
theorem Terminates.deeper (h : Terminates (fun d => m (d + 1)) s a s₁) : Terminates m s a s₁ := by
  obtain ⟨depth, hm⟩ := h
  refine ⟨depth + 1, fun d hd => ?_⟩
  cases d with
  | zero => exact absurd hd (Nat.not_succ_le_zero depth)
  | succ d => exact hm d (Nat.le_of_succ_le_succ hd)

/-- A program that fails at every depth does not terminate. -/
theorem Terminates.not_fails {e : ε} (h : Terminates m s a s₁) : ¬ ∀ d, Fails (m d) s e := by
  obtain ⟨depth, hm⟩ := h
  exact fun hfail => (hm depth (Nat.le_refl depth)).not_fails (hfail depth)

/-- The rule for sequences of operations: an invariant of the operations made so far and the state. -/
theorem runAll_terminates {step : Nat → Op → EStateM ε σ Unit} {I : List Op → σ → Prop}
    (hstep : ∀ made op s, I made s →
      ∃ s', Terminates (fun d => step d op) s () s' ∧ I (made ++ [op]) s') (ops : List Op) :
    ∀ made s, I made s →
      ∃ s', Terminates (fun d => runAll (step d) ops) s () s' ∧ I (made ++ ops) s' := by
  induction ops with
  | nil =>
      intro made s h
      rw [List.append_nil]
      exact ⟨s, (Returns.pure () s).terminates, h⟩
  | cons op rest ih =>
      intro made s h
      obtain ⟨s₁, hop, h₁⟩ := hstep made op s h
      obtain ⟨s₂, hrest, h₂⟩ := ih (made ++ [op]) s₁ h₁
      rw [List.append_assoc, List.singleton_append] at h₂
      exact ⟨s₂, hop.bind hrest, h₂⟩

end LinuxSamples.Program
