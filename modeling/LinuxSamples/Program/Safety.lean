import LinuxSamples.Program.Runs

set_option autoImplicit false

/-! # Partial correctness without a given fault

`Avoids bad m s Q`: started in `s`, the program does not stop with the fault `bad`, and where it
returns, `Q` holds. Unlike `Returns` it says nothing about other faults, so it speaks about all the
runs of a program at once. `Within` is the special case of a program that moves along a preorder.
Where the state a fault leaves behind matters, `Ends` adds what holds of it. -/

namespace LinuxSamples.Program

variable {ε σ α β Op : Type} {bad : ε}

/-- Started in `s`, `m` does not stop with `bad`, and where it returns, `Q` holds of the result and
    the new state. -/
structure Avoids (bad : ε) (m : EStateM ε σ α) (s : σ) (Q : α → σ → Prop) : Prop where
  not_fails : ¬ Fails m s bad
  ensures : ∀ a s', Returns m s a s' → Q a s'

/-- Started in `s`, `m` stops with fault `e` in state `s'`. -/
def Stops (m : EStateM ε σ α) (s : σ) (e : ε) (s' : σ) : Prop := m.run s = .error e s'

theorem Stops.fails {m : EStateM ε σ α} {s s' : σ} {e : ε} (h : Stops m s e s') : Fails m s e :=
  ⟨s', h⟩

instance Stops.decidableAfter [DecidableEq ε] (m : EStateM ε σ Unit) (s : σ) (e : ε) (Q : σ → Prop)
    [DecidablePred Q] : Decidable (∃ s', Stops m s e s' ∧ Q s') :=
  match h : m s with
  | .ok () s' => isFalse fun ⟨_, hstop, _⟩ => Returns.not_fails h hstop.fails
  | .error e' s' => decidable_of_iff (e' = e ∧ Q s') (by
      constructor
      · rintro ⟨rfl, hQ⟩
        exact ⟨s', h, hQ⟩
      · rintro ⟨s₁, hstop, hQ⟩
        cases h.symm.trans hstop
        exact ⟨rfl, hQ⟩)

theorem Stops.bind_left {m : EStateM ε σ α} {f : α → EStateM ε σ β} {s s' : σ} {e : ε}
    (h : Stops m s e s') : Stops (m >>= f) s e s' := by
  have h' : m s = .error e s' := h
  show EStateM.bind m f s = _
  rw [EStateM.bind, h']

/-- A sequence that stopped did so in its first part, or after it. -/
theorem Stops.bind_inv {m : EStateM ε σ α} {f : α → EStateM ε σ β} {s s' : σ} {e : ε}
    (h : Stops (m >>= f) s e s') :
    Stops m s e s' ∨ ∃ a s₁, Returns m s a s₁ ∧ Stops (f a) s₁ e s' := by
  have h' : EStateM.bind m f s = .error e s' := h
  rw [EStateM.bind] at h'
  split at h'
  · next a s₁ hm => exact Or.inr ⟨a, s₁, hm, h'⟩
  · next e' s₁ hm =>
      cases h'
      exact Or.inl hm

/-- Where the first part returns, the sequence stops as its second part does. -/
theorem Stops.bind_iff {m : EStateM ε σ α} {f : α → EStateM ε σ β} {s s₁ s' : σ} {a : α} {e : ε}
    (hm : Returns m s a s₁) : Stops (m >>= f) s e s' ↔ Stops (f a) s₁ e s' := by
  have hm' : m s = .ok a s₁ := hm
  show EStateM.bind m f s = _ ↔ _
  rw [EStateM.bind, hm']
  exact Iff.rfl

theorem Fails.bind_iff {m : EStateM ε σ α} {f : α → EStateM ε σ β} {s s₁ : σ} {a : α} {e : ε}
    (hm : Returns m s a s₁) : Fails (m >>= f) s e ↔ Fails (f a) s₁ e :=
  exists_congr fun _ => Stops.bind_iff hm

theorem Fails.bind_inv {m : EStateM ε σ α} {f : α → EStateM ε σ β} {s : σ} {e : ε}
    (h : Fails (m >>= f) s e) : Fails m s e ∨ ∃ a s₁, Returns m s a s₁ ∧ Fails (f a) s₁ e := by
  obtain ⟨s', hstop⟩ := h
  rcases Stops.bind_inv hstop with hm | ⟨a, s₁, hret, hf⟩
  · exact Or.inl ⟨s', hm⟩
  · exact Or.inr ⟨a, s₁, hret, s', hf⟩

theorem Avoids.of_returns {m : EStateM ε σ α} {s s' : σ} {a : α} {Q : α → σ → Prop}
    (hm : Returns m s a s') (h : Q a s') : Avoids bad m s Q where
  not_fails := hm.not_fails
  ensures b s₁ hret := by
    obtain ⟨rfl, rfl⟩ := hm.unique hret
    exact h

theorem Avoids.of_fails {m : EStateM ε σ α} {s : σ} {e : ε} {Q : α → σ → Prop}
    (hm : Fails m s e) (hne : e ≠ bad) : Avoids bad m s Q where
  not_fails := by
    obtain ⟨s₁, h₁⟩ := hm
    rintro ⟨s₂, h₂⟩
    rw [h₁] at h₂
    cases h₂
    exact hne rfl
  ensures _ _ hret := absurd hm hret.not_fails

theorem Avoids.pure {a : α} {s : σ} {Q : α → σ → Prop} (h : Q a s) :
    Avoids bad (Pure.pure a : EStateM ε σ α) s Q :=
  Avoids.of_returns (Returns.pure a s) h

theorem Avoids.mono {m : EStateM ε σ α} {s : σ} {Q Q' : α → σ → Prop} (h : Avoids bad m s Q)
    (hQ : ∀ a s', Q a s' → Q' a s') : Avoids bad m s Q' :=
  ⟨h.not_fails, fun a s' hret => hQ a s' (h.ensures a s' hret)⟩

/-- The rule for sequences. -/
theorem Avoids.bind {m : EStateM ε σ α} {f : α → EStateM ε σ β} {s : σ} {R : α → σ → Prop}
    {Q : β → σ → Prop} (hm : Avoids bad m s R)
    (hf : ∀ a s', R a s' → Avoids bad (f a) s' Q) : Avoids bad (m >>= f) s Q where
  not_fails hfail := by
    rcases hfail.bind_inv with hfail | ⟨a, s₁, hret, hfail⟩
    · exact hm.not_fails hfail
    · exact (hf a s₁ (hm.ensures a s₁ hret)).not_fails hfail
  ensures b s₂ hret := by
    obtain ⟨a, s₁, hret₁, hret₂⟩ := hret.bind_inv
    exact (hf a s₁ (hm.ensures a s₁ hret₁)).ensures b s₂ hret₂

/-! ## Programs that move along a preorder -/

variable {R : σ → σ → Prop}

/-- From every state, `m` avoids `bad` and leads to states related by `R`. -/
def Within (bad : ε) (R : σ → σ → Prop) (m : EStateM ε σ α) : Prop :=
  ∀ s, Avoids bad m s fun _ s' => R s s'

theorem Within.mono {R' : σ → σ → Prop} {m : EStateM ε σ α} (hm : Within bad R m)
    (hR : ∀ s s', R s s' → R' s s') : Within bad R' m := fun s =>
  (hm s).mono fun _ s' h => hR s s' h

theorem Within.pure (hrefl : ∀ s, R s s) (a : α) : Within bad R (Pure.pure a : EStateM ε σ α) :=
  fun s => Avoids.pure (hrefl s)

theorem Within.bind (htrans : ∀ s₁ s₂ s₃, R s₁ s₂ → R s₂ s₃ → R s₁ s₃) {m : EStateM ε σ α}
    {f : α → EStateM ε σ β} (hm : Within bad R m) (hf : ∀ a, Within bad R (f a)) :
    Within bad R (m >>= f) := fun s =>
  (hm s).bind fun a s₁ h₁ => (hf a s₁).mono fun _ s₂ h₂ => htrans s s₁ s₂ h₁ h₂

theorem Within.ite {c : Prop} [Decidable c] {m n : EStateM ε σ α} (hm : Within bad R m)
    (hn : Within bad R n) : Within bad R (if c then m else n) := by
  split
  · exact hm
  · exact hn

theorem Within.forUp (hrefl : ∀ s, R s s) (htrans : ∀ s₁ s₂ s₃, R s₁ s₂ → R s₂ s₃ → R s₁ s₃)
    {body : Nat → EStateM ε σ Unit} (hbody : ∀ i, Within bad R (body i)) (lo count : Nat) :
    Within bad R (forUp body lo count) := by
  induction count generalizing lo with
  | zero => exact Within.pure hrefl ()
  | succ count ih => exact (hbody lo).bind htrans fun _ => ih (lo + 1)

/-- What holds up to `R` still holds after a program that moves along `R`. -/
theorem Avoids.then_within {m : EStateM ε σ α} {f : α → EStateM ε σ β} {s : σ}
    {Q : α → σ → Prop} {Q' : σ → Prop} (hm : Avoids bad m s Q) (hf : ∀ a, Within bad R (f a))
    (hQ : ∀ a s₁ s₂, Q a s₁ → R s₁ s₂ → Q' s₂) : Avoids bad (m >>= f) s fun _ s' => Q' s' :=
  hm.bind fun a s₁ h₁ => (hf a s₁).mono fun _ s₂ h₂ => hQ a s₁ s₂ h₁ h₂

/-! ## The state a fault leaves behind -/

/-- Started in `s`, `m` leaves a result and a state with `Q` where it returns, and a state with `X`
    where it stops with `bad`. -/
structure Ends (bad : ε) (m : EStateM ε σ α) (s : σ) (Q : α → σ → Prop) (X : σ → Prop) : Prop where
  ensures : ∀ a s', Returns m s a s' → Q a s'
  leaves : ∀ s', Stops m s bad s' → X s'

theorem Avoids.ends {m : EStateM ε σ α} {s : σ} {Q : α → σ → Prop} (h : Avoids bad m s Q)
    (X : σ → Prop) : Ends bad m s Q X :=
  ⟨h.ensures, fun _ hstop => absurd hstop.fails h.not_fails⟩

theorem Ends.of_returns {m : EStateM ε σ α} {s s' : σ} {a : α} {Q : α → σ → Prop} {X : σ → Prop}
    (hm : Returns m s a s') (h : Q a s') : Ends bad m s Q X :=
  (Avoids.of_returns hm h).ends X

theorem Ends.pure {a : α} {s : σ} {Q : α → σ → Prop} {X : σ → Prop} (h : Q a s) :
    Ends bad (Pure.pure a : EStateM ε σ α) s Q X :=
  (Avoids.pure h).ends X

theorem Ends.mono {m : EStateM ε σ α} {s : σ} {Q : α → σ → Prop} {X X' : σ → Prop}
    (h : Ends bad m s Q X) (hX : ∀ s', X s' → X' s') : Ends bad m s Q X' :=
  ⟨h.ensures, fun s' hstop => hX s' (h.leaves s' hstop)⟩

theorem Ends.imp {m : EStateM ε σ α} {s : σ} {Q Q' : α → σ → Prop} {X X' : σ → Prop}
    (h : Ends bad m s Q X) (hQ : ∀ a s', Q a s' → Q' a s') (hX : ∀ s', X s' → X' s') :
    Ends bad m s Q' X' :=
  ⟨fun a s' hret => hQ a s' (h.ensures a s' hret), (h.mono hX).leaves⟩

/-- What is known of the end of a program may be used with the fact that it ended so. -/
theorem Ends.observed {m : EStateM ε σ α} {s : σ} {Q : α → σ → Prop} {X : σ → Prop}
    (h : Ends bad m s Q X) :
    Ends bad m s (fun a s' => Returns m s a s' ∧ Q a s') (fun s' => Stops m s bad s' ∧ X s') :=
  ⟨fun a s' hret => ⟨hret, h.ensures a s' hret⟩, fun s' hstop => ⟨hstop, h.leaves s' hstop⟩⟩

/-- The rule for sequences: the fault may come from either part. -/
theorem Ends.bind {m : EStateM ε σ α} {f : α → EStateM ε σ β} {s : σ} {R : α → σ → Prop}
    {Q : β → σ → Prop} {X : σ → Prop} (hm : Ends bad m s R X)
    (hf : ∀ a s', R a s' → Ends bad (f a) s' Q X) : Ends bad (m >>= f) s Q X where
  ensures b s₂ hret := by
    obtain ⟨a, s₁, hret₁, hret₂⟩ := hret.bind_inv
    exact (hf a s₁ (hm.ensures a s₁ hret₁)).ensures b s₂ hret₂
  leaves s₂ hstop := by
    rcases hstop.bind_inv with hstop | ⟨a, s₁, hret, hstop⟩
    · exact hm.leaves s₂ hstop
    · exact (hf a s₁ (hm.ensures a s₁ hret)).leaves s₂ hstop

theorem Ends.after {m : EStateM ε σ α} {f : α → EStateM ε σ β} {s s₁ : σ} {a : α}
    {Q : β → σ → Prop} {X : σ → Prop} (hm : Returns m s a s₁) (hf : Ends bad (f a) s₁ Q X) :
    Ends bad (m >>= f) s Q X :=
  ((Avoids.of_returns (Q := fun b s' => b = a ∧ s' = s₁) hm ⟨rfl, rfl⟩).ends X).bind
    fun b s' h => by
      obtain ⟨rfl, rfl⟩ := h
      exact hf

/-- What follows never stops with `bad`. -/
theorem Ends.then_within {m : EStateM ε σ α} {f : α → EStateM ε σ β} {s : σ} {Q : α → σ → Prop}
    {X : σ → Prop} (hm : Ends bad m s Q X) (hf : ∀ a, Within bad (fun _ _ => True) (f a)) :
    Ends bad (m >>= f) s (fun _ _ => True) X :=
  hm.bind fun a s₁ _ => (hf a s₁).ends X

theorem Ends.onlyIf {c : Prop} [Decidable c] {m : EStateM ε σ Unit} {s : σ} {Q : Unit → σ → Prop}
    {X : σ → Prop} (hyes : c → Ends bad m s Q X) (hno : ¬ c → Q () s) :
    Ends bad (onlyIf c m) s Q X := by
  by_cases hc : c
  · rw [onlyIf_pos hc]
    exact hyes hc
  · rw [onlyIf_neg hc]
    exact Ends.pure (hno hc)

/-- The loop rule: every iteration keeps the invariant, or leaves a state with `X`. -/
theorem Ends.forUp {body : Nat → EStateM ε σ Unit} {I : σ → Prop} {X : σ → Prop} {lo count : Nat}
    (hbody : ∀ i s, lo ≤ i → i < lo + count → I s → Ends bad (body i) s (fun _ => I) X) {s : σ}
    (hs : I s) : Ends bad (forUp body lo count) s (fun _ => I) X := by
  induction count generalizing lo s with
  | zero => exact Ends.pure hs
  | succ count ih =>
      refine (hbody lo s (Nat.le_refl lo) (by omega) hs).bind fun _ s₁ h₁ => ?_
      exact ih (fun i s hlo hhi => hbody i s (by omega) (by omega)) h₁

/-! ## On one part of the state -/

section Parts

variable {τ : Type}

theorem onFirst_returns_inv {m : EStateM ε σ α} {s s' : σ × τ} {a : α}
    (h : Returns (onFirst m) s a s') : Returns m s.1 a s'.1 ∧ s'.2 = s.2 := by
  have h' : onFirst m s = .ok a s' := h
  rw [onFirst] at h'
  split at h'
  · next b s₁ hm =>
      cases h'
      exact ⟨hm, rfl⟩
  · cases h'

theorem onFirst_stops_inv {m : EStateM ε σ α} {s s' : σ × τ} {e : ε} (h : Stops (onFirst m) s e s') :
    Stops m s.1 e s'.1 ∧ s'.2 = s.2 := by
  have h' : onFirst m s = .error e s' := h
  rw [onFirst] at h'
  split at h'
  · cases h'
  · next b s₁ hm =>
      cases h'
      exact ⟨hm, rfl⟩

theorem onSecond_returns_inv {m : EStateM ε τ α} {s s' : σ × τ} {a : α}
    (h : Returns (onSecond m) s a s') : Returns m s.2 a s'.2 ∧ s'.1 = s.1 := by
  have h' : onSecond m s = .ok a s' := h
  rw [onSecond] at h'
  split at h'
  · next b s₁ hm =>
      cases h'
      exact ⟨hm, rfl⟩
  · cases h'

theorem onSecond_stops_inv {m : EStateM ε τ α} {s s' : σ × τ} {e : ε}
    (h : Stops (onSecond m) s e s') : Stops m s.2 e s'.2 ∧ s'.1 = s.1 := by
  have h' : onSecond m s = .error e s' := h
  rw [onSecond] at h'
  split at h'
  · cases h'
  · next b s₁ hm =>
      cases h'
      exact ⟨hm, rfl⟩

theorem Ends.onFirst {m : EStateM ε σ α} {s : σ × τ} {Q : α → σ → Prop} {X : σ → Prop}
    (h : Ends bad m s.1 Q X) :
    Ends bad (onFirst m) s (fun a s' => Q a s'.1 ∧ s'.2 = s.2) (fun s' => X s'.1 ∧ s'.2 = s.2) where
  ensures a s' hret := by
    obtain ⟨hm, hrest⟩ := onFirst_returns_inv hret
    exact ⟨h.ensures a s'.1 hm, hrest⟩
  leaves s' hstop := by
    obtain ⟨hm, hrest⟩ := onFirst_stops_inv hstop
    exact ⟨h.leaves s'.1 hm, hrest⟩

theorem Ends.onSecond {m : EStateM ε τ α} {s : σ × τ} {Q : α → τ → Prop} {X : τ → Prop}
    (h : Ends bad m s.2 Q X) :
    Ends bad (onSecond m) s (fun a s' => Q a s'.2 ∧ s'.1 = s.1) (fun s' => X s'.2 ∧ s'.1 = s.1) where
  ensures a s' hret := by
    obtain ⟨hm, hrest⟩ := onSecond_returns_inv hret
    exact ⟨h.ensures a s'.2 hm, hrest⟩
  leaves s' hstop := by
    obtain ⟨hm, hrest⟩ := onSecond_stops_inv hstop
    exact ⟨h.leaves s'.2 hm, hrest⟩

end Parts

/-! ## Clean-up -/

/-- Where the clean-up never stops with `bad`, it has ended after `m` stopped with `bad`. -/
theorem Stops.orCleanUp_inv {m : EStateM ε σ α} {cleanup : EStateM ε σ Unit} {s s' : σ}
    (hnever : ∀ s₁, ¬ Fails cleanup s₁ bad) (h : Stops (orCleanUp m cleanup) s bad s') :
    ∃ s₁, Stops m s bad s₁ ∧ Returns cleanup s₁ () s' := by
  have h' : orCleanUp m cleanup s = .error bad s' := h
  rw [orCleanUp] at h'
  split at h'
  · cases h'
  · next e s₁ hm =>
      split at h'
      · next s₂ hc =>
          cases h'
          exact ⟨s₁, hm, hc⟩
      · next e' s₂ hc =>
          cases h'
          exact absurd ⟨s', hc⟩ (hnever s₁)

theorem Stops.orCleanUp {m : EStateM ε σ α} {cleanup : EStateM ε σ Unit} {s s₁ s' : σ} {e : ε}
    (hm : Stops m s e s₁) (hc : Returns cleanup s₁ () s') : Stops (orCleanUp m cleanup) s e s' := by
  have hm' : m s = .error e s₁ := hm
  have hc' : cleanup s₁ = .ok () s' := hc
  simp [Stops, EStateM.run, Program.orCleanUp, hm', hc']

theorem orCleanUp_returns_inv {m : EStateM ε σ α} {cleanup : EStateM ε σ Unit} {s s' : σ} {a : α}
    (h : Returns (orCleanUp m cleanup) s a s') : Returns m s a s' := by
  have h' : orCleanUp m cleanup s = .ok a s' := h
  rw [orCleanUp] at h'
  split at h'
  · next b s₁ hm =>
      cases h'
      exact hm
  · split at h' <;> cases h'

theorem Ends.orCleanUp {m : EStateM ε σ α} {cleanup : EStateM ε σ Unit} {s : σ} {Q : α → σ → Prop}
    {X Y : σ → Prop} (hm : Ends bad m s Q Y) (hnever : ∀ s₁, ¬ Fails cleanup s₁ bad)
    (hc : ∀ s₁ s', Y s₁ → Returns cleanup s₁ () s' → X s') :
    Ends bad (orCleanUp m cleanup) s Q X where
  ensures a s' hret := hm.ensures a s' (orCleanUp_returns_inv hret)
  leaves s' hstop := by
    obtain ⟨s₁, hm₁, hret⟩ := hstop.orCleanUp_inv hnever
    exact hc s₁ s' (hm.leaves s₁ hm₁) hret

end LinuxSamples.Program
