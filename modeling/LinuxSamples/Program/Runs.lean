import Mathlib.Logic.Basic
import Mathlib.Tactic.Common

set_option autoImplicit false

/-! # Running stateful programs

A program is an `EStateM` action: it ends normally in a new state, or it stops with a fault and
keeps the state it had reached. Two judgements are used throughout.

* `Returns m s a s'`: started in `s`, the program ends normally with result `a` in state `s'`.
* `Fails m s e`: started in `s`, the program stops with fault `e`.

Both are functions of the program and its start state, so a proof of `Returns` is a total
correctness proof. The rules below compose them along `bind`, along the counting loop `forUp` and
along a sequence of operations; `Reach` collects the states of all runs whose steps meet a
condition. -/

namespace LinuxSamples.Program

variable {ε σ α β Op τ : Type}

/-! ## The two judgements -/

/-- Started in `s`, `m` ends normally with result `a` in state `s'`. -/
def Returns (m : EStateM ε σ α) (s : σ) (a : α) (s' : σ) : Prop := m.run s = .ok a s'

/-- Started in `s`, `m` stops with fault `e`. -/
def Fails (m : EStateM ε σ α) (s : σ) (e : ε) : Prop := ∃ s', m.run s = .error e s'

theorem Returns.unique {m : EStateM ε σ α} {s s₁ s₂ : σ} {a₁ a₂ : α} (h₁ : Returns m s a₁ s₁)
    (h₂ : Returns m s a₂ s₂) : a₁ = a₂ ∧ s₁ = s₂ := by
  rw [Returns, h₁, EStateM.Result.ok.injEq] at h₂
  exact h₂

/-- A program that returns leaves one state behind. -/
theorem Returns.exists_iff {m : EStateM ε σ α} {s s' : σ} {a : α} (h : Returns m s a s')
    {Q : σ → Prop} : (∃ s₁, Returns m s a s₁ ∧ Q s₁) ↔ Q s' := by
  constructor
  · rintro ⟨s₁, h₁, hQ⟩
    obtain ⟨_, rfl⟩ := h.unique h₁
    exact hQ
  · intro hQ
    exact ⟨s', h, hQ⟩

theorem Returns.not_fails {m : EStateM ε σ α} {s s' : σ} {a : α} {e : ε} (h : Returns m s a s') :
    ¬ Fails m s e := by
  rintro ⟨s₁, h₁⟩
  rw [h] at h₁
  cases h₁

/-- What holds of the state a program leaves is decided by running it. -/
instance Returns.decidableAfter (m : EStateM ε σ Unit) (s : σ) (Q : σ → Prop) [DecidablePred Q] :
    Decidable (∃ s', Returns m s () s' ∧ Q s') :=
  match h : m s with
  | .ok () s' => decidable_of_iff (Q s') (Returns.exists_iff h).symm
  | .error _ s' => isFalse fun ⟨_, hret, _⟩ => hret.not_fails ⟨s', h⟩

theorem Returns.pure (a : α) (s : σ) : Returns (pure a : EStateM ε σ α) s a s := rfl

theorem Returns.bind {m : EStateM ε σ α} {f : α → EStateM ε σ β} {s s₁ s₂ : σ} {a : α} {b : β}
    (hm : Returns m s a s₁) (hf : Returns (f a) s₁ b s₂) : Returns (m >>= f) s b s₂ := by
  have hm' : m s = .ok a s₁ := hm
  show EStateM.bind m f s = _
  rw [EStateM.bind, hm']
  exact hf

theorem Fails.bind_left {m : EStateM ε σ α} {f : α → EStateM ε σ β} {s : σ} {e : ε}
    (hm : Fails m s e) : Fails (m >>= f) s e := by
  obtain ⟨s', hm⟩ := hm
  have hm' : m s = .error e s' := hm
  refine ⟨s', ?_⟩
  show EStateM.bind m f s = _
  rw [EStateM.bind, hm']

theorem Fails.bind_right {m : EStateM ε σ α} {f : α → EStateM ε σ β} {s s₁ : σ} {a : α} {e : ε}
    (hm : Returns m s a s₁) (hf : Fails (f a) s₁ e) : Fails (m >>= f) s e := by
  obtain ⟨s', hf⟩ := hf
  have hm' : m s = .ok a s₁ := hm
  refine ⟨s', ?_⟩
  show EStateM.bind m f s = _
  rw [EStateM.bind, hm']
  exact hf

/-- A sequence that returned went through its first part. -/
theorem Returns.bind_inv {m : EStateM ε σ α} {f : α → EStateM ε σ β} {s s₂ : σ} {b : β}
    (h : Returns (m >>= f) s b s₂) : ∃ a s₁, Returns m s a s₁ ∧ Returns (f a) s₁ b s₂ := by
  have h' : EStateM.bind m f s = .ok b s₂ := h
  rw [EStateM.bind] at h'
  split at h'
  · next a s₁ hm => exact ⟨a, s₁, hm, h'⟩
  · cases h'

theorem Returns.pure_inv {a b : α} {s s' : σ} (h : Returns (Pure.pure a : EStateM ε σ α) s b s') :
    b = a ∧ s' = s := by
  have h' : EStateM.Result.ok a s = .ok b s' := h
  cases h'
  exact ⟨rfl, rfl⟩

/-! ## Programs on one part of the state -/

/-- `m` on the first part of a state. -/
def onFirst (m : EStateM ε σ α) : EStateM ε (σ × τ) α := fun s =>
  match m s.1 with
  | .ok a s₁ => .ok a (s₁, s.2)
  | .error e s₁ => .error e (s₁, s.2)

/-- `m` on the second part of a state. -/
def onSecond (m : EStateM ε τ α) : EStateM ε (σ × τ) α := fun s =>
  match m s.2 with
  | .ok a s₂ => .ok a (s.1, s₂)
  | .error e s₂ => .error e (s.1, s₂)

theorem onFirst_returns {m : EStateM ε σ α} {s s' : σ} {a : α} (h : Returns m s a s') (t : τ) :
    Returns (onFirst m) (s, t) a (s', t) := by
  have h' : m s = .ok a s' := h
  simp [Returns, onFirst, EStateM.run, h']

theorem onSecond_fails {m : EStateM ε τ α} {t : τ} {e : ε} (h : Fails m t e) (s : σ) :
    Fails (onSecond m) (s, t) e := by
  obtain ⟨t', h⟩ := h
  have h' : m t = .error e t' := h
  exact ⟨(s, t'), by simp [onSecond, EStateM.run, h']⟩

/-- `m`, and should it stop with a fault, `cleanup` before the fault is passed on. -/
def orCleanUp (m : EStateM ε σ α) (cleanup : EStateM ε σ Unit) : EStateM ε σ α := fun s =>
  match m s with
  | .ok a s₁ => .ok a s₁
  | .error e s₁ =>
      match cleanup s₁ with
      | .ok _ s₂ => .error e s₂
      | .error e' s₂ => .error e' s₂

/-! ## Conditionals and counting loops -/

/-- `if (c) m;`. -/
def onlyIf (c : Prop) [Decidable c] (m : EStateM ε σ Unit) : EStateM ε σ Unit :=
  if c then m else pure ()

theorem onlyIf_pos {c : Prop} [Decidable c] (hc : c) (m : EStateM ε σ Unit) : onlyIf c m = m :=
  if_pos hc

theorem onlyIf_neg {c : Prop} [Decidable c] (hc : ¬ c) (m : EStateM ε σ Unit) :
    onlyIf c m = pure () :=
  if_neg hc

/-- `for (i = lo; i < lo + count; ++i) body(i)`. -/
def forUp (body : Nat → EStateM ε σ Unit) (lo : Nat) : Nat → EStateM ε σ Unit
  | 0 => pure ()
  | count + 1 => do
      body lo
      forUp body (lo + 1) count

/-- The loop rule: a state family indexed by the counter, each iteration leading to the next. -/
theorem forUp_returns (body : Nat → EStateM ε σ Unit) (state : Nat → σ) (lo count : Nat)
    (h : ∀ i, lo ≤ i → i < lo + count → Returns (body i) (state i) () (state (i + 1))) :
    Returns (forUp body lo count) (state lo) () (state (lo + count)) := by
  induction count generalizing lo with
  | zero => exact Returns.pure () _
  | succ count ih =>
      refine Returns.bind (h lo (Nat.le_refl lo) (by omega)) ?_
      have hrest := ih (lo + 1) fun i hlo hhi => h i (by omega) (by omega)
      rwa [show lo + 1 + count = lo + (count + 1) by omega] at hrest

/-- The loop rule for an invariant that does not fix the states. -/
theorem forUp_invariant (body : Nat → EStateM ε σ Unit) (I : Nat → σ → Prop) (lo count : Nat)
    (h : ∀ i s, lo ≤ i → i < lo + count → I i s → ∃ s', Returns (body i) s () s' ∧ I (i + 1) s') :
    ∀ s, I lo s → ∃ s', Returns (forUp body lo count) s () s' ∧ I (lo + count) s' := by
  induction count generalizing lo with
  | zero =>
      intro s hs
      exact ⟨s, Returns.pure () s, hs⟩
  | succ count ih =>
      intro s hs
      obtain ⟨s₁, hbody, hs₁⟩ := h lo s (Nat.le_refl lo) (by omega) hs
      obtain ⟨s₂, hrest, hs₂⟩ := ih (lo + 1) (fun i s hlo hhi => h i s (by omega) (by omega)) s₁ hs₁
      rw [show lo + 1 + count = lo + (count + 1) by omega] at hs₂
      exact ⟨s₂, Returns.bind hbody hrest, hs₂⟩

/-- The loop stops in iteration `lo + m` at the latest: until then every iteration keeps the invariant
    or stops with `e`, and that iteration stops with `e`. -/
theorem forUp_fails (body : Nat → EStateM ε σ Unit) (I : Nat → σ → Prop) (e : ε) (lo m count : Nat)
    (hm : m < count)
    (hstep : ∀ i s, i < lo + m → I i s →
      Fails (body i) s e ∨ ∃ s', Returns (body i) s () s' ∧ I (i + 1) s')
    (hlast : ∀ s, I (lo + m) s → Fails (body (lo + m)) s e) :
    ∀ s, I lo s → Fails (forUp body lo count) s e := by
  induction m generalizing lo count with
  | zero =>
      intro s hs
      obtain ⟨rest, rfl⟩ := Nat.exists_eq_add_of_lt hm
      exact Fails.bind_left (hlast s hs)
  | succ m ih =>
      intro s hs
      obtain ⟨rest, rfl⟩ := Nat.exists_eq_add_of_lt (Nat.zero_lt_of_lt hm)
      rw [Nat.zero_add] at hm ⊢
      rcases hstep lo s (by omega) hs with hfail | ⟨s₁, hret, hs₁⟩
      · exact Fails.bind_left hfail
      · have hshift : lo + 1 + m = lo + (m + 1) := by omega
        refine Fails.bind_right hret (ih (lo + 1) rest (by omega) (fun i s hi => ?_) ?_ s₁ hs₁)
        · exact hstep i s (by omega)
        · rw [hshift]
          exact hlast

/-! ## Sequences of operations -/

/-- The operations of a list, one after the other. -/
def runAll (step : Op → EStateM ε σ Unit) : List Op → EStateM ε σ Unit
  | [] => pure ()
  | op :: rest => do
      step op
      runAll step rest

/-- What an abstract machine does on the same list: a new abstract state, or the fault that ends
    the run. -/
def specAll (spec : τ → Op → Except ε τ) : τ → List Op → Except ε τ
  | t, [] => .ok t
  | t, op :: rest =>
      match spec t op with
      | .ok t' => specAll spec t' rest
      | .error e => .error e

theorem ok_bind (a : α) (f : α → Except ε β) : (Except.ok a >>= f) = f a := rfl

theorem error_bind (e : ε) (f : α → Except ε β) : (Except.error e >>= f) = Except.error e := rfl

theorem ok_of_bind {x : Except ε α} {f : α → Except ε β} {b : β} (h : x >>= f = .ok b) :
    ∃ a, x = .ok a ∧ f a = .ok b := by
  cases x with
  | error e => cases h
  | ok a => exact ⟨a, rfl, h⟩

/-- A computation that succeeds in certain cases, with a result for each, and fails otherwise. -/
theorem ok_iff {γ : Type} {x : Except ε α} {c : γ → Prop} {f : γ → α} {a : α}
    (hyes : ∀ k, c k → x = .ok (f k)) (hno : (∀ k, ¬ c k) → ∃ e, x = .error e) :
    x = .ok a ↔ ∃ k, c k ∧ f k = a := by
  constructor
  · intro h
    by_cases hcase : ∃ k, c k
    · obtain ⟨k, hk⟩ := hcase
      exact ⟨k, hk, Except.ok.inj ((hyes k hk).symm.trans h)⟩
    · obtain ⟨e, he⟩ := hno (not_exists.1 hcase)
      rw [he] at h
      cases h
  · rintro ⟨k, hk, rfl⟩
    exact hyes k hk

/-- What every step keeps is kept by a run of the abstract machine. -/
theorem specAll_invariant {spec : τ → Op → Except ε τ} {I : τ → Prop}
    (hstep : ∀ t t' op, I t → spec t op = .ok t' → I t') :
    ∀ (ops : List Op) (t t' : τ), I t → specAll spec t ops = .ok t' → I t' := by
  intro ops
  induction ops with
  | nil =>
      intro t t' ht h
      cases h
      exact ht
  | cons op rest ih =>
      intro t t' ht h
      rw [specAll] at h
      split at h
      · next t₁ hop => exact ih t₁ t' (hstep t t₁ op ht hop) h
      · cases h

/-- Where the second computation succeeds, so does the first, with a related result. -/
def Follows (R : α → β → Prop) (x : Except ε α) (y : Except ε β) : Prop :=
  ∀ b, y = .ok b → ∃ a, x = .ok a ∧ R a b

theorem Follows.ok {R : α → β → Prop} {a : α} {b : β} (h : R a b) :
    Follows R (.ok a : Except ε α) (.ok b) := by
  intro b' hb
  cases hb
  exact ⟨a, rfl, h⟩

theorem Follows.refl (x : Except ε α) : Follows Eq x x := fun a ha => ⟨a, ha, rfl⟩

theorem Follows.bind {α' β' : Type} {R : α → β → Prop} {S : α' → β' → Prop} {x : Except ε α}
    {y : Except ε β} {f : α → Except ε α'} {g : β → Except ε β'} (h : Follows R x y)
    (hfg : ∀ a b, R a b → Follows S (f a) (g b)) : Follows S (x >>= f) (y >>= g) := by
  intro d hd
  obtain ⟨b, hb, hgb⟩ := ok_of_bind hd
  obtain ⟨a, ha, hR⟩ := h b hb
  obtain ⟨c, hc, hS⟩ := hfg a b hR d hgb
  rw [ha]
  exact ⟨c, hc, hS⟩

/-- Where the first is stopped by a check, so is the second. -/
theorem Follows.unless {R : α → β → Prop} {c d : Prop} [Decidable c] [Decidable d] {e e' : ε}
    {x : Except ε α} {y : Except ε β} (hcd : c → d) (h : ¬ d → Follows R x y) :
    Follows R (if c then .error e else x) (if d then .error e' else y) := by
  by_cases hd : d
  · rw [if_pos hd]
    intro b hb
    cases hb
  · rw [if_neg hd, if_neg fun hc => hd (hcd hc)]
    exact h hd

/-- `m` does in `s` what the abstract outcome says: it returns in a state related to the new
    abstract state, or it stops with the same fault. -/
def Meets (R : σ → τ → Prop) (m : EStateM ε σ Unit) (s : σ) : Except ε τ → Prop
  | .ok t' => ∃ s', Returns m s () s' ∧ R s' t'
  | .error e => Fails m s e

theorem Meets.mono {R R' : σ → τ → Prop} {m : EStateM ε σ Unit} {s : σ} {x : Except ε τ}
    (h : Meets R m s x) (hR : ∀ s t, R s t → R' s t) : Meets R' m s x := by
  cases x with
  | ok t =>
      obtain ⟨s', hret, ht⟩ := h
      exact ⟨s', hret, hR s' t ht⟩
  | error e => exact h

theorem Meets.of_returns {R : σ → τ → Prop} {m : EStateM ε σ Unit} {s s' : σ} {x : Except ε τ}
    (h : Meets R m s x) (hret : Returns m s () s') : ∃ t, x = .ok t ∧ R s' t := by
  cases x with
  | ok t =>
      obtain ⟨s₁, hret₁, ht⟩ := h
      obtain ⟨_, rfl⟩ := hret.unique hret₁
      exact ⟨t, rfl, ht⟩
  | error e => exact absurd h hret.not_fails

/-- A first part that returns does not change what is to be met. -/
theorem Meets.after {R : σ → τ → Prop} {m : EStateM ε σ α} {f : α → EStateM ε σ Unit} {s s₁ : σ}
    {a : α} {x : Except ε τ} (hm : Returns m s a s₁) (h : Meets R (f a) s₁ x) :
    Meets R (m >>= f) s x := by
  cases x with
  | ok t =>
      obtain ⟨s', hret, ht⟩ := h
      exact ⟨s', Returns.bind hm hret, ht⟩
  | error e => exact Fails.bind_right hm h

theorem Meets.returns {R : σ → τ → Prop} {m : EStateM ε σ Unit} {s s' : σ} {t : τ}
    (hm : Returns m s () s') (h : R s' t) : Meets R m s (.ok t) :=
  ⟨s', hm, h⟩

/-- **Forward simulation.** If every operation of a list meets its abstract counterpart, so does the
    run of the list. -/
theorem runAll_meets {step : Op → EStateM ε σ Unit} {spec : τ → Op → Except ε τ}
    {R : σ → τ → Prop} (ops : List Op)
    (hstep : ∀ s t, ∀ op ∈ ops, R s t → Meets R (step op) s (spec t op)) :
    ∀ (s : σ) (t : τ), R s t → Meets R (runAll step ops) s (specAll spec t ops) := by
  induction ops with
  | nil => intro s t h; exact ⟨s, Returns.pure () s, h⟩
  | cons op rest ih =>
      intro s t h
      have hop := hstep s t op (List.mem_cons_self ..) h
      rw [specAll]
      cases hspec : spec t op with
      | error e =>
          rw [hspec] at hop
          exact Fails.bind_left hop
      | ok t' =>
          rw [hspec] at hop
          obtain ⟨s₁, hs₁, h₁⟩ := hop
          have hrest := ih (fun s t op hmem => hstep s t op (List.mem_cons_of_mem _ hmem)) s₁ t' h₁
          show Meets R (runAll step (op :: rest)) s (specAll spec t' rest)
          cases hr : specAll spec t' rest with
          | error e =>
              rw [hr] at hrest
              exact Fails.bind_right hs₁ hrest
          | ok t'' =>
              rw [hr] at hrest
              obtain ⟨s₂, hs₂, h₂⟩ := hrest
              exact ⟨s₂, Returns.bind hs₁ hs₂, h₂⟩

/-- Along the run of a total abstract machine, every operation is in the scope `ok`. -/
def Along (ok : τ → Op → Prop) (next : τ → Op → τ) : τ → List Op → Prop
  | _, [] => True
  | t, op :: rest => ok t op ∧ Along ok next (next t op) rest

/-- **Forward simulation of a total machine.** Within the scope of the machine the run returns. -/
theorem runAll_along {step : Op → EStateM ε σ Unit} {ok : τ → Op → Prop} {next : τ → Op → τ}
    {R : σ → τ → Prop}
    (hstep : ∀ s t op, R s t → ok t op → ∃ s', Returns (step op) s () s' ∧ R s' (next t op)) :
    ∀ (ops : List Op) (s : σ) (t : τ), R s t → Along ok next t ops →
      ∃ s', Returns (runAll step ops) s () s' ∧ R s' (ops.foldl next t) := by
  intro ops
  induction ops with
  | nil => intro s t h _; exact ⟨s, Returns.pure () s, h⟩
  | cons op rest ih =>
      rintro s t h ⟨hop, hrest⟩
      obtain ⟨s₁, hs₁, h₁⟩ := hstep s t op h hop
      obtain ⟨s₂, hs₂, h₂⟩ := ih s₁ (next t op) h₁ hrest
      exact ⟨s₂, Returns.bind hs₁ hs₂, h₂⟩

/-- The abstract machine does the operations of a list without a fault, from `t` to `u`, every one of them
    in its scope. -/
def Passes (ok : τ → Op → Prop) (spec : τ → Op → Except ε τ) (t : τ) : List Op → τ → Prop
  | [], u => t = u
  | op :: rest, u => ∃ t', ok t op ∧ spec t op = .ok t' ∧ Passes ok spec t' rest u

/-- **Forward simulation of a machine that does not stop.** -/
theorem runAll_passes {step : Op → EStateM ε σ Unit} {ok : τ → Op → Prop}
    {spec : τ → Op → Except ε τ} {R : σ → τ → Prop}
    (hstep : ∀ s t t' op, R s t → ok t op → spec t op = .ok t' →
      ∃ s', Returns (step op) s () s' ∧ R s' t') {ops : List Op} {s : σ} {t u : τ} (h : R s t)
    (hops : Passes ok spec t ops u) : ∃ s', Returns (runAll step ops) s () s' ∧ R s' u := by
  induction ops generalizing s t with
  | nil =>
      obtain rfl : t = u := hops
      exact ⟨s, Returns.pure () s, h⟩
  | cons op rest ih =>
      obtain ⟨t', hok, hspec, hrest⟩ := hops
      obtain ⟨s₁, hs₁, h₁⟩ := hstep s t t' op h hok hspec
      obtain ⟨s₂, hs₂, h₂⟩ := ih h₁ hrest
      exact ⟨s₂, Returns.bind hs₁ hs₂, h₂⟩

/-! ## Reachable states -/

/-- The states reached from `s₀` by runs in which every operation meets the condition `allowed`
    in the state it is started in. -/
inductive Reach (step : Op → EStateM ε σ Unit) (allowed : σ → Op → Prop) (s₀ : σ) : σ → Prop
  | start : Reach step allowed s₀ s₀
  | next {s s' : σ} {op : Op} : Reach step allowed s₀ s → allowed s op →
      Returns (step op) s () s' → Reach step allowed s₀ s'

theorem Reach.one {step : Op → EStateM ε σ Unit} {allowed : σ → Op → Prop} {s s' : σ} (op : Op)
    (hok : allowed s op) (hret : Returns (step op) s () s') : Reach step allowed s s' :=
  Reach.next Reach.start hok hret

theorem Reach.trans {step : Op → EStateM ε σ Unit} {allowed : σ → Op → Prop} {s₀ s s' : σ}
    (h : Reach step allowed s₀ s) (h' : Reach step allowed s s') : Reach step allowed s₀ s' := by
  induction h' with
  | start => exact h
  | next _ hok hret ih => exact Reach.next ih hok hret

/-- **Invariant rule.** What holds at the start and is kept by every allowed step holds in every
    state reached. -/
theorem Reach.invariant {step : Op → EStateM ε σ Unit} {allowed : σ → Op → Prop} {s₀ s : σ}
    {I : σ → Prop} (hreach : Reach step allowed s₀ s) (h₀ : I s₀)
    (hstep : ∀ s s' op, I s → allowed s op → Returns (step op) s () s' → I s') : I s := by
  induction hreach with
  | start => exact h₀
  | next _ hok hret ih => exact hstep _ _ _ ih hok hret

/-- A run of a list, each operation of which is an allowed step. -/
theorem Reach.of_runAll {Op' : Type} {step : Op → EStateM ε σ Unit} {step' : Op' → EStateM ε σ Unit}
    {allowed : σ → Op' → Prop} (f : Op → Op')
    (hstep : ∀ s op s', Returns (step op) s () s' →
      allowed s (f op) ∧ Returns (step' (f op)) s () s')
    {ops : List Op} {s s' : σ} (h : Returns (runAll step ops) s () s') :
    Reach step' allowed s s' := by
  induction ops generalizing s with
  | nil =>
      obtain ⟨_, rfl⟩ := h.pure_inv
      exact Reach.start
  | cons op rest ih =>
      obtain ⟨_, s₁, hop, hrest⟩ := h.bind_inv
      obtain ⟨hok, hop'⟩ := hstep s op s₁ hop
      exact (Reach.one (f op) hok hop').trans (ih hrest)

/-! ## Interleavings -/

/-- One step of process `p` of a system; where `p` has to wait, nothing happens. -/
def turnOf (step : σ → Op → Option σ) (p : Op) : EStateM Unit σ Unit := fun s =>
  match step s p with
  | some s' => .ok () s'
  | none => .error () s

theorem turnOf_returns {step : σ → Op → Option σ} {p : Op} {s s' : σ} :
    Returns (turnOf step p) s () s' ↔ step s p = some s' := by
  rw [Returns, EStateM.run, turnOf]
  cases step s p with
  | none => simp
  | some s₁ => simp

/-- The states of the interleavings of the processes in which every step is allowed. -/
abbrev Interleaved (step : σ → Op → Option σ) (allowed : σ → Op → Prop) (s₀ s : σ) : Prop :=
  Reach (turnOf step) allowed s₀ s

/-- What every allowed step of every process keeps holds in every state of every interleaving. -/
theorem Interleaved.induct {step : σ → Op → Option σ} {allowed : σ → Op → Prop} {s₀ s : σ}
    {I : σ → Prop} (h : Interleaved step allowed s₀ s) (h₀ : I s₀)
    (hstep : ∀ s s' p, I s → allowed s p → step s p = some s' → I s') : I s :=
  h.invariant h₀ fun s s' p hs hp hret => hstep s s' p hs hp (turnOf_returns.1 hret)

/-- A schedule in which every step is checked before it is taken. -/
theorem Interleaved.of_schedule {step : σ → Op → Option σ} {allowed : σ → Op → Prop}
    [∀ s p, Decidable (allowed s p)] {ops : List Op} {s s' : σ}
    (h : ops.foldlM (fun s p => if allowed s p then step s p else none) s = some s') :
    Interleaved step allowed s s' := by
  induction ops generalizing s with
  | nil =>
      cases h
      exact Reach.start
  | cons p rest ih =>
      rw [List.foldlM_cons, Option.bind_eq_bind, Option.bind_eq_some_iff] at h
      obtain ⟨s₁, hstep, hrest⟩ := h
      rw [Option.ite_none_right_eq_some] at hstep
      exact (Reach.one p hstep.1 (turnOf_returns.2 hstep.2)).trans (ih hrest)

/-- Where every step takes something from what is left, a schedule is no longer than what was left at
    its start. -/
theorem schedule_length {step : σ → Op → Option σ} {left : σ → Nat}
    (hstep : ∀ s s' p, step s p = some s' → left s' < left s) {ops : List Op} {s s' : σ}
    (h : ops.foldlM step s = some s') : ops.length + left s' ≤ left s := by
  induction ops generalizing s with
  | nil =>
      cases h
      exact Nat.le_of_eq (Nat.zero_add _)
  | cons p rest ih =>
      rw [List.foldlM_cons, Option.bind_eq_bind, Option.bind_eq_some_iff] at h
      obtain ⟨s₁, hp, hrest⟩ := h
      have hlt := hstep s s₁ p hp
      have hle := ih hrest
      rw [List.length_cons]
      omega

end LinuxSamples.Program
