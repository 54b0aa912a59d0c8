import LinuxSamples.Program.Runs

set_option autoImplicit false

/-! # A signal sent without the mutex

In `test_thread_cond.cpp` a thread in `decrement_count` waits until `flag` is set, testing it under
`count_lock`. Another thread, in `increment_count`, signals without setting anything. `main` sets
`flag` and signals, neither of which it does under `count_lock`: both can fall between a test of
`flag` and the `pthread_cond_wait` that follows it, and then the signal wakes nobody.

A signal wakes the waiting thread, if it is blocked; it does not wake up by itself. -/

namespace LinuxSamples.MissedSignal

open LinuxSamples.Program

/-! ## The program -/

/-- What the thread in `decrement_count` does next. -/
inductive Decrement
  /-- `pthread_mutex_lock`. -/
  | locking
  /-- The condition of the loop. -/
  | checking
  /-- The call of `pthread_cond_wait`. -/
  | waiting
  /-- It is blocked in `pthread_cond_wait`. -/
  | blocked
  /-- It was woken in `pthread_cond_wait`, and takes the mutex again. -/
  | resuming
  /-- `flag = false`. -/
  | clearing
  /-- `pthread_mutex_unlock`. -/
  | unlocking
  | finished
  deriving DecidableEq, Repr

/-- What the thread in `increment_count` does next. -/
inductive Increment
  | locking
  /-- `pthread_cond_signal`. -/
  | signalling
  | unlocking
  | finished
  deriving DecidableEq, Repr

/-- What `main` does next. -/
inductive Main
  /-- `flag = true`. -/
  | setting
  /-- `pthread_cond_signal`. -/
  | signalling
  /-- `pthread_join` of both threads. -/
  | joining
  | finished
  deriving DecidableEq, Repr

inductive Party
  | decrement
  | increment
  | main
  deriving DecidableEq, Repr

/-- `flag`, the thread that holds `count_lock`, and where everybody is. -/
structure World where
  flag : Bool
  lock : Option Party
  decrement : Decrement
  increment : Increment
  main : Main
  deriving DecidableEq, Repr

/-- `pthread_cond_signal(&count_nonzero)`. -/
def Decrement.signalled : Decrement → Decrement
  | .blocked => .resuming
  | d => d

/-- `decrement_count`. -/
def decrement_count (w : World) : Option World :=
  match w.decrement with
  | .locking =>
      if w.lock = none then some { w with lock := some .decrement, decrement := .checking } else none
  | .checking => some { w with decrement := if w.flag then .clearing else .waiting }
  | .waiting => some { w with lock := none, decrement := .blocked }
  | .blocked => none
  | .resuming =>
      if w.lock = none then some { w with lock := some .decrement, decrement := .checking } else none
  | .clearing => some { w with flag := false, decrement := .unlocking }
  | .unlocking => some { w with lock := none, decrement := .finished }
  | .finished => none

/-- `increment_count`. -/
def increment_count (w : World) : Option World :=
  match w.increment with
  | .locking =>
      if w.lock = none then some { w with lock := some .increment, increment := .signalling } else none
  | .signalling => some { w with decrement := w.decrement.signalled, increment := .unlocking }
  | .unlocking => some { w with lock := none, increment := .finished }
  | .finished => none

/-- `main`, from `flag = true` on. -/
def main (w : World) : Option World :=
  match w.main with
  | .setting => some { w with flag := true, main := .signalling }
  | .signalling => some { w with decrement := w.decrement.signalled, main := .joining }
  | .joining =>
      if w.decrement = .finished ∧ w.increment = .finished then some { w with main := .finished }
      else none
  | .finished => none

/-- The next step of a party, if it can take one. -/
def step (w : World) : Party → Option World
  | .decrement => decrement_count w
  | .increment => increment_count w
  | .main => MissedSignal.main w

/-- Both threads are created. -/
def start : World := ⟨false, none, .locking, .locking, .setting⟩

/-- `main` signals after a test of `flag` and before the `pthread_cond_wait` that follows it, when the
    signal of `increment_count` is already over. -/
def Misses (w : World) (p : Party) : Prop :=
  p = .main ∧ w.main = .signalling ∧ w.decrement = .waiting ∧ w.increment = .finished

instance (w : World) (p : Party) : Decidable (Misses w p) :=
  inferInstanceAs (Decidable (_ ∧ _ ∧ _ ∧ _))

/-- Nobody can go on, and `decrement_count` is blocked though `flag` is set. -/
def Hung (w : World) : Prop :=
  (∀ p, step w p = none) ∧ w.decrement = .blocked ∧ w.flag = true ∧ w.main = .joining

/-! ## One step -/

section Steps

variable {w w' : World} {p : Party}

/-- The ways a party can go on. -/
inductive Move (w : World) : Party → World → Prop
  | lock : w.decrement = .locking ∨ w.decrement = .resuming → w.lock = none →
      Move w .decrement { w with lock := some .decrement, decrement := .checking }
  | pass : w.decrement = .checking → w.flag = true →
      Move w .decrement { w with decrement := .clearing }
  | wait : w.decrement = .checking → w.flag = false →
      Move w .decrement { w with decrement := .waiting }
  | block : w.decrement = .waiting →
      Move w .decrement { w with lock := none, decrement := .blocked }
  | clear : w.decrement = .clearing →
      Move w .decrement { w with flag := false, decrement := .unlocking }
  | leave : w.decrement = .unlocking →
      Move w .decrement { w with lock := none, decrement := .finished }
  | enter : w.increment = .locking → w.lock = none →
      Move w .increment { w with lock := some .increment, increment := .signalling }
  | signal : w.increment = .signalling →
      Move w .increment { w with decrement := w.decrement.signalled, increment := .unlocking }
  | exit : w.increment = .unlocking →
      Move w .increment { w with lock := none, increment := .finished }
  | set : w.main = .setting → Move w .main { w with flag := true, main := .signalling }
  | wake : w.main = .signalling →
      Move w .main { w with decrement := w.decrement.signalled, main := .joining }
  | join : w.main = .joining → w.decrement = .finished → w.increment = .finished →
      Move w .main { w with main := .finished }

theorem decrement_move (h : decrement_count w = some w') : Move w .decrement w' := by
  unfold decrement_count at h
  cases hphase : w.decrement with
  | locking =>
      simp only [hphase, Option.ite_none_right_eq_some, Option.some.injEq] at h
      obtain ⟨hlock, rfl⟩ := h
      exact Move.lock (Or.inl hphase) hlock
  | checking =>
      simp only [hphase, Option.some.injEq] at h
      subst h
      split
      · next hflag => exact Move.pass hphase hflag
      · next hflag => exact Move.wait hphase (Bool.not_eq_true _ ▸ hflag)
  | waiting =>
      simp only [hphase, Option.some.injEq] at h
      exact h ▸ Move.block hphase
  | blocked => simp [hphase] at h
  | resuming =>
      simp only [hphase, Option.ite_none_right_eq_some, Option.some.injEq] at h
      obtain ⟨hlock, rfl⟩ := h
      exact Move.lock (Or.inr hphase) hlock
  | clearing =>
      simp only [hphase, Option.some.injEq] at h
      exact h ▸ Move.clear hphase
  | unlocking =>
      simp only [hphase, Option.some.injEq] at h
      exact h ▸ Move.leave hphase
  | finished => simp [hphase] at h

theorem increment_move (h : increment_count w = some w') : Move w .increment w' := by
  unfold increment_count at h
  cases hphase : w.increment with
  | locking =>
      simp only [hphase, Option.ite_none_right_eq_some, Option.some.injEq] at h
      obtain ⟨hlock, rfl⟩ := h
      exact Move.enter hphase hlock
  | signalling =>
      simp only [hphase, Option.some.injEq] at h
      exact h ▸ Move.signal hphase
  | unlocking =>
      simp only [hphase, Option.some.injEq] at h
      exact h ▸ Move.exit hphase
  | finished => simp [hphase] at h

theorem main_move (h : main w = some w') : Move w .main w' := by
  unfold main at h
  cases hphase : w.main with
  | setting =>
      simp only [hphase, Option.some.injEq] at h
      exact h ▸ Move.set hphase
  | signalling =>
      simp only [hphase, Option.some.injEq] at h
      exact h ▸ Move.wake hphase
  | joining =>
      simp only [hphase, Option.ite_none_right_eq_some, Option.some.injEq] at h
      obtain ⟨⟨hdecrement, hincrement⟩, rfl⟩ := h
      exact Move.join hphase hdecrement hincrement
  | finished => simp [hphase] at h

theorem step_move (h : step w p = some w') : Move w p w' := by
  cases p with
  | decrement => exact decrement_move h
  | increment => exact increment_move h
  | main => exact main_move h

end Steps

/-! ## What holds in every interleaving -/

/-- The thread holds `count_lock`. -/
def Decrement.Holds (d : Decrement) : Prop :=
  d = .checking ∨ d = .waiting ∨ d = .clearing ∨ d = .unlocking

def Increment.Holds (i : Increment) : Prop := i = .signalling ∨ i = .unlocking

/-- The thread has seen `flag` set, and has cleared it. -/
def Decrement.Through (d : Decrement) : Prop := d = .unlocking ∨ d = .finished

/-- `count_lock` is held by the party that it names, and by no other. -/
structure Exclusive (w : World) : Prop where
  decrement : w.decrement.Holds ↔ w.lock = some .decrement
  increment : w.increment.Holds ↔ w.lock = some .increment
  main : w.lock ≠ some .main

/-- `flag` is set from the assignment of `main` to that of `decrement_count`. -/
structure Raised (w : World) : Prop where
  unset : w.main = .setting → w.flag = false
  clearing : w.decrement = .clearing → w.flag = true
  cleared : w.main ≠ .setting → w.flag = false → w.decrement.Through

/-- `main` has joined both threads. -/
def Joined (w : World) : Prop :=
  w.main = .finished → w.decrement = .finished ∧ w.increment = .finished

/-- After the signal of `main`, a thread that does not know of `flag` can still be signalled. -/
def Heard (w : World) : Prop :=
  w.main = .joining ∨ w.main = .finished →
    (w.decrement = .waiting → w.increment = .locking) ∧
    (w.decrement = .blocked → w.increment = .locking ∨ w.increment = .signalling)

/-- After the signal of `main`, nobody is left to signal a thread that does not know of `flag`. -/
def Unheard (w : World) : Prop :=
  w.main = .joining ∧ w.increment = .finished ∧ w.flag = true ∧
    (w.decrement = .waiting ∨ w.decrement = .blocked)

section Invariants

variable {w w' : World} {p : Party}

/-- A signal does not touch the mutex. -/
theorem signalled_holds (d : Decrement) : d.signalled.Holds ↔ d.Holds := by
  cases d <;> simp [Decrement.signalled, Decrement.Holds]

theorem signalled_ne_blocked (d : Decrement) : d.signalled ≠ .blocked := by
  cases d <;> simp [Decrement.signalled]

theorem signalled_waiting {d : Decrement} (h : d.signalled = .waiting) : d = .waiting := by
  cases d <;> first | rfl | cases h

theorem signalled_clearing {d : Decrement} (h : d.signalled = .clearing) : d = .clearing := by
  cases d <;> first | rfl | cases h

theorem signalled_through {d : Decrement} (h : d.Through) : d.signalled.Through := by
  rcases h with rfl | rfl
  · exact Or.inl rfl
  · exact Or.inr rfl

theorem Exclusive.start : Exclusive start where
  decrement := by simp [MissedSignal.start, Decrement.Holds]
  increment := by simp [MissedSignal.start, Increment.Holds]
  main := by simp [MissedSignal.start]

theorem Raised.start : Raised start where
  unset _ := rfl
  clearing h := by cases h
  cleared h := absurd rfl h

theorem Move.exclusive (hmove : Move w p w') (h : Exclusive w) : Exclusive w' := by
  obtain ⟨hdecrement, hincrement, hmain⟩ := h
  cases hmove with
  | lock _ hlock | enter _ hlock =>
      rw [hlock] at hdecrement hincrement
      constructor <;> simp_all [Decrement.Holds, Increment.Holds]
  | pass hphase | wait hphase | clear hphase =>
      rw [hphase] at hdecrement
      exact ⟨by simpa [Decrement.Holds] using hdecrement, hincrement, hmain⟩
  | block hphase | leave hphase =>
      rw [hphase] at hdecrement
      have hlock : w.lock = some .decrement := hdecrement.1 (by simp [Decrement.Holds])
      rw [hlock] at hincrement
      exact ⟨by simp [Decrement.Holds], by simpa using hincrement, by simp⟩
  | signal hphase =>
      rw [hphase] at hincrement
      exact ⟨(signalled_holds _).trans hdecrement, by simpa [Increment.Holds] using hincrement, hmain⟩
  | exit hphase =>
      rw [hphase] at hincrement
      have hlock : w.lock = some .increment := hincrement.1 (by simp [Increment.Holds])
      rw [hlock] at hdecrement
      exact ⟨by simpa using hdecrement, by simp [Increment.Holds], by simp⟩
  | wake => exact ⟨(signalled_holds _).trans hdecrement, hincrement, hmain⟩
  | set | join => exact ⟨hdecrement, hincrement, hmain⟩

theorem Move.raised (hmove : Move w p w') (h : Raised w) : Raised w' := by
  obtain ⟨hunset, hclearing, hcleared⟩ := h
  -- a thread that is not through finds `flag` set, unless `main` has not set it
  have hset : ∀ d, w.decrement = d → ¬ d.Through → w.main ≠ .setting → w.flag ≠ false := by
    rintro _ rfl hthrough hmain hflag
    exact hthrough (hcleared hmain hflag)
  cases hmove with
  | lock hphase =>
      have hthrough : ¬ w.decrement.Through := by
        rcases hphase with hphase | hphase <;> simp [hphase, Decrement.Through]
      exact ⟨hunset, by simp, fun hm hf => absurd hf (hset _ rfl hthrough hm)⟩
  | pass _ hflag => exact ⟨hunset, fun _ => hflag, fun _ hf => by simp [hflag] at hf⟩
  | wait hphase | block hphase =>
      have hthrough := hset _ hphase (by simp [Decrement.Through])
      exact ⟨hunset, by simp, fun hm hf => absurd hf (hthrough hm)⟩
  | clear => exact ⟨fun _ => rfl, by simp, fun _ _ => Or.inl rfl⟩
  | leave => exact ⟨hunset, by simp, fun _ _ => Or.inr rfl⟩
  | enter | exit => exact ⟨hunset, hclearing, hcleared⟩
  | signal =>
      exact ⟨hunset, fun hd => hclearing (signalled_clearing hd),
        fun hm hf => signalled_through (hcleared hm hf)⟩
  | set => exact ⟨by simp, fun _ => rfl, by simp⟩
  | wake hphase =>
      exact ⟨by simp, fun hd => hclearing (signalled_clearing hd),
        fun _ hf => signalled_through (hcleared (by simp [hphase]) hf)⟩
  | join hphase => exact ⟨by simp, hclearing, fun _ hf => hcleared (by simp [hphase]) hf⟩

/-- A thread that holds `count_lock` keeps `increment_count` out. -/
theorem Exclusive.not_both (h : Exclusive w) (hd : w.decrement.Holds) : ¬ w.increment.Holds := by
  intro hi
  have hlock := h.decrement.1 hd
  rw [h.increment.1 hi] at hlock
  cases hlock

theorem Move.heard (hmove : Move w p w') (hexclusive : Exclusive w) (hraised : Raised w)
    (h : Heard w) (hmisses : ¬ Misses w p) : Heard w' := by
  cases hmove with
  | lock | pass | clear | leave => exact fun _ => ⟨by simp, by simp⟩
  | wait hphase hflag =>
      -- `flag` is not set, so `main` has yet to signal
      intro hmain
      have hset : w.main ≠ .setting := by
        intro hset
        simp [hset] at hmain
      have hthrough := hraised.cleared hset hflag
      rw [hphase] at hthrough
      rcases hthrough with hd | hd <;> cases hd
  | block hphase =>
      exact fun hmain => ⟨by simp, fun _ => Or.inl ((h hmain).1 hphase)⟩
  | enter hphase hlock =>
      refine fun hmain => ⟨fun hd => ?_, fun _ => Or.inr rfl⟩
      have hholds := hexclusive.decrement.1 (by rw [hd]; simp [Decrement.Holds])
      rw [hlock] at hholds
      cases hholds
  | signal hphase =>
      refine fun _ => ⟨fun hd => ?_, fun hd => absurd hd (signalled_ne_blocked _)⟩
      have hwaiting := signalled_waiting hd
      exact absurd (Or.inl hphase)
        (hexclusive.not_both (by rw [hwaiting]; simp [Decrement.Holds]))
  | exit hphase =>
      intro hmain
      obtain ⟨hwaiting, hblocked⟩ := h hmain
      simp only [hphase, reduceCtorEq, imp_false, or_self] at hwaiting hblocked
      exact ⟨fun hd => absurd hd hwaiting, fun hd => absurd hd hblocked⟩
  | set => exact fun hmain => by simp at hmain
  | wake hphase =>
      refine fun _ => ⟨fun hd => ?_, fun hd => absurd hd (signalled_ne_blocked _)⟩
      have hwaiting := signalled_waiting hd
      have hnot := hexclusive.not_both (by rw [hwaiting]; simp [Decrement.Holds])
      cases hincrement : w.increment with
      | locking => rfl
      | signalling | unlocking => simp [hincrement, Increment.Holds] at hnot
      | finished => exact absurd ⟨rfl, hphase, hwaiting, hincrement⟩ hmisses
  | join hphase => exact fun _ => h (Or.inl hphase)

theorem Move.joined (hmove : Move w p w') (h : Joined w) : Joined w' := by
  intro hmain
  cases hmove with
  | lock hphase =>
      obtain ⟨hdecrement, _⟩ := h hmain
      simp [hdecrement] at hphase
  | pass hphase | wait hphase | block hphase | clear hphase | leave hphase =>
      obtain ⟨hdecrement, _⟩ := h hmain
      simp [hdecrement] at hphase
  | enter hphase | signal hphase | exit hphase =>
      obtain ⟨_, hincrement⟩ := h hmain
      simp [hincrement] at hphase
  | set | wake => cases hmain
  | join _ hdecrement hincrement => exact ⟨hdecrement, hincrement⟩

theorem Move.unheard (hmove : Move w p w') (h : Unheard w) : Unheard w' := by
  obtain ⟨hmain, hincrement, hflag, hdecrement⟩ := h
  cases hmove with
  | block => exact ⟨hmain, hincrement, hflag, Or.inr rfl⟩
  | lock hphase | pass hphase | wait hphase | clear hphase | leave hphase =>
      rcases hdecrement with hd | hd <;> simp [hd] at hphase
  | enter hphase | signal hphase | exit hphase => simp [hincrement] at hphase
  | set hphase | wake hphase => simp [hmain] at hphase
  | join _ hphase => rcases hdecrement with hd | hd <;> simp [hd] at hphase

end Invariants

/-! ## Progress -/

section Progress

variable {w w' : World} {p : Party}

/-- Everybody has finished. -/
def AllFinished (w : World) : Prop :=
  w.decrement = .finished ∧ w.increment = .finished ∧ w.main = .finished

/-- If nobody can go on before the end, `decrement_count` waits for a signal that `main` and
    `increment_count` have already sent. -/
theorem stuck_cases (h : Exclusive w) (hjoined : Joined w) (hstuck : ∀ p, step w p = none) :
    AllFinished w ∨ w.decrement = .blocked ∧ w.increment = .finished ∧ w.main = .joining := by
  have hdecrement := hstuck .decrement
  have hincrement := hstuck .increment
  have hmain := hstuck .main
  simp only [step, decrement_count, increment_count, MissedSignal.main] at hdecrement hincrement hmain
  have hlock : w.lock = none := by
    cases hlock : w.lock with
    | none => rfl
    | some q =>
        exfalso
        cases q with
        | decrement =>
            rcases h.decrement.2 hlock with hd | hd | hd | hd <;> simp [hd] at hdecrement
        | increment => rcases h.increment.2 hlock with hi | hi <;> simp [hi] at hincrement
        | main => exact h.main hlock
  have hi : w.increment = .finished := by
    cases hi : w.increment <;> simp [hi, hlock] at hincrement ⊢
  have hd : w.decrement = .blocked ∨ w.decrement = .finished := by
    cases hd : w.decrement <;> simp [hd, hlock] at hdecrement ⊢
  cases hm : w.main with
  | setting | signalling => simp [hm] at hmain
  | joining =>
      rcases hd with hd | hd
      · exact Or.inr ⟨hd, hi, rfl⟩
      · simp [hm, hd, hi] at hmain
  | finished => exact Or.inl ⟨(hjoined hm).1, hi, hm⟩

/-- How much is left to do; a signal may set `decrement_count` back. -/
def World.left (w : World) : Nat :=
  (match w.decrement with
    | .locking | .resuming => 6
    | .checking => 5
    | .waiting => 4
    | .blocked => 3
    | .clearing => 2
    | .unlocking => 1
    | .finished => 0) +
  (match w.increment with
    | .locking => 7
    | .signalling => 6
    | .unlocking => 1
    | .finished => 0) +
  (match w.main with
    | .setting => 7
    | .signalling => 6
    | .joining => 1
    | .finished => 0)

theorem Move.left (hmove : Move w p w') : w'.left < w.left := by
  cases hmove with
  | lock hphase => rcases hphase with hphase | hphase <;> simp [World.left, hphase]
  | signal hphase | wake hphase =>
      cases hdecrement : w.decrement <;>
        simp [World.left, hphase, hdecrement, Decrement.signalled] <;> omega
  | pass hphase | wait hphase | block hphase | clear hphase | leave hphase | enter hphase
  | exit hphase | set hphase | join hphase => simp [World.left, hphase]

end Progress

/-! ## When the signal of `main` is missed -/

section Runs

variable {w w' : World} {p : Party}

/-- The states of all interleavings. -/
def Reachable (w : World) : Prop := Interleaved step (fun _ _ => True) start w

theorem Reachable.invariant (h : Reachable w) : Exclusive w ∧ Raised w ∧ Joined w := by
  refine h.induct (I := fun w => Exclusive w ∧ Raised w ∧ Joined w)
    ⟨Exclusive.start, Raised.start, fun h => by cases h⟩ ?_
  rintro w w' p ⟨hexclusive, hraised, hjoined⟩ _ hstep
  have hmove := step_move hstep
  exact ⟨hmove.exclusive hexclusive, hmove.raised hraised, hmove.joined hjoined⟩

theorem heard_of_reach (h : Interleaved step (fun w p => ¬ Misses w p) start w) :
    Reachable w ∧ Heard w := by
  refine h.induct (I := fun w => Reachable w ∧ Heard w) ⟨Reach.start, fun h => ?_⟩ ?_
  · rcases h with h | h <;> cases h
  · rintro w w' p ⟨hreach, hheard⟩ hmisses hstep
    obtain ⟨hexclusive, hraised, _⟩ := hreach.invariant
    exact ⟨Reach.next hreach trivial (turnOf_returns.2 hstep),
      (step_move hstep).heard hexclusive hraised hheard hmisses⟩

/-- A signal that is missed leaves nobody who would signal again. -/
theorem Reachable.unheard (h : Reachable w) (hmisses : Misses w p) (hstep : step w p = some w') :
    Unheard w' := by
  obtain ⟨rfl, hmain, hdecrement, hincrement⟩ := hmisses
  have hflag : w.flag = true := by
    by_contra hflag
    have hthrough := h.invariant.2.1.cleared (by simp [hmain]) (Bool.not_eq_true _ ▸ hflag)
    rw [hdecrement] at hthrough
    rcases hthrough with hd | hd <;> cases hd
  cases step_move hstep with
  | wake =>
      refine ⟨rfl, hincrement, hflag, Or.inl ?_⟩
      rw [hdecrement]
      rfl
  | set hphase => simp [hmain] at hphase
  | join hphase => simp [hmain] at hphase

/-- **The signal of `main` is missed exactly when** it comes after a test of `flag` and before the
    `pthread_cond_wait` that follows it, with the signal of `increment_count` already over. In an
    interleaving in which that does not happen everybody finishes: until then somebody can go on. Once
    it has happened, `decrement_count`, which does not wake up by itself, never finishes: it comes to be
    blocked with `flag` set, and nobody can go on. Every step brings the end nearer. -/
theorem signal_missed (w : World) :
    (Interleaved step (fun w p => ¬ Misses w p) start w →
      AllFinished w ∨ ∃ p, (step w p).isSome) ∧
    (∀ v v' p, Reachable v → Misses v p → step v p = some v' →
      Interleaved step (fun _ _ => True) v' w →
        w.decrement ≠ .finished ∧ (Hung w ∨ ∃ p, (step w p).isSome)) ∧
    ∀ (ops : List Party) (w' : World), ops.foldlM step w = some w' →
      ops.length + w'.left ≤ w.left := by
  have hgo : ∀ {w}, (¬ ∃ p, (step w p).isSome) → ∀ p, step w p = none := fun h p =>
    Option.not_isSome_iff_eq_none.1 fun hp => h ⟨p, hp⟩
  refine ⟨fun h => ?_, fun v v' p hreach hmisses hstep h => ?_,
    fun _ _ => schedule_length fun _ _ _ hstep => (step_move hstep).left⟩
  · obtain ⟨hreach, hheard⟩ := heard_of_reach h
    obtain ⟨hexclusive, _, hjoined⟩ := hreach.invariant
    by_cases hcan : ∃ p, (step w p).isSome
    · exact Or.inr hcan
    · refine Or.inl ((stuck_cases hexclusive hjoined (hgo hcan)).resolve_right ?_)
      rintro ⟨hdecrement, hincrement, hmain⟩
      rcases (hheard (Or.inl hmain)).2 hdecrement with hi | hi <;> rw [hincrement] at hi <;> cases hi
  · have hstart := hreach.unheard hmisses hstep
    have hafter : Reachable v' := Reach.next hreach trivial (turnOf_returns.2 hstep)
    have hunheard : Unheard w := h.induct hstart fun _ _ _ hw _ hstep => (step_move hstep).unheard hw
    obtain ⟨hexclusive, _, hjoined⟩ := Reachable.invariant (hafter.trans h)
    obtain ⟨_, _, hflag, hdecrement⟩ := hunheard
    refine ⟨by rcases hdecrement with hd | hd <;> simp [hd], ?_⟩
    by_cases hcan : ∃ p, (step w p).isSome
    · exact Or.inr hcan
    · left
      rcases stuck_cases hexclusive hjoined (hgo hcan) with hfin | ⟨hd, _, hm⟩
      · rcases hdecrement with hd | hd <;> simp [hfin.1] at hd
      · exact ⟨hgo hcan, hd, hflag, hm⟩

/-- `increment_count` comes first; then `main` sets `flag` and signals between the test and the wait. -/
theorem signal_missed_hangs : ∃ w, Reachable w ∧ Hung w ∧ w.decrement ≠ .finished := by
  have hrun : ([.increment, .increment, .increment, .decrement, .decrement, .main].foldlM
      (fun w p => if True then step w p else none) start)
      = some ⟨true, some .decrement, .waiting, .finished, .signalling⟩ := by decide
  have hbefore : Reachable ⟨true, some .decrement, .waiting, .finished, .signalling⟩ :=
    Interleaved.of_schedule hrun
  have hmisses : Misses ⟨true, some .decrement, .waiting, .finished, .signalling⟩ .main := by decide
  have hstep : step ⟨true, some .decrement, .waiting, .finished, .signalling⟩ .main
      = some ⟨true, some .decrement, .waiting, .finished, .joining⟩ := rfl
  have hblock : Interleaved step (fun _ _ => True)
      ⟨true, some .decrement, .waiting, .finished, .joining⟩
      ⟨true, none, .blocked, .finished, .joining⟩ := Reach.one .decrement trivial rfl
  have hlost := (signal_missed _).2.1 _ _ _ hbefore hmisses hstep hblock
  refine ⟨_, (Reach.next hbefore trivial (turnOf_returns.2 hstep)).trans hblock, ?_, hlost.1⟩
  refine hlost.2.resolve_right ?_
  rintro ⟨p, hp⟩
  cases p <;> cases hp

end Runs

end LinuxSamples.MissedSignal
