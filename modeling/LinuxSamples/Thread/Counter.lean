import LinuxSamples.Program.Runs
import LinuxSamples.Program.Tally

set_option autoImplicit false

/-! # A counter and a condition variable

In `test_thread_cond1.cpp` a thread that runs `decrement_counter` waits on the condition variable
`counter_nonzero` while `counter` is 0. A thread that runs `increment_counter` signals it only if it
finds `counter` at 0, and before it increments: increments that find another value wake nobody, so
that waiting threads may stay behind while `counter` is positive.

Any number of threads run either function once, each started at any time. A turn of a thread is the
code up to its next call or access to `counter`; the mutex admits one thread, `pthread_cond_wait`
releases it and blocks in one turn, and a signal wakes one blocked thread, whichever, if there is
one. -/

namespace LinuxSamples.Counter

open LinuxSamples.Program

/-! ## The program -/

/-- The function a thread runs. -/
inductive Role
  /-- `decrement_counter`. -/
  | decrement
  /-- `increment_counter`. -/
  | increment
  deriving DecidableEq, Repr

/-- What a thread does next. -/
inductive Phase
  /-- Nothing: it is not created yet. -/
  | absent
  /-- `pthread_mutex_lock`. -/
  | locking
  /-- The condition of the loop in `decrement_counter`; `woken` if the thread was blocked before. -/
  | checking (woken : Bool)
  /-- The call of `pthread_cond_wait`. -/
  | waiting
  /-- It is blocked in `pthread_cond_wait`. -/
  | blocked
  /-- It was woken in `pthread_cond_wait`, and takes the mutex again. -/
  | resuming
  /-- `counter--`. -/
  | decrementing (woken : Bool)
  /-- The condition in `increment_counter`. -/
  | testing
  /-- `pthread_cond_signal`. -/
  | signalling
  /-- `counter++`. -/
  | incrementing
  /-- `pthread_mutex_unlock`. -/
  | unlocking
  /-- Nothing: the function has returned. -/
  | finished
  deriving DecidableEq, Repr

/-- `counter`, the thread that holds `counter_lock`, and the threads. -/
structure World (T : Type) where
  counter : Int
  lock : Option T
  phase : T → Phase

/-- The turn of a thread, and the thread that it wakes if it signals. -/
structure Turn (T : Type) where
  thread : T
  wakes : Option T

variable {T : Type} [DecidableEq T]

def World.set (w : World T) (t : T) (p : Phase) : World T :=
  { w with phase := Function.update w.phase t p }

/-- No thread is created yet. -/
def start : World T := ⟨0, none, fun _ => .absent⟩

/-- What a thread does with the mutex first. -/
def Role.entry : Role → Phase
  | .decrement => .checking false
  | .increment => .testing

/-- The next step of a thread, if it can take one. -/
def step [Fintype T] (role : T → Role) (w : World T) (turn : Turn T) : Option (World T) :=
  let t := turn.thread
  match w.phase t with
  | .absent => some (w.set t .locking)
  | .locking =>
      if w.lock = none then some ({ w with lock := some t }.set t (role t).entry) else none
  | .checking woken => some (w.set t (if w.counter = 0 then .waiting else .decrementing woken))
  | .waiting => some ({ w with lock := none }.set t .blocked)
  | .blocked => none
  | .resuming =>
      if w.lock = none then some ({ w with lock := some t }.set t (.checking true)) else none
  | .decrementing _ => some ({ w with counter := w.counter - 1 }.set t .unlocking)
  | .testing => some (w.set t (if w.counter = 0 then .signalling else .incrementing))
  | .signalling =>
      match turn.wakes with
      | some u =>
          if w.phase u = .blocked then some ((w.set u .resuming).set t .incrementing) else none
      | none => if ∀ u, w.phase u ≠ .blocked then some (w.set t .incrementing) else none
  | .incrementing => some ({ w with counter := w.counter + 1 }.set t .unlocking)
  | .unlocking => some ({ w with lock := none }.set t .finished)
  | .finished => none

/-- A thread was woken and has not yet done what it was woken for. -/
def Phase.Woken (p : Phase) : Prop := p = .resuming ∨ p = .checking true ∨ p = .decrementing true

instance (p : Phase) : Decidable p.Woken := inferInstanceAs (Decidable (_ ∨ _ ∨ _))

/-- **A lost wake-up.** Every thread that was to increment has done so, none that was woken is still
    to run, and one is blocked though `counter` is positive. -/
def World.Lost (role : T → Role) (w : World T) : Prop :=
  (∀ t, role t = .increment → w.phase t = .absent ∨ w.phase t = .finished) ∧
    (∀ t, ¬ (w.phase t).Woken) ∧ 0 < w.counter ∧ ∃ t, w.phase t = .blocked

instance [Fintype T] (role : T → Role) (w : World T) : Decidable (w.Lost role) :=
  inferInstanceAs (Decidable (_ ∧ _ ∧ _ ∧ _))

/-- Thread `t` does not find `counter` positive in `increment_counter`, where it then wakes nobody,
    unless no thread is blocked or more threads are already woken than `counter` says. -/
def Answered [Fintype T] (w : World T) (t : T) : Prop :=
  w.phase t = .testing → w.counter ≠ 0 →
    (∀ u, w.phase u ≠ .blocked) ∨ w.counter < tally w.phase (· = .resuming)

instance [Fintype T] (w : World T) (t : T) : Decidable (Answered w t) :=
  inferInstanceAs (Decidable (_ → _ → _ ∨ _))

/-! ## One step -/

section Steps

variable {role : T → Role} {w w' : World T} {turn : Turn T} {t u : T} {p : Phase}

@[simp] theorem World.set_counter (w : World T) (t : T) (p : Phase) :
    (w.set t p).counter = w.counter := rfl

@[simp] theorem World.set_lock (w : World T) (t : T) (p : Phase) : (w.set t p).lock = w.lock := rfl

@[simp] theorem World.set_phase_self (w : World T) (t : T) (p : Phase) : (w.set t p).phase t = p :=
  Function.update_self ..

theorem World.set_phase_other (w : World T) (h : u ≠ t) (p : Phase) :
    (w.set t p).phase u = w.phase u := Function.update_of_ne h ..

/-- The ways a thread can go on. -/
inductive Move (role : T → Role) (w : World T) (t : T) : World T → Prop
  | create : w.phase t = .absent → Move role w t (w.set t .locking)
  | lock : w.phase t = .locking → w.lock = none →
      Move role w t ({ w with lock := some t }.set t (role t).entry)
  | wait (woken : Bool) : w.phase t = .checking woken → w.counter = 0 →
      Move role w t (w.set t .waiting)
  | pass (woken : Bool) : w.phase t = .checking woken → w.counter ≠ 0 →
      Move role w t (w.set t (.decrementing woken))
  | block : w.phase t = .waiting → Move role w t ({ w with lock := none }.set t .blocked)
  | resume : w.phase t = .resuming → w.lock = none →
      Move role w t ({ w with lock := some t }.set t (.checking true))
  | decrement (woken : Bool) : w.phase t = .decrementing woken →
      Move role w t ({ w with counter := w.counter - 1 }.set t .unlocking)
  | empty : w.phase t = .testing → w.counter = 0 → Move role w t (w.set t .signalling)
  | skip : w.phase t = .testing → w.counter ≠ 0 → Move role w t (w.set t .incrementing)
  | wake (u : T) : w.phase t = .signalling → w.phase u = .blocked →
      Move role w t ((w.set u .resuming).set t .incrementing)
  | nobody : w.phase t = .signalling → (∀ u, w.phase u ≠ .blocked) →
      Move role w t (w.set t .incrementing)
  | increment : w.phase t = .incrementing →
      Move role w t ({ w with counter := w.counter + 1 }.set t .unlocking)
  | unlock : w.phase t = .unlocking → Move role w t ({ w with lock := none }.set t .finished)

theorem step_move [Fintype T] (h : step role w turn = some w') : Move role w turn.thread w' := by
  unfold step at h
  cases hphase : w.phase turn.thread with
  | absent =>
      simp only [hphase, Option.some.injEq] at h
      subst h
      exact Move.create hphase
  | locking =>
      simp only [hphase, Option.ite_none_right_eq_some, Option.some.injEq] at h
      obtain ⟨hlock, rfl⟩ := h
      exact Move.lock hphase hlock
  | checking woken =>
      simp only [hphase, Option.some.injEq] at h
      subst h
      split
      · next hcounter => exact Move.wait woken hphase hcounter
      · next hcounter => exact Move.pass woken hphase hcounter
  | waiting =>
      simp only [hphase, Option.some.injEq] at h
      subst h
      exact Move.block hphase
  | blocked =>
      simp [hphase] at h
  | resuming =>
      simp only [hphase, Option.ite_none_right_eq_some, Option.some.injEq] at h
      obtain ⟨hlock, rfl⟩ := h
      exact Move.resume hphase hlock
  | decrementing woken =>
      simp only [hphase, Option.some.injEq] at h
      subst h
      exact Move.decrement woken hphase
  | testing =>
      simp only [hphase, Option.some.injEq] at h
      subst h
      split
      · next hcounter => exact Move.empty hphase hcounter
      · next hcounter => exact Move.skip hphase hcounter
  | signalling =>
      rcases hwakes : turn.wakes with _ | u
      · simp only [hphase, hwakes, Option.ite_none_right_eq_some, Option.some.injEq] at h
        obtain ⟨hnobody, rfl⟩ := h
        exact Move.nobody hphase hnobody
      · simp only [hphase, hwakes, Option.ite_none_right_eq_some, Option.some.injEq] at h
        obtain ⟨hblocked, rfl⟩ := h
        exact Move.wake u hphase hblocked
  | incrementing =>
      simp only [hphase, Option.some.injEq] at h
      subst h
      exact Move.increment hphase
  | unlocking =>
      simp only [hphase, Option.some.injEq] at h
      subst h
      exact Move.unlock hphase
  | finished =>
      simp [hphase] at h

end Steps

/-! ## The mutex -/

/-- The thread holds the mutex. -/
def Phase.Holds : Phase → Prop
  | .checking _ | .waiting | .decrementing _ | .testing | .signalling | .incrementing
  | .unlocking => True
  | .absent | .locking | .blocked | .resuming | .finished => False

/-- The mutex is held by the thread that it names, and by no other. -/
def Exclusive (w : World T) : Prop := ∀ t, (w.phase t).Holds ↔ w.lock = some t

section Mutex

variable {role : T → Role} {w w' : World T} {t u : T} {p : Phase}

theorem Exclusive.keep (h : Exclusive w) (hp : p.Holds ↔ (w.phase t).Holds) (c : Int) :
    Exclusive ({ w with counter := c }.set t p) := by
  intro u
  by_cases hut : u = t
  · subst hut
    rw [World.set_phase_self, hp]
    exact h u
  · rw [World.set_phase_other _ hut]
    exact h u

theorem Exclusive.take (h : Exclusive w) (hlock : w.lock = none) (hp : p.Holds) :
    Exclusive ({ w with lock := some t }.set t p) := by
  intro u
  by_cases hut : u = t
  · subst hut
    simpa using hp
  · have hu := h u
    rw [hlock] at hu
    rw [World.set_phase_other _ hut]
    simpa [Ne.symm hut] using hu

theorem Exclusive.release (h : Exclusive w) (ht : (w.phase t).Holds) (hp : ¬ p.Holds) :
    Exclusive ({ w with lock := none }.set t p) := by
  intro u
  by_cases hut : u = t
  · subst hut
    simpa using hp
  · have hu := h u
    rw [(h t).1 ht] at hu
    rw [World.set_phase_other _ hut]
    simpa [Ne.symm hut] using hu

omit [DecidableEq T] in
/-- Two threads do not hold the mutex at once. -/
theorem Exclusive.unique (h : Exclusive w) (ht : (w.phase t).Holds) (hu : (w.phase u).Holds) :
    u = t := by
  have hlock := (h t).1 ht
  rw [(h u).1 hu] at hlock
  exact Option.some.inj hlock

theorem Move.exclusive (hmove : Move role w t w') (h : Exclusive w) : Exclusive w' := by
  cases hmove with
  | create hphase => exact h.keep (by simp [hphase, Phase.Holds]) _
  | lock _ hlock => exact h.take hlock (by cases role t <;> trivial)
  | wait _ hphase | pass _ hphase | decrement _ hphase =>
      exact h.keep (by simp [hphase, Phase.Holds]) _
  | block hphase | unlock hphase =>
      exact h.release (by rw [hphase]; trivial) not_false
  | resume _ hlock => exact h.take hlock trivial
  | empty hphase | skip hphase | nobody hphase | increment hphase =>
      exact h.keep (by simp [hphase, Phase.Holds]) _
  | wake u hphase hblocked =>
      have hwoken : Exclusive (w.set u .resuming) := h.keep (by simp [hblocked, Phase.Holds]) _
      have hut : t ≠ u := by
        rintro rfl
        rw [hphase] at hblocked
        cases hblocked
      refine hwoken.keep ?_ _
      rw [World.set_phase_other _ hut, hphase]
      simp [Phase.Holds]

end Mutex

/-! ## The counter -/

/-- What a thread that holds the mutex knows of `counter`. -/
def Phase.Fits (c : Int) : Phase → Prop
  | .waiting | .signalling => c = 0
  | .decrementing _ => 0 < c
  | _ => True

structure Consistent (w : World T) : Prop where
  exclusive : Exclusive w
  nonneg : 0 ≤ w.counter
  fits : ∀ t, (w.phase t).Fits w.counter

section Counter

variable {role : T → Role} {w w' : World T} {turn : Turn T} {t u : T} {p : Phase}

omit [DecidableEq T] in
theorem Consistent.start : Consistent (start : World T) where
  exclusive t := by simp [Counter.start, Phase.Holds]
  nonneg := Int.le_refl 0
  fits t := trivial

theorem fits_of_not_holds (hp : ¬ p.Holds) (c : Int) : p.Fits c := by
  cases p <;> first | trivial | exact absurd trivial hp

/-- A turn that does not change `counter`. -/
theorem Consistent.fits_keep (h : Consistent w) (lock : Option T) (hp : p.Fits w.counter) :
    ∀ u, (({ w with lock := lock }.set t p).phase u).Fits w.counter := by
  intro u
  by_cases hut : u = t
  · subst hut
    rwa [World.set_phase_self]
  · rw [World.set_phase_other _ hut]
    exact h.fits u

/-- A turn that changes `counter`: nobody else holds the mutex. -/
theorem Consistent.fits_change (h : Consistent w) (ht : (w.phase t).Holds) (c : Int) :
    ∀ u, (({ w with counter := c }.set t .unlocking).phase u).Fits c := by
  intro u
  by_cases hut : u = t
  · subst hut
    rw [World.set_phase_self]
    trivial
  · rw [World.set_phase_other _ hut]
    exact fits_of_not_holds (fun hu => hut (h.exclusive.unique ht hu)) c

theorem Move.nonneg (hmove : Move role w t w') (h : Consistent w) : 0 ≤ w'.counter := by
  have hnonneg := h.nonneg
  cases hmove with
  | decrement woken hphase =>
      have hpos := h.fits t
      rw [hphase] at hpos
      exact Int.sub_nonneg.2 hpos
  | increment => exact Int.add_nonneg hnonneg (by decide)
  | create | lock | wait | pass | block | resume | empty | skip | wake | nobody | unlock =>
      exact hnonneg

theorem Move.fits (hmove : Move role w t w') (h : Consistent w) :
    ∀ u, (w'.phase u).Fits w'.counter := by
  cases hmove with
  | create | resume | skip | nobody | block | unlock => exact h.fits_keep _ trivial
  | lock => exact h.fits_keep _ (by cases role t <;> trivial)
  | wait _ _ hcounter | empty _ hcounter => exact h.fits_keep _ hcounter
  | pass _ _ hcounter => exact h.fits_keep _ (lt_of_le_of_ne h.nonneg hcounter.symm)
  | decrement _ hphase | increment hphase => exact h.fits_change (by rw [hphase]; trivial) _
  | wake u => 
      intro v
      by_cases hvt : v = t
      · subst hvt
        rw [World.set_phase_self]
        trivial
      · rw [World.set_phase_other _ hvt]
        exact h.fits_keep (p := .resuming) w.lock trivial v

theorem Move.consistent (hmove : Move role w t w') (h : Consistent w) : Consistent w' :=
  ⟨hmove.exclusive h.exclusive, hmove.nonneg h, hmove.fits h⟩

end Counter

/-! ## Who is woken for what -/

/-- While a thread is blocked, there is a thread that was woken for every unit of `counter`, counting
    the one that is about to be added. -/
def Supplied [Fintype T] (w : World T) : Prop := (∃ t, w.phase t = .blocked) →
  w.counter + tally w.phase (· = .incrementing) ≤ tally w.phase Phase.Woken

section Supply

variable [Fintype T] {role : T → Role} {w w' : World T} {turn : Turn T} {t u : T} {p : Phase}

theorem tally_set (w : World T) (t : T) (p : Phase) (kind : Phase → Prop) [DecidablePred kind] :
    tally (w.set t p).phase kind + (if kind (w.phase t) then 1 else 0)
      = tally w.phase kind + if kind p then 1 else 0 := tally_update t p

omit [Fintype T] in
theorem blocked_set (hp : p ≠ .blocked) (h : ∃ u, (w.set t p).phase u = .blocked) :
    ∃ u, w.phase u = .blocked := by
  obtain ⟨u, hu⟩ := h
  by_cases hut : u = t
  · subst hut
    rw [World.set_phase_self] at hu
    exact absurd hu hp
  · rw [World.set_phase_other _ hut] at hu
    exact ⟨u, hu⟩

omit [DecidableEq T] in
/-- While a thread holds the mutex and does not increment, nobody does. -/
theorem tally_incrementing (h : Exclusive w) (hphase : w.phase t = p) (hp : p.Holds)
    (hne : p ≠ .incrementing) : tally w.phase (· = .incrementing) = 0 := by
  refine tally_eq_zero.2 fun u hu => hne ?_
  obtain rfl := h.unique (t := t) (by rwa [hphase]) (by rw [hu]; trivial)
  exact hphase.symm.trans hu

/-- A turn that makes up for what it takes. -/
theorem Supplied.keep (h : Supplied w) (lock : Option T) (c : Int) (hp : p ≠ .blocked)
    (hle : c + (if p = .incrementing then 1 else 0 : Nat) + (if (w.phase t).Woken then 1 else 0 : Nat)
      ≤ w.counter + (if w.phase t = .incrementing then 1 else 0 : Nat)
        + (if p.Woken then 1 else 0 : Nat)) :
    Supplied ({ w with counter := c, lock := lock }.set t p) := by
  intro hblocked
  have hsupply := h (blocked_set (w := w) hp hblocked)
  have hincrementing := tally_set w t p (· = .incrementing)
  have hwoken := tally_set w t p Phase.Woken
  show c + (tally (w.set t p).phase _ : Int) ≤ tally (w.set t p).phase _
  omega

/-- A turn that finds `counter` at 0 and does not increment. -/
theorem Supplied.idle (lock : Option T) (hcounter : w.counter = 0)
    (hmutex : tally w.phase (· = .incrementing) = 0) (hp : p ≠ .incrementing) :
    Supplied ({ w with lock := lock }.set t p) := by
  intro _
  have hincrementing := tally_set w t p (· = .incrementing)
  rw [hmutex, if_neg hp] at hincrementing
  show w.counter + (tally (w.set t p).phase _ : Int) ≤ tally (w.set t p).phase _
  omega

/-- An increment that wakes nobody. -/
theorem Supplied.skip (hphase : w.phase t = .testing)
    (hmutex : tally w.phase (· = .incrementing) = 0)
    (hanswered : (∀ u, w.phase u ≠ .blocked) ∨ w.counter < tally w.phase (· = .resuming)) :
    Supplied (w.set t .incrementing) := by
  intro hblocked
  obtain ⟨u, hu⟩ := blocked_set (by decide) hblocked
  have hwoken := hanswered.resolve_left fun hnobody => hnobody u hu
  have hresuming : tally w.phase (· = .resuming) ≤ tally w.phase Phase.Woken :=
    tally_mono fun p hp => Or.inl hp
  have hincrementing := tally_set w t .incrementing (· = .incrementing)
  have hsame := tally_set w t .incrementing Phase.Woken
  simp [hphase, hmutex, Phase.Woken] at hincrementing hsame
  rw [World.set_counter]
  omega

/-- An increment that wakes a thread. -/
theorem Supplied.wake (hcounter : w.counter = 0) (hphase : w.phase t = .signalling)
    (hmutex : tally w.phase (· = .incrementing) = 0) (hu : w.phase u = .blocked) :
    Supplied ((w.set u .resuming).set t .incrementing) := by
  intro _
  have hut : t ≠ u := by
    rintro rfl
    rw [hphase] at hu
    cases hu
  have hphase' : (w.set u .resuming).phase t = .signalling := by
    rw [World.set_phase_other _ hut, hphase]
  have hincrementing₁ := tally_set w u .resuming (· = .incrementing)
  have hincrementing₂ := tally_set (w.set u .resuming) t .incrementing (· = .incrementing)
  have hwoken₁ := tally_set w u .resuming Phase.Woken
  have hwoken₂ := tally_set (w.set u .resuming) t .incrementing Phase.Woken
  simp [hu, hmutex, hphase', Phase.Woken] at hincrementing₁ hincrementing₂ hwoken₁ hwoken₂
  rw [World.set_counter, World.set_counter, hcounter]
  omega

theorem Move.supplied (hmove : Move role w t w') (hw : Consistent w) (h : Supplied w)
    (hanswered : Answered w t) : Supplied w' := by
  have hmutex : ∀ {p}, w.phase t = p → p.Holds → p ≠ .incrementing →
      tally w.phase (· = .incrementing) = 0 := tally_incrementing hw.exclusive
  cases hmove with
  | create hphase | empty hphase => exact h.keep w.lock _ (by decide) (by simp [hphase, Phase.Woken])
  | lock hphase =>
      refine h.keep (some t) _ ?_ ?_
      · cases role t <;> decide
      · cases role t <;> simp [hphase, Phase.Woken, Role.entry]
  | wait woken hphase hcounter =>
      exact Supplied.idle w.lock hcounter (hmutex hphase trivial (by simp)) (by decide)
  | pass woken hphase =>
      refine h.keep w.lock _ (by simp) ?_
      simp [hphase, Phase.Woken]
  | block hphase =>
      have hcounter := hw.fits t
      rw [hphase] at hcounter
      exact Supplied.idle none hcounter (hmutex hphase trivial (by decide)) (by decide)
  | resume hphase => exact h.keep (some t) _ (by decide) (by simp [hphase, Phase.Woken])
  | decrement woken hphase =>
      refine h.keep w.lock _ (by decide) ?_
      cases woken with
      | false =>
          simp only [hphase, Phase.Woken, reduceCtorEq, Phase.decrementing.injEq, Bool.false_eq_true,
            or_self, if_false]
          omega
      | true => simp [hphase, Phase.Woken]
  | skip hphase hcounter =>
      exact Supplied.skip hphase (hmutex hphase trivial (by decide))
        (hanswered hphase hcounter)
  | wake u hphase hblocked =>
      have hcounter := hw.fits t
      rw [hphase] at hcounter
      exact Supplied.wake hcounter hphase (hmutex hphase trivial (by decide))
        hblocked
  | nobody hphase hnobody =>
      intro hblocked
      obtain ⟨u, hu⟩ := blocked_set (by decide) hblocked
      exact absurd hu (hnobody u)
  | increment hphase => exact h.keep w.lock _ (by decide) (by simp [hphase, Phase.Woken])
  | unlock hphase => exact h.keep none _ (by decide) (by simp [hphase, Phase.Woken])

omit [DecidableEq T] in
/-- While a thread is blocked and none is woken, `counter` is 0. -/
theorem Supplied.counter_zero (h : Supplied w) (hw : Consistent w)
    (hwoken : ∀ u, ¬ (w.phase u).Woken) (hblocked : w.phase t = .blocked) : w.counter = 0 := by
  have hsupply := h ⟨t, hblocked⟩
  rw [tally_eq_zero.2 hwoken] at hsupply
  have hnonneg := hw.nonneg
  omega

end Supply

/-! ## Runs -/

section Runs

variable [Fintype T] {role : T → Role} {w : World T}

/-- `counter` **in every interleaving**. -/
theorem Consistent.of_reach
    (h : Interleaved (step role) (fun _ _ => True) Counter.start w) : Consistent w :=
  h.induct Consistent.start fun _ _ _ hw _ hstep => (step_move hstep).consistent hw

theorem Supplied.of_reach
    (h : Interleaved (step role) (fun w turn => Answered w turn.thread) Counter.start w) :
    Consistent w ∧ Supplied w := by
  refine h.induct (I := fun w => Consistent w ∧ Supplied w) ⟨Consistent.start, ?_⟩ ?_
  · rintro ⟨u, hu⟩
    cases hu
  · rintro w w' turn ⟨hw, hsupply⟩ hanswered hstep
    have hmove := step_move hstep
    exact ⟨hmove.consistent hw, hmove.supplied hw hsupply hanswered⟩

/-- **No lost wake-up**, for any number of threads: `counter` is never negative, and no wake-up is
    lost in an interleaving in which every increment that wakes nobody is answered. -/
theorem no_lost_wakeup (role : T → Role) (w : World T) :
    (Interleaved (step role) (fun _ _ => True) start w → 0 ≤ w.counter) ∧
      (Interleaved (step role) (fun w turn => Answered w turn.thread) start w → ¬ w.Lost role) := by
  refine ⟨fun h => (Consistent.of_reach h).nonneg, ?_⟩
  rintro h ⟨_, hwoken, hpos, u, hu⟩
  obtain ⟨hw, hsupply⟩ := Supplied.of_reach h
  exact absurd (hsupply.counter_zero hw hwoken hu) (Int.ne_of_gt hpos)

/-- Threads 0 and 1 decrement, threads 2 and 3 increment. -/
def roles (t : Fin 4) : Role := if t < 2 then .decrement else .increment

/-- A thread takes some turns, and wakes another one if it signals. -/
def turns (n : Nat) (t : Fin 4) (wakes : Option (Fin 4)) : List (Turn (Fin 4)) :=
  List.replicate n ⟨t, wakes⟩

/-- Thread 0 waits, is woken by thread 2, and decrements before thread 3 increments. -/
theorem no_lost_wakeup_in_turn : ∃ w,
    Interleaved (step roles) (fun w turn => Answered w turn.thread) start w ∧ w.counter = 1 ∧
      ¬ w.Lost roles := by
  have hrun : ((turns 4 0 none ++ turns 6 2 (some 0) ++ turns 4 0 none ++ turns 6 3 none).foldlM
      (fun w turn => if Answered w turn.thread then step roles w turn else none) start).map
        World.counter = some 1 := by decide +kernel
  obtain ⟨w, hw, hcounter⟩ := Option.map_eq_some_iff.1 hrun
  have hreach : Interleaved (step roles) (fun w turn => Answered w turn.thread) start w :=
    Interleaved.of_schedule hw
  exact ⟨w, hreach, hcounter, (no_lost_wakeup roles w).2 hreach⟩

/-- Threads 0 and 1 wait. Thread 2 wakes thread 0 and increments; thread 3 finds `counter` at 1, wakes
    nobody and increments. Thread 0 decrements, and thread 1 stays behind with `counter` at 1. -/
theorem lost_wakeup : ∃ w, Interleaved (step roles) (fun _ _ => True) start w ∧ w.counter = 1 ∧
    w.phase 1 = .blocked ∧ (∀ t, t ≠ 1 → w.phase t = .finished) ∧ w.Lost roles := by
  have hrun : ((turns 4 0 none ++ turns 4 1 none ++ turns 6 2 (some 0) ++ turns 5 3 none ++
      turns 4 0 none).foldlM (fun w turn => if True then step roles w turn else none) start).map
        (fun w => decide (w.counter = 1 ∧ w.phase 1 = .blocked ∧
          (∀ t, t ≠ 1 → w.phase t = .finished) ∧ w.Lost roles)) = some true := by decide +kernel
  obtain ⟨w, hw, hlost⟩ := Option.map_eq_some_iff.1 hrun
  exact ⟨w, Interleaved.of_schedule hw, of_decide_eq_true hlost⟩

end Runs

/-! ## One thread that decrements -/

/-- The thread is in `decrement_counter`. -/
def Phase.Decrements : Phase → Prop
  | .checking _ | .waiting | .blocked | .resuming | .decrementing _ => True
  | .absent | .locking | .testing | .signalling | .incrementing | .unlocking | .finished => False

/-- Each thread is in its own function. -/
def Cast (role : T → Role) (w : World T) : Prop :=
  ∀ t, (w.phase t).Decrements → role t = .decrement

section Single

variable {role : T → Role} {w w' : World T} {t : T} {p : Phase}

theorem Cast.set (h : Cast role w) (hp : p.Decrements → role t = .decrement) (lock : Option T)
    (c : Int) : Cast role ({ w with counter := c, lock := lock }.set t p) := by
  intro u hu
  by_cases hut : u = t
  · subst hut
    rw [World.set_phase_self] at hu
    exact hp hu
  · rw [World.set_phase_other _ hut] at hu
    exact h u hu

theorem Move.cast (hmove : Move role w t w') (h : Cast role w) : Cast role w' := by
  have hsame : ∀ {p}, w.phase t = p → p.Decrements → role t = .decrement := by
    rintro _ rfl hp
    exact h t hp
  cases hmove with
  | create | empty | skip | nobody => exact h.set False.elim w.lock _
  | lock =>
      refine h.set (fun hp => ?_) (some t) _
      cases hrole : role t with
      | decrement => rfl
      | increment =>
          rw [hrole] at hp
          cases hp
  | wait _ hphase | pass _ hphase => exact h.set (fun _ => hsame hphase trivial) w.lock _
  | block hphase => exact h.set (fun _ => hsame hphase trivial) none _
  | resume hphase => exact h.set (fun _ => hsame hphase trivial) (some t) _
  | decrement | increment => exact h.set False.elim w.lock _
  | unlock => exact h.set False.elim none _
  | wake u _ hblocked =>
      have hu : role u = .decrement := h u (by rw [hblocked]; trivial)
      exact Cast.set (h.set (fun _ => hu) w.lock w.counter) False.elim w.lock _

theorem Phase.Woken.decrements (h : p.Woken) : p.Decrements := by
  rcases h with rfl | rfl | rfl <;> trivial

omit [DecidableEq T] in
/-- Where only one thread decrements, none is woken while it is blocked. -/
theorem Cast.not_woken (h : Cast role w)
    (hrole : ∀ t u, role t = .decrement → role u = .decrement → t = u)
    (hblocked : w.phase t = .blocked) (u : T) : ¬ (w.phase u).Woken := by
  intro hu
  obtain rfl := hrole t u (h t (by rw [hblocked]; trivial)) (h u hu.decrements)
  rw [hblocked] at hu
  rcases hu with hu | hu | hu <;> cases hu

/-- Where only one thread decrements, as in `main`, an increment that wakes nobody finds none blocked:
    no wake-up is lost in any interleaving. -/
theorem single_decrementer [Fintype T]
    (hrole : ∀ t u, role t = .decrement → role u = .decrement → t = u)
    (h : Interleaved (step role) (fun _ _ => True) start w) : ¬ w.Lost role := by
  have hall : Consistent w ∧ Supplied w ∧ Cast role w := by
    refine h.induct (I := fun w => Consistent w ∧ Supplied w ∧ Cast role w) ?_ ?_
    · refine ⟨Consistent.start, ?_, fun t ht => by cases ht⟩
      rintro ⟨u, hu⟩
      cases hu
    · rintro w w' turn ⟨hw, hsupply, hcast⟩ _ hstep
      have hmove := step_move hstep
      refine ⟨hmove.consistent hw, hmove.supplied hw hsupply ?_, hmove.cast hcast⟩
      exact fun _ hcounter => Or.inl fun u hu =>
        hcounter (hsupply.counter_zero hw (hcast.not_woken hrole hu) hu)
  obtain ⟨hw, hsupply, _⟩ := hall
  rintro ⟨_, hwoken, hpos, u, hu⟩
  exact absurd (hsupply.counter_zero hw hwoken hu) (Int.ne_of_gt hpos)

end Single

end LinuxSamples.Counter
