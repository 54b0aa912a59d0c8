import LinuxSamples.Program.Runs
import Mathlib.Logic.Function.Basic

set_option autoImplicit false

/-! # Two threads that take turns

In `test_thread_sem2.cpp` the threads `pc` and `pi` print the elements of `arr` and `a`. Each takes
the semaphore `s1` and then, while `cnt` says that it is the turn of the other, posts `s1` in a loop
without taking it again. So `s1` admits both threads before long and its value has no bound. What
keeps them apart is `cnt`: a thread that has left its inner loop has its turn until it writes `cnt`,
and only the thread whose turn it is writes. -/

namespace LinuxSamples.Alternation

open LinuxSamples.Program

/-! ## The program -/

/-- A line that is printed: an element of `arr` with `%c`, or of `a` with `%d`. -/
inductive Item
  | char (c : Char)
  | int (n : Int)
  deriving DecidableEq, Repr

/-- `int a[]`. -/
def a : List Int := [1, 2, 3, 4, 5, 6, 7, 8, 9]

/-- `char arr[]`. -/
def arr : List Char := ['a', 'b', 'c', 'd', 'e', 'f', 'g', 'h', 'j']

/-- What `pc` and `pi` differ in: the items they print, the value of `cnt` during which they stay in
    the inner loop, and the value they write to it. -/
structure Body where
  items : List Item
  stays : Int
  writes : Int

def pc : Body := ⟨arr.map .char, 0, 0⟩

def pi : Body := ⟨a.map .int, 1, 1⟩

inductive Thread
  | pc
  | pi
  deriving DecidableEq, Repr

def Thread.body : Thread → Body
  | .pc => Alternation.pc
  | .pi => Alternation.pi

/-- The step a thread takes next. -/
inductive Phase
  /-- `sem_wait(&s1)`. -/
  | waiting
  /-- The read of `cnt` in the condition of the inner loop. -/
  | checking
  /-- `sem_post(&s1)` in the inner loop. -/
  | posting
  /-- `fprintf` of an item. -/
  | printing
  /-- The write of `cnt`. -/
  | writing
  /-- `sem_post(&s1)` at the end of a round. -/
  | leaving
  /-- None: the function has returned. -/
  | finished
  deriving DecidableEq, Repr

/-- Where a thread is, and its local variable `i`. -/
structure Frame where
  phase : Phase
  i : Nat
  deriving DecidableEq, Repr

/-- The semaphore, the variable `cnt`, the items printed so far and the threads. -/
structure World where
  s1 : Nat
  cnt : Int
  printed : List Item
  frame : Thread → Frame

def World.set (w : World) (t : Thread) (f : Frame) : World :=
  { w with frame := Function.update w.frame t f }

/-- The number of rounds of both loops. -/
def rounds : Nat := 9

/-- Both threads are at the `sem_wait` of their first round. -/
def start : World := ⟨1, 0, [], fun _ => ⟨.waiting, 0⟩⟩

/-- The next step of thread `t`, if it can take one. -/
def step (w : World) (t : Thread) : Option World :=
  let i := (w.frame t).i
  match (w.frame t).phase with
  | .waiting =>
      if 0 < w.s1 then some ({ w with s1 := w.s1 - 1 }.set t ⟨.checking, i⟩) else none
  | .checking => some (w.set t ⟨if w.cnt = t.body.stays then .posting else .printing, i⟩)
  | .posting => some ({ w with s1 := w.s1 + 1 }.set t ⟨.checking, i⟩)
  | .printing => t.body.items[i]?.map fun x =>
      { w with printed := w.printed ++ [x] }.set t ⟨.writing, i + 1⟩
  | .writing => some ({ w with cnt := t.body.writes }.set t ⟨.leaving, i⟩)
  | .leaving =>
      -- `while (i < 9)`
      some ({ w with s1 := w.s1 + 1 }.set t ⟨if i < rounds then .waiting else .finished, i⟩)
  | .finished => none

/-- The states of all interleavings. -/
def Reachable (w : World) : Prop := Interleaved step (fun _ _ => True) start w

/-- A thread has left its inner loop and not yet written `cnt`. -/
def Phase.Critical (p : Phase) : Prop := p = .printing ∨ p = .writing

instance (p : Phase) : Decidable p.Critical := inferInstanceAs (Decidable (_ ∨ _))

/-! ## The order of the items -/

/-- The elements of two lists in turns. -/
def alternate {α : Type} : List α → List α → List α
  | x :: xs, y :: ys => x :: y :: alternate xs ys
  | _, _ => []

/-- `a[0], arr[0], a[1], arr[1], …, a[8], arr[8]`. -/
def expected : List Item := alternate (a.map .int) (arr.map .char)

theorem alternate_even {α : Type} {xs ys : List α} (hlen : xs.length = ys.length) (k : Nat) :
    (alternate xs ys)[2 * k]? = xs[k]? := by
  induction xs generalizing ys k with
  | nil => simp [alternate]
  | cons x xs ih =>
      obtain ⟨y, ys, rfl⟩ := List.exists_cons_of_length_eq_add_one hlen.symm
      cases k with
      | zero => rfl
      | succ k => simpa [alternate, Nat.mul_add] using ih (by simpa using hlen) k

theorem alternate_odd {α : Type} {xs ys : List α} (hlen : xs.length = ys.length) (k : Nat) :
    (alternate xs ys)[2 * k + 1]? = ys[k]? := by
  induction xs generalizing ys k with
  | nil => simp [alternate, List.eq_nil_of_length_eq_zero hlen.symm]
  | cons x xs ih =>
      obtain ⟨y, ys, rfl⟩ := List.exists_cons_of_length_eq_add_one hlen.symm
      cases k with
      | zero => rfl
      | succ k => simpa [alternate, Nat.mul_add] using ih (by simpa using hlen) k

/-! ## One step -/

section Steps

variable {w w' : World} {t u : Thread}

@[simp] theorem World.set_s1 (w : World) (t : Thread) (f : Frame) : (w.set t f).s1 = w.s1 := rfl

@[simp] theorem World.set_cnt (w : World) (t : Thread) (f : Frame) : (w.set t f).cnt = w.cnt := rfl

@[simp] theorem World.set_printed (w : World) (t : Thread) (f : Frame) :
    (w.set t f).printed = w.printed := rfl

@[simp] theorem World.set_frame_self (w : World) (t : Thread) (f : Frame) :
    (w.set t f).frame t = f := Function.update_self ..

theorem World.set_frame_other (w : World) (h : u ≠ t) (f : Frame) :
    (w.set t f).frame u = w.frame u := Function.update_of_ne h ..

/-- The ways a thread can go on. -/
inductive Move (w : World) (t : Thread) : World → Prop
  | wait : (w.frame t).phase = .waiting → 0 < w.s1 →
      Move w t ({ w with s1 := w.s1 - 1 }.set t ⟨.checking, (w.frame t).i⟩)
  | stay : (w.frame t).phase = .checking → w.cnt = t.body.stays →
      Move w t (w.set t ⟨.posting, (w.frame t).i⟩)
  | enter : (w.frame t).phase = .checking → w.cnt ≠ t.body.stays →
      Move w t (w.set t ⟨.printing, (w.frame t).i⟩)
  | post : (w.frame t).phase = .posting →
      Move w t ({ w with s1 := w.s1 + 1 }.set t ⟨.checking, (w.frame t).i⟩)
  | print (x : Item) : (w.frame t).phase = .printing → t.body.items[(w.frame t).i]? = some x →
      Move w t ({ w with printed := w.printed ++ [x] }.set t ⟨.writing, (w.frame t).i + 1⟩)
  | write : (w.frame t).phase = .writing →
      Move w t ({ w with cnt := t.body.writes }.set t ⟨.leaving, (w.frame t).i⟩)
  | again : (w.frame t).phase = .leaving → (w.frame t).i < rounds →
      Move w t ({ w with s1 := w.s1 + 1 }.set t ⟨.waiting, (w.frame t).i⟩)
  | finish : (w.frame t).phase = .leaving → ¬ (w.frame t).i < rounds →
      Move w t ({ w with s1 := w.s1 + 1 }.set t ⟨.finished, (w.frame t).i⟩)

theorem step_move (h : step w t = some w') : Move w t w' := by
  unfold step at h
  cases hphase : (w.frame t).phase with
  | waiting =>
      simp only [hphase, Option.ite_none_right_eq_some, Option.some.injEq] at h
      obtain ⟨hs1, rfl⟩ := h
      exact Move.wait hphase hs1
  | checking =>
      simp only [hphase, Option.some.injEq] at h
      subst h
      split
      · next hcnt => exact Move.stay hphase hcnt
      · next hcnt => exact Move.enter hphase hcnt
  | posting =>
      simp only [hphase, Option.some.injEq] at h
      subst h
      exact Move.post hphase
  | printing =>
      simp only [hphase, Option.map_eq_some_iff] at h
      obtain ⟨x, hx, rfl⟩ := h
      exact Move.print x hphase hx
  | writing =>
      simp only [hphase, Option.some.injEq] at h
      subst h
      exact Move.write hphase
  | leaving =>
      simp only [hphase, Option.some.injEq] at h
      subst h
      split
      · next hi => exact Move.again hphase hi
      · next hi => exact Move.finish hphase hi
  | finished =>
      rw [hphase] at h
      cases h

end Steps

/-! ## The invariant -/

/-- How often a thread has written `cnt`. -/
def Frame.writes (f : Frame) : Int := f.i - if f.phase = .writing then 1 else 0

/-- What a thread has taken from the semaphore and may not have given back. -/
def Frame.held (f : Frame) : Nat := if f.phase = .waiting ∨ f.phase = .finished then 0 else 1

/-- The thread has yet to print in this round. -/
def Phase.BeforePrint (p : Phase) : Prop :=
  p = .waiting ∨ p = .checking ∨ p = .posting ∨ p = .printing

/-- `turn`: a thread that is past its inner loop has its turn. `balance`: `cnt` counts by how many
    writes `pi` is ahead. `tokens`: what is missing from the semaphore is held by a thread, though a
    thread may have given back more than it took. -/
structure Invariant (w : World) : Prop where
  values : w.cnt = 0 ∨ w.cnt = 1
  turn : ∀ t, (w.frame t).phase.Critical → w.cnt ≠ t.body.stays
  balance : w.cnt = (w.frame .pi).writes - (w.frame .pc).writes
  order : w.printed = expected.take ((w.frame .pi).i + (w.frame .pc).i)
  bound : ∀ t, (w.frame t).phase.BeforePrint → (w.frame t).i < rounds
  tokens : 1 ≤ w.s1 + (w.frame .pc).held + (w.frame .pi).held

section Invariant

variable {w w' : World} {t u : Thread}

theorem Invariant.start : Invariant start where
  values := Or.inl rfl
  turn t h := by rcases h with h | h <;> cases h
  balance := rfl
  order := rfl
  bound t _ := Nat.zero_lt_succ 8
  tokens := by decide

/-- Two threads are never both past their inner loops: `cnt` cannot be in favour of both. -/
theorem Invariant.exclusive (h : Invariant w) (ht : (w.frame t).phase.Critical)
    (hu : (w.frame u).phase.Critical) : t = u := by
  have htt := h.turn t ht
  have huu := h.turn u hu
  rcases h.values with hcnt | hcnt <;> rw [hcnt] at htt huu <;> cases t <;> cases u <;>
    first | rfl | exact absurd rfl htt | exact absurd rfl huu

theorem Move.values (hmove : Move w t w') (h : Invariant w) : w'.cnt = 0 ∨ w'.cnt = 1 := by
  cases hmove with
  | write => cases t <;> simp [Thread.body, pc, pi]
  | wait | stay | enter | post | print | again | finish => exact h.values

/-- A step of another thread leaves a thread where it is. -/
theorem Move.frame_other (hmove : Move w t w') (hut : u ≠ t) : w'.frame u = w.frame u := by
  cases hmove <;> exact World.set_frame_other _ hut _

theorem Move.turn (hmove : Move w t w') (h : Invariant w) (u : Thread)
    (hu : (w'.frame u).phase.Critical) : w'.cnt ≠ u.body.stays := by
  by_cases hut : u = t
  · subst hut
    cases hmove with
    | enter _ hne => exact hne
    | print x hphase _ => exact h.turn u (Or.inl hphase)
    | wait | stay | post | write | again | finish =>
        rw [World.set_frame_self] at hu
        rcases hu with hu | hu <;> cases hu
  · have hcrit := hu
    rw [hmove.frame_other hut] at hcrit
    cases hmove with
    | write hphase => exact absurd (h.exclusive hcrit (Or.inr hphase)) hut
    | wait | stay | enter | post | print | again | finish => exact h.turn u hcrit

/-- Only the write changes how often a thread has written. -/
theorem Move.balance (hmove : Move w t w') (h : Invariant w) :
    w'.cnt = (w'.frame .pi).writes - (w'.frame .pc).writes := by
  have hbal := h.balance
  have hvalues := h.values
  cases hmove with
  | write hphase =>
      have hturn := h.turn t (Or.inr hphase)
      cases t <;>
        simp [World.set, Function.update, Frame.writes, Thread.body, pc, pi, hphase]
          at hbal hturn ⊢ <;> omega
  | wait hphase | stay hphase | enter hphase | post hphase | print _ hphase | again hphase
  | finish hphase =>
      cases t <;> simpa [World.set, Function.update, Frame.writes, hphase] using hbal

/-- A thread about to print is about to print the next item of the expected order. -/
theorem Invariant.next_item (h : Invariant w) (hphase : (w.frame t).phase = .printing) :
    expected[(w.frame .pi).i + (w.frame .pc).i]? = t.body.items[(w.frame t).i]? := by
  have hturn := h.turn t (Or.inl hphase)
  have hbal := h.balance
  have hlen : (a.map Item.int).length = (arr.map Item.char).length := rfl
  -- the other thread is not between its print and its write
  have hother : ∀ u, u ≠ t → (w.frame u).writes = (w.frame u).i := by
    intro u hut
    have hnot : (w.frame u).phase ≠ .writing := fun hu =>
      hut (h.exclusive (Or.inr hu) (Or.inl hphase))
    rw [Frame.writes, if_neg hnot, Int.sub_zero]
  have hself : (w.frame t).writes = (w.frame t).i := by
    rw [Frame.writes, hphase, if_neg (by decide), Int.sub_zero]
  cases t with
  | pi =>
      have hcnt : w.cnt = 0 := h.values.resolve_right hturn
      rw [hself, hother .pc (by decide), hcnt] at hbal
      have hi : (w.frame .pi).i + (w.frame .pc).i = 2 * (w.frame .pi).i := by omega
      rw [hi]
      exact alternate_even hlen _
  | pc =>
      have hcnt : w.cnt = 1 := h.values.resolve_left hturn
      rw [hself, hother .pi (by decide), hcnt] at hbal
      have hi : (w.frame .pi).i + (w.frame .pc).i = 2 * (w.frame .pc).i + 1 := by omega
      rw [hi]
      exact alternate_odd hlen _

theorem Move.order (hmove : Move w t w') (h : Invariant w) :
    w'.printed = expected.take ((w'.frame .pi).i + (w'.frame .pc).i) := by
  have horder := h.order
  cases hmove with
  | print x hphase hx =>
      have hnext := h.next_item hphase
      rw [hx] at hnext
      have hcount : ((({ w with printed := w.printed ++ [x] } : World).set t
            ⟨.writing, (w.frame t).i + 1⟩).frame .pi).i
          + ((({ w with printed := w.printed ++ [x] } : World).set t
            ⟨.writing, (w.frame t).i + 1⟩).frame .pc).i
          = (w.frame .pi).i + (w.frame .pc).i + 1 := by
        cases t <;> simp [World.set, Function.update] <;> omega
      rw [hcount, List.take_add_one, hnext, World.set_printed, horder]
      rfl
  | wait | stay | enter | post | write | again | finish =>
      cases t <;> simpa [World.set, Function.update] using horder

theorem Move.bound (hmove : Move w t w') (h : Invariant w) (u : Thread)
    (hu : (w'.frame u).phase.BeforePrint) : (w'.frame u).i < rounds := by
  by_cases hut : u = t
  · subst hut
    have hold := h.bound u
    cases hmove with
    | wait hphase | stay hphase | enter hphase | post hphase =>
        rw [World.set_frame_self]
        exact hold (by simp [Phase.BeforePrint, hphase])
    | again _ hi =>
        rw [World.set_frame_self]
        exact hi
    | print | write | finish => simp [Phase.BeforePrint] at hu
  · rw [hmove.frame_other hut] at hu ⊢
    exact h.bound u hu

/-- A thread posts what it holds at the end of a round, and what it does not miss before. -/
theorem Move.tokens (hmove : Move w t w') (h : Invariant w) :
    1 ≤ w'.s1 + (w'.frame .pc).held + (w'.frame .pi).held := by
  have htokens := h.tokens
  cases hmove with
  | wait hphase | stay hphase | enter hphase | post hphase | print _ hphase | write hphase
  | again hphase | finish hphase =>
      cases t <;> simp [World.set, Function.update, Frame.held, hphase] at htokens ⊢ <;> omega

theorem Invariant.after_step (h : Invariant w) (hstep : step w t = some w') : Invariant w' := by
  have hmove := step_move hstep
  exact ⟨hmove.values h, hmove.turn h, hmove.balance h, hmove.order h, hmove.bound h,
    hmove.tokens h⟩

theorem Reachable.invariant (h : Reachable w) : Invariant w :=
  Interleaved.induct h Invariant.start fun _ _ _ hw _ hstep => hw.after_step hstep

end Invariant

/-! ## Progress -/

section Progress

variable {w : World}

/-- Only the semaphore can make a thread wait. -/
theorem Invariant.can_step (h : Invariant w) {t : Thread}
    (hs1 : (w.frame t).phase = .waiting → 0 < w.s1) (hfin : (w.frame t).phase ≠ .finished) :
    (step w t).isSome := by
  unfold step
  cases hphase : (w.frame t).phase with
  | waiting => simp [hs1 hphase]
  | checking | posting | writing | leaving => simp
  | printing =>
      have hi := h.bound t (by simp [Phase.BeforePrint, hphase])
      have hlen : t.body.items.length = rounds := by cases t <;> rfl
      simp [hlen, hi]
  | finished => exact absurd hphase hfin

/-- **No deadlock.** -/
theorem Invariant.progress (h : Invariant w) :
    (∀ t, (w.frame t).phase = .finished) ∨ ∃ t, (step w t).isSome := by
  by_cases hfin : ∀ t, (w.frame t).phase = .finished
  · exact Or.inl hfin
  · right
    obtain ⟨t, ht⟩ := not_forall.1 hfin
    by_cases hinside : ∃ u, (w.frame u).held = 1
    · -- a thread that is not at its `sem_wait` can go on
      obtain ⟨u, hu⟩ := hinside
      have hphase : ¬ ((w.frame u).phase = .waiting ∨ (w.frame u).phase = .finished) := by
        intro hphase
        rw [Frame.held, if_pos hphase] at hu
        cases hu
      exact ⟨u, h.can_step (fun hw => absurd (Or.inl hw) hphase) fun hf => hphase (Or.inr hf)⟩
    · -- nobody holds anything, so the semaphore is not 0
      have hnone : ∀ u, (w.frame u).held = 0 := by
        intro u
        have hu := not_exists.1 hinside u
        unfold Frame.held at hu ⊢
        split
        · rfl
        · next hphase => exact absurd (if_neg hphase) hu
      have htokens := h.tokens
      rw [hnone .pc, hnone .pi] at htokens
      exact ⟨t, h.can_step (fun _ => htokens) ht⟩

end Progress

/-- **Strict alternation.** In every interleaving the items come in the order
    `a[0], arr[0], a[1], …`, the threads are never both between their inner loop and their write to
    `cnt`, and one of them can go on unless both have returned. -/
theorem strict_alternation {w : World} (h : Reachable w) :
    w.printed <+: expected ∧
    ¬ ((w.frame .pc).phase.Critical ∧ (w.frame .pi).phase.Critical) ∧
    ((∀ t, (w.frame t).phase = .finished) ∨ ∃ t, (step w t).isSome) := by
  have hinv := h.invariant
  refine ⟨?_, fun hboth => ?_, hinv.progress⟩
  · rw [hinv.order]
    exact List.take_prefix _ _
  · have heq := hinv.exclusive hboth.1 hboth.2
    cases heq

/-- `pi` prints, while `pc` posts `s1` once too often. -/
theorem strict_alternation_start : ∃ w, Reachable w ∧ w.s1 = 1 ∧ w.printed = [.int 1] ∧
    w.printed <+: expected ∧ (step w .pi).isSome := by
  have hrun : (List.foldlM (fun w t => if True then step w t else none) start
      [.pc, .pc, .pc, .pi, .pi, .pi, .pc, .pc]).map
        (fun w => (w.s1, w.printed, (step w .pi).isSome)) = some (1, [.int 1], true) := by
    decide +kernel
  obtain ⟨w, hw, hseen⟩ := Option.map_eq_some_iff.1 hrun
  obtain ⟨hs1, hrest⟩ := Prod.mk.inj hseen
  obtain ⟨hprinted, hstep⟩ := Prod.mk.inj hrest
  have hreach : Reachable w := Interleaved.of_schedule hw
  exact ⟨w, hreach, hs1, hprinted, (strict_alternation hreach).1, hstep⟩

end LinuxSamples.Alternation
