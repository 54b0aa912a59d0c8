import LinuxSamples.Program.Critical

set_option autoImplicit false

/-! # Waiting for two threads with one semaphore

In `test_thread_sem.cpp` the threads `thread1` and `thread2` each write their number to `g_Flag`, under
the semaphore `sem_mutex`. A thread that finds the number of the other posts `sem_syn` first, and
`main` returns when it has taken `sem_syn`; with it the process ends, wherever the threads are. The
lines printed outside the sections read `g_Flag` without protection. -/

namespace LinuxSamples.FlagSemaphore

open LinuxSamples.Program

/-! ## The program -/

inductive Thread
  | thread1
  | thread2
  deriving DecidableEq, Repr

def Thread.other : Thread → Thread
  | .thread1 => .thread2
  | .thread2 => .thread1

/-- What a thread writes to `g_Flag`. -/
def Thread.number : Thread → Int
  | .thread1 => 1
  | .thread2 => 2

/-- A line that is printed. -/
inductive Line
  /-- `Enter thread1` -/
  | enter (t : Thread)
  /-- `thread1 id: ..., g_Flag: g_Flag` -/
  | flag (t : Thread) (g_Flag : Int)
  /-- `Leave thread1` -/
  | leave (t : Thread)
  /-- `thread1 tid = ...` -/
  | tid (t : Thread)
  /-- An empty line. -/
  | empty
  deriving DecidableEq, Repr

/-- `g_Flag`, the value that each thread has read of it, the semaphore `sem_syn` and the lines
    printed. -/
structure Shared where
  g_Flag : Int
  register : Thread → Int
  sem_syn : Nat
  printed : List Line

namespace Shared

/-- `fprintf` of a line that may show `g_Flag`. -/
def print (line : Int → Line) (s : Shared) : Shared :=
  { s with printed := s.printed ++ [line s.g_Flag] }

/-- The read of `g_Flag` in the condition. -/
def test (t : Thread) (s : Shared) : Shared :=
  { s with register := Function.update s.register t s.g_Flag }

/-- `sem_post(&sem_syn)`, if the condition was met. -/
def post (t : Thread) (s : Shared) : Shared :=
  { s with sem_syn := s.sem_syn + if s.register t = t.other.number then 1 else 0 }

/-- The write of `g_Flag`. -/
def write (t : Thread) (s : Shared) : Shared := { s with g_Flag := t.number }

end Shared

/-- What both threads do; `pthread_join` of the thread itself fails and changes nothing. -/
def Thread.body (t : Thread) : Sectioned Shared where
  before := [Shared.print fun _ => .enter t, Shared.print (.flag t)]
  inside := [Shared.test t, Shared.post t, Shared.write t]
  after := [Shared.print (.flag t), Shared.print fun _ => .leave t, Shared.print fun _ => .tid t,
    Shared.print fun _ => .empty]

def thread1 : Sectioned Shared := Thread.body .thread1

def thread2 : Sectioned Shared := Thread.body .thread2

def code : Thread → Sectioned Shared
  | .thread1 => FlagSemaphore.thread1
  | .thread2 => FlagSemaphore.thread2

/-- `sem_init(&sem_syn, 0, 0)`; nothing is printed by the threads. -/
def begin : Shared := ⟨0, fun _ => 0, 0, []⟩

/-- The threads, and whether `main` has returned. -/
structure World where
  threads : Guarded Thread Shared
  returned : Bool

/-- Who takes the next step. -/
inductive Party
  | main
  | thread (t : Thread)
  deriving DecidableEq, Repr

/-- The next step of a thread, or `sem_wait(&sem_syn)` and the return of `main`. -/
def step (w : World) : Party → Option World
  | .main =>
      if w.returned = false ∧ 0 < w.threads.shared.sem_syn then
        some ⟨{ w.threads with
          shared := { w.threads.shared with sem_syn := w.threads.shared.sem_syn - 1 } }, true⟩
      else none
  | .thread t =>
      if w.returned = false then (w.threads.step code t).map fun g => ⟨g, false⟩ else none

def start : World := ⟨Guarded.start begin, false⟩

/-- The states of all interleavings. -/
def Reachable (w : World) : Prop := Interleaved step (fun _ _ => True) start w

/-! ## What `sem_mutex` protects -/

/-- Everything but the lines. -/
def view (s : Shared) : Int × (Thread → Int) × Nat := (s.g_Flag, s.register, s.sem_syn)

theorem view_ext {s s' : Shared} :
    view s = view s' ↔ s.g_Flag = s'.g_Flag ∧ s.register = s'.register ∧ s.sem_syn = s'.sem_syn := by
  simp [view]

theorem code_eq (t : Thread) : code t = t.body := by cases t <;> rfl

theorem code_shows (t : Thread) : Shows view (code t) where
  before f hf s := by
    simp only [code_eq, Thread.body, List.mem_cons, List.not_mem_nil, or_false] at hf
    rcases hf with rfl | rfl <;> rfl
  inside f hf s s' h := by
    obtain ⟨hflag, hregister, hsyn⟩ := view_ext.1 h
    simp only [code_eq, Thread.body, List.mem_cons, List.not_mem_nil, or_false] at hf
    rcases hf with rfl | rfl | rfl
    · exact view_ext.2 ⟨hflag, by rw [Shared.test, Shared.test, hflag, hregister], hsyn⟩
    · exact view_ext.2 ⟨hflag, hregister, by rw [Shared.post, Shared.post, hregister, hsyn]⟩
    · exact view_ext.2 ⟨rfl, hregister, hsyn⟩
  after f hf s := by
    simp only [code_eq, Thread.body, List.mem_cons, List.not_mem_nil, or_false] at hf
    rcases hf with rfl | rfl | rfl | rfl <;> rfl

/-! ## When `sem_syn` is posted -/

/-- Both threads have passed the post: one has left its section, and the other has gone on from its
    `sem_post(&sem_syn)` or left too. -/
def BothPassed (w : Guarded Thread Shared) : Prop :=
  ∃ t, (∃ k, w.place t = .after k) ∧
    ((∃ k, 2 ≤ k ∧ w.place t.other = .inside k) ∨ ∃ k, w.place t.other = .after k)

section Posts

variable {w : Guarded Thread Shared} {order : List Thread} {current : Option (Thread × Nat)}

theorem Thread.eq_or_other (t u : Thread) : u = t ∨ u = t.other := by
  cases t <;> cases u <;> simp [Thread.other]

/-- There are two threads. -/
theorem order_cases (h : order.Nodup) :
    order = [] ∨ (∃ t, order = [t]) ∨ ∃ t : Thread, order = [t, t.other] := by
  match order, h with
  | [], _ => exact Or.inl rfl
  | [t], _ => exact Or.inr (Or.inl ⟨t, rfl⟩)
  | [t, u], h =>
      have hne : u ≠ t := by
        rintro rfl
        simp at h
      exact Or.inr (Or.inr ⟨t, by rw [(t.eq_or_other u).resolve_left hne]⟩)
  | t :: u :: v :: rest, h =>
      exfalso
      simp only [List.nodup_cons, List.mem_cons, not_or] at h
      cases t <;> cases u <;> cases v <;> simp at h

theorem Thread.other_ne (t : Thread) : t.other ≠ t := by cases t <;> decide

/-- The sections of both threads, one after the other. -/
theorem sem_syn_both (t : Thread) : (inOrder code [t, t.other] begin).sem_syn = 1 := by
  cases t <;> rfl

/-- The section of the second thread, `k` steps of it done. -/
theorem sem_syn_second (t : Thread) (k : Nat) :
    (begun code (inOrder code [t] begin) (some (t.other, k))).sem_syn = if 2 ≤ k then 1 else 0 := by
  match k with
  | 0 => cases t <;> rfl
  | 1 => cases t <;> rfl
  | 2 => cases t <;> rfl
  | k + 3 =>
      have hall : ((code t.other).inside.take (k + 3)) = (code t.other).inside :=
        List.take_of_length_le (by cases t <;> exact Nat.le_add_left 3 k)
      rw [begun, hall, if_pos (by omega)]
      cases t <;> rfl

/-- The section of the first thread posts nothing. -/
theorem sem_syn_first (t : Thread) (k : Nat) :
    (begun code (inOrder code [] begin) (some (t, k))).sem_syn = 0 := by
  match k with
  | 0 => rfl
  | 1 => cases t <;> rfl
  | 2 => cases t <;> rfl
  | k + 3 =>
      have hall : ((code t).inside.take (k + 3)) = (code t).inside :=
        List.take_of_length_le (by cases t <;> exact Nat.le_add_left 3 k)
      rw [begun, hall]
      cases t <;> rfl

/-- `sem_syn` **is posted once**, by the thread that comes second. -/
theorem sem_syn_eq (h : Guarded.Serial code view begin w order current) :
    w.shared.sem_syn ≤ 1 ∧ (0 < w.shared.sem_syn ↔ BothPassed w) := by
  have hsyn : w.shared.sem_syn = (begun code (inOrder code order begin) current).sem_syn :=
    (view_ext.1 h.shows).2.2
  rcases order_cases h.nodup with rfl | ⟨t, rfl⟩ | ⟨t, rfl⟩
  · -- no section is over
    have hzero : w.shared.sem_syn = 0 := by
      rw [hsyn]
      rcases current with _ | ⟨t, k⟩
      · rfl
      · exact sem_syn_first t k
    refine ⟨hzero ▸ Nat.zero_le 1, iff_of_false (hzero ▸ Nat.lt_irrefl 0) ?_⟩
    rintro ⟨t, hended, _⟩
    exact absurd ((h.ended t).2 hended) List.not_mem_nil
  · -- the section of `t` is over
    have honly : ∀ u, (∃ k, w.place u = .after k) → u = t := fun u hu =>
      List.mem_singleton.1 ((h.ended u).2 hu)
    have hpassed : BothPassed w ↔ ∃ k, 2 ≤ k ∧ w.place t.other = .inside k := by
      constructor
      · rintro ⟨u, hu, hrest⟩
        obtain rfl := honly u hu
        exact hrest.resolve_right fun hended => u.other_ne (honly _ hended)
      · intro hinside
        exact ⟨t, (h.ended t).1 (List.mem_singleton_self t), Or.inl hinside⟩
    rcases hcurrent : current with _ | ⟨u, k⟩
    · have hzero : w.shared.sem_syn = 0 := by
        rw [hsyn, hcurrent]
        cases t <;> rfl
      refine ⟨hzero ▸ Nat.zero_le 1, iff_of_false (hzero ▸ Nat.lt_irrefl 0) ?_⟩
      rw [hpassed]
      rintro ⟨k, _, hinside⟩
      rw [h.holder, hcurrent] at hinside
      cases hinside
    · have hut : u = t.other := by
        refine (t.eq_or_other u).resolve_left ?_
        rintro rfl
        have hnodup := h.nodup_current
        rw [hcurrent] at hnodup
        simp at hnodup
      subst hut
      rw [hsyn, hcurrent, sem_syn_second, hpassed]
      have hinside := (h.holder t.other k).2 hcurrent
      refine ⟨by split <;> omega, ?_⟩
      constructor
      · intro hpos
        refine ⟨k, ?_, hinside⟩
        by_contra hk
        rw [if_neg hk] at hpos
        exact Nat.lt_irrefl 0 hpos
      · rintro ⟨n, hn, hplace⟩
        rw [hinside, Place.inside.injEq] at hplace
        rw [if_pos (hplace ▸ hn)]
        exact Nat.zero_lt_one
  · -- both are over
    have hnone : current = none := by
      rcases hcurrent : current with _ | ⟨u, k⟩
      · rfl
      · exfalso
        have hnodup := h.nodup_current
        rw [hcurrent] at hnodup
        cases t <;> cases u <;> simp [Thread.other] at hnodup
    have hone : w.shared.sem_syn = 1 := by
      rw [hsyn, hnone]
      exact sem_syn_both t
    refine ⟨hone ▸ Nat.le_refl 1, iff_of_true (hone ▸ Nat.zero_lt_one) ⟨t, ?_, Or.inr ?_⟩⟩
    · exact (h.ended t).1 List.mem_cons_self
    · exact (h.ended t.other).1 (List.mem_cons_of_mem _ List.mem_cons_self)

end Posts

/-! ## The whole program -/

section Runs

variable {w w' : World} {p : Party}

/-- The threads as they were before `main` took `sem_syn`. -/
def World.untaken (w : World) : Guarded Thread Shared :=
  if w.returned then
    { w.threads with shared := { w.threads.shared with sem_syn := w.threads.shared.sem_syn + 1 } }
  else w.threads

theorem World.untaken_running (h : w.returned = false) : w.untaken = w.threads := by
  rw [World.untaken, h]
  rfl

/-- `main` takes what was posted, and is the last to do anything. -/
structure Invariant (w : World) : Prop where
  threads : w.untaken.Reachable code begin
  posted : w.returned = true → 0 < w.untaken.shared.sem_syn

theorem Invariant.start : Invariant start := ⟨Reach.start, fun h => by cases h⟩

theorem Invariant.after_step (h : Invariant w) (hstep : step w p = some w') : Invariant w' := by
  have hthreads := h.threads
  cases p with
  | main =>
      simp only [step, Option.ite_none_right_eq_some, Option.some.injEq] at hstep
      obtain ⟨⟨hreturned, hpos⟩, rfl⟩ := hstep
      rw [World.untaken_running hreturned] at hthreads
      have hsame : w.threads.shared.sem_syn - 1 + 1 = w.threads.shared.sem_syn :=
        Nat.sub_add_cancel hpos
      refine ⟨?_, fun _ => Nat.succ_pos _⟩
      rw [World.untaken, if_pos rfl, hsame]
      exact hthreads
  | thread t =>
      simp only [step, Option.ite_none_right_eq_some, Option.map_eq_some_iff] at hstep
      obtain ⟨hreturned, g, hg, rfl⟩ := hstep
      rw [World.untaken_running hreturned] at hthreads
      exact ⟨Reach.next hthreads trivial (turnOf_returns.2 hg), fun h => by cases h⟩

theorem Reachable.invariant (h : Reachable w) : Invariant w :=
  Interleaved.induct h Invariant.start fun _ _ _ hw _ hstep => hw.after_step hstep

instance : Fintype Thread := ⟨{.thread1, .thread2}, fun t => by cases t <;> decide⟩

/-- How many steps the threads and `main` have left. -/
def World.left (w : World) : Nat := w.threads.total code + if w.returned then 0 else 1

theorem step_left (h : step w p = some w') : w'.left < w.left := by
  cases p with
  | main =>
      simp only [step, Option.ite_none_right_eq_some, Option.some.injEq] at h
      obtain ⟨⟨hreturned, _⟩, rfl⟩ := h
      rw [World.left, World.left, hreturned]
      exact Nat.lt_succ_self _
  | thread t =>
      simp only [step, Option.ite_none_right_eq_some, Option.map_eq_some_iff] at h
      obtain ⟨hreturned, g, hg, rfl⟩ := h
      have htotal := (Guarded.step_move hg).total
      rw [World.left, World.left, hreturned]
      exact Nat.add_lt_add_right (Nat.lt_of_succ_le (Nat.le_of_eq htotal)) _

/-- `sem_syn` **lets `main` return once, and only when both threads have come through**: it is posted at
    most once, counting the post that `main` has taken, `main` can take it or has taken it exactly when one thread has left its critical section
    and the other has passed its `sem_post`. In every interleaving somebody can go on until `main` has
    returned, and every step brings the end nearer. -/
theorem main_waits_for_both (h : Reachable w) :
    w.threads.shared.sem_syn + (if w.returned then 1 else 0) ≤ 1 ∧
      (w.returned = true ∨ 0 < w.threads.shared.sem_syn ↔ BothPassed w.threads) ∧
      (w.returned = true ∨ ∃ p, (step w p).isSome) ∧
      ∀ (ops : List Party) (w' : World), ops.foldlM step w = some w' →
        ops.length + w'.left ≤ w.left := by
  have hinv := h.invariant
  obtain ⟨order, current, hserial⟩ := hinv.threads.serial code_shows
  obtain ⟨hone, hposted⟩ := sem_syn_eq hserial
  cases hreturned : w.returned with
  | true =>
      have huntaken : w.untaken = { w.threads with
          shared := { w.threads.shared with sem_syn := w.threads.shared.sem_syn + 1 } } :=
        if_pos hreturned
      have hpassed := hposted.1 (hinv.posted hreturned)
      rw [huntaken] at hone hpassed
      exact ⟨hone, iff_of_true (Or.inl rfl) hpassed, Or.inl rfl,
        fun _ _ => schedule_length fun _ _ _ => step_left⟩
  | false =>
      rw [World.untaken_running hreturned] at hserial hone hposted
      refine ⟨hone, by rw [← hposted]; simp, Or.inr ?_, fun _ _ => schedule_length fun _ _ _ => step_left⟩
      rcases hserial.progress with hfin | ⟨t, ht⟩
      · -- both threads have finished
        have hboth : BothPassed w.threads :=
          ⟨.thread1, (hfin .thread1).place, Or.inr (hfin .thread2).place⟩
        exact ⟨.main, by simp [step, hreturned, hposted.2 hboth]⟩
      · exact ⟨.thread t, by simpa [step, hreturned] using ht⟩

/-- `thread2` comes second; `main` returns before it writes `g_Flag`. -/
theorem main_waits_for_both_early : ∃ w, Reachable w ∧ w.returned = true ∧
    w.threads.shared.g_Flag = 1 ∧ BothPassed w.threads := by
  have hrun : ((List.replicate 7 (.thread .thread1) ++ List.replicate 5 (.thread .thread2)
      ++ [.main] : List Party).foldlM (fun w p => if True then step w p else none) start).map
        (fun w => (w.returned, w.threads.shared.g_Flag)) = some (true, 1) := by decide +kernel
  obtain ⟨w, hw, hseen⟩ := Option.map_eq_some_iff.1 hrun
  obtain ⟨hreturned, hflag⟩ := Prod.mk.inj hseen
  have hreach : Reachable w := Interleaved.of_schedule hw
  exact ⟨w, hreach, hreturned, hflag, (main_waits_for_both hreach).2.1.1 (Or.inl hreturned)⟩

end Runs

end LinuxSamples.FlagSemaphore
