import LinuxSamples.Thread.Counting

set_option autoImplicit false

/-! # Jobs under a mutex

In `test_thread_mutex.cpp` two threads and `main` itself call `run`, which holds the mutex `lock` from
its first to its last statement. The static variable `counter` gives each call a number, which is
read again from `counter` for the line at the end of the job. Meanwhile `main` prints the ids of the
threads without the mutex. There may be any number of threads here, one of which is `main`.

A line is one step, though it is printed by several insertions into `std::cout`: that a line of `main`
falls inside one of `run` is left out. -/

namespace LinuxSamples.Jobs

open LinuxSamples.Program LinuxSamples.Counting

variable {T : Type} [DecidableEq T]

/-- A line that is printed. -/
inductive Line (T : Type)
  /-- `new thread id: ...`, by `main`. -/
  | created
  /-- `thread id: ...`. -/
  | thread (t : T)
  /-- `Job counter started!` -/
  | started (counter : Int)
  /-- `Job counter finished!` -/
  | finished (counter : Int)
  deriving DecidableEq, Repr

/-- `run`, which thread `main` calls after it has printed the ids. -/
def run (main t : T) : Sectioned (Shared T (Line T)) where
  before := if t = main then [Shared.print fun _ => .created] else []
  inside :=
    [Shared.print fun _ => .thread t, Shared.read t, Shared.write t, Shared.print .started,
      Shared.print .finished]
  after := []

/-- The line is printed by `run`. -/
def Line.ofJob : Line T → Bool
  | .created => false
  | _ => true

/-- What a call prints that finds `counter` at `n`. -/
def job (t : T) (n : Int) : List (Line T) := [.thread t, .started (n + 1), .finished (n + 1)]

theorem run_counts (main t : T) : Counts Line.ofJob (run main t) where
  before f hf := by
    unfold run at hf
    split at hf
    · exact ⟨_, List.mem_singleton.1 hf, fun _ => rfl⟩
    · exact absurd hf List.not_mem_nil
  inside f hf := by
    simp only [run, List.mem_cons, List.not_mem_nil, or_false] at hf
    rcases hf with rfl | rfl | rfl | rfl | rfl <;> constructor
  after := rfl

theorem run_counter (main t : T) (s : Shared T (Line T)) :
    (perform (run main t).inside s).counter = s.counter + 1 := by
  simp [run, perform, Shared.print, Shared.read, Shared.write]

theorem run_lines (main t : T) (s : Shared T (Line T)) :
    (perform (run main t).inside s).lines Line.ofJob
      = s.lines Line.ofJob ++ job t s.counter := by
  simp [run, perform, Shared.print, Shared.read, Shared.write, Shared.lines, job, Line.ofJob]

/-- **The jobs come one after the other**, in every interleaving: the lines of `run` are those of whole
    jobs with the numbers 1, 2, …, the last of which may still be under way. So a job is finished under
    the number it was started with, and before the next one is started. The mutex always lets some
    thread go on, and at the end every thread has had its job. -/
theorem jobs_in_turn [Fintype T] (main : T) {w : Guarded T (Shared T (Line T))}
    (h : w.Reachable (run main) Shared.start) :
    (∃ order : List T, order.Nodup ∧ w.shared.lines Line.ofJob <+: numbered job 0 order ∧
      ((∀ t, w.Finished (run main) t) → (∀ t, t ∈ order) ∧
        w.shared.lines Line.ofJob = numbered job 0 order)) ∧
      ((∀ t, w.Finished (run main) t) ∨ ∃ t, (w.step (run main) t).isSome) := by
  obtain ⟨_, ⟨order, hnodup, hprefix, hend⟩, hprogress, _⟩ :=
    counting (run_counts main) (run_counter main) (run_lines main) h
  exact ⟨⟨order, hnodup, hprefix, fun hfin => ⟨(hend hfin).1, (hend hfin).2.1⟩⟩, hprogress⟩

/-- Thread 2 is `main`, whose line comes in the middle of the first job. -/
theorem jobs_in_turn_three : ∃ w : Guarded (Fin 3) (Shared (Fin 3) (Line (Fin 3))),
    w.Reachable (run 2) Shared.start ∧
    w.shared.printed = [.thread 0, .started 1, .created, .finished 1, .thread 2, .started 2] ∧
    ∃ order : List (Fin 3), order.Nodup ∧
      w.shared.lines Line.ofJob <+: numbered job 0 order := by
  have hrun : (((List.replicate 5 0 ++ [2, 0, 0] ++ List.replicate 5 2 : List (Fin 3))).foldlM
      (fun w t => if True then Guarded.step (run 2) w t else none)
        (Guarded.start Shared.start)).map
          (fun w : Guarded (Fin 3) (Shared (Fin 3) (Line (Fin 3))) => w.shared.printed)
      = some [.thread 0, .started 1, .created, .finished 1, .thread 2, .started 2] := by
    decide +kernel
  obtain ⟨w, hw, hprinted⟩ := Option.map_eq_some_iff.1 hrun
  have hreach : w.Reachable (run 2) Shared.start := Interleaved.of_schedule hw
  obtain ⟨order, hnodup, hprefix, _⟩ := (jobs_in_turn 2 hreach).1
  exact ⟨w, hreach, hprinted, order, hnodup, hprefix⟩

end LinuxSamples.Jobs
