import LinuxSamples.Thread.Counting

set_option autoImplicit false

/-! # A semaphore used as a mutex

In `test_thread_sem3.cpp` every thread that runs `handler` increments `counter` between `sem_wait` and
`sem_post` on a semaphore that starts at 1, and prints the value before and after. `main` starts two
threads; here there may be any number. The line before the `sem_wait` is printed outside the critical
region. -/

namespace LinuxSamples.CriticalRegion

open LinuxSamples.Program LinuxSamples.Counting

variable {T : Type} [DecidableEq T]

/-- A line that thread `x` prints. -/
inductive Line (T : Type)
  /-- `Thread x: Waiting to enter critical region...` -/
  | waiting (x : T)
  /-- `Thread x: Now in critical region...` -/
  | now (x : T)
  /-- `Thread x: Counter Value: counter` -/
  | value (x : T) (counter : Int)
  /-- `Thread x: Incrementing Counter...` -/
  | incrementing (x : T)
  /-- `Thread x: New Counter Value: counter` -/
  | newValue (x : T) (counter : Int)
  /-- `Thread x: Exiting critical region...` -/
  | exiting (x : T)
  deriving DecidableEq, Repr

/-- `handler`. -/
def handler (x : T) : Sectioned (Shared T (Line T)) where
  before := [Shared.print fun _ => .waiting x]
  inside :=
    [Shared.print fun _ => .now x, Shared.print (.value x), Shared.print fun _ => .incrementing x,
      Shared.read x, Shared.write x, Shared.print (.newValue x), Shared.print fun _ => .exiting x]
  after := []

/-- The line is printed in the critical region. -/
def Line.inRegion : Line T → Bool
  | .waiting _ => false
  | _ => true

/-- What a thread prints that finds `counter` at `n`. -/
def block (x : T) (n : Int) : List (Line T) :=
  [.now x, .value x n, .incrementing x, .newValue x (n + 1), .exiting x]

theorem handler_counts (x : T) : Counts Line.inRegion (handler x) where
  before f hf := ⟨_, List.mem_singleton.1 hf, fun _ => rfl⟩
  inside f hf := by
    simp only [handler, List.mem_cons, List.not_mem_nil, or_false] at hf
    rcases hf with rfl | rfl | rfl | rfl | rfl | rfl | rfl <;> constructor
  after := rfl

theorem handler_counter (x : T) (s : Shared T (Line T)) :
    (perform (handler x).inside s).counter = s.counter + 1 := by
  simp [handler, perform, Shared.print, Shared.read, Shared.write]

theorem handler_lines (x : T) (s : Shared T (Line T)) :
    (perform (handler x).inside s).lines Line.inRegion
      = s.lines Line.inRegion ++ block x s.counter := by
  simp [handler, perform, Shared.print, Shared.read, Shared.write, Shared.lines, block,
    Line.inRegion]

/-- **No increment is lost**, for any number of threads and in every interleaving. -/
theorem critical_regions [Fintype T] {w : Guarded T (Shared T (Line T))}
    (h : w.Reachable handler Shared.start) :
    (∀ x y k n, w.place x = .inside k → w.place y = .inside n → x = y) ∧
      (∃ order : List T, order.Nodup ∧ w.shared.lines Line.inRegion <+: numbered block 0 order ∧
        ((∀ x, w.Finished handler x) → (∀ x, x ∈ order) ∧
          w.shared.lines Line.inRegion = numbered block 0 order ∧
          w.shared.counter = Fintype.card T)) ∧
      ((∀ x, w.Finished handler x) ∨ ∃ x, (w.step handler x).isSome) ∧
      ∀ (ops : List T) (w' : Guarded T (Shared T (Line T))),
        ops.foldlM (Guarded.step handler) w = some w' →
          ops.length + w'.total handler ≤ w.total handler :=
  counting handler_counts handler_counter handler_lines h

/-- The two threads of `main`; thread 1 comes first. -/
theorem critical_regions_two : ∃ w : Guarded (Fin 2) (Shared (Fin 2) (Line (Fin 2))),
    w.Reachable handler Shared.start ∧ w.shared.counter = 2 ∧
    w.shared.lines Line.inRegion = block 1 0 ++ block 0 1 ∧
    ∃ order : List (Fin 2), order.Nodup ∧
      w.shared.lines Line.inRegion <+: numbered block 0 order := by
  have hrun : ((([0, 1] : List (Fin 2)) ++ List.replicate 9 1 ++ List.replicate 9 0).foldlM
      (fun w x => if True then Guarded.step handler w x else none)
        (Guarded.start Shared.start)).map
          (fun w : Guarded (Fin 2) (Shared (Fin 2) (Line (Fin 2))) =>
            decide (w.shared.counter = 2 ∧
              w.shared.lines Line.inRegion = block 1 0 ++ block 0 1)) = some true := by
    decide +kernel
  obtain ⟨w, hw, hend⟩ := Option.map_eq_some_iff.1 hrun
  obtain ⟨hcounter, hlines⟩ := of_decide_eq_true hend
  have hreach : w.Reachable handler Shared.start := Interleaved.of_schedule hw
  obtain ⟨order, hnodup, hprefix, _⟩ := (critical_regions hreach).2.1
  exact ⟨w, hreach, hcounter, hlines, order, hnodup, hprefix⟩

end LinuxSamples.CriticalRegion
