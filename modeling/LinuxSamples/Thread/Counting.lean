import LinuxSamples.Program.Critical

set_option autoImplicit false

/-! # Threads that count and print under a lock

What `handler` of `test_thread_sem3.cpp` and `run` of `test_thread_mutex.cpp` have in common: a shared
`counter` that a thread increments in its critical section, and lines that may show it. An increment
is a read and a write, and each line is printed by a call of its own. Some lines are printed outside
the critical sections; `shown` tells the others. `counter` is an integer here: there are fewer than
`2 ^ 31` threads. -/

namespace LinuxSamples.Counting

open LinuxSamples.Program

variable {T L : Type}

/-- `counter`, the value that each thread has read to increment it, and the lines printed so far. -/
structure Shared (T L : Type) where
  counter : Int
  register : T → Int
  printed : List L

namespace Shared

/-- A line that may show `counter`. -/
def print (line : Int → L) (s : Shared T L) : Shared T L :=
  { s with printed := s.printed ++ [line s.counter] }

/-- The read of an increment. -/
def read [DecidableEq T] (t : T) (s : Shared T L) : Shared T L :=
  { s with register := Function.update s.register t s.counter }

/-- The write of an increment. -/
def write (t : T) (s : Shared T L) : Shared T L := { s with counter := s.register t + 1 }

/-- `int counter = 0`, and nothing is printed. -/
def start : Shared T L := ⟨0, fun _ => 0, []⟩

/-- The lines printed in critical sections. -/
def lines (shown : L → Bool) (s : Shared T L) : List L := s.printed.filter shown

/-- Everything but the lines printed outside the critical sections. -/
def view (shown : L → Bool) (s : Shared T L) : Int × (T → Int) × List L :=
  (s.counter, s.register, s.lines shown)

variable {shown : L → Bool} {s s' : Shared T L}

theorem view_ext : s.view shown = s'.view shown ↔
    s.counter = s'.counter ∧ s.register = s'.register ∧ s.lines shown = s'.lines shown := by
  simp [view]

theorem lines_print (line : Int → L) (s : Shared T L) :
    (s.print line).lines shown = s.lines shown ++ [line s.counter].filter shown :=
  List.filter_append ..

/-- A line that is not shown changes nothing that is. -/
theorem print_outside {line : Int → L} (h : ∀ n, shown (line n) = false) (s : Shared T L) :
    (s.print line).view shown = s.view shown := by
  refine view_ext.2 ⟨rfl, rfl, ?_⟩
  rw [lines_print, List.filter_cons_of_neg (by simp [h]), List.filter_nil, List.append_nil]

end Shared

/-- A step of a critical section. -/
inductive Acts [DecidableEq T] : (Shared T L → Shared T L) → Prop
  | print (line : Int → L) : Acts (Shared.print line)
  | read (t : T) : Acts (Shared.read t)
  | write (t : T) : Acts (Shared.write t)

variable [DecidableEq T] {shown : L → Bool} {f : Shared T L → Shared T L}

theorem Acts.shows (hf : Acts f) (s s' : Shared T L) (h : s.view shown = s'.view shown) :
    (f s).view shown = (f s').view shown := by
  obtain ⟨hcounter, hregister, hlines⟩ := Shared.view_ext.1 h
  cases hf with
  | print line =>
      refine Shared.view_ext.2 ⟨hcounter, hregister, ?_⟩
      rw [Shared.lines_print, Shared.lines_print, hcounter, hlines]
  | read t =>
      refine Shared.view_ext.2 ⟨hcounter, ?_, hlines⟩
      rw [Shared.read, Shared.read, hcounter, hregister]
  | write t =>
      refine Shared.view_ext.2 ⟨?_, hregister, hlines⟩
      rw [Shared.write, Shared.write, hregister]

theorem Acts.grows (hf : Acts f) (s : Shared T L) : s.lines shown <+: (f s).lines shown := by
  cases hf with
  | print line => exact ⟨_, (Shared.lines_print line s).symm⟩
  | read t => exact List.prefix_rfl
  | write t => exact List.prefix_rfl

/-- A thread of this kind. -/
structure Counts (shown : L → Bool) (c : Sectioned (Shared T L)) : Prop where
  before : ∀ f ∈ c.before, ∃ line, f = Shared.print line ∧ ∀ n, shown (line n) = false
  inside : ∀ f ∈ c.inside, Acts f
  after : c.after = []

theorem Counts.shows {c : Sectioned (Shared T L)} (h : Counts shown c) :
    Shows (Shared.view shown) c where
  before f hf s := by
    obtain ⟨line, rfl, hline⟩ := h.before f hf
    exact Shared.print_outside hline s
  inside f hf s s' := (h.inside f hf).shows s s'
  after f hf s := by
    rw [h.after] at hf
    exact absurd hf List.not_mem_nil

/-- **Threads that count under a lock**, in every interleaving: at most one is in its critical section,
    the sections print their blocks whole and one after the other, each for the value that the
    increments before it make, and when all have finished `counter` is the number of threads. Until
    then one of them can go on, and every step brings the end nearer. -/
theorem counting [Fintype T] {code : T → Sectioned (Shared T L)} {block : T → Int → List L}
    {w : Guarded T (Shared T L)} (hcode : ∀ t, Counts shown (code t))
    (hcounts : ∀ t s, (perform (code t).inside s).counter = s.counter + 1)
    (hputs : ∀ t s, (perform (code t).inside s).lines shown = s.lines shown ++ block t s.counter)
    (h : w.Reachable code Shared.start) :
    (∀ t u k n, w.place t = .inside k → w.place u = .inside n → t = u) ∧
      (∃ order : List T, order.Nodup ∧ w.shared.lines shown <+: numbered block 0 order ∧
        ((∀ t, w.Finished code t) → (∀ t, t ∈ order) ∧
          w.shared.lines shown = numbered block 0 order ∧ w.shared.counter = Fintype.card T)) ∧
      ((∀ t, w.Finished code t) ∨ ∃ t, (w.step code t).isSome) ∧
      ∀ (ops : List T) (w' : Guarded T (Shared T L)), ops.foldlM (Guarded.step code) w = some w' →
        ops.length + w'.total code ≤ w.total code := by
  obtain ⟨_, _, hserial⟩ := h.serial fun t => (hcode t).shows
  refine ⟨fun t u k n ht hu => hserial.exclusive ht hu, ?_, hserial.progress,
    fun ops w' => Guarded.length_of_run⟩
  have hnumbers : Numbers code Shared.counter (Shared.lines shown) block :=
    ⟨hcounts, hputs, fun t f hf s => ((hcode t).inside f hf).grows s⟩
  obtain ⟨order, hnodup, hprefix, hend⟩ := h.numbered (fun t => (hcode t).shows) hnumbers
    fun s s' heq => ⟨(Shared.view_ext.1 heq).1, (Shared.view_ext.1 heq).2.2⟩
  refine ⟨order, hnodup, hprefix, fun hfin => ?_⟩
  obtain ⟨hall, hlines, hcounter⟩ := hend hfin
  exact ⟨hall, hlines, hcounter.trans (Int.zero_add _)⟩

end LinuxSamples.Counting
