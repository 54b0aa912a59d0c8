import LinuxSamples.Program.Runs
import LinuxSamples.Process.Fifo

set_option autoImplicit false

/-! # Letters through two named pipes

In `test_named_pipe_1.cpp` the parent sends five letters to its child through the first pipe, one at a
time, and the child sends each back through the second pipe in upper case. Both processes open the
pipes in the same order. What could go wrong with a pipe is part of the model: an `open` or a `read`
that waits for ever, a `write` that kills the process since there is no reader, and a `read` that finds
the end of the file, after which both programs go on with the message they have. -/

namespace LinuxSamples.NamedPipe

open LinuxSamples.Program LinuxSamples.Process

/-! ## The program -/

/-- `struct message`. -/
structure Message where
  pid : Int
  ch : Char
  deriving DecidableEq, Repr

/-- A line that the parent prints. -/
inductive Line
  /-- `src char: ...` -/
  | src (ch : Char)
  /-- `dst char: ...` -/
  | dst (ch : Char)
  /-- `process ID of the terminated child: ...` -/
  | terminated (pid : Int)
  /-- `child process ended with: exit(...)` -/
  | exited (status : Int)
  /-- `child process ended with: kill -...` -/
  | killed (signal : Int)
  /-- `====== test finish ======` -/
  | finish
  deriving DecidableEq, Repr

/-- What the parent does next. -/
inductive Parent
  /-- `open(named_pipe1, O_WRONLY)`. -/
  | open1
  /-- It waits in this `open`. -/
  | opening1
  /-- `open(named_pipe2, O_RDONLY)`. -/
  | open2
  | opening2
  /-- `write` in round `i`. -/
  | writing (i : Nat)
  /-- The line of the letter sent. -/
  | showingSrc (i : Nat)
  /-- `read`. -/
  | reading (i : Nat)
  /-- The line of the letter received. -/
  | showingDst (i : Nat) (m : Message)
  /-- `close(fd1)`. -/
  | closing1
  | closing2
  /-- `wait`, and the lines after it. -/
  | waiting
  | finished
  | killed
  deriving DecidableEq, Repr

/-- What the child does next. -/
inductive Child
  /-- `open(named_pipe1, O_RDONLY)`. -/
  | open1
  | opening1
  /-- `open(named_pipe2, O_WRONLY)`. -/
  | open2
  | opening2
  /-- `read` in round `i`. -/
  | reading (i : Nat)
  /-- `toupper` and `write`. -/
  | writing (i : Nat) (m : Message)
  | closing1
  | closing2
  /-- None: `exit(0)`. -/
  | exited
  | killed
  deriving DecidableEq, Repr

inductive Party
  | parent
  | child
  deriving DecidableEq, Repr

structure World where
  pipe1 : Fifo Message
  pipe2 : Fifo Message
  parent : Parent
  child : Child
  printed : List Line
  deriving DecidableEq, Repr

/-- The number of rounds of both loops. -/
def rounds : Nat := 5

/-- How many messages a pipe of 65536 bytes has room for. -/
def room : Nat := 8192

/-- `{pid, 'a' + i}`. -/
def message (pid : Int) (i : Nat) : Message := ⟨pid, Char.ofNat ('a'.toNat + i)⟩

/-- `msg.ch = std::toupper(msg.ch)`. -/
def Message.toupper (m : Message) : Message := { m with ch := m.ch.toUpper }

/-- A process that ends leaves no end of a pipe open. -/
def World.killParent (w : World) : World :=
  { w with
    pipe1 := { w.pipe1 with writer := .closed }, pipe2 := { w.pipe2 with reader := .closed },
    parent := .killed }

def World.killChild (w : World) : World :=
  { w with
    pipe1 := { w.pipe1 with reader := .closed }, pipe2 := { w.pipe2 with writer := .closed },
    child := .killed }

/-- `SIGPIPE`. -/
def sigpipe : Int := 13

variable (pid : Int) (garbage : Message)

/-- The next step of the parent, to which `fork` has returned `pid`. -/
def parentStep (w : World) : Option World :=
  match w.parent with
  | .open1 => some { w with pipe1 := { w.pipe1 with writer := .opening }, parent := .opening1 }
  | .opening1 =>
      if w.pipe1.reader ≠ .unopened then
        some { w with pipe1 := { w.pipe1 with writer := .opened }, parent := .open2 }
      else none
  | .open2 => some { w with pipe2 := { w.pipe2 with reader := .opening }, parent := .opening2 }
  | .opening2 =>
      if w.pipe2.writer ≠ .unopened then
        some { w with pipe2 := { w.pipe2 with reader := .opened }, parent := .writing 0 }
      else none
  | .writing i =>
      match w.pipe1.write room (message pid i) with
      | .waits => none
      | .broken => some w.killParent
      | .done p => some { w with pipe1 := p, parent := .showingSrc i }
  | .showingSrc i =>
      some { w with printed := w.printed ++ [.src (message pid i).ch], parent := .reading i }
  | .reading i =>
      match w.pipe2.read with
      | .waits => none
      -- `msg` is the message that was sent
      | .endOfFile => some { w with parent := .showingDst i (message pid i) }
      | .message m p => some { w with pipe2 := p, parent := .showingDst i m }
  | .showingDst i m =>
      some { w with
        printed := w.printed ++ [.dst m.ch]
        parent := if i + 1 < rounds then .writing (i + 1) else .closing1 }
  | .closing1 => some { w with pipe1 := { w.pipe1 with writer := .closed }, parent := .closing2 }
  | .closing2 => some { w with pipe2 := { w.pipe2 with reader := .closed }, parent := .waiting }
  | .waiting =>
      match w.child with
      | .exited =>
          some { w with
            printed := w.printed ++ [.terminated pid, .exited 0, .finish], parent := .finished }
      | .killed =>
          some { w with
            printed := w.printed ++ [.terminated pid, .killed sigpipe, .finish], parent := .finished }
      | _ => none
  | .finished | .killed => none

/-- The next step of the child, whose `msg` holds `garbage` before it is read into. -/
def childStep (w : World) : Option World :=
  match w.child with
  | .open1 => some { w with pipe1 := { w.pipe1 with reader := .opening }, child := .opening1 }
  | .opening1 =>
      if w.pipe1.writer ≠ .unopened then
        some { w with pipe1 := { w.pipe1 with reader := .opened }, child := .open2 }
      else none
  | .open2 => some { w with pipe2 := { w.pipe2 with writer := .opening }, child := .opening2 }
  | .opening2 =>
      if w.pipe2.reader ≠ .unopened then
        some { w with pipe2 := { w.pipe2 with writer := .opened }, child := .reading 0 }
      else none
  | .reading i =>
      match w.pipe1.read with
      | .waits => none
      | .endOfFile => some { w with child := .writing i garbage }
      | .message m p => some { w with pipe1 := p, child := .writing i m }
  | .writing i m =>
      match w.pipe2.write room m.toupper with
      | .waits => none
      | .broken => some w.killChild
      | .done p => some { w with
          pipe2 := p, child := if i + 1 < rounds then .reading (i + 1) else .closing1 }
  | .closing1 => some { w with pipe1 := { w.pipe1 with reader := .closed }, child := .closing2 }
  | .closing2 => some { w with pipe2 := { w.pipe2 with writer := .closed }, child := .exited }
  | .exited | .killed => none

def step (w : World) : Party → Option World
  | .parent => parentStep pid w
  | .child => childStep garbage w

/-- After `mkfifo` and `fork`. -/
def start : World := ⟨.made, .made, .open1, .open1, []⟩

/-- The states of all interleavings. -/
def Reachable (w : World) : Prop := Interleaved (step pid garbage) (fun _ _ => True) start w

/-- What the parent prints in `n` rounds. -/
def letters (n : Nat) : List Line :=
  (List.range n).flatMap fun i => [.src (message pid i).ch, .dst (message pid i).toupper.ch]

/-- What the parent prints in all. -/
def expected : List Line := letters pid rounds ++ [.terminated pid, .exited 0, .finish]

/-! ## How far a process has come -/

/-- The end of the first pipe that the parent writes to. -/
def Parent.writer1 : Parent → End
  | .open1 => .unopened
  | .opening1 => .opening
  | .closing2 | .waiting | .finished | .killed => .closed
  | _ => .opened

/-- The end of the second pipe that the parent reads from. -/
def Parent.reader2 : Parent → End
  | .open1 | .opening1 | .open2 => .unopened
  | .opening2 => .opening
  | .waiting | .finished | .killed => .closed
  | _ => .opened

def Child.reader1 : Child → End
  | .open1 => .unopened
  | .opening1 => .opening
  | .closing2 | .exited | .killed => .closed
  | _ => .opened

def Child.writer2 : Child → End
  | .open1 | .opening1 | .open2 => .unopened
  | .opening2 => .opening
  | .exited | .killed => .closed
  | _ => .opened

/-- How many letters the parent has sent. -/
def Parent.sent : Parent → Nat
  | .open1 | .opening1 | .open2 | .opening2 => 0
  | .writing i => i
  | .showingSrc i | .reading i | .showingDst i _ => i + 1
  | .closing1 | .closing2 | .waiting | .finished | .killed => rounds

/-- How many letters the parent has got back. -/
def Parent.got : Parent → Nat
  | .open1 | .opening1 | .open2 | .opening2 => 0
  | .writing i | .showingSrc i | .reading i => i
  | .showingDst i _ => i + 1
  | .closing1 | .closing2 | .waiting | .finished | .killed => rounds

/-- How many letters the child has read. -/
def Child.taken : Child → Nat
  | .open1 | .opening1 | .open2 | .opening2 => 0
  | .reading i => i
  | .writing i _ => i + 1
  | .closing1 | .closing2 | .exited | .killed => rounds

/-- How many letters the child has sent back. -/
def Child.answered : Child → Nat
  | .open1 | .opening1 | .open2 | .opening2 => 0
  | .reading i | .writing i _ => i
  | .closing1 | .closing2 | .exited | .killed => rounds

/-- What the parent holds, and its round. -/
def Parent.Fits : Parent → Prop
  | .writing i | .showingSrc i | .reading i => i < rounds
  | .showingDst i m => i < rounds ∧ m = (message pid i).toupper
  | .killed => False
  | _ => True

def Child.Fits : Child → Prop
  | .reading i => i < rounds
  | .writing i m => i < rounds ∧ m = message pid i
  | .killed => False
  | _ => True

/-- What the parent has printed. -/
def Parent.lines : Parent → List Line
  | .open1 | .opening1 | .open2 | .opening2 => []
  | .writing i | .showingSrc i => letters pid i
  | .reading i | .showingDst i _ => letters pid i ++ [.src (message pid i).ch]
  | .closing1 | .closing2 | .waiting | .killed => letters pid rounds
  | .finished => expected pid

/-- The letters from number `m` to before number `n`. -/
def between (f : Nat → Message) (m n : Nat) : List Message := (List.range' m (n - m)).map f

theorem between_cons {f : Nat → Message} {m n : Nat} (h : m < n) :
    between f m n = f m :: between f (m + 1) n := by
  obtain ⟨k, rfl⟩ := Nat.exists_eq_add_of_lt h
  rw [between, between, show m + k + 1 - m = k + 1 by omega, show m + k + 1 - (m + 1) = k by omega]
  rfl

theorem between_concat {f : Nat → Message} {m n : Nat} (h : m ≤ n) :
    between f m (n + 1) = between f m n ++ [f n] := by
  obtain ⟨k, rfl⟩ := Nat.exists_eq_add_of_le h
  rw [between, between, show m + k + 1 - m = k + 1 by omega, show m + k - m = k by omega,
    List.range'_concat, List.map_append]
  simp

theorem between_eq_nil {f : Nat → Message} {m n : Nat} : between f m n = [] ↔ n ≤ m := by
  simp [between, Nat.sub_eq_zero_iff_le]

theorem letters_succ (n : Nat) : letters pid (n + 1)
    = letters pid n ++ [.src (message pid n).ch] ++ [.dst (message pid n).toupper.ch] := by
  simp [letters, List.range_succ]

theorem letters_mono {m n : Nat} (h : m ≤ n) : letters pid m <+: letters pid n := by
  induction h with
  | refl => exact List.prefix_rfl
  | step _ ih =>
      refine ih.trans ?_
      rw [letters_succ, List.append_assoc]
      exact List.prefix_append _ _

/-- A parent in its round has printed a part of what it prints. -/
theorem Parent.lines_begin {p : Parent} (h : p.Fits pid) : p.lines pid <+: expected pid := by
  have hrounds : letters pid rounds <+: expected pid := List.prefix_append _ _
  have hsrc : ∀ {i}, i < rounds →
      letters pid i ++ [.src (message pid i).ch] <+: expected pid := fun {i} hi => by
    refine List.IsPrefix.trans ?_ ((letters_mono pid (Nat.succ_le_of_lt hi)).trans hrounds)
    rw [letters_succ]
    exact List.prefix_append _ _
  cases p with
  | open1 | opening1 | open2 | opening2 => exact List.nil_prefix
  | writing i | showingSrc i => exact (letters_mono pid (Nat.le_of_lt h)).trans hrounds
  | reading i => exact hsrc h
  | showingDst i m => exact hsrc h.1
  | closing1 | closing2 | waiting | killed => exact hrounds
  | finished => exact List.prefix_rfl

/-! ## The invariant -/

/-- An end that is open has met the other end. -/
structure Ends (w : World) : Prop where
  writer1 : w.pipe1.writer = w.parent.writer1
  reader1 : w.pipe1.reader = w.child.reader1
  writer2 : w.pipe2.writer = w.child.writer2
  reader2 : w.pipe2.reader = w.parent.reader2
  parent1 : w.parent.writer1 = .opened → w.child.reader1 ≠ .unopened
  parent2 : w.parent.reader2 = .opened → w.child.writer2 ≠ .unopened
  child1 : w.child.reader1 = .opened → w.parent.writer1 ≠ .unopened
  child2 : w.child.writer2 = .opened → w.parent.reader2 ≠ .unopened

/-- What is in the pipes is what was sent and not yet read; there is one letter under way. -/
structure Flow (w : World) : Prop where
  queue1 : w.pipe1.queue = between (message pid) w.child.taken w.parent.sent
  queue2 : w.pipe2.queue
    = between (fun i => (message pid i).toupper) w.parent.got w.child.answered
  got : w.parent.got ≤ w.child.answered
  taken : w.child.taken ≤ w.parent.sent
  sent : w.parent.sent ≤ w.parent.got + 1
  parent : w.parent.Fits pid
  child : w.child.Fits pid

structure Invariant (w : World) : Prop where
  ends : Ends w
  flow : Flow pid w
  printed : w.printed = w.parent.lines pid

variable {pid garbage} {w w' : World}

theorem Child.answered_le (c : Child) : c.answered ≤ c.taken ∧ c.taken ≤ c.answered + 1 := by
  cases c <;> simp [Child.answered, Child.taken]

theorem Child.reader1_unopened {c : Child} (h : c.reader1 = .unopened) : c = .open1 := by
  cases c <;> first | rfl | cases h

theorem Child.writer2_unopened {c : Child} (h : c.writer2 = .unopened) :
    c = .open1 ∨ c = .opening1 ∨ c = .open2 := by
  cases c <;> simp_all [Child.writer2]

/-- A child that has letters to read has the first pipe open, once it has opened it. -/
theorem Child.reader1_present {c : Child} (h : c.taken < rounds) (hopen : c.reader1 ≠ .unopened) :
    c.reader1.Present := by
  cases c <;> simp_all [Child.reader1, Child.taken, End.Present]

theorem Child.writer2_present {c : Child} (h : c.answered < rounds)
    (hopen : c.writer2 ≠ .unopened) : c.writer2.Present := by
  cases c <;> simp_all [Child.writer2, Child.answered, End.Present]

theorem Parent.writer1_present {p : Parent} (h : p.sent < rounds) (hopen : p.writer1 ≠ .unopened) :
    p.writer1.Present := by
  cases p <;> simp_all [Parent.writer1, Parent.sent, End.Present]

theorem Parent.reader2_present {p : Parent} (h : p.got < rounds) (hopen : p.reader2 ≠ .unopened) :
    p.reader2.Present := by
  cases p <;> simp_all [Parent.reader2, Parent.got, End.Present]

/-- The parent can write. -/
theorem Invariant.parent_write (h : Invariant pid w) {i : Nat} (hphase : w.parent = .writing i)
    (m : Message) :
    w.pipe1.write room m = .done { w.pipe1 with queue := w.pipe1.queue ++ [m] } := by
  have htaken := h.flow.taken
  have hfits := h.flow.parent
  have hgot := h.flow.got
  have hanswered := w.child.answered_le
  rw [hphase] at htaken hfits hgot
  simp only [Parent.sent, Parent.Fits, Parent.got] at htaken hfits hgot
  refine Fifo.write_done ?_ ?_ m
  · rw [h.ends.reader1]
    exact Child.reader1_present (by omega) (h.ends.parent1 (by rw [hphase]; rfl))
  · have hempty : w.pipe1.queue = [] := by
      rw [h.flow.queue1, between_eq_nil, hphase, Parent.sent]
      omega
    rw [hempty]
    decide

/-- The child can write. -/
theorem Invariant.child_write (h : Invariant pid w) {i : Nat} {m₀ : Message}
    (hphase : w.child = .writing i m₀) (m : Message) :
    w.pipe2.write room m = .done { w.pipe2 with queue := w.pipe2.queue ++ [m] } := by
  have htaken := h.flow.taken
  have hfits := h.flow.child
  have hgot := h.flow.got
  have hsent := h.flow.sent
  rw [hphase] at htaken hfits hgot
  simp only [Child.taken, Child.Fits, Child.answered] at htaken hfits hgot
  refine Fifo.write_done ?_ ?_ m
  · rw [h.ends.reader2]
    exact Parent.reader2_present (by omega) (h.ends.child2 (by rw [hphase]; rfl))
  · have hempty : w.pipe2.queue = [] := by
      rw [h.flow.queue2, between_eq_nil, hphase, Child.answered]
      omega
    rw [hempty]
    decide

/-- What the child reads. -/
theorem Invariant.child_read (h : Invariant pid w) {i : Nat} (hphase : w.child = .reading i) :
    w.pipe1.read = .waits ∧ w.parent.sent = i ∨
      w.pipe1.read = .message (message pid i)
        { w.pipe1 with queue := between (message pid) (i + 1) w.parent.sent } ∧ i < w.parent.sent := by
  have hqueue := h.flow.queue1
  have htaken := h.flow.taken
  have hfits := h.flow.child
  rw [hphase] at hqueue htaken hfits
  simp only [Child.taken, Child.Fits] at hqueue htaken hfits
  rcases Nat.eq_or_lt_of_le htaken with heq | hlt
  · left
    refine ⟨Fifo.read_waits (hqueue.trans (between_eq_nil.2 (by omega))) ?_, heq.symm⟩
    rw [h.ends.writer1]
    exact Parent.writer1_present (by omega) (h.ends.child1 (by rw [hphase]; rfl))
  · right
    rw [between_cons hlt] at hqueue
    exact ⟨Fifo.read_message hqueue, hlt⟩

/-- What the parent reads. -/
theorem Invariant.parent_read (h : Invariant pid w) {i : Nat} (hphase : w.parent = .reading i) :
    w.pipe2.read = .waits ∧ w.child.answered = i ∨
      w.pipe2.read = .message (message pid i).toupper { w.pipe2 with
        queue := between (fun i => (message pid i).toupper) (i + 1) w.child.answered } ∧
      i < w.child.answered := by
  have hqueue := h.flow.queue2
  have hgot := h.flow.got
  have hfits := h.flow.parent
  rw [hphase] at hqueue hgot hfits
  simp only [Parent.got, Parent.Fits] at hqueue hgot hfits
  rcases Nat.eq_or_lt_of_le hgot with heq | hlt
  · left
    refine ⟨Fifo.read_waits (hqueue.trans (between_eq_nil.2 (by omega))) ?_, heq.symm⟩
    rw [h.ends.writer2]
    exact Child.writer2_present (by omega) (h.ends.parent2 (by rw [hphase]; rfl))
  · right
    rw [between_cons hlt] at hqueue
    exact ⟨Fifo.read_message hqueue, hlt⟩

/-! ## One step -/

/-- The ways the parent goes on: no write breaks, and no read finds the end of the file. -/
inductive ParentMove (pid : Int) (w : World) : World → Prop
  | begin1 : w.parent = .open1 →
      ParentMove pid w { w with pipe1 := { w.pipe1 with writer := .opening }, parent := .opening1 }
  | open1 : w.parent = .opening1 → w.pipe1.reader ≠ .unopened →
      ParentMove pid w { w with pipe1 := { w.pipe1 with writer := .opened }, parent := .open2 }
  | begin2 : w.parent = .open2 →
      ParentMove pid w { w with pipe2 := { w.pipe2 with reader := .opening }, parent := .opening2 }
  | open2 : w.parent = .opening2 → w.pipe2.writer ≠ .unopened →
      ParentMove pid w { w with pipe2 := { w.pipe2 with reader := .opened }, parent := .writing 0 }
  | write (i : Nat) : w.parent = .writing i → ParentMove pid w { w with
      pipe1 := { w.pipe1 with queue := w.pipe1.queue ++ [message pid i] }, parent := .showingSrc i }
  | src (i : Nat) : w.parent = .showingSrc i → ParentMove pid w { w with
      printed := w.printed ++ [.src (message pid i).ch], parent := .reading i }
  | read (i : Nat) : w.parent = .reading i → i < w.child.answered → ParentMove pid w { w with
      pipe2 := { w.pipe2 with
        queue := between (fun i => (message pid i).toupper) (i + 1) w.child.answered }
      parent := .showingDst i (message pid i).toupper }
  | dst (i : Nat) (m : Message) : w.parent = .showingDst i m → ParentMove pid w { w with
      printed := w.printed ++ [.dst m.ch]
      parent := if i + 1 < rounds then .writing (i + 1) else .closing1 }
  | close1 : w.parent = .closing1 →
      ParentMove pid w { w with pipe1 := { w.pipe1 with writer := .closed }, parent := .closing2 }
  | close2 : w.parent = .closing2 →
      ParentMove pid w { w with pipe2 := { w.pipe2 with reader := .closed }, parent := .waiting }
  | join : w.parent = .waiting → w.child = .exited → ParentMove pid w { w with
      printed := w.printed ++ [.terminated pid, .exited 0, .finish], parent := .finished }

/-- The ways the child goes on. -/
inductive ChildMove (pid : Int) (w : World) : World → Prop
  | begin1 : w.child = .open1 →
      ChildMove pid w { w with pipe1 := { w.pipe1 with reader := .opening }, child := .opening1 }
  | open1 : w.child = .opening1 → w.pipe1.writer ≠ .unopened →
      ChildMove pid w { w with pipe1 := { w.pipe1 with reader := .opened }, child := .open2 }
  | begin2 : w.child = .open2 →
      ChildMove pid w { w with pipe2 := { w.pipe2 with writer := .opening }, child := .opening2 }
  | open2 : w.child = .opening2 → w.pipe2.reader ≠ .unopened →
      ChildMove pid w { w with pipe2 := { w.pipe2 with writer := .opened }, child := .reading 0 }
  | read (i : Nat) : w.child = .reading i → i < w.parent.sent → ChildMove pid w { w with
      pipe1 := { w.pipe1 with queue := between (message pid) (i + 1) w.parent.sent }
      child := .writing i (message pid i) }
  | write (i : Nat) (m : Message) : w.child = .writing i m → ChildMove pid w { w with
      pipe2 := { w.pipe2 with queue := w.pipe2.queue ++ [m.toupper] }
      child := if i + 1 < rounds then .reading (i + 1) else .closing1 }
  | close1 : w.child = .closing1 →
      ChildMove pid w { w with pipe1 := { w.pipe1 with reader := .closed }, child := .closing2 }
  | close2 : w.child = .closing2 →
      ChildMove pid w { w with pipe2 := { w.pipe2 with writer := .closed }, child := .exited }

theorem Invariant.parent_move (h : Invariant pid w) (hstep : parentStep pid w = some w') :
    ParentMove pid w w' := by
  unfold parentStep at hstep
  cases hphase : w.parent with
  | open1 =>
      simp only [hphase, Option.some.injEq] at hstep
      exact hstep ▸ ParentMove.begin1 hphase
  | opening1 =>
      simp only [hphase, Option.ite_none_right_eq_some, Option.some.injEq] at hstep
      obtain ⟨hopen, rfl⟩ := hstep
      exact ParentMove.open1 hphase hopen
  | open2 =>
      simp only [hphase, Option.some.injEq] at hstep
      exact hstep ▸ ParentMove.begin2 hphase
  | opening2 =>
      simp only [hphase, Option.ite_none_right_eq_some, Option.some.injEq] at hstep
      obtain ⟨hopen, rfl⟩ := hstep
      exact ParentMove.open2 hphase hopen
  | writing i =>
      simp only [hphase, h.parent_write hphase, Option.some.injEq] at hstep
      exact hstep ▸ ParentMove.write i hphase
  | showingSrc i =>
      simp only [hphase, Option.some.injEq] at hstep
      exact hstep ▸ ParentMove.src i hphase
  | reading i =>
      rcases h.parent_read hphase with ⟨hread, _⟩ | ⟨hread, hlt⟩
      · simp [hphase, hread] at hstep
      · simp only [hphase, hread, Option.some.injEq] at hstep
        exact hstep ▸ ParentMove.read i hphase hlt
  | showingDst i m =>
      simp only [hphase, Option.some.injEq] at hstep
      exact hstep ▸ ParentMove.dst i m hphase
  | closing1 =>
      simp only [hphase, Option.some.injEq] at hstep
      exact hstep ▸ ParentMove.close1 hphase
  | closing2 =>
      simp only [hphase, Option.some.injEq] at hstep
      exact hstep ▸ ParentMove.close2 hphase
  | waiting =>
      have hchild := h.flow.child
      cases hexit : w.child with
      | exited =>
          simp only [hphase, hexit, Option.some.injEq] at hstep
          have hmove : ParentMove pid w _ := ParentMove.join hphase hexit
          rw [hexit] at hmove
          exact hstep ▸ hmove
      | killed => simp [hexit, Child.Fits] at hchild
      | open1 | opening1 | open2 | opening2 | reading | writing | closing1 | closing2 =>
          simp [hphase, hexit] at hstep
  | finished => simp [hphase] at hstep
  | killed => simp [hphase] at hstep

theorem Invariant.child_move (h : Invariant pid w) (hstep : childStep garbage w = some w') :
    ChildMove pid w w' := by
  unfold childStep at hstep
  cases hphase : w.child with
  | open1 =>
      simp only [hphase, Option.some.injEq] at hstep
      exact hstep ▸ ChildMove.begin1 hphase
  | opening1 =>
      simp only [hphase, Option.ite_none_right_eq_some, Option.some.injEq] at hstep
      obtain ⟨hopen, rfl⟩ := hstep
      exact ChildMove.open1 hphase hopen
  | open2 =>
      simp only [hphase, Option.some.injEq] at hstep
      exact hstep ▸ ChildMove.begin2 hphase
  | opening2 =>
      simp only [hphase, Option.ite_none_right_eq_some, Option.some.injEq] at hstep
      obtain ⟨hopen, rfl⟩ := hstep
      exact ChildMove.open2 hphase hopen
  | reading i =>
      rcases h.child_read hphase with ⟨hread, _⟩ | ⟨hread, hlt⟩
      · simp [hphase, hread] at hstep
      · simp only [hphase, hread, Option.some.injEq] at hstep
        exact hstep ▸ ChildMove.read i hphase hlt
  | writing i m =>
      simp only [hphase, h.child_write hphase, Option.some.injEq] at hstep
      exact hstep ▸ ChildMove.write i m hphase
  | closing1 =>
      simp only [hphase, Option.some.injEq] at hstep
      exact hstep ▸ ChildMove.close1 hphase
  | closing2 =>
      simp only [hphase, Option.some.injEq] at hstep
      exact hstep ▸ ChildMove.close2 hphase
  | exited => simp [hphase] at hstep
  | killed => simp [hphase] at hstep

theorem ParentMove.ends (hmove : ParentMove pid w w') (h : Ends w) : Ends w' := by
  obtain ⟨hw1, hr1, hw2, hr2, hp1, hp2, hc1, hc2⟩ := h
  cases hmove with
  | dst i m hphase =>
      split <;> constructor <;> simp_all [Parent.writer1, Parent.reader2]
  | begin1 hphase | open1 hphase | begin2 hphase | open2 hphase | write i hphase | src i hphase
  | read i hphase | close1 hphase | close2 hphase | join hphase =>
      constructor <;> simp_all [Parent.writer1, Parent.reader2]

theorem ChildMove.ends (hmove : ChildMove pid w w') (h : Ends w) : Ends w' := by
  obtain ⟨hw1, hr1, hw2, hr2, hp1, hp2, hc1, hc2⟩ := h
  cases hmove with
  | write i m hphase =>
      split <;> constructor <;> simp_all [Child.reader1, Child.writer2]
  | begin1 hphase | open1 hphase | begin2 hphase | open2 hphase | read i hphase | close1 hphase
  | close2 hphase => constructor <;> simp_all [Child.reader1, Child.writer2]

theorem Parent.next_sent (i : Nat) (h : i < rounds) :
    (if i + 1 < rounds then Parent.writing (i + 1) else .closing1).sent = i + 1 ∧
      (if i + 1 < rounds then Parent.writing (i + 1) else .closing1).got = i + 1 ∧
      (if i + 1 < rounds then Parent.writing (i + 1) else .closing1).Fits pid ∧
      (if i + 1 < rounds then Parent.writing (i + 1) else .closing1).lines pid
        = letters pid (i + 1) := by
  by_cases hlast : i + 1 < rounds
  · rw [if_pos hlast]
    exact ⟨rfl, rfl, hlast, rfl⟩
  · have hrounds : rounds = i + 1 := by omega
    rw [if_neg hlast]
    exact ⟨hrounds, hrounds, trivial, by rw [Parent.lines, hrounds]⟩

theorem Child.next_taken (i : Nat) (h : i < rounds) :
    (if i + 1 < rounds then Child.reading (i + 1) else .closing1).taken = i + 1 ∧
      (if i + 1 < rounds then Child.reading (i + 1) else .closing1).answered = i + 1 ∧
      (if i + 1 < rounds then Child.reading (i + 1) else .closing1).Fits pid := by
  by_cases hlast : i + 1 < rounds
  · rw [if_pos hlast]
    exact ⟨rfl, rfl, hlast⟩
  · have hrounds : rounds = i + 1 := by omega
    rw [if_neg hlast]
    exact ⟨hrounds, hrounds, trivial⟩

theorem ParentMove.flow (hmove : ParentMove pid w w') (h : Flow pid w) : Flow pid w' := by
  obtain ⟨hqueue1, hqueue2, hgot, htaken, hsent, hparent, hchild⟩ := h
  have hanswered := w.child.answered_le
  cases hmove with
  | begin1 hphase | open1 hphase | begin2 hphase | src i hphase | close1 hphase | close2 hphase
  | join hphase =>
      rw [hphase] at hqueue1 hqueue2 hgot htaken hsent hparent
      exact ⟨hqueue1, hqueue2, hgot, htaken, hsent, hparent, hchild⟩
  | open2 hphase =>
      rw [hphase] at hqueue1 hqueue2 hgot htaken hsent
      exact ⟨hqueue1, hqueue2, hgot, htaken, hsent, (by decide : 0 < rounds), hchild⟩
  | write i hphase =>
      rw [hphase] at hqueue1 hqueue2 hgot htaken hparent
      refine ⟨?_, hqueue2, hgot, Nat.le_succ_of_le htaken, Nat.le_refl _, hparent, hchild⟩
      have hconcat : between (message pid) w.child.taken (i + 1)
          = between (message pid) w.child.taken i ++ [message pid i] := between_concat htaken
      show w.pipe1.queue ++ [message pid i] = between (message pid) w.child.taken (i + 1)
      rw [hconcat, hqueue1]
      rfl
  | read i hphase hlt =>
      rw [hphase] at hqueue1 htaken hparent
      exact ⟨hqueue1, rfl, hlt, htaken, Nat.le_succ _, ⟨hparent, rfl⟩, hchild⟩
  | dst i m hphase =>
      rw [hphase] at hqueue1 hqueue2 hgot htaken hparent
      obtain ⟨hnext, hback, hfits, _⟩ := Parent.next_sent i hparent.1
      refine ⟨?_, ?_, ?_, ?_, ?_, hfits, hchild⟩
      · rw [hnext]; exact hqueue1
      · rw [hback]; exact hqueue2
      · rw [hback]; exact hgot
      · rw [hnext]; exact htaken
      · rw [hnext, hback]; exact Nat.le_succ _

theorem ChildMove.flow (hmove : ChildMove pid w w') (h : Flow pid w) : Flow pid w' := by
  obtain ⟨hqueue1, hqueue2, hgot, htaken, hsent, hparent, hchild⟩ := h
  cases hmove with
  | begin1 hphase | open1 hphase | begin2 hphase | close1 hphase | close2 hphase =>
      rw [hphase] at hqueue1 hqueue2 hgot htaken hchild
      exact ⟨hqueue1, hqueue2, hgot, htaken, hsent, hparent, hchild⟩
  | open2 hphase =>
      rw [hphase] at hqueue1 hqueue2 hgot htaken
      exact ⟨hqueue1, hqueue2, hgot, htaken, hsent, hparent, (by decide : 0 < rounds)⟩
  | read i hphase hlt =>
      rw [hphase] at hqueue2 hgot hchild
      exact ⟨rfl, hqueue2, hgot, hlt, hsent, hparent, ⟨hchild, rfl⟩⟩
  | write i m hphase =>
      rw [hphase] at hqueue1 hqueue2 hgot htaken hchild
      obtain ⟨hlt, rfl⟩ := hchild
      obtain ⟨hnext, hback, hfits⟩ := Child.next_taken i hlt
      refine ⟨?_, ?_, ?_, ?_, hsent, hparent, hfits⟩
      · rw [hnext]; exact hqueue1
      · have hconcat : between (fun i => (message pid i).toupper) w.parent.got (i + 1)
            = between (fun i => (message pid i).toupper) w.parent.got i
              ++ [(message pid i).toupper] := between_concat hgot
        rw [hback, hconcat]
        show w.pipe2.queue ++ [(message pid i).toupper] = _
        rw [hqueue2]
        rfl
      · rw [hback]; exact Nat.le_succ_of_le hgot
      · rw [hnext]; exact htaken

theorem ParentMove.printed (hmove : ParentMove pid w w') (hflow : w.parent.Fits pid)
    (h : w.printed = w.parent.lines pid) : w'.printed = w'.parent.lines pid := by
  cases hmove with
  | begin1 hphase | open1 hphase | begin2 hphase | open2 hphase | write i hphase
  | read i hphase | close1 hphase | close2 hphase =>
      rw [hphase] at h
      exact h
  | src i hphase =>
      rw [hphase] at h
      rw [h]
      rfl
  | dst i m hphase =>
      rw [hphase] at h hflow
      obtain ⟨hlt, rfl⟩ := hflow
      rw [(Parent.next_sent i hlt).2.2.2, letters_succ, h]
      rfl
  | join hphase =>
      rw [hphase] at h
      rw [h]
      rfl

theorem Invariant.start : Invariant pid start := by
  refine ⟨?_, ?_, rfl⟩
  · constructor <;> first | rfl | (intro h; cases h)
  · exact ⟨rfl, rfl, Nat.le_refl _, Nat.le_refl _, Nat.zero_le _, trivial, trivial⟩

theorem Invariant.after_step (h : Invariant pid w) {p : Party}
    (hstep : step pid garbage w p = some w') : Invariant pid w' := by
  cases p with
  | parent =>
      have hmove := h.parent_move hstep
      exact ⟨hmove.ends h.ends, hmove.flow h.flow, hmove.printed h.flow.parent h.printed⟩
  | child =>
      have hmove := h.child_move hstep
      have hsame : w'.printed = w.printed ∧ w'.parent = w.parent := by
        cases hmove <;> exact ⟨rfl, rfl⟩
      refine ⟨hmove.ends h.ends, hmove.flow h.flow, ?_⟩
      rw [hsame.1, hsame.2]
      exact h.printed

theorem Reachable.invariant (h : Reachable pid garbage w) : Invariant pid w :=
  Interleaved.induct h Invariant.start fun _ _ _ hw _ hstep => hw.after_step hstep

/-! ## Progress -/

/-- As long as the parent has not finished, one of the processes can go on. -/
theorem Invariant.progress (h : Invariant pid w) :
    w.parent = .finished ∨ ∃ p, (step pid garbage w p).isSome := by
  -- the child goes on wherever it is, unless it waits for the parent
  have hchild : (w.child = .opening1 → w.pipe1.writer ≠ .unopened) →
      (w.child = .opening2 → w.pipe2.reader ≠ .unopened) →
      (∀ i, w.child = .reading i → i < w.parent.sent) → w.child ≠ .exited →
      (childStep garbage w).isSome := by
    intro hopen1 hopen2 hread hexited
    unfold childStep
    cases hphase : w.child with
    | open1 | open2 | closing1 | closing2 => simp
    | opening1 => simp [hopen1 hphase]
    | opening2 => simp [hopen2 hphase]
    | reading i =>
        rcases h.child_read hphase with ⟨_, hsent⟩ | ⟨hmessage, _⟩
        · exact absurd (hread i hphase) (by omega)
        · simp [hmessage]
    | writing i m => simp [h.child_write hphase]
    | exited => exact absurd hphase hexited
    | killed =>
        have hfits := h.flow.child
        simp [hphase, Child.Fits] at hfits
  have hends := h.ends
  have hanswered := h.flow.got
  cases hphase : w.parent with
  | open1 | open2 | showingSrc | showingDst | closing1 | closing2 =>
      exact Or.inr ⟨.parent, by simp [step, parentStep, hphase]⟩
  | opening1 =>
      right
      by_cases hmet : w.pipe1.reader = .unopened
      · have hopen := Child.reader1_unopened (hends.reader1.symm.trans hmet)
        exact ⟨.child, by simp [step, childStep, hopen]⟩
      · exact ⟨.parent, by simp [step, parentStep, hphase, hmet]⟩
  | opening2 =>
      right
      by_cases hmet : w.pipe2.writer = .unopened
      · have hwriter : w.pipe1.writer ≠ .unopened := by simp [hends.writer1, hphase, Parent.writer1]
        rcases Child.writer2_unopened (hends.writer2.symm.trans hmet) with hc | hc | hc <;>
          exact ⟨.child, by simp [step, childStep, hc, hwriter]⟩
      · exact ⟨.parent, by simp [step, parentStep, hphase, hmet]⟩
  | writing i => exact Or.inr ⟨.parent, by simp [step, parentStep, hphase, h.parent_write hphase]⟩
  | reading i =>
      right
      rcases h.parent_read hphase with ⟨_, hback⟩ | ⟨hmessage, _⟩
      · -- the letter is with the child
        have hfits := h.flow.parent
        rw [hphase] at hfits
        refine ⟨.child, hchild (fun _ => ?_) (fun _ => ?_) (fun j hj => ?_) fun hexited => ?_⟩
        · simp [hends.writer1, hphase, Parent.writer1]
        · simp [hends.reader2, hphase, Parent.reader2]
        · rw [hj] at hback
          obtain rfl : j = i := hback
          rw [hphase]
          exact Nat.lt_succ_self _
        · rw [hexited] at hback
          exact absurd hback.symm (Nat.ne_of_lt hfits)
      · exact ⟨.parent, by simp [step, parentStep, hphase, hmessage]⟩
  | waiting =>
      right
      by_cases hexited : w.child = .exited
      · exact ⟨.parent, by simp [step, parentStep, hphase, hexited]⟩
      · refine ⟨.child, hchild (fun _ => ?_) (fun _ => ?_) (fun j hj => ?_) hexited⟩
        · simp [hends.writer1, hphase, Parent.writer1]
        · simp [hends.reader2, hphase, Parent.reader2]
        · have hfits := h.flow.child
          rw [hj] at hfits
          rw [hphase]
          exact hfits
  | finished => exact Or.inl rfl
  | killed =>
      have hfits := h.flow.parent
      simp [hphase, Parent.Fits] at hfits

/-- How many steps the parent has left, at most. -/
def Parent.left : Parent → Nat
  | .open1 => 4 * rounds + 11
  | .opening1 => 4 * rounds + 10
  | .open2 => 4 * rounds + 9
  | .opening2 => 4 * rounds + 8
  | .writing i => 4 * (rounds - i) + 7
  | .showingSrc i => 4 * (rounds - i) + 6
  | .reading i => 4 * (rounds - i) + 5
  | .showingDst i _ => 4 * (rounds - i) + 4
  | .closing1 => 3
  | .closing2 => 2
  | .waiting => 1
  | .finished | .killed => 0

/-- How many steps the child has left, at most. -/
def Child.left : Child → Nat
  | .open1 => 2 * rounds + 8
  | .opening1 => 2 * rounds + 7
  | .open2 => 2 * rounds + 6
  | .opening2 => 2 * rounds + 5
  | .reading i => 2 * (rounds - i) + 4
  | .writing i _ => 2 * (rounds - i) + 3
  | .closing1 => 2
  | .closing2 => 1
  | .exited | .killed => 0

def World.left (w : World) : Nat := w.parent.left + w.child.left

theorem Parent.next_left (i : Nat) :
    (if i + 1 < rounds then Parent.writing (i + 1) else .closing1).left < 4 * (rounds - i) + 4 := by
  by_cases hlast : i + 1 < rounds
  · rw [if_pos hlast, Parent.left]
    omega
  · rw [if_neg hlast, Parent.left]
    omega

theorem Child.next_left (i : Nat) :
    (if i + 1 < rounds then Child.reading (i + 1) else .closing1).left < 2 * (rounds - i) + 3 := by
  by_cases hlast : i + 1 < rounds
  · rw [if_pos hlast, Child.left]
    omega
  · rw [if_neg hlast, Child.left]
    omega

theorem parentStep_left (h : parentStep pid w = some w') :
    w'.parent.left < w.parent.left ∧ w'.child = w.child := by
  unfold parentStep at h
  cases hphase : w.parent <;> simp only [hphase] at h
  case open1 | open2 | showingSrc | closing1 | closing2 =>
    cases h
    simp [Parent.left]
  case opening1 | opening2 =>
    rw [Option.ite_none_right_eq_some] at h
    obtain ⟨_, h⟩ := h
    cases h
    simp [Parent.left]
  case writing i =>
    split at h <;> cases h <;> simp [Parent.left, World.killParent]
  case reading i =>
    split at h <;> cases h <;> simp [Parent.left]
  case showingDst i m =>
    cases h
    exact ⟨Parent.next_left i, rfl⟩
  case waiting =>
    split at h <;> cases h <;> simp_all [Parent.left]
  case finished | killed => cases h

theorem childStep_left (h : childStep garbage w = some w') :
    w'.child.left < w.child.left ∧ w'.parent = w.parent := by
  unfold childStep at h
  cases hphase : w.child <;> simp only [hphase] at h
  case open1 | open2 | closing1 | closing2 =>
    cases h
    simp [Child.left]
  case opening1 | opening2 =>
    rw [Option.ite_none_right_eq_some] at h
    obtain ⟨_, h⟩ := h
    cases h
    simp [Child.left]
  case reading i =>
    split at h <;> cases h <;> simp [Child.left]
  case writing i m =>
    split at h
    · cases h
    · cases h
      simp [Child.left, World.killChild]
    · cases h
      exact ⟨Child.next_left i, rfl⟩
  case exited | killed => cases h

theorem step_left {p : Party} (h : step pid garbage w p = some w') : w'.left < w.left := by
  cases p with
  | parent =>
      obtain ⟨hlt, hchild⟩ := parentStep_left h
      rw [World.left, World.left, hchild]
      exact Nat.add_lt_add_right hlt _
  | child =>
      obtain ⟨hlt, hparent⟩ := childStep_left h
      rw [World.left, World.left, hparent]
      exact Nat.add_lt_add_left hlt _

/-- **Every letter comes back in upper case**, in every interleaving: what the parent prints is in the
    order `a`, `A`, `b`, `B`, …, neither process is killed, at most one letter is in the pipes, and as
    long as the parent has not finished somebody can go on. Every step brings the end nearer, and at the
    end all five letters are printed and the child has ended with `exit(0)`. -/
theorem letters_come_back (h : Reachable pid garbage w) :
    w.printed <+: expected pid ∧ w.parent ≠ .killed ∧ w.child ≠ .killed ∧
      w.pipe1.queue.length + w.pipe2.queue.length ≤ 1 ∧
      (w.parent = .finished ∧ w.printed = expected pid ∨ ∃ p, (step pid garbage w p).isSome) ∧
      ∀ (ops : List Party) (w' : World), ops.foldlM (step pid garbage) w = some w' →
        ops.length + w'.left ≤ w.left := by
  have hinv := h.invariant
  have hparent := hinv.flow.parent
  have hchild := hinv.flow.child
  refine ⟨?_, ?_, ?_, ?_, ?_, fun _ _ => schedule_length fun _ _ _ => step_left⟩
  · rw [hinv.printed]
    exact Parent.lines_begin pid hparent
  · intro hkilled
    rw [hkilled] at hparent
    exact hparent
  · intro hkilled
    rw [hkilled] at hchild
    exact hchild
  · have hcounts := w.child.answered_le
    have hgot := hinv.flow.got
    have htaken := hinv.flow.taken
    have hsent := hinv.flow.sent
    rw [hinv.flow.queue1, hinv.flow.queue2]
    simp only [between, List.length_map, List.length_range']
    omega
  · have hprogress : w.parent = .finished ∨ ∃ p, (step pid garbage w p).isSome := hinv.progress
    rcases hprogress with hfin | hstep
    · refine Or.inl ⟨hfin, ?_⟩
      rw [hinv.printed, hfin]
      rfl
    · exact Or.inr hstep

/-- The parent sends the first letter while the child waits in its second `open`. -/
theorem letters_come_back_begin : ∃ w, Reachable 7 ⟨0, 'x'⟩ w ∧ w.child = .opening2 ∧
    w.printed = [.src 'a'] ∧ w.printed <+: expected 7 := by
  have hrun : (([.parent, .child, .parent, .child, .parent, .child, .parent, .parent, .parent] :
      List Party).foldlM (fun w p => if True then step 7 ⟨0, 'x'⟩ w p else none) start).map
        (fun w => (w.child, w.printed)) = some (.opening2, [.src 'a']) := by decide +kernel
  obtain ⟨w, hw, hseen⟩ := Option.map_eq_some_iff.1 hrun
  obtain ⟨hchild, hprinted⟩ := Prod.mk.inj hseen
  have hreach : Reachable 7 ⟨0, 'x'⟩ w := Interleaved.of_schedule hw
  exact ⟨w, hreach, hchild, hprinted, (letters_come_back hreach).1⟩

end LinuxSamples.NamedPipe
