import LinuxSamples.Program.Runs
import Mathlib.Logic.Function.Basic

set_option autoImplicit false

/-! # A mailbox in shared memory

In `test_shared_memory_1.cpp` a parent and its child pass a counter back and forth. The mailbox is the
shared memory object named `shm_test`: `read_message` opens it, looks at the message and unlinks the
name; `write_message` creates it again and stores the next value. Nothing orders the calls of the two
processes but the pauses between them.

`readMessage` and `writeMessage` are the system calls and field accesses of the two functions, one
step each. An object that lost its name lives on for the processes that have opened it, and what
`shm_open` creates has no contents until it is truncated to the size of a message. -/

namespace LinuxSamples.Mailbox

open LinuxSamples.Program

/-! ## The program -/

/-- `struct message`. -/
structure Message where
  pid : Int
  counter : Int
  deriving DecidableEq, Repr

inductive Process
  | parent
  | child
  deriving DecidableEq, Repr

def Process.other : Process → Process
  | .parent => .child
  | .child => .parent

/-- What `fork` returns to the parent. -/
structure ChildPid where
  val : Int
  pos : 0 < val

/-- The variable `pid`, by which a process signs its messages: the result of `fork`. -/
def Process.pid (c : ChildPid) : Process → Int
  | .parent => c.val
  | .child => 0

/-- The next step of a process in `read_message`. -/
inductive ReadStep
  /-- `shm_open`. -/
  | openName
  /-- `ftruncate`. -/
  | truncate
  /-- `mmap`. -/
  | map
  /-- `msg_ptr->pid == curr_pid`. -/
  | comparePid
  /-- `munmap`, when there is no new message. -/
  | unmapOld
  /-- `shm_unlink`, when there is no new message. -/
  | unlinkOld
  /-- `fprintf` of both fields. -/
  | report
  /-- `curr_value = msg_ptr->counter`. -/
  | takeCounter
  /-- `munmap`. -/
  | unmap
  /-- `shm_unlink`. -/
  | unlink
  deriving DecidableEq, Repr

/-- The next step of a process in `write_message`. -/
inductive WriteStep
  /-- `shm_open` with `O_CREAT`. -/
  | openName
  /-- `ftruncate`. -/
  | truncate
  /-- `mmap`. -/
  | map
  /-- `msg_ptr->pid = pid`. -/
  | putPid
  /-- `msg_ptr->counter = value`. -/
  | putCounter
  /-- `munmap`. -/
  | unmap
  deriving DecidableEq, Repr

inductive Phase
  | reading (next : ReadStep)
  | writing (next : WriteStep)
  /-- The loop is over. -/
  | finished
  /-- `exit(1)`: the name was missing. -/
  | exited
  deriving DecidableEq, Repr

/-- A process: its loop counter, the variable `value`, and the object it has opened. -/
structure Frame where
  phase : Phase
  i : Nat
  value : Int
  object : Nat
  deriving DecidableEq, Repr

/-- `name` is the object called `shm_test`. `objects b` is `none` while object `b` is empty. `log` are
    the values stored by the calls of `write_message` that have returned. -/
structure World where
  name : Option Nat
  objects : Nat → Option Message
  next : Nat
  frame : Process → Frame
  log : List Int

def World.set (w : World) (p : Process) (f : Frame) : World :=
  { w with frame := Function.update w.frame p f }

def World.put (w : World) (b : Nat) (m : Option Message) : World :=
  { w with objects := Function.update w.objects b m }

/-- The number of rounds of both loops. -/
def rounds : Nat := 5

/-- The next iteration of the loop. -/
def Frame.nextRound (f : Frame) : Frame :=
  { f with i := f.i + 1, phase := if f.i + 1 < rounds then .reading .openName else .finished }

/-- `ftruncate(fd, sizeof(message))`: an empty object is filled with zeros. -/
def World.truncate (w : World) (b : Nat) : World := w.put b (some ((w.objects b).getD ⟨0, 0⟩))

/-- After `write_message(-1, 0)` and `fork`. -/
def start : World :=
  ⟨some 0, fun b => if b = 0 then some ⟨-1, 0⟩ else none, 1, fun _ => ⟨.reading .openName, 0, 0, 0⟩, []⟩

/-- A step of `read_message(pid, value)`. -/
def readMessage (c : ChildPid) (w : World) (p : Process) (f : Frame) : ReadStep → Option World
  | .openName =>
      match w.name with
      | none => some (w.set p { f with phase := .exited })
      | some b => some (w.set p { f with phase := .reading .truncate, object := b })
  | .truncate => some ((w.truncate f.object).set p { f with phase := .reading .map })
  | .map => some (w.set p { f with phase := .reading .comparePid })
  | .comparePid => (w.objects f.object).map fun m =>
      w.set p { f with phase := .reading (if m.pid = p.pid c then .unmapOld else .report) }
  | .unmapOld => some (w.set p { f with phase := .reading .unlinkOld })
  | .unlinkOld => some ({ w with name := none }.set p f.nextRound)
  | .report => (w.objects f.object).map fun _ => w.set p { f with phase := .reading .takeCounter }
  | .takeCounter => (w.objects f.object).map fun m =>
      w.set p { f with phase := .reading .unmap, value := m.counter }
  | .unmap => some (w.set p { f with phase := .reading .unlink })
  -- the function returns true, and the caller goes on with `write_message(pid, ++value)`
  | .unlink => some ({ w with name := none }.set p
      { f with phase := .writing .openName, value := f.value + 1 })

/-- A step of `write_message(pid, value)`. -/
def writeMessage (c : ChildPid) (w : World) (p : Process) (f : Frame) : WriteStep → Option World
  | .openName =>
      match w.name with
      | some b => some (w.set p { f with phase := .writing .truncate, object := b })
      | none => some (({ w with name := some w.next, next := w.next + 1 }.put w.next none).set p
          { f with phase := .writing .truncate, object := w.next })
  | .truncate => some ((w.truncate f.object).set p { f with phase := .writing .map })
  | .map => some (w.set p { f with phase := .writing .putPid })
  | .putPid => (w.objects f.object).map fun m =>
      (w.put f.object (some { m with pid := p.pid c })).set p { f with phase := .writing .putCounter }
  | .putCounter => (w.objects f.object).map fun m =>
      (w.put f.object (some { m with counter := f.value })).set p { f with phase := .writing .unmap }
  | .unmap => some ({ w with log := w.log ++ [f.value] }.set p f.nextRound)

/-- The next step of process `p`, if it can take one. -/
def step (c : ChildPid) (w : World) (p : Process) : Option World :=
  match (w.frame p).phase with
  | .reading r => readMessage c w p (w.frame p) r
  | .writing r => writeMessage c w p (w.frame p) r
  | .finished | .exited => none

/-- The message that can be read under the name. -/
def World.mail (w : World) : Option Message := w.name.bind w.objects

/-- The process is between two iterations of its loop, before the first or after the last. -/
def Phase.Outside (phase : Phase) : Prop := phase = .reading .openName ∨ phase = .finished

instance (phase : Phase) : Decidable phase.Outside := inferInstanceAs (Decidable (_ ∨ _))

/-- The calls take turns: a process starts `read_message` while the other is outside its loop body or
    before the last `munmap` of it, and not when the message is its own; and where both are before that
    `munmap`, the one whose object still has the name waits for the other. -/
def InTurn (c : ChildPid) (w : World) (p : Process) : Prop :=
  ((w.frame p).phase = .reading .openName →
    ((w.frame p.other).phase.Outside ∨ (w.frame p.other).phase = .writing .unmap) ∧
      ∀ m ∈ w.mail, m.pid ≠ p.pid c) ∧
  ((w.frame p).phase = .writing .unmap → (w.frame p.other).phase = .writing .unmap →
    w.name ≠ some (w.frame p).object)

instance (c : ChildPid) (w : World) (p : Process) : Decidable (InTurn c w p) :=
  inferInstanceAs (Decidable (_ ∧ _))

section Steps

variable {c : ChildPid} {w w' : World} {p q : Process} {f : Frame}

@[simp] theorem World.set_name (w : World) (p : Process) (f : Frame) : (w.set p f).name = w.name := rfl

@[simp] theorem World.set_objects (w : World) (p : Process) (f : Frame) :
    (w.set p f).objects = w.objects := rfl

@[simp] theorem World.set_log (w : World) (p : Process) (f : Frame) : (w.set p f).log = w.log := rfl

@[simp] theorem World.set_frame_self (w : World) (p : Process) (f : Frame) :
    (w.set p f).frame p = f := Function.update_self ..

@[simp] theorem World.set_frame_other (w : World) (p : Process) (f : Frame) :
    (w.set p f).frame p.other = w.frame p.other :=
  Function.update_of_ne (by cases p <;> decide) ..

@[simp] theorem World.put_name (w : World) (b : Nat) (m : Option Message) :
    (w.put b m).name = w.name := rfl

@[simp] theorem World.put_log (w : World) (b : Nat) (m : Option Message) :
    (w.put b m).log = w.log := rfl

@[simp] theorem World.put_frame (w : World) (b : Nat) (m : Option Message) :
    (w.put b m).frame = w.frame := rfl

@[simp] theorem World.put_objects_self (w : World) (b : Nat) (m : Option Message) :
    (w.put b m).objects b = m := Function.update_self ..

@[simp] theorem Process.other_other (p : Process) : p.other.other = p := by cases p <;> rfl

theorem Process.eq_or_other (p q : Process) : q = p ∨ q = p.other := by
  cases p <;> cases q <;> simp [Process.other]

/-! ## Where the counter is -/

/-- What the process whose turn it is knows: `n` is the last value written. -/
def Stage (c : ChildPid) (p : Process) (w : World) (f : Frame) (n : Int) : Prop :=
  match f.phase with
  | .reading .openName | .finished => ∃ b m, w.name = some b ∧ w.objects b = some m ∧ m.counter = n
  | .reading .truncate | .reading .map | .reading .comparePid | .reading .report
  | .reading .takeCounter => ∃ m, w.objects f.object = some m ∧ m.pid ≠ p.pid c ∧ m.counter = n
  | .reading .unmap | .reading .unlink => f.value = n
  | .reading .unmapOld | .reading .unlinkOld | .exited => False
  | .writing .openName => f.value = n + 1
  | .writing .truncate => w.name = some f.object ∧ f.value = n + 1
  | .writing .map | .writing .putPid | .writing .putCounter =>
      w.name = some f.object ∧ (w.objects f.object).isSome ∧ f.value = n + 1
  | .writing .unmap =>
      w.name = some f.object ∧ f.value = n + 1 ∧
        ∃ m, w.objects f.object = some m ∧ m.counter = n + 1

/-- The other process is outside its loop body, and this one knows where the counter is. -/
def Turn (c : ChildPid) (w : World) (p : Process) : Prop :=
  (w.frame p.other).phase.Outside ∧ Stage c p w (w.frame p) w.log.length

/-- The other process has stored the next value and is about to return; this one knows where that is. -/
def Ahead (c : ChildPid) (w : World) (p : Process) : Prop :=
  (w.frame p.other).phase = .writing .unmap ∧ (w.frame p.other).value = w.log.length + 1 ∧
    Stage c p w (w.frame p) (w.log.length + 1)

structure Invariant (c : ChildPid) (w : World) : Prop where
  counts : w.log = (List.range w.log.length).map fun k : Nat => (k : Int) + 1
  turn : ∃ p, Turn c w p ∨ Ahead c w p

/-- A step of `read_message` keeps the counter where the process can find it. -/
theorem readMessage_stage {n : Int} {r : ReadStep} (hphase : (w.frame p).phase = .reading r)
    (h : Stage c p w (w.frame p) n) (hturn : InTurn c w p)
    (hstep : readMessage c w p (w.frame p) r = some w') :
    w'.frame p.other = w.frame p.other ∧ w'.log = w.log ∧ Stage c p w' (w'.frame p) n := by
  unfold Stage at h
  cases r with
  | openName =>
      simp only [hphase] at h
      obtain ⟨b, m, hname, hm, hcount⟩ := h
      simp only [readMessage, hname, Option.some.injEq] at hstep
      subst hstep
      have hnew := (hturn.1 hphase).2 m (by simp [World.mail, hname, hm])
      exact ⟨by simp, rfl, by simpa [Stage] using ⟨m, hm, hnew, hcount⟩⟩
  | truncate =>
      simp only [hphase] at h
      obtain ⟨m, hm, hnew, hcount⟩ := h
      simp only [readMessage, Option.some.injEq] at hstep
      subst hstep
      exact ⟨by simp [World.truncate], rfl,
        by simpa [Stage, World.truncate, hm] using ⟨hnew, hcount⟩⟩
  | map | report =>
      simp only [hphase] at h
      obtain ⟨m, hm, hnew, hcount⟩ := h
      simp only [readMessage, hm, Option.map_some, Option.some.injEq] at hstep
      subst hstep
      exact ⟨by simp, rfl, by simpa [Stage] using ⟨m, hm, hnew, hcount⟩⟩
  | comparePid =>
      simp only [hphase] at h
      obtain ⟨m, hm, hnew, hcount⟩ := h
      simp only [readMessage, hm, Option.map_some, Option.some.injEq, if_neg hnew] at hstep
      subst hstep
      exact ⟨by simp, rfl, by simpa [Stage] using ⟨m, hm, hnew, hcount⟩⟩
  | takeCounter =>
      simp only [hphase] at h
      obtain ⟨m, hm, _, hcount⟩ := h
      simp only [readMessage, hm, Option.map_some, Option.some.injEq] at hstep
      subst hstep
      exact ⟨by simp, rfl, by simpa [Stage] using hcount⟩
  | unmap | unlink =>
      simp only [hphase] at h
      simp only [readMessage, Option.some.injEq] at hstep
      subst hstep
      exact ⟨by simp [World.set_frame_other], rfl, by simp [Stage, h]⟩
  | unmapOld | unlinkOld =>
      simp only [hphase] at h

/-- A step of `write_message` does too, and the last one leaves the next value in the mailbox. -/
theorem writeMessage_stage {n : Int} {r : WriteStep} (hphase : (w.frame p).phase = .writing r)
    (h : Stage c p w (w.frame p) n) (hstep : writeMessage c w p (w.frame p) r = some w') :
    w'.frame p.other = w.frame p.other ∧
      ((w'.log = w.log ∧ Stage c p w' (w'.frame p) n) ∨
        (r = .unmap ∧ w'.log = w.log ++ [n + 1] ∧ Stage c p w' (w'.frame p) (n + 1))) := by
  unfold Stage at h
  cases r with
  | openName =>
      simp only [hphase] at h
      cases hname : w.name with
      | none | some b =>
          simp only [writeMessage, hname, Option.some.injEq] at hstep
          subst hstep
          exact ⟨by simp, Or.inl ⟨rfl, by simp [Stage, hname, h]⟩⟩
  | truncate =>
      simp only [hphase] at h
      obtain ⟨hname, hvalue⟩ := h
      simp only [writeMessage, Option.some.injEq] at hstep
      subst hstep
      exact ⟨by simp [World.truncate], Or.inl ⟨rfl, by simp [Stage, World.truncate, hname, hvalue]⟩⟩
  | map =>
      simp only [hphase] at h
      simp only [writeMessage, Option.some.injEq] at hstep
      subst hstep
      exact ⟨by simp, Or.inl ⟨rfl, by simpa [Stage] using h⟩⟩
  | putPid | putCounter =>
      simp only [hphase] at h
      obtain ⟨hname, hsome, hvalue⟩ := h
      obtain ⟨m, hm⟩ := Option.isSome_iff_exists.1 hsome
      simp only [writeMessage, hm, Option.map_some, Option.some.injEq] at hstep
      subst hstep
      exact ⟨by simp, Or.inl ⟨rfl, by simp [Stage, hname, hvalue]⟩⟩
  | unmap =>
      simp only [hphase] at h
      obtain ⟨hname, hvalue, m, hm, hcount⟩ := h
      simp only [writeMessage, Option.some.injEq] at hstep
      subst hstep
      refine ⟨by simp, Or.inr ⟨rfl, by simp [hvalue], ?_⟩⟩
      have hmail : ∃ b m, w.name = some b ∧ w.objects b = some m ∧ m.counter = n + 1 :=
        ⟨_, m, hname, hm, hcount⟩
      by_cases hi : (w.frame p).i + 1 < rounds
      · simpa [Stage, Frame.nextRound, hi] using hmail
      · simpa [Stage, Frame.nextRound, hi] using hmail

theorem Stage.mailbox {n : Int} (h : Stage c p w f n) (hout : f.phase.Outside) :
    ∃ b m, w.name = some b ∧ w.objects b = some m ∧ m.counter = n := by
  rcases hout with hphase | hphase <;> simpa only [Stage, hphase] using h

theorem Stage.of_mailbox {n : Int} {b : Nat} {m : Message} (hname : w.name = some b)
    (hm : w.objects b = some m) (hcount : m.counter = n) (hout : f.phase.Outside) :
    Stage c p w f n := by
  rcases hout with hphase | hphase <;> simpa only [Stage, hphase] using ⟨b, m, hname, hm, hcount⟩

/-- What a process finds that begins while the other stands before its last `munmap`. -/
theorem Stage.ahead {n : Int} (h : Stage c q w f n) (hphase : f.phase = .writing .unmap) :
    f.value = n + 1 ∧ ∃ b m, w.name = some b ∧ w.objects b = some m ∧ m.counter = n + 1 := by
  simp only [Stage, hphase] at h
  obtain ⟨hname, hvalue, m, hm, hcount⟩ := h
  exact ⟨hvalue, _, m, hname, hm, hcount⟩

/-- Who can take an allowed step: the process whose turn it is, the one that is ahead of the other, or
    the one that only has to return from `write_message`. -/
theorem Invariant.turn_of (h : Invariant c w) (hok : InTurn c w p) (hstep : step c w p = some w') :
    Turn c w p ∨ Ahead c w p ∨ Ahead c w p.other := by
  obtain ⟨q, ⟨hout, hstage⟩ | hahead⟩ := h.turn
  · rcases q.eq_or_other p with rfl | rfl
    · exact Or.inl ⟨hout, hstage⟩
    · have hphase : (w.frame q.other).phase = .reading .openName := by
        refine hout.resolve_right fun hfin => ?_
        unfold Mailbox.step at hstep
        rw [hfin] at hstep
        cases hstep
      have hother := (hok.1 hphase).1
      unfold Turn Ahead
      rw [q.other_other] at hother ⊢
      rcases hother with hother | hlast
      · obtain ⟨b, m, hname, hm, hcount⟩ := hstage.mailbox hother
        exact Or.inl ⟨hother, Stage.of_mailbox hname hm hcount hout⟩
      · obtain ⟨hvalue, b, m, hname, hm, hcount⟩ := hstage.ahead hlast
        exact Or.inr (Or.inl ⟨hlast, hvalue, Stage.of_mailbox hname hm hcount hout⟩)
  · rcases q.eq_or_other p with rfl | rfl
    · exact Or.inr (Or.inl hahead)
    · rw [q.other_other]
      exact Or.inr (Or.inr hahead)

theorem Invariant.start : Invariant c start where
  counts := rfl
  turn := ⟨.parent, Or.inl ⟨Or.inl rfl, 0, ⟨-1, 0⟩, rfl, rfl, rfl⟩⟩

theorem counts_append {log : List Int}
    (h : log = (List.range log.length).map fun k : Nat => (k : Int) + 1) :
    log ++ [(log.length : Int) + 1]
      = (List.range (log ++ [(log.length : Int) + 1]).length).map fun k : Nat => (k : Int) + 1 := by
  rw [List.length_append, List.length_singleton, List.range_succ, List.map_append, ← h]
  rfl

/-- A step of a process that knows where the counter is. -/
theorem step_stage {n : Int} (hstage : Stage c p w (w.frame p) n) (hok : InTurn c w p)
    (hstep : step c w p = some w') : w'.frame p.other = w.frame p.other ∧
      ((w'.log = w.log ∧ Stage c p w' (w'.frame p) n) ∨
        ((w.frame p).phase = .writing .unmap ∧ w'.log = w.log ++ [n + 1] ∧
          Stage c p w' (w'.frame p) (n + 1))) := by
  unfold Mailbox.step at hstep
  cases hphase : (w.frame p).phase with
  | finished | exited =>
      rw [hphase] at hstep
      cases hstep
  | reading r =>
      simp only [hphase] at hstep
      obtain ⟨hother, hlog, hnext⟩ := readMessage_stage hphase hstage hok hstep
      exact ⟨hother, Or.inl ⟨hlog, hnext⟩⟩
  | writing r =>
      simp only [hphase] at hstep
      obtain ⟨hother, hnext⟩ := writeMessage_stage hphase hstage hstep
      exact ⟨hother, hnext.imp_right fun hlast => ⟨by rw [hlast.1], hlast.2⟩⟩

/-- The last `munmap` of a process that the other one is ahead of. -/
theorem Ahead.return_step (h : Ahead c w p.other) (hstep : step c w p = some w') :
    w'.log = w.log ++ [(w.log.length : Int) + 1] ∧ (w'.frame p).phase.Outside ∧
      Stage c p.other w' (w'.frame p.other) (w.log.length + 1) := by
  obtain ⟨hphase, hvalue, hstage⟩ := h
  rw [p.other_other] at hphase hvalue
  simp only [Mailbox.step, hphase, writeMessage, Option.some.injEq] at hstep
  subst hstep
  refine ⟨by simp [hvalue], ?_, by simpa [Stage] using hstage⟩
  by_cases hi : (w.frame p).i + 1 < rounds
  · exact Or.inl (by simp [Frame.nextRound, hi])
  · exact Or.inr (by simp [Frame.nextRound, hi])

theorem Invariant.after_step (h : Invariant c w) (hok : InTurn c w p)
    (hstep : step c w p = some w') : Invariant c w' := by
  rcases h.turn_of hok hstep with ⟨hout, hstage⟩ | ⟨hlast, hvalue, hstage⟩ | hahead
  · obtain ⟨hother, ⟨hlog, hnext⟩ | ⟨_, hlog, hnext⟩⟩ := step_stage hstage hok hstep
    · refine ⟨by rw [hlog]; exact h.counts, p, Or.inl ⟨by rwa [hother], ?_⟩⟩
      rwa [hlog]
    · refine ⟨by rw [hlog]; exact counts_append h.counts, p, Or.inl ⟨by rwa [hother], ?_⟩⟩
      rw [hlog, List.length_append, List.length_singleton]
      exact hnext
  · obtain ⟨hother, ⟨hlog, hnext⟩ | ⟨hphase, _, _⟩⟩ := step_stage hstage hok hstep
    · refine ⟨by rw [hlog]; exact h.counts, p, Or.inr ⟨by rwa [hother], ?_⟩⟩
      rw [hlog, hother]
      exact ⟨hvalue, hnext⟩
    · simp only [Stage, hphase] at hstage
      exact absurd hstage.1 (hok.2 hphase hlast)
  · obtain ⟨hlog, hout, hstage⟩ := hahead.return_step hstep
    refine ⟨by rw [hlog]; exact counts_append h.counts, p.other, Or.inl ⟨?_, ?_⟩⟩
    · rwa [p.other_other]
    · rw [hlog, List.length_append, List.length_singleton]
      exact hstage

/-- No process has left by `exit(1)`. -/
theorem Invariant.not_exited (h : Invariant c w) (p : Process) : (w.frame p).phase ≠ .exited := by
  have hcase : ∃ q n, Stage c q w (w.frame q) n ∧
      ((w.frame q.other).phase.Outside ∨ (w.frame q.other).phase = .writing .unmap) := by
    obtain ⟨q, ⟨hout, hstage⟩ | ⟨hlast, _, hstage⟩⟩ := h.turn
    · exact ⟨q, _, hstage, Or.inl hout⟩
    · exact ⟨q, _, hstage, Or.inr hlast⟩
  obtain ⟨q, n, hstage, hother⟩ := hcase
  intro hexit
  rcases q.eq_or_other p with rfl | rfl
  · simp only [Stage, hexit] at hstage
  · rw [hexit] at hother
    rcases hother with (hout | hout) | hout <;> cases hout

end Steps

/-! ## Runs -/

/-- No process has left by `exit(1)`, and the values written are 1, 2, 3 and so on. -/
structure Counts (w : World) : Prop where
  running : ∀ p, (w.frame p).phase ≠ .exited
  values : w.log = (List.range w.log.length).map fun k : Nat => (k : Int) + 1

/-- **While the calls take turns, the mailbox is never missing and every update arrives.** -/
theorem counts_in_turn (c : ChildPid) {w : World} (h : Interleaved (step c) (InTurn c) start w) :
    Counts w := by
  have hinv : Invariant c w :=
    Interleaved.induct h Invariant.start fun _ _ _ hw hok hstep => hw.after_step hok hstep
  exact ⟨hinv.not_exited, hinv.counts⟩

/-- The steps of the listed processes in turn, each of them allowed. -/
def schedule (c : ChildPid) (allowed : World → Process → Prop) [∀ w p, Decidable (allowed w p)]
    (ps : List Process) : Option World :=
  ps.foldlM (fun w p => if allowed w p then step c w p else none) start

/-- The parent takes its turn, then the child, which begins before the parent has returned. -/
theorem counts_in_turn_twice : ∃ w,
    Interleaved (step ⟨2, by decide⟩) (InTurn ⟨2, by decide⟩) start w ∧ w.log = [1, 2] ∧
      Counts w := by
  have hrun : (schedule ⟨2, by decide⟩ (InTurn ⟨2, by decide⟩)
      (List.replicate 13 .parent ++ List.replicate 3 .child ++ [.parent]
        ++ List.replicate 11 .child)).map World.log = some [1, 2] := by decide +kernel
  obtain ⟨w, hw, hlog⟩ := Option.map_eq_some_iff.1 hrun
  have hturns := Interleaved.of_schedule hw
  exact ⟨w, hturns, hlog, counts_in_turn _ hturns⟩

/-- Without turns: the child opens the name after the parent has unlinked it and before the parent has
    created it again; both processes read the first message; and the parent, alone, reads its own
    message and thereby unlinks the name. -/
theorem counts_out_of_turn :
    (∃ w, Interleaved (step ⟨2, by decide⟩) (fun _ _ => True) start w ∧
      (w.frame .child).phase = .exited ∧ ¬ Counts w) ∧
    (∃ w, Interleaved (step ⟨2, by decide⟩) (fun _ _ => True) start w ∧
      w.log = [1, 1] ∧ ¬ Counts w) ∧
    (∃ w, Interleaved (step ⟨2, by decide⟩) (fun _ _ => True) start w ∧
      (w.frame .child).phase = .reading .openName ∧ (w.frame .parent).phase = .exited ∧
        ¬ Counts w) := by
  refine ⟨?_, ?_, ?_⟩
  · have hrun : (schedule ⟨2, by decide⟩ (fun _ _ => True)
        (List.replicate 8 .parent ++ [.child])).map (fun w => (w.frame .child).phase)
          = some .exited := by decide +kernel
    obtain ⟨w, hw, hphase⟩ := Option.map_eq_some_iff.1 hrun
    exact ⟨w, Interleaved.of_schedule hw, hphase, fun h => h.running .child hphase⟩
  · have hrun : (schedule ⟨2, by decide⟩ (fun _ _ => True)
        (.child :: List.replicate 14 .parent ++ List.replicate 13 .child)).map World.log
          = some [1, 1] := by decide +kernel
    obtain ⟨w, hw, hlog⟩ := Option.map_eq_some_iff.1 hrun
    refine ⟨w, Interleaved.of_schedule hw, hlog, fun h => ?_⟩
    have hvalues := h.values
    rw [hlog] at hvalues
    exact absurd hvalues (by decide)
  · have hrun : (schedule ⟨2, by decide⟩ (fun _ _ => True) (List.replicate 21 .parent)).map
        (fun w => ((w.frame .child).phase, (w.frame .parent).phase))
          = some (.reading .openName, .exited) := by decide +kernel
    obtain ⟨w, hw, hphases⟩ := Option.map_eq_some_iff.1 hrun
    obtain ⟨hchild, hparent⟩ := Prod.mk.inj hphases
    exact ⟨w, Interleaved.of_schedule hw, hchild, hparent, fun h => h.running .parent hparent⟩

end LinuxSamples.Mailbox
