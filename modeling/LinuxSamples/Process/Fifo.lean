import Mathlib.Tactic.Common

set_option autoImplicit false

/-! # Named pipes

A `Fifo` has one reading and one writing process, each of which opens it, uses it and closes it. An
`open` comes back when the other end has been opened too, or is being opened. A `write` to a pipe
without a reader breaks; a `read` of an empty pipe waits as long as there is a writer, and then finds
the end of the file. Messages are written and read whole: they are shorter than what a pipe takes in
one piece, and the reader asks for as much as one. -/

namespace LinuxSamples.Process

variable {α : Type}

/-- One end of a pipe, as far as its process has come. -/
inductive End
  | unopened
  /-- It is waiting in `open`. -/
  | opening
  | opened
  | closed
  deriving DecidableEq, Repr

/-- There is a process at this end. -/
def End.Present (e : End) : Prop := e = .opening ∨ e = .opened

instance (e : End) : Decidable e.Present := inferInstanceAs (Decidable (_ ∨ _))

structure Fifo (α : Type) where
  reader : End
  writer : End
  queue : List α
  deriving DecidableEq, Repr

/-- What a `write` does. -/
inductive Written (α : Type)
  /-- It waits for room. -/
  | waits
  /-- There is no reader. -/
  | broken
  | done (p : Fifo α)

/-- What a `read` does. -/
inductive Taken (α : Type)
  /-- It waits for a message. -/
  | waits
  /-- There is no message and no writer. -/
  | endOfFile
  | message (a : α) (p : Fifo α)

namespace Fifo

/-- After `mkfifo`. -/
def made : Fifo α := ⟨.unopened, .unopened, []⟩

/-- `write` of one message to a pipe with room for `room` messages. -/
def write (room : Nat) (p : Fifo α) (a : α) : Written α :=
  if p.reader.Present then
    if p.queue.length < room then .done { p with queue := p.queue ++ [a] } else .waits
  else .broken

/-- `read` of one message. -/
def read (p : Fifo α) : Taken α :=
  match p.queue with
  | a :: rest => .message a { p with queue := rest }
  | [] => if p.writer.Present then .waits else .endOfFile

theorem write_done {room : Nat} {p : Fifo α} (hreader : p.reader.Present)
    (hroom : p.queue.length < room) (a : α) :
    p.write room a = .done { p with queue := p.queue ++ [a] } := by
  rw [write, if_pos hreader, if_pos hroom]

theorem read_message {p : Fifo α} {a : α} {rest : List α} (h : p.queue = a :: rest) :
    p.read = .message a { p with queue := rest } := by
  rw [read, h]

theorem read_waits {p : Fifo α} (h : p.queue = []) (hwriter : p.writer.Present) :
    p.read = .waits := by
  rw [read, h]
  exact if_pos hwriter

end Fifo

end LinuxSamples.Process
