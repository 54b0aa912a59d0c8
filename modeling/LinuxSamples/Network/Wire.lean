import Mathlib.Tactic.Common

set_option autoImplicit false

/-! # Ordered transport without loss

A `Wire` is one direction of a stream connection: what was sent and not yet received, and whether
the sending side has closed. `send` appends, `recv` takes a prefix of any length, so the pieces that
are sent and the pieces that are received need not agree.

A `Transfer total` is the abstract account of moving `total` over a wire in pieces. That nothing is
lost, added or reordered on the way is a field of the structure. -/

namespace LinuxSamples.Network

variable {α : Type}

/-! ## Wires -/

structure Wire (α : Type) where
  flight : List α
  closed : Bool

namespace Wire

/-- A wire nothing was sent on. -/
def idle : Wire α := ⟨[], false⟩

def send (w : Wire α) (bs : List α) : Wire α := { w with flight := w.flight ++ bs }

def close (w : Wire α) : Wire α := { w with closed := true }

/-- `recv` into a buffer of the given size can return `n`: the length of a piece of what is in
    flight, or 0 when nothing is and nothing can follow. -/
def Gives (w : Wire α) (size n : Nat) : Prop :=
  if n = 0 then w.flight = [] ∧ w.closed = true else n ≤ size ∧ n ≤ w.flight.length

instance [DecidableEq α] (w : Wire α) (size n : Nat) : Decidable (w.Gives size n) :=
  inferInstanceAs (Decidable (if n = 0 then _ else _))

/-- The piece `recv` returns. -/
def piece (w : Wire α) (n : Nat) : List α := w.flight.take n

/-- The wire after `recv`. -/
def after (w : Wire α) (n : Nat) : Wire α := { w with flight := w.flight.drop n }

@[simp] theorem send_flight (w : Wire α) (bs : List α) : (w.send bs).flight = w.flight ++ bs := rfl
@[simp] theorem send_closed (w : Wire α) (bs : List α) : (w.send bs).closed = w.closed := rfl
@[simp] theorem close_flight (w : Wire α) : w.close.flight = w.flight := rfl
@[simp] theorem close_closed (w : Wire α) : w.close.closed = true := rfl
@[simp] theorem after_flight (w : Wire α) (n : Nat) : (w.after n).flight = w.flight.drop n := rfl
@[simp] theorem after_closed (w : Wire α) (n : Nat) : (w.after n).closed = w.closed := rfl

theorem gives_zero {w : Wire α} {size : Nat} :
    w.Gives size 0 ↔ w.flight = [] ∧ w.closed = true := by
  rw [Gives, if_pos rfl]

theorem gives_pos {w : Wire α} {size n : Nat} (hn : n ≠ 0) :
    w.Gives size n ↔ n ≤ size ∧ n ≤ w.flight.length := by
  rw [Gives, if_neg hn]

theorem Gives.piece_length {w : Wire α} {size n : Nat} (h : w.Gives size n) :
    (w.piece n).length = n := by
  by_cases hn : n = 0
  · subst hn
    simp [piece]
  · rw [gives_pos hn] at h
    rw [piece, List.length_take, Nat.min_eq_left h.2]

end Wire

/-! ## Transfers -/

/-- A transfer of `total` under way: what was received, what is in flight and what is still to be
    sent. -/
structure Transfer (total : List α) where
  got : List α
  flight : List α
  unsent : List α
  conserved : got ++ flight ++ unsent = total

namespace Transfer

variable {total : List α}

/-- Nothing was sent yet. -/
def start (total : List α) : Transfer total := ⟨[], [], total, rfl⟩

/-- The next `n` elements are sent. -/
def send (t : Transfer total) (n : Nat) : Transfer total where
  got := t.got
  flight := t.flight ++ t.unsent.take n
  unsent := t.unsent.drop n
  conserved := by
    rw [← List.append_assoc, List.append_assoc, List.take_append_drop]
    exact t.conserved

/-- The first `n` elements in flight are received. -/
def recv (t : Transfer total) (n : Nat) : Transfer total where
  got := t.got ++ t.flight.take n
  flight := t.flight.drop n
  unsent := t.unsent
  conserved := by
    rw [List.append_assoc t.got, List.take_append_drop]
    exact t.conserved

/-- **Fidelity.** When nothing is left to be sent and nothing is in flight, everything arrived. -/
theorem got_eq_total (t : Transfer total) (hsent : t.unsent = []) (harrived : t.flight = []) :
    t.got = total := by
  have h := t.conserved
  rwa [hsent, harrived, List.append_nil, List.append_nil] at h

end Transfer

end LinuxSamples.Network
