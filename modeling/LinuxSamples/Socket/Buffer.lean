import LinuxSamples.Memory.CString

set_option autoImplicit false

/-! # Buffers on the stack

The samples receive into, send from and copy between `char` arrays of `main`. They hold slots as the
arrays of the heap do: `none` is a byte that was never written. -/

namespace LinuxSamples.Socket

open LinuxSamples.Program LinuxSamples.Memory

/-- An array of the given size whose bytes were never written. -/
def unset (size : Nat) : List (Option UInt8) := List.replicate size none

/-- An array after `bzero` or `memset(.., 0, ..)` over its whole size. -/
def zeros (size : Nat) : List (Option UInt8) := List.replicate size (some 0)

/-- `buf` after `recv`, `fread` or `scanf` has stored bytes at its front. -/
def filled (buf : List (Option UInt8)) (bytes : List UInt8) : List (Option UInt8) :=
  splice buf 0 (bytes.map some)

/-- The values of bytes that all were written. -/
def written : List (Option UInt8) → Except Fault (List UInt8)
  | [] => .ok []
  | none :: _ => .error .unwritten
  | some b :: rest => do
      let bs ← written rest
      return b :: bs

theorem filled_eq (buf : List (Option UInt8)) (bytes : List UInt8) :
    filled buf bytes = bytes.map some ++ buf.drop bytes.length := by
  simp [filled, splice]

theorem written_map (bs : List UInt8) : written (bs.map some) = .ok bs := by
  induction bs with
  | nil => rfl
  | cons b bs ih =>
      rw [List.map_cons, written, ih]
      rfl

/-- What was stored at the front of a buffer is what is sent or written from there. -/
theorem written_filled (buf : List (Option UInt8)) (bytes : List UInt8) :
    written ((filled buf bytes).take bytes.length) = .ok bytes := by
  rw [filled_eq, List.take_left' (List.length_map ..), written_map]

end LinuxSamples.Socket
