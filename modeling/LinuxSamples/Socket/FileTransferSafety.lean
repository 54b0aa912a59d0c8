import LinuxSamples.Socket.FileTransferInvariant

set_option autoImplicit false

/-! # No step of the file transfer faults

The reads and writes of the two programs stay inside their buffers: a request of full length holds
the terminator that `strlen` looks for, and what is sent or written to a file was stored before. -/

namespace LinuxSamples.FileTransfer

open LinuxSamples.Program LinuxSamples.Memory LinuxSamples.Network LinuxSamples.Socket

variable {c : Setting} {w : World} {k : Nat}

/-- The step goes through or is blocked. -/
def Safe {β : Type} (x : Except Stop β) : Prop := ∀ f, x ≠ .error (.fault f)

theorem Safe.pure {β : Type} (b : β) : Safe (Pure.pure b : Except Stop β) := fun _ h => by cases h

theorem Safe.blocked {β : Type} : Safe (.error .blocked : Except Stop β) := fun _ h => by cases h

theorem Safe.awaits {β : Type} {p : Prop} [Decidable p] {f : Unit → Except Stop β}
    (h : p → Safe (f ())) : Safe (awaits p >>= f) := by
  unfold FileTransfer.awaits
  split
  · next hp => exact h hp
  · exact Safe.blocked

theorem Safe.compute {β γ : Type} {x : Except Fault β} {b : β} {f : β → Except Stop γ}
    (hx : x = .ok b) (h : Safe (f b)) : Safe (compute x >>= f) := by
  rwa [compute_bind_ok hx]

theorem Safe.recv {β : Type} {wire : Wire UInt8} {n : Nat}
    {f : List UInt8 × Wire UInt8 → Except Stop β}
    (h : wire.Gives bufferSize n → Safe (f (wire.piece n, wire.after n))) :
    Safe (recv wire (some n) >>= f) := by
  show Safe ((FileTransfer.awaits (wire.Gives bufferSize n) >>= fun _ =>
    Pure.pure (wire.piece n, wire.after n)) >>= f)
  rw [bind_assoc]
  exact Safe.awaits fun hgives => h hgives

theorem request_safe (hword : (word (c.typed k)).length ≤ fileNameMaxSize) (n : Nat) :
    Safe (request c w k n) := by
  have hsize := Nat.le_trans (requestedName_length hword) (by decide : _ ≤ bufferSize)
  refine Safe.awaits fun _ => Safe.compute (scanf_ok.2 ⟨hword, rfl⟩) ?_
  exact Safe.compute (copyName_eq (scanString_typedName _) hsize hsize)
    (Safe.compute written_padded (Safe.pure _))

theorem openFile_safe (h : Invariant c w) (opened : Bool) : Safe (openFile c w k opened) := by
  refine Safe.awaits fun hphase => ?_
  have hphase' : (w.session k).phase = .requested := hphase
  refine Safe.compute ((h.follows k).named (by rw [hphase']; decide) (by rw [hphase']; decide)) ?_
  split
  · exact Safe.pure _
  · exact Safe.pure _

theorem receive_safe (h : Invariant c w) (n : Option Nat) : Safe (receive c w k n) := by
  refine Safe.awaits fun hphase => ?_
  have hphase' : (w.session k).phase = .receiving := hphase
  cases n with
  | none => exact Safe.pure _
  | some n =>
      refine Safe.awaits fun hgives => ?_
      split
      · exact Safe.pure _
      · have hpiece := written_filled (w.session k).buffer ((w.session k).down.piece n)
        rw [hgives.piece_length] at hpiece
        exact Safe.compute ((h.follows k).named (by rw [hphase']; decide) (by rw [hphase']; decide))
          (Safe.compute hpiece (Safe.pure _))

theorem accept_safe : Safe (accept w) := by
  unfold accept
  split
  · exact Safe.pure _
  · exact Safe.blocked

theorem serve_safe (h : Invariant c w) : Safe (serve c w (some bufferSize)) := by
  cases hphase : w.server.phase with
  | accepted k =>
      have hcurrent : w.server.phase.current = some (k, .pending) := by rw [hphase]; rfl
      have hpending : Pending _ _ _ := h.of_current hcurrent
      by_cases hlen : bufferSize ≤ (w.session k).up.flight.length
      · obtain ⟨_, _, hfits, hup⟩ := hpending.request hlen
        rw [serve_eq hphase (zero_notMem_cstring _) hfits hup]
        exact Safe.pure _
      · -- the server waits for the request
        unfold serve
        rw [hphase]
        exact Safe.recv fun hgives => absurd ((Wire.gives_pos (by decide)).1 hgives).2 hlen
  | accepting =>
      unfold serve
      rw [hphase]
      exact Safe.blocked
  | sending k unread =>
      unfold serve
      rw [hphase]
      exact Safe.blocked
  | closing k =>
      unfold serve
      rw [hphase]
      exact Safe.blocked

theorem sendBlock_safe (n : Option Nat) : Safe (sendBlock w n) := by
  unfold sendBlock
  split
  · refine Safe.awaits fun _ => Safe.compute (written_filled _ _) ?_
    cases n with
    | none => exact Safe.pure _
    | some n => exact Safe.awaits fun _ => Safe.pure _
  · exact Safe.blocked

theorem endOfFile_safe : Safe (endOfFile w) := by
  unfold endOfFile
  split
  · exact Safe.pure _
  · exact Safe.blocked

theorem close_safe : Safe (close w) := by
  unfold close
  split
  · exact Safe.pure _
  · exact Safe.blocked

/-- **Memory safety.** Where names of at most 512 bytes are typed in, no step reads or writes past
    the end of an array or reads a byte that was never written. -/
theorem Invariant.safe (h : Invariant c w)
    (hword : ∀ j, (word (c.typed j)).length ≤ fileNameMaxSize) {a : Action}
    (hassumed : Assumed c w a) : Safe (act c w a) := by
  cases a with
  | connect k => exact Safe.awaits fun _ => Safe.pure _
  | request k n => exact request_safe (hword k) n
  | openFile k opened => exact openFile_safe h opened
  | receive k n => exact receive_safe h n
  | accept => exact accept_safe
  | serve n =>
      obtain rfl : n = some bufferSize := hassumed
      exact serve_safe h
  | sendBlock n => exact sendBlock_safe n
  | endOfFile => exact endOfFile_safe
  | close => exact close_safe

end LinuxSamples.FileTransfer
