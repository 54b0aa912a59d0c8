import LinuxSamples.Socket.FileTransferInvariant

set_option autoImplicit false

/-! # Every session can end

Wherever a run stands, the server can be brought back to `accept` with an empty queue, and from
there every client that runs comes to the end of its stream. No step on the way needs another
assumption than those of the transfer. -/

namespace LinuxSamples.FileTransfer

open LinuxSamples.Program LinuxSamples.Memory LinuxSamples.Network LinuxSamples.Socket

variable {c : Setting} {w w₁ w₂ w' : World} {k : Nat}

/-- A run leads from `w` to `w'`, and no client ends in it. -/
structure Continues (c : Setting) (w w' : World) : Prop where
  reach : Reach (step c) (Assumed c) w w'
  active : ∀ j, (w.session j).phase.active → (w'.session j).phase.active

theorem Continues.refl : Continues c w w := ⟨Reach.start, fun _ h => h⟩

theorem Continues.trans (h : Continues c w w₁) (h' : Continues c w₁ w₂) : Continues c w w₂ :=
  ⟨h.reach.trans h'.reach, fun j hj => h'.active j (h.active j hj)⟩

theorem Continues.invariant (h : Continues c w w') (hinv : Invariant c w) : Invariant c w' :=
  h.reach.invariant hinv fun _ _ _ hinv hassumed hstep => hinv.step hassumed hstep

/-- A step in which one client goes on. -/
theorem Continues.one {a : Action} {s' : Session} (hassumed : Assumed c w a)
    (hstep : act c w a = .ok w') (hsession : w'.session = Function.update w.session k s')
    (hk : (w.session k).phase.active → s'.phase.active) : Continues c w w' := by
  refine ⟨Reach.one a hassumed (step_returns.2 hstep), fun j hj => ?_⟩
  rw [hsession]
  by_cases hjk : j = k
  · subst hjk
    rw [Function.update_self]
    exact hk hj
  · rwa [Function.update_of_ne hjk]

/-- A step of the server alone. -/
theorem Continues.still {a : Action} (hassumed : Assumed c w a) (hstep : act c w a = .ok w')
    (hsession : w'.session = w.session) : Continues c w w' :=
  ⟨Reach.one a hassumed (step_returns.2 hstep), fun j hj => by rwa [hsession]⟩

/-! ## The server comes back to `accept` -/

theorem sends_block {unread : Content} (hphase : w.server.phase = .sending k unread)
    (hne : unread ≠ []) : ∃ w', Continues c w w' ∧ w'.queue = w.queue ∧
      w'.server.phase = .sending k (unread.drop bufferSize) :=
  ⟨_, Continues.one (a := .sendBlock (some w.block.length)) rfl
    (sendBlock_ok.2 ⟨k, unread, hphase, hne, rfl⟩) rfl id, rfl, rfl⟩

theorem closes (hphase : w.server.phase = .closing k) :
    ∃ w', Continues c w w' ∧ w'.queue = w.queue ∧ w'.server.phase = .accepting :=
  ⟨_, Continues.one (a := .close) trivial (close_ok.2 ⟨k, hphase, rfl⟩) rfl id, rfl, rfl⟩

theorem ends_file (hphase : w.server.phase = .sending k []) :
    ∃ w', Continues c w w' ∧ w'.queue = w.queue ∧ w'.server.phase = .closing k :=
  ⟨_, Continues.still (a := .endOfFile) trivial (endOfFile_ok.2 ⟨k, hphase, rfl⟩) rfl, rfl, rfl⟩

/-- The server sends the rest of the file and closes the connection. -/
theorem sends_all (n : Nat) :
    ∀ (w : World) (unread : Content), unread.length ≤ n → w.server.phase = .sending k unread →
      ∃ w', Continues c w w' ∧ w'.queue = w.queue ∧ w'.server.phase = .accepting := by
  induction n with
  | zero =>
      intro w unread hlen hphase
      obtain rfl := List.length_eq_zero_iff.1 (Nat.le_zero.1 hlen)
      obtain ⟨w₁, heof, hqueue₁, hclosing⟩ := ends_file (c := c) hphase
      obtain ⟨w', hclose, hqueue, haccepting⟩ := closes (c := c) hclosing
      exact ⟨w', heof.trans hclose, hqueue.trans hqueue₁, haccepting⟩
  | succ n ih =>
      intro w unread hlen hphase
      by_cases hne : unread = []
      · subst hne
        exact ih w [] (Nat.zero_le n) hphase
      · obtain ⟨w₁, hblock, hqueue₁, hphase₁⟩ := sends_block (c := c) hphase hne
        have hshort : (unread.drop bufferSize).length ≤ n := by
          have hpos := List.length_pos_iff.2 hne
          have hsize : bufferSize = 1024 := rfl
          rw [List.length_drop]
          omega
        obtain ⟨w', hrest, hqueue, haccepting⟩ := ih w₁ _ hshort hphase₁
        exact ⟨w', hblock.trans hrest, hqueue.trans hqueue₁, haccepting⟩

/-- The client sends its request if it has not done so. -/
theorem requests (h : Invariant c w) (hword : (word (c.typed k)).length ≤ fileNameMaxSize)
    (hphase : w.server.phase = .accepted k) :
    ∃ w', Continues c w w' ∧ w'.queue = w.queue ∧ w'.server.phase = .accepted k ∧
      (w'.session k).up.flight = padded (requestedName c k) := by
  have hcurrent : w.server.phase.current = some (k, .pending) := by rw [hphase]; rfl
  rcases h.of_current hcurrent with ⟨_, ⟨hconnected, hup⟩ | ⟨_, _, _, hup⟩⟩
  · refine ⟨_, Continues.one (a := .request k bufferSize) rfl
      (request_ok.2 ⟨⟨hconnected, Nat.le_refl _⟩, hword, rfl⟩) rfl (fun _ => ?_), rfl, hphase, ?_⟩
    · show Phase.active .requested
      decide
    · rw [set_session_self, Session.requested, hup, ← padded_length (requestedName_length hword),
        List.take_length]
      rfl
  · exact ⟨w, Continues.refl, rfl, hphase, hup⟩

/-- The server reads the request. -/
theorem opens {name : Name} (hphase : w.server.phase = .accepted k) (htext : 0 ∉ name)
    (hfits : name.length ≤ fileNameMaxSize) (hup : (w.session k).up.flight = padded name) :
    ∃ w', Continues c w w' ∧ w'.queue = w.queue ∧
      (w'.server.phase = .closing k ∨ ∃ unread, w'.server.phase = .sending k unread) := by
  refine ⟨_, Continues.one (a := .serve (some bufferSize)) rfl
    (serve_eq hphase htext hfits hup) rfl id, rfl, ?_⟩
  cases c.files name with
  | none => exact Or.inl rfl
  | some content => exact Or.inr ⟨content, rfl⟩

/-- The server finishes the session it is busy with. -/
theorem accepts_again (h : Invariant c w)
    (hword : ∀ j, (word (c.typed j)).length ≤ fileNameMaxSize) :
    ∃ w', Continues c w w' ∧ w'.queue = w.queue ∧ w'.server.phase = .accepting := by
  cases hphase : w.server.phase with
  | accepting => exact ⟨w, Continues.refl, rfl, hphase⟩
  | closing k => exact closes hphase
  | sending k unread => exact sends_all _ w unread (Nat.le_refl _) hphase
  | accepted k =>
      obtain ⟨w₁, hcont₁, hqueue₁, hphase₁, hup₁⟩ := requests h (hword k) hphase
      obtain ⟨w₂, hcont₂, hqueue₂, hphase₂⟩ := opens (c := c) hphase₁ (zero_notMem_cstring _)
        (requestedName_length (hword k)) hup₁
      have hlast : ∃ w', Continues c w₂ w' ∧ w'.queue = w₂.queue ∧
          w'.server.phase = .accepting := by
        rcases hphase₂ with hclosing | ⟨unread, hsending⟩
        · exact closes hclosing
        · exact sends_all _ w₂ unread (Nat.le_refl _) hsending
      obtain ⟨w₃, hcont₃, hqueue₃, haccepting⟩ := hlast
      exact ⟨w₃, (hcont₁.trans hcont₂).trans hcont₃, hqueue₃.trans (hqueue₂.trans hqueue₁),
        haccepting⟩

/-- All connections are served. -/
theorem serves_all (hword : ∀ j, (word (c.typed j)).length ≤ fileNameMaxSize) (queue : List Nat) :
    ∀ w, Invariant c w → w.queue = queue →
      ∃ w', Continues c w w' ∧ w'.queue = [] ∧ w'.server.phase = .accepting := by
  induction queue with
  | nil =>
      intro w h hqueue
      obtain ⟨w', hcont, hqueue', haccepting⟩ := accepts_again h hword
      exact ⟨w', hcont, hqueue'.trans hqueue, haccepting⟩
  | cons k rest ih =>
      intro w h hqueue
      obtain ⟨w₁, hcont₁, hqueue₁, haccepting₁⟩ := accepts_again h hword
      have haccept := Continues.still (c := c) (a := .accept) trivial
        (accept_ok.2 ⟨haccepting₁, k, rest, hqueue₁.trans hqueue, rfl⟩) rfl
      have hcont₂ := hcont₁.trans haccept
      obtain ⟨w', hcont₃, hqueue', haccepting⟩ := ih _ (hcont₂.invariant h) rfl
      exact ⟨w', hcont₂.trans hcont₃, hqueue', haccepting⟩

/-! ## The client comes to the end of its stream -/

/-- A client whose connection was closed. -/
structure Draining (w : World) (k : Nat) : Prop where
  phase : (w.session k).phase = .receiving
  named : ∃ name, scanString (w.session k).file_name = .ok name
  closed : (w.session k).down.closed = true

theorem drains_byte (h : Draining w k) (hflight : (w.session k).down.flight ≠ []) :
    ∃ w', Reach (step c) (Assumed c) w w' ∧ Draining w' k ∧
      (w'.session k).down.flight = (w.session k).down.flight.drop 1 := by
  have hgives : (w.session k).down.Gives bufferSize 1 :=
    (Wire.gives_pos (by decide)).2 ⟨by decide, List.length_pos_iff.2 hflight⟩
  obtain ⟨name, hname⟩ := h.named
  refine ⟨_, Reach.one (.receive k (some 1)) (Option.some_ne_none 1) (step_returns.2
    ((receive_chunk_ok (by decide)).2 ⟨h.phase, hgives, name, hname, rfl⟩)), ⟨?_, ?_, ?_⟩, ?_⟩
  · rw [store_session, set_session_self]
    exact h.phase
  · rw [store_session, set_session_self]
    exact h.named
  · rw [store_session, set_session_self]
    exact h.closed
  · rw [store_session, set_session_self, Wire.after_flight]

theorem drains (n : Nat) :
    ∀ w, (w.session k).down.flight.length ≤ n → Draining w k →
      ∃ w', Reach (step c) (Assumed c) w w' ∧ Draining w' k ∧ (w'.session k).down.flight = [] := by
  induction n with
  | zero => exact fun w hlen h => ⟨w, Reach.start, h, List.length_eq_zero_iff.1 (Nat.le_zero.1 hlen)⟩
  | succ n ih =>
      intro w hlen h
      by_cases hflight : (w.session k).down.flight = []
      · exact ⟨w, Reach.start, h, hflight⟩
      · obtain ⟨w₁, hreach₁, h₁, hflight₁⟩ := drains_byte (c := c) h hflight
        obtain ⟨w', hreach, hdrained⟩ := ih w₁ (by
          rw [hflight₁, List.length_drop]
          omega) h₁
        exact ⟨w', hreach₁.trans hreach, hdrained⟩

/-- **Every session can end.** Where names of at most 512 bytes are typed in, a client that runs can
    always come to the end of its stream. -/
theorem session_can_end (hword : ∀ j, (word (c.typed j)).length ≤ fileNameMaxSize)
    (h : Invariant c w) (hactive : (w.session k).phase.active) :
    ∃ w₁ w₂, Reach (step c) (Assumed c) w w₁ ∧
      Returns (step c (.receive k (some 0))) w₁ () w₂ := by
  obtain ⟨w₁, hcont, hqueue, haccepting⟩ := serves_all hword w.queue w h rfl
  have hinv := hcont.invariant h
  have haway : w₁.service k = .away :=
    service_of_accepting (by rw [hqueue]; exact List.not_mem_nil) haccepting
  have hfollows := hinv.follows k
  rw [haway] at hfollows
  -- the connection was closed
  obtain ⟨hmoving, hclosed⟩ : Moving (requestedName c k) (c.files (requestedName c k))
      (copyOf c w₁ k) (w₁.session k) [] ∧ (w₁.session k).down.closed = true := by
    have hactive₁ := hcont.active k hactive
    rcases hfollows with hfresh | hfinished | hmoving
    · rw [hfresh] at hactive₁
      exact absurd rfl hactive₁.1
    · exact absurd hfinished hactive₁.2
    · exact hmoving
  obtain ⟨hname, got, hstored, _⟩ := hmoving
  have hdraining : ∃ w₂, Reach (step c) (Assumed c) w₁ w₂ ∧ Draining w₂ k := by
    rcases hstored with ⟨hrequested, _⟩ | ⟨hreceiving, _⟩
    · refine ⟨_, Reach.one (.openFile k true) rfl
        (step_returns.2 (openFile_ok.2 ⟨hrequested, _, hname, rfl⟩)), ?_⟩
      refine ⟨?_, ?_, ?_⟩
      · rw [store_session, set_session_self]
      · rw [store_session, set_session_self]
        exact ⟨_, hname⟩
      · rw [store_session, set_session_self]
        exact hclosed
    · exact ⟨w₁, Reach.start, hreceiving, ⟨_, hname⟩, hclosed⟩
  obtain ⟨w₂, hreach₂, hdraining⟩ := hdraining
  obtain ⟨w₃, hreach₃, hdrained, hempty⟩ := drains (c := c) _ w₂ (Nat.le_refl _) hdraining
  exact ⟨w₃, _, (hcont.reach.trans hreach₂).trans hreach₃, step_returns.2
    (receive_end_ok.2 ⟨hdrained.phase, ⟨hempty, hdrained.closed⟩, rfl⟩)⟩

end LinuxSamples.FileTransfer
