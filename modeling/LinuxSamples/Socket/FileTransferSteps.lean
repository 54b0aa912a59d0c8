import LinuxSamples.Socket.FileTransfer

set_option autoImplicit false

/-! # What the steps of the file transfer do

For every action one lemma that says when the step goes through and what it does then. -/

namespace LinuxSamples.FileTransfer

open LinuxSamples.Program LinuxSamples.Memory LinuxSamples.Network LinuxSamples.Socket

variable {c : Setting} {w w' : World} {k : Nat}

/-! ## Runs -/

theorem step_returns {a : Action} : Returns (step c a) w () w' ↔ act c w a = .ok w' := by
  show step c a w = _ ↔ _
  unfold step
  split
  · next w₁ h => rw [h, EStateM.Result.ok.injEq, Except.ok.injEq, eq_self, true_and]
  · next stop h =>
      rw [h]
      exact iff_of_false (fun hret => by cases hret) (fun hret => by cases hret)

theorem returned {β : Type} {a b : β} : (pure a : Except Stop β) = .ok b ↔ a = b :=
  ⟨Except.ok.inj, congrArg _⟩

theorem awaits_bind {β : Type} {p : Prop} [Decidable p] {f : Unit → Except Stop β} {b : β} :
    (awaits p >>= f) = .ok b ↔ p ∧ f () = .ok b := by
  unfold awaits
  split
  · next hp => exact ⟨fun h => ⟨hp, h⟩, fun h => h.2⟩
  · next hp => exact ⟨fun h => (by cases h), fun h => absurd h.1 hp⟩

theorem compute_bind {β γ : Type} {x : Except Fault β} {f : β → Except Stop γ} {r : γ} :
    (compute x >>= f) = .ok r ↔ ∃ b, x = .ok b ∧ f b = .ok r := by
  cases x with
  | ok b =>
      refine ⟨fun h => ⟨b, rfl, h⟩, ?_⟩
      rintro ⟨b', hb, h⟩
      cases hb
      exact h
  | error e =>
      refine ⟨fun h => (by cases h), ?_⟩
      rintro ⟨b, hb, _⟩
      cases hb

theorem compute_bind_ok {β γ : Type} {x : Except Fault β} {b : β} (hx : x = .ok b)
    (f : β → Except Stop γ) : (compute x >>= f) = f b := by
  rw [hx]
  rfl

/-! ## Updates -/

@[simp] theorem set_queue (s : Session) : (w.set k s).queue = w.queue := rfl
@[simp] theorem set_server (s : Session) : (w.set k s).server = w.server := rfl
@[simp] theorem set_disk (s : Session) : (w.set k s).disk = w.disk := rfl
@[simp] theorem set_session_self (s : Session) : (w.set k s).session k = s :=
  Function.update_self ..

variable (directory : Nat) (name : Name) (content : Content)

@[simp] theorem store_queue : (w.store directory name content).queue = w.queue := rfl
@[simp] theorem store_server : (w.store directory name content).server = w.server := rfl
@[simp] theorem store_session : (w.store directory name content).session = w.session := rfl
@[simp] theorem store_disk_self :
    (w.store directory name content).disk directory name = some content := by
  simp [World.store]
theorem store_disk_of_ne {d : Nat} (hd : d ≠ directory) :
    (w.store directory name content).disk d = w.disk d := Function.update_of_ne hd ..

/-! ## File names -/

variable {name}

/-- The request for a file. -/
def padded (name : Name) : List UInt8 := name ++ List.replicate (bufferSize - name.length) 0

/-- A name at the front of an array of zeros. -/
theorem filled_zeros (size : Nat) :
    filled (zeros size) name = name.map some ++ zeros (size - name.length) := by
  rw [filled_eq, zeros, List.drop_replicate, zeros]

theorem scanString_filled {size : Nat} (htext : 0 ∉ name) (hlen : name.length < size) :
    scanString (filled (zeros size) name) = .ok name := by
  rw [filled_zeros, zeros, show size - name.length = size - name.length - 1 + 1 by omega,
    List.replicate_succ]
  exact scanString_textual htext _

theorem padded_length (hfits : name.length ≤ fileNameMaxSize) :
    (padded name).length = bufferSize := by
  have hle : name.length ≤ bufferSize := Nat.le_trans hfits (by decide)
  rw [padded, List.length_append, List.length_replicate, Nat.add_sub_cancel' hle]

theorem written_padded : written (filled (zeros bufferSize) name) = .ok (padded name) := by
  rw [filled_zeros, zeros, ← List.map_replicate, ← List.map_append]
  exact written_map (padded name)

/-- The array that holds the word typed in. -/
def typedName (typed : List UInt8) : List (Option UInt8) :=
  filled (zeros (fileNameMaxSize + 1)) (word typed ++ [0])

theorem scanf_ok {typed : List UInt8} {file_name : List (Option UInt8)} :
    scanf typed = .ok file_name ↔
      (word typed).length ≤ fileNameMaxSize ∧ typedName typed = file_name := by
  unfold scanf
  split
  · next hlen => exact ⟨fun h => ⟨hlen, Except.ok.inj h⟩, fun h => congrArg _ h.2⟩
  · next hlen => exact ⟨fun h => (by cases h), fun h => absurd h.1 hlen⟩

theorem scanString_typedName (typed : List UInt8) :
    scanString (typedName typed) = .ok (cstring (word typed)) := by
  rw [typedName, filled_eq, List.map_append, List.append_assoc]
  exact scanString_eq ..

/-- A name within the limits is copied whole. -/
theorem copyName_eq {size limit : Nat} {src : List (Option UInt8)}
    (hsrc : scanString src = .ok name) (hlimit : name.length ≤ limit) (hsize : name.length ≤ size) :
    copyName size limit src = .ok (filled (zeros size) name) := by
  rw [copyName, hsrc]
  show (if (if name.length > limit then limit else name.length) ≤ size then _ else _) = _
  rw [if_neg (Nat.not_lt.2 hlimit), if_pos hsize, List.take_length]
  rfl

/-! ## The steps of a client -/

theorem connect_ok : connect w k = .ok w' ↔ (w.session k).phase = .absent ∧
    { w.set k { w.session k with phase := .connected } with queue := w.queue ++ [k] } = w' := by
  unfold connect
  rw [awaits_bind]
  exact and_congr_right fun _ => returned

/-- The name of the file that client `k` asks for. -/
def requestedName (c : Setting) (k : Nat) : Name := cstring (word (c.typed k))

theorem requestedName_length (h : (word (c.typed k)).length ≤ fileNameMaxSize) :
    (requestedName c k).length ≤ fileNameMaxSize :=
  Nat.le_trans (List.takeWhile_prefix _).length_le h

/-- A session whose request was sent. -/
def Session.requested (s : Session) (c : Setting) (k n : Nat) : Session :=
  { s with
    phase := .requested, file_name := typedName (c.typed k),
    buffer := filled (zeros bufferSize) (requestedName c k),
    up := s.up.send ((padded (requestedName c k)).take n) }

theorem request_ok {n : Nat} : request c w k n = .ok w' ↔
    ((w.session k).phase = .connected ∧ n ≤ bufferSize) ∧
      (word (c.typed k)).length ≤ fileNameMaxSize ∧
        w.set k ((w.session k).requested c k n) = w' := by
  unfold request
  rw [awaits_bind, compute_bind]
  refine and_congr_right fun _ => ?_
  simp only [scanf_ok]
  constructor
  · rintro ⟨_, ⟨hword, rfl⟩, h⟩
    have hsize := Nat.le_trans (requestedName_length hword) (by decide : _ ≤ bufferSize)
    rw [compute_bind_ok (copyName_eq (scanString_typedName _) hsize hsize),
      compute_bind_ok written_padded] at h
    exact ⟨hword, Except.ok.inj h⟩
  · rintro ⟨hword, rfl⟩
    have hsize := Nat.le_trans (requestedName_length hword) (by decide : _ ≤ bufferSize)
    refine ⟨_, ⟨hword, rfl⟩, ?_⟩
    rw [compute_bind_ok (copyName_eq (scanString_typedName _) hsize hsize),
      compute_bind_ok written_padded]
    rfl

theorem openFile_ok : openFile c w k true = .ok w' ↔ (w.session k).phase = .requested ∧
    ∃ name, scanString (w.session k).file_name = .ok name ∧
      (w.set k { w.session k with phase := .receiving, buffer := zeros bufferSize }).store
        (c.directory k) name [] = w' := by
  unfold openFile
  rw [awaits_bind, compute_bind]
  exact and_congr_right fun _ => exists_congr fun name => and_congr_right fun _ => returned

/-- `recv` returns 0. -/
theorem receive_end_ok : receive c w k (some 0) = .ok w' ↔ (w.session k).phase = .receiving ∧
    ((w.session k).down.flight = [] ∧ (w.session k).down.closed = true) ∧
      w.set k { w.session k with phase := .finished, up := (w.session k).up.close } = w' := by
  unfold receive
  rw [awaits_bind]
  refine and_congr_right fun _ => ?_
  show (awaits _ >>= _) = _ ↔ _
  rw [awaits_bind, Wire.gives_zero]
  exact and_congr_right fun _ => returned

/-- `recv` returns a chunk. -/
theorem receive_chunk_ok {n : Nat} (hn : n ≠ 0) : receive c w k (some n) = .ok w' ↔
    (w.session k).phase = .receiving ∧ (w.session k).down.Gives bufferSize n ∧
      ∃ name, scanString (w.session k).file_name = .ok name ∧
        (w.set k { w.session k with
            buffer := zeros bufferSize, down := (w.session k).down.after n }).store
          (c.directory k) name
          ((w.disk (c.directory k) name).getD [] ++ (w.session k).down.piece n) = w' := by
  unfold receive
  rw [awaits_bind]
  refine and_congr_right fun _ => ?_
  show (awaits _ >>= _) = _ ↔ _
  rw [awaits_bind]
  refine and_congr_right fun hgives => ?_
  rw [if_neg hn, compute_bind]
  refine exists_congr fun name => and_congr_right fun _ => ?_
  have hpiece := written_filled (w.session k).buffer ((w.session k).down.piece n)
  rw [hgives.piece_length] at hpiece
  rw [compute_bind_ok hpiece]
  exact returned

/-! ## The steps of the server -/

theorem accept_ok : accept w = .ok w' ↔ w.server.phase = .accepting ∧
    ∃ k rest, w.queue = k :: rest ∧
      { w with
        queue := rest
        server := { w.server with phase := .accepted k, buffer := zeros bufferSize } } = w' := by
  unfold accept
  split
  · next k rest hphase hqueue =>
      constructor
      · intro h
        exact ⟨hphase, k, rest, hqueue, Except.ok.inj h⟩
      · rintro ⟨_, k', rest', hqueue', rfl⟩
        rw [hqueue] at hqueue'
        cases hqueue'
        rfl
  · next hno =>
      constructor
      · intro h
        cases h
      · rintro ⟨hphase, k, rest, hqueue, _⟩
        exact absurd hqueue (hno k rest hphase)

theorem recv_bind {wire : Wire UInt8} {n : Nat}
    {f : List UInt8 × Wire UInt8 → Except Stop World} : (recv wire (some n) >>= f) = .ok w' ↔
      wire.Gives bufferSize n ∧ f (wire.piece n, wire.after n) = .ok w' := by
  show ((awaits (wire.Gives bufferSize n) >>= fun _ => pure (wire.piece n, wire.after n)) >>= f)
    = _ ↔ _
  rw [bind_assoc, awaits_bind, pure_bind]

/-- The name of a file, read from a buffer that holds its request. -/
theorem scanString_request {name : Name} (htext : 0 ∉ name) (hfits : name.length ≤ fileNameMaxSize)
    (buffer : List (Option UInt8)) : scanString (filled buffer (padded name)) = .ok name := by
  have hlt : name.length < bufferSize := Nat.lt_of_le_of_lt hfits (by decide)
  rw [filled_eq, padded, show bufferSize - name.length = bufferSize - name.length - 1 + 1 by omega,
    List.replicate_succ, List.map_append, List.append_assoc]
  exact scanString_textual htext _

/-- The server after it has tried to open the file. -/
def Server.opened (server : Server) (k : Nat) (name : Name) : Option Content → Server
  | none => ⟨.closing k, filled server.buffer (padded name),
      filled (zeros (fileNameMaxSize + 1)) name⟩
  | some content => ⟨.sending k content, zeros bufferSize, filled (zeros (fileNameMaxSize + 1)) name⟩

/-- The server waits for a whole request. -/
theorem serve_inv (h : serve c w (some bufferSize) = .ok w') :
    ∃ k, w.server.phase = .accepted k ∧ bufferSize ≤ (w.session k).up.flight.length := by
  unfold serve at h
  split at h
  · next k hphase => exact ⟨k, hphase, ((Wire.gives_pos (by decide)).1 (recv_bind.1 h).1).2⟩
  · cases h

/-- `recv` returns a whole request. -/
theorem serve_eq {name : Name} (hphase : w.server.phase = .accepted k) (htext : 0 ∉ name)
    (hfits : name.length ≤ fileNameMaxSize) (hup : (w.session k).up.flight = padded name) :
    serve c w (some bufferSize)
      = .ok { w.set k { w.session k with up := (w.session k).up.after bufferSize } with
          server := w.server.opened k name (c.files name) } := by
  have hpiece : (w.session k).up.piece bufferSize = padded name := by
    rw [Wire.piece, hup, ← padded_length hfits, List.take_length]
  unfold serve
  rw [hphase]
  refine recv_bind.2 ⟨(Wire.gives_pos (by decide)).2 ⟨Nat.le_refl _, ?_⟩, ?_⟩
  · rw [hup, padded_length hfits]
  · rw [hpiece]
    show (compute (copyName _ _ _) >>= _) = _
    rw [compute_bind_ok
      (copyName_eq (scanString_request htext hfits _) hfits (Nat.le_succ_of_le hfits)),
      compute_bind_ok (scanString_filled htext (Nat.lt_succ_of_le hfits))]
    cases c.files name with
    | none => rfl
    | some content => rfl

theorem block_of_sending {unread : Content} (hphase : w.server.phase = .sending k unread) :
    w.block = unread.take bufferSize := by
  unfold World.block
  rw [hphase]

/-- `send` accepts the whole block. -/
theorem sendBlock_ok : sendBlock w (some w.block.length) = .ok w' ↔
    ∃ k unread, w.server.phase = .sending k unread ∧ unread ≠ [] ∧
      { w.set k { w.session k with
          down := (w.session k).down.send (unread.take bufferSize) } with
        server := { w.server with
          phase := .sending k (unread.drop bufferSize), buffer := zeros bufferSize } } = w' := by
  unfold sendBlock
  split
  · next k unread hphase =>
      rw [block_of_sending hphase, awaits_bind, compute_bind_ok (written_filled _ _)]
      show _ ∧ (awaits _ >>= _) = _ ↔ _
      rw [awaits_bind, List.take_length]
      constructor
      · rintro ⟨hblock, _, h⟩
        refine ⟨k, unread, hphase, ?_, Except.ok.inj h⟩
        rintro rfl
        exact absurd hblock (by decide)
      · rintro ⟨k', unread', hphase', hne, rfl⟩
        rw [hphase] at hphase'
        cases hphase'
        refine ⟨?_, Nat.le_refl _, rfl⟩
        rw [List.length_take]
        exact Nat.lt_min.2 ⟨by decide, List.length_pos_iff.2 hne⟩
  · next hno =>
      constructor
      · intro h
        cases h
      · rintro ⟨k, unread, hphase, _⟩
        exact absurd hphase (hno k unread)

theorem endOfFile_ok : endOfFile w = .ok w' ↔ ∃ k, w.server.phase = .sending k [] ∧
    { w with server := { w.server with phase := .closing k } } = w' := by
  refine ok_iff (fun k hphase => ?_) fun hno => ?_
  · rw [endOfFile, hphase]
  · unfold endOfFile
    split
    · next k hphase => exact absurd hphase (hno k)
    · exact ⟨_, rfl⟩

theorem close_ok : close w = .ok w' ↔ ∃ k, w.server.phase = .closing k ∧
    { w.set k { w.session k with down := (w.session k).down.close } with
      server := { w.server with phase := .accepting } } = w' := by
  refine ok_iff (fun k hphase => ?_) fun hno => ?_
  · rw [close, hphase]
  · unfold close
    split
    · next k hphase => exact absurd hphase (hno k)
    · exact ⟨_, rfl⟩

/-! ## Steps that may fail -/

/-- `fopen` fails. -/
theorem openFile_refused_ok : openFile c w k false = .ok w' ↔ (w.session k).phase = .requested ∧
    (∃ name, scanString (w.session k).file_name = .ok name) ∧
      w.set k { w.session k with phase := .finished, up := (w.session k).up.close } = w' := by
  unfold openFile
  rw [awaits_bind, compute_bind]
  refine and_congr_right fun _ => ?_
  constructor
  · rintro ⟨name, hname, h⟩
    exact ⟨⟨name, hname⟩, returned.1 h⟩
  · rintro ⟨⟨name, hname⟩, h⟩
    exact ⟨name, hname, returned.2 h⟩

/-- `recv` returns -1. -/
theorem receive_failed_ok : receive c w k none = .ok w' ↔ (w.session k).phase = .receiving ∧
    w.set k { w.session k with phase := .finished, up := (w.session k).up.close } = w' := by
  unfold receive
  rw [awaits_bind]
  exact and_congr_right fun _ => returned

/-- The server turns from one phase to another, neither of which waits for a request, and may move
    bytes to one client or close its connection. -/
def Serves (w w' : World) : Prop := ∃ k wire server, (∀ j, w.server.phase ≠ .accepted j) ∧
  (∀ j, server.phase ≠ .accepted j) ∧
  w' = { w.set k { w.session k with down := wire } with server := server }

theorem set_self (w : World) (k : Nat) : w.set k (w.session k) = w := by
  rw [World.set, Function.update_eq_self]

theorem sendBlock_serves {n : Option Nat} (h : sendBlock w n = .ok w') : Serves w w' := by
  unfold sendBlock at h
  split at h
  · next k unread hphase =>
      rw [awaits_bind, compute_bind_ok (written_filled _ _)] at h
      obtain ⟨_, h⟩ := h
      have hbefore : ∀ j, w.server.phase ≠ .accepted j := by simp [hphase]
      cases n with
      | none =>
          cases h
          refine ⟨k, (w.session k).down, _, hbefore, ?_, by rw [set_self]⟩
          simp
      | some n =>
          obtain ⟨_, h⟩ := awaits_bind.1 h
          cases h
          refine ⟨k, _, _, hbefore, ?_, rfl⟩
          simp
  · cases h

theorem endOfFile_serves (h : endOfFile w = .ok w') : Serves w w' := by
  obtain ⟨k, hphase, rfl⟩ := endOfFile_ok.1 h
  refine ⟨k, (w.session k).down, _, by simp [hphase], ?_, by rw [set_self]⟩
  simp

theorem close_serves (h : close w = .ok w') : Serves w w' := by
  obtain ⟨k, hphase, rfl⟩ := close_ok.1 h
  refine ⟨k, _, _, by simp [hphase], ?_, rfl⟩
  simp

/-- The server reads from one client, and has then opened the file, or not. -/
theorem serve_reads {n : Option Nat} (h : serve c w n = .ok w') :
    ∃ k up server, w.server.phase = .accepted k ∧
      (server.phase = .closing k ∨ ∃ content, server.phase = .sending k content) ∧
        w' = { w.set k { w.session k with up := up } with server := server } := by
  unfold serve at h
  split at h
  · next k hphase =>
      obtain ⟨r, _, h⟩ := ok_of_bind h
      obtain ⟨file_name, _, h⟩ := compute_bind.1 h
      obtain ⟨name, _, h⟩ := compute_bind.1 h
      refine ⟨k, r.2, w'.server, hphase, ?_⟩
      split at h
      · cases h
        exact ⟨Or.inl rfl, rfl⟩
      · next content _ =>
          cases h
          exact ⟨Or.inr ⟨content, rfl⟩, rfl⟩
  · cases h

end LinuxSamples.FileTransfer
