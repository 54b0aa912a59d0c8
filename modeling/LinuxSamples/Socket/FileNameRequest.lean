import LinuxSamples.Socket.FileTransferCorrect

set_option autoImplicit false

/-! # The request for a file name

The client sends its request in one block of 1024 bytes, and the server reads it with one `recv`,
which may return any beginning of the block. The name that is opened is what this beginning holds of
the name that was asked for. -/

namespace LinuxSamples.FileTransfer

open LinuxSamples.Program LinuxSamples.Memory LinuxSamples.Network LinuxSamples.Socket

variable {c : Setting} {w w' : World} {k : Nat}

/-! ## Requests on their way -/

/-- The requests are sent whole. All else may happen: calls that fail, chunks of any length. -/
def SentWhole (_ : World) : Action → Prop
  | .request _ n => n = bufferSize
  | _ => True

/-- A client that has sent its request, running or not. -/
def Phase.asked (phase : Phase) : Prop := phase ≠ .absent ∧ phase ≠ .connected

/-- The connection is queued, or the server waits for its request. -/
def World.awaited (w : World) (k : Nat) : Prop := k ∈ w.queue ∨ w.server.phase = .accepted k

/-- The server has read nothing from the session. -/
def Unread (c : Setting) (k : Nat) (s : Session) : Prop :=
  s.phase = .connected ∧ s.up.flight = [] ∨
    s.phase.asked ∧ s.up.flight = padded (requestedName c k) ∧
      (requestedName c k).length ≤ fileNameMaxSize

theorem Unread.congr {s s' : Session} (h : Unread c k s) (hphase : s'.phase = s.phase)
    (hup : s'.up = s.up) : Unread c k s' := by
  rwa [Unread, hphase, hup]

/-- Every connection that is queued or just accepted holds the whole request, or nothing. -/
structure Waiting (c : Setting) (w : World) : Prop where
  nodup : w.queue.Nodup
  accepted : ∀ k, w.server.phase = .accepted k → k ∉ w.queue ∧ w.server.buffer = zeros bufferSize
  absent : ∀ k, (w.session k).phase = .absent → (w.session k).up.flight = [] ∧ ¬ w.awaited k
  unread : ∀ k, w.awaited k → Unread c k (w.session k)

theorem Waiting.start (c : Setting) (disk : Nat → Name → Option Content) :
    Waiting c (start disk) where
  nodup := List.nodup_nil
  accepted k h := by cases h
  absent k _ := ⟨rfl, fun h => by rcases h with h | h <;> cases h⟩
  unread k h := by rcases h with h | h <;> cases h

theorem set_session_of_ne {j : Nat} (hj : j ≠ k) (s : Session) :
    (w.set k s).session j = w.session j := Function.update_of_ne hj ..

/-! ## What the steps keep -/

/-- A step of client `k` after it has connected. -/
theorem Waiting.client (h : Waiting c w) {s : Session} (hqueue : w'.queue = w.queue)
    (hserver : w'.server = w.server) (hsession : w'.session = (w.set k s).session)
    (hs : s.phase ≠ .absent) (hunread : Unread c k (w.session k) → Unread c k s) :
    Waiting c w' where
  nodup := by
    rw [hqueue]
    exact h.nodup
  accepted j hj := by
    rw [hserver] at hj ⊢
    rw [hqueue]
    exact h.accepted j hj
  absent j hj := by
    rw [World.awaited, hqueue, hserver]
    rw [hsession] at hj ⊢
    by_cases hjk : j = k
    · subst hjk
      rw [set_session_self] at hj
      exact absurd hj hs
    · rw [set_session_of_ne hjk] at hj ⊢
      exact h.absent j hj
  unread j hj := by
    rw [World.awaited, hqueue, hserver] at hj
    rw [hsession]
    by_cases hjk : j = k
    · subst hjk
      rw [set_session_self]
      exact hunread (h.unread j hj)
    · rw [set_session_of_ne hjk]
      exact h.unread j hj

/-- A step of the server after which it does not wait for a request. -/
theorem Waiting.served (h : Waiting c w) (hqueue : w'.queue = w.queue)
    (hserver : ∀ j, w'.server.phase ≠ .accepted j)
    (hphase : ∀ j, (w'.session j).phase = (w.session j).phase)
    (hup : ∀ j, w.server.phase ≠ .accepted j → (w'.session j).up = (w.session j).up) :
    Waiting c w' where
  nodup := by
    rw [hqueue]
    exact h.nodup
  accepted j hj := absurd hj (hserver j)
  absent j hj := by
    rw [hphase] at hj
    obtain ⟨hflight, hnot⟩ := h.absent j hj
    rw [hup j fun haccepted => hnot (Or.inr haccepted)]
    refine ⟨hflight, ?_⟩
    rintro (hmem | haccepted)
    · rw [hqueue] at hmem
      exact hnot (Or.inl hmem)
    · exact hserver j haccepted
  unread j hj := by
    have hmem : j ∈ w.queue := by
      rw [← hqueue]
      exact hj.resolve_right (hserver j)
    have hnot : w.server.phase ≠ .accepted j := fun haccepted => (h.accepted j haccepted).1 hmem
    exact (h.unread j (Or.inl hmem)).congr (hphase j) (hup j hnot)

theorem Waiting.connect (h : Waiting c w) (hstep : connect w k = .ok w') : Waiting c w' := by
  obtain ⟨hphase, rfl⟩ := connect_ok.1 hstep
  obtain ⟨hflight, hnot⟩ := h.absent k hphase
  refine ⟨?_, fun j hj => ?_, fun j hj => ?_, fun j hj => ?_⟩
  · refine List.nodup_append.2 ⟨h.nodup, List.pairwise_singleton _ k, ?_⟩
    rintro j hj _ hk rfl
    rw [List.mem_singleton] at hk
    subst hk
    exact hnot (Or.inl hj)
  · obtain ⟨hqueue, hbuffer⟩ := h.accepted j hj
    refine ⟨fun hmem => ?_, hbuffer⟩
    rcases List.mem_append.1 hmem with hmem | hmem
    · exact hqueue hmem
    · rw [List.mem_singleton] at hmem
      subst hmem
      exact hnot (Or.inr hj)
  · by_cases hjk : j = k
    · subst hjk
      have hj' : ((w.set j { w.session j with phase := .connected }).session j).phase = .absent := hj
      rw [set_session_self] at hj'
      cases hj'
    · have hj' : ((w.set k { w.session k with phase := .connected }).session j).phase = .absent := hj
      rw [set_session_of_ne hjk] at hj'
      obtain ⟨hflight', hnot'⟩ := h.absent j hj'
      refine ⟨?_, ?_⟩
      · show ((w.set k _).session j).up.flight = []
        rw [set_session_of_ne hjk]
        exact hflight'
      · rintro (hmem | haccepted)
        · rcases List.mem_append.1 hmem with hmem | hmem
          · exact hnot' (Or.inl hmem)
          · exact hjk (List.mem_singleton.1 hmem)
        · exact hnot' (Or.inr haccepted)
  · show Unread c j ((w.set k _).session j)
    by_cases hjk : j = k
    · subst hjk
      rw [set_session_self]
      exact Or.inl ⟨rfl, hflight⟩
    · rw [set_session_of_ne hjk]
      refine h.unread j (hj.imp_left fun hmem => ?_)
      exact (List.mem_append.1 hmem).resolve_right fun hk => hjk (List.mem_singleton.1 hk)

theorem Waiting.accept (h : Waiting c w) (hstep : accept w = .ok w') : Waiting c w' := by
  obtain ⟨hphase, k, rest, hqueue, rfl⟩ := accept_ok.1 hstep
  have hnodup := h.nodup
  rw [hqueue, List.nodup_cons] at hnodup
  have hawaited : ∀ j, j ∈ rest ∨ ServerPhase.accepted k = .accepted j → w.awaited j := by
    rintro j (hj | hj)
    · exact Or.inl (hqueue ▸ List.mem_cons_of_mem k hj)
    · cases hj
      exact Or.inl (hqueue ▸ List.mem_cons_self)
  refine ⟨hnodup.2, fun j hj => ?_, fun j hj => ?_, fun j hj => h.unread j (hawaited j hj)⟩
  · cases hj
    exact ⟨hnodup.1, rfl⟩
  · obtain ⟨hflight, hnot⟩ := h.absent j hj
    exact ⟨hflight, fun haw => hnot (hawaited j haw)⟩

theorem Waiting.request (h : Waiting c w) (hstep : request c w k bufferSize = .ok w') :
    Waiting c w' := by
  obtain ⟨⟨hphase, _⟩, hword, rfl⟩ := request_ok.1 hstep
  have hfits := requestedName_length hword
  refine h.client rfl rfl rfl (by simp [Session.requested]) fun hunread => Or.inr ?_
  rcases hunread with ⟨_, hflight⟩ | ⟨hasked, _⟩
  · refine ⟨by simp [Session.requested, Phase.asked], ?_, hfits⟩
    rw [Session.requested, Wire.send_flight, hflight, List.nil_append, ← padded_length hfits,
      List.take_length]
  · exact absurd hphase hasked.2

/-- A step of a client that has sent its request. -/
theorem Waiting.downloading (h : Waiting c w) {s : Session} (hqueue : w'.queue = w.queue)
    (hserver : w'.server = w.server) (hsession : w'.session = (w.set k s).session)
    (hasked : s.phase.asked) (hbefore : (w.session k).phase ≠ .connected)
    (hup : s.up.flight = (w.session k).up.flight) : Waiting c w' := by
  refine h.client hqueue hserver hsession hasked.1 ?_
  rintro (⟨hphase, _⟩ | ⟨_, hflight, hfits⟩)
  · exact absurd hphase hbefore
  · exact Or.inr ⟨hasked, hup.trans hflight, hfits⟩

theorem Waiting.openFile {opened : Bool} (h : Waiting c w)
    (hstep : openFile c w k opened = .ok w') : Waiting c w' := by
  cases opened with
  | true =>
      obtain ⟨hphase, name, _, rfl⟩ := openFile_ok.1 hstep
      exact h.downloading rfl rfl rfl (by simp [Phase.asked]) (by simp [hphase]) rfl
  | false =>
      obtain ⟨hphase, _, rfl⟩ := openFile_refused_ok.1 hstep
      exact h.downloading rfl rfl rfl (by simp [Phase.asked]) (by simp [hphase]) rfl

theorem Waiting.receive {n : Option Nat} (h : Waiting c w) (hstep : receive c w k n = .ok w') :
    Waiting c w' := by
  rcases n with _ | _ | n
  · obtain ⟨hphase, rfl⟩ := receive_failed_ok.1 hstep
    exact h.downloading rfl rfl rfl (by simp [Phase.asked]) (by simp [hphase]) rfl
  · obtain ⟨hphase, _, rfl⟩ := receive_end_ok.1 hstep
    exact h.downloading rfl rfl rfl (by simp [Phase.asked]) (by simp [hphase]) rfl
  · obtain ⟨hphase, _, name, _, rfl⟩ := (receive_chunk_ok (Nat.succ_ne_zero n)).1 hstep
    exact h.downloading rfl rfl rfl (by simp [Phase.asked, hphase]) (by simp [hphase]) rfl

theorem Waiting.serves (h : Waiting c w) (hstep : Serves w w') : Waiting c w' := by
  obtain ⟨k, wire, server, hbefore, hafter, rfl⟩ := hstep
  have hsession : ∀ j, ((w.set k { w.session k with down := wire }).session j).phase
      = (w.session j).phase ∧ ((w.set k { w.session k with down := wire }).session j).up
      = (w.session j).up := by
    intro j
    by_cases hjk : j = k
    · subst hjk
      rw [set_session_self]
      exact ⟨rfl, rfl⟩
    · rw [set_session_of_ne hjk]
      exact ⟨rfl, rfl⟩
  exact h.served rfl hafter (fun j => (hsession j).1) fun j _ => (hsession j).2

theorem Waiting.serve {n : Option Nat} (h : Waiting c w) (hstep : serve c w n = .ok w') :
    Waiting c w' := by
  obtain ⟨k, up, server, hbefore, hserver, rfl⟩ := serve_reads hstep
  have hafter : ∀ j, server.phase ≠ .accepted j := by
    rcases hserver with hclosing | ⟨_, hsending⟩
    · simp [hclosing]
    · simp [hsending]
  refine h.served rfl hafter (fun j => ?_) fun j hj => ?_
  · show ((w.set k _).session j).phase = _
    by_cases hjk : j = k
    · subst hjk
      rw [set_session_self]
    · rw [set_session_of_ne hjk]
  · have hjk : j ≠ k := by
      rintro rfl
      exact hj hbefore
    show ((w.set k _).session j).up = _
    rw [set_session_of_ne hjk]

/-- **In every run** whose requests are sent whole, they wait whole. -/
theorem Waiting.of_reach {disk : Nat → Name → Option Content}
    (hreach : Reach (step c) SentWhole (FileTransfer.start disk) w) : Waiting c w := by
  refine hreach.invariant (Waiting.start c disk) fun w w' a h hsent hret => ?_
  have hstep := step_returns.1 hret
  cases a with
  | connect k => exact h.connect hstep
  | request k n =>
      obtain rfl : n = bufferSize := hsent
      exact h.request hstep
  | openFile k opened => exact h.openFile hstep
  | receive k n => exact h.receive hstep
  | accept => exact h.accept hstep
  | serve n => exact h.serve hstep
  | sendBlock n => exact h.serves (sendBlock_serves hstep)
  | endOfFile => exact h.serves (endOfFile_serves hstep)
  | close => exact h.serves (close_serves hstep)

/-! ## What the server opens -/

/-- NULs in front of zeros make no difference. -/
theorem filled_zeros_append {name : Name} {size m : Nat} (h : name.length + m ≤ size) :
    filled (zeros size) (name ++ List.replicate m 0) = filled (zeros size) name := by
  rw [filled_zeros, filled_zeros, List.map_append, List.append_assoc, List.map_replicate, zeros,
    zeros, List.length_append, List.length_replicate, List.replicate_append_replicate]
  congr 2
  omega

/-- A buffer that holds a beginning of a request holds a beginning of the name. -/
theorem filled_request (name : Name) {n : Nat} (hn : n ≤ bufferSize) :
    filled (zeros bufferSize) ((padded name).take n) = filled (zeros bufferSize) (name.take n) := by
  have hlen : (name.take n).length ≤ n := List.length_take_le ..
  rw [padded, List.take_append, List.take_replicate, filled_zeros_append]
  rw [List.length_take]
  omega

/-- **What the server opens** after a `recv` of `n` bytes: the first `n` bytes of the name. -/
theorem serve_opens {name : Name} {n : Nat} (hphase : w.server.phase = .accepted k)
    (hbuffer : w.server.buffer = zeros bufferSize) (htext : 0 ∉ name)
    (hfits : name.length ≤ fileNameMaxSize) (hup : (w.session k).up.flight = padded name)
    (hgives : (w.session k).up.Gives bufferSize n) (hn : n ≠ 0) :
    ∃ w', serve c w (some n) = .ok w' ∧ scanString w'.server.file_name = .ok (name.take n) := by
  have htake : 0 ∉ name.take n := fun hmem => htext (List.mem_of_mem_take hmem)
  have hlen : (name.take n).length ≤ fileNameMaxSize := by
    rw [List.length_take]
    omega
  have hbytes : filled w.server.buffer ((w.session k).up.piece n)
      = filled (zeros bufferSize) (name.take n) := by
    rw [Wire.piece, hup, hbuffer, filled_request name ((Wire.gives_pos hn).1 hgives).1]
  have hread : scanString (filled (zeros (fileNameMaxSize + 1)) (name.take n))
      = .ok (name.take n) := scanString_filled htake (Nat.lt_succ_of_le hlen)
  have hcopy : copyName (fileNameMaxSize + 1) fileNameMaxSize
      (filled w.server.buffer ((w.session k).up.piece n))
      = .ok (filled (zeros (fileNameMaxSize + 1)) (name.take n)) := by
    rw [hbytes]
    exact copyName_eq (scanString_filled htake (Nat.lt_of_le_of_lt hlen (by decide))) hlen
      (Nat.le_succ_of_le hlen)
  refine ⟨{ w.set k { w.session k with up := (w.session k).up.after n } with
    server := (c.files (name.take n)).elim
      ⟨.closing k, filled (zeros bufferSize) (name.take n),
        filled (zeros (fileNameMaxSize + 1)) (name.take n)⟩
      fun content => ⟨.sending k content, zeros bufferSize,
        filled (zeros (fileNameMaxSize + 1)) (name.take n)⟩ }, ?_, ?_⟩
  · unfold serve
    rw [hphase]
    refine recv_bind.2 ⟨hgives, ?_⟩
    show (compute (copyName _ _ _) >>= _) = _
    rw [compute_bind_ok hcopy, compute_bind_ok hread, hbytes]
    cases c.files (name.take n) with
    | none => rfl
    | some content => rfl
  · cases c.files (name.take n) with
    | none => exact hread
    | some content => exact hread

/-- **The request.** In every run, and whatever piece of the request the server's `recv` returns: the
    server opens the file that client `k` asks for exactly when the piece holds the whole name. -/
theorem file_name_requested (c : Setting) (disk : Nat → Name → Option Content) (w : World)
    (hreach : Reach (step c) SentWhole (start disk) w) (k : Nat) (name : FileName)
    (htyped : c.typed k = name.bytes ++ [10]) (hphase : w.server.phase = .accepted k) (n : Nat)
    (hn : n ≠ 0) (hgives : (w.session k).up.Gives bufferSize n) :
    ∃ w', serve c w (some n) = .ok w' ∧
      (scanString w'.server.file_name = .ok name.bytes ↔ name.bytes.length ≤ n) := by
  have hwaiting := Waiting.of_reach hreach
  have hname := requestedName_typed htyped
  have hflight : (w.session k).up.flight = padded name.bytes := by
    rcases hwaiting.unread k (Or.inr hphase) with ⟨_, hflight⟩ | ⟨_, hflight, _⟩
    · have hlen := ((Wire.gives_pos hn).1 hgives).2
      rw [hflight] at hlen
      exact absurd (Nat.le_zero.1 hlen) hn
    · rwa [hname] at hflight
  obtain ⟨w', hserve, hopened⟩ := serve_opens (c := c) hphase (hwaiting.accepted k hphase).2
    name.textual name.fits hflight hgives hn
  refine ⟨w', hserve, ?_⟩
  rw [hopened, Except.ok.injEq]
  constructor
  · intro htake
    rw [← htake]
    exact List.length_take_le ..
  · exact fun hlen => List.take_of_length_le hlen

/-- A client connects, sends its request and is accepted. -/
theorem request_accepted (c : Setting) (disk : Nat → Name → Option Content) (k : Nat)
    (name : FileName) (htyped : c.typed k = name.bytes ++ [10]) :
    ∃ w, Reach (step c) SentWhole (start disk) w ∧ w.server.phase = .accepted k ∧
      (w.session k).up.flight = padded name.bytes := by
  have hname := requestedName_typed htyped
  have hword : (word (c.typed k)).length ≤ fileNameMaxSize := by
    rw [htyped, word_typed]
    exact name.fits
  let w₁ : World := { (start disk).set k { fresh with phase := .connected } with queue := [k] }
  have hsession : w₁.session k = { fresh with phase := .connected } := set_session_self _
  let w₂ : World := w₁.set k ((w₁.session k).requested c k bufferSize)
  let w₃ : World := { w₂ with
    queue := [], server := { w₂.server with phase := .accepted k, buffer := zeros bufferSize } }
  have h₁ : act c (start disk) (.connect k) = .ok w₁ := connect_ok.2 ⟨rfl, rfl⟩
  have h₂ : act c w₁ (.request k bufferSize) = .ok w₂ :=
    request_ok.2 ⟨⟨by rw [hsession], Nat.le_refl _⟩, hword, rfl⟩
  have h₃ : act c w₂ .accept = .ok w₃ := (accept_ok (w := w₂)).2 ⟨rfl, k, [], rfl, rfl⟩
  refine ⟨w₃, ?_, rfl, ?_⟩
  · have hconnected : Reach (step c) SentWhole (start disk) w₁ :=
      Reach.one (.connect k) trivial (step_returns.2 h₁)
    have hrequested := hconnected.trans (Reach.one (.request k bufferSize) rfl (step_returns.2 h₂))
    exact hrequested.trans (Reach.one .accept trivial (step_returns.2 h₃))
  · show ((w₁.set k ((w₁.session k).requested c k bufferSize)).session k).up.flight = _
    rw [set_session_self, hsession, Session.requested, hname, ← padded_length name.fits,
      List.take_length]
    rfl

/-- Every client asks for the file "ab", which the server does not have. -/
def abSetting : Setting := ⟨fun _ => none, fun _ => [97, 98, 10], fun k => k⟩

def abName : FileName :=
  ⟨[97, 98], by decide, by decide, by decide, by simp [isspace]⟩

/-- `recv` returns two bytes. -/
theorem file_name_requested_whole : ∃ w w',
    Reach (step abSetting) SentWhole (start fun _ _ => none) w ∧ serve abSetting w (some 2) = .ok w' ∧
      scanString w'.server.file_name = .ok [97, 98] := by
  obtain ⟨w, hreach, hphase, hup⟩ := request_accepted abSetting (fun _ _ => none) 0 abName rfl
  have hgives : (w.session 0).up.Gives bufferSize 2 := by
    rw [Wire.gives_pos (by decide), hup, padded_length abName.fits]
    exact ⟨by decide, by decide⟩
  obtain ⟨w', hserve, hiff⟩ :=
    file_name_requested abSetting _ w hreach 0 abName rfl hphase 2 (by decide) hgives
  exact ⟨w, w', hreach, hserve, hiff.2 (by decide)⟩

/-- `recv` returns one byte, and the server opens the file "a". -/
theorem file_name_requested_cut : ∃ w w',
    Reach (step abSetting) SentWhole (start fun _ _ => none) w ∧ abSetting.typed 0 = [97, 98, 10] ∧
      w.server.phase = .accepted 0 ∧ serve abSetting w (some 1) = .ok w' ∧
      scanString w'.server.file_name = .ok [97] := by
  obtain ⟨w, hreach, hphase, hup⟩ := request_accepted abSetting (fun _ _ => none) 0 abName rfl
  have hgives : (w.session 0).up.Gives bufferSize 1 := by
    rw [Wire.gives_pos (by decide), hup, padded_length abName.fits]
    exact ⟨by decide, by decide⟩
  have hwaiting := Waiting.of_reach hreach
  obtain ⟨w', hserve, hopened⟩ := serve_opens (c := abSetting) hphase
    (hwaiting.accepted 0 hphase).2 abName.textual abName.fits hup hgives (by decide)
  exact ⟨w, w', hreach, rfl, hphase, hserve, hopened⟩

end LinuxSamples.FileTransfer
