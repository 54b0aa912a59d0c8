import LinuxSamples.Socket.FileTransferSteps

set_option autoImplicit false

/-! # Every session follows the server

A session is an abstract transfer of the file's content: what the client has stored, what is in
flight to it and what the server has not read yet are at every moment the content of the file. The
invariant ties each session to such a transfer, from the moment the server opens the file to the
moment the client sees the end of the stream. -/

namespace LinuxSamples.FileTransfer

open LinuxSamples.Program LinuxSamples.Memory LinuxSamples.Network LinuxSamples.Socket

variable {c : Setting} {w w' : World} {k : Nat}

/-! ## What the server is doing for a session -/

inductive Service
  /-- The request was not read yet: the connection is queued or just accepted. -/
  | pending
  | sending (unread : Content)
  | closing
  /-- There is no connection, or the server has closed it. -/
  | away

/-- The session the server is busy with. -/
def ServerPhase.current : ServerPhase → Option (Nat × Service)
  | .accepting => none
  | .accepted k => some (k, .pending)
  | .sending k unread => some (k, .sending unread)
  | .closing k => some (k, .closing)

def World.service (w : World) (k : Nat) : Service :=
  if k ∈ w.queue then .pending
  else match w.server.phase.current with
    | none => .away
    | some (j, service) => if j = k then service else .away

theorem service_of_queued (h : k ∈ w.queue) : w.service k = .pending := if_pos h

theorem service_of_current {service : Service} (hqueue : k ∉ w.queue)
    (h : w.server.phase.current = some (k, service)) : w.service k = service := by
  rw [World.service, if_neg hqueue, h]
  exact if_pos rfl

theorem service_of_other {j : Nat} {service : Service} (hj : j ≠ k) (hqueue : j ∉ w.queue)
    (h : w.server.phase.current = some (k, service)) : w.service j = .away := by
  rw [World.service, if_neg hqueue, h]
  exact if_neg hj.symm

theorem service_of_accepting (hqueue : k ∉ w.queue) (h : w.server.phase = .accepting) :
    w.service k = .away := by
  rw [World.service, if_neg hqueue, h]
  rfl

/-- The server never turns away from a session without closing it. -/
theorem current_ne_away {service : Service} (h : w.server.phase.current = some (k, service)) :
    service ≠ .away := by
  intro haway
  subst haway
  cases hphase : w.server.phase with
  | accepting => rw [hphase] at h; cases h
  | accepted j => rw [hphase] at h; cases h
  | sending j unread => rw [hphase] at h; cases h
  | closing j => rw [hphase] at h; cases h

theorem not_current_of_away (h : w.service k = .away) (service : Service) :
    k ∉ w.queue ∧ w.server.phase.current ≠ some (k, service) := by
  have hqueue : k ∉ w.queue := fun hmem => by
    rw [service_of_queued hmem] at h
    cases h
  refine ⟨hqueue, fun hcur => ?_⟩
  rw [service_of_current hqueue hcur] at h
  exact current_ne_away hcur h

/-! ## The invariant of a session -/

/-- `copy` is the local file of the client, which has stored `got`. -/
def Stored (s : Session) (copy : Option Content) (got : Content) : Prop :=
  s.phase = .requested ∧ got = [] ∨ s.phase = .receiving ∧ copy = some got

/-- The server has not read the request. -/
def Pending (name : Name) (copy : Option Content) (s : Session) : Prop :=
  s.down = .idle ∧
    (s.phase = .connected ∧ s.up = .idle ∨
      Stored s copy [] ∧ scanString s.file_name = .ok name ∧ name.length ≤ fileNameMaxSize ∧
        s.up.flight = padded name)

/-- The server has read the request; if it could open the file, the session is a transfer of it. -/
def Moving (name : Name) (file copy : Option Content) (s : Session) (unread : Content) : Prop :=
  scanString s.file_name = .ok name ∧ ∃ got, Stored s copy got ∧
    ∀ content, file = some content → ∃ t : Transfer content,
      t.got = got ∧ t.flight = s.down.flight ∧ t.unsent = unread

/-- What is known of a session, by what the server is doing for it. -/
def Follows (name : Name) (file copy : Option Content) (s : Session) : Service → Prop
  | .pending => Pending name copy s
  | .sending unread => Moving name file copy s unread ∧ s.down.closed = false
  | .closing => Moving name file copy s [] ∧ s.down.closed = false
  | .away => s = fresh ∨ s.phase = .finished ∨ Moving name file copy s [] ∧ s.down.closed = true

/-- The local file of client `k`. -/
def copyOf (c : Setting) (w : World) (k : Nat) : Option Content :=
  w.disk (c.directory k) (requestedName c k)

/-- **The invariant.** Every session follows the server, which serves one session at a time, and no
    two clients of one directory run at the same time. -/
structure Invariant (c : Setting) (w : World) : Prop where
  nodup : w.queue.Nodup
  current : ∀ k service, w.server.phase.current = some (k, service) → k ∉ w.queue
  apart : ∀ j k, (w.session j).phase.active → (w.session k).phase.active →
    c.directory j = c.directory k → j = k
  follows : ∀ k, Follows (requestedName c k) (c.files (requestedName c k)) (copyOf c w k)
    (w.session k) (w.service k)

/-! ## What one step does to a session -/

variable {name : Name} {file copy copy' : Option Content} {s s' : Session} {service : Service}
  {unread : Content}

theorem Stored.active {got : Content} (h : Stored s copy got) : s.phase.active := by
  rcases h with ⟨h, _⟩ | ⟨h, _⟩
  · rw [h]
    decide
  · rw [h]
    decide

theorem Stored.not_connected {got : Content} (h : Stored s copy got) : s.phase ≠ .connected := by
  rcases h with ⟨h, _⟩ | ⟨h, _⟩
  · rw [h]
    decide
  · rw [h]
    decide

/-- The four kinds of sessions. -/
theorem Follows.kinds (h : Follows name file copy s service) :
    s = fresh ∧ service = .away ∨ s.phase = .finished ∧ service = .away ∨
      (s.phase = .connected ∧ service = .pending ∧ s.down = .idle ∧ s.up = .idle) ∨
      ∃ got, Stored s copy got ∧ scanString s.file_name = .ok name := by
  cases service with
  | pending =>
      rcases h with ⟨hdown, ⟨hphase, hup⟩ | ⟨hstored, hname, _⟩⟩
      · exact Or.inr (Or.inr (Or.inl ⟨hphase, rfl, hdown, hup⟩))
      · exact Or.inr (Or.inr (Or.inr ⟨_, hstored, hname⟩))
  | sending unread =>
      obtain ⟨⟨hname, got, hstored, _⟩, _⟩ := h
      exact Or.inr (Or.inr (Or.inr ⟨got, hstored, hname⟩))
  | closing =>
      obtain ⟨⟨hname, got, hstored, _⟩, _⟩ := h
      exact Or.inr (Or.inr (Or.inr ⟨got, hstored, hname⟩))
  | away =>
      rcases h with h | h | ⟨⟨hname, got, hstored, _⟩, _⟩
      · exact Or.inl ⟨h, rfl⟩
      · exact Or.inr (Or.inl ⟨h, rfl⟩)
      · exact Or.inr (Or.inr (Or.inr ⟨got, hstored, hname⟩))

/-- A session that is not under way is away, and its local file plays no role. -/
theorem Follows.idle (h : Follows name file copy s service) (hidle : ¬ s.phase.active) :
    service = .away ∧ Follows name file copy' s service := by
  rcases h.kinds with ⟨hs, rfl⟩ | ⟨hphase, rfl⟩ | ⟨hphase, _⟩ | ⟨got, hstored, _⟩
  · exact ⟨rfl, Or.inl hs⟩
  · exact ⟨rfl, Or.inr (Or.inl hphase)⟩
  · exact absurd (by rw [hphase]; decide) hidle
  · exact absurd hstored.active hidle

/-- A client that has not started has no connection. -/
theorem Follows.absent (h : Follows name file copy s service) (hphase : s.phase = .absent) :
    service = .away ∧ s = fresh := by
  rcases h.kinds with ⟨hs, haway⟩ | ⟨hphase', _⟩ | ⟨hphase', _⟩ | ⟨got, hstored, _⟩
  · exact ⟨haway, hs⟩
  · rw [hphase] at hphase'
    cases hphase'
  · rw [hphase] at hphase'
    cases hphase'
  · exact absurd hphase hstored.active.1

theorem Follows.connected (h : Follows name file copy s service) (hphase : s.phase = .connected) :
    service = .pending ∧ s.down = .idle ∧ s.up = .idle := by
  rcases h.kinds with ⟨hs, _⟩ | ⟨hphase', _⟩ | ⟨_, hrest⟩ | ⟨got, hstored, _⟩
  · rw [hs] at hphase
    cases hphase
  · rw [hphase] at hphase'
    cases hphase'
  · exact hrest
  · exact absurd hphase hstored.not_connected

/-- A client past its request knows the name of its file. -/
theorem Follows.named (h : Follows name file copy s service) (hactive : s.phase.active)
    (hsent : s.phase ≠ .connected) : scanString s.file_name = .ok name := by
  rcases h.kinds with ⟨hs, _⟩ | ⟨hphase, _⟩ | ⟨hphase, _⟩ | ⟨got, _, hname⟩
  · rw [hs] at hactive
    exact absurd rfl hactive.1
  · exact absurd hphase hactive.2
  · exact absurd hphase hsent
  · exact hname

/-- The request is sent. -/
theorem Follows.requested (h : Follows name file copy s service) (hphase : s.phase = .connected)
    (hphase' : s'.phase = .requested) (hname : scanString s'.file_name = .ok name)
    (hfits : name.length ≤ fileNameMaxSize) (hup : s'.up = s.up.send (padded name))
    (hdown : s'.down = s.down) : Follows name file copy s' service := by
  obtain ⟨rfl, hdown₀, hup₀⟩ := h.connected hphase
  refine ⟨hdown.trans hdown₀, Or.inr ⟨Or.inl ⟨hphase', rfl⟩, hname, hfits, ?_⟩⟩
  rw [hup, hup₀]
  rfl

theorem Moving.congr (h : Moving name file copy s unread) (hname : s'.file_name = s.file_name)
    (hdown : s'.down.flight = s.down.flight)
    (hstored : ∀ got, Stored s copy got → Stored s' copy' got) :
    Moving name file copy' s' unread := by
  obtain ⟨hname₀, got, hstored₀, htransfer⟩ := h
  refine ⟨by rw [hname, hname₀], got, hstored got hstored₀, ?_⟩
  rw [hdown]
  exact htransfer

/-- A step of a client that runs, by what it does to a pending session and to a transfer. -/
theorem Follows.update (h : Follows name file copy s service) (hactive : s.phase.active)
    (hpending : Pending name copy s → Pending name copy' s')
    (hmoving : ∀ unread, Moving name file copy s unread → Moving name file copy' s' unread)
    (hclosed : s'.down.closed = s.down.closed) : Follows name file copy' s' service := by
  cases service with
  | pending => exact hpending h
  | sending unread => exact ⟨hmoving unread h.1, hclosed.trans h.2⟩
  | closing => exact ⟨hmoving [] h.1, hclosed.trans h.2⟩
  | away =>
      rcases h with h | h | h
      · rw [h] at hactive
        exact absurd rfl hactive.1
      · exact absurd h hactive.2
      · exact Or.inr (Or.inr ⟨hmoving [] h.1, hclosed.trans h.2⟩)

/-- The client opens its local file. -/
theorem Follows.openFile (h : Follows name file copy s service) (hphase : s.phase = .requested)
    (hphase' : s'.phase = .receiving) (hname : s'.file_name = s.file_name) (hup : s'.up = s.up)
    (hdown : s'.down = s.down) : Follows name file (some []) s' service := by
  -- whatever was stored before, it was nothing
  have hstored : ∀ got, Stored s copy got → Stored s' (some []) got := by
    rintro got (⟨_, rfl⟩ | ⟨hother, _⟩)
    · exact Or.inr ⟨hphase', rfl⟩
    · rw [hphase] at hother
      cases hother
  refine h.update (by rw [hphase]; decide) ?_ ?_ (by rw [hdown])
  · rintro ⟨hdown₀, ⟨hother, _⟩ | ⟨hstored₀, hname₀, hfits, hup₀⟩⟩
    · rw [hphase] at hother
      cases hother
    · exact ⟨hdown.trans hdown₀, Or.inr ⟨hstored _ hstored₀, by rw [hname, hname₀], hfits,
        by rw [hup, hup₀]⟩⟩
  · exact fun unread hmoving => hmoving.congr hname (by rw [hdown]) hstored

theorem Moving.received {n : Nat} (h : Moving name file copy s unread)
    (hphase : s.phase = .receiving) (hphase' : s'.phase = .receiving)
    (hname : s'.file_name = s.file_name) (hdown : s'.down = s.down.after n) :
    Moving name file (some (copy.getD [] ++ s.down.piece n)) s' unread := by
  obtain ⟨hname₀, got, ⟨hother, _⟩ | ⟨_, hcopy⟩, htransfer⟩ := h
  · rw [hphase] at hother
    cases hother
  refine ⟨by rw [hname, hname₀], got ++ s.down.piece n, Or.inr ⟨hphase', ?_⟩, fun content hfile => ?_⟩
  · rw [hcopy]
    rfl
  · obtain ⟨t, rfl, hflight, hunsent⟩ := htransfer content hfile
    refine ⟨t.recv n, ?_, ?_, hunsent⟩
    · show t.got ++ t.flight.take n = _
      rw [hflight]
      rfl
    · show t.flight.drop n = _
      rw [hflight, hdown]
      rfl

/-- The client stores a chunk. -/
theorem Follows.received {n : Nat} (h : Follows name file copy s service)
    (hphase : s.phase = .receiving) (hn : n ≠ 0) (hlen : n ≤ s.down.flight.length)
    (hphase' : s'.phase = .receiving) (hname : s'.file_name = s.file_name)
    (hdown : s'.down = s.down.after n) :
    Follows name file (some (copy.getD [] ++ s.down.piece n)) s' service := by
  refine h.update (by rw [hphase]; decide) (fun hpending => ?_)
    (fun unread hmoving => hmoving.received hphase hphase' hname hdown) (by rw [hdown]; rfl)
  -- nothing was sent to a client whose request was not read
  rw [hpending.1] at hlen
  exact absurd (Nat.le_zero.1 hlen) hn

/-- **At the end of the stream the local file is the file of the server.** -/
theorem Follows.complete (h : Follows name file copy s service) (hphase : s.phase = .receiving)
    (hflight : s.down.flight = []) (hclosed : s.down.closed = true) :
    service = .away ∧ ∀ content, file = some content → copy = some content := by
  cases service with
  | pending =>
      rw [h.1] at hclosed
      cases hclosed
  | sending unread =>
      rw [h.2] at hclosed
      cases hclosed
  | closing =>
      rw [h.2] at hclosed
      cases hclosed
  | away =>
      rcases h with h | h | ⟨⟨_, got, ⟨hother, _⟩ | ⟨_, hcopy⟩, htransfer⟩, _⟩
      · rw [h] at hphase
        cases hphase
      · rw [hphase] at h
        cases h
      · rw [hphase] at hother
        cases hother
      · refine ⟨rfl, fun content hfile => ?_⟩
        obtain ⟨t, rfl, harrived, hsent⟩ := htransfer content hfile
        rw [hcopy, t.got_eq_total hsent (harrived.trans hflight)]

/-- What the server does after it has tried to open the file. -/
def Service.opened : Option Content → Service
  | none => .closing
  | some content => .sending content

theorem current_opened (server : Server) (k : Nat) (name : Name) (file : Option Content) :
    (server.opened k name file).phase.current = some (k, .opened file) := by
  cases file with
  | none => rfl
  | some content => rfl

/-- What a request of full length holds. -/
theorem Pending.request (h : Pending name copy s) (hlen : bufferSize ≤ s.up.flight.length) :
    Stored s copy [] ∧ scanString s.file_name = .ok name ∧ name.length ≤ fileNameMaxSize ∧
      s.up.flight = padded name := by
  obtain ⟨_, ⟨_, hup⟩ | hrequest⟩ := h
  · -- a client that has sent nothing
    rw [hup] at hlen
    exact absurd hlen (by decide)
  · exact hrequest

/-- The server has read the request. -/
theorem Pending.served (h : Pending name copy s) (hlen : bufferSize ≤ s.up.flight.length)
    (file : Option Content) (hphase : s'.phase = s.phase) (hname : s'.file_name = s.file_name)
    (hdown : s'.down = s.down) : Follows name file copy s' (.opened file) := by
  obtain ⟨hstored, hname₀, _⟩ := h.request hlen
  have hstored' : Stored s' copy [] := by
    unfold Stored at hstored ⊢
    rwa [hphase]
  rw [h.1] at hdown
  cases file with
  | none =>
      exact ⟨⟨by rw [hname, hname₀], [], hstored', fun content hfile => by cases hfile⟩,
        by rw [hdown]; rfl⟩
  | some content =>
      refine ⟨⟨by rw [hname, hname₀], [], hstored', fun content' hfile => ?_⟩, by rw [hdown]; rfl⟩
      obtain rfl := Option.some.inj hfile
      exact ⟨Transfer.start content, rfl, by rw [hdown]; rfl, rfl⟩

/-- A block is sent. -/
theorem Moving.sent (h : Moving name file copy s unread) (hphase : s'.phase = s.phase)
    (hname : s'.file_name = s.file_name)
    (hdown : s'.down = s.down.send (unread.take bufferSize)) :
    Moving name file copy s' (unread.drop bufferSize) := by
  obtain ⟨hname₀, got, hstored, htransfer⟩ := h
  refine ⟨by rw [hname, hname₀], got, ?_, fun content hfile => ?_⟩
  · unfold Stored at hstored ⊢
    rwa [hphase]
  · obtain ⟨t, hgot, hflight, rfl⟩ := htransfer content hfile
    refine ⟨t.send bufferSize, hgot, ?_, rfl⟩
    show t.flight ++ t.unsent.take bufferSize = _
    rw [hflight, hdown]
    rfl

/-! ## What one step does to the world -/

theorem Invariant.start (disk : Nat → Name → Option Content) : Invariant c (start disk) where
  nodup := List.nodup_nil
  current := by
    intro k service h
    cases h
  apart := by
    intro j k hj
    exact absurd rfl hj.1
  follows := fun k => Or.inl rfl

/-- What is known of the session the server is busy with. -/
theorem Invariant.of_current (h : Invariant c w)
    (hcurrent : w.server.phase.current = some (k, service)) :
    Follows (requestedName c k) (c.files (requestedName c k)) (copyOf c w k) (w.session k)
      service := by
  rw [← service_of_current (h.current k _ hcurrent) hcurrent]
  exact h.follows k

/-- A step that touches one session. -/
theorem Invariant.of_session (h : Invariant c w) (hnodup : w'.queue.Nodup)
    (hcurrent : ∀ j service, w'.server.phase.current = some (j, service) → j ∉ w'.queue)
    (hsession : w'.session = Function.update w.session k s')
    (hservice : ∀ j, j ≠ k → w'.service j = w.service j)
    (hdisk : ∀ j, j ≠ k → (w.session j).phase.active →
      w'.disk (c.directory j) = w.disk (c.directory j))
    (hapart : s'.phase.active → ∀ j, j ≠ k → (w.session j).phase.active →
      c.directory j ≠ c.directory k)
    (hk : Follows (requestedName c k) (c.files (requestedName c k)) (copyOf c w' k) s'
      (w'.service k)) : Invariant c w' := by
  have hself : w'.session k = s' := by rw [hsession, Function.update_self]
  have hother : ∀ j, j ≠ k → w'.session j = w.session j := fun j hj => by
    rw [hsession, Function.update_of_ne hj]
  refine ⟨hnodup, hcurrent, fun i j hi hj hdir => ?_, fun j => ?_⟩
  · by_contra hne
    by_cases hik : i = k
    · subst hik
      rw [hself] at hi
      rw [hother j (Ne.symm hne)] at hj
      exact hapart hi j (Ne.symm hne) hj hdir.symm
    · rw [hother i hik] at hi
      by_cases hjk : j = k
      · subst hjk
        rw [hself] at hj
        exact hapart hj i hik hi hdir
      · rw [hother j hjk] at hj
        exact hne (h.apart i j hi hj hdir)
  · by_cases hj : j = k
    · rw [hj, hself]
      exact hk
    · have hfollows := h.follows j
      rw [hother j hj, hservice j hj]
      by_cases hactive : (w.session j).phase.active
      · rw [copyOf, hdisk j hj hactive]
        exact hfollows
      · exact (hfollows.idle hactive).2

theorem service_congr (hqueue : w'.queue = w.queue) (hserver : w'.server = w.server) (j : Nat) :
    w'.service j = w.service j := by
  rw [World.service, World.service, hqueue, hserver]

/-- A step of a client that runs. -/
theorem Invariant.client (h : Invariant c w) (hactive : (w.session k).phase.active)
    (hqueue : w'.queue = w.queue) (hserver : w'.server = w.server)
    (hsession : w'.session = Function.update w.session k s')
    (hdisk : ∀ d, d ≠ c.directory k → w'.disk d = w.disk d)
    (hk : Follows (requestedName c k) (c.files (requestedName c k)) (copyOf c w' k) s'
      (w.service k)) : Invariant c w' := by
  have hapart : ∀ j, j ≠ k → (w.session j).phase.active → c.directory j ≠ c.directory k :=
    fun j hj hactive' hdir => hj (h.apart j k hactive' hactive hdir)
  refine h.of_session ?_ ?_ hsession (fun j _ => service_congr hqueue hserver j)
    (fun j hj hactive' => hdisk _ (hapart j hj hactive')) (fun _ => hapart) ?_
  · rw [hqueue]
    exact h.nodup
  · rw [hqueue, hserver]
    exact h.current
  · rw [service_congr hqueue hserver]
    exact hk

/-- A step of the server for the session it is busy with. -/
theorem Invariant.server (h : Invariant c w) {service' : Service}
    (hcurrent : w.server.phase.current = some (k, service)) (hqueue : w'.queue = w.queue)
    (hdisk : w'.disk = w.disk) (hsession : w'.session = Function.update w.session k s')
    (hphase : s'.phase = (w.session k).phase)
    (hcurrent' : w'.server.phase.current = some (k, service') ∨
      w'.server.phase = .accepting ∧ service' = .away)
    (hk : Follows (requestedName c k) (c.files (requestedName c k)) (copyOf c w k) s' service') :
    Invariant c w' := by
  have hfree := h.current k service hcurrent
  have hfree' : k ∉ w'.queue := by rwa [hqueue]
  refine h.of_session ?_ ?_ hsession ?_ (fun j _ _ => by rw [hdisk]) ?_ ?_
  · rw [hqueue]
    exact h.nodup
  · intro j service₁ hj
    rcases hcurrent' with hcurrent' | ⟨haccepting, _⟩
    · rw [hcurrent'] at hj
      cases hj
      exact hfree'
    · rw [haccepting] at hj
      cases hj
  · intro j hj
    by_cases hqueued : j ∈ w.queue
    · rw [service_of_queued hqueued, service_of_queued (by rwa [hqueue])]
    · rw [service_of_other hj hqueued hcurrent]
      rcases hcurrent' with hcurrent' | ⟨haccepting, _⟩
      · exact service_of_other hj (by rwa [hqueue]) hcurrent'
      · exact service_of_accepting (by rwa [hqueue]) haccepting
  · intro hactive j hj hactive' hdir
    rw [hphase] at hactive
    exact hj (h.apart j k hactive' hactive hdir)
  · rw [copyOf, hdisk]
    rcases hcurrent' with hcurrent' | ⟨haccepting, rfl⟩
    · rw [service_of_current hfree' hcurrent']
      exact hk
    · rw [service_of_accepting hfree' haccepting]
      exact hk

/-! ## The steps keep the invariant -/

theorem Invariant.connect (h : Invariant c w) (hstep : connect w k = .ok w')
    (hassumed : ∀ j, (w.session j).phase.active → c.directory j ≠ c.directory k) :
    Invariant c w' := by
  obtain ⟨hphase, rfl⟩ := connect_ok.1 hstep
  obtain ⟨haway, hfresh⟩ := (h.follows k).absent hphase
  obtain ⟨hfree, _⟩ := not_current_of_away haway .pending
  refine h.of_session ?_ ?_ rfl ?_ (fun _ _ _ => rfl) (fun _ j _ => hassumed j) ?_
  · refine List.nodup_append.2 ⟨h.nodup, by simp, fun i hi j hj => ?_⟩
    rw [List.mem_singleton.1 hj]
    exact fun hik => hfree (hik ▸ hi)
  · intro j service hcurrent hmem
    rcases List.mem_append.1 hmem with hmem | hmem
    · exact h.current j service hcurrent hmem
    · rw [List.mem_singleton.1 hmem] at hcurrent
      exact (not_current_of_away haway service).2 hcurrent
  · intro j hj
    simp only [World.service, List.mem_append, List.mem_singleton, hj, or_false, set_server]
  · rw [service_of_queued (List.mem_append_right _ (List.mem_singleton_self k)), hfresh]
    exact ⟨rfl, Or.inl ⟨rfl, rfl⟩⟩

theorem Invariant.request (h : Invariant c w) (hstep : request c w k bufferSize = .ok w') :
    Invariant c w' := by
  obtain ⟨⟨hphase, _⟩, hword, rfl⟩ := request_ok.1 hstep
  have hfits := requestedName_length hword
  have hfull : (padded (requestedName c k)).take bufferSize = padded (requestedName c k) := by
    rw [← padded_length hfits, List.take_length]
  refine h.client (by rw [hphase]; decide) rfl rfl rfl (fun _ _ => rfl) ?_
  refine (h.follows k).requested hphase rfl (scanString_typedName _) hfits ?_ rfl
  rw [Session.requested, hfull]

theorem Invariant.openFile (h : Invariant c w) (hstep : openFile c w k true = .ok w') :
    Invariant c w' := by
  obtain ⟨hphase, name, hname, rfl⟩ := openFile_ok.1 hstep
  have hnamed := (h.follows k).named (by rw [hphase]; decide) (by rw [hphase]; decide)
  obtain rfl := Except.ok.inj (hnamed.symm.trans hname)
  refine h.client (by rw [hphase]; decide) rfl rfl rfl (fun d hd => store_disk_of_ne _ _ _ hd) ?_
  rw [copyOf, store_disk_self]
  exact (h.follows k).openFile hphase rfl rfl rfl rfl

theorem Invariant.receive (h : Invariant c w) {n : Nat}
    (hstep : receive c w k (some n) = .ok w') : Invariant c w' := by
  by_cases hn : n = 0
  · subst hn
    obtain ⟨hphase, ⟨hflight, hclosed⟩, rfl⟩ := receive_end_ok.1 hstep
    obtain ⟨haway, _⟩ := (h.follows k).complete hphase hflight hclosed
    refine h.client (by rw [hphase]; decide) rfl rfl rfl (fun _ _ => rfl) ?_
    rw [haway]
    exact Or.inr (Or.inl rfl)
  · obtain ⟨hphase, hgives, name, hname, rfl⟩ := (receive_chunk_ok hn).1 hstep
    have hlen := ((Wire.gives_pos hn).1 hgives).2
    have hnamed := (h.follows k).named (by rw [hphase]; decide) (by rw [hphase]; decide)
    obtain rfl := Except.ok.inj (hnamed.symm.trans hname)
    refine h.client (by rw [hphase]; decide) rfl rfl rfl (fun d hd => store_disk_of_ne _ _ _ hd) ?_
    rw [copyOf, store_disk_self]
    exact (h.follows k).received hphase hn hlen hphase rfl rfl

theorem Invariant.accept (h : Invariant c w) (hstep : accept w = .ok w') : Invariant c w' := by
  obtain ⟨haccepting, k, rest, hqueue, rfl⟩ := accept_ok.1 hstep
  have hnodup := h.nodup
  rw [hqueue, List.nodup_cons] at hnodup
  -- the request of session `k` is pending before and after
  have hservice : ∀ j, World.service { w with
      queue := rest
      server := { w.server with phase := .accepted k, buffer := zeros bufferSize } } j
      = w.service j := by
    intro j
    by_cases hmem : j ∈ rest
    · have hqueued : j ∈ w.queue := by
        rw [hqueue]
        exact List.mem_cons_of_mem _ hmem
      rw [service_of_queued hmem, service_of_queued hqueued]
    · by_cases hj : j = k
      · subst hj
        have hqueued : j ∈ w.queue := by
          rw [hqueue]
          exact List.mem_cons_self
        rw [service_of_current hmem rfl, service_of_queued hqueued]
      · have hfree : j ∉ w.queue := by
          rw [hqueue]
          exact List.not_mem_cons_of_ne_of_not_mem hj hmem
        rw [service_of_other hj hmem rfl, service_of_accepting hfree haccepting]
  refine ⟨hnodup.2, ?_, h.apart, fun j => ?_⟩
  · intro j service hcurrent
    cases hcurrent
    exact hnodup.1
  · rw [hservice]
    exact h.follows j

theorem Invariant.serve (h : Invariant c w) (hstep : serve c w (some bufferSize) = .ok w') :
    Invariant c w' := by
  obtain ⟨k, hphase, hlen⟩ := serve_inv hstep
  have hcurrent : w.server.phase.current = some (k, .pending) := by rw [hphase]; rfl
  have hpending : Pending _ _ _ := h.of_current hcurrent
  obtain ⟨_, _, hfits, hup⟩ := hpending.request hlen
  obtain rfl := Except.ok.inj
    ((serve_eq hphase (zero_notMem_cstring _) hfits hup).symm.trans hstep)
  exact h.server hcurrent rfl rfl rfl rfl (Or.inl (current_opened w.server k _ _))
    (hpending.served hlen _ rfl rfl rfl)

theorem Invariant.sendBlock (h : Invariant c w)
    (hstep : sendBlock w (some w.block.length) = .ok w') : Invariant c w' := by
  obtain ⟨k, unread, hphase, _, rfl⟩ := sendBlock_ok.1 hstep
  have hcurrent : w.server.phase.current = some (k, .sending unread) := by rw [hphase]; rfl
  obtain ⟨hmoving, hopen⟩ := h.of_current hcurrent
  exact h.server hcurrent rfl rfl rfl rfl (Or.inl rfl) ⟨hmoving.sent rfl rfl rfl, hopen⟩

theorem Invariant.endOfFile (h : Invariant c w) (hstep : endOfFile w = .ok w') :
    Invariant c w' := by
  obtain ⟨k, hphase, rfl⟩ := endOfFile_ok.1 hstep
  have hcurrent : w.server.phase.current = some (k, .sending []) := by rw [hphase]; rfl
  have hmoving := h.of_current hcurrent
  exact h.server hcurrent rfl rfl (Function.update_eq_self k w.session).symm rfl (Or.inl rfl) hmoving

theorem Invariant.close (h : Invariant c w) (hstep : close w = .ok w') : Invariant c w' := by
  obtain ⟨k, hphase, rfl⟩ := close_ok.1 hstep
  have hcurrent : w.server.phase.current = some (k, .closing) := by rw [hphase]; rfl
  obtain ⟨hmoving, _⟩ := h.of_current hcurrent
  exact h.server hcurrent rfl rfl rfl rfl (Or.inr ⟨rfl, rfl⟩)
    (Or.inr (Or.inr ⟨hmoving.congr rfl rfl fun _ hstored => hstored, rfl⟩))

theorem Invariant.step (h : Invariant c w) {a : Action} (hassumed : Assumed c w a)
    (hstep : Returns (step c a) w () w') : Invariant c w' := by
  rw [step_returns] at hstep
  cases a with
  | connect k => exact h.connect hstep hassumed
  | request k n =>
      obtain rfl : n = bufferSize := hassumed
      exact h.request hstep
  | openFile k opened =>
      obtain rfl : opened = true := hassumed
      exact h.openFile hstep
  | receive k n =>
      obtain ⟨n, rfl⟩ := Option.ne_none_iff_exists'.1 hassumed
      exact h.receive hstep
  | accept => exact h.accept hstep
  | serve n =>
      obtain rfl : n = some bufferSize := hassumed
      exact h.serve hstep
  | sendBlock n =>
      obtain rfl : n = some w.block.length := hassumed
      exact h.sendBlock hstep
  | endOfFile => exact h.endOfFile hstep
  | close => exact h.close hstep

/-- **Every session follows the server, in every run.** -/
theorem Invariant.of_reach {disk : Nat → Name → Option Content}
    (h : Reach (FileTransfer.step c) (Assumed c) (FileTransfer.start disk) w) : Invariant c w :=
  h.invariant (Invariant.start disk) fun _ _ _ hinv hassumed hstep => hinv.step hassumed hstep

end LinuxSamples.FileTransfer
