import LinuxSamples.Socket.FileNameRequest

set_option autoImplicit false

/-! # Downloads that fail

The client opens its local file for writing before it has received anything, and keeps what arrives.
A session that ends without the file therefore leaves an empty or partial file behind; the local files
are as before only if the local file could not be opened, or held just what was received. -/

namespace LinuxSamples.FileTransfer

open LinuxSamples.Program LinuxSamples.Memory LinuxSamples.Network LinuxSamples.Socket

variable {c : Setting} {w w' : World} {k : Nat} {got : Content}
  {ok ok' : World → Action → Prop} {disk : Nat → Name → Option Content}

/-! ## Runs of one client -/

/-- The bytes that client `k` receives in a step. -/
def received (k : Nat) (w : World) : Action → Content
  | .receive j (some n) => if j = k then (w.session k).down.piece n else []
  | _ => []

/-- A run, and all that client `k` has received in it. -/
inductive Receives (c : Setting) (k : Nat) (ok : World → Action → Prop) (w₀ : World) :
    World → Content → Prop
  | start : Receives c k ok w₀ w₀ []
  | next {w w' : World} {got : Content} {a : Action} : Receives c k ok w₀ w got → ok w a →
      Returns (step c a) w () w' → Receives c k ok w₀ w' (got ++ received k w a)

theorem Receives.mono {w₀ : World} (h : Receives c k ok w₀ w got) (hok : ∀ w a, ok w a → ok' w a) :
    Receives c k ok' w₀ w got := by
  induction h with
  | start => exact Receives.start
  | next _ hstep hret ih => exact Receives.next ih (hok _ _ hstep) hret

/-- **Invariant rule**, with what was received. -/
theorem Receives.invariant {w₀ : World} {I : World → Content → Prop}
    (h : Receives c k ok w₀ w got) (h₀ : I w₀ [])
    (hstep : ∀ w w' got a, I w got → ok w a → act c w a = .ok w' →
      I w' (got ++ received k w a)) : I w got := by
  induction h with
  | start => exact h₀
  | next _ hok hret ih => exact hstep _ _ _ _ ih hok (step_returns.1 hret)

/-- A step in which client `k` receives nothing. -/
theorem Receives.quiet {w₀ : World} {a : Action} (h : Receives c k ok w₀ w got) (hok : ok w a)
    (hquiet : received k w a = []) (hstep : act c w a = .ok w') : Receives c k ok w₀ w' got := by
  have hnext := Receives.next h hok (step_returns.2 hstep)
  rwa [hquiet, List.append_nil] at hnext

/-- The client that takes the step. -/
def Action.client : Action → Option Nat
  | .connect j => some j
  | .request j _ => some j
  | .openFile j _ => some j
  | .receive j _ => some j
  | _ => none

/-- The step is not one of another client in the directory of client `k`. -/
def Alone (c : Setting) (k : Nat) (_ : World) (a : Action) : Prop :=
  ∀ j, a.client = some j → c.directory j = c.directory k → j = k

/-- The server does not find the file that it tries to open for client `k`. -/
def NotFound (c : Setting) (k : Nat) (w : World) : Action → Prop
  | .serve n => ∀ w', w.server.phase = .accepted k → serve c w n = .ok w' →
      w'.server.phase = .closing k
  | _ => True

/-- A client's step changes its own session and files of its own directory. -/
theorem client_frame {a : Action} {j : Nat} (ha : a.client = some j)
    (hstep : act c w a = .ok w') : w'.server = w.server ∧
      (∀ i, i ≠ j → w'.session i = w.session i) ∧
        ∀ d, d ≠ c.directory j → w'.disk d = w.disk d := by
  cases a with
  | connect i =>
      obtain rfl : i = j := Option.some.inj ha
      obtain ⟨_, rfl⟩ := connect_ok.1 hstep
      exact ⟨rfl, fun m hm => set_session_of_ne hm _, fun d _ => rfl⟩
  | request i n =>
      obtain rfl : i = j := Option.some.inj ha
      obtain ⟨_, _, rfl⟩ := request_ok.1 hstep
      exact ⟨rfl, fun m hm => set_session_of_ne hm _, fun d _ => rfl⟩
  | openFile i opened =>
      obtain rfl : i = j := Option.some.inj ha
      cases opened with
      | true =>
          obtain ⟨_, name, _, rfl⟩ := openFile_ok.1 hstep
          exact ⟨rfl, fun m hm => set_session_of_ne hm _, fun d hd => store_disk_of_ne _ _ _ hd⟩
      | false =>
          obtain ⟨_, _, rfl⟩ := openFile_refused_ok.1 hstep
          exact ⟨rfl, fun m hm => set_session_of_ne hm _, fun d _ => rfl⟩
  | receive i n =>
      obtain rfl : i = j := Option.some.inj ha
      rcases n with _ | _ | n
      · obtain ⟨_, rfl⟩ := (receive_failed_ok (c := c)).1 hstep
        exact ⟨rfl, fun m hm => set_session_of_ne hm _, fun d _ => rfl⟩
      · obtain ⟨_, _, rfl⟩ := receive_end_ok.1 hstep
        exact ⟨rfl, fun m hm => set_session_of_ne hm _, fun d _ => rfl⟩
      · obtain ⟨_, _, name, _, rfl⟩ := (receive_chunk_ok (Nat.succ_ne_zero n)).1 hstep
        exact ⟨rfl, fun m hm => set_session_of_ne hm _, fun d hd => store_disk_of_ne _ _ _ hd⟩
  | accept => cases ha
  | serve n => cases ha
  | sendBlock n => cases ha
  | endOfFile => cases ha
  | close => cases ha

/-- Nothing is received in another client's step. -/
theorem received_other {a : Action} {j : Nat} (ha : a.client = some j) (hjk : j ≠ k) :
    received k w a = [] := by
  cases a with
  | receive i n =>
      obtain rfl : i = j := Option.some.inj ha
      cases n with
      | none => rfl
      | some n => exact if_neg hjk
  | _ => rfl

/-! ## The local file -/

/-- The files of client `k`'s directory, which held `files` before the session, while it has received
    `got`. -/
def Downloading (c : Setting) (k : Nat) (files : Name → Option Content) (w : World) (got : Content) :
    Prop :=
  let replaced := Function.update files (requestedName c k) (some got)
  match (w.session k).phase with
  | .absent | .connected => got = [] ∧ w.disk (c.directory k) = files
  | .requested => got = [] ∧ w.disk (c.directory k) = files ∧
      scanString (w.session k).file_name = .ok (requestedName c k)
  | .receiving => w.disk (c.directory k) = replaced ∧
      scanString (w.session k).file_name = .ok (requestedName c k)
  | .finished => (got = [] ∧ w.disk (c.directory k) = files) ∨ w.disk (c.directory k) = replaced

variable {files : Name → Option Content}

/-- A step that changes neither what client `k` has done nor its directory. -/
theorem Downloading.other (h : Downloading c k files w got)
    (hphase : (w'.session k).phase = (w.session k).phase)
    (hname : (w'.session k).file_name = (w.session k).file_name)
    (hdisk : w'.disk (c.directory k) = w.disk (c.directory k)) :
    Downloading c k files w' (got ++ []) := by
  rw [List.append_nil, Downloading, hphase, hname, hdisk]
  exact h

/-- Client `k` connects, or sends its request. -/
theorem Downloading.before {a : Action} (h : Downloading c k files w got)
    (ha : a = .connect k ∨ ∃ n, a = .request k n) (hstep : act c w a = .ok w') :
    Downloading c k files w' (got ++ []) := by
  rw [List.append_nil]
  rcases ha with rfl | ⟨n, rfl⟩
  · obtain ⟨hphase, rfl⟩ := connect_ok.1 hstep
    rw [Downloading, hphase] at h
    simpa [Downloading, World.set] using h
  · obtain ⟨⟨hphase, _⟩, _, rfl⟩ := request_ok.1 hstep
    rw [Downloading, hphase] at h
    simpa [Downloading, Session.requested, scanString_typedName, requestedName] using h

/-- Client `k` opens its local file, or fails to. -/
theorem Downloading.openFile {opened : Bool} (h : Downloading c k files w got)
    (hstep : openFile c w k opened = .ok w') : Downloading c k files w' (got ++ []) := by
  rw [List.append_nil]
  cases opened with
  | true =>
      obtain ⟨hphase, name, hname, rfl⟩ := openFile_ok.1 hstep
      rw [Downloading, hphase] at h
      obtain ⟨rfl, hdisk, hname'⟩ := h
      obtain rfl : name = requestedName c k := Except.ok.inj (hname.symm.trans hname')
      simp [Downloading, World.store, hdisk, hname']
  | false =>
      obtain ⟨hphase, _, rfl⟩ := openFile_refused_ok.1 hstep
      rw [Downloading, hphase] at h
      obtain ⟨rfl, hdisk, _⟩ := h
      simp [Downloading, hdisk]

/-- Client `k` receives a chunk, the end of the stream or an error. -/
theorem Downloading.receive {n : Option Nat} (h : Downloading c k files w got)
    (hstep : receive c w k n = .ok w') :
    Downloading c k files w' (got ++ received k w (.receive k n)) := by
  rcases n with _ | _ | n
  · obtain ⟨hphase, rfl⟩ := receive_failed_ok.1 hstep
    rw [Downloading, hphase] at h
    simp [Downloading, received, h.1]
  · obtain ⟨hphase, _, rfl⟩ := receive_end_ok.1 hstep
    rw [Downloading, hphase] at h
    simp [Downloading, received, Wire.piece, h.1]
  · obtain ⟨hphase, _, name, hname, rfl⟩ := (receive_chunk_ok (Nat.succ_ne_zero n)).1 hstep
    rw [Downloading, hphase] at h
    obtain ⟨hdisk, hname'⟩ := h
    obtain rfl : name = requestedName c k := Except.ok.inj (hname.symm.trans hname')
    simp [Downloading, received, World.store, hphase, hdisk, hname']

theorem Downloading.serves (h : Downloading c k files w got) (hstep : Serves w w') :
    Downloading c k files w' (got ++ []) := by
  obtain ⟨j, wire, server, _, _, rfl⟩ := hstep
  by_cases hjk : k = j
  · subst hjk
    exact h.other (by simp) (by simp) rfl
  · refine h.other ?_ ?_ rfl
    · show ((w.set j _).session k).phase = _
      rw [set_session_of_ne hjk]
    · show ((w.set j _).session k).file_name = _
      rw [set_session_of_ne hjk]

theorem Downloading.serve {n : Option Nat} (h : Downloading c k files w got)
    (hstep : serve c w n = .ok w') : Downloading c k files w' (got ++ []) := by
  obtain ⟨j, up, server, _, _, rfl⟩ := serve_reads hstep
  by_cases hjk : k = j
  · subst hjk
    exact h.other (by simp) (by simp) rfl
  · have hsession : (w.set j { w.session j with up := up }).session k = w.session k :=
      set_session_of_ne hjk _
    exact h.other (congrArg Session.phase hsession) (congrArg Session.file_name hsession) rfl

theorem Downloading.accept (h : Downloading c k files w got) (hstep : accept w = .ok w') :
    Downloading c k files w' (got ++ []) := by
  obtain ⟨_, _, _, _, rfl⟩ := accept_ok.1 hstep
  exact h.other rfl rfl rfl

/-- A client in another directory takes a step. -/
theorem Downloading.elsewhere {a : Action} {j : Nat} (h : Downloading c k files w got)
    (ha : a.client = some j) (hjk : j ≠ k) (hdir : c.directory j ≠ c.directory k)
    (hstep : act c w a = .ok w') : Downloading c k files w' (got ++ received k w a) := by
  obtain ⟨_, hsession, hdisk⟩ := client_frame ha hstep
  rw [received_other ha hjk]
  have hk := hsession k hjk.symm
  exact h.other (congrArg Session.phase hk) (congrArg Session.file_name hk) (hdisk _ hdir.symm)

theorem Downloading.act {a : Action} (h : Downloading c k files w got) (halone : Alone c k w a)
    (hstep : act c w a = .ok w') : Downloading c k files w' (got ++ received k w a) := by
  by_cases hother : ∃ j, a.client = some j ∧ j ≠ k
  · obtain ⟨j, hj, hjk⟩ := hother
    exact h.elsewhere hj hjk (fun hdir => hjk (halone j hj hdir)) hstep
  · have hown : ∀ j, a.client = some j → j = k := fun j hj =>
      Classical.byContradiction fun hjk => hother ⟨j, hj, hjk⟩
    cases a with
    | connect j =>
        obtain rfl := hown j rfl
        exact h.before (Or.inl rfl) hstep
    | request j n =>
        obtain rfl := hown j rfl
        exact h.before (Or.inr ⟨n, rfl⟩) hstep
    | openFile j opened =>
        obtain rfl := hown j rfl
        exact h.openFile hstep
    | receive j n =>
        obtain rfl := hown j rfl
        exact h.receive hstep
    | accept => exact h.accept hstep
    | serve n => exact h.serve hstep
    | sendBlock n => exact h.serves (sendBlock_serves hstep)
    | endOfFile => exact h.serves (endOfFile_serves hstep)
    | close => exact h.serves (close_serves hstep)

/-- **In every run** in which no other client works in the directory of client `k`. -/
theorem Downloading.of_receives (h : Receives c k (Alone c k) (FileTransfer.start disk) w got) :
    Downloading c k (disk (c.directory k)) w got := by
  refine h.invariant ⟨rfl, rfl⟩ ?_
  intro w w' got a hw halone hstep
  exact hw.act halone hstep

/-! ## What a client receives of a file that is not found -/

/-- Nothing is under way to client `k`, and the server does not send to it. -/
def Unserved (k : Nat) (w : World) : Prop :=
  (w.session k).down.flight = [] ∧ ∀ unread, w.server.phase ≠ .sending k unread

/-- A step that leaves the server and what is under way to client `k` alone. -/
theorem Unserved.other (h : Unserved k w) (hserver : w'.server = w.server)
    (hsession : (w'.session k).down.flight = (w.session k).down.flight) : Unserved k w' := by
  rw [Unserved, hserver, hsession]
  exact h

theorem Unserved.receive {n : Option Nat} (h : Unserved k w) (hstep : receive c w k n = .ok w') :
    Unserved k w' ∧ received k w (.receive k n) = [] := by
  rcases n with _ | _ | n
  · obtain ⟨_, rfl⟩ := (receive_failed_ok (c := c)).1 hstep
    exact ⟨h.other rfl (by simp), rfl⟩
  · obtain ⟨_, _, rfl⟩ := receive_end_ok.1 hstep
    exact ⟨h.other rfl (by simp), by simp [received, Wire.piece]⟩
  · -- a chunk needs bytes on the way
    obtain ⟨_, hgives, _⟩ := (receive_chunk_ok (Nat.succ_ne_zero n)).1 hstep
    have hlen := ((Wire.gives_pos (Nat.succ_ne_zero n)).1 hgives).2
    rw [h.1] at hlen
    exact absurd hlen (Nat.not_succ_le_zero n)

theorem Unserved.serve {n : Option Nat} (h : Unserved k w) (hfound : NotFound c k w (.serve n))
    (hstep : serve c w n = .ok w') : Unserved k w' := by
  obtain ⟨j, up, server, hphase, hserver, hw⟩ := serve_reads hstep
  have hdown : (w'.session k).down = (w.session k).down := by
    subst hw
    by_cases hjk : k = j
    · subst hjk
      show ((w.set k _).session k).down = _
      rw [set_session_self]
    · exact congrArg Session.down (set_session_of_ne hjk _)
  refine ⟨hdown ▸ h.1, fun unread hsending => ?_⟩
  by_cases hjk : j = k
  · subst hjk
    rw [hfound w' hphase hstep] at hsending
    cases hsending
  · subst hw
    rcases hserver with hclosing | ⟨content, hother⟩
    · cases hclosing.symm.trans hsending
    · cases hother.symm.trans hsending
      exact hjk rfl

theorem Unserved.sendBlock {n : Option Nat} (h : Unserved k w) (hstep : sendBlock w n = .ok w') :
    Unserved k w' := by
  unfold FileTransfer.sendBlock at hstep
  split at hstep
  · next j unread hphase =>
      have hjk : k ≠ j := by
        rintro rfl
        exact h.2 unread hphase
      rw [awaits_bind, compute_bind_ok (written_filled _ _)] at hstep
      obtain ⟨_, hstep⟩ := hstep
      cases n with
      | none =>
          cases hstep
          exact ⟨h.1, fun unread hsending => by cases hsending⟩
      | some n =>
          obtain ⟨_, hstep⟩ := awaits_bind.1 hstep
          cases hstep
          refine ⟨?_, fun unread hsending => ?_⟩
          · show ((w.set j _).session k).down.flight = []
            rw [set_session_of_ne hjk]
            exact h.1
          · cases hsending
            exact hjk rfl
  · cases hstep

theorem Unserved.endOfFile (h : Unserved k w) (hstep : endOfFile w = .ok w') : Unserved k w' := by
  obtain ⟨_, _, rfl⟩ := endOfFile_ok.1 hstep
  exact ⟨h.1, fun unread hsending => by cases hsending⟩

theorem Unserved.close (h : Unserved k w) (hstep : close w = .ok w') : Unserved k w' := by
  obtain ⟨j, _, rfl⟩ := close_ok.1 hstep
  refine ⟨?_, fun unread hsending => by cases hsending⟩
  show ((w.set j _).session k).down.flight = []
  by_cases hjk : k = j
  · subst hjk
    rw [set_session_self]
    exact h.1
  · rw [set_session_of_ne hjk]
    exact h.1

theorem Unserved.act {a : Action} (h : Unserved k w) (hfound : NotFound c k w a)
    (hstep : act c w a = .ok w') : Unserved k w' ∧ received k w a = [] := by
  by_cases hother : ∃ j, a.client = some j ∧ j ≠ k
  · obtain ⟨j, hj, hjk⟩ := hother
    obtain ⟨hserver, hsession, _⟩ := client_frame hj hstep
    exact ⟨h.other hserver (by rw [hsession k hjk.symm]), received_other hj hjk⟩
  · have hown : ∀ j, a.client = some j → j = k := fun j hj =>
      Classical.byContradiction fun hjk => hother ⟨j, hj, hjk⟩
    cases a with
    | connect j =>
        obtain rfl := hown j rfl
        obtain ⟨_, rfl⟩ := connect_ok.1 hstep
        exact ⟨h.other rfl (by simp), rfl⟩
    | request j n =>
        obtain rfl := hown j rfl
        obtain ⟨_, _, rfl⟩ := request_ok.1 hstep
        exact ⟨h.other rfl (by simp [Session.requested]), rfl⟩
    | openFile j opened =>
        obtain rfl := hown j rfl
        cases opened with
        | true =>
            obtain ⟨_, _, _, rfl⟩ := openFile_ok.1 hstep
            exact ⟨h.other rfl (by simp), rfl⟩
        | false =>
            obtain ⟨_, _, rfl⟩ := openFile_refused_ok.1 hstep
            exact ⟨h.other rfl (by simp), rfl⟩
    | receive j n =>
        obtain rfl := hown j rfl
        exact h.receive hstep
    | accept =>
        obtain ⟨_, _, _, _, rfl⟩ := accept_ok.1 hstep
        exact ⟨⟨h.1, fun unread hsending => by cases hsending⟩, rfl⟩
    | serve n => exact ⟨h.serve hfound hstep, rfl⟩
    | sendBlock n => exact ⟨h.sendBlock hstep, rfl⟩
    | endOfFile => exact ⟨h.endOfFile hstep, rfl⟩
    | close => exact ⟨h.close hstep, rfl⟩

/-- **Nothing arrives** of a file that the server does not find. -/
theorem Unserved.of_receives (h : Receives c k (NotFound c k) (FileTransfer.start disk) w got) :
    Unserved k w ∧ got = [] := by
  refine h.invariant (I := fun w got => Unserved k w ∧ got = []) ?_ ?_
  · exact ⟨⟨rfl, fun unread hsending => by cases hsending⟩, rfl⟩
  · rintro w w' got a ⟨hw, rfl⟩ hfound hstep
    exact hw.act hfound hstep

/-! ## What a download leaves behind -/

/-- Client `k`'s program ends. -/
theorem Downloading.ends {n : Option Nat} (h : Downloading c k files w got)
    (hn : n = none ∨ n = some 0) (hstep : FileTransfer.receive c w k n = .ok w') :
    w'.disk (c.directory k) = Function.update files (requestedName c k) (some got) := by
  rcases hn with rfl | rfl
  · obtain ⟨hphase, rfl⟩ := (receive_failed_ok (c := c)).1 hstep
    rw [Downloading, hphase] at h
    exact h.1
  · obtain ⟨hphase, _, rfl⟩ := receive_end_ok.1 hstep
    rw [Downloading, hphase] at h
    exact h.1

/-- **What a download leaves behind.** Whatever the other parties do, and wherever the session of
    client `k` ends: the files are as before if the local file could not be opened; otherwise the
    local file holds just what was received, which is nothing if the server did not find the file. -/
theorem unsuccessful_download (c : Setting) (disk : Nat → Name → Option Content) (k : Nat)
    (w w' : World) (got : Content) (hrun : Receives c k (Alone c k) (start disk) w got) :
    (act c w (.openFile k false) = .ok w' → w'.disk (c.directory k) = disk (c.directory k)) ∧
      (∀ n, n = none ∨ n = some 0 → act c w (.receive k n) = .ok w' →
        w'.disk (c.directory k)
            = Function.update (disk (c.directory k)) (requestedName c k) (some got) ∧
          (w'.disk (c.directory k) = disk (c.directory k) ↔
            disk (c.directory k) (requestedName c k) = some got)) ∧
      (Receives c k (NotFound c k) (start disk) w got → got = []) := by
  have hw := Downloading.of_receives hrun
  refine ⟨fun hstep => ?_, fun n hn hstep => ?_, fun hnot => (Unserved.of_receives hnot).2⟩
  · obtain ⟨hphase, _, rfl⟩ := openFile_refused_ok.1 hstep
    rw [Downloading, hphase] at hw
    exact hw.2.1
  · have hends := hw.ends hn hstep
    refine ⟨hends, ?_⟩
    rw [hends, Function.update_eq_self_iff]
    exact eq_comm

/-! ### A file that the server does not have -/

/-- No other client runs, and the server does not find the file. -/
def Unavailable (c : Setting) (k : Nat) (w : World) (a : Action) : Prop :=
  Alone c k w a ∧ NotFound c k w a

theorem Alone.own {a : Action} (ha : a.client = some k) (w : World) : Alone c k w a :=
  fun _ hj _ => Option.some.inj (hj.symm.trans ha)

theorem Alone.server {a : Action} (ha : a.client = none) (w : World) : Alone c k w a := by
  intro _ hj
  rw [ha] at hj
  cases hj

/-- Client `k` has asked for a file and waits; the server has done nothing yet. -/
structure Asking (k : Nat) (name : FileName) (w : World) : Prop where
  queued : w.queue = [k]
  accepting : w.server.phase = .accepting
  receiving : (w.session k).phase = .receiving
  requested : (w.session k).up.flight = padded name.bytes
  nothing : (w.session k).down.flight = []

theorem asking_session (c : Setting) (disk : Nat → Name → Option Content) (k : Nat)
    (name : FileName) (htyped : c.typed k = name.bytes ++ [10]) :
    ∃ w, Receives c k (Unavailable c k) (start disk) w [] ∧ Asking k name w := by
  have hword : (word (c.typed k)).length ≤ fileNameMaxSize := by
    rw [htyped, word_typed]
    exact name.fits
  let w₁ : World := { (start disk).set k { fresh with phase := .connected } with queue := [k] }
  let s₂ : Session := { fresh with phase := .connected }.requested c k bufferSize
  let w₂ : World := w₁.set k s₂
  let s₃ : Session := { s₂ with phase := .receiving, buffer := zeros bufferSize }
  let w₃ : World := (w₂.set k s₃).store (c.directory k) (requestedName c k) []
  have e₁ : w₁.session k = { fresh with phase := .connected } := set_session_self _
  have e₂ : w₂.session k = s₂ := set_session_self _
  have e₃ : w₃.session k = s₃ := set_session_self _
  have h₁ : act c (start disk) (.connect k) = .ok w₁ := connect_ok.2 ⟨rfl, rfl⟩
  have h₂ : act c w₁ (.request k bufferSize) = .ok w₂ :=
    request_ok.2 ⟨⟨by rw [e₁], Nat.le_refl _⟩, hword, by rw [e₁]⟩
  have h₃ : act c w₂ (.openFile k true) = .ok w₃ := by
    refine openFile_ok.2 ⟨by rw [e₂]; rfl, requestedName c k, ?_, by rw [e₂]⟩
    rw [e₂]
    exact scanString_typedName _
  have hstart : Receives c k (Unavailable c k) (start disk) (start disk) [] := Receives.start
  have hconnected := hstart.quiet (a := .connect k) ⟨Alone.own rfl _, trivial⟩ rfl h₁
  have hrequested := hconnected.quiet (a := .request k bufferSize) ⟨Alone.own rfl _, trivial⟩ rfl h₂
  refine ⟨w₃, hrequested.quiet (a := .openFile k true) ⟨Alone.own rfl _, trivial⟩ rfl h₃, ?_⟩
  refine ⟨rfl, rfl, by rw [e₃], ?_, by rw [e₃]; rfl⟩
  rw [e₃, ← List.take_length (l := padded name.bytes), padded_length name.fits,
    ← requestedName_typed htyped]
  rfl

/-- The server accepts the client, does not find the file and closes the connection. -/
theorem not_found_session {name : FileName} {w₀ : World}
    (hrun : Receives c k (Unavailable c k) w₀ w []) (h : Asking k name w)
    (hfile : c.files name.bytes = none) :
    ∃ w₁ w₂, Receives c k (Unavailable c k) w₀ w₁ [] ∧ act c w₁ (.receive k (some 0)) = .ok w₂ := by
  let w₄ : World := { w with
    queue := [], server := { w.server with phase := .accepted k, buffer := zeros bufferSize } }
  let s₅ : Session := { w.session k with up := (w.session k).up.after bufferSize }
  let w₅ : World := { w₄.set k s₅ with server := w₄.server.opened k name.bytes none }
  let s₆ : Session := { s₅ with down := s₅.down.close }
  let w₆ : World := { w₅.set k s₆ with server := { w₅.server with phase := .accepting } }
  have e₅ : w₅.session k = s₅ := set_session_self _
  have e₆ : w₆.session k = s₆ := set_session_self _
  have h₄ : act c w .accept = .ok w₄ := accept_ok.2 ⟨h.accepting, k, [], h.queued, rfl⟩
  have h₅ : act c w₄ (.serve (some bufferSize)) = .ok w₅ := by
    refine (serve_eq (w := w₄) (k := k) rfl name.textual name.fits h.requested).trans ?_
    rw [hfile]
  have h₆ : act c w₅ .close = .ok w₆ := (close_ok (w := w₅)).2 ⟨k, rfl, by rw [e₅]⟩
  have hnotFound : NotFound c k w₄ (.serve (some bufferSize)) := by
    intro w' _ hserve
    obtain rfl : w₅ = w' := Except.ok.inj (h₅.symm.trans hserve)
    rfl
  have haccepted := hrun.quiet (a := .accept) ⟨Alone.server rfl _, trivial⟩ rfl h₄
  have hserved := haccepted.quiet (a := .serve (some bufferSize)) ⟨Alone.server rfl _, hnotFound⟩
    rfl h₅
  have hclosed := hserved.quiet (a := .close) ⟨Alone.server rfl _, trivial⟩ rfl h₆
  refine ⟨w₆, w₆.set k { s₆ with phase := .finished, up := s₆.up.close }, hclosed, ?_⟩
  refine receive_end_ok.2 ⟨?_, ?_, by rw [e₆]⟩
  · rw [e₆]
    exact h.receiving
  · rw [e₆]
    exact ⟨h.nothing, rfl⟩

/-- The client that asks for the file "ab" has a local file of that name. -/
def abDisk : Nat → Name → Option Content :=
  fun _ name => if name = [97, 98] then some [7, 7] else none

theorem ab_session : ∃ w w', Receives abSetting 0 (Unavailable abSetting 0) (start abDisk) w [] ∧
    act abSetting w (.receive 0 (some 0)) = .ok w' := by
  obtain ⟨w, hrun, hasking⟩ := asking_session abSetting abDisk 0 abName rfl
  exact not_found_session hrun hasking rfl

theorem unsuccessful_download_ab : ∃ w w',
    Receives abSetting 0 (Alone abSetting 0) (start abDisk) w [] ∧
      act abSetting w (.receive 0 (some 0)) = .ok w' ∧
        w'.disk 0 = Function.update (abDisk 0) [97, 98] (some []) := by
  obtain ⟨w, w', hrun, hstep⟩ := ab_session
  have halone := hrun.mono fun _ _ h => h.1
  have hends := (unsuccessful_download abSetting abDisk 0 w w' [] halone).2.1 (some 0) (Or.inr rfl)
    hstep
  exact ⟨w, w', halone, hstep, hends.1⟩

/-- The server does not have the file, and the local file of that name loses its contents. -/
theorem unsuccessful_download_empties : ∃ w w',
    Receives abSetting 0 (Unavailable abSetting 0) (start abDisk) w [] ∧
      act abSetting w (.receive 0 (some 0)) = .ok w' ∧
        abDisk 0 [97, 98] = some [7, 7] ∧ w'.disk 0 [97, 98] = some [] := by
  obtain ⟨w, w', hrun, hstep⟩ := ab_session
  have hw := Downloading.of_receives (hrun.mono fun _ _ h => h.1)
  have hends := hw.ends (Or.inr rfl) hstep
  refine ⟨w, w', hrun, hstep, rfl, ?_⟩
  rw [show w'.disk 0 = _ from hends]
  exact Function.update_self ..

end LinuxSamples.FileTransfer
