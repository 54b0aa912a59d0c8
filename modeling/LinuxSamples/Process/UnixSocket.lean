import LinuxSamples.Network.Blocks
import LinuxSamples.Network.Wire
import LinuxSamples.Socket.Buffer

set_option autoImplicit false

/-! # A greeting over a Unix domain socket

In `test_unix_domain_socket_1.cpp` a process forks: the parent is the server, the child its client.
Nothing makes the client wait until the server listens, and it does not try a second time: if its
`connect` comes first, it ends with `exit(1)`, and the server waits in `accept` for ever.

The names of the sockets are files that may be left over from a run before; that a server of such a run
still listens there is left out. A `recv` may return less than was sent; what it returns is part of the
turn. -/

namespace LinuxSamples.UnixSocket

open LinuxSamples.Program LinuxSamples.Memory LinuxSamples.Socket LinuxSamples.Network

/-! ## The program -/

/-- What there is under the name of a socket. -/
inductive Path
  | absent
  /-- A file left over from a run before, where nobody listens. -/
  | stale
  /-- The socket of this run. -/
  | bound
  deriving DecidableEq, Repr

/-- What the server does next. -/
inductive Server
  /-- `unlink(server_sock_path)`. -/
  | unlinking
  | binding
  /-- `listen`. -/
  | listening
  | accepting
  /-- `recv`, and the line after it. -/
  | receiving
  | sending
  /-- `close(server_sock)`. -/
  | closingListener
  /-- `close(client_fd)`. -/
  | closingClient
  /-- `remove(server_sock_path)`. -/
  | removing
  /-- `wait`, and the lines after it. -/
  | waiting
  | finished
  /-- `exit(1)`: `bind` failed. -/
  | exited
  deriving DecidableEq, Repr

/-- What the client does next. -/
inductive Client
  /-- `unlink(client_sock_path)`. -/
  | unlinking
  | binding
  | connecting
  | sending
  | receiving
  | closing
  /-- `remove(client_sock_path)`. -/
  | removing
  | exited (status : Int)
  deriving DecidableEq, Repr

/-- Why a `connect` fails. -/
inductive Errno
  /-- `ENOENT`: there is nothing under the name. -/
  | noEntry
  /-- `ECONNREFUSED`: nobody listens there. -/
  | refused
  deriving DecidableEq, Repr

/-- The lines that depend on what the other process does. -/
inductive Line
  /-- `CLIENT: fail to connect: ...` -/
  | connectFailed (errno : Errno)
  /-- `SERVER: Server received message: ...` -/
  | serverReceived (text : Except Fault (List UInt8))
  /-- `CLIENT: Message received: ...` -/
  | clientReceived (text : Except Fault (List UInt8))
  /-- `process ID of the terminated child: ...` -/
  | terminated (pid : Int)
  /-- `child process ended with: exit(...)` -/
  | exited (status : Int)
  /-- `====== test finish ======` -/
  | finish

/-- `pending`: a connection waits for `accept`. -/
structure World where
  serverPath : Path
  clientPath : Path
  listens : Bool
  pending : Bool
  toServer : Wire UInt8
  toClient : Wire UInt8
  server : Server
  client : Client
  printed : List Line

inductive Party
  | server
  | client
  deriving DecidableEq, Repr

/-- A process takes a step, in which `recv` returns `n` if it is called. -/
structure Turn where
  party : Party
  n : Nat

/-- `buf_len`. -/
def bufLen : Nat := 256

/-- The bytes of a string literal. -/
def literal (s : String) : List UInt8 := s.toList.map fun c => c.toNat.toUInt8

def fromClient : List UInt8 := literal "hello from client"

def fromServer : List UInt8 := literal "hello from server"

/-- What `send` takes from `buf` after `memset` and `strcpy`. -/
def message (text : List UInt8) : List UInt8 := block 0 bufLen text

/-- What `%s` prints of `buf` after `memset` and `recv`. -/
def shown (bytes : List UInt8) : Except Fault (List UInt8) := scanString (filled (zeros bufLen) bytes)

variable (pid : Int)

/-- The next step of the server, to which `fork` has returned `pid`. -/
def serverStep (w : World) (n : Nat) : Option World :=
  match w.server with
  | .unlinking => some { w with serverPath := .absent, server := .binding }
  | .binding =>
      if w.serverPath = .absent then some { w with serverPath := .bound, server := .listening }
      else some { w with server := .exited }
  | .listening => some { w with listens := true, server := .accepting }
  | .accepting => if w.pending then some { w with pending := false, server := .receiving } else none
  | .receiving =>
      if w.toServer.Gives bufLen n then some { w with
        toServer := w.toServer.after n
        printed := w.printed ++ [.serverReceived (shown (w.toServer.piece n))]
        server := .sending }
      else none
  | .sending =>
      some { w with toClient := w.toClient.send (message fromServer), server := .closingListener }
  | .closingListener => some { w with listens := false, server := .closingClient }
  | .closingClient => some { w with toClient := w.toClient.close, server := .removing }
  | .removing => some { w with serverPath := .absent, server := .waiting }
  | .waiting =>
      match w.client with
      | .exited status =>
          some { w with
            printed := w.printed ++ [.terminated pid, .exited status, .finish], server := .finished }
      | _ => none
  | .finished | .exited => none

/-- The next step of the client. -/
def clientStep (w : World) (n : Nat) : Option World :=
  match w.client with
  | .unlinking => some { w with clientPath := .absent, client := .binding }
  | .binding =>
      if w.clientPath = .absent then some { w with clientPath := .bound, client := .connecting }
      else some { w with client := .exited 1 }
  | .connecting =>
      if w.serverPath = .bound ∧ w.listens then some { w with pending := true, client := .sending }
      else some { w with
        printed := w.printed ++ [.connectFailed (if w.serverPath = .absent then .noEntry else .refused)]
        client := .exited 1 }
  | .sending => some { w with toServer := w.toServer.send (message fromClient), client := .receiving }
  | .receiving =>
      if w.toClient.Gives bufLen n then some { w with
        toClient := w.toClient.after n
        printed := w.printed ++ [.clientReceived (shown (w.toClient.piece n))]
        client := .closing }
      else none
  | .closing => some { w with toServer := w.toServer.close, client := .removing }
  | .removing => some { w with clientPath := .absent, client := .exited 0 }
  | .exited _ => none

def step (w : World) (t : Turn) : Option World :=
  match t.party with
  | .server => serverStep pid w t.n
  | .client => clientStep w t.n

/-- After `fork`, with what is left over under the names. -/
def start (left₁ left₂ : Path) : World :=
  ⟨left₁, left₂, false, false, Wire.idle, Wire.idle, .unlinking, .unlinking, []⟩

/-- The client does not connect before the server listens. -/
def Patient (w : World) (t : Turn) : Prop :=
  t.party = .client → w.client = .connecting → w.listens = true

/-! ## What is received -/

/-- Whatever part of the message arrived, the rest of `buf` is zero. -/
theorem filled_take {text : List UInt8} (hlen : text.length < bufLen) (n : Nat) :
    ∃ k, filled (zeros bufLen) ((message text).take n)
      = (text.take n).map some ++ some 0 :: List.replicate k (some 0) := by
  refine ⟨bufLen - (text.take n).length - 1, ?_⟩
  have htake : (text.take n).length ≤ text.length := List.length_take_le' ..
  have hzeros : List.replicate (min (n - text.length) (bufLen - text.length)) (some (0 : UInt8))
      ++ List.replicate
        (bufLen - ((text.take n).length + min (n - text.length) (bufLen - text.length))) (some 0)
      = some 0 :: List.replicate (bufLen - (text.take n).length - 1) (some 0) := by
    rw [List.replicate_append_replicate, ← List.replicate_succ]
    congr 1
    rw [List.length_take] at htake ⊢
    omega
  rw [filled_eq, message, block, zeros, List.take_append, List.take_replicate, List.map_append,
    List.map_replicate, List.append_assoc, List.length_append, List.length_replicate,
    List.drop_replicate, hzeros]

/-- What is printed of a message of which the first `n` bytes arrived. -/
theorem shown_take {text : List UInt8} (htext : 0 ∉ text) (hlen : text.length < bufLen) (n : Nat) :
    shown ((message text).take n) = .ok (text.take n) := by
  obtain ⟨k, hk⟩ := filled_take hlen n
  rw [shown, hk]
  exact scanString_textual (fun h => htext (List.mem_of_mem_take h)) _

theorem message_ne_nil (text : List UInt8) (hlen : text.length < bufLen) : message text ≠ [] := by
  intro h
  have hlength := congrArg List.length h
  rw [message, block_length (Nat.le_of_lt hlen)] at hlength
  cases hlength

/-- The beginning of a text that a `recv` shows. -/
def Beginning (text : List UInt8) (bytes : Except Fault (List UInt8)) : Prop :=
  ∃ n, 0 < n ∧ bytes = .ok (text.take n)

theorem beginning_of_gives {text : List UInt8} {w : Wire UInt8} {n : Nat} (htext : 0 ∉ text)
    (hlen : text.length < bufLen) (hflight : w.flight = message text) (hgives : w.Gives bufLen n) :
    Beginning text (shown (w.piece n)) := by
  refine ⟨n, ?_, ?_⟩
  · by_contra hn
    obtain rfl : n = 0 := by omega
    rw [Wire.gives_zero, hflight] at hgives
    exact message_ne_nil text hlen hgives.1
  · rw [Wire.piece, hflight, shown_take htext hlen]

/-- A `recv` on a wire that holds the message once it was sent, and is not closed before. -/
theorem received {text : List UInt8} {w : Wire UInt8} {n : Nat} {sent : Bool} (htext : 0 ∉ text)
    (hlen : text.length < bufLen) (hflight : w.flight = if sent then message text else [])
    (hclosed : w.closed = true → sent = true) (hgives : w.Gives bufLen n) :
    sent = true ∧ Beginning text (shown (w.piece n)) := by
  cases sent with
  | true => exact ⟨rfl, beginning_of_gives htext hlen hflight hgives⟩
  | false =>
      -- nothing is in flight, so it would have to be closed
      have hn : n = 0 := by
        by_contra hn
        have hle := ((Wire.gives_pos hn).1 hgives).2
        rw [hflight] at hle
        exact hn (Nat.le_zero.1 hle)
      subst hn
      cases hclosed (Wire.gives_zero.1 hgives).2

theorem zero_notMem_fromClient : 0 ∉ fromClient := by decide

theorem zero_notMem_fromServer : 0 ∉ fromServer := by decide

/-! ## One step -/

section Steps

variable {w w' : World} {t : Turn} {n : Nat}

/-- The ways the server can go on. -/
inductive ServerMove (w : World) : World → Prop
  | unlink : w.server = .unlinking → ServerMove w { w with serverPath := .absent, server := .binding }
  | bind : w.server = .binding → w.serverPath = .absent →
      ServerMove w { w with serverPath := .bound, server := .listening }
  | fail : w.server = .binding → w.serverPath ≠ .absent → ServerMove w { w with server := .exited }
  | listen : w.server = .listening → ServerMove w { w with listens := true, server := .accepting }
  | accept : w.server = .accepting → w.pending = true →
      ServerMove w { w with pending := false, server := .receiving }
  | recv (n : Nat) : w.server = .receiving → w.toServer.Gives bufLen n → ServerMove w { w with
      toServer := w.toServer.after n
      printed := w.printed ++ [.serverReceived (shown (w.toServer.piece n))]
      server := .sending }
  | send : w.server = .sending → ServerMove w { w with
      toClient := w.toClient.send (message fromServer), server := .closingListener }
  | closeListener : w.server = .closingListener →
      ServerMove w { w with listens := false, server := .closingClient }
  | closeClient : w.server = .closingClient →
      ServerMove w { w with toClient := w.toClient.close, server := .removing }
  | remove : w.server = .removing → ServerMove w { w with serverPath := .absent, server := .waiting }
  | reap (status : Int) : w.server = .waiting → w.client = .exited status → ServerMove w { w with
      printed := w.printed ++ [.terminated pid, .exited status, .finish], server := .finished }

/-- The ways the client can go on. -/
inductive ClientMove (w : World) : World → Prop
  | unlink : w.client = .unlinking → ClientMove w { w with clientPath := .absent, client := .binding }
  | bind : w.client = .binding → w.clientPath = .absent →
      ClientMove w { w with clientPath := .bound, client := .connecting }
  | fail : w.client = .binding → w.clientPath ≠ .absent → ClientMove w { w with client := .exited 1 }
  | connect : w.client = .connecting → w.serverPath = .bound → w.listens = true →
      ClientMove w { w with pending := true, client := .sending }
  | refused (errno : Errno) : w.client = .connecting → ¬ (w.serverPath = .bound ∧ w.listens = true) →
      ClientMove w { w with printed := w.printed ++ [.connectFailed errno], client := .exited 1 }
  | send : w.client = .sending →
      ClientMove w { w with toServer := w.toServer.send (message fromClient), client := .receiving }
  | recv (n : Nat) : w.client = .receiving → w.toClient.Gives bufLen n → ClientMove w { w with
      toClient := w.toClient.after n
      printed := w.printed ++ [.clientReceived (shown (w.toClient.piece n))]
      client := .closing }
  | close : w.client = .closing →
      ClientMove w { w with toServer := w.toServer.close, client := .removing }
  | remove : w.client = .removing →
      ClientMove w { w with clientPath := .absent, client := .exited 0 }

theorem serverStep_move (h : serverStep pid w n = some w') : ServerMove pid w w' := by
  unfold serverStep at h
  cases hphase : w.server with
  | unlinking =>
      simp only [hphase, Option.some.injEq] at h
      exact h ▸ ServerMove.unlink hphase
  | binding =>
      simp only [hphase] at h
      split at h
      · next hpath => exact Option.some.inj h ▸ ServerMove.bind hphase hpath
      · next hpath => exact Option.some.inj h ▸ ServerMove.fail hphase hpath
  | listening =>
      simp only [hphase, Option.some.injEq] at h
      exact h ▸ ServerMove.listen hphase
  | accepting =>
      simp only [hphase, Option.ite_none_right_eq_some, Option.some.injEq] at h
      exact h.2 ▸ ServerMove.accept hphase h.1
  | receiving =>
      simp only [hphase, Option.ite_none_right_eq_some, Option.some.injEq] at h
      exact h.2 ▸ ServerMove.recv n hphase h.1
  | sending =>
      simp only [hphase, Option.some.injEq] at h
      exact h ▸ ServerMove.send hphase
  | closingListener =>
      simp only [hphase, Option.some.injEq] at h
      exact h ▸ ServerMove.closeListener hphase
  | closingClient =>
      simp only [hphase, Option.some.injEq] at h
      exact h ▸ ServerMove.closeClient hphase
  | removing =>
      simp only [hphase, Option.some.injEq] at h
      exact h ▸ ServerMove.remove hphase
  | waiting =>
      simp only [hphase] at h
      split at h
      · next status hclient => exact Option.some.inj h ▸ ServerMove.reap status hphase hclient
      · cases h
  | finished | exited => simp [hphase] at h

theorem clientStep_move (h : clientStep w n = some w') : ClientMove w w' := by
  unfold clientStep at h
  cases hphase : w.client with
  | unlinking =>
      simp only [hphase, Option.some.injEq] at h
      exact h ▸ ClientMove.unlink hphase
  | binding =>
      simp only [hphase] at h
      split at h
      · next hpath => exact Option.some.inj h ▸ ClientMove.bind hphase hpath
      · next hpath => exact Option.some.inj h ▸ ClientMove.fail hphase hpath
  | connecting =>
      simp only [hphase] at h
      split at h
      · next hopen => exact Option.some.inj h ▸ ClientMove.connect hphase hopen.1 hopen.2
      · next hshut => exact Option.some.inj h ▸ ClientMove.refused _ hphase hshut
  | sending =>
      simp only [hphase, Option.some.injEq] at h
      exact h ▸ ClientMove.send hphase
  | receiving =>
      simp only [hphase, Option.ite_none_right_eq_some, Option.some.injEq] at h
      exact h.2 ▸ ClientMove.recv n hphase h.1
  | closing =>
      simp only [hphase, Option.some.injEq] at h
      exact h ▸ ClientMove.close hphase
  | removing =>
      simp only [hphase, Option.some.injEq] at h
      exact h ▸ ClientMove.remove hphase
  | exited status => simp [hphase] at h

theorem step_move (h : step pid w t = some w') :
    t.party = .server ∧ ServerMove pid w w' ∨ t.party = .client ∧ ClientMove w w' := by
  obtain ⟨party, n⟩ := t
  cases party with
  | server => exact Or.inl ⟨rfl, serverStep_move pid h⟩
  | client => exact Or.inr ⟨rfl, clientStep_move h⟩

end Steps

/-! ## Before a connection -/

/-- The server has not got past `accept`. -/
def Server.Waits (s : Server) : Prop :=
  s = .unlinking ∨ s = .binding ∨ s = .listening ∨ s = .accepting

/-- No connection was made. -/
structure Unmet (w : World) : Prop where
  server : w.server.Waits
  pending : w.pending = false
  toServer : w.toServer = Wire.idle
  toClient : w.toClient = Wire.idle
  unlinked : w.server = .binding → w.serverPath = .absent
  bound : w.server = .listening ∨ w.server = .accepting → w.serverPath = .bound
  listens : w.listens = true ↔ w.server = .accepting

/-- The client has not called `connect`. -/
structure Early (w : World) : Prop where
  unmet : Unmet w
  client : w.client = .unlinking ∨ w.client = .binding ∨ w.client = .connecting
  unlinked : w.client = .binding → w.clientPath = .absent
  printed : w.printed = []

/-- The `connect` of the client failed. -/
structure Refused (w : World) : Prop where
  unmet : Unmet w
  client : w.client = .exited 1
  printed : ∃ errno, w.printed = [.connectFailed errno]

section Before

variable {w w' : World} {t : Turn}

theorem Early.start (left₁ left₂ : Path) : Early (start left₁ left₂) where
  unmet :=
    { server := Or.inl rfl
      pending := rfl
      toServer := rfl
      toClient := rfl
      unlinked := by simp [UnixSocket.start]
      bound := by simp [UnixSocket.start]
      listens := by simp [UnixSocket.start] }
  client := Or.inl rfl
  unlinked := by simp [UnixSocket.start]
  printed := rfl

/-- A server without a connection listens in the end, and changes nothing that the client sees else. -/
theorem ServerMove.unmet (hmove : ServerMove pid w w') (h : Unmet w) :
    Unmet w' ∧ w'.client = w.client ∧ w'.clientPath = w.clientPath ∧ w'.printed = w.printed := by
  obtain ⟨hserver, hpending, htoServer, htoClient, hunlinked, hbound, hlistens⟩ := h
  refine ⟨?_, ?_⟩
  · cases hmove with
    | unlink hphase =>
        rw [hphase] at hlistens
        exact ⟨by simp [Server.Waits], hpending, htoServer, htoClient, fun _ => rfl, by simp,
          by simpa using hlistens⟩
    | bind hphase =>
        rw [hphase] at hlistens
        exact ⟨by simp [Server.Waits], hpending, htoServer, htoClient, by simp, fun _ => rfl,
          by simpa using hlistens⟩
    | fail hphase hpath => exact absurd (hunlinked hphase) hpath
    | listen hphase =>
        exact ⟨by simp [Server.Waits], hpending, htoServer, htoClient, by simp,
          fun _ => hbound (Or.inl hphase), by simp⟩
    | accept _ hconnected => simp [hpending] at hconnected
    | recv _ hphase | send hphase | closeListener hphase | closeClient hphase | remove hphase
    | reap _ hphase => simp [hphase, Server.Waits] at hserver
  · cases hmove with
    | recv _ hphase | reap _ hphase => simp [hphase, Server.Waits] at hserver
    | _ => exact ⟨rfl, rfl, rfl⟩

theorem ServerMove.early (hmove : ServerMove pid w w') (h : Early w) : Early w' := by
  obtain ⟨hunmet, hclient, hpath, hprinted⟩ := hmove.unmet pid h.unmet
  exact ⟨hunmet, hclient ▸ h.client, by rw [hclient, hpath]; exact h.unlinked,
    hprinted.trans h.printed⟩

theorem ServerMove.refused (hmove : ServerMove pid w w') (h : Refused w) : Refused w' := by
  obtain ⟨hunmet, hclient, _, hprinted⟩ := hmove.unmet pid h.unmet
  exact ⟨hunmet, hclient.trans h.client, hprinted ▸ h.printed⟩

/-- What the client does by itself leaves the server where it was. -/
theorem Unmet.of_client (h : Unmet w) (path : Path) (client : Client) (printed : List Line) :
    Unmet { w with clientPath := path, client := client, printed := printed } :=
  ⟨h.server, h.pending, h.toServer, h.toClient, h.unlinked, h.bound, h.listens⟩

/-- A client whose `connect` failed does nothing any more. -/
theorem Refused.client_stuck (h : Refused w) (n : Nat) : clientStep w n = none := by
  simp [clientStep, h.client]

theorem Refused.no_move (h : Refused w) : ¬ ClientMove w w' := by
  intro hmove
  cases hmove <;> simp_all [h.client]

/-- The server of a client that has gone takes the steps up to `accept`, and then none. -/
theorem Refused.stuck_or_step (h : Refused w) :
    w.server = .accepting ∧ (∀ t, step pid w t = none) ∨ ∃ t, (step pid w t).isSome := by
  have hserver := h.unmet.server
  rcases hserver with hphase | hphase | hphase | hphase
  · exact Or.inr ⟨⟨.server, 0⟩, by simp [step, serverStep, hphase]⟩
  · exact Or.inr ⟨⟨.server, 0⟩, by simp [step, serverStep, hphase, h.unmet.unlinked hphase]⟩
  · exact Or.inr ⟨⟨.server, 0⟩, by simp [step, serverStep, hphase]⟩
  · refine Or.inl ⟨hphase, fun t => ?_⟩
    obtain ⟨party, n⟩ := t
    cases party with
    | server => simp [step, serverStep, hphase, h.unmet.pending]
    | client => exact h.client_stuck n

end Before

/-! ## With a connection -/

/-- The server has received the message of the client. -/
def Server.got : Server → Bool
  | .sending | .closingListener | .closingClient | .removing | .waiting | .finished => true
  | _ => false

/-- The server has sent its own. -/
def Server.answered : Server → Bool
  | .closingListener | .closingClient | .removing | .waiting | .finished => true
  | _ => false

/-- The client has sent its message. -/
def Client.asked : Client → Bool
  | .receiving | .closing | .removing | .exited _ => true
  | _ => false

/-- The client has received the message of the server. -/
def Client.got : Client → Bool
  | .closing | .removing | .exited _ => true
  | _ => false

/-- What is printed of the two messages, and at the end. -/
def Printed (w : World) : Prop :=
  ∃ x y, Beginning fromClient x ∧ Beginning fromServer y ∧ w.printed
    = (if w.server.got then [.serverReceived x] else [])
      ++ (if w.client.got then [.clientReceived y] else [])
      ++ if w.server = .finished then [.terminated pid, .exited 0, .finish] else []

/-- The client has connected. -/
structure Connected (w : World) : Prop where
  server : w.server = .accepting ∨ w.server = .receiving ∨ w.server.got = true
  client : w.client = .sending ∨ w.client.asked = true
  pending : w.server = .accepting → w.pending = true
  asked : w.server.got = true → w.client.asked = true
  answered : w.client.got = true → w.server.answered = true
  toServer : w.server.got = false →
    w.toServer.flight = if w.client.asked then message fromClient else []
  toServerClosed : w.toServer.closed = true → w.client.got = true
  toClient : w.client.got = false →
    w.toClient.flight = if w.server.answered then message fromServer else []
  toClientClosed : w.toClient.closed = true → w.server.answered = true
  serverPath : w.server = .waiting ∨ w.server = .finished → w.serverPath = .absent
  exited : ∀ status, w.client = .exited status → status = 0 ∧ w.clientPath = .absent
  finished : w.server = .finished → w.client = .exited 0
  printed : Printed pid w

section After

variable {w w' : World} {t : Turn}

theorem beginning_self {text : List UInt8} : Beginning text (.ok (text.take 1)) :=
  ⟨1, Nat.one_pos, rfl⟩

theorem Client.asked_of_got {c : Client} (h : c.got = true) : c.asked = true := by
  cases c with
  | closing | removing | exited => rfl
  | _ => cases h

theorem Server.got_of_answered {s : Server} (h : s.answered = true) : s.got = true := by
  cases s with
  | closingListener | closingClient | removing | waiting | finished => rfl
  | _ => cases h

/-- The client connects. -/
theorem Early.connect (h : Early w) (hlistens : w.listens = true) :
    Connected pid { w with pending := true, client := .sending } := by
  have hserver := h.unmet.listens.1 hlistens
  exact
    { server := Or.inl hserver
      client := Or.inl rfl
      pending := fun _ => rfl
      asked := by simp [hserver, Server.got]
      answered := by simp [Client.got]
      toServer := by simp [h.unmet.toServer, Wire.idle, Client.asked]
      toServerClosed := by simp [h.unmet.toServer, Wire.idle]
      toClient := by simp [h.unmet.toClient, Wire.idle, hserver, Server.answered]
      toClientClosed := by simp [h.unmet.toClient, Wire.idle]
      serverPath := by simp [hserver]
      exited := by simp
      finished := by simp [hserver]
      printed := ⟨_, _, beginning_self, beginning_self, by
        simp [h.printed, hserver, Server.got, Client.got]⟩ }

/-- What the client makes of the time before a connection. -/
theorem ClientMove.early (hmove : ClientMove w w') (h : Early w) :
    Early w' ∨ Refused w' ∧ w.client = .connecting ∧ w.listens = false ∨ Connected pid w' := by
  cases hmove with
  | unlink =>
      exact Or.inl ⟨h.unmet.of_client _ _ _, Or.inr (Or.inl rfl), fun _ => rfl, h.printed⟩
  | bind =>
      exact Or.inl ⟨h.unmet.of_client _ _ _, Or.inr (Or.inr rfl), by simp, h.printed⟩
  | fail hphase hpath => exact absurd (h.unlinked hphase) hpath
  | connect _ _ hlistens => exact Or.inr (Or.inr (h.connect pid hlistens))
  | refused errno hphase hshut =>
      refine Or.inr (Or.inl ⟨⟨h.unmet.of_client _ _ _, rfl, errno, ?_⟩, hphase, ?_⟩)
      · show w.printed ++ [.connectFailed errno] = [.connectFailed errno]
        rw [h.printed, List.nil_append]
      · by_contra hlistens
        rw [Bool.not_eq_false] at hlistens
        exact hshut ⟨h.unmet.bound (Or.inr (h.unmet.listens.1 hlistens)), hlistens⟩
  | send hphase | recv _ hphase | close hphase | remove hphase =>
      simpa [hphase] using h.client

/-- The server receives the beginning of the message of the client. -/
theorem Connected.server_recv {n : Nat} (h : Connected pid w) (hphase : w.server = .receiving)
    (hgives : w.toServer.Gives bufLen n) :
    w.client.asked = true ∧ Beginning fromClient (shown (w.toServer.piece n)) :=
  received zero_notMem_fromClient (by decide) (h.toServer (by simp [hphase, Server.got]))
    (fun hclosed => Client.asked_of_got (h.toServerClosed hclosed)) hgives

/-- The client receives the beginning of the message of the server. -/
theorem Connected.client_recv {n : Nat} (h : Connected pid w) (hphase : w.client = .receiving)
    (hgives : w.toClient.Gives bufLen n) :
    w.server.answered = true ∧ Beginning fromServer (shown (w.toClient.piece n)) :=
  received zero_notMem_fromServer (by decide) (h.toClient (by simp [hphase, Client.got]))
    h.toClientClosed hgives

/-- A server that has answered leaves the messages alone. -/
theorem Connected.tidied (h : Connected pid w) (hanswered : w.server.answered = true)
    (hanswered' : w'.server.answered = true) (hclient : w'.client = w.client)
    (hclientPath : w'.clientPath = w.clientPath) (htoServer : w'.toServer = w.toServer)
    (hflight : w'.toClient.flight = w.toClient.flight)
    (hserverPath : w'.server = .waiting ∨ w'.server = .finished → w'.serverPath = .absent)
    (hfinished : w'.server = .finished → w.client = .exited 0) (hprinted : Printed pid w') :
    Connected pid w' where
  server := Or.inr (Or.inr (Server.got_of_answered hanswered'))
  client := hclient ▸ h.client
  pending := fun hphase => by simp [hphase, Server.answered] at hanswered'
  asked := fun _ => hclient ▸ h.asked (Server.got_of_answered hanswered)
  answered := fun _ => hanswered'
  toServer := fun hgot => by simp [Server.got_of_answered hanswered'] at hgot
  toServerClosed := by rw [hclient, htoServer]; exact h.toServerClosed
  toClient := fun hgot => by
    rw [hclient] at hgot
    rw [hflight, h.toClient hgot, if_pos hanswered, if_pos hanswered']
  toClientClosed := fun _ => hanswered'
  serverPath := hserverPath
  exited := by rw [hclient, hclientPath]; exact h.exited
  finished := by rw [hclient]; exact hfinished
  printed := hprinted

theorem ServerMove.connected (hmove : ServerMove pid w w') (h : Connected pid w) :
    Connected pid w' := by
  have hserver := h.server
  obtain ⟨x, y, hx, hy, hprinted⟩ := h.printed
  cases hmove with
  | unlink hphase | bind hphase | fail hphase | listen hphase =>
      simp [hphase, Server.got] at hserver
  | accept hphase =>
      exact
        { h with
          server := Or.inr (Or.inl rfl)
          pending := by simp
          asked := by simp [Server.got]
          answered := by simpa [hphase, Server.answered] using h.answered
          toServer := by simpa [hphase, Server.got] using h.toServer
          toClient := by simpa [hphase, Server.answered] using h.toClient
          toClientClosed := by simpa [hphase, Server.answered] using h.toClientClosed
          serverPath := by simp
          finished := by simp
          printed := ⟨x, y, hx, hy, by simpa [hphase, Server.got] using hprinted⟩ }
  | recv n hphase hgives =>
      obtain ⟨hasked, hx'⟩ := h.server_recv pid hphase hgives
      have hgot : w.client.got = false := by
        simpa [hphase, Server.answered] using h.answered
      exact
        { h with
          server := Or.inr (Or.inr rfl)
          pending := by simp
          asked := fun _ => hasked
          answered := by simp [hgot]
          toServer := by simp [Server.got]
          toServerClosed := h.toServerClosed
          toClient := by simpa [hphase, Server.answered] using h.toClient
          toClientClosed := by simpa [hphase, Server.answered] using h.toClientClosed
          serverPath := by simp
          finished := by simp
          printed := ⟨_, y, hx', hy, by simp [hprinted, hphase, hgot, Server.got]⟩ }
  | send hphase =>
      have hasked := h.asked (by simp [hphase, Server.got])
      have hgot : w.client.got = false := by
        simpa [hphase, Server.answered] using h.answered
      have hflight := h.toClient hgot
      exact
        { h with
          server := Or.inr (Or.inr rfl)
          pending := by simp
          asked := fun _ => hasked
          answered := fun _ => rfl
          toServer := by simp [Server.got]
          toClient := fun _ => by simp [hflight, hphase, Server.answered]
          toClientClosed := fun _ => rfl
          serverPath := by simp
          finished := by simp
          printed := ⟨x, y, hx, hy, by simpa [hphase, Server.got] using hprinted⟩ }
  | closeListener hphase =>
      refine h.tidied pid (by simp [hphase, Server.answered]) rfl rfl rfl rfl rfl ?_ ?_ ?_
      · simp
      · simp
      · exact ⟨x, y, hx, hy, by simpa [hphase, Server.got] using hprinted⟩
  | closeClient hphase =>
      refine h.tidied pid (by simp [hphase, Server.answered]) rfl rfl rfl rfl rfl ?_ ?_ ?_
      · simp
      · simp
      · exact ⟨x, y, hx, hy, by simpa [hphase, Server.got] using hprinted⟩
  | remove hphase =>
      refine h.tidied pid (by simp [hphase, Server.answered]) rfl rfl rfl rfl rfl ?_ ?_ ?_
      · exact fun _ => rfl
      · simp
      · exact ⟨x, y, hx, hy, by simpa [hphase, Server.got] using hprinted⟩
  | reap status hphase hexit =>
      obtain ⟨rfl, _⟩ := h.exited status hexit
      refine h.tidied pid (by simp [hphase, Server.answered]) rfl rfl rfl rfl rfl ?_ ?_ ?_
      · exact fun _ => h.serverPath (Or.inl hphase)
      · exact fun _ => hexit
      · exact ⟨x, y, hx, hy, by simp [hprinted, hphase, hexit, Server.got, Client.got]⟩

theorem ClientMove.connected (hmove : ClientMove w w') (h : Connected pid w) :
    Connected pid w' := by
  have hclient := h.client
  have hunfinished : (∀ status, w.client ≠ .exited status) → w.server ≠ .finished :=
    fun hne hfinished => hne 0 (h.finished hfinished)
  obtain ⟨x, y, hx, hy, hprinted⟩ := h.printed
  cases hmove with
  | unlink hphase | bind hphase | fail hphase | connect hphase | refused _ hphase =>
      simp [hphase, Client.asked] at hclient
  | send hphase =>
      have hgot : w.server.got = false := by
        simpa [hphase, Client.asked] using h.asked
      have hflight := h.toServer hgot
      exact
        { h with
          client := Or.inr rfl
          asked := fun _ => rfl
          answered := by simp [Client.got]
          toServer := fun _ => by simp [hflight, hphase, Client.asked]
          toServerClosed := by simpa [hphase, Client.got] using h.toServerClosed
          toClient := by simpa [hphase, Client.got] using h.toClient
          exited := by simp
          finished := fun hfinished => absurd hfinished (hunfinished (by simp [hphase]))
          printed := ⟨x, y, hx, hy, by simpa [hphase, Client.got] using hprinted⟩ }
  | recv n hphase hgives =>
      obtain ⟨hanswered, hy'⟩ := h.client_recv pid hphase hgives
      have hfinished := hunfinished (by simp [hphase])
      exact
        { h with
          client := Or.inr rfl
          asked := fun _ => rfl
          answered := fun _ => hanswered
          toServer := by simp [Server.got_of_answered hanswered]
          toServerClosed := fun _ => rfl
          toClient := by simp [Client.got]
          toClientClosed := h.toClientClosed
          exited := by simp
          finished := fun h' => absurd h' hfinished
          printed := ⟨x, _, hx, hy', by simp [hprinted, hphase, hfinished, Client.got]⟩ }
  | close hphase =>
      have hfinished := hunfinished (by simp [hphase])
      exact
        { h with
          client := Or.inr rfl
          asked := fun _ => rfl
          answered := by simpa [hphase, Client.got] using h.answered
          toServer := by simpa [hphase, Client.asked] using h.toServer
          toServerClosed := fun _ => rfl
          toClient := by simp [Client.got]
          exited := by simp
          finished := fun h' => absurd h' hfinished
          printed := ⟨x, y, hx, hy, by simpa [hphase, Client.got] using hprinted⟩ }
  | remove hphase =>
      have hfinished := hunfinished (by simp [hphase])
      exact
        { h with
          client := Or.inr rfl
          asked := fun _ => rfl
          answered := by simpa [hphase, Client.got] using h.answered
          toServer := by simpa [hphase, Client.asked] using h.toServer
          toServerClosed := fun _ => rfl
          toClient := by simp [Client.got]
          exited := by simp
          finished := fun h' => absurd h' hfinished
          printed := ⟨x, y, hx, hy, by simpa [hphase, Client.got] using hprinted⟩ }

end After

/-! ## Progress -/

section Progress

variable {w w' : World} {t : Turn}

/-- Both processes have ended, and have seen the beginning of what the other sent. -/
def Done (w : World) : Prop :=
  w.server = .finished ∧ w.client = .exited 0 ∧ w.serverPath = .absent ∧ w.clientPath = .absent ∧
    ∃ x y, Beginning fromClient x ∧ Beginning fromServer y ∧ w.printed
      = [.serverReceived x, .clientReceived y, .terminated pid, .exited 0, .finish]

theorem gives_one {text : List UInt8} {w : Wire UInt8} (hlen : text.length < bufLen)
    (hflight : w.flight = message text) : w.Gives bufLen 1 := by
  rw [Wire.gives_pos Nat.one_ne_zero, hflight]
  exact ⟨by decide, List.length_pos_iff.2 (message_ne_nil text hlen)⟩

theorem Early.can_step (h : Early w) : ∃ t, (step pid w t).isSome := by
  refine ⟨⟨.client, 0⟩, ?_⟩
  rcases h.client with hphase | hphase | hphase
  · simp [step, clientStep, hphase]
  · simp [step, clientStep, hphase, h.unlinked hphase]
  · by_cases hopen : w.serverPath = .bound ∧ w.listens = true <;>
      simp [step, clientStep, hphase, hopen]

/-- A client that has connected waits only for the answer of the server. -/
theorem Connected.client_can_step (h : Connected pid w) :
    (∃ n, (clientStep w n).isSome) ∨ w.client = .exited 0 ∨
      w.client = .receiving ∧ w.server.answered = false := by
  have hclient := h.client
  cases hphase : w.client with
  | unlinking | binding | connecting => simp [hphase, Client.asked] at hclient
  | sending | closing | removing => exact Or.inl ⟨0, by simp [clientStep, hphase]⟩
  | receiving =>
      cases hanswered : w.server.answered with
      | false => exact Or.inr (Or.inr ⟨rfl, rfl⟩)
      | true =>
          have hflight := h.toClient (by simp [hphase, Client.got])
          rw [if_pos hanswered] at hflight
          exact Or.inl ⟨1, by simp [clientStep, hphase, gives_one (by decide) hflight]⟩
  | exited status =>
      obtain ⟨rfl, _⟩ := h.exited status hphase
      exact Or.inr (Or.inl rfl)

theorem Connected.done_or_step (h : Connected pid w) :
    Done pid w ∨ ∃ t, (step pid w t).isSome := by
  have hstep : ∀ n, (serverStep pid w n).isSome → ∃ t, (step pid w t).isSome := fun n hn =>
    ⟨⟨.server, n⟩, hn⟩
  rcases h.client_can_step with ⟨n, hn⟩ | hexit | ⟨hreceiving, hanswered⟩
  · exact Or.inr ⟨⟨.client, n⟩, hn⟩
  all_goals
    have hserver := h.server
    have hasked : w.client.asked = true := by simp [*, Client.asked]
  · have hanswered := h.answered (by simp [hexit, Client.got])
    cases hphase : w.server with
    | closingListener | closingClient | removing =>
        exact Or.inr (hstep 0 (by simp [serverStep, hphase]))
    | waiting => exact Or.inr (hstep 0 (by simp [serverStep, hphase, hexit]))
    | finished =>
        obtain ⟨x, y, hx, hy, hprinted⟩ := h.printed
        refine Or.inl ⟨hphase, hexit, h.serverPath (Or.inr hphase), (h.exited 0 hexit).2, x, y, hx,
          hy, ?_⟩
        simpa [hphase, hexit, Server.got, Client.got] using hprinted
    | _ => simp [hphase, Server.answered] at hanswered
  · refine Or.inr ?_
    cases hphase : w.server with
    | accepting => exact hstep 0 (by simp [serverStep, hphase, h.pending hphase])
    | receiving =>
        have hflight := h.toServer (by simp [hphase, Server.got])
        rw [if_pos hasked] at hflight
        exact hstep 1 (by simp [serverStep, hphase, gives_one (by decide) hflight])
    | sending => exact hstep 0 (by simp [serverStep, hphase])
    | unlinking | binding | listening | exited => simp [hphase, Server.got] at hserver
    | _ => simp [hphase, Server.answered] at hanswered

/-- How much is left to do. -/
def World.left (w : World) : Nat :=
  (match w.server with
    | .unlinking => 10
    | .binding => 9
    | .listening => 8
    | .accepting => 7
    | .receiving => 6
    | .sending => 5
    | .closingListener => 4
    | .closingClient => 3
    | .removing => 2
    | .waiting => 1
    | .finished | .exited => 0) +
  (match w.client with
    | .unlinking => 7
    | .binding => 6
    | .connecting => 5
    | .sending => 4
    | .receiving => 3
    | .closing => 2
    | .removing => 1
    | .exited _ => 0)

theorem left_of_step (h : step pid w t = some w') : w'.left < w.left := by
  rcases step_move pid h with ⟨_, hmove⟩ | ⟨_, hmove⟩
  · cases hmove <;> simp [World.left, *]
  · cases hmove <;> simp [World.left, *]

end Progress

/-! ## Who connects in time -/

section Runs

variable {w w' : World} {t : Turn}

/-- The states of all interleavings. -/
def Reachable (left₁ left₂ : Path) (w : World) : Prop :=
  Interleaved (step pid) (fun _ _ => True) (start left₁ left₂) w

theorem Reachable.cases {left₁ left₂ : Path} (h : Reachable pid left₁ left₂ w) :
    Early w ∨ Refused w ∨ Connected pid w := by
  refine h.induct (I := fun w => Early w ∨ Refused w ∨ Connected pid w)
    (Or.inl (Early.start left₁ left₂)) ?_
  rintro w w' t hw _ hstep
  rcases step_move pid hstep with ⟨_, hmove⟩ | ⟨_, hmove⟩
  · rcases hw with hw | hw | hw
    · exact Or.inl (hmove.early pid hw)
    · exact Or.inr (Or.inl (hmove.refused pid hw))
    · exact Or.inr (Or.inr (hmove.connected pid hw))
  · rcases hw with hw | hw | hw
    · rcases hmove.early pid hw with hw' | ⟨hw', _⟩ | hw'
      · exact Or.inl hw'
      · exact Or.inr (Or.inl hw')
      · exact Or.inr (Or.inr hw')
    · exact absurd hmove hw.no_move
    · exact Or.inr (Or.inr (hmove.connected pid hw))

theorem patient_cases {left₁ left₂ : Path}
    (h : Interleaved (step pid) Patient (start left₁ left₂) w) : Early w ∨ Connected pid w := by
  refine h.induct (I := fun w => Early w ∨ Connected pid w) (Or.inl (Early.start left₁ left₂)) ?_
  rintro w w' t hw hpatient hstep
  rcases step_move pid hstep with ⟨_, hmove⟩ | ⟨hparty, hmove⟩
  · exact hw.imp (hmove.early pid) (hmove.connected pid)
  · rcases hw with hw | hw
    · rcases hmove.early pid hw with hw' | ⟨_, hphase, hlistens⟩ | hw'
      · exact Or.inl hw'
      · simp [hpatient hparty hphase] at hlistens
      · exact Or.inr hw'
    · exact Or.inr (hmove.connected pid hw)

theorem refused_of_early_connect {left₁ left₂ : Path} {n : Nat} (h : Reachable pid left₁ left₂ w)
    (hphase : w.client = .connecting) (hlistens : w.listens = false)
    (hstep : step pid w ⟨.client, n⟩ = some w') : Refused w' := by
  have hw : Early w := by
    rcases h.cases pid with hw | hw | hw
    · exact hw
    · cases hphase.symm.trans hw.client
    · have hclient := hw.client
      simp [hphase, Client.asked] at hclient
  have hshut : ¬ (w.serverPath = .bound ∧ w.listens = true) := by simp [hlistens]
  simp only [step, clientStep, hphase, if_neg hshut, Option.some.injEq] at hstep
  subst hstep
  exact ⟨hw.unmet.of_client _ _ _, rfl, _, by rw [hw.printed]; rfl⟩

/-- **The client has to connect in time.** If it does not call `connect` before the server listens, both
    processes end, each with the beginning of what the other sent, and leave no file behind: until then
    one of them can go on. If it calls `connect` too early, it ends with `exit(1)`, and the server comes
    to wait in `accept` for ever, its file left behind. Every step brings the end nearer. -/
theorem connects_in_time (left₁ left₂ : Path) (w : World) :
    (Interleaved (step pid) Patient (start left₁ left₂) w →
      Done pid w ∨ ∃ t, (step pid w t).isSome) ∧
    (∀ v v' n, Reachable pid left₁ left₂ v → v.client = .connecting → v.listens = false →
      step pid v ⟨.client, n⟩ = some v' → Interleaved (step pid) (fun _ _ => True) v' w →
        w.client = .exited 1 ∧ (∃ errno, w.printed = [.connectFailed errno]) ∧ w.server.Waits ∧
          (w.server = .accepting ∧ w.serverPath = .bound ∧ (∀ t, step pid w t = none) ∨
            ∃ t, (step pid w t).isSome)) ∧
    ∀ (turns : List Turn) (w' : World), turns.foldlM (step pid) w = some w' →
      turns.length + w'.left ≤ w.left := by
  refine ⟨fun h => ?_, fun v v' n hreach hphase hlistens hstep h => ?_,
    fun _ _ => schedule_length fun _ _ _ => left_of_step pid⟩
  · rcases patient_cases pid h with hw | hw
    · exact Or.inr (hw.can_step pid)
    · exact hw.done_or_step pid
  · have hstart := refused_of_early_connect pid hreach hphase hlistens hstep
    have hw : Refused w := h.induct hstart fun w w' t hw _ hstep => by
      rcases step_move pid hstep with ⟨_, hmove⟩ | ⟨_, hmove⟩
      · exact hmove.refused pid hw
      · exact absurd hmove hw.no_move
    refine ⟨hw.client, hw.printed, hw.unmet.server, ?_⟩
    rcases hw.stuck_or_step pid with ⟨haccepting, hstuck⟩ | hstep
    · exact Or.inl ⟨haccepting, hw.unmet.bound (Or.inr haccepting), hstuck⟩
    · exact Or.inr hstep

/-- The client is faster than a server that has not listened yet; the server goes on to `accept`. -/
theorem connects_in_time_late : ∃ w, Reachable 7 .stale .absent w ∧ w.server = .accepting ∧
    ∀ t, step 7 w t = none := by
  have hbefore : (([⟨.client, 0⟩, ⟨.client, 0⟩, ⟨.server, 0⟩, ⟨.server, 0⟩] : List Turn).foldlM
      (fun w t => if True then step 7 w t else none) (start .stale .absent))
      = some ⟨.bound, .bound, false, false, Wire.idle, Wire.idle, .listening, .connecting, []⟩ := rfl
  have hreach : Reachable 7 .stale .absent _ := Interleaved.of_schedule hbefore
  have hrefused : step 7
      ⟨.bound, .bound, false, false, Wire.idle, Wire.idle, .listening, .connecting, []⟩ ⟨.client, 0⟩
      = some ⟨.bound, .bound, false, false, Wire.idle, Wire.idle, .listening, .exited 1,
          [.connectFailed .refused]⟩ := rfl
  have hlisten : Interleaved (step 7) (fun _ _ => True)
      ⟨.bound, .bound, false, false, Wire.idle, Wire.idle, .listening, .exited 1,
        [.connectFailed .refused]⟩
      ⟨.bound, .bound, true, false, Wire.idle, Wire.idle, .accepting, .exited 1,
        [.connectFailed .refused]⟩ :=
    Reach.one ⟨.server, 0⟩ trivial (turnOf_returns.2 rfl)
  have hafter := (connects_in_time 7 .stale .absent _).2.1 _ _ 0 hreach rfl rfl hrefused hlisten
  refine ⟨_, (Reach.next hreach trivial (turnOf_returns.2 hrefused)).trans hlisten, rfl, ?_⟩
  rcases hafter.2.2.2 with ⟨_, _, hstuck⟩ | ⟨⟨party, n⟩, hcan⟩
  · exact hstuck
  · cases party <;> cases hcan

end Runs

end LinuxSamples.UnixSocket
