import LinuxSamples.Network.Wire
import LinuxSamples.Socket.Buffer
import Mathlib.Logic.Function.Basic

set_option autoImplicit false

/-! # The file server and its clients

`test_client2.cpp` sends the name of a file, padded to 1024 bytes, and stores what it receives until
the connection is closed; `test_server2.cpp` accepts one connection after the other, reads the name
with a single `recv` and sends the file in blocks of up to 1024 bytes.

A `World` holds the server process, the clients (one for every session, in any directory of the
client side) and the connections between them. `act` is one step of one of them: the code between
two calls that may have to wait. What a call returns is a parameter of the step, so every cut of the
byte streams and every interleaving is a list of actions. A step whose call cannot return so now is
`blocked`; undefined behaviour is a `fault`. -/

namespace LinuxSamples.FileTransfer

open LinuxSamples.Program LinuxSamples.Memory LinuxSamples.Network LinuxSamples.Socket

/-! ## Data -/

abbrev Name : Type := List UInt8

abbrev Content : Type := List UInt8

/-- `BUFFER_SIZE`. -/
def bufferSize : Nat := 1024

/-- `FILE_NAME_MAX_SIZE`. -/
def fileNameMaxSize : Nat := 512

/-- What the programs run in: the files the server can open, what is typed at the terminal of each
    client, and the directory each client runs in. -/
structure Setting where
  files : Name → Option Content
  typed : Nat → List UInt8
  directory : Nat → Nat

/-- How far a client is. -/
inductive Phase
  /-- Not started. -/
  | absent
  /-- `connect` has returned. -/
  | connected
  /-- The request was sent. -/
  | requested
  /-- The local file is open for writing. -/
  | receiving
  /-- The program has ended. -/
  | finished
  deriving DecidableEq, Repr

/-- A client and its connection; `up` leads to the server. -/
structure Session where
  phase : Phase
  file_name : List (Option UInt8)
  buffer : List (Option UInt8)
  up : Wire UInt8
  down : Wire UInt8

/-- How far the server is: waiting in `accept`, waiting for the request of a client, about to read
    the next block of a file of which `unread` is left, or about to close the connection. -/
inductive ServerPhase
  | accepting
  | accepted (client : Nat)
  | sending (client : Nat) (unread : Content)
  | closing (client : Nat)

structure Server where
  phase : ServerPhase
  buffer : List (Option UInt8)
  file_name : List (Option UInt8)

/-- `queue` holds the connections not accepted yet, `disk` the files of each client directory. -/
structure World where
  queue : List Nat
  server : Server
  session : Nat → Session
  disk : Nat → Name → Option Content

/-- A client that has not started. -/
def fresh : Session :=
  ⟨.absent, unset (fileNameMaxSize + 1), unset bufferSize, .idle, .idle⟩

/-- The server is started, no client is; the client directories hold any files. -/
def start (disk : Nat → Name → Option Content) : World :=
  ⟨[], ⟨.accepting, unset bufferSize, unset (fileNameMaxSize + 1)⟩, fun _ => fresh, disk⟩

/-- Why a step does not go through. -/
inductive Stop
  /-- The call does not return, or the program is somewhere else. -/
  | blocked
  | fault (f : Fault)
  deriving DecidableEq, Repr

/-- The step is possible only if `p` holds. -/
def awaits (p : Prop) [Decidable p] : Except Stop Unit := if p then .ok () else .error .blocked

/-- A computation on the memory of a program. -/
def compute {β : Type} (x : Except Fault β) : Except Stop β := x.mapError .fault

/-! ## File names -/

/-- `isspace(c)`. -/
def isspace (c : UInt8) : Prop := c = 32 ∨ 9 ≤ c ∧ c ≤ 13

instance (c : UInt8) : Decidable (isspace c) := inferInstanceAs (Decidable (_ ∨ _))

/-- What `%s` matches. -/
def word (typed : List UInt8) : List UInt8 :=
  (typed.dropWhile fun c => isspace c).takeWhile fun c => ¬ isspace c

/-- `memset(file_name, 0, FILE_NAME_MAX_SIZE + 1); scanf("%s", file_name);` -/
def scanf (typed : List UInt8) : Except Fault (List (Option UInt8)) :=
  if (word typed).length ≤ fileNameMaxSize then
    .ok (filled (zeros (fileNameMaxSize + 1)) (word typed ++ [0]))
  else .error .outOfBounds

/-- `strncpy(dst, src, strlen(src) > limit ? limit : strlen(src))` into an array of zeros. -/
def copyName (size limit : Nat) (src : List (Option UInt8)) :
    Except Fault (List (Option UInt8)) := do
  let name ← scanString src
  let count := if name.length > limit then limit else name.length
  if count ≤ size then return filled (zeros size) (name.take count)
  else throw .outOfBounds

/-! ## Updates -/

/-- Session `k` is replaced. -/
def World.set (w : World) (k : Nat) (s : Session) : World :=
  { w with session := Function.update w.session k s }

/-- A file of a client directory is replaced. -/
def World.store (w : World) (directory : Nat) (name : Name) (content : Content) : World :=
  { w with
    disk := Function.update w.disk directory
      (Function.update (w.disk directory) name (some content)) }

/-! ## The client -/

variable (c : Setting)

/-- `connect`. -/
def connect (w : World) (k : Nat) : Except Stop World := do
  awaits ((w.session k).phase = .absent)
  return { w.set k { w.session k with phase := .connected } with queue := w.queue ++ [k] }

/-- The name is read from the terminal and sent in a block of 1024 bytes, of which `send` accepts
    the first `n`. -/
def request (w : World) (k n : Nat) : Except Stop World := do
  let s := w.session k
  awaits (s.phase = .connected ∧ n ≤ bufferSize)
  let file_name ← compute (scanf (c.typed k))
  let buffer ← compute (copyName bufferSize bufferSize file_name)
  let block ← compute (written buffer)
  return w.set k { s with phase := .requested, file_name, buffer, up := s.up.send (block.take n) }

/-- `fopen(file_name, "w")`; where it fails the program exits. -/
def openFile (w : World) (k : Nat) (opened : Bool) : Except Stop World := do
  let s := w.session k
  awaits (s.phase = .requested)
  let name ← compute (scanString s.file_name)
  if opened then
    return (w.set k { s with phase := .receiving, buffer := zeros bufferSize }).store
      (c.directory k) name []
  else return w.set k { s with phase := .finished, up := s.up.close }

/-- `recv` returns `n` (`none` for -1) and, unless the loop ends there, `fwrite` appends the chunk to
    the file. After the loop the client closes both. -/
def receive (w : World) (k : Nat) (n : Option Nat) : Except Stop World := do
  let s := w.session k
  awaits (s.phase = .receiving)
  match n with
  | none => return w.set k { s with phase := .finished, up := s.up.close }
  | some length =>
      awaits (s.down.Gives bufferSize length)
      if length = 0 then return w.set k { s with phase := .finished, up := s.up.close }
      else
        let name ← compute (scanString s.file_name)
        let buffer := filled s.buffer (s.down.piece length)
        let data ← compute (written (buffer.take length))
        return (w.set k { s with buffer := zeros bufferSize, down := s.down.after length }).store
          (c.directory k) name ((w.disk (c.directory k) name).getD [] ++ data)

/-! ## The server -/

/-- `accept`. -/
def accept (w : World) : Except Stop World :=
  match w.server.phase, w.queue with
  | .accepting, k :: rest =>
      .ok { w with
        queue := rest, server := { w.server with phase := .accepted k, buffer := zeros bufferSize } }
  | _, _ => .error .blocked

/-- What `recv` stores when it returns `n` (`none` for -1), and the wire afterwards. -/
def recv (wire : Wire UInt8) : Option Nat → Except Stop (List UInt8 × Wire UInt8)
  | none => .ok ([], wire)
  | some length => do
      awaits (wire.Gives bufferSize length)
      return (wire.piece length, wire.after length)

/-- `recv` returns `n`, the name is taken from the buffer and the file is opened. `length` is
    unsigned, so that the test for -1 never succeeds. -/
def serve (w : World) (n : Option Nat) : Except Stop World :=
  match w.server.phase with
  | .accepted k => do
      let s := w.session k
      let (bytes, up) ← recv s.up n
      let buffer := filled w.server.buffer bytes
      let file_name ← compute (copyName (fileNameMaxSize + 1) fileNameMaxSize buffer)
      let name ← compute (scanString file_name)
      let w := w.set k { s with up }
      match c.files name with
      | none => return { w with server := ⟨.closing k, buffer, file_name⟩ }
      | some content =>
          return { w with server := ⟨.sending k content, zeros bufferSize, file_name⟩ }
  | _ => .error .blocked

/-- The next block of the file that is being sent. -/
def World.block (w : World) : Content :=
  match w.server.phase with
  | .sending _ unread => unread.take bufferSize
  | _ => []

/-- `fread` returns a block, of which `send` accepts the first `n` bytes (`none` for -1). -/
def sendBlock (w : World) (n : Option Nat) : Except Stop World :=
  match w.server.phase with
  | .sending k unread => do
      let block := unread.take bufferSize
      awaits (block.length > 0)
      let buffer := filled w.server.buffer block
      let data ← compute (written (buffer.take block.length))
      match n with
      | none => return { w with server := { w.server with phase := .closing k, buffer } }
      | some count =>
          awaits (count ≤ block.length)
          let s := w.session k
          return { w.set k { s with down := s.down.send (data.take count) } with
            server := { w.server with
              phase := .sending k (unread.drop bufferSize), buffer := zeros bufferSize } }
  | _ => .error .blocked

/-- `fread` returns 0. -/
def endOfFile (w : World) : Except Stop World :=
  match w.server.phase with
  | .sending k [] => .ok { w with server := { w.server with phase := .closing k } }
  | _ => .error .blocked

/-- `close(new_server_socket)`. -/
def close (w : World) : Except Stop World :=
  match w.server.phase with
  | .closing k =>
      let s := w.session k
      .ok { w.set k { s with down := s.down.close } with
        server := { w.server with phase := .accepting } }
  | _ => .error .blocked

/-! ## Runs -/

inductive Action
  | connect (k : Nat)
  | request (k n : Nat)
  | openFile (k : Nat) (opened : Bool)
  | receive (k : Nat) (n : Option Nat)
  | accept
  | serve (n : Option Nat)
  | sendBlock (n : Option Nat)
  | endOfFile
  | close

def act (w : World) : Action → Except Stop World
  | .connect k => connect w k
  | .request k n => request c w k n
  | .openFile k opened => openFile c w k opened
  | .receive k n => receive c w k n
  | .accept => accept w
  | .serve n => serve c w n
  | .sendBlock n => sendBlock w n
  | .endOfFile => endOfFile w
  | .close => close w

def step (a : Action) : EStateM Stop World Unit := fun w =>
  match act c w a with
  | .ok w' => .ok () w'
  | .error stop => .error stop w

/-- A client that runs. -/
def Phase.active (phase : Phase) : Prop := phase ≠ .absent ∧ phase ≠ .finished

instance (phase : Phase) : Decidable phase.active := inferInstanceAs (Decidable (_ ∧ _))

/-- The network and the file systems work, a request arrives in one piece, `send` accepts its whole
    block, and the clients of one directory run one after the other. -/
def Assumed (w : World) : Action → Prop
  | .connect k => ∀ j, (w.session j).phase.active → c.directory j ≠ c.directory k
  | .request _ n => n = bufferSize
  | .openFile _ opened => opened = true
  | .receive _ n => n ≠ none
  | .serve n => n = some bufferSize
  | .sendBlock n => n = some w.block.length
  | _ => True

/-- The name of a file as it can be typed at a client. -/
structure FileName where
  bytes : Name
  nonempty : bytes ≠ []
  fits : bytes.length ≤ fileNameMaxSize
  textual : 0 ∉ bytes
  noSpace : ∀ b ∈ bytes, ¬ isspace b

end LinuxSamples.FileTransfer
