import LinuxSamples.Socket.Buffer
import Mathlib.Logic.Function.Basic

set_option autoImplicit false

/-! # The greeting server

`test_server8.cpp` accepts one connection after the other, receives a message into `buff`, forks a
child that sends a greeting, and prints the message. The result of `accept` is compared with
`connect_fd` and never assigned to it: the server works on whatever descriptor was left in this
variable, which is a parameter of `start`.

What the calls return in an iteration is a parameter of the iteration, so a list of iterations is a
history of accepted clients, failed accepts and messages. -/

namespace LinuxSamples.Greeting

open LinuxSamples.Program LinuxSamples.Memory LinuxSamples.Socket

/-! ## The program -/

/-- `MAXLINE`, which is also the size of `buff`. -/
def maxLine : Nat := 4096

/-- The first argument of `send`. -/
def hello : List UInt8 := "Hello, you are connected!\n".toList.map fun c => c.toNat.toUInt8

example : hello.length = 26 := by decide

/-- What the calls of one iteration return: `accept` a new descriptor (`none` for -1), `recv` a
    message for each open connection, and `fork` twice or only in the parent, with -1. -/
structure Round where
  accepted : Option Nat
  arrives : Nat → List UInt8
  forked : Bool
  fits : ∀ k, (arrives k).length ≤ maxLine

/-- The server between two iterations. `table` has the connections that its descriptors stand for;
    a connection is numbered by the iteration that accepted it. -/
structure Server where
  connect_fd : Int
  buff : List (Option UInt8)
  table : Int → Option Nat
  rounds : Nat

/-- The server when the loop starts: `connect_fd` holds any value. -/
def start (garbage : Int) : Server := ⟨garbage, unset maxLine, fun _ => none, 0⟩

/-- What can be seen of the server. -/
inductive Event
  /-- "accept socket error" -/
  | acceptFailed
  | received (connection : Nat)
  | sent (connection : Nat) (bytes : List UInt8)
  | printed (message : List UInt8)
  deriving DecidableEq, Repr

/-- `recv(fd, buff, MAXLINE, 0)`: its result and what it leaves in `buff`. -/
def recv (table : Int → Option Nat) (arrives : Nat → List UInt8) (fd : Int)
    (buff : List (Option UInt8)) : Int × List (Option UInt8) × List Event :=
  match table fd with
  | none => (-1, buff, [])
  | some k => ((arrives k).length, filled buff (arrives k), [.received k])

/-- `send(fd, bytes, ..)`. -/
def send (table : Int → Option Nat) (fd : Int) (bytes : List UInt8) : List Event :=
  match table fd with
  | none => []
  | some k => [.sent k bytes]

/-- `buff[n] = '\0'`. -/
def terminate (buff : List (Option UInt8)) (n : Int) : Except Fault (List (Option UInt8)) :=
  if 0 ≤ n ∧ n < buff.length then .ok (buff.set n.toNat (some 0)) else .error .outOfBounds

/-- One iteration of the server. The child works on copies, so that its call is listed where it is
    forked. -/
def round (s : Server) (r : Round) : Except Fault (Server × List Event) := do
  let (fd, table) : Int × (Int → Option Nat) :=
    match r.accepted with
    | none => (-1, s.table)
    | some fd => (fd, Function.update s.table fd (some s.rounds))
  -- the value of `==` is 0 or 1
  if (if s.connect_fd = fd then (1 : Int) else 0) = -1 then
    return ({ s with table, rounds := s.rounds + 1 }, [.acceptFailed])
  else
    let (n, buff, received) := recv table r.arrives s.connect_fd s.buff
    let greeted := if r.forked then send table s.connect_fd (hello.take 26) else []
    let buff ← terminate buff n
    let message ← scanString buff
    return (⟨s.connect_fd, buff, Function.update table s.connect_fd none, s.rounds + 1⟩,
      received ++ greeted ++ [.printed message])

/-- What is seen in each iteration of a history. -/
def run : Server → List Round → Except Fault (List (List Event))
  | _, [] => .ok []
  | s, r :: rest => do
      let (s, events) ← round s r
      let traces ← run s rest
      return events :: traces

/-! ## What the server is there for -/

/-- In iteration `i` the connection just accepted, and no other, is received from and greeted once,
    and its message is printed; a failed `accept` is reported, and nothing else happens. -/
def Round.Served (r : Round) (i : Nat) (events : List Event) : Prop :=
  match r.accepted with
  | none => events = [.acceptFailed]
  | some _ => events = [.received i, .sent i hello, .printed (r.arrives i)]

/-- The server serves every iteration of a history, the first of which has number `i`, without a
    fault. -/
def Serves (s : Server) (rounds : List Round) : Prop :=
  ∃ traces, run s rounds = .ok traces ∧ ∀ (i : Nat) (r : Round), rounds[i]? = some r →
    ∃ events, traces[i]? = some events ∧ r.Served (s.rounds + i) events

/-- `accept` returns the descriptor that `connect_fd` happens to hold, the child is forked, and the
    message is shorter than `buff` and a text. -/
def Round.Right (r : Round) (connect_fd : Int) (i : Nat) : Prop :=
  r.accepted.map (Nat.cast : Nat → Int) = some connect_fd ∧ r.forked = true ∧
    (r.arrives i).length < maxLine ∧ 0 ∉ r.arrives i

/-! ## One iteration -/

variable {s s' : Server} {r : Round} {events : List Event}

/-- The server at the head of its loop: nothing is open on the descriptor it works on. -/
structure Server.Waiting (s : Server) : Prop where
  size : s.buff.length = maxLine
  unused : s.table s.connect_fd = none

theorem Waiting.start (garbage : Int) : (start garbage).Waiting :=
  ⟨List.length_replicate .., rfl⟩

/-- The comparison in front of the branch for a failed `accept` is never true. -/
theorem comparison_ne (p : Prop) [Decidable p] : (if p then (1 : Int) else 0) ≠ -1 := by
  split <;> decide

/-- A connection accepted on another descriptor is not received from: the index of the terminator is
    -1. -/
theorem round_elsewhere (h : s.Waiting)
    (hfd : r.accepted.map (Nat.cast : Nat → Int) ≠ some s.connect_fd) :
    round s r = .error .outOfBounds := by
  have hunused : ∀ fd : Nat, r.accepted = some fd →
      Function.update s.table fd (some s.rounds) s.connect_fd = none := by
    intro fd haccepted
    rw [haccepted] at hfd
    rw [Function.update_of_ne fun heq => hfd (congrArg some heq.symm)]
    exact h.unused
  unfold round
  cases haccepted : r.accepted with
  | none =>
      simp only [comparison_ne, if_false, recv, h.unused]
      rfl
  | some fd =>
      simp only [comparison_ne, if_false, recv, hunused fd haccepted]
      rfl

/-- The terminator behind a message that is shorter than `buff`. -/
theorem terminate_filled {buff : List (Option UInt8)} {bytes : List UInt8}
    (h : bytes.length < buff.length) : terminate (filled buff bytes) bytes.length
      = .ok (bytes.map some ++ some 0 :: buff.drop (bytes.length + 1)) := by
  have hlen : (filled buff bytes).length = buff.length := by
    rw [filled_eq, List.length_append, List.length_map, List.length_drop]
    omega
  have hset : (filled buff bytes).set bytes.length (some 0)
      = bytes.map some ++ some 0 :: buff.drop (bytes.length + 1) := by
    rw [filled_eq, List.set_append_right _ _ (by simp), List.length_map, Nat.sub_self,
      List.drop_eq_getElem_cons h, List.set_cons_zero]
  rw [terminate, if_pos ⟨Int.natCast_nonneg _, by rw [hlen]; exact Int.ofNat_lt.2 h⟩,
    Int.toNat_natCast, hset]

theorem terminate_full {buff : List (Option UInt8)} {bytes : List UInt8}
    (h : bytes.length = buff.length) :
    terminate (filled buff bytes) bytes.length = .error .outOfBounds := by
  have hlen : (filled buff bytes).length = bytes.length := by
    rw [filled_eq, List.length_append, List.length_map, List.length_drop, h, Nat.sub_self,
      Nat.add_zero]
  rw [terminate, hlen, if_neg fun hlt => Int.lt_irrefl _ hlt.2]

/-- The iteration that accepts a connection on the descriptor in `connect_fd`. -/
theorem round_accepted
    (hfd : r.accepted.map (Nat.cast : Nat → Int) = some s.connect_fd) :
    round s r = (do
      let buff ← terminate (filled s.buff (r.arrives s.rounds)) (r.arrives s.rounds).length
      let message ← scanString buff
      return (⟨s.connect_fd, buff, Function.update s.table s.connect_fd none, s.rounds + 1⟩,
        [.received s.rounds] ++ (if r.forked then [.sent s.rounds hello] else [])
          ++ [.printed message])) := by
  obtain ⟨fd, haccepted, hfd⟩ := Option.map_eq_some_iff.1 hfd
  unfold round
  rw [haccepted, ← hfd]
  simp only [comparison_ne, if_false, recv, send, Function.update_self, Function.update_idem]
  rfl

/-- What an iteration without a fault does. -/
theorem round_inv (h : s.Waiting) (hround : round s r = .ok (s', events)) :
    r.accepted.map (Nat.cast : Nat → Int) = some s.connect_fd ∧
      (r.arrives s.rounds).length < maxLine ∧
      events = [.received s.rounds] ++ (if r.forked then [.sent s.rounds hello] else [])
        ++ [.printed (cstring (r.arrives s.rounds))] ∧
      s'.Waiting ∧ s'.connect_fd = s.connect_fd ∧ s'.rounds = s.rounds + 1 := by
  by_cases hfd : r.accepted.map (Nat.cast : Nat → Int) = some s.connect_fd
  · rw [round_accepted hfd] at hround
    rcases Nat.lt_or_eq_of_le (r.fits s.rounds) with hlt | heq
    · rw [terminate_filled (by rw [h.size]; exact hlt), ok_bind, scanString_eq, ok_bind] at hround
      cases hround
      refine ⟨hfd, hlt, rfl, ⟨?_, Function.update_self ..⟩, rfl, rfl⟩
      have hsize := h.size
      simp only [List.length_append, List.length_map, List.length_cons, List.length_drop]
      omega
    · rw [terminate_full (by rw [heq, h.size]), error_bind] at hround
      cases hround
  · rw [round_elsewhere h hfd] at hround
    cases hround

/-- What an iteration does for which the calls return the right things. -/
theorem round_right (h : s.Waiting) (hright : r.Right s.connect_fd s.rounds) :
    ∃ s' events, round s r = .ok (s', events) := by
  obtain ⟨hfd, _, hlt, _⟩ := hright
  rw [round_accepted hfd, terminate_filled (by rw [h.size]; exact hlt), ok_bind, scanString_eq,
    ok_bind]
  exact ⟨_, _, rfl⟩

theorem cstring_eq_self {bs : List UInt8} : cstring bs = bs ↔ 0 ∉ bs := by
  refine ⟨fun h => ?_, cstring_of_textual⟩
  rw [← h]
  exact zero_notMem_cstring bs

/-- **One iteration** does its part exactly if the calls return the right things. -/
theorem served_iff (h : s.Waiting) (hround : round s r = .ok (s', events)) :
    r.Served s.rounds events ↔ r.Right s.connect_fd s.rounds := by
  obtain ⟨hfd, hlt, rfl, _⟩ := round_inv h hround
  obtain ⟨fd, haccepted, _⟩ := Option.map_eq_some_iff.1 hfd
  rw [Round.Served, Round.Right, haccepted, ← cstring_eq_self]
  rw [haccepted] at hfd
  cases hforked : r.forked with
  | true => simp [hfd, hlt]
  | false => simp

/-! ## Histories -/

theorem serves_cons {rest : List Round} (h : s.Waiting) : Serves s (r :: rest) ↔
    ∃ s' events, round s r = .ok (s', events) ∧ r.Served s.rounds events ∧ Serves s' rest := by
  constructor
  · rintro ⟨traces, hrun, hserved⟩
    obtain ⟨⟨s', events⟩, hround, hrun⟩ := ok_of_bind hrun
    obtain ⟨tail, hrest, hret⟩ := ok_of_bind hrun
    cases hret
    have hrounds := (round_inv h hround).2.2.2.2.2
    obtain ⟨_, hhead, hfirst⟩ := hserved 0 r rfl
    cases hhead
    refine ⟨s', events, hround, hfirst, tail, hrest, fun i r' hr' => ?_⟩
    obtain ⟨events', hevents, hserved⟩ := hserved (i + 1) r' hr'
    refine ⟨events', hevents, ?_⟩
    rw [hrounds, Nat.add_assoc, Nat.add_comm 1]
    exact hserved
  · rintro ⟨s', events, hround, hfirst, tail, hrest, hserved⟩
    have hrounds := (round_inv h hround).2.2.2.2.2
    refine ⟨events :: tail, ?_, fun i r' hr' => ?_⟩
    · rw [run, hround]
      show (run s' rest >>= _) = _
      rw [hrest]
      rfl
    · cases i with
      | zero =>
          cases hr'
          exact ⟨events, rfl, hfirst⟩
      | succ i =>
          obtain ⟨events', hevents, hserved⟩ := hserved i r' hr'
          refine ⟨events', hevents, ?_⟩
          rw [hrounds, Nat.add_assoc, Nat.add_comm 1] at hserved
          exact hserved

/-- **Every history** is served exactly if the calls return the right things in each iteration. -/
theorem serves_iff (rounds : List Round) : ∀ s : Server, s.Waiting →
    (Serves s rounds ↔ ∀ (i : Nat) (r : Round), rounds[i]? = some r →
      r.Right s.connect_fd (s.rounds + i)) := by
  induction rounds with
  | nil =>
      intro s _
      refine iff_of_true ⟨[], rfl, fun i r hr => ?_⟩ fun i r hr => ?_
      · simp at hr
      · simp at hr
  | cons r rest ih =>
      intro s h
      rw [serves_cons h]
      constructor
      · rintro ⟨s', events, hround, hserved, hrest⟩
        obtain ⟨_, _, _, h', hfd, hrounds⟩ := round_inv h hround
        intro i r' hr'
        cases i with
        | zero =>
            cases hr'
            exact (served_iff h hround).1 hserved
        | succ i =>
            have hright := (ih s' h').1 hrest i r' hr'
            rwa [hfd, hrounds, Nat.add_assoc, Nat.add_comm 1] at hright
      · intro hright
        have hfirst : r.Right s.connect_fd s.rounds := hright 0 r rfl
        obtain ⟨s', events, hround⟩ := round_right h hfirst
        obtain ⟨_, _, _, h', hfd, hrounds⟩ := round_inv h hround
        refine ⟨s', events, hround, (served_iff h hround).2 hfirst, (ih s' h').2 fun i r' hr' => ?_⟩
        rw [hfd, hrounds, Nat.add_assoc, Nat.add_comm 1]
        exact hright (i + 1) r' hr'

/-- **The greeting server** serves a history of clients and failed accepts exactly if each of its
    iterations finds in `connect_fd`, by chance, the descriptor that `accept` has returned, forks the
    child and receives a text that leaves room for the terminator. -/
theorem greeting_served (garbage : Int) (rounds : List Round) :
    Serves (start garbage) rounds ↔
      ∀ (i : Nat) (r : Round), rounds[i]? = some r → r.Right garbage i := by
  rw [serves_iff rounds (start garbage) (Waiting.start garbage)]
  simp [start]

/-- A client is accepted on descriptor 4 and sends "hi\n". -/
def hiRound : Round := ⟨some 4, fun _ => [104, 105, 10], true, fun _ => by decide⟩

/-- `accept` fails. -/
def failedRound : Round := ⟨none, fun _ => [], true, fun _ => by decide⟩

/-- With 0 in `connect_fd` the client is not received from, and a terminator is written in front of
    `buff`; with 4 in it the client is served, but a failed `accept` is not noticed. -/
theorem greeting_not_served :
    run (start 0) [hiRound] = .error .outOfBounds ∧ Serves (start 4) [hiRound] ∧
      ¬ Serves (start 0) [hiRound] ∧ ¬ Serves (start 4) [failedRound] := by
  have hserves := fun garbage rounds => serves_iff rounds (start garbage) (Waiting.start garbage)
  refine ⟨?_, (hserves 4 _).2 fun i r hr => ?_, fun h => ?_, fun h => ?_⟩
  · rw [run, round_elsewhere (Waiting.start 0) (by decide)]
    rfl
  · cases i with
    | zero =>
        cases hr
        exact ⟨rfl, rfl, by decide, by decide⟩
    | succ i => cases hr
  · exact absurd ((hserves 0 _).1 h 0 hiRound rfl).1 (by decide)
  · exact absurd ((hserves 4 _).1 h 0 failedRound rfl).1 (by decide)

/-! ## The clients of the sample -/

/-- What `fgets` stores in front of its terminator: the line up to its newline, and of that as much
    as the array holds. -/
def fgets (size : Nat) (typed : List UInt8) : List UInt8 :=
  let line := typed.takeWhile (· ≠ 10)
  (line ++ (typed.drop line.length).take 1).take (size - 1)

/-- What `test_client8.cpp` sends: the line typed in, up to a NUL. -/
def clientMessage (typed : List UInt8) : List UInt8 := cstring (fgets maxLine typed)

/-- The messages of these clients are texts that leave room for the terminator. -/
theorem clientMessage_fits (typed : List UInt8) :
    (clientMessage typed).length < maxLine ∧ 0 ∉ clientMessage typed := by
  refine ⟨?_, zero_notMem_cstring _⟩
  have hcstring : (clientMessage typed).length ≤ (fgets maxLine typed).length :=
    (List.takeWhile_prefix _).length_le
  have hfgets : (fgets maxLine typed).length ≤ maxLine - 1 := List.length_take_le ..
  exact Nat.lt_of_le_of_lt (Nat.le_trans hcstring hfgets) (by decide)

/-- With these clients only `connect_fd` decides, as long as `fork` works. -/
theorem clients_served (garbage : Int) (rounds : List Round)
    (hmessages : ∀ (i : Nat) (r : Round), rounds[i]? = some r →
      r.forked = true ∧ ∃ typed, r.arrives i = clientMessage typed) :
    Serves (start garbage) rounds ↔
      ∀ r ∈ rounds, r.accepted.map (Nat.cast : Nat → Int) = some garbage := by
  rw [serves_iff rounds (start garbage) (Waiting.start garbage)]
  constructor
  · intro h r hr
    obtain ⟨i, hi⟩ := List.mem_iff_getElem?.1 hr
    exact (h i r hi).1
  · intro h i r hi
    obtain ⟨hforked, typed, hmessage⟩ := hmessages i r hi
    have hfits := clientMessage_fits typed
    rw [← hmessage] at hfits
    refine ⟨h r (List.mem_of_getElem? hi), hforked, ?_⟩
    rwa [start, Nat.zero_add]

end LinuxSamples.Greeting
