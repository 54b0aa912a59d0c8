import LinuxSamples.Network.Blocks
import LinuxSamples.Network.Wire
import LinuxSamples.Socket.Buffer

set_option autoImplicit false

/-! # A chat over a stream

`test_server4.cpp` and `test_client4.cpp` talk in turn: a word that is typed in goes into an array of
1024 bytes, which is sent whole, and what a `recv` of up to 1024 bytes returns is printed. Both store a
NUL behind the bytes that were received, `recv_msg[byte_num] = '\0'`: where all 1024 arrive at once,
this is outside of the array.

Nobody waits for the rest of a message of which a part was received, and nobody closes the connection.
`scanf` reads a word of the terminal, or none at its end; `send` does not fail. -/

namespace LinuxSamples.Chat

open LinuxSamples.Program LinuxSamples.Memory LinuxSamples.Socket LinuxSamples.Network

/-! ## The programs -/

/-- The size of `recv_msg` and `reply_msg`. -/
def size : Nat := 1024

/-- What a process does next in its loop. -/
inductive Phase
  /-- `bzero`, and `scanf` into `reply_msg`. -/
  | typing
  | sending (reply_msg : List (Option UInt8))
  /-- `recv`, and the line after it. -/
  | receiving

/-- A process with its terminal: the words that were typed in, and the texts it printed. -/
structure Peer where
  phase : Phase
  typed : List (List UInt8)
  shown : List (List UInt8)

structure World where
  server : Peer
  client : Peer
  toServer : Wire UInt8
  toClient : Wire UInt8
  /-- What one of them has done outside of its arrays. -/
  fault : Option Fault

inductive Party
  | server
  | client
  deriving DecidableEq, Repr

/-- A process takes a step, in which `word` is typed in or `recv` returns `n`, if they are called. -/
structure Turn where
  party : Party
  word : List UInt8
  n : Nat

/-- `bzero(reply_msg, 1024)` and `scanf("%s", reply_msg)`; the word is empty where nothing is left to be
    read. -/
def scanWord (word : List UInt8) : Except Fault (List (Option UInt8)) :=
  if word.length < size then .ok (filled (zeros size) word) else .error .outOfBounds

/-- `buf[n] = '\0'`. -/
def terminate (buf : List (Option UInt8)) (n : Nat) : Except Fault (List (Option UInt8)) :=
  if n < buf.length then .ok (buf.set n (some 0)) else .error .outOfBounds

/-- What is printed of the bytes that `recv` has stored in `recv_msg` after `bzero`. -/
def hear (bytes : List UInt8) : Except Fault (List UInt8) := do
  let recv_msg ← terminate (filled (zeros size) bytes) bytes.length
  scanString recv_msg

/-- The next step of a process that receives from `inbox` and sends to `outbox`. -/
def Peer.next (p : Peer) (inbox outbox : Wire UInt8) (t : Turn) :
    Option (Except Fault (Peer × Wire UInt8 × Wire UInt8)) :=
  match p.phase with
  | .typing => some do
      let reply_msg ← scanWord t.word
      return (⟨.sending reply_msg, p.typed ++ [t.word], p.shown⟩, inbox, outbox)
  | .sending reply_msg => some do
      let bytes ← written reply_msg
      return ({ p with phase := .receiving }, inbox, outbox.send bytes)
  | .receiving =>
      if inbox.Gives size t.n then some do
        let text ← hear (inbox.piece t.n)
        return (⟨.typing, p.typed, p.shown ++ [text]⟩, inbox.after t.n, outbox)
      else none

/-- The next step of `test_server4.cpp`. -/
def serverStep (w : World) (t : Turn) : Option World :=
  (w.server.next w.toServer w.toClient t).map fun
    | .ok (p, inbox, outbox) => { w with server := p, toServer := inbox, toClient := outbox }
    | .error e => { w with fault := some e }

/-- The next step of `test_client4.cpp`. -/
def clientStep (w : World) (t : Turn) : Option World :=
  (w.client.next w.toClient w.toServer t).map fun
    | .ok (p, inbox, outbox) => { w with client := p, toClient := inbox, toServer := outbox }
    | .error e => { w with fault := some e }

def step (w : World) (t : Turn) : Option World :=
  if w.fault.isSome then none
  else match t.party with
    | .server => serverStep w t
    | .client => clientStep w t

/-- After `accept` and `connect`: the server sends first, the client receives first. -/
def start : World :=
  ⟨⟨.typing, [], []⟩, ⟨.receiving, [], []⟩, Wire.idle, Wire.idle, none⟩

/-- The states of all interleavings in which no NUL is typed in. -/
def Reachable (w : World) : Prop := Interleaved step (fun _ t => 0 ∉ t.word) start w

/-! ## One step of a process -/

theorem cstring_eq_upTo (bs : List UInt8) : cstring bs = upTo 0 bs := rfl

theorem hear_ok {bytes : List UInt8} (h : bytes.length < size) : hear bytes = .ok (upTo 0 bytes) := by
  obtain ⟨k, hk⟩ : ∃ k, size - bytes.length = k + 1 := ⟨size - bytes.length - 1, by omega⟩
  have hfilled : filled (zeros size) bytes
      = bytes.map some ++ some 0 :: List.replicate k (some 0) := by
    rw [filled_eq, zeros, List.drop_replicate, hk, List.replicate_succ]
  have hset : (filled (zeros size) bytes).set bytes.length (some 0)
      = bytes.map some ++ some 0 :: List.replicate k (some 0) := by
    rw [hfilled, List.set_append_right _ _ (by simp)]
    simp
  rw [hear, terminate, if_pos (by rw [hfilled]; simp), ok_bind, hset, scanString_eq, cstring_eq_upTo]

theorem hear_error {bytes : List UInt8} (h : bytes.length = size) :
    hear bytes = .error .outOfBounds := by
  have hlength : (filled (zeros size) bytes).length = size := by
    rw [filled_eq, zeros, List.drop_replicate, h]
    simp [h]
  rw [hear, terminate, if_neg (by rw [hlength, h]; exact Nat.lt_irrefl _), error_bind]

theorem written_reply (word : List UInt8) :
    written (filled (zeros size) word) = .ok (block 0 size word) := by
  have hfilled : filled (zeros size) word = (block 0 size word).map some := by
    rw [filled_eq, zeros, List.drop_replicate, block, List.map_append, List.map_replicate]
  rw [hfilled, written_map]

section Next

variable {p : Peer} {inbox outbox : Wire UInt8} {t : Turn}

theorem Peer.next_typing (hphase : p.phase = .typing) :
    p.next inbox outbox t = some (if t.word.length < size then
      .ok (⟨.sending (filled (zeros size) t.word), p.typed ++ [t.word], p.shown⟩, inbox, outbox)
    else .error .outOfBounds) := by
  rw [Peer.next, hphase]
  by_cases hfits : t.word.length < size
  · rw [scanWord, if_pos hfits, if_pos hfits]
    rfl
  · rw [scanWord, if_neg hfits, if_neg hfits]
    rfl

theorem Peer.next_sending {word : List UInt8}
    (hphase : p.phase = .sending (filled (zeros size) word)) :
    p.next inbox outbox t
      = some (.ok ({ p with phase := .receiving }, inbox, outbox.send (block 0 size word))) := by
  rw [Peer.next, hphase]
  simp only [written_reply]
  rfl

theorem Peer.next_receiving (hphase : p.phase = .receiving) (hgives : inbox.Gives size t.n) :
    p.next inbox outbox t = some (if t.n < size then
      .ok (⟨.typing, p.typed, p.shown ++ [upTo 0 (inbox.piece t.n)]⟩, inbox.after t.n, outbox)
    else .error .outOfBounds) := by
  have hlength : (inbox.piece t.n).length = t.n := hgives.piece_length
  rw [Peer.next, hphase]
  by_cases hshort : t.n < size
  · have htext := hear_ok (hlength.trans_lt hshort)
    simp only [if_pos hgives, if_pos hshort, htext]
    rfl
  · have heq : t.n = size := by
      by_cases hn : t.n = 0
      · exact absurd (hn ▸ Nat.zero_lt_succ 1023 : t.n < size) hshort
      · exact Nat.le_antisymm ((Wire.gives_pos hn).1 hgives).1 (Nat.le_of_not_lt hshort)
    simp only [if_pos hgives, if_neg hshort, hear_error (hlength.trans heq)]
    rfl

theorem Peer.gives_of_next {r : Except Fault (Peer × Wire UInt8 × Wire UInt8)}
    (hphase : p.phase = .receiving) (h : p.next inbox outbox t = some r) :
    inbox.Gives size t.n := by
  rw [Peer.next, hphase] at h
  by_contra hgives
  simp [hgives] at h

end Next

/-- The step of a process leaves its arrays. -/
def Peer.Overruns (p : Peer) (t : Turn) : Prop :=
  match p.phase with
  | .typing => size ≤ t.word.length
  | .sending _ => False
  | .receiving => t.n = size

/-! ## What a process has said and heard -/

/-- What was said in one direction. -/
abbrev Direction := Channel (0 : UInt8) size

/-- The wire of a direction. -/
structure Carries (wire : Wire UInt8) (c : Direction) : Prop where
  flight : wire.flight = c.flight
  opened : wire.closed = false

/-- What was typed in and is not sent yet. -/
def Phase.Holds (typed texts : List (List UInt8)) : Phase → Prop
  | .sending reply_msg => ∃ word, typed = texts ++ [word] ∧ (word.length < size ∧ 0 ∉ word) ∧
      reply_msg = filled (zeros size) word
  | .typing | .receiving => typed = texts

/-- How often a process has received when it has sent once more. -/
def Phase.turns : Phase → Nat
  | .typing | .sending _ => 0
  | .receiving => 1

/-- A process that sends over `out`, receives over `inb`, and received `first` times before it sent. -/
structure Peer.Fits (p : Peer) (first : Nat) (out inb : Direction) : Prop where
  shown : p.shown = inb.pieces.map (upTo 0)
  holds : p.phase.Holds p.typed out.texts
  turns : out.texts.length + first = inb.pieces.length + p.phase.turns

section Steps

variable {p : Peer} {inbox outbox : Wire UInt8} {t : Turn} {first : Nat} {out inb : Direction}
  {r : Except Fault (Peer × Wire UInt8 × Wire UInt8)}

/-- What the other process does to the channels does not matter here. -/
theorem Peer.Fits.congr {out' inb' : Direction} (h : p.Fits first out inb)
    (htexts : out'.texts = out.texts) (hpieces : inb'.pieces = inb.pieces) :
    p.Fits first out' inb' :=
  ⟨hpieces ▸ h.shown, htexts ▸ h.holds, by rw [htexts, hpieces]; exact h.turns⟩

/-- A step within the arrays. -/
def Goes (first : Nat) (out inb : Direction) (r : Except Fault (Peer × Wire UInt8 × Wire UInt8)) :
    Prop :=
  ∃ p' inbox' outbox', r = .ok (p', inbox', outbox') ∧ ∃ out' inb' : Direction,
    Carries inbox' inb' ∧ Carries outbox' out' ∧ p'.Fits first out' inb' ∧
      out'.pieces = out.pieces ∧ inb'.texts = inb.texts

theorem Peer.Fits.next_fits (h : p.Fits first out inb) (hin : Carries inbox inb)
    (hout : Carries outbox out) (hword : 0 ∉ t.word) (hnext : p.next inbox outbox t = some r) :
    p.Overruns t ∧ r = .error .outOfBounds ∨ ¬ p.Overruns t ∧ Goes first out inb r := by
  obtain ⟨hshown, hholds, hturns⟩ := h
  rw [Peer.Overruns]
  cases hphase : p.phase with
  | typing =>
      rw [hphase] at hholds hturns
      rw [Peer.next_typing hphase, Option.some.injEq] at hnext
      by_cases hfits : t.word.length < size
      · rw [if_pos hfits] at hnext
        exact Or.inr ⟨Nat.not_le_of_lt hfits, _, _, _, hnext.symm, out, inb, hin, hout,
          ⟨hshown, ⟨t.word, by rw [hholds], ⟨hfits, hword⟩, rfl⟩, hturns⟩, rfl, rfl⟩
      · rw [if_neg hfits] at hnext
        exact Or.inl ⟨Nat.le_of_not_lt hfits, hnext.symm⟩
  | sending reply_msg =>
      rw [hphase] at hholds hturns
      obtain ⟨word, htyped, hword, rfl⟩ := hholds
      rw [Peer.next_sending hphase, Option.some.injEq] at hnext
      refine Or.inr ⟨id, _, _, _, hnext.symm, out.send word hword, inb, hin, ?_,
        ⟨hshown, htyped, ?_⟩, rfl, rfl⟩
      · exact ⟨by rw [Wire.send_flight, hout.flight]; rfl, hout.opened⟩
      · show (out.texts ++ [word]).length + first = inb.pieces.length + 1
        rw [List.length_append, List.length_singleton]
        rw [Phase.turns] at hturns
        omega
  | receiving =>
      rw [hphase] at hholds hturns
      have hgives := Peer.gives_of_next hphase hnext
      rw [Peer.next_receiving hphase hgives, Option.some.injEq] at hnext
      have hn : t.n ≠ 0 := by
        intro hn
        rw [hn, Wire.gives_zero, hin.opened] at hgives
        cases hgives.2
      obtain ⟨hle, hflight⟩ := (Wire.gives_pos hn).1 hgives
      rw [hin.flight] at hflight
      by_cases hshort : t.n < size
      · rw [if_pos hshort] at hnext
        refine Or.inr ⟨Nat.ne_of_lt hshort, _, _, _, hnext.symm, out,
          inb.recv t.n ⟨Nat.pos_of_ne_zero hn, hshort⟩ hflight, ?_, hout, ⟨?_, hholds, ?_⟩, rfl, rfl⟩
        · exact ⟨by rw [Wire.after_flight, hin.flight]; rfl, hin.opened⟩
        · show p.shown ++ [upTo 0 (inbox.piece t.n)]
            = (inb.pieces ++ [inb.flight.take t.n]).map (upTo 0)
          rw [hshown, List.map_append, Wire.piece, hin.flight]
          rfl
        · show out.texts.length + first = (inb.pieces ++ [inb.flight.take t.n]).length + 0
          rw [hturns, List.length_append]
          rfl
      · rw [if_neg hshort] at hnext
        exact Or.inl ⟨Nat.le_antisymm hle (Nat.le_of_not_lt hshort), hnext.symm⟩

end Steps

/-! ## The two of them -/

/-- What both have said and heard. -/
def Joined (w : World) : Prop :=
  ∃ c d : Direction, Carries w.toClient c ∧ Carries w.toServer d ∧ w.server.Fits 0 c d ∧
    w.client.Fits 1 d c

/-- The step leaves the arrays of its process. -/
def Overruns (w : World) (t : Turn) : Prop :=
  match t.party with
  | .server => w.server.Overruns t
  | .client => w.client.Overruns t

section Runs

variable {w w' : World} {t : Turn}

theorem Joined.start : Joined start := by
  refine ⟨Channel.start 0 size, Channel.start 0 size, ⟨rfl, rfl⟩, ⟨rfl, rfl⟩, ?_, ?_⟩
  · exact ⟨rfl, rfl, rfl⟩
  · exact ⟨rfl, rfl, rfl⟩

theorem Joined.step (h : Joined w) (hword : 0 ∉ t.word) (hstep : step w t = some w') :
    Overruns w t ∧ w' = { w with fault := some .outOfBounds } ∨
      ¬ Overruns w t ∧ Joined w' ∧ w'.fault = none := by
  obtain ⟨c, d, hc, hd, hserver, hclient⟩ := h
  rw [Chat.step] at hstep
  have hfault : ¬ w.fault.isSome := fun hfault => by simp [hfault] at hstep
  have hnone : w.fault = none := Option.not_isSome_iff_eq_none.1 hfault
  rw [if_neg hfault] at hstep
  rw [Overruns]
  cases hparty : t.party with
  | server =>
      simp only [hparty, serverStep, Option.map_eq_some_iff] at hstep
      obtain ⟨r, hnext, rfl⟩ := hstep
      rcases hserver.next_fits hd hc hword hnext with
        ⟨hover, rfl⟩ | ⟨hover, p, inbox, outbox, rfl, hgoes⟩
      · exact Or.inl ⟨hover, rfl⟩
      · obtain ⟨c', d', hd', hc', hfits, hpieces, htexts⟩ := hgoes
        exact Or.inr ⟨hover, ⟨c', d', hc', hd', hfits, hclient.congr htexts hpieces⟩, hnone⟩
  | client =>
      simp only [hparty, clientStep, Option.map_eq_some_iff] at hstep
      obtain ⟨r, hnext, rfl⟩ := hstep
      rcases hclient.next_fits hc hd hword hnext with
        ⟨hover, rfl⟩ | ⟨hover, p, inbox, outbox, rfl, hgoes⟩
      · exact Or.inl ⟨hover, rfl⟩
      · obtain ⟨d', c', hc', hd', hfits, hpieces, htexts⟩ := hgoes
        exact Or.inr ⟨hover, ⟨c', d', hc', hd', hserver.congr htexts hpieces, hfits⟩, hnone⟩

theorem Reachable.joined (h : Reachable w) : Joined w := by
  refine h.induct Joined.start fun w w' t hw hword hstep => ?_
  rcases hw.step hword hstep with ⟨_, rfl⟩ | ⟨_, hw', _⟩
  · exact hw
  · exact hw'

/-- A process that does not receive can go on. -/
theorem Peer.Fits.can_send {p : Peer} {first : Nat} {out inb : Direction} {inbox outbox : Wire UInt8}
    (h : p.Fits first out inb) (party : Party) :
    p.phase = .receiving ∨ (p.next inbox outbox ⟨party, [], 0⟩).isSome := by
  cases hphase : p.phase with
  | typing => exact Or.inr (by rw [Peer.next_typing hphase]; rfl)
  | sending reply_msg =>
      have hholds := h.holds
      rw [hphase] at hholds
      obtain ⟨word, _, _, rfl⟩ := hholds
      exact Or.inr (by rw [Peer.next_sending hphase]; rfl)
  | receiving => exact Or.inl rfl

/-- A process that receives can go on if something is on the way. -/
theorem Peer.can_receive {p : Peer} {inb : Direction} {inbox outbox : Wire UInt8}
    (hphase : p.phase = .receiving) (hin : Carries inbox inb) (hflight : inb.flight ≠ [])
    (party : Party) : (p.next inbox outbox ⟨party, [], 1⟩).isSome := by
  have hgives : inbox.Gives size 1 := by
    rw [Wire.gives_pos Nat.one_ne_zero, hin.flight]
    exact ⟨by decide, List.length_pos_iff.2 hflight⟩
  rw [Peer.next_receiving hphase hgives]
  rfl

/-- Two processes that both receive do not both wait for the other: whoever takes a message apart
    answers more often than it was spoken to. -/
theorem Joined.can_step (h : Joined w) (hfault : w.fault = none) :
    ∃ t, 0 ∉ t.word ∧ (Chat.step w t).isSome := by
  obtain ⟨c, d, hc, hd, hserver, hclient⟩ := h
  have hserverStep : ∀ n, (w.server.next w.toServer w.toClient ⟨.server, [], n⟩).isSome →
      ∃ t, 0 ∉ t.word ∧ (Chat.step w t).isSome := fun n hn =>
    ⟨⟨.server, [], n⟩, List.not_mem_nil, by simpa [Chat.step, hfault, serverStep] using hn⟩
  have hclientStep : ∀ n, (w.client.next w.toClient w.toServer ⟨.client, [], n⟩).isSome →
      ∃ t, 0 ∉ t.word ∧ (Chat.step w t).isSome := fun n hn =>
    ⟨⟨.client, [], n⟩, List.not_mem_nil, by simpa [Chat.step, hfault, clientStep] using hn⟩
  rcases hserver.can_send .server with hs | hs
  · rcases hclient.can_send .client with hk | hk
    · by_cases hcflight : c.flight = []
      · by_cases hdflight : d.flight = []
        · exfalso
          have hsturns := hserver.turns
          have hkturns := hclient.turns
          rw [hs, Phase.turns] at hsturns
          rw [hk, Phase.turns] at hkturns
          have hctexts : c.texts ≠ [] := fun hnil => by
            rw [hnil, List.length_nil] at hsturns
            omega
          have hclt := c.texts_lt_pieces hcflight hctexts
          have hdtexts : d.texts ≠ [] := fun hnil => by
            rw [hnil, List.length_nil] at hkturns
            omega
          have hdlt := d.texts_lt_pieces hdflight hdtexts
          omega
        · exact hserverStep 1 (Peer.can_receive hs hd hdflight .server)
      · exact hclientStep 1 (Peer.can_receive hk hc hcflight .client)
    · exact hclientStep 0 hk
  · exact hserverStep 0 hs

/-- Each text that was shown but the first is a part of a word that was typed in before the one of the
    same number; the first is the beginning of the first word. -/
def Late (typed shown : List (List UInt8)) : Prop :=
  ∀ k text, shown[k]? = some text → ∃ j o n word, typed[j]? = some word ∧
    text = (word.drop o).take n ∧ (k = 0 → j = 0 ∧ o = 0) ∧ (0 < k → j < k)

theorem late_of_fits {p q : Peer} {first first' : Nat} {out inb : Direction}
    (hp : p.Fits first out inb) (hq : q.Fits first' inb out) : Late p.typed q.shown := by
  intro k text htext
  rw [hq.shown, List.getElem?_map, Option.map_eq_some_iff] at htext
  obtain ⟨piece, hpiece, rfl⟩ := htext
  obtain ⟨hk, rfl⟩ := List.getElem?_eq_some_iff.1 hpiece
  obtain ⟨j, o, hj, hzero, hpos, hshows⟩ := out.piece_shows hk
  refine ⟨j, o, _, out.texts[j], ?_, hshows, hzero, hpos⟩
  have hholds := hp.holds
  cases hphase : p.phase with
  | sending reply_msg =>
      rw [hphase] at hholds
      obtain ⟨word, htyped, _⟩ := hholds
      rw [htyped, List.getElem?_append_left hj, List.getElem?_eq_getElem hj]
  | typing | receiving =>
      rw [hphase] at hholds
      rw [show p.typed = out.texts from hholds, List.getElem?_eq_getElem hj]

end Runs

end LinuxSamples.Chat
