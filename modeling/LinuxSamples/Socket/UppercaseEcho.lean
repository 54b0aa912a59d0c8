import LinuxSamples.Socket.Buffer

set_option autoImplicit false

/-! # The uppercasing server

`test_server1.cpp` receives a chunk of up to 256 bytes into `buf`, prints it, turns the C string in
`buf` into upper case and sends as many bytes back as it has received. The loop is bounded by
`strlen(buf)`, not by the length of the chunk: it ends at the first NUL of the chunk, or, where the
chunk holds none, runs into what earlier chunks have left in `buf`.

A chunk is a parameter of each iteration, so a list of chunks is a connection together with one way
of cutting its byte stream. An iteration keeps a log of the positions of `buf` its loop reads. -/

namespace LinuxSamples.Socket

open LinuxSamples.Program LinuxSamples.Memory

/-! ## The program -/

/-- `islower(c)` in the C locale. -/
def islower (c : UInt8) : Prop := 97 ≤ c ∧ c ≤ 122

instance (c : UInt8) : Decidable (islower c) := inferInstanceAs (Decidable (_ ∧ _))

/-- `toupper(c)` in the C locale. -/
def toupper (c : UInt8) : UInt8 := if islower c then c - 32 else c

/-- `sizeof(buf)`. -/
def bufSize : Nat := 256

/-- `char buf[256];`, not initialised. -/
def buf₀ : List (Option UInt8) := unset bufSize

/-- What one `recv` returns while the connection is open: ASCII bytes, at least one. -/
structure Chunk where
  bytes : List UInt8
  nonempty : bytes ≠ []
  fits : bytes.length ≤ bufSize
  ascii : ∀ b ∈ bytes, b < 128

/-- `buf[i]`. -/
def slot (buf : List (Option UInt8)) (i : Nat) : Except Fault UInt8 :=
  match buf[i]? with
  | none => .error .outOfBounds
  | some none => .error .unwritten
  | some (some b) => .ok b

/-- `for (; i < strlen(buf); i++) buf[i] = toupper(buf[i]);`: the new `buf` and the positions read.
    The first argument bounds the number of checks of the loop condition. -/
def upperLoop : Nat → Nat → List (Option UInt8) → Except Fault (List (Option UInt8) × List Nat)
  | 0, _, _ => .error .diverges
  | fuel + 1, i, buf => do
      -- `strlen` reads up to the NUL, which it includes
      let line ← scanString buf
      let scanned := List.range (line.length + 1)
      if i < line.length then
        let c ← slot buf i
        let (buf, reads) ← upperLoop fuel (i + 1) (buf.set i (some (toupper c)))
        return (buf, scanned ++ i :: reads)
      else return (buf, scanned)

/-- One iteration of the server: what it leaves in `buf`, the line it prints, the bytes it sends and
    the positions its loop reads. -/
structure Turn where
  buf : List (Option UInt8)
  pktlen : Nat
  printed : List UInt8
  reads : List Nat
  sent : List UInt8

/-- One iteration of the server on the chunk it receives. -/
def turn (buf : List (Option UInt8)) (chunk : Chunk) : Except Fault Turn := do
  -- `recv(ns, buf, sizeof(buf), 0)`
  let pktlen := chunk.bytes.length
  let buf := filled buf chunk.bytes
  let printed ← scanString buf
  let (buf, reads) ← upperLoop bufSize 0 buf
  let sent ← written (buf.take pktlen)
  return ⟨buf, pktlen, printed, reads, sent⟩

/-- The iterations of the server until `recv` returns 0. -/
def serve : List (Option UInt8) → List Chunk → Except Fault (List Turn)
  | _, [] => .ok []
  | buf, chunk :: rest => do
      let t ← turn buf chunk
      let ts ← serve t.buf rest
      return t :: ts

/-- What `test_client1.cpp` sends for the lines typed in: each with its terminator, up to a line of
    one character. -/
def clientStream : List (List UInt8) → List UInt8
  | [] => []
  | line :: rest => if line.length = 1 then [] else line ++ [0] ++ clientStream rest

/-! ## Upper case -/

/-- The distance between a small letter and its capital. -/
theorem toNat_toupper {c : UInt8} (hc : islower c) : (toupper c).toNat + 32 = c.toNat := by
  have hle : (32 : UInt8) ≤ c := UInt8.le_trans (by decide) hc.1
  have h32 : 32 ≤ c.toNat := UInt8.le_iff_toNat_le.1 hle
  rw [toupper, if_pos hc, UInt8.toNat_sub_of_le _ _ hle]
  exact Nat.sub_add_cancel h32

theorem toupper_of_not_islower {c : UInt8} (hc : ¬ islower c) : toupper c = c := if_neg hc

theorem toupper_eq_self {c : UInt8} : toupper c = c ↔ ¬ islower c := by
  refine ⟨fun h hc => ?_, toupper_of_not_islower⟩
  have hdist := toNat_toupper hc
  rw [h] at hdist
  omega

theorem toupper_ne_zero {c : UInt8} (hc : c ≠ 0) : toupper c ≠ 0 := by
  by_cases hlow : islower c
  · intro h
    have hdist := toNat_toupper hlow
    have h97 : 97 ≤ c.toNat := UInt8.le_iff_toNat_le.1 hlow.1
    rw [h, UInt8.toNat_zero] at hdist
    omega
  · rwa [toupper_of_not_islower hlow]

theorem map_toupper_eq_self {bs : List UInt8} : bs.map toupper = bs ↔ ∀ b ∈ bs, ¬ islower b := by
  have hinj : bs.map toupper = bs.map id ↔ ∀ b ∈ bs, toupper b = b := List.map_inj_left
  rw [List.map_id] at hinj
  simp only [hinj, toupper_eq_self]

/-! ## The loop -/

/-- **The loop turns the C string into upper case** and leaves what follows its NUL alone. It reads
    up to that NUL. -/
theorem upperLoop_returns (todo : List UInt8) (rest : List (Option UInt8)) :
    ∀ (done : List UInt8) (fuel : Nat), 0 ∉ done ++ todo → todo.length < fuel →
      ∃ reads, upperLoop fuel done.length ((done ++ todo).map some ++ some 0 :: rest)
          = .ok ((done ++ todo.map toupper).map some ++ some 0 :: rest, reads) ∧
        ∀ r ∈ reads, r ≤ done.length + todo.length := by
  induction todo with
  | nil =>
      intro done fuel htext hfuel
      obtain ⟨fuel, rfl⟩ := Nat.exists_eq_succ_of_ne_zero (Nat.ne_of_gt hfuel)
      rw [List.append_nil] at htext
      refine ⟨List.range (done.length + 1), ?_, fun r hr => ?_⟩
      · rw [upperLoop, List.append_nil, scanString_textual htext]
        show (if done.length < done.length then _ else _) = _
        rw [if_neg (Nat.lt_irrefl _), List.map_nil, List.append_nil]
        rfl
      · rw [List.mem_range] at hr
        exact Nat.le_of_lt_succ hr
  | cons c todo ih =>
      intro done fuel htext hfuel
      obtain ⟨fuel, rfl⟩ := Nat.exists_eq_succ_of_ne_zero (Nat.ne_of_gt (Nat.zero_lt_of_lt hfuel))
      have hc : c ≠ 0 := fun h => htext (by simp [h])
      -- the text after this iteration, split one position further
      have hset : ((done ++ c :: todo).map some ++ some 0 :: rest).set done.length
          (some (toupper c)) = ((done ++ [toupper c]) ++ todo).map some ++ some 0 :: rest := by
        simp
      have hslot : slot ((done ++ c :: todo).map some ++ some 0 :: rest) done.length = .ok c := by
        simp [slot]
      have htext' : 0 ∉ (done ++ [toupper c]) ++ todo := by
        simp only [List.mem_append, List.mem_cons, List.not_mem_nil, not_or] at htext ⊢
        exact ⟨⟨htext.1, Ne.symm (toupper_ne_zero hc), not_false⟩, htext.2.2⟩
      obtain ⟨reads, hloop, hreads⟩ := ih (done ++ [toupper c]) fuel htext'
        (Nat.lt_of_succ_lt_succ hfuel)
      rw [List.length_append, List.length_singleton] at hloop hreads
      refine ⟨List.range ((done ++ c :: todo).length + 1) ++ done.length :: reads, ?_, ?_⟩
      · rw [upperLoop, scanString_textual htext]
        show (if done.length < (done ++ c :: todo).length then _ else _) = _
        rw [if_pos (by simp), hslot]
        show (upperLoop fuel (done.length + 1) (List.set _ _ _) >>= _) = _
        rw [hset, hloop]
        simp [bind, Except.bind, pure, Except.pure]
      · intro r hr
        simp only [List.mem_append, List.mem_range, List.mem_cons, List.length_append,
          List.length_cons] at hr ⊢
        rcases hr with hr | rfl | hr
        · omega
        · omega
        · have := hreads r hr
          omega

/-- Where the loop ends, its first check has read the NUL of the C string it found. -/
theorem upperLoop_reads_nul {fuel i : Nat} {buf buf' : List (Option UInt8)} {line : List UInt8}
    {reads : List Nat} (h : upperLoop fuel i buf = .ok (buf', reads))
    (hscan : scanString buf = .ok line) : line.length ∈ reads := by
  cases fuel with
  | zero => cases h
  | succ fuel =>
      rw [upperLoop, hscan] at h
      replace h : (if i < line.length then _ else _) = Except.ok (buf', reads) := h
      split at h
      · obtain ⟨c, _, h⟩ := ok_of_bind h
        obtain ⟨⟨buf₁, reads₁⟩, _, h⟩ := ok_of_bind h
        cases h
        simp
      · cases h
        simp

/-! ## One iteration -/

/-- An iteration on a chunk with a NUL: the bytes before it are sent in upper case, the bytes after
    it as they came. -/
theorem turn_returns (buf : List (Option UInt8)) (chunk : Chunk) {line tail : List UInt8}
    (hbytes : chunk.bytes = line ++ 0 :: tail) (hline : 0 ∉ line) :
    ∃ t, turn buf chunk = .ok t ∧ t.pktlen = chunk.bytes.length ∧
      t.sent = line.map toupper ++ 0 :: tail ∧ ∀ r ∈ t.reads, r < t.pktlen := by
  have hlen : chunk.bytes.length = line.length + 1 + tail.length := by
    rw [hbytes, List.length_append, List.length_cons]
    omega
  have hrecv : filled buf chunk.bytes
      = line.map some ++ some 0 :: (tail.map some ++ buf.drop chunk.bytes.length) := by
    rw [filled_eq]
    simp [hbytes]
  obtain ⟨reads, hloop, hreads⟩ := upperLoop_returns line
    (tail.map some ++ buf.drop chunk.bytes.length) [] bufSize hline
    (by have := chunk.fits; omega)
  rw [List.nil_append, List.nil_append, List.length_nil] at hloop
  have htake : ((line.map toupper).map some
      ++ some 0 :: (tail.map some ++ buf.drop chunk.bytes.length)).take chunk.bytes.length
      = (line.map toupper ++ 0 :: tail).map some := by
    have hsplit : (line.map toupper).map some
        ++ some 0 :: (tail.map some ++ buf.drop chunk.bytes.length)
        = (line.map toupper ++ 0 :: tail).map some ++ buf.drop chunk.bytes.length := by
      simp
    rw [hsplit, List.take_left']
    rw [hlen, List.length_map, List.length_append, List.length_map, List.length_cons]
    omega
  refine ⟨⟨(line.map toupper).map some ++ some 0 :: (tail.map some ++ buf.drop chunk.bytes.length),
    chunk.bytes.length, line, reads, line.map toupper ++ 0 :: tail⟩, ?_, rfl, rfl, ?_⟩
  · rw [turn, hrecv, scanString_textual hline]
    show (upperLoop bufSize 0 _ >>= _) = _
    rw [hloop]
    show (written (List.take _ _) >>= _) = _
    rw [htake, written_map]
    rfl
  · intro r hr
    have := hreads r hr
    show r < chunk.bytes.length
    rw [List.length_nil] at this
    omega

/-- An iteration whose loop stayed inside the chunk received a NUL. -/
theorem zero_mem_of_turn {buf : List (Option UInt8)} {chunk : Chunk} {t : Turn}
    (h : turn buf chunk = .ok t) (hreads : ∀ r ∈ t.reads, r < t.pktlen) : 0 ∈ chunk.bytes := by
  obtain ⟨line, hscan, h⟩ := ok_of_bind h
  obtain ⟨⟨buf', reads⟩, hloop, h⟩ := ok_of_bind h
  obtain ⟨sent, _, h⟩ := ok_of_bind h
  cases h
  have hlt : line.length < chunk.bytes.length := hreads _ (upperLoop_reads_nul hloop hscan)
  obtain ⟨_, rest, hrecv⟩ := scanString_inv hscan
  have hget := congrArg (·[line.length]?) hrecv
  rw [filled_eq] at hget
  simp only [List.getElem?_append_left, List.length_map, hlt, List.getElem?_map,
    List.getElem?_append_right, Nat.le_refl, Nat.sub_self, List.getElem?_cons_zero,
    List.getElem?_eq_getElem hlt, Option.map_some] at hget
  rw [← Option.some.inj (Option.some.inj hget)]
  exact List.getElem_mem hlt

/-! ## A connection -/

/-- The server does on a connection what it is there for: what it sends is what it received, in
    upper case, and its loop reads nothing but the chunk just received. -/
def Echoes (chunks : List Chunk) : Prop :=
  ∃ turns, serve buf₀ chunks = .ok turns ∧
    turns.flatMap Turn.sent = (chunks.flatMap Chunk.bytes).map toupper ∧
    ∀ t ∈ turns, ∀ r ∈ t.reads, r < t.pktlen

/-- The chunk holds a NUL, and no small letter after its first NUL. -/
def Chunk.Framed (chunk : Chunk) : Prop :=
  0 ∈ chunk.bytes ∧ ∀ b ∈ chunk.bytes.drop (cstring chunk.bytes).length, ¬ islower b

theorem Chunk.framed_iff {chunk : Chunk} {line tail : List UInt8}
    (hbytes : chunk.bytes = line ++ 0 :: tail) (hline : 0 ∉ line) :
    chunk.Framed ↔ tail.map toupper = tail := by
  have hstop : cstring chunk.bytes = line := by
    have hrest : (0 :: tail).takeWhile (· ≠ 0) = [] := List.takeWhile_cons_of_neg (by simp)
    rw [hbytes, cstring, List.takeWhile_append_of_pos, hrest, List.append_nil]
    intro b hb
    exact decide_eq_true fun h0 => hline (h0 ▸ hb)
  unfold Chunk.Framed
  rw [hstop, map_toupper_eq_self, hbytes, List.drop_left]
  simp only [List.mem_append, List.mem_cons, true_or, or_true, true_and, forall_eq_or_imp,
    and_iff_right_iff_imp]
  exact fun _ => by decide

/-- One iteration does its part if and only if its chunk is framed. -/
theorem turn_sends_upper (buf : List (Option UInt8)) {chunk : Chunk} (h : 0 ∈ chunk.bytes) :
    ∃ t, turn buf chunk = .ok t ∧ t.sent.length = chunk.bytes.length ∧
      (t.sent = chunk.bytes.map toupper ↔ chunk.Framed) ∧ ∀ r ∈ t.reads, r < t.pktlen := by
  obtain ⟨line, tail, hbytes, hline⟩ := List.eq_append_cons_of_mem h
  obtain ⟨t, hturn, _, hsent, hreads⟩ := turn_returns buf chunk hbytes hline
  refine ⟨t, hturn, ?_, ?_, hreads⟩
  · simp [hsent, hbytes]
  · rw [Chunk.framed_iff hbytes hline, hsent, hbytes, List.map_append, List.map_cons,
      List.append_cancel_left_eq, show toupper 0 = 0 from rfl, List.cons_inj_right]
    exact eq_comm

theorem serve_echoes (chunks : List Chunk) (h : ∀ c ∈ chunks, c.Framed) :
    ∀ buf, ∃ turns, serve buf chunks = .ok turns ∧
      turns.flatMap Turn.sent = (chunks.flatMap Chunk.bytes).map toupper ∧
      ∀ t ∈ turns, ∀ r ∈ t.reads, r < t.pktlen := by
  induction chunks with
  | nil => exact fun buf => ⟨[], rfl, rfl, fun t ht => absurd ht List.not_mem_nil⟩
  | cons chunk rest ih =>
      intro buf
      have hframed := h chunk List.mem_cons_self
      obtain ⟨t, hturn, _, hsent, hreads⟩ := turn_sends_upper buf hframed.1
      obtain ⟨ts, hserve, hall, hlog⟩ := ih (fun c hc => h c (List.mem_cons_of_mem _ hc)) t.buf
      refine ⟨t :: ts, ?_, ?_, List.forall_mem_cons.2 ⟨hreads, hlog⟩⟩
      · rw [serve, hturn]
        show (serve t.buf rest >>= _) = _
        rw [hserve]
        rfl
      · rw [List.flatMap_cons, List.flatMap_cons, List.map_append, hsent.2 hframed, hall]

theorem framed_of_serve (chunks : List Chunk) :
    ∀ buf turns, serve buf chunks = .ok turns →
      turns.flatMap Turn.sent = (chunks.flatMap Chunk.bytes).map toupper →
      (∀ t ∈ turns, ∀ r ∈ t.reads, r < t.pktlen) → ∀ c ∈ chunks, c.Framed := by
  induction chunks with
  | nil => exact fun _ _ _ _ _ c hc => absurd hc List.not_mem_nil
  | cons chunk rest ih =>
      intro buf turns hserve hall hlog
      obtain ⟨t, hturn, hserve⟩ := ok_of_bind hserve
      obtain ⟨ts, hrest, hret⟩ := ok_of_bind hserve
      cases hret
      rw [List.forall_mem_cons] at hlog
      obtain ⟨t', hturn', hlen, hsent, _⟩ :=
        turn_sends_upper buf (zero_mem_of_turn hturn hlog.1)
      obtain rfl : t' = t := Except.ok.inj (hturn'.symm.trans hturn)
      rw [List.flatMap_cons, List.flatMap_cons, List.map_append] at hall
      -- every iteration sends as many bytes as it received
      obtain ⟨hhead, htail⟩ := List.append_inj hall (by rw [hlen, List.length_map])
      exact List.forall_mem_cons.2 ⟨hsent.1 hhead, ih t'.buf ts hrest htail hlog.2⟩

/-- **The server echoes in upper case exactly the connections cut into framed chunks.** -/
theorem echoes_iff_framed (chunks : List Chunk) : Echoes chunks ↔ ∀ c ∈ chunks, c.Framed := by
  constructor
  · rintro ⟨turns, hserve, hall, hlog⟩
    exact framed_of_serve chunks buf₀ turns hserve hall hlog
  · exact fun h => serve_echoes chunks h buf₀

/-- Three lines, the second cut after its first byte. -/
def cutLines : List Chunk :=
  [⟨[120, 121, 122, 0], by decide, by decide, by simp⟩, ⟨[97], by decide, by decide, by simp⟩,
    ⟨[98, 0, 99, 100, 0], by decide, by decide, by simp⟩]

theorem cutLines_not_echoed :
    cutLines.flatMap Chunk.bytes = clientStream [[120, 121, 122], [97, 98], [99, 100]] ∧
      (serve buf₀ cutLines).map (·.flatMap Turn.sent)
        = .ok [88, 89, 90, 0, 65, 66, 0, 99, 100, 0] ∧ ¬ Echoes cutLines := by
  refine ⟨by decide, by rfl, ?_⟩
  rintro ⟨turns, hserve, hall, hlog⟩
  have hframed := framed_of_serve cutLines buf₀ turns hserve hall hlog
  exact absurd (hframed _ (List.mem_cons_of_mem _ List.mem_cons_self)).1 (by decide)

/-- Lines that arrive whole, one in each chunk, are echoed in upper case. -/
theorem lines_echoed (chunks : List Chunk)
    (h : ∀ c ∈ chunks, ∃ line, 0 ∉ line ∧ c.bytes = line ++ [0]) : Echoes chunks := by
  refine serve_echoes chunks (fun c hc => ?_) buf₀
  obtain ⟨line, hline, hbytes⟩ := h c hc
  exact (Chunk.framed_iff hbytes hline).2 rfl

end LinuxSamples.Socket
