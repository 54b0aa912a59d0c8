import Mathlib.Data.List.TakeWhile
import Mathlib.Tactic.Common

set_option autoImplicit false

/-! # Texts in blocks of one size

Texts that are shorter than `size` are sent as blocks of that size, filled up with `blank`. Whoever
takes the stream of blocks apart elsewhere than between two of them sees, up to the next `blank`, a
part of one text.

A `Channel` is the abstract account of such a stream that is read in pieces. That every piece is
shorter than a block is a field of it: so the reader falls behind by one element with every piece. -/

namespace LinuxSamples.Network

variable {α : Type}

section Stream

variable (blank : α) (size : Nat)

/-- A text filled up to the size of a block. -/
def block (text : List α) : List α := text ++ List.replicate (size - text.length) blank

/-- The blocks of several texts. -/
def stream (texts : List (List α)) : List α := texts.flatMap (block blank size)

/-- The text at the front. -/
def upTo [DecidableEq α] (l : List α) : List α := l.takeWhile (· ≠ blank)

variable {blank size}

theorem block_length {text : List α} (h : text.length ≤ size) :
    (block blank size text).length = size := by
  rw [block, List.length_append, List.length_replicate, Nat.add_sub_cancel' h]

@[simp] theorem stream_nil : stream blank size [] = [] := rfl

@[simp] theorem stream_cons (text : List α) (texts : List (List α)) :
    stream blank size (text :: texts) = block blank size text ++ stream blank size texts := rfl

theorem stream_append (texts texts' : List (List α)) :
    stream blank size (texts ++ texts') = stream blank size texts ++ stream blank size texts' :=
  List.flatMap_append

theorem stream_length {texts : List (List α)} (h : ∀ text ∈ texts, text.length ≤ size) :
    (stream blank size texts).length = size * texts.length := by
  induction texts with
  | nil => rfl
  | cons text texts ih =>
      rw [stream_cons, List.length_append, block_length (h text List.mem_cons_self),
        ih fun t ht => h t (List.mem_cons_of_mem _ ht), List.length_cons, Nat.mul_succ, Nat.add_comm]

/-- The stream from a place inside block `j` on. -/
theorem stream_drop {texts : List (List α)} (h : ∀ text ∈ texts, text.length ≤ size) {j o : Nat}
    (hj : j < texts.length) (ho : o ≤ size) :
    (stream blank size texts).drop (size * j + o)
      = (block blank size texts[j]).drop o ++ stream blank size (texts.drop (j + 1)) := by
  induction texts generalizing j with
  | nil => exact absurd hj (Nat.not_lt_zero j)
  | cons text texts ih =>
      have hlength : (block blank size text).length = size := block_length (h text List.mem_cons_self)
      cases j with
      | zero =>
          rw [Nat.mul_zero, Nat.zero_add, stream_cons, List.drop_append_of_le_length (by omega)]
          rfl
      | succ j =>
          have hplace : size * (j + 1) + o = (block blank size text).length + (size * j + o) := by
            rw [hlength, Nat.mul_succ]
            omega
          rw [stream_cons, hplace, List.drop_length_add_append,
            ih (fun t ht => h t (List.mem_cons_of_mem _ ht)) (Nat.lt_of_succ_lt_succ hj)]
          rfl

variable [DecidableEq α]

theorem upTo_of_notMem {l : List α} (h : blank ∉ l) : upTo blank l = l :=
  List.takeWhile_eq_self_iff.2 fun a ha => by
    simpa using fun (heq : a = blank) => h (heq ▸ ha)

/-- Up to a `blank` there is what stands before it. -/
theorem upTo_append {l : List α} (h : blank ∉ l) (rest : List α) :
    upTo blank (l ++ blank :: rest) = l := by
  induction l with
  | nil => simp [upTo]
  | cons a l ih =>
      obtain ⟨hne, hl⟩ := List.ne_and_not_mem_of_not_mem_cons h
      rw [upTo, List.cons_append, List.takeWhile_cons_of_pos (by simpa using hne.symm)]
      exact congrArg _ (ih hl)

theorem upTo_take_append {l : List α} (h : blank ∉ l) (rest : List α) (n : Nat) :
    upTo blank ((l ++ blank :: rest).take n) = l.take n := by
  rcases Nat.lt_or_ge l.length n with hlt | hle
  · obtain ⟨k, rfl⟩ := Nat.exists_eq_add_of_lt hlt
    rw [List.take_of_length_le (l := l) (by omega),
      show l.length + k + 1 = l.length + (k + 1) by omega, List.take_length_add_append,
      List.take_succ_cons, upTo_append h]
  · rw [List.take_append_of_le_length hle]
    exact upTo_of_notMem fun hmem => h (List.mem_of_mem_take hmem)

/-- What is seen of a block from a place inside it on. -/
theorem upTo_drop_block {text : List α} (h : blank ∉ text) (hlen : text.length < size) {o : Nat}
    (ho : o < size) (rest : List α) (n : Nat) :
    upTo blank (((block blank size text).drop o ++ rest).take n) = (text.drop o).take n := by
  have hnotMem : blank ∉ text.drop o := fun hmem => h (List.mem_of_mem_drop hmem)
  -- a block has a `blank` after its text, also from that place on
  obtain ⟨k, hk⟩ : ∃ k, (block blank size text).drop o
      = text.drop o ++ blank :: List.replicate k blank := by
    refine ⟨size - text.length - (o - text.length) - 1, ?_⟩
    rw [block, List.drop_append, List.drop_replicate, ← List.replicate_succ]
    congr 2
    omega
  rw [hk, List.append_assoc, List.cons_append]
  exact upTo_take_append hnotMem _ n

/-- **A piece of the stream shows a part of one text.** -/
theorem upTo_piece {texts : List (List α)} (hlen : ∀ text ∈ texts, text.length < size)
    (hblank : ∀ text ∈ texts, blank ∉ text) {j o : Nat} (hj : j < texts.length) (ho : o < size)
    (n : Nat) :
    upTo blank (((stream blank size texts).drop (size * j + o)).take n)
      = (texts[j].drop o).take n := by
  have hmem := List.getElem_mem hj
  rw [stream_drop (fun t ht => Nat.le_of_lt (hlen t ht)) hj (Nat.le_of_lt ho)]
  exact upTo_drop_block (hblank _ hmem) (hlen _ hmem) ho _ n

end Stream

/-! ## Channels -/

/-- Texts that were sent in blocks, the pieces that were read, and what is in flight. -/
structure Channel (blank : α) (size : Nat) where
  texts : List (List α)
  pieces : List (List α)
  flight : List α
  fits : ∀ text ∈ texts, text.length < size ∧ blank ∉ text
  short : ∀ piece ∈ pieces, 0 < piece.length ∧ piece.length < size
  conserved : pieces.flatten ++ flight = stream blank size texts

namespace Channel

variable {blank : α} {size : Nat}

/-- Nothing was sent yet. -/
def start (blank : α) (size : Nat) : Channel blank size :=
  ⟨[], [], [], by simp, by simp, rfl⟩

def send (c : Channel blank size) (text : List α) (h : text.length < size ∧ blank ∉ text) :
    Channel blank size where
  texts := c.texts ++ [text]
  pieces := c.pieces
  flight := c.flight ++ block blank size text
  fits := by
    intro t ht
    rcases List.mem_append.1 ht with ht | ht
    · exact c.fits t ht
    · exact List.mem_singleton.1 ht ▸ h
  short := c.short
  conserved := by
    rw [← List.append_assoc, c.conserved, stream_append, stream_cons, stream_nil, List.append_nil]

def recv (c : Channel blank size) (n : Nat) (h : 0 < n ∧ n < size) (hflight : n ≤ c.flight.length) :
    Channel blank size where
  texts := c.texts
  pieces := c.pieces ++ [c.flight.take n]
  flight := c.flight.drop n
  fits := c.fits
  short := by
    intro piece hpiece
    rcases List.mem_append.1 hpiece with hpiece | hpiece
    · exact c.short piece hpiece
    · rw [List.mem_singleton.1 hpiece, List.length_take, Nat.min_eq_left hflight]
      exact h
  conserved := by
    rw [List.flatten_append, List.flatten_singleton, List.append_assoc, List.take_append_drop,
      c.conserved]

variable (c : Channel blank size)

theorem stream_length_texts : (stream blank size c.texts).length = size * c.texts.length :=
  stream_length fun text ht => Nat.le_of_lt (c.fits text ht).1

/-- What is read in `k` pieces falls short of `k` blocks. -/
theorem flatten_length_le {pieces : List (List α)}
    (h : ∀ piece ∈ pieces, 0 < piece.length ∧ piece.length < size) :
    pieces.flatten.length + pieces.length ≤ size * pieces.length := by
  induction pieces with
  | nil => exact Nat.le_refl _
  | cons piece pieces ih =>
      have hpiece := (h piece List.mem_cons_self).2
      have hrest := ih fun p hp => h p (List.mem_cons_of_mem _ hp)
      rw [List.flatten_cons, List.length_append, List.length_cons, Nat.mul_succ]
      omega

/-- A reader that has read everything has read more pieces than there were blocks. -/
theorem texts_lt_pieces (hflight : c.flight = []) (htexts : c.texts ≠ []) :
    c.texts.length < c.pieces.length := by
  have hlength := congrArg List.length c.conserved
  rw [hflight, List.append_nil, c.stream_length_texts] at hlength
  have hshort := flatten_length_le c.short
  rw [hlength] at hshort
  by_contra hnot
  have hle : size * c.pieces.length ≤ size * c.texts.length :=
    Nat.mul_le_mul_left size (Nat.le_of_not_lt hnot)
  have hpieces : c.pieces.length = 0 := by omega
  have hflatten : c.pieces.flatten = [] := by rw [List.length_eq_zero_iff.1 hpieces]; rfl
  rw [hflatten, List.length_nil] at hlength
  obtain ⟨text, ht⟩ := List.exists_mem_of_ne_nil c.texts htexts
  have hsize := (c.fits text ht).1
  have htexts' := List.length_pos_of_mem ht
  have := Nat.mul_pos (Nat.zero_lt_of_lt hsize) htexts'
  omega

/-- **The reader falls behind.** Each piece but the first shows a part of a text that was sent before
    the one of the same number. -/
theorem piece_shows [DecidableEq α] {k : Nat} (hk : k < c.pieces.length) :
    ∃ j o, ∃ hj : j < c.texts.length, (k = 0 → j = 0 ∧ o = 0) ∧ (0 < k → j < k) ∧
      upTo blank c.pieces[k] = (c.texts[j].drop o).take c.pieces[k].length := by
  obtain ⟨hpos, hsize⟩ := c.short _ (List.getElem_mem hk)
  -- where the piece begins in the stream
  let place := (c.pieces.take k).flatten.length
  have hpieces : c.pieces = c.pieces.take k ++ c.pieces[k] :: c.pieces.drop (k + 1) := by
    rw [List.getElem_cons_drop, List.take_append_drop]
  have hstream : stream blank size c.texts = (c.pieces.take k).flatten
      ++ (c.pieces[k] ++ ((c.pieces.drop (k + 1)).flatten ++ c.flight)) := by
    rw [← c.conserved]
    conv_lhs => rw [hpieces]
    simp only [List.flatten_append, List.flatten_cons, List.append_assoc]
  have hpiece : c.pieces[k] = ((stream blank size c.texts).drop place).take c.pieces[k].length := by
    rw [hstream, List.drop_left' rfl, List.take_left' rfl]
  have hplace : place < size * c.texts.length := by
    have hlength := congrArg List.length hstream
    rw [c.stream_length_texts, List.length_append, List.length_append] at hlength
    omega
  have htaken : place + k ≤ size * k := by
    have hshort := flatten_length_le fun piece (hp : piece ∈ c.pieces.take k) =>
      c.short piece (List.mem_of_mem_take hp)
    rwa [List.length_take, Nat.min_eq_left (Nat.le_of_lt hk)] at hshort
  have hj : place / size < c.texts.length := Nat.div_lt_of_lt_mul hplace
  refine ⟨place / size, place % size, hj, ?_, ?_, ?_⟩
  · rintro rfl
    have hzero : place = 0 := by omega
    rw [hzero]
    exact ⟨Nat.zero_div _, Nat.zero_mod _⟩
  · intro hkpos
    exact Nat.div_lt_of_lt_mul (by omega)
  · have hshows := upTo_piece (fun t ht => (c.fits t ht).1) (fun t ht => (c.fits t ht).2) hj
      (Nat.mod_lt place (Nat.zero_lt_of_lt hsize)) c.pieces[k].length
    rwa [Nat.div_add_mod, ← hpiece] at hshows

end Channel

end LinuxSamples.Network
