import LinuxSamples.Awk.Tables
import LinuxSamples.Number.Double

set_option autoImplicit false

/-! # What the table packer takes from a header line

The script cuts the name of a table out of its header by the first underscore and the first bracket of
the whole line, wherever these stand. Only a name that begins with an underscore is cut out as it is
written. The size is read as it is written, but AWK keeps it in a double. -/

namespace LinuxSamples.Awk

open LinuxSamples.Text

/-! ## The name and the size in the code -/

/-- The variable `name` after a header line. -/
def headerName (line : Chars) : Chars :=
  substr line (index line ['_']) ((index line ['['] : Int) - index line ['_'])

/-- The variable `offsetl` after a header line. -/
def headerSize (line : Chars) : Int :=
  number (substr line ((index line ['['] : Int) + 1)
    ((index line [']'] : Int) - index line ['['] - 1))

/-- What the double `offsetl` holds; `none` is infinity. -/
def sizeRead (line : Chars) : Option Int := Number.rounded (headerSize line)

/-- The two lines written for a table. -/
def declared (name : Chars) (offset : Int) : Chars :=
  unlines ["    const unsigned char* ".toList ++ name ++ " = NULL;".toList,
    "    const unsigned int ".toList ++ name ++ "_offset = ".toList ++ numeral offset ++ [';']]

theorem startTable_eq (line : Chars) (s : State) :
    startTable line s = { s with
      state := .table
      name := headerName line
      remain := padding (headerSize line)
      offset := s.offset + (headerSize line + padding (headerSize line))
      out1 := s.out1 ++ declared (headerName line) s.offset
      out2 := s.out2 ++ ("// start data: ".toList ++ headerName line ++ ['\n']) } := by
  unfold startTable
  simp [State.print1, State.print2, declared, headerName, headerSize]

/-! ## Where a character first stands -/

variable {line : Chars} {c : Char}

theorem index_of_notMem (h : c ∉ line) : index line [c] = 0 := by
  induction line with
  | nil => rfl
  | cons d line ih =>
      rw [List.mem_cons, not_or] at h
      have hd : [c].isPrefixOf (d :: line) = false := by
        rw [List.isPrefixOf_cons_cons, beq_false_of_ne h.1, Bool.false_and]
      rw [index, hd, if_neg Bool.false_ne_true, ih h.2]

theorem index_of_mem (h : c ∈ line) :
    index line [c] = (line.takeWhile (· ≠ c)).length + 1 := by
  have hsplit := List.takeWhile_append_dropWhile (p := (· ≠ c)) (l := line)
  have hne : line.dropWhile (· ≠ c) ≠ [] := by
    rw [Ne, List.dropWhile_eq_nil_iff]
    intro hall
    exact absurd rfl (of_decide_eq_true (hall c h))
  have hhead : (line.dropWhile (· ≠ c)).head hne = c := by
    have hstop := List.head_dropWhile_not (· ≠ c) hne
    simpa using hstop
  have hfront : c ∉ line.takeWhile (· ≠ c) := by
    intro hmem
    have hall := List.mem_takeWhile_imp hmem
    simp at hall
  have hcons : line.dropWhile (· ≠ c) = c :: (line.dropWhile (· ≠ c)).tail := by
    conv_lhs => rw [← List.cons_head_tail hne, hhead]
  have hindex := index_char hfront (line.dropWhile (· ≠ c)).tail
  rwa [← hcons, hsplit] at hindex

/-! ## The name as a part of the line -/

/-- The text from the first underscore to the first bracket: empty when there is no bracket or the
    underscore stands behind it, and everything before the bracket when there is no underscore. -/
def cut (line : Chars) : Chars :=
  if '[' ∉ line then []
  else if '_' ∉ line then line.takeWhile (· ≠ '[')
  else (line.takeWhile (· ≠ '[')).dropWhile (· ≠ '_')

theorem take_length_takeWhile (p : Char → Bool) (line : Chars) :
    line.take (line.takeWhile p).length = line.takeWhile p :=
  (List.prefix_iff_eq_take.1 (List.takeWhile_prefix p)).symm

/-- Dropping from a beginning of the line as many characters as stand before the first underscore of
    the line. -/
theorem drop_takeWhile (p : Char → Bool) (front rest : Chars) :
    front.drop ((front ++ rest).takeWhile p).length = front.dropWhile p := by
  induction front with
  | nil => simp
  | cons d front ih =>
      rw [List.cons_append, List.takeWhile_cons, List.dropWhile_cons]
      split
      · rw [List.length_cons, List.drop_succ_cons, ih]
      · rfl

/-- **What the script takes for the name.** -/
theorem headerName_eq (line : Chars) : headerName line = cut line := by
  unfold headerName cut
  by_cases hopen : '[' ∈ line
  · rw [if_neg (not_not.2 hopen), index_of_mem hopen]
    have htake := take_length_takeWhile (· ≠ '[') line
    by_cases hunder : '_' ∈ line
    · rw [if_neg (not_not.2 hunder), index_of_mem hunder, substr]
      have hdrop := drop_takeWhile (· ≠ '_') (line.takeWhile (· ≠ '['))
        (line.dropWhile (· ≠ '['))
      rw [List.takeWhile_append_dropWhile] at hdrop
      rw [show (_ + (_ - _) - 1 : Int).toNat = (line.takeWhile (· ≠ '[')).length by omega,
        htake, show (_ - 1 : Int).toNat = (line.takeWhile (· ≠ '_')).length by omega, hdrop]
    · rw [if_pos hunder, index_of_notMem hunder, substr]
      rw [show (_ + (_ - _) - 1 : Int).toNat = (line.takeWhile (· ≠ '[')).length by omega, htake]
      rfl
  · rw [if_pos hopen, index_of_notMem hopen, substr]
    rw [show (_ + (_ - _) - 1 : Int).toNat = 0 by omega, List.take_zero, List.drop_nil]

theorem mem_of_mem_cut (h : c ∈ cut line) : c ∈ line := by
  unfold cut at h
  split at h
  · cases h
  · split at h
    · exact List.takeWhile_subset _ h
    · exact List.takeWhile_subset _ ((List.dropWhile_suffix _).subset h)

/-! ## Well-formed headers -/

/-- The header of a byte array: its name, the numeral between the brackets, and the attributes before
    the opening brace. -/
structure Header where
  name : Chars
  size : Chars
  attributes : Chars
  name_start : ∃ c rest, name = c :: rest ∧ (c.isAlpha ∨ c = '_')
  name_identifier : ∀ c ∈ name, c.isAlphanum ∨ c = '_'
  size_digits : ∀ c ∈ size, c.isDigit
  size_pos : 0 < decimal size
  attributes_line : '\n' ∉ attributes

namespace Header

/-- `    const unsigned char NAME[N]... {`. -/
def text (h : Header) : Chars :=
  headerStart ++ ' ' :: h.name ++ '[' :: h.size ++ ']' :: h.attributes ++ ['\x7b']

/-- A name has no bracket, no blank and no newline. -/
theorem notMem_name (h : Header) {c : Char} (hc : c.isAlphanum = false) (hne : c ≠ '_') :
    c ∉ h.name := by
  intro hmem
  rcases h.name_identifier c hmem with h' | h'
  · rw [hc] at h'
    cases h'
  · exact hne h'

theorem notMem_size (h : Header) {c : Char} (hc : c.isDigit = false) : c ∉ h.size := by
  intro hmem
  rw [h.size_digits c hmem] at hc
  cases hc

theorem size_ne_nil (h : Header) : h.size ≠ [] := by
  intro hnil
  have hpos := h.size_pos
  rw [hnil] at hpos
  exact absurd hpos (by decide)

theorem text_startsWith (h : Header) : startsWith h.text headerStart = true := by
  rw [startsWith, List.isPrefixOf_iff_prefix, text]
  simp only [List.append_assoc]
  exact List.prefix_append _ _

theorem text_line (h : Header) : '\n' ∉ h.text := by
  have hname := h.notMem_name (c := '\n') (by decide) (by decide)
  have hsize := h.notMem_size (c := '\n') (by decide)
  have hstart : '\n' ∉ headerStart := by decide
  simp [text, hname, hsize, hstart, h.attributes_line]

/-- The size is read as it is written. -/
theorem headerSize_text (h : Header) : headerSize h.text = decimal h.size := by
  have hsize := substr_brackets (h.notMem_name (c := '[') (by decide) (by decide))
    (h.notMem_name (by decide) (by decide)) (h.notMem_size (by decide)) (h.attributes ++ ['\x7b'])
  have htext : h.text
      = headerStart ++ ' ' :: h.name ++ '[' :: h.size ++ ']' :: (h.attributes ++ ['\x7b']) := by
    simp [text]
  rw [headerSize, htext, hsize, number_digits h.size_ne_nil h.size_digits]

/-- The name is cut from its first underscore on. -/
theorem cut_text (h : Header) : cut h.text =
    if '_' ∈ h.text then h.name.dropWhile (· ≠ '_') else headerStart ++ ' ' :: h.name := by
  have hopen : '[' ∈ h.text := by simp [text]
  have hbefore : h.text.takeWhile (· ≠ '[') = headerStart ++ ' ' :: h.name := by
    have hname := h.notMem_name (c := '[') (by decide) (by decide)
    have hstart : '[' ∉ headerStart := by decide
    have hsplit : h.text = (headerStart ++ ' ' :: h.name)
        ++ '[' :: (h.size ++ ']' :: (h.attributes ++ ['\x7b'])) := by
      simp [text]
    rw [hsplit, List.takeWhile_append_of_pos]
    · simp
    · intro c hc
      simp only [decide_not, Bool.not_eq_true', decide_eq_false_iff_not]
      rintro rfl
      simp [hname, hstart] at hc
  rw [cut, if_neg (not_not.2 hopen), hbefore]
  by_cases hunder : '_' ∈ h.text
  · rw [if_neg (not_not.2 hunder), if_pos hunder]
    rfl
  · rw [if_pos hunder, if_neg hunder]

/-- **The name is cut out right exactly when it begins with an underscore.** -/
theorem cut_eq_name (h : Header) : cut h.text = h.name ↔ h.name.head? = some '_' := by
  rw [cut_text]
  obtain ⟨c, rest, hname, _⟩ := h.name_start
  split
  · rw [hname, List.head?_cons, Option.some.injEq]
    by_cases hc : c = '_'
    · simp [hc]
    · refine iff_of_false (fun hdrop => ?_) hc
      rw [List.dropWhile_cons_of_pos (by simpa using hc)] at hdrop
      have hlen := (List.dropWhile_suffix (· ≠ '_') (l := rest)).length_le
      rw [hdrop, List.length_cons] at hlen
      omega
  · next hunder =>
      refine iff_of_false (fun hall => ?_) fun hhead => hunder ?_
      · have hlen := congrArg List.length hall
        rw [List.length_append, List.length_cons] at hlen
        omega
      · simp [text, List.mem_of_mem_head? hhead]

end Header

/-- `    const unsigned char NAME[2] = {`. -/
def sampleHeader (c : Char) (rest : Chars) (hc : c.isAlpha ∨ c = '_')
    (hrest : ∀ d ∈ c :: rest, d.isAlphanum ∨ d = '_') : Header where
  name := c :: rest
  size := ['2']
  attributes := " = ".toList
  name_start := ⟨c, rest, rfl, hc⟩
  name_identifier := hrest
  size_digits := List.forall_mem_singleton.2 rfl
  size_pos := by decide
  attributes_line := by decide

end LinuxSamples.Awk
