import LinuxSamples.Awk.PassThrough

set_option autoImplicit false

/-! # The names declared by the table packer

For each line the script takes for a header, `file1` gets the declarations of a pointer and an offset
under the name cut out of the line. Two tables with different names may be cut to the same name, and
the offset of one may have the name of another. -/

namespace LinuxSamples.Awk

open LinuxSamples.Text

/-- What the script writes to `file1` for a record. -/
inductive Piece
  | copied (line : Chars)
  | nothing
  /-- The declarations of a table at an offset. -/
  | table (name : Chars) (offset : Int)

def Piece.text : Piece → Chars
  | .copied line => line ++ ['\n']
  | .nothing => []
  | .table name offset => declared name offset

/-- The names of the pointer and the offset. -/
def Piece.names : Piece → List Chars
  | .table name _ => [name, name ++ "_offset".toList]
  | .copied _ | .nothing => []

/-- A table is declared where the script enters one; in a table nothing is written. -/
def piece (s s' : State) (line : Chars) : Piece :=
  match s.state, s'.state with
  | .code, .table => .table s'.name s.offset
  | .code, .code => .copied line
  | .table, _ => .nothing

/-- What is written to `file1` while the script reads the given lines. -/
def pieces (o : Options) : State → List Chars → List Piece
  | _, [] => []
  | s, line :: rest => piece s (rule o s line) line :: pieces o (rule o s line) rest

/-- The names declared in `file1`, two for each table. -/
def declaredNames (o : Options) (text : Chars) : List Chars :=
  (pieces o (begin o) (records text)).flatMap Piece.names

/-- Which of the given lines the script takes for headers. -/
def headerLines : Phase → List Chars → List Chars
  | _, [] => []
  | .code, line :: rest =>
      if startsWith line headerStart then line :: headerLines .table rest else headerLines .code rest
  | .table, line :: rest =>
      if startsWith line closingStart then headerLines .code rest else headerLines .table rest

/-- The names that a header line is made to declare. -/
def lineNames (line : Chars) : List Chars := [cut line, cut line ++ "_offset".toList]

/-- The two declarations of one line are none of those of the other. -/
def Apart (line line' : Chars) : Prop :=
  cut line ≠ cut line' ∧ cut line ≠ cut line' ++ "_offset".toList ∧
    cut line' ≠ cut line ++ "_offset".toList

variable {o : Options} {s : State} {line : Chars} {parts : List Part}

/-! ## What one line declares -/

theorem rule_table (o : Options) (line : Chars) (hs : s.state = .table) : ∃ text2, Wrote o s (rule o s line) [] text2 ∧
    (rule o s line).state = if startsWith line closingStart then .code else .table := by
  have hinside : Inside s s.name s.remain s.offset := ⟨hs, rfl, rfl, rfl⟩
  cases hline : startsWith line closingStart with
  | true =>
      obtain ⟨hwrote, hcode, _⟩ := rule_close (o := o) hinside hline
      exact ⟨_, hwrote, hcode⟩
  | false =>
      obtain ⟨hwrote, hinside'⟩ := rule_body (o := o) hinside hline
      exact ⟨_, hwrote, hinside'.state⟩

/-- What is written to `file1` for a record, and the names it declares. -/
theorem rule_file1 (o : Options) (s : State) (line : Chars) :
    (∃ text2, Wrote o s (rule o s line) (piece s (rule o s line) line).text text2) ∧
      ∀ rest, (piece s (rule o s line) line).names
          ++ (headerLines (rule o s line).state rest).flatMap lineNames
        = (headerLines s.state (line :: rest)).flatMap lineNames := by
  cases hs : s.state with
  | table =>
      obtain ⟨text2, hwrote, hstate⟩ := rule_table o line hs
      have hpiece : piece s (rule o s line) line = .nothing := by
        unfold piece
        rw [hs]
      rw [hpiece]
      refine ⟨⟨text2, hwrote⟩, fun rest => ?_⟩
      rw [hstate, headerLines]
      split <;> rfl
  | code =>
      cases hline : startsWith line headerStart with
      | true =>
          obtain ⟨hwrote, hinside⟩ := rule_start (o := o) hs hline
          have hpiece : piece s (rule o s line) line = .table (headerName line) s.offset := by
            unfold piece
            rw [hs, hinside.state, hinside.name]
          rw [hpiece]
          refine ⟨⟨_, hwrote⟩, fun rest => ?_⟩
          rw [hinside.state, headerLines, if_pos hline, List.flatMap_cons, Piece.names,
            headerName_eq]
          rfl
      | false =>
          obtain ⟨hwrote, hcode, _⟩ := rule_code (o := o) hs hline
          have hpiece : piece s (rule o s line) line = .copied line := by
            unfold piece
            rw [hs, hcode]
          rw [hpiece]
          refine ⟨⟨_, hwrote⟩, fun rest => ?_⟩
          rw [hcode, headerLines, if_neg (by rw [hline]; exact Bool.false_ne_true)]
          rfl

/-! ## Runs -/

/-- What is written to `file1` for a list of records. -/
theorem run_file1 {lines : List Chars} (hfnr : lines ≠ [] ∨ s.fnr ≠ 0) :
    ∃ text2, Wrote o s (lines.foldl (rule o) s) ((pieces o s lines).flatMap Piece.text) text2 := by
  induction lines generalizing s with
  | nil => exact ⟨_, Wrote.refl (hfnr.resolve_left fun h => h rfl)⟩
  | cons line lines ih =>
      obtain ⟨text2, hwrote⟩ := (rule_file1 o s line).1
      obtain ⟨text2', hrest⟩ := ih (Or.inr hwrote.fnr)
      exact ⟨_, hwrote.trans hrest⟩

/-- `file1` has these pieces between its preamble and its trailer. -/
theorem pack_file1 (o : Options) (text : Chars) : (pack o text).out1
    = (if (records text).isEmpty then [] else preamble1 o)
      ++ (pieces o (begin o) (records text)).flatMap Piece.text
      ++ trailer1 o (pack o text).blog := by
  rw [pack, finish_out1, finish_blog]
  cases hlines : records text with
  | nil => rfl
  | cons line lines =>
      obtain ⟨text2, hwrote⟩ := run_file1 (o := o) (s := begin o)
        (Or.inl (List.cons_ne_nil line lines))
      rw [(begin_wrote hwrote).1]
      rfl

/-- The declared names are cut out of the header lines. -/
theorem names_eq (o : Options) (s : State) (lines : List Chars) :
    (pieces o s lines).flatMap Piece.names = (headerLines s.state lines).flatMap lineNames := by
  induction lines generalizing s with
  | nil => cases s.state <;> rfl
  | cons line lines ih =>
      rw [pieces, List.flatMap_cons, ih]
      exact (rule_file1 o s line).2 lines

/-- No name is another one followed by `_offset`, and no two are the same. -/
theorem lineNames_nodup (lines : List Chars) :
    (lines.flatMap lineNames).Nodup ↔ lines.Pairwise Apart := by
  rw [List.Nodup, List.pairwise_flatMap]
  have hself : ∀ line ∈ lines, (lineNames line).Pairwise (· ≠ ·) := by
    intro line _
    have hne : cut line ≠ cut line ++ "_offset".toList := fun heq => by
      have hlen := congrArg List.length heq
      rw [List.length_append] at hlen
      exact absurd hlen (by simp)
    rw [lineNames, List.pairwise_pair]
    exact hne
  rw [and_iff_right hself]
  refine List.Pairwise.iff fun line line' => ?_
  have hcancel : cut line ++ "_offset".toList = cut line' ++ "_offset".toList ↔
      cut line = cut line' := List.append_left_inj _
  simp only [lineNames, List.forall_mem_cons, Apart, ne_eq, hcancel]
  tauto

/-- The declared names are pairwise distinct exactly if the header lines are. -/
theorem declaredNames_nodup (o : Options) (text : Chars) :
    (declaredNames o text).Nodup ↔ (headerLines .code (records text)).Pairwise Apart := by
  have hcode : (begin o).state = .code := rfl
  rw [declaredNames, names_eq, hcode, lineNames_nodup]

/-! ## Ordinary inputs -/

/-- The headers of the tables of an input. -/
def headers : List Part → List Header
  | [] => []
  | .code _ :: rest => headers rest
  | .table b :: rest => b.header :: headers rest

theorem headerLines_body {body rest : List Chars}
    (hbody : ∀ line ∈ body, startsWith line closingStart = false) :
    headerLines .table (body ++ rest) = headerLines .table rest := by
  induction body with
  | nil => rfl
  | cons line body ih =>
      rw [List.forall_mem_cons] at hbody
      rw [List.cons_append, headerLines, if_neg (by rw [hbody.1]; exact Bool.false_ne_true),
        ih hbody.2]

/-- Among ordinary lines, the script takes the headers of the tables for headers. -/
theorem headerLines_parts (hparts : ∀ part ∈ parts, part.Ordinary) :
    headerLines .code (parts.flatMap Part.lines) = (headers parts).map Header.text := by
  induction parts with
  | nil => rfl
  | cons part parts ih =>
      rw [List.forall_mem_cons] at hparts
      rw [List.flatMap_cons]
      cases part with
      | code line =>
          have hline : startsWith line headerStart = false := hparts.1
          show headerLines .code (line :: parts.flatMap Part.lines) = _
          rw [headerLines, if_neg (by rw [hline]; exact Bool.false_ne_true), ih hparts.2, headers]
      | table b =>
          show headerLines .code (b.header.text :: (b.body ++ [b.last]) ++ _) = _
          rw [List.cons_append, headerLines, if_pos b.header.text_startsWith, List.append_assoc,
            headerLines_body b.body_inside, List.singleton_append, headerLines,
            if_pos b.last_closes, ih hparts.2, headers, List.map_cons]

/-- A name from its first underscore on. -/
def tail (name : Chars) : Chars := name.dropWhile (· ≠ '_')

/-- From their first underscores on, the names are different, and none is the other followed by
    `_offset`. -/
def TailsApart (a b : Header) : Prop :=
  tail a.name ≠ tail b.name ∧ tail a.name ≠ tail b.name ++ "_offset".toList ∧
    tail b.name ≠ tail a.name ++ "_offset".toList

/-- Without an underscore in the line, the name is no offset. -/
theorem cut_ne_offset {line : Chars} (h : '_' ∉ line) (other : Chars) :
    cut line ≠ other ++ "_offset".toList := by
  intro heq
  have hmem : '_' ∈ cut line := by
    rw [heq]
    exact List.mem_append_right _ (by decide)
  exact h (mem_of_mem_cut hmem)

/-- A line without an underscore is taken from its beginning on, which no other name looks like. -/
theorem apart_of_notMem {a b : Header} (hne : a.name ≠ b.name) (ha : '_' ∉ a.text) :
    Apart a.text b.text := by
  have hcut : cut a.text = headerStart ++ ' ' :: a.name := by rw [a.cut_text, if_neg ha]
  by_cases hb : '_' ∈ b.text
  · have hhead : ∀ rest, cut b.text ≠ headerStart ++ rest := by
      intro rest heq
      rw [b.cut_text, if_pos hb] at heq
      have hblank : (headerStart ++ rest).head? = some ' ' := rfl
      have hstop := List.head?_dropWhile_not (· ≠ '_') b.name
      rw [heq, hblank] at hstop
      simp at hstop
    refine ⟨fun heq => hhead _ (heq.symm.trans hcut), cut_ne_offset ha _, fun heq => ?_⟩
    rw [hcut, List.append_assoc] at heq
    exact hhead _ heq
  · refine ⟨fun heq => hne ?_, cut_ne_offset ha _, cut_ne_offset hb _⟩
    rw [hcut, b.cut_text, if_neg hb] at heq
    exact (List.cons.inj (List.append_cancel_left heq)).2

theorem Apart.symm {line line' : Chars} (h : Apart line line') : Apart line' line :=
  ⟨h.1.symm, h.2.2, h.2.1⟩

/-- For tables with different names, what counts are the names from their first underscores on; it does
    not count where a whole line has no underscore. -/
theorem apart_iff {a b : Header} (hne : a.name ≠ b.name) :
    Apart a.text b.text ↔ ('_' ∈ a.text → '_' ∈ b.text → TailsApart a b) := by
  by_cases ha : '_' ∈ a.text
  · by_cases hb : '_' ∈ b.text
    · have hcut : Apart a.text b.text ↔ TailsApart a b := by
        rw [Apart, a.cut_text, b.cut_text, if_pos ha, if_pos hb]
        rfl
      rw [hcut]
      exact ⟨fun h _ _ => h, fun h => h ha hb⟩
    · exact iff_of_true (apart_of_notMem (Ne.symm hne) hb).symm fun _ h => absurd h hb
  · exact iff_of_true (apart_of_notMem hne ha) fun h => absurd h ha

/-- `    const unsigned char a_x[2] = {`. -/
def headerAx : Header := sampleHeader 'a' ['_', 'x'] (by decide) (by simp)

/-- `    const unsigned char b_x[2] = {`. -/
def headerBx : Header := sampleHeader 'b' ['_', 'x'] (by decide) (by simp)

/-- `    const unsigned char b_y[2] = {`. -/
def headerBy : Header := sampleHeader 'b' ['_', 'y'] (by decide) (by simp)

/-- `    const unsigned char a_x[9007199254740993] = {`. -/
def headerLong : Header :=
  { headerAx with
    size := "9007199254740993".toList
    size_digits := List.all_eq_true.1 rfl
    size_pos := Nat.lt_of_lt_of_eq (Nat.zero_lt_succ 9007199254740992) rfl }

/-- Tables without a line between the header and the closing line. -/
def emptyTable (h : Header) : Part := .table ⟨h, [], [], List.forall_mem_nil _⟩

end LinuxSamples.Awk
