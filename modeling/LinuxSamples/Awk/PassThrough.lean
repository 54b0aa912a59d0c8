import LinuxSamples.Awk.TableLayout

set_option autoImplicit false

/-! # What the table packer passes through

In code the script takes every line that begins like the header of a table for one, also the
declaration of a scalar or a pointer, and from there on it moves all lines to `file2` until it finds a
closing line. The code comes out unchanged, with the two declarations of each table in its place,
exactly when no line of the code begins like a header and the names begin with an underscore. -/

namespace LinuxSamples.Awk

open LinuxSamples.Text

/-! ## Inputs -/

/-- A table in the input: its header, the lines up to the first that begins like a closing line, and
    what follows the brace and the semicolon there. -/
structure Block where
  header : Header
  body : List Chars
  closing : Chars
  body_inside : ∀ line ∈ body, startsWith line closingStart = false

namespace Block

def last (b : Block) : Chars := closingStart ++ b.closing

def lines (b : Block) : List Chars := b.header.text :: b.body ++ [b.last]

/-- How many bytes are declared. -/
def size (b : Block) : Nat := decimal b.header.size

/-- How many zeros follow them. -/
def pad (b : Block) : Nat := (64 - b.size % 64) % 64

/-- What `file2` gets for the table, under the given name. -/
def chunk (b : Block) (name : Chars) : Chars :=
  "// start data: ".toList ++ name ++ ['\n'] ++ (unlines b.body ++ Table.ending name b.pad)

theorem last_closes (b : Block) : startsWith b.last closingStart = true := by
  rw [startsWith, List.isPrefixOf_iff_prefix, last]
  exact List.prefix_append _ _

theorem padding_size (b : Block) : padding (headerSize b.header.text) = b.pad := by
  rw [b.header.headerSize_text, pad]
  exact padding_nat b.size

end Block

/-- A line of code, whatever it is, or a table. -/
inductive Part
  | code (line : Chars)
  | table (b : Block)

def Part.lines : Part → List Chars
  | .code line => [line]
  | .table b => b.lines

/-- What `file1` gets between its preamble and its trailer, when the tables are declared under the
    given names and the first one lies at the given offset. -/
def passed1 (name : Header → Chars) : Nat → List Part → Chars
  | _, [] => []
  | offset, .code line :: rest => line ++ ['\n'] ++ passed1 name offset rest
  | offset, .table b :: rest =>
      declared (name b.header) offset ++ passed1 name (offset + (b.size + b.pad)) rest

/-- What `file2` gets between its preamble and its trailer: the tables and nothing else. -/
def passed2 (name : Header → Chars) : List Part → Chars
  | [] => []
  | .code _ :: rest => passed2 name rest
  | .table b :: rest => b.chunk (name b.header) ++ passed2 name rest

/-- The code is passed through: in `file1` each table is replaced by its two declarations and every
    other line is copied, and `file2` gets the tables only. -/
structure PassesThrough (o : Options) (text : Chars) (parts : List Part) : Prop where
  file1 : (pack o text).out1 = (if parts.isEmpty then [] else preamble1 o)
    ++ passed1 Header.name 0 parts ++ trailer1 o (pack o text).blog
  file2 : (pack o text).out2 = (if parts.isEmpty then [] else preamble2 o)
    ++ passed2 Header.name parts ++ trailer2 o (pack o text).github

/-- A line of code that does not begin like a header. -/
def Part.Ordinary : Part → Prop
  | .code line => startsWith line headerStart = false
  | .table _ => True

/-- A table whose name begins with an underscore. -/
def Part.Underscored : Part → Prop
  | .code _ => True
  | .table b => b.header.name.head? = some '_'

/-! ## Runs -/

variable {o : Options} {s : State} {parts : List Part}

/-- **A table**, under the name that the script cuts out of its header. -/
theorem run_block (b : Block) {off : Nat} (hs : s.state = .code) (hoff : s.offset = off) :
    Wrote o s (b.lines.foldl (rule o) s) (declared (cut b.header.text) off)
        (b.chunk (cut b.header.text)) ∧
      (b.lines.foldl (rule o) s).state = .code ∧
      (b.lines.foldl (rule o) s).offset = (off + (b.size + b.pad) : Nat) := by
  obtain ⟨hheader, hinside⟩ := rule_start (o := o) hs b.header.text_startsWith
  rw [headerName_eq, b.padding_size, b.header.headerSize_text, hoff] at hinside
  rw [headerName_eq, hoff] at hheader
  obtain ⟨hbody, hinside'⟩ := run_body (o := o) hheader.fnr hinside b.body_inside
  obtain ⟨hlast, hcode, hoffset⟩ := rule_close (o := o) hinside' b.last_closes
  rw [Block.lines, List.cons_append, List.foldl_cons, List.foldl_append, List.foldl_cons,
    List.foldl_nil]
  refine ⟨?_, hcode, hoffset⟩
  have hall := hheader.trans (hbody.trans hlast)
  rwa [List.nil_append, List.append_nil, ended_nat] at hall

/-- Code without a line that begins like a header, and tables. -/
theorem run_ordinary (off : Nat) (hparts : ∀ part ∈ parts, part.Ordinary)
    (hfnr : parts ≠ [] ∨ s.fnr ≠ 0) (hs : s.state = .code) (hoff : s.offset = off) :
    Wrote o s ((parts.flatMap Part.lines).foldl (rule o) s)
      (passed1 (fun h => cut h.text) off parts) (passed2 (fun h => cut h.text) parts) := by
  induction parts generalizing s off with
  | nil => exact Wrote.refl (hfnr.resolve_left fun h => h rfl)
  | cons part parts ih =>
      rw [List.forall_mem_cons] at hparts
      rw [List.flatMap_cons, List.foldl_append]
      cases part with
      | code line =>
          obtain ⟨hwrote, hcode, hoffset⟩ := rule_code (o := o) hs hparts.1
          exact hwrote.trans (ih off hparts.2 (Or.inr hwrote.fnr) hcode (hoffset.trans hoff))
      | table b =>
          obtain ⟨hwrote, hcode, hoffset⟩ := run_block (o := o) b hs hoff
          exact hwrote.trans (ih _ hparts.2 (Or.inr hwrote.fnr) hcode hoffset)

/-! ## Counting the lines of `file2` -/

theorem count_line_ge (line rest : Chars) :
    rest.count '\n' + 1 ≤ (line ++ ['\n'] ++ rest).count '\n' := by
  rw [List.count_append, List.count_append, List.count_singleton_self]
  omega

theorem count_line {line : Chars} (h : '\n' ∉ line) (rest : Chars) :
    (line ++ ['\n'] ++ rest).count '\n' = rest.count '\n' + 1 := by
  rw [List.count_append, List.count_append, List.count_singleton_self, List.count_eq_zero.2 h]
  omega

/-- A closing line writes at least four lines. -/
theorem ended_count (name : Chars) (remain : Int) : 4 ≤ (ended name remain).count '\n' := by
  unfold ended
  refine le_trans ?_ (count_line_ge _ _)
  refine Nat.succ_le_succ (le_trans ?_ (count_line_ge _ _))
  refine Nat.succ_le_succ (le_trans ?_ (count_line_ge _ _))
  rw [List.nil_append, List.count_append, List.count_singleton_self]
  omega

theorem zeroList_line (n : Nat) : '\n' ∉ Table.zeroList n := by
  intro hmem
  obtain ⟨word, hword, hmem⟩ := List.mem_flatten.1 hmem
  rw [List.eq_of_mem_replicate hword] at hmem
  exact absurd hmem (by decide)

theorem ending_count {name : Chars} (h : '\n' ∉ name) (pad : Nat) :
    (Table.ending name pad).count '\n' = 4 := by
  have hend : '\n' ∉ "// end data: ".toList ++ name := by
    rw [List.mem_append, not_or]
    exact ⟨by decide, h⟩
  have hremain : '\n' ∉ "// ".toList ++ name ++ " remain: ".toList ++ numeral pad := by
    rw [List.mem_append, List.mem_append, List.mem_append, not_or, not_or, not_or]
    exact ⟨⟨⟨by decide, h⟩, by decide⟩, (Table.plain_numeral pad).2⟩
  have hzeros : (Table.zeroList pad ++ ([] ++ ['\n'])).count '\n' = 1 := by
    rw [List.nil_append, List.count_append, List.count_eq_zero.2 (zeroList_line pad),
      List.count_singleton_self]
  unfold Table.ending
  refine (count_line hend _).trans (congrArg (· + 1) ?_)
  refine (count_line (by decide) _).trans (congrArg (· + 1) ?_)
  exact (count_line hremain _).trans (congrArg (· + 1) hzeros)

/-- A table is worth five lines and the lines of its body. -/
theorem Block.chunk_count (b : Block) :
    (b.chunk b.header.name).count '\n' = (unlines b.body).count '\n' + 5 := by
  have hname := b.header.notMem_name (c := '\n') (by decide) (by decide)
  have hstart : '\n' ∉ "// start data: ".toList ++ b.header.name := by
    rw [List.mem_append, not_or]
    exact ⟨by decide, hname⟩
  unfold chunk
  refine (count_line hstart _).trans (congrArg (· + 1) ?_)
  rw [List.count_append, ending_count hname]

/-- From `s` to `s'` the script wrote at least `n` lines to `file2`. -/
def WroteLines (o : Options) (s s' : State) (n : Nat) : Prop :=
  ∃ text1 text2, Wrote o s s' text1 text2 ∧ n ≤ text2.count '\n'

variable {s' s'' : State} {line : Chars} {m n : Nat}

theorem WroteLines.trans (h : WroteLines o s s' m) (h' : WroteLines o s' s'' n) :
    WroteLines o s s'' (m + n) := by
  obtain ⟨text1, text2, hwrote, hm⟩ := h
  obtain ⟨text1', text2', hwrote', hn⟩ := h'
  refine ⟨_, _, hwrote.trans hwrote', ?_⟩
  rw [List.count_append]
  omega

theorem WroteLines.mono (h : WroteLines o s s' m) (hn : n ≤ m) : WroteLines o s s' n := by
  obtain ⟨text1, text2, hwrote, hm⟩ := h
  exact ⟨text1, text2, hwrote, hn.trans hm⟩

theorem WroteLines.fnr (h : WroteLines o s s' m) : s'.fnr ≠ 0 := by
  obtain ⟨_, _, hwrote, _⟩ := h
  exact hwrote.fnr

/-- In code, a line that begins like a header writes a line to `file2`. -/
theorem start_writes (hs : s.state = .code) (hline : startsWith line headerStart = true) :
    WroteLines o s (rule o s line) 1 := by
  refine ⟨_, _, (rule_start hs hline).1, ?_⟩
  rw [← List.append_nil (_ ++ ['\n'])]
  exact le_trans (by simp) (count_line_ge _ [])

/-- In a table, every line writes one to `file2`. -/
theorem captured_writes (hs : s.state = .table) : WroteLines o s (rule o s line) 1 := by
  have hinside : Inside s s.name s.remain s.offset := ⟨hs, rfl, rfl, rfl⟩
  cases hline : startsWith line closingStart with
  | true => exact ⟨_, _, (rule_close hinside hline).1, (ended_count _ _).trans' (by decide)⟩
  | false =>
      refine ⟨_, _, (rule_body hinside hline).1, ?_⟩
      rw [← List.append_nil (_ ++ ['\n'])]
      exact le_trans (by simp) (count_line_ge _ [])

/-- No line begins both like a header and like a closing line. -/
theorem not_closing (hline : startsWith line headerStart = true) :
    startsWith line closingStart = false := by
  rw [Bool.eq_false_iff]
  intro hclose
  rw [startsWith, List.isPrefixOf_iff_prefix] at hline hclose
  have hprefix := List.prefix_of_prefix_length_le hclose hline (by decide)
  exact absurd hprefix (by decide)

/-- A table writes its lines to `file2`, captured or not. -/
theorem block_writes (b : Block) :
    WroteLines o s (b.lines.foldl (rule o) s) ((b.chunk b.header.name).count '\n') := by
  have hheader : ∃ name remain offset, WroteLines o s (rule o s b.header.text) 1 ∧
      Inside (rule o s b.header.text) name remain offset := by
    cases hs : s.state with
    | code =>
        exact ⟨_, _, _, start_writes hs b.header.text_startsWith,
          (rule_start hs b.header.text_startsWith).2⟩
    | table =>
        exact ⟨_, _, _, captured_writes hs, (rule_body ⟨hs, rfl, rfl, rfl⟩
          (not_closing b.header.text_startsWith)).2⟩
  obtain ⟨name, remain, offset, hheader, hinside⟩ := hheader
  obtain ⟨hbody, hinside'⟩ := run_body (o := o) hheader.fnr hinside b.body_inside
  obtain ⟨hlast, _, _⟩ := rule_close (o := o) hinside' b.last_closes
  rw [Block.lines, List.cons_append, List.foldl_cons, List.foldl_append, List.foldl_cons,
    List.foldl_nil, b.chunk_count]
  have hall := (hheader.trans ⟨_, _, hbody, le_rfl⟩).trans ⟨_, _, hlast, ended_count name remain⟩
  exact hall.mono (by omega)

/-- Whatever the state, `file2` gets at least as many lines as the tables are worth. -/
theorem run_writes (hfnr : parts ≠ [] ∨ s.fnr ≠ 0) :
    WroteLines o s ((parts.flatMap Part.lines).foldl (rule o) s)
      ((passed2 Header.name parts).count '\n') := by
  induction parts generalizing s with
  | nil => exact ⟨_, _, Wrote.refl (hfnr.resolve_left fun h => h rfl), le_rfl⟩
  | cons part parts ih =>
      rw [List.flatMap_cons, List.foldl_append]
      cases part with
      | code line =>
          have hline : WroteLines o s (rule o s line) 0 := by
            cases hs : s.state with
            | table => exact (captured_writes hs).mono (Nat.zero_le 1)
            | code =>
                cases hstart : startsWith line headerStart with
                | true => exact (start_writes hs hstart).mono (Nat.zero_le 1)
                | false => exact ⟨_, _, (rule_code hs hstart).1, Nat.zero_le _⟩
          exact (hline.trans (ih (Or.inr hline.fnr))).mono (by simp [passed2])
      | table b =>
          have hblock := block_writes (o := o) (s := s) b
          refine (hblock.trans (ih (Or.inr hblock.fnr))).mono ?_
          rw [passed2, List.count_append]

/-- A line of code that begins like a header makes `file2` longer than the tables. -/
theorem run_diverts (off : Nat) (hs : s.state = .code) (hoff : s.offset = off)
    (hparts : ¬ ∀ part ∈ parts, part.Ordinary) :
    WroteLines o s ((parts.flatMap Part.lines).foldl (rule o) s)
      ((passed2 Header.name parts).count '\n' + 1) := by
  induction parts generalizing s off with
  | nil => exact absurd (List.forall_mem_nil _) hparts
  | cons part parts ih =>
      rw [List.flatMap_cons, List.foldl_append]
      rw [List.forall_mem_cons] at hparts
      cases part with
      | code line =>
          cases hstart : startsWith line headerStart with
          | true =>
              have hline := start_writes (o := o) hs hstart
              refine (hline.trans (run_writes (Or.inr hline.fnr))).mono ?_
              rw [passed2, Nat.add_comm]
          | false =>
              obtain ⟨hwrote, hcode, hoffset⟩ := rule_code (o := o) hs hstart
              have hline : WroteLines o s (rule o s line) 0 := ⟨_, _, hwrote, Nat.zero_le _⟩
              have hrest := ih off hcode (hoffset.trans hoff) fun hall => hparts ⟨hstart, hall⟩
              exact (hline.trans hrest).mono (by simp [passed2])
      | table b =>
          obtain ⟨_, hcode, hoffset⟩ := run_block (o := o) b hs hoff
          have hrest := ih _ hcode hoffset fun hall => hparts ⟨trivial, hall⟩
          refine ((block_writes b).trans hrest).mono ?_
          rw [passed2, List.count_append]
          omega

/-! ## The names in `file1` -/

theorem declared_name_line {name : Chars} (h : '\n' ∉ name) :
    '\n' ∉ "    const unsigned char* ".toList ++ name ++ " = NULL;".toList := by
  rw [List.mem_append, List.mem_append, not_or, not_or]
  exact ⟨⟨by decide, h⟩, by decide⟩

theorem unlines_cons_append (line : Chars) (lines : List Chars) (rest : Chars) :
    unlines (line :: lines) ++ rest = line ++ '\n' :: (unlines lines ++ rest) := by
  rw [unlines_cons, List.append_assoc, List.cons_append]

theorem first_line_inj {line line' rest rest' : Chars} (h : '\n' ∉ line) (h' : '\n' ∉ line')
    (heq : line ++ '\n' :: rest = line' ++ '\n' :: rest') : line = line' := by
  have hrecords := congrArg records heq
  rw [records_line h, records_line h', List.cons.injEq] at hrecords
  exact hrecords.1

/-- A text that begins with the declarations of a table says under which name it is declared. -/
theorem declared_inj {name name' rest rest' : Chars} {offset : Int} (h : '\n' ∉ name)
    (h' : '\n' ∉ name') (heq : declared name offset ++ rest = declared name' offset ++ rest') :
    name = name' ∧ rest = rest' := by
  have hname : name = name' := by
    have hline := (unlines_cons_append _ _ rest).symm.trans (heq.trans (unlines_cons_append _ _ rest'))
    have hfirst := first_line_inj (declared_name_line h) (declared_name_line h') hline
    exact List.append_cancel_left (List.append_cancel_right hfirst)
  subst hname
  exact ⟨rfl, List.append_cancel_left heq⟩

theorem underscored_of_passed1 {off : Nat}
    (heq : passed1 (fun h => cut h.text) off parts = passed1 Header.name off parts) :
    ∀ part ∈ parts, part.Underscored := by
  induction parts generalizing off with
  | nil => exact List.forall_mem_nil _
  | cons part parts ih =>
      rw [List.forall_mem_cons]
      cases part with
      | code line => exact ⟨trivial, ih (List.append_cancel_left heq)⟩
      | table b =>
          obtain ⟨hname, hrest⟩ := declared_inj (fun hmem => b.header.text_line (mem_of_mem_cut hmem))
            (b.header.notMem_name (by decide) (by decide)) heq
          exact ⟨b.header.cut_eq_name.1 hname, ih hrest⟩

/-- Where all names begin with an underscore, they are cut out as they are written. -/
theorem passed_cut (hparts : ∀ part ∈ parts, part.Underscored) (off : Nat) :
    passed1 (fun h => cut h.text) off parts = passed1 Header.name off parts ∧
      passed2 (fun h => cut h.text) parts = passed2 Header.name parts := by
  induction parts generalizing off with
  | nil => exact ⟨rfl, rfl⟩
  | cons part parts ih =>
      rw [List.forall_mem_cons] at hparts
      cases part with
      | code line =>
          obtain ⟨h1, h2⟩ := ih hparts.2 off
          exact ⟨congrArg (line ++ ['\n'] ++ ·) h1, h2⟩
      | table b =>
          obtain ⟨h1, h2⟩ := ih hparts.2 (off + (b.size + b.pad))
          have hname := b.header.cut_eq_name.2 hparts.1
          simp only [passed1, passed2, hname, h1, h2, and_self]

/-- What the records leave in the two files, from the beginning on. -/
theorem begin_wrote {text1 text2 : Chars} (h : Wrote o (begin o) s text1 text2) :
    s.out1 = preamble1 o ++ text1 ∧ s.out2 = preamble2 o ++ text2 := by
  have hfnr : (begin o).fnr = 0 := rfl
  have hout1 : (begin o).out1 = [] := rfl
  have hout2 : (begin o).out2 = [] := rfl
  rw [h.out1, h.out2, hout1, hout2, if_pos hfnr, if_pos hfnr, List.nil_append, List.nil_append]
  exact ⟨rfl, rfl⟩

theorem pack_wrote {text text1 text2 : Chars} (h : records text = parts.flatMap Part.lines)
    (hwrote : Wrote o (begin o) ((parts.flatMap Part.lines).foldl (rule o) (begin o)) text1 text2) :
    (pack o text).out1 = preamble1 o ++ text1 ++ trailer1 o (pack o text).blog ∧
      (pack o text).out2 = preamble2 o ++ text2 ++ trailer2 o (pack o text).github := by
  obtain ⟨h1, h2⟩ := begin_wrote hwrote
  rw [pack, h, finish_out1, finish_out2, finish_blog, finish_github, h1, h2]
  exact ⟨rfl, rfl⟩

/-- **Pass-through.** The code passes the packer unchanged exactly when no line of it begins like a
    header and the name of every table begins with an underscore. -/
theorem pass_through (o : Options) (text : Chars) (parts : List Part)
    (h : records text = parts.flatMap Part.lines) :
    PassesThrough o text parts ↔ ∀ part ∈ parts, part.Ordinary ∧ part.Underscored := by
  by_cases hnil : parts = []
  · subst hnil
    refine iff_of_true ⟨?_, ?_⟩ (List.forall_mem_nil _)
    · rw [pack, h, finish_out1]
      rfl
    · rw [pack, h, finish_out2]
      rfl
  have hempty : parts.isEmpty = false := by simpa using hnil
  constructor
  · rintro ⟨hfile1, hfile2⟩
    rw [hempty, if_neg Bool.false_ne_true] at hfile1 hfile2
    -- a line that begins like a header would leave more lines in `file2`
    have hordinary : ∀ part ∈ parts, part.Ordinary := by
      by_contra hnot
      obtain ⟨text1, text2, hwrote, hcount⟩ :=
        run_diverts (o := o) (s := begin o) 0 rfl rfl hnot
      obtain ⟨_, hout⟩ := pack_wrote h hwrote
      rw [hfile2] at hout
      rw [List.append_cancel_left (List.append_cancel_right hout)] at hcount
      exact absurd hcount (Nat.not_succ_le_self _)
    have hwrote := run_ordinary (o := o) (s := begin o) 0 hordinary (Or.inl hnil) rfl rfl
    obtain ⟨hout, _⟩ := pack_wrote h hwrote
    rw [hfile1] at hout
    have hnames := underscored_of_passed1 (List.append_cancel_left (List.append_cancel_right hout)).symm
    exact fun part hpart => ⟨hordinary part hpart, hnames part hpart⟩
  · intro hparts
    have hwrote := run_ordinary (o := o) (s := begin o) 0
      (fun part hpart => (hparts part hpart).1) (Or.inl hnil) rfl rfl
    obtain ⟨h1, h2⟩ := passed_cut (fun part hpart => (hparts part hpart).2) 0
    rw [h1, h2] at hwrote
    obtain ⟨hout1, hout2⟩ := pack_wrote h hwrote
    refine ⟨?_, ?_⟩
    · rw [hempty, if_neg Bool.false_ne_true, hout1]
    · rw [hempty, if_neg Bool.false_ne_true, hout2]

/-- Two lines of bytes under the header `    const unsigned char _x[2] = {`. -/
def sampleBlock : Block where
  header := sampleHeader '_' ['x'] (by decide) (by simp)
  body := ["  0x2a,".toList, "  7".toList]
  closing := []
  body_inside := by decide

def sampleParts : List Part := [.code "int t;".toList, .table sampleBlock, .code "int x;".toList]

theorem pass_through_sample :
    PassesThrough sampleOptions (unlines (sampleParts.flatMap Part.lines)) sampleParts := by
  refine (pass_through sampleOptions _ sampleParts (records_unlines (by decide))).2 ?_
  simp [sampleParts, Part.Ordinary, Part.Underscored, sampleBlock, sampleHeader]
  decide

/-- The declaration of a scalar, and a line of code behind it. -/
def scalarParts : List Part :=
  [.code "    const unsigned char t = 4;".toList, .code "int x;".toList]

/-- The line behind the scalar is lost to `file2`. -/
theorem pass_through_scalar : ∃ text, records text = scalarParts.flatMap Part.lines ∧
    "int x;".toList ∉ records (pack sampleOptions text).out1 ∧
    "int x;".toList ∈ records (pack sampleOptions text).out2 ∧
    ¬ PassesThrough sampleOptions text scalarParts := by
  refine ⟨unlines (scalarParts.flatMap Part.lines), by decide, by decide, by decide, fun h => ?_⟩
  exact absurd h.file1 (by decide)

end LinuxSamples.Awk
