import LinuxSamples.Awk.Headers

set_option autoImplicit false

/-! # The two outputs of the table packer agree

For an input made of lines of code and tables, `file2` is an initialiser list that C reads as the
bytes of the tables, each padded with zeros to a multiple of 64 bytes, and the offsets written to
`file1` are the positions where the tables begin. -/

namespace LinuxSamples.Awk

open LinuxSamples.Text

/-! ## What the script writes -/

/-- What precedes the first record in `file1`. -/
def preamble1 (o : Options) : Chars :=
  unlines ["// file name: ".toList ++ o.file1, "// Author: ".toList ++ o.author,
    "// ===== start process file: ".toList ++ o.filename, []]

/-- What precedes the first record in `file2`, up to the brace of the array. -/
def preamble2 (o : Options) : Chars :=
  unlines ["// file name: ".toList ++ o.file2, "// Author: ".toList ++ o.author,
    "// ===== start process file: ".toList ++ o.filename, [], "unsigned char data[] = \x7b ".toList]

/-- From `s` to `s'` the script read records and wrote `text1` and `text2`, after the preambles if
    none had been read before. -/
structure Wrote (o : Options) (s s' : State) (text1 text2 : Chars) : Prop where
  fnr : s'.fnr ≠ 0
  out1 : s'.out1 = s.out1 ++ (if s.fnr = 0 then preamble1 o else []) ++ text1
  out2 : s'.out2 = s.out2 ++ (if s.fnr = 0 then preamble2 o else []) ++ text2

variable {o : Options} {s s' s'' : State} {line text1 text2 text1' text2' : Chars}

theorem Wrote.refl (h : s.fnr ≠ 0) : Wrote o s s [] [] :=
  ⟨h, by simp [h], by simp [h]⟩

theorem Wrote.trans (h : Wrote o s s' text1 text2) (h' : Wrote o s' s'' text1' text2') :
    Wrote o s s'' (text1 ++ text1') (text2 ++ text2') where
  fnr := h'.fnr
  out1 := by rw [h'.out1, h.out1, if_neg h.fnr]; simp
  out2 := by rw [h'.out2, h.out2, if_neg h.fnr]; simp

/-- The state in which a record is dispatched. -/
structure Ready (o : Options) (s s₁ : State) : Prop where
  wrote : Wrote o s s₁ [] []
  state : s₁.state = s.state
  offset : s₁.offset = s.offset
  name : s₁.name = s.name
  remain : s₁.remain = s.remain

theorem rule_eq (o : Options) (s : State) (line : Chars) :
    ∃ s₁, Ready o s s₁ ∧ rule o s line = dispatch s₁ line := by
  refine ⟨_, ?_, rfl⟩
  by_cases hfnr : s.fnr = 0
  · rw [if_pos (by simp [hfnr])]
    refine ⟨⟨?_, ?_, ?_⟩, rfl, rfl, rfl, rfl⟩
    · show s.fnr + 1 ≠ 0
      omega
    · simp [hfnr, opening, State.print1, State.print2, preamble1]
    · simp [hfnr, opening, State.print1, State.print2, preamble2]
  · rw [if_neg (by simpa using hfnr)]
    refine ⟨⟨?_, ?_, ?_⟩, rfl, rfl, rfl, rfl⟩
    · show s.fnr + 1 ≠ 0
      omega
    · simp [hfnr]
    · simp [hfnr]

/-- Writing after a record has been read. -/
theorem Ready.then (h : Ready o s s') (hfnr : s''.fnr = s'.fnr) (h1 : s''.out1 = s'.out1 ++ text1)
    (h2 : s''.out2 = s'.out2 ++ text2) : Wrote o s s'' text1 text2 where
  fnr := by rw [hfnr]; exact h.wrote.fnr
  out1 := by rw [h1, h.wrote.out1, List.append_nil]
  out2 := by rw [h2, h.wrote.out2, List.append_nil]

/-- A line of code is copied to `file1`. -/
theorem rule_code (hs : s.state = .code) (hline : startsWith line headerStart = false) :
    Wrote o s (rule o s line) (line ++ ['\n']) [] ∧ (rule o s line).state = .code ∧
      (rule o s line).offset = s.offset := by
  obtain ⟨s₁, hready, hrule⟩ := rule_eq o s line
  have hdispatch : dispatch s₁ line = s₁.print1 line := by
    rw [dispatch, if_neg, if_neg]
    · rw [hready.state, hs]
      decide
    · rintro ⟨_, h⟩
      exact Bool.false_ne_true (hline.symm.trans h)
  rw [hrule, hdispatch]
  exact ⟨hready.then rfl (by simp [State.print1]) (by simp [State.print1]),
    hready.state.trans hs, hready.offset⟩

/-- The script is in a table with the given name, padding and offset of the next table. -/
structure Inside (s : State) (name : Chars) (remain offset : Int) : Prop where
  state : s.state = .table
  name : s.name = name
  remain : s.remain = remain
  offset : s.offset = offset

/-- A line that begins like a header becomes two declarations. -/
theorem rule_start (hs : s.state = .code) (hline : startsWith line headerStart = true) :
    Wrote o s (rule o s line) (declared (headerName line) s.offset)
        ("// start data: ".toList ++ headerName line ++ ['\n']) ∧
      Inside (rule o s line) (headerName line) (padding (headerSize line))
        (s.offset + (headerSize line + padding (headerSize line))) := by
  obtain ⟨s₁, hready, hrule⟩ := rule_eq o s line
  have hdispatch : dispatch s₁ line = startTable line s₁ := by
    rw [dispatch, if_pos ⟨hready.state.trans hs, hline⟩]
  rw [hrule, hdispatch, startTable_eq, ← hready.offset]
  exact ⟨hready.then rfl rfl rfl, rfl, rfl, rfl, rfl⟩

/-- The header of a table becomes its declarations. -/
theorem rule_header (t : Table) {off : Nat} (hs : s.state = .code) (hoff : s.offset = off) :
    Wrote o s (rule o s t.header) (t.declaration off)
        ("// start data: ".toList ++ t.name ++ ['\n']) ∧
      Inside (rule o s t.header) t.name t.pad (off + t.extent : Nat) := by
  have hstart : startsWith t.header headerStart = true := by
    rw [startsWith, List.isPrefixOf_iff_prefix, Table.header, List.append_assoc]
    exact List.prefix_append _ _
  have hname : headerName t.header = t.name := t.substr_name
  have hsize : headerSize t.header = t.bytes.length := by
    rw [headerSize, t.substr_size, t.number_size]
  have hrule := rule_start (o := o) hs hstart
  rw [hname, hsize, t.padding_length, hoff] at hrule
  exact hrule

/-- A line of a table is copied to `file2`. -/
theorem rule_body {name : Chars} {remain offset : Int} (h : Inside s name remain offset)
    (hline : startsWith line closingStart = false) :
    Wrote o s (rule o s line) [] (line ++ ['\n']) ∧ Inside (rule o s line) name remain offset := by
  obtain ⟨s₁, hready, hrule⟩ := rule_eq o s line
  have hstate : s₁.state = .table := hready.state.trans h.state
  have hdispatch : dispatch s₁ line = s₁.print2 line := by
    rw [dispatch, if_neg, if_pos hstate, if_neg]
    · intro hclose
      exact Bool.false_ne_true (hline.symm.trans hclose)
    · rintro ⟨hcode, _⟩
      rw [hstate] at hcode
      cases hcode
  rw [hrule, hdispatch]
  exact ⟨hready.then rfl (by simp [State.print2]) (by simp [State.print2]), hstate,
    hready.name.trans h.name, hready.remain.trans h.remain, hready.offset.trans h.offset⟩

theorem zeros_eq (n : Nat) (s : State) :
    zeros n s = { s with out2 := s.out2 ++ Table.zeroList n } := by
  induction n generalizing s with
  | zero => simp [zeros, Table.zeroList]
  | succ n ih =>
      rw [zeros, ih]
      simp [State.printf2, Table.zeroList, List.replicate_succ]

/-- What `file2` gets for a closing line, of a table with the given name and padding. -/
def ended (name : Chars) (remain : Int) : Chars :=
  "// end data: ".toList ++ name ++ ['\n'] ++ ([','] ++ ['\n'] ++
    ("// ".toList ++ name ++ " remain: ".toList ++ numeral remain ++ ['\n'] ++
      (Table.zeroList remain.toNat ++ ([] ++ ['\n']))))

theorem ended_nat (name : Chars) (pad : Nat) : ended name pad = Table.ending name pad := rfl

theorem endTable_eq (s : State) : endTable s = { s with
    state := .code
    out2 := s.out2 ++ ended s.name s.remain } := by
  unfold endTable ended
  simp only [zeros_eq, State.print2]
  simp only [List.append_assoc, List.nil_append]

/-- A line in a table that begins like a closing line ends it. -/
theorem rule_close {name : Chars} {remain offset : Int} (h : Inside s name remain offset)
    (hline : startsWith line closingStart = true) :
    Wrote o s (rule o s line) [] (ended name remain) ∧ (rule o s line).state = .code ∧
      (rule o s line).offset = offset := by
  obtain ⟨s₁, hready, hrule⟩ := rule_eq o s line
  have hstate : s₁.state = .table := hready.state.trans h.state
  have hdispatch : dispatch s₁ line = endTable s₁ := by
    rw [dispatch, if_neg, if_pos hstate, if_pos hline]
    rintro ⟨hcode, _⟩
    rw [hstate] at hcode
    cases hcode
  rw [hrule, hdispatch, endTable_eq, hready.name.trans h.name, hready.remain.trans h.remain]
  exact ⟨hready.then rfl (by simp) rfl, rfl, hready.offset.trans h.offset⟩

/-- The closing line of a table becomes its padding. -/
theorem rule_last (t : Table) {offset : Int} (h : Inside s t.name t.pad offset) :
    Wrote o s (rule o s t.last) [] (Table.ending t.name t.pad) ∧
      (rule o s t.last).state = .code ∧ (rule o s t.last).offset = offset := by
  have hclose : startsWith t.last closingStart = true := by
    rw [startsWith, List.isPrefixOf_iff_prefix, Table.last]
    exact List.prefix_append _ _
  exact rule_close h hclose

/-! ## Runs -/

/-- The lines of a table, one after the other, are copied. -/
theorem run_body {name : Chars} {remain offset : Int} {body : List Chars} (hfnr : s.fnr ≠ 0)
    (h : Inside s name remain offset)
    (hbody : ∀ line ∈ body, startsWith line closingStart = false) :
    Wrote o s (body.foldl (rule o) s) [] (unlines body) ∧
      Inside (body.foldl (rule o) s) name remain offset := by
  induction body generalizing s with
  | nil => exact ⟨Wrote.refl hfnr, h⟩
  | cons line body ih =>
      rw [List.forall_mem_cons] at hbody
      obtain ⟨hwrote, hinside⟩ := rule_body (o := o) h hbody.1
      obtain ⟨hwrote', hinside'⟩ := ih hwrote.fnr hinside hbody.2
      refine ⟨?_, hinside'⟩
      have hboth := hwrote.trans hwrote'
      rwa [List.append_assoc, List.singleton_append, ← unlines_cons] at hboth

/-- **A table.** Its declarations go to `file1`, its bytes and padding to `file2`, and the offset
    advances by as many bytes. -/
theorem run_table (t : Table) {off : Nat} (hs : s.state = .code) (hoff : s.offset = off) :
    Wrote o s (t.lines.foldl (rule o) s) (t.declaration off) t.chunk ∧
      (t.lines.foldl (rule o) s).state = .code ∧
      (t.lines.foldl (rule o) s).offset = (off + t.extent : Nat) := by
  obtain ⟨hheader, hinside⟩ := rule_header (o := o) t hs hoff
  obtain ⟨hbody, hinside'⟩ := run_body (o := o) hheader.fnr hinside t.body_inside
  obtain ⟨hlast, hcode, hoffset⟩ := rule_last (o := o) t hinside'
  rw [Table.lines, List.cons_append, List.foldl_cons, List.foldl_append, List.foldl_cons,
    List.foldl_nil]
  refine ⟨?_, hcode, hoffset⟩
  have hall := hheader.trans (hbody.trans hlast)
  rwa [List.nil_append, List.append_nil] at hall

/-- A line of code, or a table. -/
inductive Segment
  | code (line : Chars) (ordinary : startsWith line headerStart = false)
  | table (t : Table)

def Segment.lines : Segment → List Chars
  | .code line _ => [line]
  | .table t => t.lines

/-- The tables of an input, in their order. -/
def tables : List Segment → List Table
  | [] => []
  | .code _ _ :: rest => tables rest
  | .table t :: rest => t :: tables rest

/-- What `file1` gets between its preamble and its trailer: the lines of code, and the declarations
    of the tables with the given offsets. -/
def declarations : List Segment → List Nat → Chars
  | .code line _ :: rest, offsets => line ++ ['\n'] ++ declarations rest offsets
  | .table t :: rest, offset :: offsets => t.declaration offset ++ declarations rest offsets
  | _, _ => []

/-- The tables, each with its offset, fill the array: each begins at a multiple of 64, its bytes are
    there, it lies behind those before it, and all other bytes are zeros. -/
structure Layout (placed : List (Nat × Table)) (data : List UInt8) : Prop where
  aligned : ∀ p ∈ placed, 64 ∣ p.1
  bytes : ∀ p ∈ placed, (data.drop p.1).take p.2.bytes.length = p.2.bytes
  ordered : placed.Pairwise fun p q => p.1 + p.2.extent ≤ q.1
  inside : ∀ p ∈ placed, p.1 + p.2.extent ≤ data.length
  zero : ∀ i b, data[i]? = some b →
    (∀ p ∈ placed, ¬ (p.1 ≤ i ∧ i < p.1 + p.2.bytes.length)) → b = 0
  full : 64 ∣ data.length

theorem Layout.empty : Layout [] [] where
  aligned _ h := by cases h
  bytes _ h := by cases h
  ordered := List.Pairwise.nil
  inside _ h := by cases h
  zero _ _ h := by cases h
  full := Nat.dvd_zero 64

/-- The next table is put at the end. -/
theorem Layout.add {placed : List (Nat × Table)} {data : List UInt8} (h : Layout placed data)
    (t : Table) :
    Layout (placed ++ [(data.length, t)]) (data ++ (t.bytes ++ List.replicate t.pad 0)) where
  aligned p hp := by
    rw [List.mem_append, List.mem_singleton] at hp
    rcases hp with hp | rfl
    · exact h.aligned p hp
    · exact h.full
  bytes p hp := by
    rw [List.mem_append, List.mem_singleton] at hp
    rcases hp with hp | rfl
    · have hin := h.inside p hp
      rw [Table.extent] at hin
      rw [List.drop_append_of_le_length (by omega), List.take_append_of_le_length]
      · exact h.bytes p hp
      · rw [List.length_drop]
        omega
    · rw [List.drop_left, List.take_left]
  ordered := by
    rw [List.pairwise_append]
    refine ⟨h.ordered, List.pairwise_singleton _ _, fun p hp q hq => ?_⟩
    rw [List.mem_singleton] at hq
    subst hq
    exact h.inside p hp
  inside p hp := by
    rw [List.mem_append, List.mem_singleton] at hp
    simp only [List.length_append, List.length_replicate]
    rcases hp with hp | rfl
    · have := h.inside p hp
      omega
    · exact Nat.le_refl _
  zero i b hb hout := by
    by_cases hi : i < data.length
    · rw [List.getElem?_append_left hi] at hb
      exact h.zero i b hb fun p hp => hout p (List.mem_append_left _ hp)
    · rw [List.getElem?_append_right (by omega)] at hb
      have hnew := hout (data.length, t) (List.mem_append_right _ (List.mem_singleton_self _))
      simp only at hnew
      rw [List.getElem?_append_right (by omega)] at hb
      exact (List.mem_replicate.1 (List.mem_of_getElem? hb)).2
  full := by
    have hextent := t.sixtyFour_dvd_extent
    rw [List.length_append, List.length_append, List.length_replicate]
    exact Nat.dvd_add h.full hextent

/-- The lines of code and the tables of an input, from a state between them. -/
theorem run_segments (o : Options) (segments : List Segment) (s : State)
    (placed : List (Nat × Table)) (init : Chars) (data : List UInt8)
    (hfnr : segments ≠ [] ∨ s.fnr ≠ 0) (hs : s.state = .code) (hoff : s.offset = data.length)
    (hlayout : Layout placed data) (hreads : Reads init data) :
    ∃ offsets init' data', offsets.length = (tables segments).length ∧
      Wrote o s ((segments.flatMap Segment.lines).foldl (rule o) s)
        (declarations segments offsets) init' ∧
      Layout (placed ++ offsets.zip (tables segments)) data' ∧ Reads (init ++ init') data' := by
  induction segments generalizing s placed init data with
  | nil =>
      refine ⟨[], [], data, rfl, Wrote.refl (hfnr.resolve_left fun h => h rfl), ?_, ?_⟩
      · simpa [tables] using hlayout
      · simpa using hreads
  | cons segment segments ih =>
      rw [List.flatMap_cons, List.foldl_append]
      cases segment with
      | code line hline =>
          obtain ⟨hwrote, hcode, hoffset⟩ := rule_code (o := o) hs hline
          obtain ⟨offsets, init', data', hlen, hrest, hlayout', hreads'⟩ :=
            ih (rule o s line) placed init data (Or.inr hwrote.fnr) hcode (hoffset.trans hoff)
              hlayout hreads
          refine ⟨offsets, init', data', hlen, ?_, hlayout', hreads'⟩
          have hboth := hwrote.trans hrest
          rwa [List.nil_append] at hboth
      | table t =>
          obtain ⟨hwrote, hcode, hoffset⟩ := run_table (o := o) t hs hoff
          have hlength : (data ++ (t.bytes ++ List.replicate t.pad 0)).length
              = data.length + t.extent := by
            simp [Table.extent]
          obtain ⟨offsets, init', data', hlen, hrest, hlayout', hreads'⟩ :=
            ih _ _ _ _ (Or.inr hwrote.fnr) hcode (by rw [hoffset, hlength]) (hlayout.add t)
              (hreads.append t.reads_chunk)
          refine ⟨data.length :: offsets, t.chunk ++ init', data', ?_, hwrote.trans hrest, ?_, ?_⟩
          · simp [tables, hlen]
          · simpa [tables] using hlayout'
          · simpa using hreads'

/-- What follows the last record in `file1`. -/
def trailer1 (o : Options) (blog : Chars) : Chars :=
  unlines ["// blog: ".toList ++ blog ++ [' '], "// ===== end process file: ".toList ++ o.filename]

/-- What follows the last record in `file2`, from the closing brace of the array on. -/
def trailer2 (o : Options) (github : Chars) : Chars :=
  "\x7d;\n\n".toList ++ unlines ["// github: ".toList ++ github ++ [' '],
    "// ===== end process file: ".toList ++ o.filename]

theorem finish_out1 (o : Options) (s : State) : (finish o s).out1 = s.out1 ++ trailer1 o s.blog := by
  simp only [finish, State.print, State.print1, State.print2, State.printf2, trailer1, unlines_cons,
    unlines_nil, List.append_assoc, List.cons_append, List.nil_append]

theorem finish_out2 (o : Options) (s : State) :
    (finish o s).out2 = s.out2 ++ trailer2 o s.github := by
  simp only [finish, State.print, State.print1, State.print2, State.printf2, trailer2, unlines_cons,
    unlines_nil, List.append_assoc, List.cons_append, List.nil_append]

theorem finish_blog (o : Options) (s : State) : (finish o s).blog = s.blog := by
  simp only [finish, State.print, State.print1, State.print2, State.printf2]

theorem finish_github (o : Options) (s : State) : (finish o s).github = s.github := by
  simp only [finish, State.print, State.print1, State.print2, State.printf2]

/-- **The two files agree.** For an input of lines of code and tables, the text between the braces in
    `file2` is read as an array in which each table lies at the offset that `file1` declares for it,
    a multiple of 64, behind the tables before it and padded with zeros. -/
theorem files_agree (o : Options) (text : Chars) (segments : List Segment)
    (h : records text = segments.flatMap Segment.lines) :
    ∃ offsets init data blog github,
      (pack o text).out1 = (if segments.isEmpty then [] else preamble1 o)
        ++ declarations segments offsets ++ trailer1 o blog ∧
      (pack o text).out2 = (if segments.isEmpty then [] else preamble2 o)
        ++ init ++ trailer2 o github ∧
      readBytes init = some data ∧ offsets.length = (tables segments).length ∧
      Layout (offsets.zip (tables segments)) data := by
  rw [pack, h]
  cases segments with
  | nil =>
      refine ⟨[], [], [], [], [], ?_, ?_, rfl, rfl, Layout.empty⟩
      · rw [finish_out1]
        rfl
      · rw [finish_out2]
        rfl
  | cons segment segments =>
      obtain ⟨offsets, init, data, hlen, hwrote, hlayout, hreads⟩ :=
        run_segments o (segment :: segments) (begin o) [] [] [] (Or.inl (List.cons_ne_nil _ _)) rfl
          rfl Layout.empty Reads.nil
      refine ⟨offsets, init, data,
        (((segment :: segments).flatMap Segment.lines).foldl (rule o) (begin o)).blog,
        (((segment :: segments).flatMap Segment.lines).foldl (rule o) (begin o)).github,
        ?_, ?_, hreads.readBytes, hlen, hlayout⟩
      · rw [finish_out1, hwrote.out1]
        rfl
      · rw [finish_out2, hwrote.out2]
        rfl

/-- A table of two bytes, with a line comment. -/
def sampleTable : Table where
  name := "_x".toList
  size := "2".toList
  attributes := " = \x7b".toList
  body := ["  0x2a,".toList, "  7 // last".toList]
  closing := []
  bytes := [42, 7]
  name_identifier := ⟨['x'], rfl, List.forall_mem_singleton.2 (by decide)⟩
  size_ne_nil := by decide
  size_digits := List.forall_mem_singleton.2 rfl
  size_eq := by decide
  bytes_ne_nil := by decide
  body_lists := ⟨_, ['7'], rfl, rfl, rfl⟩
  body_inside := by decide

def sampleOptions : Options :=
  ⟨[], "a.cpp".toList, "b.cpp".toList, "test.cpp".toList, "test.cpp".toList⟩

/-- A line of code, and the sample table twice. -/
def sampleText : Chars := unlines ("int t;".toList :: sampleTable.lines ++ sampleTable.lines)

theorem files_agree_sample : ∃ (offsets : List Nat) (init : Chars) (data : List UInt8)
    (github : Chars),
    (pack sampleOptions sampleText).out2
      = preamble2 sampleOptions ++ init ++ trailer2 sampleOptions github ∧
    readBytes init = some data ∧ offsets.length = 2 ∧
    Layout (offsets.zip [sampleTable, sampleTable]) data := by
  obtain ⟨offsets, init, data, blog, github, _, hfile, hread, hlen, hlayout⟩ :=
    files_agree sampleOptions sampleText
      [.code "int t;".toList (by decide), .table sampleTable, .table sampleTable]
      (records_unlines (by decide))
  exact ⟨offsets, init, data, github, hfile, hread, hlen, hlayout⟩

end LinuxSamples.Awk
