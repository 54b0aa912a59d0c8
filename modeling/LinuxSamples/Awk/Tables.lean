import LinuxSamples.Awk.TablePacker

set_option autoImplicit false

/-! # Tables in the input of the packer

The definition of a byte array as the packer expects it, what the packer cuts out of its header line,
and how a C compiler reads the text that stands for it in `file2`. -/

namespace LinuxSamples.Awk

open LinuxSamples.Text

/-! ## Between the brackets of a header line -/

section Brackets

variable {name size : Chars}

theorem index_bracket (hname : '[' ∉ name) (size rest : Chars) :
    index (headerStart ++ ' ' :: name ++ '[' :: size ++ ']' :: rest) ['[']
      = headerStart.length + 1 + name.length + 1 := by
  have hline : headerStart ++ ' ' :: name ++ '[' :: size ++ ']' :: rest
      = (headerStart ++ ' ' :: name) ++ '[' :: (size ++ ']' :: rest) := by simp
  have hstart : '[' ∉ headerStart := by decide
  rw [hline, index_char (by simp [hname, hstart])]
  simp
  omega

theorem index_closing (hname : ']' ∉ name) (hsize : ']' ∉ size) (rest : Chars) :
    index (headerStart ++ ' ' :: name ++ '[' :: size ++ ']' :: rest) [']']
      = headerStart.length + 1 + name.length + 1 + size.length + 1 := by
  have hstart : ']' ∉ headerStart := by decide
  rw [index_char (by simp [hname, hsize, hstart])]
  simp
  omega

/-- The text between the brackets, if these are the first ones of the line. -/
theorem substr_brackets (hopen : '[' ∉ name) (hclose : ']' ∉ name) (hsize : ']' ∉ size)
    (rest : Chars) :
    substr (headerStart ++ ' ' :: name ++ '[' :: size ++ ']' :: rest)
      ((index (headerStart ++ ' ' :: name ++ '[' :: size ++ ']' :: rest) ['['] : Int) + 1)
      ((index (headerStart ++ ' ' :: name ++ '[' :: size ++ ']' :: rest) [']'] : Int)
        - index (headerStart ++ ' ' :: name ++ '[' :: size ++ ']' :: rest) ['['] - 1) = size := by
  rw [index_bracket hopen, index_closing hclose hsize]
  have hcut := substr_append (headerStart ++ ' ' :: name ++ ['[']) size (']' :: rest)
  rw [List.append_assoc _ ['['], List.singleton_append] at hcut
  convert hcut using 2
  · simp
    omega
  · omega

end Brackets

/-! ## Inputs -/

/-- The definition of a byte array: its name, the numeral between the brackets, what follows them in
    the header line, the lines with the bytes, and what follows the brace in the closing line. -/
structure Table where
  name : Chars
  size : Chars
  attributes : Chars
  body : List Chars
  closing : Chars
  bytes : List UInt8
  name_identifier : ∃ rest, name = '_' :: rest ∧ ∀ c ∈ rest, c.isAlphanum ∨ c = '_'
  size_ne_nil : size ≠ []
  size_digits : ∀ c ∈ size, c.isDigit
  size_eq : decimal size = bytes.length
  bytes_ne_nil : bytes ≠ []
  body_lists : Lists (['\n'].intercalate body) bytes
  body_inside : ∀ line ∈ body, startsWith line closingStart = false

theorem padding_nat (n : Nat) : padding n = ((64 - n % 64) % 64 : Nat) := by
  have htmod : (n : Int).tmod 64 = (n % 64 : Nat) := rfl
  rw [padding, htmod]
  split <;> omega

namespace Table

/-- `    const unsigned char NAME[N]...`. -/
def header (t : Table) : Chars :=
  headerStart ++ ' ' :: t.name ++ '[' :: t.size ++ ']' :: t.attributes

/-- `    };...`. -/
def last (t : Table) : Chars := closingStart ++ t.closing

def lines (t : Table) : List Chars := t.header :: t.body ++ [t.last]

/-- How many zeros follow the bytes. -/
def pad (t : Table) : Nat := (64 - t.bytes.length % 64) % 64

/-- How many bytes of the array the table takes. -/
def extent (t : Table) : Nat := t.bytes.length + t.pad

/-- The two declarations that stand for the table in `file1`. -/
def declaration (t : Table) (offset : Nat) : Chars :=
  unlines ["    const unsigned char* ".toList ++ t.name ++ " = NULL;".toList,
    "    const unsigned int ".toList ++ t.name ++ "_offset = ".toList ++ numeral offset ++ [';']]

/-- `n` padding bytes. -/
def zeroList (n : Nat) : Chars := (List.replicate n "0x00, ".toList).flatten

/-- What `file2` gets after the bytes of a table. -/
def ending (name : Chars) (pad : Nat) : Chars :=
  "// end data: ".toList ++ name ++ ['\n'] ++ ([','] ++ ['\n'] ++
    ("// ".toList ++ name ++ " remain: ".toList ++ numeral pad ++ ['\n'] ++
      (zeroList pad ++ ([] ++ ['\n']))))

/-- What `file2` gets for the table. -/
def chunk (t : Table) : Chars :=
  "// start data: ".toList ++ t.name ++ ['\n'] ++ (unlines t.body ++ ending t.name t.pad)

/-! ## What the header says -/

theorem sixtyFour_dvd_extent (t : Table) : 64 ∣ t.extent := by
  rw [extent, pad]
  omega

theorem number_size (t : Table) : number t.size = t.bytes.length := by
  rw [number_digits t.size_ne_nil t.size_digits, t.size_eq]

theorem padding_length (t : Table) : padding t.bytes.length = t.pad := padding_nat t.bytes.length

/-- A name has no bracket, no newline and no backslash. -/
theorem notMem_name (t : Table) {c : Char} (hc : c.isAlphanum = false) (hne : c ≠ '_') :
    c ∉ t.name := by
  obtain ⟨rest, hname, hrest⟩ := t.name_identifier
  rw [hname, List.mem_cons]
  rintro (rfl | hmem)
  · exact hne rfl
  · rcases hrest c hmem with h | rfl
    · rw [hc] at h
      cases h
    · exact hne rfl

theorem index_underscore (t : Table) : index t.header ['_'] = headerStart.length + 1 + 1 := by
  obtain ⟨rest, hname, _⟩ := t.name_identifier
  have hheader : t.header
      = (headerStart ++ [' ']) ++ '_' :: (rest ++ '[' :: t.size ++ ']' :: t.attributes) := by
    simp [header, hname]
  rw [hheader, index_char (by decide)]
  rfl

theorem index_open (t : Table) :
    index t.header ['['] = headerStart.length + 1 + t.name.length + 1 :=
  index_bracket (t.notMem_name (by decide) (by decide)) t.size t.attributes

/-- The name is cut out of the header. -/
theorem substr_name (t : Table) :
    substr t.header (index t.header ['_'])
      ((index t.header ['['] : Int) - index t.header ['_']) = t.name := by
  have hheader : t.header
      = (headerStart ++ [' ']) ++ t.name ++ ('[' :: t.size ++ ']' :: t.attributes) := by
    simp [header]
  have hcut := substr_append (headerStart ++ [' ']) t.name ('[' :: t.size ++ ']' :: t.attributes)
  rw [← hheader] at hcut
  rw [index_underscore, index_open]
  convert hcut using 2
  · simp
  · omega

/-- The numeral is cut out of the header. -/
theorem substr_size (t : Table) :
    substr t.header ((index t.header ['['] : Int) + 1)
      ((index t.header [']'] : Int) - index t.header ['['] - 1) = t.size :=
  substr_brackets (t.notMem_name (by decide) (by decide)) (t.notMem_name (by decide) (by decide))
    (fun h => absurd (t.size_digits ']' h) (by decide)) t.attributes

/-! ## What a C compiler reads -/

theorem lexes_zeroList (n : Nat) :
    Lexes (zeroList n) (List.replicate n [.word "0x00".toList, .comma]).flatten := by
  have hzero : Lexes "0x00, ".toList [.word "0x00".toList, .comma] := fun rest => by
    rw [lex, lex, Option.map_map]
    have hstrip : strip .code ("0x00, ".toList ++ rest)
        = (strip .code rest).map ("0x00, ".toList ++ ·) := by
      simp [strip, Mode.next, Function.comp_def]
    rw [hstrip, Option.map_map]
    rfl
  induction n with
  | zero => exact Lexes.nil
  | succ n ih =>
      rw [zeroList, List.replicate_succ, List.flatten_cons, List.replicate_succ,
        List.flatten_cons]
      exact hzero.append ih

theorem opens_zeros (n : Nat) :
    Opens (List.replicate n [.word "0x00".toList, .comma]).flatten (List.replicate n 0) := by
  induction n with
  | zero => exact Opens.nil
  | succ n ih =>
      rw [List.replicate_succ, List.flatten_cons, List.replicate_succ]
      exact (Opens.item rfl).append ih

/-- A text has no newline and no backslash. -/
def Plain (text : Chars) : Prop := '\\' ∉ text ∧ '\n' ∉ text

instance (text : Chars) : Decidable (Plain text) := inferInstanceAs (Decidable (_ ∧ _))

theorem Plain.append {text text' : Chars} (h : Plain text) (h' : Plain text') :
    Plain (text ++ text') := by
  simp only [Plain, List.mem_append, not_or]
  exact ⟨⟨h.1, h'.1⟩, h.2, h'.2⟩

theorem plain_name (t : Table) : Plain t.name :=
  ⟨t.notMem_name (by decide) (by decide), t.notMem_name (by decide) (by decide)⟩

theorem plain_numeral (n : Nat) : Plain (numeral n) := by
  have hdigit : ∀ c ∈ numeral n, c.isDigit := fun c hc =>
    Nat.isDigit_of_mem_toDigits (by decide) (by decide) hc
  exact ⟨fun h => absurd (hdigit _ h) (by decide), fun h => absurd (hdigit _ h) (by decide)⟩

/-- A comment line of the packer. -/
theorem lexes_comment {text : Chars} (h : Plain text) : Lexes ("//".toList ++ text ++ ['\n']) [] :=
  Lexes.line (lex_comment h.1 h.2)

/-- The lines of a table are read as one text. -/
theorem unlines_intercalate {lines : List Chars} (h : lines ≠ []) :
    unlines lines = ['\n'].intercalate lines ++ ['\n'] := by
  induction lines with
  | nil => exact absurd rfl h
  | cons line lines ih =>
      cases lines with
      | nil => simp [List.intercalate]
      | cons next lines =>
          rw [unlines_cons, ih (List.cons_ne_nil _ _)]
          simp [List.intercalate]

theorem body_ne_nil (t : Table) : t.body ≠ [] := by
  obtain ⟨toks, w, hlex, _, hlast⟩ := t.body_lists
  intro hbody
  rw [hbody] at hlex
  cases hlex
  cases hlast

/-- The chunk of a table is read as its bytes and the padding. -/
theorem reads_chunk (t : Table) : Reads t.chunk (t.bytes ++ List.replicate t.pad 0) := by
  obtain ⟨toks, w, hlex, hbytes, hlast⟩ := t.body_lists
  have hbody : Lexes (unlines t.body) toks := by
    rw [unlines_intercalate t.body_ne_nil]
    exact Lexes.line hlex
  have hstart : Lexes ("// start data: ".toList ++ t.name ++ ['\n']) [] :=
    lexes_comment (Plain.append (by decide : Plain " start data: ".toList) t.plain_name)
  have hend : Lexes ("// end data: ".toList ++ t.name ++ ['\n']) [] :=
    lexes_comment (Plain.append (by decide : Plain " end data: ".toList) t.plain_name)
  have hremain : Lexes ("// ".toList ++ t.name ++ " remain: ".toList ++ numeral t.pad ++ ['\n'])
      [] := by
    have hplain := ((Plain.append (by decide : Plain " ".toList) t.plain_name).append
      (by decide : Plain " remain: ".toList)).append (plain_numeral t.pad)
    exact lexes_comment hplain
  have hcomma : Lexes ([','] ++ ['\n']) [.comma] := Lexes.line rfl
  have hblank : Lexes ([] ++ ['\n']) [] := Lexes.line rfl
  have hchunk := hstart.append (hbody.append (hend.append (hcomma.append (hremain.append
    ((lexes_zeroList t.pad).append hblank)))))
  refine Reads.of_lexes hchunk ?_
  have hopens := (Opens.of_list hbytes hlast).append (opens_zeros t.pad)
  simpa using hopens

end Table

end LinuxSamples.Awk
