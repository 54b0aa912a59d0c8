import LinuxSamples.Text.Wildcard
import LinuxSamples.Shell.LogScripts

set_option autoImplicit false

/-! # Patterns of bash

Pattern matching by what the manual of bash says of it: `*`, `?`, the escaping backslash, and bracket
expressions with ranges, classes, equivalences and collating symbols. A `[` that nothing closes
stands for itself. What the manual leaves open, a `[.` or `[:` in a bracket expression without its
end, is as in bash's own matcher. The characters are bytes; what depends on the locale is a
parameter. -/

namespace LinuxSamples.Glob

open LinuxSamples.Text LinuxSamples.LogScripts

def star : UInt8 := 42

def question : UInt8 := 63

def backslash : UInt8 := 92

def openBracket : UInt8 := 91

def closeBracket : UInt8 := 93

def hyphen : UInt8 := 45

def dot : UInt8 := 46

def colon : UInt8 := 58

def equals : UInt8 := 61

/-! ## The grammar -/

/-- An end point of a range: a byte, or the collating symbol `[.name.]`. -/
inductive Point
  | byte (c : UInt8)
  | symbol (name : Bytes)
  deriving DecidableEq, Repr

/-- What stands in a bracket expression: also `[:name:]` and `[=c=]`. -/
inductive Member
  | point (p : Point)
  | range (lo hi : Point)
  | charClass (name : Bytes)
  | equivalence (c : UInt8)
  /-- The `[` of a `[:` without a `:]`. -/
  | nothing
  deriving DecidableEq, Repr

inductive Element
  | any
  | one
  | byte (c : UInt8)
  | set (negated : Bool) (members : List Member)
  deriving DecidableEq, Repr

/-- The text before `d]`. -/
def nameUpTo (d : UInt8) : Bytes → Option Bytes
  | [] => none
  | c :: rest =>
      if c = d ∧ rest.head? = some closeBracket then some []
      else (nameUpTo d rest).map (c :: ·)

/-- The end point that begins with `c`, and how many of the bytes behind `c` belong to it. -/
def point (c : UInt8) (rest : Bytes) : Point × Nat :=
  if c = openBracket ∧ rest.head? = some dot then
    match nameUpTo dot rest.tail with
    | some name => (.symbol name, name.length + 3)
    -- nothing is left that could close the bracket expression
    | none => (.byte c, rest.length)
  else
    match rest with
    | [] => (.byte c, 0)
    | d :: _ => if c = backslash then (.byte d, 1) else (.byte c, 0)

/-- The byte `d` of a text that begins with `=d=]`. -/
def equivalenceClass : Bytes → Option UInt8
  | a :: d :: b :: e :: _ => if a = equals ∧ b = equals ∧ e = closeBracket then some d else none
  | _ => none

/-- The member that begins with the end point `lo`, which `rest` stands behind. -/
def rangeOrPoint (lo : Point) (rest : Bytes) : Member × Nat :=
  match rest with
  | b :: d :: behind =>
      -- a hyphen before the closing bracket stands for itself
      if b = hyphen ∧ d ≠ closeBracket then (.range lo (point d behind).1, (point d behind).2 + 2)
      else (.point lo, 0)
  | _ => (.point lo, 0)

/-- The member that begins with `c`, and how many of the bytes behind `c` belong to it. -/
def member (c : UInt8) (rest : Bytes) : Member × Nat :=
  if c = openBracket ∧ rest.head? = some colon then
    match nameUpTo colon rest.tail with
    | some name => (.charClass name, name.length + 3)
    | none => (.nothing, 0)
  else
    match (if c = openBracket then equivalenceClass rest else none) with
    | some d => (.equivalence d, 4)
    | none =>
        let lo := point c rest
        let m := rangeOrPoint lo.1 (rest.drop lo.2)
        (m.1, lo.2 + m.2)

/-- The members up to the closing bracket, without the bytes to be skipped, and how many bytes they
    take with the bracket. -/
def members : Nat → Bytes → Option (List Member × Nat)
  | _, [] => none
  | skip + 1, _ :: rest => (members skip rest).map fun m => (m.1, m.2 + 1)
  | 0, c :: rest =>
      if c = closeBracket then some ([], 1)
      else
        let m := member c rest
        (members m.2 rest).map fun ms => (m.1 :: ms.1, ms.2 + 1)

/-- Whether `!` or `^` stands behind the opening bracket. -/
def negated (rest : Bytes) : Bool := rest.head? = some 33 || rest.head? = some 94

/-- What stands behind the opening bracket and its `!` or `^`. -/
def body (rest : Bytes) : Bytes := if negated rest then rest.tail else rest

/-- The bracket expression with `rest` behind its opening bracket, if it is closed, and how many bytes
    of `rest` belong to it. Its first member may be a closing bracket. -/
def bracket (rest : Bytes) : Option (Element × Nat) :=
  match body rest with
  | [] => none
  | c :: behind =>
      let m := member c behind
      (members m.2 behind).map fun ms =>
        (.set (negated rest) (m.1 :: ms.1), ms.2 + if negated rest then 2 else 1)

/-- The element that begins with `c`, and how many of the bytes behind `c` belong to it. -/
def element (c : UInt8) (rest : Bytes) : Element × Nat :=
  if c = star then (.any, 0)
  else if c = question then (.one, 0)
  else if c = backslash then
    match rest with
    | [] => (.byte c, 0)
    | d :: _ => (.byte d, 1)
  else if c = openBracket then (bracket rest).getD (.byte c, 0)
  else (.byte c, 0)

/-- The elements of a pattern, without the bytes to be skipped. -/
def elements : Nat → Bytes → List Element
  | _, [] => []
  | skip + 1, _ :: rest => elements skip rest
  | 0, c :: rest => (element c rest).1 :: elements (element c rest).2 rest

/-! ## Matching -/

/-- What patterns take from the locale. -/
structure LocaleRules where
  /-- The bytes of `[:name:]`. -/
  isClass : Bytes → UInt8 → Bool
  /-- The bytes of `[=c=]`. -/
  equivalent : UInt8 → UInt8 → Bool
  /-- The byte `[.name.]` stands for. -/
  symbol : Bytes → Option UInt8
  /-- The order of ranges. -/
  le : UInt8 → UInt8 → Bool

def Point.value (locale : LocaleRules) : Point → Option UInt8
  | .byte c => some c
  | .symbol name => locale.symbol name

def Member.accepts (locale : LocaleRules) (c : UInt8) : Member → Bool
  | .point p => p.value locale = some c
  | .range lo hi =>
      match lo.value locale, hi.value locale with
      | some lo, some hi => locale.le lo c && locale.le c hi
      | _, _ => false
  | .charClass name => locale.isClass name c
  | .equivalence d => locale.equivalent d c
  | .nothing => false

def Element.part (locale : LocaleRules) : Element → Wild UInt8
  | .any => .any
  | .one => .one fun _ => true
  | .byte c => .letter c
  | .set negated members => .one fun c => (members.any fun m => m.accepts locale c) != negated

/-- The whole text matches the pattern. -/
def glob (locale : LocaleRules) (pattern text : Bytes) : Bool :=
  fits ((elements 0 pattern).map (Element.part locale)) text

def between (lo hi c : UInt8) : Bool := lo ≤ c && c ≤ hi

/-- The classes of the POSIX locale. -/
def posixClass (name : Bytes) (c : UInt8) : Bool :=
  let digit := between 48 57 c
  let upper := between 65 90 c
  let lower := between 97 122 c
  let letter := upper || lower
  let classes := [("alnum", letter || digit), ("alpha", letter), ("ascii", between 0 127 c),
    ("blank", c = 9 || c = 32), ("cntrl", between 0 31 c || c = 127), ("digit", digit),
    ("graph", between 33 126 c), ("lower", lower), ("print", between 32 126 c),
    ("punct", between 33 126 c && !(letter || digit)), ("space", between 9 13 c || c = 32),
    ("upper", upper), ("word", letter || digit || c = 95),
    ("xdigit", digit || between 65 70 c || between 97 102 c)]
  classes.any fun k => text k.1 = name && k.2

/-- The POSIX locale, where the name of a collating symbol is the byte itself. -/
def posix : LocaleRules where
  isClass := posixClass
  equivalent c d := c = d
  symbol name := if name.length = 1 then name.head? else none
  le c d := c ≤ d

/-! ## Patterns without special characters -/

/-- A `]` stands behind the first byte of what a bracket expression would hold. -/
def closes (rest : Bytes) : Bool := closeBracket ∈ (body rest).tail

/-- No `[` of the text begins a bracket expression, and no byte is escaped. -/
structure Open (string : Bytes) : Prop where
  unescaped : backslash ∉ string
  unclosed : ∀ rest, openBracket :: rest <:+ string → closes rest = false

theorem Open.of_suffix {string rest : Bytes} (h : Open string) (hrest : rest <:+ string) :
    Open rest where
  unescaped hmem := h.unescaped (hrest.subset hmem)
  unclosed rest' hrest' := h.unclosed rest' (hrest'.trans hrest)

theorem Open.head_ne {c : UInt8} {rest : Bytes} (h : Open (c :: rest)) : c ≠ backslash := by
  rintro rfl
  exact h.unescaped List.mem_cons_self

theorem Open.nil : Open [] where
  unescaped := List.not_mem_nil
  unclosed rest hrest := by simp at hrest

theorem Open.cons {c : UInt8} {rest : Bytes} (h : Open rest) (hc : c ≠ backslash)
    (hclosed : c = openBracket → closes rest = false) : Open (c :: rest) where
  unescaped hmem := by
    rcases List.mem_cons.1 hmem with he | hmem
    · exact hc he.symm
    · exact h.unescaped hmem
  unclosed rest' hrest' := by
    rcases List.suffix_cons_iff.1 hrest' with he | hrest'
    · obtain ⟨rfl, rfl⟩ := List.cons.inj he
      exact hclosed rfl
    · exact h.unclosed rest' hrest'

/-- In front of a `*`, all bytes of the text stand for themselves. -/
def isPlain (string : Bytes) : Bool :=
  star ∉ string ∧ question ∉ string ∧ backslash ∉ string ∧
    ∀ rest ∈ string.tails, rest.head? = some openBracket → closes rest.tail = false

theorem isPlain_iff {string : Bytes} :
    isPlain string = true ↔ star ∉ string ∧ question ∉ string ∧ Open string := by
  simp only [isPlain, decide_eq_true_eq, List.mem_tails]
  constructor
  · rintro ⟨hstar, hquestion, hbackslash, hbracket⟩
    exact ⟨hstar, hquestion, hbackslash, fun rest hrest => hbracket _ hrest rfl⟩
  · rintro ⟨hstar, hquestion, hopen⟩
    refine ⟨hstar, hquestion, hopen.unescaped, fun rest hrest hhead => ?_⟩
    obtain ⟨behind, rfl⟩ := List.head?_eq_some_iff.1 hhead
    exact hopen.unclosed behind hrest

/-! ### Brackets that are not closed -/

theorem mem_of_members {skip : Nat} {w : Bytes} {ms : List Member × Nat}
    (h : members skip w = some ms) : closeBracket ∈ w := by
  induction w generalizing skip ms with
  | nil => simp [members] at h
  | cons c rest ih =>
      cases skip with
      | succ skip =>
          obtain ⟨m, hm, _⟩ := Option.map_eq_some_iff.1 h
          exact List.mem_cons_of_mem c (ih hm)
      | zero =>
          rw [members] at h
          split at h
          · next hc =>
              subst hc
              exact List.mem_cons_self
          · obtain ⟨m, hm, _⟩ := Option.map_eq_some_iff.1 h
            exact List.mem_cons_of_mem c (ih hm)

theorem body_star (rest : Bytes) : body (rest ++ [star]) = body rest ++ [star] := by
  cases rest with
  | nil => rfl
  | cons c rest =>
      have hneg : negated (c :: rest ++ [star]) = negated (c :: rest) := rfl
      rw [body, body, hneg]
      cases negated (c :: rest) with
      | true => rfl
      | false => rfl

theorem bracket_star {rest : Bytes} (h : closes rest = false) : bracket (rest ++ [star]) = none := by
  rw [bracket, body_star]
  cases hbody : body rest with
  | nil => rfl
  | cons c behind =>
      rw [List.cons_append, Option.map_eq_none_iff, Option.eq_none_iff_forall_ne_some]
      intro ms hms
      have hmem : closeBracket ∈ behind := by
        rcases List.mem_append.1 (mem_of_members hms) with hmem | hmem
        · exact hmem
        · exact absurd (List.mem_singleton.1 hmem) (by decide)
      rw [closes, hbody] at h
      exact of_decide_eq_false h hmem

/-! ### Brackets that are closed -/

section

variable {c : UInt8} {rest w : Bytes}

/-- In an open text with a `]`, no `[` is the first byte of a special member. -/
theorem Open.not_special (h : Open (c :: rest)) (hmem : closeBracket ∈ rest) {d : UInt8}
    (hd : d ≠ 33 ∧ d ≠ 94 ∧ d ≠ closeBracket) :
    ¬ (c = openBracket ∧ (rest ++ [star]).head? = some d) := by
  rintro ⟨rfl, hhead⟩
  cases rest with
  | nil => cases hmem
  | cons b behind =>
      obtain rfl : b = d := Option.some.inj hhead
      have hbody : body (b :: behind) = b :: behind := by simp [body, negated, hd]
      have hclosed := h.unclosed (b :: behind) (List.suffix_refl _)
      rw [closes, hbody] at hclosed
      refine of_decide_eq_false hclosed ?_
      exact (List.mem_cons.1 hmem).resolve_left (Ne.symm hd.2.2)

theorem point_eq (hdot : ¬ (c = openBracket ∧ w.head? = some dot)) (hc : c ≠ backslash) :
    point c w = (.byte c, 0) := by
  unfold point
  rw [if_neg hdot]
  cases w with
  | nil => rfl
  | cons d w => exact if_neg hc

theorem equivalenceClass_head {d : UInt8} (h : equivalenceClass w = some d) :
    w.head? = some equals := by
  unfold equivalenceClass at h
  split at h
  · split at h
    · next hshape => exact congrArg some hshape.1
    · cases h
  · cases h

theorem member_eq (hdot : ¬ (c = openBracket ∧ w.head? = some dot))
    (hcolon : ¬ (c = openBracket ∧ w.head? = some colon))
    (hequals : ¬ (c = openBracket ∧ w.head? = some equals)) (hc : c ≠ backslash) :
    member c w = rangeOrPoint (.byte c) w := by
  have hnone : (if c = openBracket then equivalenceClass w else none) = none := by
    split
    · next ho =>
        rw [Option.eq_none_iff_forall_ne_some]
        exact fun d hd => hequals ⟨ho, equivalenceClass_head hd⟩
    · rfl
  rw [member, if_neg hcolon, hnone, point_eq hdot hc]
  simp only [List.drop_zero, Nat.zero_add]

/-- A member of an open text leaves a `]` behind it. -/
theorem Open.mem_drop_member (h : Open (c :: rest)) (hmem : closeBracket ∈ rest) :
    closeBracket ∈ rest.drop (member c (rest ++ [star])).2 := by
  rw [member_eq (h.not_special hmem (by decide)) (h.not_special hmem (by decide))
    (h.not_special hmem (by decide)) h.head_ne]
  rcases rest with _ | ⟨b, _ | ⟨d, behind⟩⟩
  · cases hmem
  · -- the only byte is the bracket
    obtain rfl := List.mem_singleton.1 hmem
    exact hmem
  · rw [List.cons_append, List.cons_append, rangeOrPoint]
    split
    · next hrange =>
        have hb : closeBracket ≠ b := by
          rw [hrange.1]
          decide
        have hbehind : closeBracket ∈ behind :=
          (List.mem_cons.1 ((List.mem_cons.1 hmem).resolve_left hb)).resolve_left (Ne.symm hrange.2)
        have hopen : Open (d :: behind) := h.of_suffix ⟨[c, b], rfl⟩
        rw [point_eq (hopen.not_special hbehind (by decide)) hopen.head_ne]
        exact hbehind
    · exact hmem

theorem members_drop (skip : Nat) :
    ∀ w : Bytes, (members skip w).isSome = (members 0 (w.drop skip)).isSome := by
  induction skip with
  | zero => exact fun w => rfl
  | succ skip ih =>
      intro w
      cases w with
      | nil => rfl
      | cons c rest => rw [members, Option.isSome_map, ih, List.drop_succ_cons]

theorem members_star {n : Nat} (h : closeBracket ∈ w.drop n) :
    (members n (w ++ [star])).isSome = (members 0 (w.drop n ++ [star])).isSome := by
  have hle : n ≤ w.length := by
    by_contra hlt
    rw [List.drop_eq_nil_of_le (by omega)] at h
    cases h
  rw [members_drop, List.drop_append_of_le_length hle]

/-- Behind a member of an open text, the bracket expression is closed. -/
theorem Open.members_isSome (n : Nat) : ∀ {w : Bytes}, w.length < n → Open w →
    closeBracket ∈ w → (members 0 (w ++ [star])).isSome = true := by
  induction n with
  | zero => exact fun hlen => absurd hlen (Nat.not_lt_zero _)
  | succ n ih =>
      intro w hlen h hmem
      cases w with
      | nil => cases hmem
      | cons c rest =>
          rw [List.cons_append, members]
          split
          · rfl
          · next hc =>
              have hrest : closeBracket ∈ rest := (List.mem_cons.1 hmem).resolve_left (Ne.symm hc)
              have hdrop := h.mem_drop_member hrest
              rw [Option.isSome_map, members_star hdrop]
              refine ih ?_ (h.of_suffix ?_) hdrop
              · rw [List.length_drop]
                rw [List.length_cons] at hlen
                omega
              · exact (List.drop_suffix _ rest).trans (List.suffix_cons c rest)

/-- **A bracket expression that could be closed is closed** if behind its `[` there is no other one
    that could be closed. -/
theorem Open.bracket_isSome (h : Open rest) (hcloses : closes rest = true) :
    (bracket (rest ++ [star])).isSome = true := by
  have hmem : closeBracket ∈ (body rest).tail := of_decide_eq_true hcloses
  have hsuffix : body rest <:+ rest := by
    unfold body
    split
    · exact List.tail_suffix rest
    · exact List.suffix_refl rest
  unfold bracket
  rw [body_star]
  cases hbody : body rest with
  | nil =>
      rw [hbody] at hmem
      cases hmem
  | cons c behind =>
      rw [hbody] at hmem hsuffix
      have hdrop := (h.of_suffix hsuffix).mem_drop_member hmem
      have hopen : Open (behind.drop (member c (behind ++ [star])).2) :=
        h.of_suffix ((List.drop_suffix _ _).trans ((List.suffix_cons c behind).trans hsuffix))
      rw [List.cons_append, Option.isSome_map, members_star hdrop]
      exact hopen.members_isSome _ (Nat.lt_succ_self _) hdrop

end

/-- A bracket expression takes something of what stands behind its `[`. -/
theorem takes_of_bracket {w : Bytes} {e : Element × Nat} (h : bracket w = some e) : 1 ≤ e.2 := by
  unfold bracket at h
  split at h
  · cases h
  · obtain ⟨ms, _, rfl⟩ := Option.map_eq_some_iff.1 h
    show 1 ≤ ms.2 + if negated w then 2 else 1
    split
    · omega
    · omega

/-! ### Elements of patterns that end in `*` -/

/-- What stands for a byte that is neither `*` nor escaped nor in a bracket expression. -/
def single (c : UInt8) : Element := if c = question then .one else .byte c

theorem part_single (locale : LocaleRules) (c : UInt8) :
    ∃ accepts, (single c).part locale = .one accepts := by
  unfold single
  split
  · exact ⟨_, rfl⟩
  · exact ⟨_, rfl⟩

theorem element_single {c : UInt8} {w : Bytes} (hstar : c ≠ star) (hbackslash : c ≠ backslash)
    (hbracket : c = openBracket → bracket w = none) : element c w = (single c, 0) := by
  unfold element single
  rw [if_neg hstar]
  by_cases hquestion : c = question
  · rw [if_pos hquestion, if_pos hquestion]
  · rw [if_neg hquestion, if_neg hquestion, if_neg hbackslash]
    by_cases hopen : c = openBracket
    · rw [if_pos hopen, hbracket hopen, Option.getD_none]
    · rw [if_neg hopen]

theorem elements_single {string : Bytes} (hstar : star ∉ string) (hopen : Open string) :
    elements 0 (string ++ [star]) = string.map single ++ [.any] := by
  induction string with
  | nil => rfl
  | cons c rest ih =>
      simp only [List.mem_cons, not_or] at hstar
      have hbracket : c = openBracket → bracket (rest ++ [star]) = none := fun he =>
        bracket_star (hopen.unclosed rest (by rw [he]))
      rw [List.cons_append, elements, element_single (Ne.symm hstar.1) hopen.head_ne hbracket,
        ih hstar.2 (hopen.of_suffix (List.suffix_cons c rest)), List.map_cons, List.cons_append]

/-- A pattern `string*` never needs more bytes than `string` has. -/
theorem needs_le (locale : LocaleRules) (string : Bytes) : ∀ skip : Nat,
    needs ((elements skip (string ++ [star])).map (Element.part locale)) ≤ string.length - skip := by
  induction string with
  | nil =>
      intro skip
      cases skip with
      | zero => exact Nat.le_refl 0
      | succ skip => simp [elements, needs]
  | cons c rest ih =>
      intro skip
      rw [List.cons_append, List.length_cons]
      cases skip with
      | succ skip =>
          rw [elements, Nat.add_sub_add_right]
          exact ih skip
      | zero =>
          have hrest := ih (element c (rest ++ [star])).2
          rw [elements, List.map_cons]
          cases (element c (rest ++ [star])).1 with
          | any => exact hrest.trans (by omega)
          | one | byte | set => exact Nat.add_le_add_right (hrest.trans (Nat.sub_le ..)) 1

/-- **A pattern `string*` that needs as many bytes as `string` has, and matches it**, takes each byte
    of it for an element of its own. -/
theorem open_of_fits (locale : LocaleRules) {string : Bytes}
    (hfits : fits ((elements 0 (string ++ [star])).map (Element.part locale)) string = true)
    (hneeds : string.length ≤ needs ((elements 0 (string ++ [star])).map (Element.part locale))) :
    star ∉ string ∧ Open string := by
  induction string with
  | nil => exact ⟨List.not_mem_nil, Open.nil⟩
  | cons c rest ih =>
      obtain ⟨e, n, helement⟩ : ∃ e n, element c (rest ++ [star]) = (e, n) := ⟨_, _, rfl⟩
      have hle := needs_le locale rest n
      simp only [List.cons_append, elements, helement, List.map_cons] at hfits hneeds
      rw [List.length_cons] at hneeds
      have hcons := needs_cons_le (e.part locale)
        ((elements n (rest ++ [star])).map (Element.part locale))
      -- an element of several bytes would leave too few of them
      have hshort : 1 ≤ n → rest = [] := fun hn => List.length_eq_zero_iff.1 (by omega)
      have hstar : c ≠ star := by
        rintro rfl
        obtain ⟨rfl, rfl⟩ := Prod.mk.inj (show (Element.any, 0) = (e, n) from helement)
        rw [Element.part, needs] at hneeds
        omega
      have hbackslash : c ≠ backslash := by
        rintro rfl
        cases rest with
        | nil =>
            obtain ⟨rfl, rfl⟩ := Prod.mk.inj (show (Element.byte star, 1) = (e, n) from helement)
            exact absurd (fits_one_cons.1 hfits).1 (by decide)
        | cons d behind =>
            obtain ⟨rfl, rfl⟩ := Prod.mk.inj (show (Element.byte d, 1) = (e, n) from helement)
            cases hshort (Nat.le_refl 1)
      have hbracket : c = openBracket → bracket (rest ++ [star]) = none := by
        rintro rfl
        cases hsome : bracket (rest ++ [star]) with
        | none => rfl
        | some found =>
            have hfound : element openBracket (rest ++ [star]) = found := by
              show (bracket (rest ++ [star])).getD _ = found
              rw [hsome, Option.getD_some]
            obtain rfl : found = (e, n) := hfound.symm.trans helement
            obtain rfl := hshort (takes_of_bracket hsome)
            cases hsome
      obtain ⟨rfl, rfl⟩ :=
        Prod.mk.inj (helement.symm.trans (element_single hstar hbackslash hbracket))
      obtain ⟨accepts, hpart⟩ := part_single locale c
      rw [hpart] at hfits hneeds
      rw [needs] at hneeds
      obtain ⟨hrest, hopen⟩ := ih (fits_one_cons.1 hfits).2 (by omega)
      refine ⟨List.not_mem_cons_of_ne_of_not_mem (Ne.symm hstar) hrest,
        hopen.cons hbackslash fun he => ?_⟩
      by_contra hcloses
      have hsome := hopen.bracket_isSome (Bool.not_eq_false _ ▸ hcloses)
      rw [hbracket he] at hsome
      cases hsome

end LinuxSamples.Glob
