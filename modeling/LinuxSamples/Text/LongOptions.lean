import LinuxSamples.Text.Options

set_option autoImplicit false

/-! # Options with names

A word that begins with two dashes names an option, in the way of `getopt_long`: any beginning of the name
will do if it fits no other option. The value of the option stands behind a sign in the same word, or is
the next word. All other words are scanned as in `Options`.

`calls` makes one call after the other. `reading` goes through the words, and knows of each call which
word it is about; that both agree is `calls_eq`. -/

namespace LinuxSamples.LongOptions

open LinuxSamples.Options

variable {α : Type}

/-! ## Names -/

/-- `val` is the letter that is returned for the option, if there is one. -/
structure LongOption (α : Type) where
  name : List α
  takes : Bool
  val : Option α
  deriving DecidableEq, Repr

inductive Lookup (α : Type)
  | found (o : LongOption α)
  | ambiguous
  | unknown
  deriving DecidableEq, Repr

section Names

variable [DecidableEq α] {options : List (LongOption α)} {name : List α} {o : LongOption α}

/-- The option of a name, or the one whose name begins with it. Options that are handled alike are not
    told apart. -/
def lookup (options : List (LongOption α)) (name : List α) : Lookup α :=
  match options.find? (·.name = name) with
  | some o => .found o
  | none =>
      match options.filter fun o => name.isPrefixOf o.name with
      | [] => .unknown
      | o :: os => if os.all fun p => p.takes = o.takes ∧ p.val = o.val then .found o else .ambiguous

theorem lookup_found (h : lookup options name = .found o) : o ∈ options ∧ name <+: o.name := by
  unfold lookup at h
  split at h
  · next p hfind =>
      cases h
      have hname : o.name = name := by simpa using List.find?_some hfind
      exact ⟨List.mem_of_find?_eq_some hfind, hname ▸ List.prefix_refl o.name⟩
  · split at h
    · cases h
    · next p ps hfilter =>
        split at h
        · cases h
          have hmem : o ∈ options.filter fun o => name.isPrefixOf o.name :=
            hfilter ▸ List.mem_cons_self
          obtain ⟨hoption, hprefix⟩ := List.mem_filter.1 hmem
          exact ⟨hoption, List.isPrefixOf_iff_prefix.1 hprefix⟩
        · cases h

end Names

/-! ## Calls -/

structure LongSyntax (α : Type) extends Syntax α where
  /-- What stands between a name and a value. -/
  equals : α
  options : List (LongOption α)

/-- What a call finds. -/
inductive Event (α : Type)
  | letter (e : Options.Event α)
  | long (o : LongOption α) (value : Option (List α))
  | ambiguous (body : List α)
  | unrecognized (body : List α)
  /-- There is a value, but the option takes none. -/
  | excess (o : LongOption α)
  /-- The value of the option is not there. -/
  | required (o : LongOption α)

/-- `optind` between calls: the operands that were skipped stand before the words that are left. -/
def optind (s : Scan α) : Nat := s.scanned.length + s.operands.length + 1

namespace LongSyntax

variable [DecidableEq α] (syn : LongSyntax α)

/-- The name and the value in a word of two dashes and more. -/
def longBody : List α → Option (List α)
  | d :: d' :: c :: cs => if d = syn.dash ∧ d' = syn.dash then some (c :: cs) else none
  | _ => none

/-- What the text behind the dashes is about, where the words `rest` follow, and how many of these are its
    value. -/
def long (body : List α) (rest : List (List α)) : Event α × Nat :=
  let name := body.takeWhile (· ≠ syn.equals)
  match lookup syn.options name with
  | .unknown => (.unrecognized body, 0)
  | .ambiguous => (.ambiguous body, 0)
  | .found o =>
      match body.dropWhile (· ≠ syn.equals), o.takes with
      | _ :: v, true => (.long o (some v), 0)
      | _ :: _, false => (.excess o, 0)
      | [], false => (.long o none, 0)
      | [], true =>
          match rest with
          | v :: _ => (.long o (some v), 1)
          | [] => (.required o, 0)

/-- The scan behind a word, and behind `used` of the words after it. -/
def behind (scanned operands : List (List α)) (w : List α) (rest : List (List α)) (used : Nat) :
    Scan α :=
  ⟨scanned ++ w :: rest.take used, operands, [], rest.drop used⟩

/-- A call of `getopt_long`; nothing is found at the end of the options. -/
def next (s : Scan α) : Option (Event α) × Scan α :=
  match s.letters, syn.skip s.rest with
  | [], (skipped, w :: rest) =>
      match syn.longBody w with
      | some body =>
          let found := syn.long body rest
          (some found.1, behind s.scanned (s.operands ++ skipped) w rest found.2)
      | none => (syn.toSyntax.next s).map (Option.map .letter) id
  | _, _ => (syn.toSyntax.next s).map (Option.map .letter) id

variable {s s' : Scan α} {e : Event α}

omit [DecidableEq α] in
theorem behind_left (scanned operands : List (List α)) (w : List α) (rest : List (List α))
    (used : Nat) : (behind scanned operands w rest used).left ≤ (rest.map List.length).sum := by
  conv_rhs => rw [← List.take_append_drop used rest, List.map_append, List.sum_append]
  exact Nat.le_add_left _ _

theorem longBody_length {w body : List α} (h : syn.longBody w = some body) :
    w.length = body.length + 2 ∧ body ≠ [] := by
  unfold longBody at h
  split at h
  · split at h
    · cases h
      exact ⟨rfl, List.cons_ne_nil _ _⟩
    · cases h
  · cases h

theorem next_letter (h : (syn.toSyntax.next s).map (Option.map Event.letter) id = (some e, s')) :
    s'.left < s.left := by
  rcases hnext : syn.toSyntax.next s with ⟨_ | e', s₁⟩
  · rw [hnext] at h
    cases h
  · rw [hnext] at h
    obtain rfl : s₁ = s' := congrArg Prod.snd h
    exact syn.toSyntax.next_left hnext

/-- Every event takes letters from what is left. -/
theorem next_left (h : syn.next s = (some e, s')) : s'.left < s.left := by
  unfold next at h
  split at h
  · next skipped w rest hletters hskip =>
      split at h
      · next body hbody =>
          have hs' : behind s.scanned (s.operands ++ skipped) w rest (syn.long body rest).2 = s' :=
            congrArg Prod.snd h
          have hle := behind_left s.scanned (s.operands ++ skipped) w rest (syn.long body rest).2
          have hskipped := syn.toSyntax.skip_left s.rest
          have hlength := (syn.longBody_length hbody).1
          have hleft : s.left = (s.rest.map List.length).sum := by
            unfold Scan.left
            rw [hletters]
          rw [hskip, List.map_cons, List.sum_cons] at hskipped
          rw [hs'] at hle
          omega
      · exact syn.next_letter h
  · exact syn.next_letter h

/-- The calls of `getopt_long` until the end: `optind` before each with what it finds, and where the scan
    ends. -/
def calls (s : Scan α) : List (Nat × Event α) × Scan α :=
  match h : syn.next s with
  | (none, s') => ([], s')
  | (some e, s') =>
      have _hlt : s'.left < s.left := syn.next_left h
      ((optind s, e) :: (calls s').1, (calls s').2)
termination_by s.left

theorem calls_none (h : syn.next s = (none, s')) : syn.calls s = ([], s') := by
  rw [calls]
  split
  · next s₁ h₁ =>
      obtain ⟨_, rfl⟩ := Prod.mk.inj (h.symm.trans h₁)
      rfl
  · next e s₁ h₁ => cases (Prod.mk.inj (h.symm.trans h₁)).1

theorem calls_some (h : syn.next s = (some e, s')) :
    syn.calls s = ((optind s, e) :: (syn.calls s').1, (syn.calls s').2) := by
  rw [calls]
  split
  · next s₁ h₁ => cases (Prod.mk.inj (h.symm.trans h₁)).1
  · next e₁ s₁ h₁ =>
      obtain ⟨he, rfl⟩ := Prod.mk.inj (h.symm.trans h₁)
      rw [Option.some.inj he]

/-! ## Word by word -/

/-- A call that finds the same from another place. -/
theorem calls_congr {t : Scan α} {i : Nat} {l : List (Nat × Event α)} (h : syn.next s = syn.next t)
    (hcalls : (syn.calls t).1 = (i, e) :: l) :
    syn.calls s = ((optind s, e) :: l, (syn.calls t).2) := by
  rcases hnext : syn.next t with ⟨_ | e', t'⟩
  · rw [syn.calls_none hnext] at hcalls
    cases hcalls
  · rw [syn.calls_some hnext] at hcalls ⊢
    obtain ⟨he, rfl⟩ := List.cons.inj hcalls
    obtain ⟨_, rfl⟩ := Prod.mk.inj he
    rw [syn.calls_some (h.trans hnext)]

end LongSyntax

/-- A call about the word with index `element`, which is the first call about it or not; right before the
    word stand `skipped` operands. -/
structure Call (α : Type) where
  element : Nat
  skipped : Nat
  first : Bool
  event : Event α

/-- `optind` before the call: the operands are not skipped yet. -/
def Call.before (c : Call α) : Nat := if c.first then c.element - c.skipped else c.element

/-- The calls about one word. -/
def Call.about (element skipped : Nat) : List (Event α) → List (Call α)
  | [] => []
  | e :: es => ⟨element, skipped, true, e⟩ :: es.map (⟨element, skipped, false, ·⟩)

theorem Call.about_before (n skipped : Nat) (e : Event α) (es : List (Event α)) :
    (Call.about (n + skipped) skipped (e :: es)).map (fun c => (c.before, c.event))
      = (n, e) :: es.map fun e => (n + skipped, e) := by
  rw [Call.about, List.map_cons, List.map_map]
  simp only [Call.before, if_true, Nat.add_sub_cancel]
  rfl

namespace LongSyntax

variable [DecidableEq α] (syn : LongSyntax α)

/-- What is found in the letters of a word, where the words `rest` follow, and how many of these are the
    value of the last letter. -/
def letters (rest : List (List α)) : List α → List (Event α) × Nat
  | [] => ([], 0)
  | c :: cs =>
      match syn.takes c with
      | none => (.letter (.unknown c) :: (letters rest cs).1, (letters rest cs).2)
      | some false => (.letter (.flag c) :: (letters rest cs).1, (letters rest cs).2)
      | some true =>
          match cs, rest with
          | c' :: cs', _ => ([.letter (.value c (c' :: cs'))], 0)
          | [], v :: _ => ([.letter (.value c v)], 1)
          | [], [] => ([.letter (.missing c)], 0)

omit [DecidableEq α] in
theorem letters_ne_nil (rest : List (List α)) (c : α) (cs : List α) :
    (syn.letters rest (c :: cs)).1 ≠ [] := by
  cases htakes : syn.takes c with
  | none => simp [letters, htakes]
  | some b =>
      cases b with
      | false => simp [letters, htakes]
      | true => cases cs <;> cases rest <;> simp [letters, htakes]

/-- What is found in a word. -/
def inWord (w : List α) (rest : List (List α)) : List (Event α) × Nat :=
  match syn.longBody w with
  | some body => ([(syn.long body rest).1], (syn.long body rest).2)
  | none => syn.letters rest w.tail

/-- The calls about all words, and the operands: the first word has index `i`, and right before it stand
    `skipped` operands. -/
def reading (i skipped : Nat) (words : List (List α)) : List (Call α) × List (List α) :=
  match words with
  | [] => ([], [])
  | w :: rest =>
      if syn.isOption w then
        if w = [syn.dash, syn.dash] then ([], rest)
        else
          let found := syn.inWord w rest
          let after := reading (i + 1 + (rest.take found.2).length) 0 (rest.drop found.2)
          (Call.about i skipped found.1 ++ after.1, after.2)
      else
        let after := reading (i + 1) (skipped + 1) rest
        (after.1, w :: after.2)
termination_by words.length
decreasing_by
  · rw [List.length_drop, List.length_cons]
    omega
  · exact Nat.lt_succ_self _

section Reading

variable {i skipped : Nat} {w : List α} {rest : List (List α)}

theorem reading_nil : syn.reading i skipped [] = ([], []) := by
  rw [reading]

theorem reading_operand (h : ¬ syn.isOption w) : syn.reading i skipped (w :: rest)
    = ((syn.reading (i + 1) (skipped + 1) rest).1,
      w :: (syn.reading (i + 1) (skipped + 1) rest).2) := by
  rw [reading, if_neg h]

theorem reading_end :
    syn.reading i skipped ([syn.dash, syn.dash] :: rest) = ([], rest) := by
  rw [reading, if_pos (syn.isOption_iff.2 ⟨_, _, rfl⟩), if_pos rfl]

theorem reading_option (h : syn.isOption w) (hend : w ≠ [syn.dash, syn.dash]) :
    syn.reading i skipped (w :: rest)
      = (Call.about i skipped (syn.inWord w rest).1
          ++ (syn.reading (i + 1 + (rest.take (syn.inWord w rest).2).length) 0
            (rest.drop (syn.inWord w rest).2)).1,
        (syn.reading (i + 1 + (rest.take (syn.inWord w rest).2).length) 0
          (rest.drop (syn.inWord w rest).2)).2) := by
  rw [reading, if_pos h, if_neg hend]

end Reading

/-- The words are read one by one, or two at a time. -/
theorem words_induction {P : List (List α) → Prop} (nil : P [])
    (operand : ∀ w rest, ¬ syn.isOption w → P rest → P (w :: rest))
    (dashes : ∀ rest, P ([syn.dash, syn.dash] :: rest))
    (option : ∀ w rest, syn.isOption w → w ≠ [syn.dash, syn.dash] →
      P (rest.drop (syn.inWord w rest).2) → P (w :: rest)) :
    ∀ words, P words := by
  intro words
  induction hn : words.length using Nat.strong_induction_on generalizing words with
  | _ n ih =>
      cases words with
      | nil => exact nil
      | cons w rest =>
          have hlt : ∀ k, (rest.drop k).length < n := fun k => by
            rw [← hn, List.length_drop, List.length_cons]
            omega
          by_cases hoption : syn.isOption w
          · by_cases hend : w = [syn.dash, syn.dash]
            · exact hend ▸ dashes rest
            · exact option w rest hoption hend (ih _ (hlt _) _ rfl)
          · exact operand w rest hoption (ih _ (hlt 0) rest rfl)

/-! ## The calls are those word by word -/

section Calls

variable {sc ops pre : List (List α)} {w : List α} {rest : List (List α)}

theorem next_inside {c : α} {cs : List α} : syn.next ⟨sc, ops, c :: cs, w :: rest⟩
    = (syn.toSyntax.letter sc ops c cs w rest).map (fun e => some (.letter e)) id := by
  have hnext : syn.next ⟨sc, ops, c :: cs, w :: rest⟩
      = (syn.toSyntax.next ⟨sc, ops, c :: cs, w :: rest⟩).map (Option.map .letter) id := by
    rw [next]
  rw [hnext, syn.toSyntax.next_letters rfl rfl]
  rfl

theorem calls_letter {c : α} {cs : List α} {found : Options.Event α × Scan α}
    (h : syn.toSyntax.letter sc ops c cs w rest = found) :
    syn.calls (leave sc ops (c :: cs) w rest)
      = ((sc.length + ops.length + 1, .letter found.1) :: (syn.calls found.2).1,
        (syn.calls found.2).2) := by
  have hnext : syn.next (leave sc ops (c :: cs) w rest) = (some (.letter found.1), found.2) := by
    rw [← h]
    exact syn.next_inside
  rw [syn.calls_some hnext]
  rfl

/-- The calls about the letters that are left of a word. -/
theorem calls_leave (sc ops : List (List α)) (w : List α) (rest : List (List α)) (cs : List α) :
    syn.calls (leave sc ops cs w rest)
      = ((syn.letters rest cs).1.map (fun e => (sc.length + ops.length + 1, e))
          ++ (syn.calls (behind sc ops w rest (syn.letters rest cs).2)).1,
        (syn.calls (behind sc ops w rest (syn.letters rest cs).2)).2) := by
  induction cs with
  | nil => rfl
  | cons c cs ih =>
      rw [syn.calls_letter rfl, Syntax.letter.eq_def]
      cases htakes : syn.takes c with
      | none =>
          simp only [letters, htakes]
          rw [ih]
          rfl
      | some b =>
          cases b with
          | false =>
              simp only [letters, htakes]
              rw [ih]
              rfl
          | true =>
              cases cs with
              | cons d ds =>
                  simp only [letters, htakes]
                  rfl
              | nil =>
                  simp only [letters, htakes]
                  cases rest with
                  | nil => rfl
                  | cons v rest => rfl

variable (hpermutes : syn.permutes = true) (hpre : ∀ w ∈ pre, ¬ syn.isOption w)
include hpermutes hpre

theorem skip_operands : syn.skip pre = (pre, []) := by
  have hall : ∀ w ∈ pre, (!syn.isOption w) = true := fun w hw => by simpa using hpre w hw
  rw [Syntax.skip, if_pos hpermutes, List.takeWhile_eq_self_iff.2 hall,
    List.dropWhile_eq_nil_iff.2 hall]

theorem skip_before (rest : List (List α)) (h : syn.isOption w) :
    syn.skip (pre ++ w :: rest) = (pre, w :: rest) := by
  have hall : ∀ w ∈ pre, (!syn.isOption w) = true := fun w hw => by simpa using hpre w hw
  have hw : ¬ (!syn.isOption w) = true := by simpa using h
  rw [Syntax.skip, if_pos hpermutes, List.takeWhile_append_of_pos hall,
    List.dropWhile_append_of_pos hall, List.takeWhile_cons_of_neg (p := (!syn.isOption ·)) hw,
    List.dropWhile_cons_of_neg (p := (!syn.isOption ·)) hw, List.append_nil]

/-- No call finds anything if only operands are left. -/
theorem calls_operands : syn.calls ⟨sc, ops, [], pre⟩ = ([], ⟨sc, ops ++ pre, [], []⟩) := by
  refine syn.calls_none ?_
  rw [next]
  simp only [syn.skip_operands hpermutes hpre]
  rw [syn.toSyntax.next_word rfl, syn.skip_operands hpermutes hpre]
  rfl

theorem calls_end : syn.calls ⟨sc, ops, [], pre ++ [syn.dash, syn.dash] :: rest⟩
    = ([], ⟨sc ++ [[syn.dash, syn.dash]], ops ++ pre, [], rest⟩) := by
  have hskip := syn.skip_before hpermutes hpre rest (syn.isOption_iff.2 ⟨syn.dash, [], rfl⟩)
  refine syn.calls_none ?_
  rw [next]
  simp only [hskip, longBody]
  rw [syn.toSyntax.next_word rfl, hskip, syn.toSyntax.word_end]
  rfl

/-- The calls about a word with options. -/
theorem calls_option (h : syn.isOption w) (hend : w ≠ [syn.dash, syn.dash]) :
    syn.calls ⟨sc, ops, [], pre ++ w :: rest⟩
      = ((Call.about (sc.length + ops.length + 1 + pre.length) pre.length
            (syn.inWord w rest).1).map (fun c => (c.before, c.event))
          ++ (syn.calls (behind sc (ops ++ pre) w rest (syn.inWord w rest).2)).1,
        (syn.calls (behind sc (ops ++ pre) w rest (syn.inWord w rest).2)).2) := by
  have hskip := syn.skip_before hpermutes hpre rest h
  cases hbody : syn.longBody w with
  | some body =>
      have hnext : syn.next ⟨sc, ops, [], pre ++ w :: rest⟩
          = (some (syn.long body rest).1, behind sc (ops ++ pre) w rest (syn.long body rest).2) := by
        rw [next]
        simp only [hskip, hbody]
      rw [syn.calls_some hnext]
      simp only [inWord, hbody, Call.about_before]
      rfl
  | none =>
      obtain ⟨c, cs, rfl⟩ := syn.isOption_iff.1 h
      have hend' : ¬ (c = syn.dash ∧ cs = []) := by
        rintro ⟨rfl, rfl⟩
        exact hend rfl
      have hnext : syn.next ⟨sc, ops, [], pre ++ (syn.dash :: c :: cs) :: rest⟩
          = syn.next (leave sc (ops ++ pre) (c :: cs) (syn.dash :: c :: cs) rest) := by
        rw [leave, next_inside, next]
        simp only [hskip, hbody]
        rw [syn.toSyntax.next_word rfl, hskip, syn.toSyntax.word_letters hend']
        rfl
      have hinWord : syn.inWord (syn.dash :: c :: cs) rest = syn.letters rest (c :: cs) := by
        rw [inWord, hbody]
        rfl
      obtain ⟨e, es, hletters⟩ := List.exists_cons_of_ne_nil (syn.letters_ne_nil rest c cs)
      have hcalls := syn.calls_leave sc (ops ++ pre) (syn.dash :: c :: cs) rest (c :: cs)
      rw [hinWord, hletters, Call.about_before]
      have hindex : sc.length + (ops ++ pre).length + 1 = sc.length + ops.length + 1 + pre.length := by
        rw [List.length_append]
        omega
      rw [hletters, List.map_cons, hindex] at hcalls
      rw [syn.calls_congr hnext (congrArg Prod.fst hcalls), hcalls]
      rfl

omit hpre in
/-- **The calls are those word by word**, whatever is on the command line; `pre` are operands that are
    still to be skipped. -/
theorem calls_eq (sc ops pre words : List (List α)) (hpre : ∀ w ∈ pre, ¬ syn.isOption w) :
    ∃ final, syn.calls ⟨sc, ops, [], pre ++ words⟩
        = ((syn.reading (sc.length + ops.length + 1 + pre.length) pre.length words).1.map
          (fun c => (c.before, c.event)), final) ∧
      final.operands ++ final.rest = ops ++ pre
        ++ (syn.reading (sc.length + ops.length + 1 + pre.length) pre.length words).2 := by
  induction words using syn.words_induction generalizing sc ops pre with
  | nil =>
      refine ⟨⟨sc, ops ++ pre, [], []⟩, ?_, ?_⟩
      · rw [List.append_nil, syn.calls_operands hpermutes hpre, reading_nil]
        rfl
      · rw [reading_nil]
  | operand w rest hoption ih =>
      have hpre' : ∀ v ∈ pre ++ [w], ¬ syn.isOption v := by
        intro v hv
        rcases List.mem_append.1 hv with hv | hv
        · exact hpre v hv
        · exact List.mem_singleton.1 hv ▸ hoption
      obtain ⟨final, hcalls, hoperands⟩ := ih sc ops (pre ++ [w]) hpre'
      rw [List.length_append, List.length_singleton, ← Nat.add_assoc] at hcalls hoperands
      refine ⟨final, ?_, ?_⟩
      · rw [List.append_assoc, List.singleton_append] at hcalls
        rw [hcalls, syn.reading_operand hoption]
      · rw [hoperands, syn.reading_operand hoption]
        simp only [List.append_assoc, List.singleton_append]
  | dashes rest =>
      refine ⟨⟨sc ++ [[syn.dash, syn.dash]], ops ++ pre, [], rest⟩, ?_, ?_⟩
      · rw [syn.calls_end hpermutes hpre, reading_end]
        rfl
      · rw [reading_end]
  | option w rest hoption hend ih =>
      -- the next word begins behind this one, with no operand in between
      obtain ⟨final, hcalls, hoperands⟩ :=
        ih (sc ++ w :: rest.take (syn.inWord w rest).2) (ops ++ pre) [] (by simp)
      have hindex : (sc ++ w :: rest.take (syn.inWord w rest).2).length + (ops ++ pre).length
          + 1 + ([] : List (List α)).length
            = sc.length + ops.length + 1 + pre.length + 1
              + (rest.take (syn.inWord w rest).2).length := by
        simp only [List.length_append, List.length_cons, List.length_nil]
        omega
      rw [hindex, List.nil_append, List.length_nil] at hcalls
      rw [hindex, List.length_nil, List.append_nil] at hoperands
      refine ⟨final, ?_, ?_⟩
      · rw [syn.calls_option hpermutes hpre hoption hend, behind, hcalls,
          syn.reading_option hoption hend, List.map_append]
      · rw [hoperands, syn.reading_option hoption hend]

end Calls

end LongSyntax

/-! ## The order of the calls -/

/-- The second call is about the same word, or about one behind all operands that are skipped for it. -/
def Call.Precedes (c d : Call α) : Prop :=
  d.element = c.element ∧ d.skipped = c.skipped ∧ d.first = false ∨ c.element + d.skipped < d.element

/-- `optind` has changed between two calls if these are about different words, or if the first one has
    skipped operands. -/
theorem Call.Precedes.before_ne {c d : Call α} (h : c.Precedes d) (hc : c.skipped < c.element) :
    c.before ≠ d.before ↔ c.element ≠ d.element ∨ c.first = true ∧ 0 < c.skipped := by
  have hle : c.before ≤ c.element := by
    unfold Call.before
    split
    · exact Nat.sub_le _ _
    · exact Nat.le_refl _
  rcases h with ⟨helement, _, hfirst⟩ | hlt
  · have hd : d.before = c.element := by
      rw [Call.before, hfirst, helement]
      rfl
    rw [hd, helement, Call.before]
    cases c.first with
    | false => simp
    | true =>
        simp only [if_true, ne_eq, not_true_eq_false, false_or, true_and]
        omega
  · have hd : c.element < d.before := by
      unfold Call.before
      split <;> omega
    exact iff_of_true (by omega) (Or.inl (by omega))

namespace LongSyntax

variable [DecidableEq α] (syn : LongSyntax α)

omit [DecidableEq α] in
theorem mem_about {i skipped : Nat} {c : Call α} {es : List (Event α)}
    (h : c ∈ Call.about i skipped es) : c.element = i ∧ c.skipped = skipped ∧ c.event ∈ es := by
  cases es with
  | nil => cases h
  | cons e es =>
      rcases List.mem_cons.1 h with rfl | h
      · exact ⟨rfl, rfl, List.mem_cons_self⟩
      · obtain ⟨e, he, rfl⟩ := List.mem_map.1 h
        exact ⟨rfl, rfl, List.mem_cons_of_mem _ he⟩

omit [DecidableEq α] in
theorem about_precedes (i skipped : Nat) (es : List (Event α)) :
    (Call.about i skipped es).Pairwise Call.Precedes := by
  cases es with
  | nil => exact List.Pairwise.nil
  | cons e es =>
      refine List.pairwise_cons.2 ⟨fun c hc => ?_, List.pairwise_map.2 ?_⟩
      · obtain ⟨e, _, rfl⟩ := List.mem_map.1 hc
        exact Or.inl ⟨rfl, rfl, rfl⟩
      · exact List.pairwise_of_forall fun _ _ => Or.inl ⟨rfl, rfl, rfl⟩

theorem reading_behind {words : List (List α)} {i skipped : Nat} {c : Call α}
    (hc : c ∈ (syn.reading i skipped words).1) : i + c.skipped ≤ c.element + skipped := by
  induction words using syn.words_induction generalizing i skipped with
  | nil =>
      rw [reading_nil] at hc
      cases hc
  | operand w rest hoption ih =>
      rw [syn.reading_operand hoption] at hc
      have hle := ih hc
      omega
  | dashes rest =>
      rw [reading_end] at hc
      cases hc
  | option w rest hoption hend ih =>
      rw [syn.reading_option hoption hend] at hc
      rcases List.mem_append.1 hc with hc | hc
      · obtain ⟨rfl, rfl, _⟩ := mem_about hc
        exact Nat.le_refl _
      · have hle := ih hc
        omega

theorem reading_precedes (i skipped : Nat) (words : List (List α)) :
    (syn.reading i skipped words).1.Pairwise Call.Precedes := by
  induction words using syn.words_induction generalizing i skipped with
  | nil =>
      rw [reading_nil]
      exact List.Pairwise.nil
  | operand w rest hoption ih =>
      rw [syn.reading_operand hoption]
      exact ih _ _
  | dashes rest =>
      rw [reading_end]
      exact List.Pairwise.nil
  | option w rest hoption hend ih =>
      rw [syn.reading_option hoption hend]
      refine List.pairwise_append.2 ⟨about_precedes _ _ _, ih _ _, fun c hc d hd => Or.inr ?_⟩
      obtain ⟨rfl, rfl, _⟩ := mem_about hc
      have hle := syn.reading_behind hd
      omega

/-! ## What is found -/

/-- The option is one of the syntax, with a value if it takes one. -/
def Known : Event α → Prop
  | .letter (.flag c) => syn.takes c = some false
  | .letter (.value c _) => syn.takes c = some true
  | .long o value => o ∈ syn.options ∧ value.isSome = o.takes
  | _ => True

theorem long_known (body : List α) (rest : List (List α)) : syn.Known (syn.long body rest).1 := by
  unfold long
  dsimp only
  split
  · trivial
  · trivial
  · next o hfound =>
      have hoption := (lookup_found hfound).1
      split
      · next htakes => exact ⟨hoption, by rw [htakes]; rfl⟩
      · trivial
      · next htakes => exact ⟨hoption, by rw [htakes]; rfl⟩
      · next htakes =>
          split
          · exact ⟨hoption, by rw [htakes]; rfl⟩
          · trivial

omit [DecidableEq α] in
theorem letters_known (rest : List (List α)) (cs : List α) :
    ∀ e ∈ (syn.letters rest cs).1, syn.Known e := by
  induction cs with
  | nil => simp [letters]
  | cons c cs ih =>
      cases htakes : syn.takes c with
      | none =>
          simp only [letters, htakes]
          exact List.forall_mem_cons.2 ⟨trivial, ih⟩
      | some b =>
          cases b with
          | false =>
              simp only [letters, htakes]
              exact List.forall_mem_cons.2 ⟨htakes, ih⟩
          | true => cases cs <;> cases rest <;> simp [letters, htakes, Known]

theorem inWord_known (w : List α) (rest : List (List α)) :
    ∀ e ∈ (syn.inWord w rest).1, syn.Known e := by
  unfold inWord
  split
  · exact fun e he => List.mem_singleton.1 he ▸ syn.long_known _ rest
  · exact syn.letters_known rest w.tail

theorem reading_known (i skipped : Nat) (words : List (List α)) :
    ∀ c ∈ (syn.reading i skipped words).1, syn.Known c.event := by
  induction words using syn.words_induction generalizing i skipped with
  | nil =>
      rw [reading_nil]
      exact fun c hc => absurd hc List.not_mem_nil
  | operand w rest hoption ih =>
      rw [syn.reading_operand hoption]
      exact ih _ _
  | dashes rest =>
      rw [reading_end]
      exact fun c hc => absurd hc List.not_mem_nil
  | option w rest hoption hend ih =>
      rw [syn.reading_option hoption hend]
      intro c hc
      rcases List.mem_append.1 hc with hc | hc
      · exact syn.inWord_known w rest _ (mem_about hc).2.2
      · exact ih _ _ c hc

end LongSyntax

end LinuxSamples.LongOptions
