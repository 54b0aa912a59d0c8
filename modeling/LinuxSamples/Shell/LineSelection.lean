import LinuxSamples.Shell.Glob

set_option autoImplicit false

/-! # Which lines the log scripts select

The comments of both scripts speak of the lines that contain the given string. The string is expanded
into a pattern, though: for strings without special characters the scripts select these lines, for
every other string there is a line on which they go wrong. -/

namespace LinuxSamples.LogScripts

open LinuxSamples.Text LinuxSamples.Glob

variable {string line : Bytes}

/-! ## The shortest suffix -/

/-- Something is removed if a suffix matches and the empty one does not. -/
theorem removeSuffix_ne {glob : Bytes → Bytes → Bool} {pattern : Bytes} :
    removeSuffix glob pattern line ≠ line ↔
      glob pattern [] = false ∧ ∃ rest, rest <:+ line ∧ glob pattern rest = true := by
  unfold removeSuffix
  rw [List.range_succ, List.reverse_append, List.reverse_singleton, List.singleton_append,
    List.find?_cons, List.drop_length]
  cases hempty : glob pattern [] with
  | true => simp
  | false =>
      simp only [true_and]
      cases hfind : (List.range line.length).reverse.find? fun k => glob pattern (line.drop k) with
      | none =>
          refine iff_of_false (fun h => h rfl) ?_
          rintro ⟨rest, ⟨front, rfl⟩, hrest⟩
          have hne : rest ≠ [] := by
            rintro rfl
            rw [hempty] at hrest
            cases hrest
          have hlt : front.length < (front ++ rest).length := by
            rw [List.length_append]
            exact Nat.lt_add_of_pos_right (List.length_pos_iff.2 hne)
          have hno := List.find?_eq_none.1 hfind front.length
            (List.mem_reverse.2 (List.mem_range.2 hlt))
          rw [List.drop_left] at hno
          exact hno hrest
      | some k =>
          have hk := List.mem_range.1 (List.mem_reverse.1 (List.mem_of_find?_eq_some hfind))
          have hmatch := List.find?_some hfind
          refine iff_of_true (fun h => ?_) ⟨line.drop k, List.drop_suffix k line, hmatch⟩
          have hlen := congrArg List.length h
          rw [List.length_take] at hlen
          omega

theorem differs_iff {glob : Bytes → Bytes → Bool} : differs glob string line = true ↔
    glob (string ++ [star]) [] = false ∧ ∃ rest, rest <:+ line ∧ glob (string ++ [star]) rest = true := by
  have hstar : text "*" = [star] := by decide
  rw [differs, decide_eq_true_iff, hstar, ne_comm, removeSuffix_ne]

/-! ## Strings without special characters -/

theorem glob_plain (locale : LocaleRules) (hplain : isPlain string = true) :
    glob locale (string ++ [star]) line = true ↔ string <+: line := by
  obtain ⟨hstar, hquestion, hopen⟩ := isPlain_iff.1 hplain
  have hparts : (elements 0 (string ++ [star])).map (Element.part locale)
      = string.map Wild.letter ++ [.any] := by
    rw [elements_single hstar hopen, List.map_append, List.map_map]
    congr 1
    refine List.map_congr_left fun c hc => ?_
    have hne : c ≠ question := fun he => hquestion (he ▸ hc)
    rw [Function.comp_apply, single, if_neg hne]
    rfl
  rw [glob, hparts, fits_letters]

/-- The scripts look for a plain string everywhere in a line. -/
theorem differs_plain (locale : LocaleRules) (hplain : isPlain string = true) (hne : string ≠ []) :
    differs (glob locale) string line = true ↔ string <:+: line := by
  rw [differs_iff, List.infix_iff_prefix_suffix]
  have hempty : glob locale (string ++ [star]) [] = false := by
    rw [Bool.eq_false_iff, ne_eq, glob_plain locale hplain, List.prefix_nil]
    exact hne
  rw [and_iff_right hempty]
  constructor
  · rintro ⟨rest, hrest, hglob⟩
    exact ⟨rest, (glob_plain locale hplain).1 hglob, hrest⟩
  · rintro ⟨rest, hglob, hrest⟩
    exact ⟨rest, hrest, (glob_plain locale hplain).2 hglob⟩

/-! ## Strings with special characters -/

/-- Bytes that can stand in a line of a log and in an argument of a script. -/
def Textual (bytes : Bytes) : Prop := 0 ∉ bytes ∧ newline ∉ bytes

theorem Textual.of_subset {t : Bytes} (h : Textual string) (ht : t ⊆ string) : Textual t :=
  ⟨fun hmem => h.1 (ht hmem), fun hmem => h.2 (ht hmem)⟩

/-- Another byte for every question mark. -/
def replaceQuestion (c : UInt8) : UInt8 := if c = question then 97 else c

theorem replaceQuestion_ne (c : UInt8) : replaceQuestion c ≠ question := by
  unfold replaceQuestion
  split
  · decide
  · next hne => exact hne

theorem Textual.replace (h : Textual string) : Textual (string.map replaceQuestion) := by
  have hkeep : ∀ d : UInt8, d ≠ 97 → d ∈ string.map replaceQuestion → d ∈ string := by
    intro d hd hmem
    obtain ⟨c, hc, rfl⟩ := List.mem_map.1 hmem
    unfold replaceQuestion at hd ⊢
    split
    · next hquestion => exact absurd (if_pos hquestion) hd
    · exact hc
  exact ⟨fun hmem => h.1 (hkeep 0 (by decide) hmem), fun hmem => h.2 (hkeep _ (by decide) hmem)⟩

/-- A question mark matches the other byte as well. -/
theorem glob_replaceQuestion (locale : LocaleRules) (hstar : star ∉ string) (hopen : Open string) :
    glob locale (string ++ [star]) (string.map replaceQuestion) = true := by
  rw [glob, elements_single hstar hopen]
  clear hstar hopen
  induction string with
  | nil => rfl
  | cons c string ih =>
      rw [List.map_cons, List.cons_append, List.map_cons, List.map_cons]
      unfold single replaceQuestion
      split
      · exact fits_one_cons.2 ⟨rfl, ih⟩
      · exact fits_one_cons.2 ⟨decide_eq_true rfl, ih⟩

/-- **Only for plain strings** does the first script select the lines that contain the string. -/
theorem isPlain_of_selects (locale : LocaleRules) (hne : string ≠ []) (htext : Textual string)
    (h : ∀ line, Textual line → (differs (glob locale) string line = true ↔ string <:+: line)) :
    isPlain string = true := by
  -- a line that the pattern matches is selected, as the pattern does not match the empty text
  obtain ⟨hempty, rest, hrest, hglob⟩ := differs_iff.1 ((h string htext).2 (List.infix_refl string))
  have hselect : ∀ line, Textual line → glob locale (string ++ [star]) line = true →
      string <:+: line := fun line hline hmatch =>
    (h line hline).1 (differs_iff.2 ⟨hempty, line, List.suffix_refl line, hmatch⟩)
  -- the shortest match within the string itself can only be the string
  obtain ⟨t, hsub, hlen, hmatch⟩ := exists_sublist_fits hglob
  have hsub' : t.Sublist string := hsub.trans hrest.sublist
  have hle := (hselect t (htext.of_subset hsub'.subset) hmatch).length_le
  obtain rfl : t = string := hsub'.eq_of_length_le hle
  obtain ⟨hstar, hopen⟩ := open_of_fits locale hmatch (Nat.le_of_eq hlen)
  refine isPlain_iff.2 ⟨hstar, fun hquestion => ?_, hopen⟩
  have hinfix := hselect _ htext.replace (glob_replaceQuestion locale hstar hopen)
  have hsame := hinfix.eq_of_length (by rw [List.length_map])
  rw [hsame] at hquestion
  obtain ⟨c, _, hc⟩ := List.mem_map.1 hquestion
  exact replaceQuestion_ne c hc

/-! ## Both tests -/

/-- The tests of both scripts on a line are those for the string. -/
def SelectsString (locale : LocaleRules) (string line : Bytes) : Prop :=
  (differs (glob locale) string line = true ↔ string <:+: line) ∧
    (agrees (glob locale) string line = true ↔ ¬ string <:+: line)

/-- **Line selection**: the scripts select the lines with and without the given string exactly if the
    string is plain. -/
theorem line_selection (locale : LocaleRules) (hne : string ≠ []) (htext : Textual string) :
    (∀ line, Textual line → SelectsString locale string line) ↔ isPlain string = true := by
  constructor
  · exact fun h => isPlain_of_selects locale hne htext fun line hline => (h line hline).1
  · intro hplain line _
    have hdiffers : differs (glob locale) string line = true ↔ string <:+: line :=
      differs_plain locale hplain hne
    refine ⟨hdiffers, ?_⟩
    rw [agrees_eq_not_differs, Bool.not_eq_true', ← hdiffers, Bool.not_eq_true]

/-- The string is `e[`, where nothing closes the bracket, and the line is `see[1]`. -/
theorem line_selection_bracket : SelectsString posix (text "e[") (text "see[1]") :=
  (line_selection posix (by decide) ⟨by decide, by decide⟩).2 (by decide) (text "see[1]")
    ⟨by decide, by decide⟩

/-- The string is `[E]`, the line is `Exit`: the pattern matches an `E` without brackets. -/
theorem line_selection_goes_wrong : differs (glob posix) (text "[E]") (text "Exit") = true ∧
    agrees (glob posix) (text "[E]") (text "Exit") = false ∧ ¬ text "[E]" <:+: text "Exit" ∧
      ¬ ∀ line, Textual line → SelectsString posix (text "[E]") line := by
  have hdiffers : differs (glob posix) (text "[E]") (text "Exit") = true := by decide
  have hinfix : ¬ text "[E]" <:+: text "Exit" := by decide
  refine ⟨hdiffers, by decide, hinfix, fun h => ?_⟩
  exact hinfix ((h (text "Exit") ⟨by decide, by decide⟩).1.1 hdiffers)

/-- What the scripts write, for a plain string: the lines that contain it, and the others. -/
theorem scripts_plain (locale : LocaleRules) (self : Bytes) {log new : Bytes} {files : Files}
    {content : Bytes} (hplain : isPlain string = true) (hne : string ≠ [])
    (hlog : files log = some content) (htext : 0 ∉ content) (hnew : new ≠ log) :
    linesOf (extractLines (glob locale) self [log, string, new] files).files new
        = ((linesOf files log).filter fun line => string <:+: line).flatMap echoed ∧
      linesOf (deleteLines (glob locale) self [log, string, new] files).files new
        = ((linesOf files log).filter fun line => ¬ string <:+: line).flatMap echoed := by
  have hdiffers : differs (glob locale) string = fun line => decide (string <:+: line) := by
    funext line
    rw [Bool.eq_iff_iff, decide_eq_true_iff]
    exact differs_plain locale hplain hne
  have hagrees : agrees (glob locale) string = fun line => decide (¬ string <:+: line) := by
    funext line
    rw [agrees_eq_not_differs, hdiffers, decide_not]
  rw [← hdiffers, ← hagrees]
  exact ⟨(analysisLogFile_files _ self string hlog htext hnew).1,
    (analysisLogFile_files _ self string hlog htext hnew).1⟩

end LinuxSamples.LogScripts
