import Mathlib.Data.List.Infix

set_option autoImplicit false

/-! # Patterns with wildcards

A pattern over any alphabet is a list of parts: a wildcard that matches any text, or a test for one
letter. `needs` is the length of the shortest texts that fit, and every text that fits contains one
of that length. -/

namespace LinuxSamples.Text

variable {α : Type}

inductive Wild (α : Type)
  /-- Any text. -/
  | any
  /-- One letter that passes the test. -/
  | one (accepts : α → Bool)

/-- The whole text matches the pattern. -/
def fits : List (Wild α) → List α → Bool
  | [], text => text.isEmpty
  | .any :: parts, text => text.tails.any fun rest => fits parts rest
  | .one _ :: _, [] => false
  | .one accepts :: parts, c :: text => accepts c && fits parts text

/-- How many letters a text has at least that fits. -/
def needs : List (Wild α) → Nat
  | [] => 0
  | .any :: parts => needs parts
  | .one _ :: parts => needs parts + 1

/-- The test for one letter. -/
def Wild.letter [DecidableEq α] (c : α) : Wild α := .one fun d => d = c

theorem fits_any {parts : List (Wild α)} {text : List α} :
    fits (.any :: parts) text = true ↔ ∃ rest, rest <:+ text ∧ fits parts rest = true := by
  simp only [fits, List.any_eq_true, List.mem_tails]

theorem fits_one {accepts : α → Bool} {parts : List (Wild α)} {text : List α} :
    fits (.one accepts :: parts) text = true ↔
      ∃ c rest, text = c :: rest ∧ accepts c = true ∧ fits parts rest = true := by
  cases text with
  | nil => simp [fits]
  | cons c rest => simp [fits]

theorem fits_one_cons {accepts : α → Bool} {parts : List (Wild α)} {c : α} {text : List α} :
    fits (.one accepts :: parts) (c :: text) = true ↔ accepts c = true ∧ fits parts text = true := by
  rw [fits, Bool.and_eq_true]

theorem needs_cons_le (part : Wild α) (parts : List (Wild α)) :
    needs (part :: parts) ≤ needs parts + 1 := by
  cases part with
  | any => exact Nat.le_succ _
  | one accepts => exact Nat.le_refl _

/-- **The wildcards can be left empty**: the other letters of a text that fits make a text that fits. -/
theorem exists_sublist_fits {parts : List (Wild α)} {text : List α} (h : fits parts text = true) :
    ∃ t : List α, t.Sublist text ∧ t.length = needs parts ∧ fits parts t = true := by
  induction parts generalizing text with
  | nil => exact ⟨[], List.nil_sublist text, rfl, rfl⟩
  | cons part parts ih =>
      cases part with
      | any =>
          obtain ⟨rest, hrest, hfits⟩ := fits_any.1 h
          obtain ⟨t, hsub, hlen, ht⟩ := ih hfits
          exact ⟨t, hsub.trans hrest.sublist, hlen, fits_any.2 ⟨t, List.suffix_refl t, ht⟩⟩
      | one accepts =>
          obtain ⟨c, rest, rfl, hc, hfits⟩ := fits_one.1 h
          obtain ⟨t, hsub, hlen, ht⟩ := ih hfits
          refine ⟨c :: t, hsub.cons_cons c, ?_, fits_one_cons.2 ⟨hc, ht⟩⟩
          rw [List.length_cons, hlen, needs]

/-- Letters with a wildcard behind them. -/
theorem fits_letters [DecidableEq α] {word text : List α} :
    fits (word.map Wild.letter ++ [.any]) text = true ↔ word <+: text := by
  induction word generalizing text with
  | nil =>
      refine iff_of_true (fits_any.2 ⟨[], List.nil_suffix, rfl⟩) List.nil_prefix
  | cons c word ih =>
      rw [List.map_cons, List.cons_append, Wild.letter, fits_one]
      constructor
      · rintro ⟨d, rest, rfl, hd, hfits⟩
        rw [decide_eq_true_iff] at hd
        subst hd
        exact List.cons_prefix_cons.2 ⟨rfl, ih.1 hfits⟩
      · rintro ⟨rest, rfl⟩
        exact ⟨c, word ++ rest, rfl, decide_eq_true rfl, ih.2 (List.prefix_append word rest)⟩

end LinuxSamples.Text
