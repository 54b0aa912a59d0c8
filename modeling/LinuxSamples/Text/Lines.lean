import Mathlib.Data.List.Basic

set_option autoImplicit false

/-! # Lines

A text over any alphabet is split at the occurrences of a separator. What follows the last separator
is a line only if it is not empty, so that a text may end with or without a separator. -/

namespace LinuxSamples.Text

variable {α : Type} [DecidableEq α] {nl : α} {line : List α}

def splitLines (nl : α) : List α → List (List α)
  | [] => []
  | b :: bs =>
      if b = nl then [] :: splitLines nl bs
      else
        match splitLines nl bs with
        | [] => [[b]]
        | line :: rest => (b :: line) :: rest

/-- A line with its separator. -/
theorem splitLines_line (h : nl ∉ line) (rest : List α) :
    splitLines nl (line ++ nl :: rest) = line :: splitLines nl rest := by
  induction line with
  | nil => simp [splitLines]
  | cons b line ih =>
      simp only [List.mem_cons, not_or] at h
      simp [splitLines, Ne.symm h.1, ih h.2]

/-- A line without a separator. -/
theorem splitLines_last (h : nl ∉ line) (hne : line ≠ []) : splitLines nl line = [line] := by
  induction line with
  | nil => exact absurd rfl hne
  | cons b line ih =>
      simp only [List.mem_cons, not_or] at h
      rcases line with _ | ⟨c, line⟩
      · simp [splitLines, Ne.symm h.1]
      · rw [splitLines, if_neg (Ne.symm h.1), ih h.2 (by simp)]

/-- Only the empty text has no lines. -/
theorem splitLines_eq_nil {text : List α} (h : splitLines nl text = []) : text = [] := by
  cases text with
  | nil => rfl
  | cons b text =>
      unfold splitLines at h
      split at h
      · cases h
      · split at h <;> cases h

theorem notMem_of_mem_splitLines {text : List α} : line ∈ splitLines nl text → nl ∉ line := by
  induction text generalizing line with
  | nil => simp [splitLines]
  | cons b text ih =>
      intro h
      unfold splitLines at h
      split at h
      · rcases List.mem_cons.1 h with rfl | h
        · exact List.not_mem_nil
        · exact ih h
      · next hb =>
          split at h
          · rw [List.mem_singleton] at h
            subst h
            simpa using Ne.symm hb
          · next first rest hsplit =>
              rw [hsplit] at ih
              rcases List.mem_cons.1 h with rfl | h
              · simp only [List.mem_cons, not_or]
                exact ⟨Ne.symm hb, ih List.mem_cons_self⟩
              · exact ih (List.mem_cons_of_mem first h)

/-- Two sequences of lines share out the lines of a third: each line goes to one of them, and both
    keep the order. -/
def Partition (lines xs ys : List (List α)) : Prop :=
  ∃ p : List α → Bool, xs = lines.filter p ∧ ys = lines.filter fun line => !p line

omit [DecidableEq α] in
theorem Partition.mem {lines xs ys : List (List α)} (h : Partition lines xs ys)
    (hline : line ∈ lines) : line ∈ xs ∨ line ∈ ys := by
  obtain ⟨p, rfl, rfl⟩ := h
  cases hp : p line with
  | true => exact Or.inl (List.mem_filter.2 ⟨hline, hp⟩)
  | false => exact Or.inr (List.mem_filter.2 ⟨hline, by simp [hp]⟩)

end LinuxSamples.Text
