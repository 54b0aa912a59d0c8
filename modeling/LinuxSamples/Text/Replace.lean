import Mathlib.Data.List.Infix
import Mathlib.Tactic.Common

set_option autoImplicit false

/-! # Replacing a text in a text

Every occurrence of `src` is replaced by `dst`, from the left, where those that overlap one before are
left alone. If `dst` has no letter of `src`, then nothing is left to be replaced. -/

namespace LinuxSamples.Text

variable {α : Type} {src dst : List α}

theorem infix_of_infix_append {new l : List α} (hsrc : src ≠ []) (hfresh : ∀ a ∈ new, a ∉ src)
    (h : src <:+: new ++ l) : src <:+: l := by
  induction new with
  | nil => exact h
  | cons d new ih =>
      rw [List.cons_append, List.infix_cons_iff] at h
      rcases h with h | h
      · obtain ⟨b, s, rfl⟩ := List.exists_cons_of_ne_nil hsrc
        rw [List.cons_prefix_cons] at h
        exact absurd (h.1 ▸ List.mem_cons_self) (hfresh d List.mem_cons_self)
      · exact ih (fun a ha => hfresh a (List.mem_cons_of_mem _ ha)) h

variable [DecidableEq α]

/-- The first `skip` letters belong to what was replaced. -/
def replaceFrom (src dst : List α) : Nat → List α → List α
  | _, [] => []
  | skip + 1, _ :: l => replaceFrom src dst skip l
  | 0, a :: l =>
      if src.isPrefixOf (a :: l) then dst ++ replaceFrom src dst (src.length - 1) l
      else a :: replaceFrom src dst 0 l

def replaceAll (src dst l : List α) : List α := replaceFrom src dst 0 l

theorem replaceFrom_skip (n : Nat) (l : List α) :
    replaceFrom src dst n l = replaceAll src dst (l.drop n) := by
  induction l generalizing n with
  | nil => cases n <;> rfl
  | cons a l ih =>
      cases n with
      | zero => rfl
      | succ n => exact ih n

@[simp] theorem replaceAll_nil : replaceAll src dst [] = [] := rfl

/-- An occurrence at the front. -/
theorem replaceAll_append (hne : src ≠ []) (l : List α) :
    replaceAll src dst (src ++ l) = dst ++ replaceAll src dst l := by
  obtain ⟨a, s, rfl⟩ := List.exists_cons_of_ne_nil hne
  have hfront : (a :: s).isPrefixOf (a :: (s ++ l)) = true :=
    List.isPrefixOf_iff_prefix.2 (List.prefix_append (a :: s) l)
  rw [List.cons_append, replaceAll, replaceFrom, if_pos hfront, replaceFrom_skip, List.length_cons,
    Nat.add_sub_cancel, List.drop_left]

/-- A letter that no occurrence begins with. -/
theorem replaceAll_cons {a : α} {l : List α} (h : ¬ src <+: a :: l) :
    replaceAll src dst (a :: l) = a :: replaceAll src dst l := by
  rw [replaceAll, replaceFrom, if_neg fun hfront => h (List.isPrefixOf_iff_prefix.1 hfront)]
  rfl

/-- A text is replaced letter by letter, or an occurrence at a time. -/
theorem replace_induction (hne : src ≠ []) {P : List α → Prop} (nil : P [])
    (occurrence : ∀ l, P l → P (src ++ l)) (letter : ∀ a l, ¬ src <+: a :: l → P l → P (a :: l)) :
    ∀ l, P l := by
  intro l
  induction hn : l.length using Nat.strong_induction_on generalizing l with
  | _ n ih =>
      cases l with
      | nil => exact nil
      | cons a l =>
          by_cases h : src <+: a :: l
          · obtain ⟨rest, hrest⟩ := h
            have hlength := congrArg List.length hrest
            rw [List.length_append, hn] at hlength
            have hpos := List.length_pos_iff.2 hne
            rw [← hrest]
            exact occurrence rest (ih rest.length (by omega) rest rfl)
          · exact letter a l h (ih l.length (by rw [← hn]; exact Nat.lt_succ_self _) l rfl)

theorem replaceAll_of_not_infix {l : List α} (h : ¬ src <:+: l) : replaceAll src dst l = l := by
  induction l with
  | nil => rfl
  | cons a l ih =>
      rw [replaceAll_cons fun hfront => h hfront.isInfix,
        ih fun hrest => h (hrest.trans (List.suffix_cons a l).isInfix)]

/-- An occurrence does not go past a letter that is not in it, so that what stands on both sides of it
    is replaced by itself. -/
theorem replaceAll_append_cons (hne : src ≠ []) {sep : α} (hsep : sep ∉ src) (l rest : List α) :
    replaceAll src dst (l ++ sep :: rest)
      = replaceAll src dst l ++ sep :: replaceAll src dst rest := by
  induction l using replace_induction hne with
  | nil =>
      refine replaceAll_cons fun h => ?_
      obtain ⟨a, s, rfl⟩ := List.exists_cons_of_ne_nil hne
      rw [List.cons_prefix_cons] at h
      exact hsep (h.1 ▸ List.mem_cons_self)
  | occurrence l ih =>
      rw [List.append_assoc, replaceAll_append hne, ih, replaceAll_append hne, List.append_assoc]
  | letter a l hfront ih =>
      have hfront' : ¬ src <+: a :: (l ++ sep :: rest) := by
        rintro ⟨t, ht⟩
        rw [← List.cons_append] at ht
        rcases List.append_eq_append_iff.1 ht with ⟨m, hm, _⟩ | ⟨m, hm, hsep'⟩
        · exact hfront ⟨m, hm.symm⟩
        · cases m with
          | nil => exact hfront ⟨[], by rw [hm, List.append_nil, List.append_nil]⟩
          | cons b m =>
              obtain ⟨rfl, _⟩ := List.cons.inj hsep'
              exact hsep (hm ▸ List.mem_append_right _ List.mem_cons_self)
      rw [List.cons_append, replaceAll_cons hfront', ih, replaceAll_cons hfront]
      rfl

/-! ## A new text without letters of the old one -/

section Fresh

variable (hsrc : src ≠ []) (hdst : dst ≠ []) (hfresh : ∀ a ∈ dst, a ∉ src)
include hsrc hdst hfresh

/-- Letters of the old text at the front of the result were there before. -/
theorem prefix_of_prefix_replaceAll {s l : List α} (hs : s ⊆ src) (h : s <+: replaceAll src dst l) :
    s <+: l := by
  induction l using replace_induction hsrc generalizing s with
  | nil => exact h
  | occurrence l ih =>
      rw [replaceAll_append hsrc] at h
      cases s with
      | nil => exact List.nil_prefix
      | cons b s =>
          obtain ⟨d, ds, rfl⟩ := List.exists_cons_of_ne_nil hdst
          rw [List.cons_append, List.cons_prefix_cons] at h
          obtain ⟨rfl, _⟩ := h
          exact absurd (hs List.mem_cons_self) (hfresh b List.mem_cons_self)
  | letter a l hfront ih =>
      rw [replaceAll_cons hfront] at h
      cases s with
      | nil => exact List.nil_prefix
      | cons b s =>
          rw [List.cons_prefix_cons] at h ⊢
          exact ⟨h.1, ih (fun c hc => hs (List.mem_cons_of_mem _ hc)) h.2⟩

/-- Nothing is left to be replaced. -/
theorem not_infix_replaceAll (l : List α) : ¬ src <:+: replaceAll src dst l := by
  induction l using replace_induction hsrc with
  | nil => exact fun h => hsrc (List.infix_nil.1 h)
  | occurrence l ih =>
      rw [replaceAll_append hsrc]
      exact fun h => ih (infix_of_infix_append hsrc hfresh h)
  | letter a l hfront ih =>
      rw [replaceAll_cons hfront, List.infix_cons_iff]
      rintro (h | h)
      · refine hfront (prefix_of_prefix_replaceAll hsrc hdst hfresh (List.Subset.refl src) (l := a :: l) ?_)
        rwa [replaceAll_cons hfront]
      · exact ih h

end Fresh

end LinuxSamples.Text
