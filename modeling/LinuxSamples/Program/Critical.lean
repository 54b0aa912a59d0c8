import LinuxSamples.Program.Runs
import Mathlib.Algebra.BigOperators.Group.Finset.Basic
import Mathlib.Data.Fintype.Card

set_option autoImplicit false

/-! # Critical sections

Any number of processes work on a shared state. Each does some steps on its own, waits for a token,
does the steps of its critical section, gives the token back and does some more steps on its own.
There is one token: a mutex, or a semaphore that starts at 1.

`Serial` says that such a run looks like one without interleaving: up to what the steps outside the
sections may change (what a `view` of the shared state does not show), the shared state is that of
the sections carried out one after the other, whole, in the order in which the token was taken. -/

namespace LinuxSamples.Program

variable {ι σ ρ : Type} [DecidableEq ι]

/-! ## The system -/

/-- The atomic steps of a process before, inside and after its critical section. -/
structure Sectioned (σ : Type) where
  before : List (σ → σ)
  inside : List (σ → σ)
  after : List (σ → σ)

/-- Where a process is, and how many steps of that part it has taken. -/
inductive Place
  | before (k : Nat)
  | inside (k : Nat)
  | after (k : Nat)
  deriving DecidableEq, Repr

/-- How many steps a process has left, counting those that take and give back the token. -/
def Sectioned.left (c : Sectioned σ) : Place → Nat
  | .before k => c.before.length - k + c.inside.length + c.after.length + 2
  | .inside k => c.inside.length - k + c.after.length + 1
  | .after k => c.after.length - k

/-- The shared state, the value of the semaphore and the processes. -/
structure Guarded (ι σ : Type) where
  shared : σ
  tokens : Nat
  place : ι → Place

namespace Guarded

def set (w : Guarded ι σ) (i : ι) (p : Place) : Guarded ι σ :=
  { w with place := Function.update w.place i p }

/-- The next step of process `i`, if it can take one. -/
def step (code : ι → Sectioned σ) (w : Guarded ι σ) (i : ι) : Option (Guarded ι σ) :=
  match w.place i with
  | .before k =>
      match (code i).before[k]? with
      | some f => some ({ w with shared := f w.shared }.set i (.before (k + 1)))
      | none =>
          if 0 < w.tokens then some ({ w with tokens := w.tokens - 1 }.set i (.inside 0)) else none
  | .inside k =>
      match (code i).inside[k]? with
      | some f => some ({ w with shared := f w.shared }.set i (.inside (k + 1)))
      | none => some ({ w with tokens := w.tokens + 1 }.set i (.after 0))
  | .after k =>
      (code i).after[k]?.map fun f => { w with shared := f w.shared }.set i (.after (k + 1))

/-- No process has taken a step, and the token is free. -/
def start (s₀ : σ) : Guarded ι σ := ⟨s₀, 1, fun _ => .before 0⟩

/-- The states of all interleavings. -/
def Reachable (code : ι → Sectioned σ) (s₀ : σ) (w : Guarded ι σ) : Prop :=
  Interleaved (step code) (fun _ _ => True) (start s₀) w

/-- The process has done everything. -/
def Finished (code : ι → Sectioned σ) (w : Guarded ι σ) (i : ι) : Prop :=
  (code i).left (w.place i) = 0

instance (code : ι → Sectioned σ) (w : Guarded ι σ) (i : ι) : Decidable (w.Finished code i) :=
  inferInstanceAs (Decidable (_ = _))

@[simp] theorem set_shared (w : Guarded ι σ) (i : ι) (p : Place) : (w.set i p).shared = w.shared :=
  rfl

@[simp] theorem set_tokens (w : Guarded ι σ) (i : ι) (p : Place) : (w.set i p).tokens = w.tokens :=
  rfl

@[simp] theorem set_place_self (w : Guarded ι σ) (i : ι) (p : Place) : (w.set i p).place i = p :=
  Function.update_self ..

theorem set_place_other (w : Guarded ι σ) {i j : ι} (h : j ≠ i) (p : Place) :
    (w.set i p).place j = w.place j := Function.update_of_ne h ..

/-- The ways a process can go on. -/
inductive Move (code : ι → Sectioned σ) (w : Guarded ι σ) (i : ι) : Guarded ι σ → Prop
  | before (k : Nat) (f : σ → σ) : w.place i = .before k → (code i).before[k]? = some f →
      Move code w i ({ w with shared := f w.shared }.set i (.before (k + 1)))
  | enter (k : Nat) : w.place i = .before k → (code i).before[k]? = none → 0 < w.tokens →
      Move code w i ({ w with tokens := w.tokens - 1 }.set i (.inside 0))
  | inside (k : Nat) (f : σ → σ) : w.place i = .inside k → (code i).inside[k]? = some f →
      Move code w i ({ w with shared := f w.shared }.set i (.inside (k + 1)))
  | leave (k : Nat) : w.place i = .inside k → (code i).inside[k]? = none →
      Move code w i ({ w with tokens := w.tokens + 1 }.set i (.after 0))
  | after (k : Nat) (f : σ → σ) : w.place i = .after k → (code i).after[k]? = some f →
      Move code w i ({ w with shared := f w.shared }.set i (.after (k + 1)))

theorem step_move {code : ι → Sectioned σ} {w w' : Guarded ι σ} {i : ι}
    (h : step code w i = some w') : Move code w i w' := by
  unfold step at h
  cases hplace : w.place i with
  | before k =>
      cases hstep : (code i).before[k]? with
      | some f =>
          simp only [hplace, hstep, Option.some.injEq] at h
          subst h
          exact Move.before k f hplace hstep
      | none =>
          simp only [hplace, hstep, Option.ite_none_right_eq_some, Option.some.injEq] at h
          obtain ⟨htokens, rfl⟩ := h
          exact Move.enter k hplace hstep htokens
  | inside k =>
      cases hstep : (code i).inside[k]? with
      | some f =>
          simp only [hplace, hstep, Option.some.injEq] at h
          subst h
          exact Move.inside k f hplace hstep
      | none =>
          simp only [hplace, hstep, Option.some.injEq] at h
          subst h
          exact Move.leave k hplace hstep
  | after k =>
      simp only [hplace, Option.map_eq_some_iff] at h
      obtain ⟨f, hstep, rfl⟩ := h
      exact Move.after k f hplace hstep

/-- A step of another process leaves a process where it is. -/
theorem Move.place_other {code : ι → Sectioned σ} {w w' : Guarded ι σ} {i j : ι}
    (hmove : Move code w i w') (hji : j ≠ i) : w'.place j = w.place j := by
  cases hmove <;> exact set_place_other _ hji _

end Guarded

/-! ## Sections one after the other -/

/-- Steps one after the other. -/
def perform (fs : List (σ → σ)) (s : σ) : σ := fs.foldl (fun s f => f s) s

/-- The sections of some processes, whole and in this order. -/
def inOrder (code : ι → Sectioned σ) (order : List ι) (s : σ) : σ :=
  order.foldl (fun s i => perform (code i).inside s) s

omit [DecidableEq ι] in
theorem inOrder_concat (code : ι → Sectioned σ) (order : List ι) (i : ι) (s : σ) :
    inOrder code (order ++ [i]) s = perform (code i).inside (inOrder code order s) := by
  rw [inOrder, List.foldl_append]
  rfl

theorem perform_take_succ {fs : List (σ → σ)} {k : Nat} {f : σ → σ} (h : fs[k]? = some f) (s : σ) :
    perform (fs.take (k + 1)) s = f (perform (fs.take k) s) := by
  rw [perform, List.take_add_one, h, Option.toList_some, List.foldl_append]
  rfl

/-- What the steps outside the sections do not touch, and those inside determine. -/
structure Shows (view : σ → ρ) (c : Sectioned σ) : Prop where
  before : ∀ f ∈ c.before, ∀ s, view (f s) = view s
  inside : ∀ f ∈ c.inside, ∀ s s', view s = view s' → view (f s) = view (f s')
  after : ∀ f ∈ c.after, ∀ s, view (f s) = view s

/-- What was shown by a section begun by a process that has taken `k` of its steps. -/
def begun (code : ι → Sectioned σ) (s : σ) : Option (ι × Nat) → σ
  | none => s
  | some (i, k) => perform ((code i).inside.take k) s

namespace Guarded

/-- The sections of `order` are over, the one of `current` is begun, and nobody else has taken the
    token. -/
structure Serial (code : ι → Sectioned σ) (view : σ → ρ) (s₀ : σ) (w : Guarded ι σ)
    (order : List ι) (current : Option (ι × Nat)) : Prop where
  nodup : order.Nodup
  ended : ∀ i, i ∈ order ↔ ∃ k, w.place i = .after k
  holder : ∀ i k, w.place i = .inside k ↔ current = some (i, k)
  tokens : w.tokens = if current = none then 1 else 0
  shows : view w.shared = view (begun code (inOrder code order s₀) current)

variable {code : ι → Sectioned σ} {view : σ → ρ} {s₀ : σ} {w w' : Guarded ι σ} {i j : ι}
  {order : List ι} {current : Option (ι × Nat)}

omit [DecidableEq ι] in
theorem Serial.start : Serial code view s₀ (start s₀) [] none where
  nodup := List.nodup_nil
  ended i := by simp [Guarded.start]
  holder i k := by simp [Guarded.start]
  tokens := rfl
  shows := rfl

/-- A step outside the sections. -/
theorem Serial.outside (h : Serial code view s₀ w order current) {p : Place} {f : σ → σ}
    (hended : (∃ k, p = .after k) ↔ ∃ k, w.place i = .after k)
    (hnot : ∀ k, p ≠ .inside k) (hnot' : ∀ k, w.place i ≠ .inside k)
    (hf : ∀ s, view (f s) = view s) :
    Serial code view s₀ ({ w with shared := f w.shared }.set i p) order current where
  nodup := h.nodup
  ended j := by
    by_cases hji : j = i
    · subst hji
      rw [set_place_self, h.ended j, hended]
    · rw [set_place_other _ hji]
      exact h.ended j
  holder j k := by
    by_cases hji : j = i
    · subst hji
      rw [set_place_self, ← h.holder j k]
      exact iff_of_false (hnot k) (hnot' k)
    · rw [set_place_other _ hji]
      exact h.holder j k
  tokens := h.tokens
  shows := (hf w.shared).trans h.shows

omit [DecidableEq ι] in
/-- Nobody begins a second section. -/
theorem Serial.nodup_current (h : Serial code view s₀ w order current) :
    (order ++ (current.map Prod.fst).toList).Nodup := by
  rcases hcurrent : current with _ | ⟨i, k⟩
  · simpa using h.nodup
  · have hnew : i ∉ order := by
      rw [h.ended i, (h.holder i k).2 hcurrent]
      simp
    rw [Option.map_some, Option.toList_some]
    refine List.nodup_append.2 ⟨h.nodup, List.nodup_singleton i, fun a ha b hb hab => ?_⟩
    obtain rfl : b = i := List.mem_singleton.1 hb
    subst hab
    exact hnew ha

/-- Whoever finds a token finds no section begun. -/
theorem Serial.enter (h : Serial code view s₀ w order current) {k : Nat}
    (hplace : w.place i = .before k) (htokens : 0 < w.tokens) :
    Serial code view s₀ ({ w with tokens := w.tokens - 1 }.set i (.inside 0)) order
      (some (i, 0)) := by
  have hfree : current = none := by
    by_contra hne
    rw [h.tokens, if_neg hne] at htokens
    exact Nat.lt_irrefl 0 htokens
  subst hfree
  refine ⟨h.nodup, fun j => ?_, fun j n => ?_, ?_, h.shows⟩
  · by_cases hji : j = i
    · subst hji
      rw [set_place_self, h.ended j, hplace]
      simp
    · rw [set_place_other _ hji]
      exact h.ended j
  · by_cases hji : j = i
    · subst hji
      simp [eq_comm]
    · rw [set_place_other _ hji, h.holder j n]
      simp [Ne.symm hji]
  · rw [set_tokens, h.tokens]
    rfl

theorem Serial.inside (h : Serial code view s₀ w order current) (hshows : Shows view (code i))
    {k : Nat} {f : σ → σ} (hplace : w.place i = .inside k) (hf : (code i).inside[k]? = some f) :
    Serial code view s₀ ({ w with shared := f w.shared }.set i (.inside (k + 1))) order
      (some (i, k + 1)) := by
  obtain rfl := (h.holder i k).1 hplace
  refine ⟨h.nodup, fun j => ?_, fun j n => ?_, ?_, ?_⟩
  · by_cases hji : j = i
    · subst hji
      rw [set_place_self, h.ended j, hplace]
      simp
    · rw [set_place_other _ hji]
      exact h.ended j
  · by_cases hji : j = i
    · subst hji
      simp [eq_comm]
    · rw [set_place_other _ hji, h.holder j n]
      simp [Ne.symm hji]
  · rw [set_tokens, h.tokens]
    rfl
  · rw [set_shared, begun, perform_take_succ hf]
    exact hshows.inside f (List.mem_of_getElem? hf) _ _ h.shows

theorem Serial.leave (h : Serial code view s₀ w order current) {k : Nat}
    (hplace : w.place i = .inside k) (hend : (code i).inside[k]? = none) :
    Serial code view s₀ ({ w with tokens := w.tokens + 1 }.set i (.after 0)) (order ++ [i])
      none := by
  obtain rfl := (h.holder i k).1 hplace
  refine ⟨h.nodup_current, fun j => ?_, fun j n => ?_, ?_, ?_⟩
  · rw [List.mem_append, List.mem_singleton]
    by_cases hji : j = i
    · subst hji
      simp
    · rw [set_place_other _ hji, ← h.ended j]
      simp [hji]
  · by_cases hji : j = i
    · subst hji
      simp
    · rw [set_place_other _ hji, h.holder j n]
      simp [Ne.symm hji]
  · rw [set_tokens, h.tokens]
    rfl
  · rw [set_shared, h.shows, inOrder_concat, begun, begun,
      List.take_of_length_le (List.getElem?_eq_none_iff.1 hend)]

theorem Serial.after_move (h : Serial code view s₀ w order current)
    (hshows : Shows view (code i)) (hmove : Move code w i w') :
    ∃ order' current', Serial code view s₀ w' order' current' := by
  cases hmove with
  | before k f hplace hf =>
      refine ⟨order, current, h.outside (by simp [hplace]) (by simp) (by simp [hplace]) ?_⟩
      exact hshows.before f (List.mem_of_getElem? hf)
  | enter k hplace _ htokens => exact ⟨_, _, h.enter hplace htokens⟩
  | inside k f hplace hf => exact ⟨_, _, h.inside hshows hplace hf⟩
  | leave k hplace hend => exact ⟨_, _, h.leave hplace hend⟩
  | after k f hplace hf =>
      refine ⟨order, current, h.outside (by simp [hplace]) (by simp) (by simp [hplace]) ?_⟩
      exact hshows.after f (List.mem_of_getElem? hf)

/-- **Every interleaving is serial.** -/
theorem Reachable.serial (hshows : ∀ i, Shows view (code i)) (h : Reachable code s₀ w) :
    ∃ order current, Serial code view s₀ w order current := by
  refine h.induct (I := fun w => ∃ order current, Serial code view s₀ w order current)
    ⟨[], none, Serial.start⟩ ?_
  rintro w w' i ⟨order, current, hw⟩ _ hstep
  exact hw.after_move (hshows i) (step_move hstep)

omit [DecidableEq ι] in
/-- **Mutual exclusion.** -/
theorem Serial.exclusive (h : Serial code view s₀ w order current) {k n : Nat}
    (hi : w.place i = .inside k) (hj : w.place j = .inside n) : i = j := by
  have hsame := (h.holder j n).1 hj
  rw [(h.holder i k).1 hi, Option.some.injEq, Prod.mk.injEq] at hsame
  exact hsame.1

omit [DecidableEq ι] in
theorem Finished.place (h : w.Finished code i) : ∃ k, w.place i = .after k := by
  unfold Finished at h
  cases hplace : w.place i with
  | before k =>
      rw [hplace, Sectioned.left] at h
      omega
  | inside k =>
      rw [hplace, Sectioned.left] at h
      omega
  | after k => exact ⟨k, rfl⟩

omit [DecidableEq ι] in
/-- When everybody has finished, the sections of all were carried out one after the other. -/
theorem Serial.finished (h : Serial code view s₀ w order current) (hfin : ∀ i, w.Finished code i) :
    current = none ∧ ∀ i, i ∈ order := by
  refine ⟨?_, fun i => (h.ended i).2 (hfin i).place⟩
  cases hcurrent : current with
  | none => rfl
  | some c =>
      obtain ⟨n, hn⟩ := (hfin c.1).place
      have hinside := (h.holder c.1 c.2).2 hcurrent
      rw [hn] at hinside
      cases hinside

/-! ## Every run comes to an end -/

/-- Only the token can make a process wait. -/
theorem can_step (hfin : ¬ w.Finished code i)
    (htokens : ∀ k, w.place i = .before k → 0 < w.tokens) : (step code w i).isSome := by
  unfold step
  unfold Finished at hfin
  cases hplace : w.place i with
  | before k =>
      cases hstep : (code i).before[k]? with
      | some f => simp [hstep]
      | none => simp [hstep, htokens k hplace]
  | inside k => cases hstep : (code i).inside[k]? <;> simp [hstep]
  | after k =>
      rw [hplace, Sectioned.left] at hfin
      simp only [Option.isSome_map, isSome_getElem?]
      omega

/-- **No deadlock.** -/
theorem Serial.progress (h : Serial code view s₀ w order current) :
    (∀ i, w.Finished code i) ∨ ∃ i, (step code w i).isSome := by
  by_cases hfin : ∀ i, w.Finished code i
  · exact Or.inl hfin
  · right
    obtain ⟨i, hi⟩ := not_forall.1 hfin
    rcases hcurrent : current with _ | ⟨j, k⟩
    · refine ⟨i, can_step hi fun _ _ => ?_⟩
      rw [h.tokens, if_pos hcurrent]
      exact Nat.zero_lt_one
    · have hinside := (h.holder j k).2 hcurrent
      refine ⟨j, can_step (fun hj => ?_) fun n hn => ?_⟩
      · obtain ⟨n, hn⟩ := hj.place
        rw [hinside] at hn
        cases hn
      · rw [hinside] at hn
        cases hn

theorem Move.left (hmove : Move code w i w') :
    (code i).left (w'.place i) + 1 = (code i).left (w.place i) := by
  cases hmove with
  | before k f hplace hf =>
      have hk := (List.getElem?_eq_some_iff.1 hf).1
      rw [set_place_self, hplace, Sectioned.left, Sectioned.left]
      omega
  | enter k hplace hend =>
      have hk := List.getElem?_eq_none_iff.1 hend
      rw [set_place_self, hplace, Sectioned.left, Sectioned.left]
      omega
  | inside k f hplace hf =>
      have hk := (List.getElem?_eq_some_iff.1 hf).1
      rw [set_place_self, hplace, Sectioned.left, Sectioned.left]
      omega
  | leave k hplace hend =>
      have hk := List.getElem?_eq_none_iff.1 hend
      rw [set_place_self, hplace, Sectioned.left, Sectioned.left]
      omega
  | after k f hplace hf =>
      have hk := (List.getElem?_eq_some_iff.1 hf).1
      rw [set_place_self, hplace, Sectioned.left, Sectioned.left]
      omega

/-- How many steps all processes together have left. -/
def total [Fintype ι] (code : ι → Sectioned σ) (w : Guarded ι σ) : Nat :=
  ∑ i, (code i).left (w.place i)

theorem Move.total [Fintype ι] (hmove : Move code w i w') :
    w'.total code + 1 = w.total code := by
  have hrest : ∑ j ∈ Finset.univ.erase i, (code j).left (w'.place j)
      = ∑ j ∈ Finset.univ.erase i, (code j).left (w.place j) :=
    Finset.sum_congr rfl fun j hj => by rw [hmove.place_other (Finset.ne_of_mem_erase hj)]
  have hleft := hmove.left
  rw [Guarded.total, Guarded.total, ← Finset.add_sum_erase _ _ (Finset.mem_univ i),
    ← Finset.add_sum_erase _ (fun j => (code j).left (w.place j)) (Finset.mem_univ i), hrest]
  omega

theorem length_of_run [Fintype ι] {ops : List ι} (h : ops.foldlM (step code) w = some w') :
    ops.length + w'.total code ≤ w.total code :=
  schedule_length (fun _ _ _ hstep => Nat.lt_of_succ_le (Nat.le_of_eq (step_move hstep).total)) h

end Guarded

/-! ## Sections that number their output -/

section Numbered

variable {β : Type}

/-- Blocks one after the other, numbered from `n` on. -/
def numbered (block : ι → Int → List β) : Int → List ι → List β
  | _, [] => []
  | n, i :: rest => block i n ++ numbered block (n + 1) rest

omit [DecidableEq ι] in
theorem numbered_concat (block : ι → Int → List β) (n : Int) (order : List ι) (i : ι) :
    numbered block n (order ++ [i]) = numbered block n order ++ block i (n + order.length) := by
  induction order generalizing n with
  | nil => simp [numbered]
  | cons j rest ih =>
      rw [List.cons_append, numbered, numbered, ih, List.append_assoc, List.length_cons]
      push_cast
      rw [Int.add_assoc n, Int.add_comm 1]

/-- A section counts itself and puts out a block with its number. -/
structure Numbers (code : ι → Sectioned σ) (count : σ → Int) (out : σ → List β)
    (block : ι → Int → List β) : Prop where
  counts : ∀ i s, count (perform (code i).inside s) = count s + 1
  puts : ∀ i s, out (perform (code i).inside s) = out s ++ block i (count s)
  grows : ∀ i, ∀ f ∈ (code i).inside, ∀ s, out s <+: out (f s)

variable {code : ι → Sectioned σ} {count : σ → Int} {out : σ → List β} {block : ι → Int → List β}
  {view : σ → ρ} {s₀ : σ} {w : Guarded ι σ}

theorem perform_grows {fs : List (σ → σ)} (h : ∀ f ∈ fs, ∀ s, out s <+: out (f s)) (s : σ) :
    out s <+: out (perform fs s) := by
  induction fs generalizing s with
  | nil => exact List.prefix_rfl
  | cons f rest ih =>
      obtain ⟨hf, hrest⟩ := List.forall_mem_cons.1 h
      exact (hf s).trans (ih hrest (f s))

omit [DecidableEq ι] in
theorem Numbers.inOrder (h : Numbers code count out block) (order : List ι) (s : σ) :
    count (inOrder code order s) = count s + order.length ∧
      out (inOrder code order s) = out s ++ numbered block (count s) order := by
  induction order using List.reverseRecOn with
  | nil => simp [Program.inOrder, numbered]
  | append_singleton order i ih =>
      obtain ⟨hcount, hout⟩ := ih
      rw [inOrder_concat, h.counts, h.puts, hcount, hout, numbered_concat, List.append_assoc]
      refine ⟨?_, rfl⟩
      rw [List.length_append, List.length_singleton]
      push_cast
      rw [Int.add_assoc]

omit [DecidableEq ι] in
/-- A section that is begun has put out a part of its block. -/
theorem Numbers.begun (h : Numbers code count out block) {order : List ι}
    {current : Option (ι × Nat)} :
    out (begun code (Program.inOrder code order s₀) current)
      <+: out (Program.inOrder code (order ++ (current.map Prod.fst).toList) s₀) := by
  cases current with
  | none => simp [Program.begun]
  | some c =>
      obtain ⟨i, k⟩ := c
      rw [Option.map_some, Option.toList_some, inOrder_concat, Program.begun]
      have hall := List.take_append_drop k (code i).inside
      have hsplit : perform (code i).inside (Program.inOrder code order s₀)
          = perform ((code i).inside.drop k)
              (perform ((code i).inside.take k) (Program.inOrder code order s₀)) := by
        conv_lhs => rw [← hall]
        rw [perform, List.foldl_append]
        rfl
      rw [hsplit]
      exact perform_grows (fun f hf => h.grows i f (List.mem_of_mem_drop hf)) _

/-- **Numbered sections.** In every interleaving the output is that of sections one after the other,
    numbered in this order, the last of which may still be under way. At the end every process has had
    its number, and none was lost. -/
theorem Guarded.Reachable.numbered [Fintype ι] (h : w.Reachable code s₀)
    (hshows : ∀ i, Shows view (code i)) (hnumbers : Numbers code count out block)
    (hview : ∀ s s', view s = view s' → count s = count s' ∧ out s = out s') :
    ∃ order : List ι, order.Nodup ∧
      out w.shared <+: out s₀ ++ Program.numbered block (count s₀) order ∧
      ((∀ i, w.Finished code i) → (∀ i, i ∈ order) ∧
        out w.shared = out s₀ ++ Program.numbered block (count s₀) order ∧
        count w.shared = count s₀ + Fintype.card ι) := by
  obtain ⟨order, current, hserial⟩ := h.serial hshows
  obtain ⟨_, hout⟩ := hview _ _ hserial.shows
  refine ⟨order ++ (current.map Prod.fst).toList, hserial.nodup_current, ?_, fun hfin => ?_⟩
  · rw [hout, ← (hnumbers.inOrder _ s₀).2]
    exact hnumbers.begun
  · obtain ⟨rfl, hall⟩ := hserial.finished hfin
    obtain ⟨hcount, hout⟩ := hview _ _ hserial.shows
    have hcard : order.length = Fintype.card ι := by
      rw [← List.toFinset_card_of_nodup hserial.nodup, ← Finset.card_univ]
      congr 1
      exact Finset.eq_univ_iff_forall.2 fun i => List.mem_toFinset.2 (hall i)
    rw [Option.map_none, Option.toList_none, List.append_nil, hout, hcount, Program.begun, ← hcard]
    exact ⟨hall, (hnumbers.inOrder order s₀).2, (hnumbers.inOrder order s₀).1⟩

end Numbered

end LinuxSamples.Program
