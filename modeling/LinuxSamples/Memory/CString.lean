import LinuxSamples.Memory.Store

set_option autoImplicit false

/-! # The string functions of `<string.h>`

Arrays of `char` hold slots of type `Option UInt8`: `none` is a byte that was never written, and a
computation that needs its value stops with the fault `unwritten`. A `const char*` leads either into
an array of the heap or to memory outside it; reading runs up to the first NUL byte and stops with
`outOfBounds` when the memory ends before.

`strlen`, `strcpy`, `strcat`, `strncpy`, `memset` and `strcmp` are defined by what the C standard
says of them. -/

namespace LinuxSamples.Memory

open LinuxSamples.Program

variable {Obj : Type}

/-- A piece of code of a class whose arrays are arrays of `char`. -/
abbrev CharProg (Obj β : Type) : Type := Prog Obj (Option UInt8) β

/-- A `const char*`: to memory outside the heap, of which it sees the given bytes, or into an array
    of the heap. -/
inductive CPtr
  | external (bytes : List UInt8)
  | heap (array : Option Nat) (index : Nat)

/-- The bytes before the first NUL. -/
def cstring (bs : List UInt8) : List UInt8 := bs.takeWhile (· ≠ 0)

/-- A text followed by its terminator. -/
def terminated (bs : List UInt8) : List (Option UInt8) := bs.map some ++ [some 0]

/-! ## Reading -/

/-- The bytes up to the first NUL, which must be there. -/
def scanString : List (Option UInt8) → Except Fault (List UInt8)
  | [] => .error .outOfBounds
  | none :: _ => .error .unwritten
  | some b :: rest =>
      if b = 0 then .ok []
      else do
        let bs ← scanString rest
        return b :: bs

/-- The slots a pointer sees, from the one it points to on. -/
def CPtr.slots : CPtr → CharProg Obj (List (Option UInt8))
  | .external bytes => pure (bytes.map some)
  | .heap array index => do
      let slots ← contents array
      return slots.drop index

/-- The C string at `p`. -/
def readString (p : CPtr) : CharProg Obj (List UInt8) := do
  let slots ← p.slots
  ofExcept (scanString slots)

/-- `strlen(p)`. -/
def strlen (p : CPtr) : CharProg Obj Nat := do
  let bs ← readString p
  return bs.length

/-- The comparison of two C strings as `unsigned char`s, up to the first difference or NUL. -/
def compareStrings : List (Option UInt8) → List (Option UInt8) → Except Fault Int
  | some a :: as, some b :: bs =>
      if a ≠ b then .ok ((a.toNat : Int) - b.toNat)
      else if a = 0 then .ok 0
      else compareStrings as bs
  | none :: _, _ => .error .unwritten
  | some _ :: _, none :: _ => .error .unwritten
  | [], _ => .error .outOfBounds
  | _ :: _, [] => .error .outOfBounds

/-- `strcmp(p, q)`. -/
def strcmp (p q : CPtr) : CharProg Obj Int := do
  let as ← p.slots
  let bs ← q.slots
  ofExcept (compareStrings as bs)

/-! ## Writing -/

/-- Replace the slots from position `k` on by the given ones. -/
def splice (slots : List (Option UInt8)) (k : Nat) (new : List (Option UInt8)) :
    List (Option UInt8) :=
  slots.take k ++ new ++ slots.drop (k + new.length)

/-- Write the given slots into an array, from position `k` on. -/
def writeSlots (dst : Option Nat) (k : Nat) (new : List (Option UInt8)) : CharProg Obj Unit :=
  fun s =>
    match dst with
    | none => .error .outOfBounds s
    | some b =>
        match s.heap.array b with
        | none => .error .released s
        | some slots =>
            if k + new.length ≤ slots.length then .ok () (s.write b (splice slots k new))
            else .error .outOfBounds s

/-- The array of the heap a pointer leads into. -/
def CPtr.array : CPtr → Option Nat
  | .external _ => none
  | .heap array _ => array

/-- `strcpy(dst, src)`. -/
def strcpy (dst : Option Nat) (src : CPtr) : CharProg Obj Unit := do
  let bs ← readString src
  -- source and target must not overlap
  if src.array = dst then throw .overlap
  else writeSlots dst 0 (terminated bs)

/-- `strcat(dst, src)`. -/
def strcat (dst : Option Nat) (src : CPtr) : CharProg Obj Unit := do
  let head ← readString (.heap dst 0)
  let bs ← readString src
  if src.array = dst then throw .overlap
  else writeSlots dst head.length (terminated bs)

/-- `strncpy(dst, src, n)`: `n` bytes are written, NULs after the end of the source. -/
def strncpy (dst : Option Nat) (src : CPtr) (n : Nat) : CharProg Obj Unit := do
  let bs ← readString src
  if src.array = dst then throw .overlap
  else writeSlots dst 0 ((bs.take n).map some ++ List.replicate (n - bs.length) (some 0))

/-- `memset(dst, c, n)`. -/
def memset (dst : Option Nat) (c : UInt8) (n : Nat) : CharProg Obj Unit :=
  writeSlots dst 0 (List.replicate n (some c))

/-! ## What they return -/

variable {s : Store Obj (Option UInt8)}

@[simp] theorem terminated_length (bs : List UInt8) : (terminated bs).length = bs.length + 1 := by
  simp [terminated]

theorem cstring_cons (b : UInt8) (bs : List UInt8) :
    cstring (b :: bs) = if b = 0 then [] else b :: cstring bs := by
  rw [cstring, List.takeWhile_cons]
  by_cases hb : b = 0
  · simp [hb]
  · simp [hb, cstring]

theorem cstring_of_textual {bs : List UInt8} (h : 0 ∉ bs) : cstring bs = bs := by
  induction bs with
  | nil => rfl
  | cons b bs ih =>
      obtain ⟨hb, hbs⟩ := List.ne_and_not_mem_of_not_mem_cons h
      rw [cstring_cons, if_neg hb.symm, ih hbs]

theorem zero_notMem_cstring (bs : List UInt8) : 0 ∉ cstring bs := by
  induction bs with
  | nil => exact List.not_mem_nil
  | cons b bs ih =>
      rw [cstring_cons]
      split
      · exact List.not_mem_nil
      · next hb => exact List.not_mem_cons_of_ne_of_not_mem (fun h => hb h.symm) ih

/-- Scanning stops at the first NUL, whatever follows it. -/
theorem scanString_eq (bs : List UInt8) (rest : List (Option UInt8)) :
    scanString (bs.map some ++ some 0 :: rest) = .ok (cstring bs) := by
  induction bs with
  | nil => rfl
  | cons b bs ih =>
      rw [List.map_cons, List.cons_append, scanString, cstring_cons]
      by_cases hb : b = 0
      · rw [if_pos hb, if_pos hb]
      · rw [if_neg hb, if_neg hb, ih]
        rfl

theorem scanString_textual {bs : List UInt8} (h : 0 ∉ bs) (rest : List (Option UInt8)) :
    scanString (bs.map some ++ some 0 :: rest) = .ok bs := by
  rw [scanString_eq, cstring_of_textual h]

theorem scanString_terminated (bs : List UInt8) (k : Nat) (hk : k ≤ bs.length) :
    scanString ((terminated bs).drop k) = .ok (cstring (bs.drop k)) := by
  rw [terminated, List.drop_append_of_le_length (by simpa using hk), ← List.map_drop]
  exact scanString_eq (bs.drop k) []

/-- Bytes without a NUL are no C string. -/
theorem scanString_fails {bs : List UInt8} (h : 0 ∉ bs) :
    scanString (bs.map some) = .error .outOfBounds := by
  induction bs with
  | nil => rfl
  | cons b bs ih =>
      obtain ⟨hb, hbs⟩ := List.ne_and_not_mem_of_not_mem_cons h
      rw [List.map_cons, scanString, if_neg hb.symm, ih hbs]
      rfl

theorem readString_external_fails {bs : List UInt8} (h : 0 ∉ bs) :
    Fails (readString (.external bs)) s .outOfBounds := by
  refine Fails.bind_right (Returns.pure (bs.map some) s) ?_
  rw [scanString_fails h]
  exact ⟨s, rfl⟩

theorem cstring_append_zero (bs rest : List UInt8) : cstring (bs ++ 0 :: rest) = cstring bs := by
  induction bs with
  | nil => rfl
  | cons b bs ih => rw [List.cons_append, cstring_cons, cstring_cons, ih]

theorem readString_external_of_mem {bs : List UInt8} (h : 0 ∈ bs) :
    Returns (readString (.external bs)) s (cstring bs) s := by
  obtain ⟨head, rest, rfl⟩ := List.append_of_mem h
  refine Returns.bind (Returns.pure _ s) (ofExcept_returns ?_ s)
  rw [List.map_append, List.map_cons, scanString_eq, cstring_append_zero]

theorem readString_external (bs : List UInt8) :
    Returns (readString (.external (bs ++ [0]))) s (cstring bs) s := by
  rw [← cstring_append_zero bs []]
  exact readString_external_of_mem (by simp)

theorem readString_heap {b k : Nat} {slots : List (Option UInt8)} {bs : List UInt8}
    (hb : s.heap.array b = some slots) (hscan : scanString (slots.drop k) = .ok bs) :
    Returns (readString (.heap (some b) k)) s bs s :=
  Returns.bind (Returns.bind (contents_returns hb) (Returns.pure _ s)) (ofExcept_returns hscan s)

theorem readString_terminated {b k : Nat} {bs : List UInt8}
    (hb : s.heap.array b = some (terminated bs)) (hk : k ≤ bs.length) :
    Returns (readString (.heap (some b) k)) s (cstring (bs.drop k)) s :=
  readString_heap hb (scanString_terminated bs k hk)

theorem slots_inv {p : CPtr} {slots : List (Option UInt8)} {s₁ : Store Obj (Option UInt8)}
    (h : Returns p.slots s slots s₁) : s₁ = s ∧
      (∀ c, p.array = some c → ∃ all, s.heap.array c = some all) ∧
      ∀ s' : Store Obj (Option UInt8),
        (∀ c, p.array = some c → s'.heap.array c = s.heap.array c) →
        Returns p.slots s' slots s' := by
  cases p with
  | external bytes =>
      obtain ⟨rfl, rfl⟩ := Returns.pure_inv h
      refine ⟨rfl, fun c hc => ?_, fun s' _ => Returns.pure _ s'⟩
      cases hc
  | heap array k =>
      obtain ⟨all, s₂, hall, hdrop⟩ := Returns.bind_inv h
      obtain ⟨rfl, b, rfl, hb⟩ := contents_inv hall
      obtain ⟨rfl, rfl⟩ := Returns.pure_inv hdrop
      refine ⟨rfl, fun c hc => ?_, fun s' hsame => ?_⟩
      · cases hc
        exact ⟨all, hb⟩
      · exact Returns.bind (contents_returns ((hsame b rfl).trans hb)) (Returns.pure _ s')

/-- Reading a C string depends on no array but the one the pointer leads into. -/
theorem readString_congr {s' : Store Obj (Option UInt8)} {p : CPtr} {bs : List UInt8}
    (h : Returns (readString p) s bs s)
    (hsame : ∀ c, p.array = some c → s'.heap.array c = s.heap.array c) :
    Returns (readString p) s' bs s' := by
  obtain ⟨slots, s₁, hslots, h⟩ := Returns.bind_inv h
  obtain ⟨rfl, _, hcongr⟩ := slots_inv hslots
  exact Returns.bind (hcongr s' hsame) (ofExcept_returns (ofExcept_inv h).1 s')

/-- A C string can be read only from an allocated array. -/
theorem readString_live {p : CPtr} {bs : List UInt8} (h : Returns (readString p) s bs s) {c : Nat}
    (hc : p.array = some c) : ∃ slots, s.heap.array c = some slots := by
  obtain ⟨slots, s₁, hslots, _⟩ := Returns.bind_inv h
  exact (slots_inv hslots).2.1 c hc

theorem writeSlots_returns {b : Nat} {slots : List (Option UInt8)} (k : Nat)
    (new : List (Option UInt8)) (hb : s.heap.array b = some slots)
    (hlen : k + new.length ≤ slots.length) :
    Returns (writeSlots (some b) k new) s () (s.write b (splice slots k new)) := by
  simp [Returns, writeSlots, EStateM.run, hb, hlen]

theorem writeSlots_fails {b : Nat} {slots : List (Option UInt8)} (k : Nat)
    (new : List (Option UInt8)) (hb : s.heap.array b = some slots)
    (hlen : slots.length < k + new.length) : Fails (writeSlots (some b) k new) s .outOfBounds :=
  ⟨s, by simp [writeSlots, EStateM.run, hb, Nat.not_le.2 hlen]⟩

theorem strlen_returns {p : CPtr} {bs : List UInt8} (h : Returns (readString p) s bs s) :
    Returns (strlen p) s bs.length s :=
  Returns.bind h (Returns.pure _ s)

/-- `strcpy` into an array with at least one byte to spare for the terminator. -/
theorem strcpy_returns {b : Nat} {src : CPtr} {slots : List (Option UInt8)} {bs : List UInt8}
    (hb : s.heap.array b = some slots) (hsrc : Returns (readString src) s bs s)
    (hout : src.array ≠ some b) (hlen : bs.length < slots.length) :
    Returns (strcpy (some b) src) s ()
      (s.write b (terminated bs ++ slots.drop (bs.length + 1))) := by
  refine Returns.bind hsrc ?_
  rw [if_neg hout]
  have hwrite := writeSlots_returns 0 (terminated bs) hb (by rw [terminated_length]; omega)
  rwa [splice, List.take_zero, List.nil_append, Nat.zero_add, terminated_length] at hwrite

/-- The text an array begins with. -/
theorem readString_head {b : Nat} {head : List UInt8} {rest : List (Option UInt8)}
    (hhead : 0 ∉ head) (hb : s.heap.array b = some (terminated head ++ rest)) :
    Returns (readString (.heap (some b) 0)) s head s := by
  refine readString_heap hb ?_
  rw [List.drop_zero, terminated, List.append_assoc, List.singleton_append,
    scanString_textual hhead]

/-- `strcat` after a text. -/
theorem strcat_returns {b : Nat} {src : CPtr} {head bs : List UInt8}
    {rest : List (Option UInt8)} (hhead : 0 ∉ head)
    (hb : s.heap.array b = some (terminated head ++ rest))
    (hsrc : Returns (readString src) s bs s) (hout : src.array ≠ some b)
    (hlen : bs.length ≤ rest.length) :
    Returns (strcat (some b) src) s ()
      (s.write b (terminated (head ++ bs) ++ rest.drop bs.length)) := by
  refine Returns.bind (readString_head hhead hb) (Returns.bind hsrc ?_)
  rw [if_neg hout]
  have hwrite := writeSlots_returns head.length (terminated bs) hb
    (by simp only [List.length_append, terminated_length]; omega)
  have hsplice : splice (terminated head ++ rest) head.length (terminated bs)
      = terminated (head ++ bs) ++ rest.drop bs.length := by
    have htake : (terminated head ++ rest).take head.length = head.map some := by
      rw [terminated, List.append_assoc, List.take_left' (by simp)]
    have hdrop : (terminated head ++ rest).drop (head.length + (bs.length + 1))
        = rest.drop bs.length := by
      rw [show head.length + (bs.length + 1) = (terminated head).length + bs.length by
        rw [terminated_length]; omega, List.drop_append, List.drop_of_length_le (by omega)]
      simp
    rw [splice, htake, terminated_length, hdrop]
    simp [terminated]
  rwa [hsplice] at hwrite

/-- `strcat` of a text that is too long for the array. -/
theorem strcat_overruns {b : Nat} {src : CPtr} {head bs : List UInt8}
    {rest : List (Option UInt8)} (hhead : 0 ∉ head)
    (hb : s.heap.array b = some (terminated head ++ rest))
    (hsrc : Returns (readString src) s bs s) (hout : src.array ≠ some b)
    (hlen : rest.length < bs.length) : Fails (strcat (some b) src) s .outOfBounds := by
  refine Fails.bind_right (readString_head hhead hb) (Fails.bind_right hsrc ?_)
  rw [if_neg hout]
  refine writeSlots_fails _ _ hb ?_
  simp only [List.length_append, terminated_length]
  omega

/-! ## `strcmp` is the order of the texts -/

theorem toNat_pos {b : UInt8} (hb : b ≠ 0) : 0 < b.toNat := by
  apply Nat.pos_of_ne_zero
  intro hz
  exact hb (UInt8.toNat_inj.1 hz)

/-- The comparison of an empty text with any text. -/
theorem compareStrings_empty (rest ys : List (Option UInt8)) (bs : List UInt8) :
    ∃ r, compareStrings (some 0 :: rest) (bs.map some ++ some 0 :: ys) = .ok r ∧
      (r < 0 ↔ [] < cstring bs) ∧ (r = 0 ↔ [] = cstring bs) := by
  cases bs with
  | nil => exact ⟨0, rfl, by simp [cstring], by simp [cstring]⟩
  | cons b bs =>
      rw [cstring_cons]
      by_cases hb : b = 0
      · subst hb
        exact ⟨0, rfl, by simp, by simp⟩
      · have hpos := toNat_pos hb
        refine ⟨((0 : UInt8).toNat : Int) - b.toNat, ?_, ?_, ?_⟩
        · rw [List.map_cons, List.cons_append, compareStrings, if_pos (Ne.symm hb)]
        · simp only [hb, if_false, List.nil_lt_cons, iff_true, UInt8.toNat_zero]
          omega
        · simp only [hb, if_false, reduceCtorEq, iff_false, UInt8.toNat_zero]
          omega

/-- The sign of the comparison is the lexicographic order of the two C strings as lists of
    `unsigned char`, whatever follows their first NULs. -/
theorem compareStrings_eq (as bs : List UInt8) (xs ys : List (Option UInt8)) :
    ∃ r, compareStrings (as.map some ++ some 0 :: xs) (bs.map some ++ some 0 :: ys) = .ok r ∧
      (r < 0 ↔ cstring as < cstring bs) ∧ (r = 0 ↔ cstring as = cstring bs) := by
  induction as generalizing bs with
  | nil => exact compareStrings_empty xs ys bs
  | cons a as ih =>
      rw [cstring_cons]
      by_cases ha : a = 0
      · subst ha
        exact compareStrings_empty (as.map some ++ some 0 :: xs) ys bs
      have hapos := toNat_pos ha
      rw [if_neg ha]
      -- the right text ends here or begins with another byte
      have hend : ∀ rest, ∃ r, compareStrings ((a :: as).map some ++ some 0 :: xs) (some 0 :: rest)
          = .ok r ∧ (r < 0 ↔ a :: cstring as < []) ∧ (r = 0 ↔ a :: cstring as = []) := by
        intro rest
        refine ⟨(a.toNat : Int) - (0 : UInt8).toNat, ?_, ?_, ?_⟩
        · rw [List.map_cons, List.cons_append, compareStrings, if_pos ha]
        · simp only [List.not_lt_nil, iff_false, UInt8.toNat_zero]
          omega
        · simp only [reduceCtorEq, iff_false, UInt8.toNat_zero]
          omega
      cases bs with
      | nil => exact hend ys
      | cons b bs =>
          rw [cstring_cons]
          by_cases hb : b = 0
          · subst hb
            rw [if_pos rfl]
            exact hend (bs.map some ++ some 0 :: ys)
          rw [if_neg hb, List.cons_lt_cons_iff, List.cons.injEq]
          by_cases hab : a = b
          · subst hab
            obtain ⟨r, hr, hlt, heq⟩ := ih bs
            refine ⟨r, ?_, ?_, ?_⟩
            · rw [List.map_cons, List.cons_append, List.map_cons, List.cons_append, compareStrings,
                if_neg (not_not.2 rfl), if_neg ha]
              exact hr
            · rw [hlt]
              simp
            · rw [heq]
              simp
          · have hne : a.toNat ≠ b.toNat := fun h => hab (UInt8.toNat_inj.1 h)
            refine ⟨(a.toNat : Int) - b.toNat, ?_, ?_, ?_⟩
            · rw [List.map_cons, List.cons_append, List.map_cons, List.cons_append, compareStrings,
                if_pos hab]
            · simp only [hab, false_and, or_false, UInt8.lt_iff_toNat_lt]
              omega
            · simp only [hab, false_and, iff_false]
              omega

/-- What a scan found is a text and its terminator. -/
theorem scanString_inv {slots : List (Option UInt8)} {bs : List UInt8}
    (h : scanString slots = .ok bs) :
    0 ∉ bs ∧ ∃ rest, slots = bs.map some ++ some 0 :: rest := by
  induction slots generalizing bs with
  | nil => cases h
  | cons x slots ih =>
      cases x with
      | none => cases h
      | some b =>
          rw [scanString] at h
          by_cases hb : b = 0
          · rw [if_pos hb] at h
            cases h
            exact ⟨List.not_mem_nil, slots, by rw [hb]; rfl⟩
          · rw [if_neg hb] at h
            obtain ⟨tail, htail, h⟩ := ok_of_bind h
            cases h
            obtain ⟨hzero, rest, rfl⟩ := ih htail
            exact ⟨List.not_mem_cons_of_ne_of_not_mem (Ne.symm hb) hzero, rest, rfl⟩

theorem readString_textual {p : CPtr} {bs : List UInt8} (h : Returns (readString p) s bs s) :
    0 ∉ bs := by
  obtain ⟨slots, s₁, _, hscan⟩ := Returns.bind_inv h
  exact (scanString_inv (ofExcept_inv hscan).1).1

/-- **`strcmp` orders the texts it reads.** -/
theorem strcmp_returns {p q : CPtr} {as bs : List UInt8} (hp : Returns (readString p) s as s)
    (hq : Returns (readString q) s bs s) : ∃ r, Returns (strcmp p q) s r s ∧
      (r < 0 ↔ as < bs) ∧ (r = 0 ↔ as = bs) := by
  obtain ⟨xs, s₁, hxs, hp⟩ := Returns.bind_inv hp
  obtain ⟨ys, s₂, hys, hq⟩ := Returns.bind_inv hq
  obtain ⟨rfl, _⟩ := slots_inv hxs
  obtain ⟨rfl, _⟩ := slots_inv hys
  obtain ⟨has, xrest, rfl⟩ := scanString_inv (ofExcept_inv hp).1
  obtain ⟨hbs, yrest, rfl⟩ := scanString_inv (ofExcept_inv hq).1
  obtain ⟨r, hr, hlt, heq⟩ := compareStrings_eq as bs xrest yrest
  rw [cstring_of_textual has, cstring_of_textual hbs] at hlt heq
  exact ⟨r, Returns.bind hxs (Returns.bind hys (ofExcept_returns hr _)), hlt, heq⟩

end LinuxSamples.Memory
