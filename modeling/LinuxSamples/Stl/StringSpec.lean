import LinuxSamples.Memory.Ownership
import LinuxSamples.Stl.String

set_option autoImplicit false

/-! # What each member function of `fbcstd::string` does to the value of its object

The value of a string is a list of bytes, NULs allowed: its buffer holds these bytes and one NUL
after them. The operations that copy with `strcpy` and `strcat` stop at the first NUL; from texts,
lists without a NUL, they make texts. -/

namespace LinuxSamples.FbcString

open LinuxSamples.Program LinuxSamples.Memory

/-- Object fields `o` stand for the bytes `bs` in heap `h`. -/
structure Holds (h : Heap (Option UInt8)) (o : Fields) (bs : List UInt8) : Prop where
  size : o.size_ = bs.length
  fits : bs.length + 1 < 2 ^ 64
  buffer : ∃ b, o.buffer_ = some b ∧ h.array b = some (terminated bs)

/-- `fbcstd::string` as a class whose objects own their buffers. -/
def model : ClassModel Fields (Option UInt8) (List UInt8) where
  buffer := Fields.buffer_
  Holds := Holds
  holds_congr := by
    rintro h h' o bs ⟨hsize, hfits, b, hb, harr⟩ hsame
    exact ⟨hsize, hfits, b, hb, (hsame b hb).trans harr⟩
  holds_live := by
    rintro h o bs c ⟨_, _, b, hb, harr⟩ hc
    obtain rfl : b = c := Option.some.inj (hb.symm.trans hc)
    exact ⟨_, harr⟩

variable {refuses : Nat → Bool} {s s' : Store Fields (Option UInt8)} {F : Table (List UInt8)}
  {i j : Nat} {o : Fields} {bs cs : List UInt8}

/-- `m` returns `a`, leaving the strings of the family `G`; string `k` among them holds the bytes `cs` in
    an array of `size_ + 1` bytes that ends in a NUL. No access was out of bounds, since `m` returned. -/
structure Yields {β : Type} (m : StrProg β) (s : Store Fields (Option UInt8)) (a : β)
    (G : Table (List UInt8)) (k : Nat) (cs : List UInt8) : Prop where
  state : ∃ s' o b, Returns m s a s' ∧ Represents model s' G ∧ s'.objects.entry k = some o ∧
    o.size_ = cs.length ∧ o.buffer_ = some b ∧ s'.heap.array b = some (cs.map some ++ [some 0])

/-- The constructor `m` makes a new string that holds `cs`; the others are as before. -/
abbrev Constructs (m : StrProg Nat) (s : Store Fields (Option UInt8)) (F : Table (List UInt8))
    (cs : List UInt8) : Prop := Yields m s F.next (F.add cs) F.next cs

/-- The member function `m` makes string `i` hold `cs`; the others are as before. -/
abbrev Leaves (m : StrProg Unit) (s : Store Fields (Option UInt8)) (F : Table (List UInt8)) (i : Nat)
    (cs : List UInt8) : Prop := Yields m s () (F.set i cs) i cs

theorem Yields.of_represents {β : Type} {m : StrProg β} {a : β} {G : Table (List UInt8)} {k : Nat}
    (hret : Returns m s a s') (h' : Represents model s' G) (hk : G.entry k = some cs) :
    Yields m s a G k cs := by
  obtain ⟨o, ho, hsize, _, b, hb, harr⟩ := h'.lookup hk
  exact ⟨s', o, b, hret, h', ho, hsize, hb, harr⟩

theorem Yields.not_fails {β : Type} {m : StrProg β} {a : β} {G : Table (List UInt8)} {k : Nat}
    {e : Fault} (h : Yields m s a G k cs) : ¬ Fails m s e := by
  obtain ⟨s', o, b, hret, _⟩ := h.state
  exact hret.not_fails

/-- No allocation is refused. -/
def Generous (refuses : Nat → Bool) : Prop := ∀ k, refuses k = false

/-! ## Filling a new buffer -/

/-- An array of `n + 1` bytes of which only a text and its terminator have been written. -/
def filled (n : Nat) (bs : List UInt8) : List (Option UInt8) :=
  terminated bs ++ List.replicate (n - bs.length) none

theorem filled_self (bs : List UInt8) : filled bs.length bs = terminated bs := by
  rw [filled, Nat.sub_self, List.replicate_zero, List.append_nil]

theorem newChars_returns (hg : Generous refuses) (n : Nat) (s : Store Fields (Option UInt8)) :
    Returns (newChars refuses n) s s.heap.next
      ⟨s.objects, s.heap.alloc (List.replicate n none)⟩ := by
  have hnew := newArray_returns (P := unwritten refuses) hg n s
  rwa [show (List.range n).map ((unwritten refuses).initial s.heap.next)
    = List.replicate n none by simp [unwritten, List.map_const']] at hnew

theorem allocate_wrapped (hg : Generous refuses) (ho : s.objects.entry i = some o) (n : Nat) :
    Returns (allocate refuses i n) s (some s.heap.next) ⟨s.objects.set i ⟨n, some s.heap.next⟩,
      s.heap.alloc (List.replicate (wrap (n + 1)) none)⟩ := by
  refine Returns.bind (modifyObject_returns ho _) ?_
  refine Returns.bind (newChars_returns hg (wrap (n + 1)) _) ?_
  have hmod := modifyObject_returns
    (s := ⟨s.objects.set i { o with size_ := n },
      s.heap.alloc (List.replicate (wrap (n + 1)) none)⟩)
    (Store.put_entry ho _) fun v : Fields => { v with buffer_ := some s.heap.next }
  rw [Store.put, Table.set_set] at hmod
  exact Returns.bind hmod (Returns.pure _ _)

theorem allocate_returns (hg : Generous refuses) (ho : s.objects.entry i = some o) {n : Nat}
    (hn : n + 1 < 2 ^ 64) :
    Returns (allocate refuses i n) s (some s.heap.next)
      ⟨s.objects.set i ⟨n, some s.heap.next⟩, s.heap.alloc (List.replicate (n + 1) none)⟩ := by
  have halloc := allocate_wrapped hg ho n
  have hwrap : wrap (n + 1) = n + 1 := Nat.mod_eq_of_lt hn
  rwa [hwrap] at halloc

/-- Writing into the array that was allocated last. -/
theorem store_new (objects : Table Fields) (heap : Heap (Option UInt8))
    (slots : List (Option UInt8)) {k : Nat} (hk : k < slots.length) (x : Option UInt8) :
    Returns (store (some heap.next) k x) ⟨objects, heap.alloc slots⟩ ()
      ⟨objects, heap.alloc (slots.set k x)⟩ := by
  have hstore := store_returns (b := heap.next) (s := ⟨objects, heap.alloc slots⟩)
    (Function.update_self ..) hk x
  rwa [Store.write, Heap.alloc_write] at hstore

theorem becomeEmpty_returns (hg : Generous refuses) (ho : s.objects.entry i = some o) :
    Returns (becomeEmpty refuses i) s ()
      ⟨s.objects.set i ⟨0, some s.heap.next⟩, s.heap.alloc (terminated [])⟩ := by
  refine Returns.bind (modifyObject_returns ho _) ?_
  refine Returns.bind (newChars_returns hg 1 _) ?_
  have hmod := modifyObject_returns
    (s := ⟨s.objects.set i { o with size_ := 0 }, s.heap.alloc (List.replicate 1 none)⟩)
    (Store.put_entry ho _) fun v : Fields => { v with buffer_ := some s.heap.next }
  rw [Store.put, Table.set_set] at hmod
  exact Returns.bind hmod (store_new _ s.heap [none] (by decide) (some 0))

/-- `new char[n+1]` and `strcpy` from a shorter or equally long text. -/
theorem copied (hg : Generous refuses) (ho : s.objects.entry i = some o) {n : Nat} {src : CPtr}
    (hn : n + 1 < 2 ^ 64) (hsrc : Returns (readString src) s bs s) (hlen : bs.length ≤ n) :
    ∃ s₁, Returns (allocate refuses i n) s (some s.heap.next) s₁ ∧
      s₁.objects = s.objects.set i ⟨n, some s.heap.next⟩ ∧
      Returns (strcpy (some s.heap.next) src) s₁ ()
        ⟨s.objects.set i ⟨n, some s.heap.next⟩, s.heap.alloc (filled n bs)⟩ := by
  have hne : src.array ≠ some s.heap.next := fun he => by
    obtain ⟨slots, hslots⟩ := readString_live hsrc he
    rw [Heap.array_next] at hslots
    cases hslots
  refine ⟨_, allocate_returns hg ho hn, rfl, ?_⟩
  have hread : Returns (readString src)
      ⟨s.objects.set i ⟨n, some s.heap.next⟩, s.heap.alloc (List.replicate (n + 1) none)⟩ bs
      ⟨s.objects.set i ⟨n, some s.heap.next⟩, s.heap.alloc (List.replicate (n + 1) none)⟩ := by
    refine readString_congr hsrc fun c hc => Function.update_of_ne ?_ _ _
    rintro rfl
    exact hne hc
  have hnew : (s.heap.alloc (List.replicate (n + 1) none)).array s.heap.next
      = some (List.replicate (n + 1) none) := Function.update_self ..
  have hcopy := strcpy_returns hnew hread hne (by rw [List.length_replicate]; omega)
  rw [Store.write, Heap.alloc_write, List.drop_replicate, Nat.add_sub_add_right] at hcopy
  exact hcopy

/-! ## Updating the family -/

/-- A constructor leaves a new object with a new buffer. -/
theorem added (h : Represents model s F) (bs : List UInt8) (hfits : bs.length + 1 < 2 ^ 64) :
    Represents model ⟨s.objects.add ⟨bs.length, some s.heap.next⟩, s.heap.alloc (terminated bs)⟩
      (F.add bs) := by
  refine h.add (o := ⟨bs.length, some s.heap.next⟩) ⟨?_, ?_, ?_⟩ rfl
    ⟨rfl, hfits, s.heap.next, rfl, Function.update_self ..⟩
  · rw [h.next]
    rfl
  · intro c _ hc
    exact Function.update_of_ne (fun he => hc _ rfl (congrArg some he.symm)) _ _
  · intro o c ho hc
    cases ho
    cases hc
    exact Or.inr s.heap.array_next

/-- A modifier leaves its object with a new buffer, arrays of other objects untouched. -/
theorem replaced (h : Represents model s F) (hi : F.entry i = some bs)
    (hfits : cs.length + 1 < 2 ^ 64)
    (hobj : s'.objects = s.objects.set i ⟨cs.length, some s.heap.next⟩)
    (hnew : s'.heap.array s.heap.next = some (terminated cs))
    (hothers : ∀ c, ¬ Owns model s i c → c ≠ s.heap.next →
      s'.heap.array c = s.heap.array c) : Represents model s' (F.set i cs) := by
  obtain ⟨o, ho, _⟩ := h.lookup hi
  refine h.set (o := ⟨cs.length, some s.heap.next⟩) hi ⟨?_, ?_, ?_⟩ (by rw [hobj]; rfl)
    ⟨rfl, hfits, s.heap.next, rfl, hnew⟩
  · rw [hobj]
    exact Table.set_entry ho _
  · intro c hown hc
    exact hothers c hown fun he => hc _ rfl (congrArg some he.symm)
  · intro o' c ho' hc
    cases ho'
    cases hc
    exact Or.inr s.heap.array_next

/-! ## Constructors and destructor -/

section Operations

variable (hg : Generous refuses) (h : Represents model s F)

include hg h in
theorem default_spec : ∃ s', Returns (default refuses) s F.next s' ∧
    Represents model s' (F.add []) := by
  have hempty := becomeEmpty_returns (s := ⟨s.objects.add ⟨0, none⟩, s.heap⟩) hg
    (s.objects.add_entry_self _)
  rw [Table.add_set] at hempty
  rw [h.next]
  exact ⟨_, Returns.bind (newObject_returns s _) (Returns.bind hempty (Returns.pure _ _)),
    added h [] (by decide)⟩

include hg h in
/-- The steps of the constructors that copy a whole text. -/
theorem copyText_spec {p : CPtr} (hread : Returns (readString p) s bs s)
    (hfits : bs.length + 1 < 2 ^ 64) : ∃ s₀ s', Returns (newObject ⟨0, none⟩) s F.next s₀ ∧
      Returns (strlen p) s₀ bs.length s₀ ∧
      Returns (do
        let b ← allocate refuses F.next bs.length
        strcpy b p
        return F.next) s₀ F.next s' ∧
      Represents model s' (F.add bs) := by
  have hread₀ : Returns (readString p) ⟨s.objects.add ⟨0, none⟩, s.heap⟩ bs
      ⟨s.objects.add ⟨0, none⟩, s.heap⟩ := readString_congr hread fun _ _ => rfl
  obtain ⟨s₁, halloc, _, hcopy⟩ :=
    copied hg (s.objects.add_entry_self _) hfits hread₀ (Nat.le_refl _)
  rw [Table.add_set, filled_self] at hcopy
  rw [h.next]
  exact ⟨_, _, newObject_returns s _, strlen_returns hread₀,
    Returns.bind halloc (Returns.bind hcopy (Returns.pure _ _)), added h bs hfits⟩

include hg h in
/-- The string copied from a text. -/
theorem ofCString_spec {p : CPtr} (hread : Returns (readString p) s bs s)
    (hfits : bs.length + 1 < 2 ^ 64) : ∃ s', Returns (ofCString refuses p) s F.next s' ∧
      Represents model s' (F.add bs) := by
  obtain ⟨s₀, s', hnew, hlen, hcopy, h'⟩ := copyText_spec hg h hread hfits
  exact ⟨s', Returns.bind hnew (Returns.bind hlen hcopy), h'⟩

include hg h in
theorem ofCStringN_spec {p : CPtr} {n : Nat} (hread : Returns (readString p) s bs s)
    (hfits : bs.length + 1 < 2 ^ 64) (hn : bs.length ≤ n) :
    ∃ s', Returns (ofCStringN refuses p n) s F.next s' ∧ Represents model s' (F.add bs) := by
  obtain ⟨s₀, s', hnew, hlen, hcopy, h'⟩ := copyText_spec hg h hread hfits
  refine ⟨s', Returns.bind hnew (Returns.bind hlen ?_), h'⟩
  rw [if_pos hn]
  exact hcopy

include h in
/-- The text a string's own buffer is read as. -/
theorem read_spec (hi : F.entry i = some bs) {k : Nat} (hk : k ≤ bs.length) :
    ∃ o, s.objects.entry i = some o ∧ o.size_ = bs.length ∧
      Returns (readString (.heap o.buffer_ k)) s (cstring (bs.drop k)) s := by
  obtain ⟨o, ho, hsize, _, b, hb, harr⟩ := h.lookup hi
  refine ⟨o, ho, hsize, ?_⟩
  rw [hb]
  exact readString_terminated harr hk

theorem cstring_length_le (bs : List UInt8) : (cstring bs).length ≤ bs.length :=
  (List.takeWhile_prefix _).length_le

include hg h in
/-- The copy constructor copies up to the first NUL into a buffer for all the bytes. -/
theorem copyConstruct_returns (hj : F.entry j = some bs) :
    Returns (copyConstruct refuses j) s F.next
      ⟨s.objects.add ⟨bs.length, some s.heap.next⟩,
        s.heap.alloc (filled bs.length (cstring bs))⟩ := by
  obtain ⟨o, ho, hsize, hread⟩ := read_spec h hj (Nat.zero_le _)
  obtain ⟨_, _, hold⟩ := h.lookup hj
  rw [List.drop_zero] at hread
  have ho₀ := Table.add_entry_old ho (⟨0, none⟩ : Fields)
  have hread₀ : Returns (readString (.heap o.buffer_ 0)) ⟨s.objects.add ⟨0, none⟩, s.heap⟩
      (cstring bs) ⟨s.objects.add ⟨0, none⟩, s.heap⟩ := readString_congr hread fun _ _ => rfl
  obtain ⟨s₁, halloc, _, hcopy⟩ :=
    copied hg (s.objects.add_entry_self _) hold.fits hread₀ (cstring_length_le bs)
  rw [Table.add_set] at hcopy
  rw [h.next]
  refine Returns.bind (newObject_returns s _) (Returns.bind (object_returns ho₀) ?_)
  rw [hsize]
  exact Returns.bind halloc (Returns.bind hcopy (Returns.pure _ _))

include hg h in
theorem copyConstruct_spec (hj : F.entry j = some bs) (hnul : 0 ∉ bs) :
    ∃ s', Returns (copyConstruct refuses j) s F.next s' ∧ Represents model s' (F.add bs) := by
  have hcopy := copyConstruct_returns hg h hj
  obtain ⟨_, _, hold⟩ := h.lookup hj
  rw [cstring_of_textual hnul, filled_self] at hcopy
  exact ⟨_, hcopy, added h bs hold.fits⟩

/-- One more byte written into a new buffer. -/
theorem written_set {xs : List UInt8} {k : Nat} (hk : k < xs.length) (m : Nat) :
    ((xs.take k).map some ++ List.replicate (m + 1) none).set k (some xs[k])
      = (xs.take (k + 1)).map some ++ List.replicate m none := by
  have hlen : ((xs.take k).map some).length = k := by
    rw [List.length_map, List.length_take]
    omega
  rw [List.set_append_right _ _ (Nat.le_of_eq hlen), hlen, Nat.sub_self, List.replicate_succ,
    List.set_cons_zero, List.take_succ_eq_append_getElem hk, List.map_append, List.map_singleton,
    List.append_assoc]
  rfl

/-- The loop that copies the bytes `cs` of a string from position `pos` on into a new buffer: after
    `k` iterations the first `k` bytes are written. -/
theorem copyLoop_returns {b pos : Nat} (objects : Table Fields) {heap : Heap (Option UInt8)}
    (harr : heap.array b = some (terminated bs)) (hcs : cs <+: bs.drop pos) :
    Returns (forUp (fun i => do
        let c ← load (some b) (pos + i)
        store (some heap.next) i c) 0 cs.length)
      ⟨objects, heap.alloc (List.replicate (cs.length + 1) none)⟩ ()
      ⟨objects, heap.alloc (cs.map some ++ [none])⟩ := by
  have hnext : b ≠ heap.next := Nat.ne_of_lt (Heap.lt_next harr)
  have hloop := forUp_returns (fun i => do
      let c ← load (some b) (pos + i)
      store (some heap.next) i c)
    (fun k => (⟨objects, heap.alloc ((cs.take k).map some
      ++ List.replicate (cs.length + 1 - k) none)⟩ : Store Fields (Option UInt8)))
    0 cs.length fun k _ hk => by
      rw [Nat.zero_add] at hk
      have hbyte : (terminated bs)[pos + k]? = some (some cs[k]) := by
        have hget : bs[pos + k]? = some cs[k] := by
          obtain ⟨rest, hrest⟩ := hcs
          rw [← List.getElem?_drop, ← hrest, List.getElem?_append_left hk,
            List.getElem?_eq_getElem hk]
        obtain ⟨hlt, _⟩ := List.getElem?_eq_some_iff.1 hget
        rw [terminated, List.getElem?_append_left (by simpa using hlt), List.getElem?_map, hget]
        rfl
      have hrest : cs.length + 1 - k = cs.length + 1 - (k + 1) + 1 := by omega
      have hstore := store_new objects heap
        ((cs.take k).map some ++ List.replicate (cs.length + 1 - k) none) (k := k) (by simp; omega)
        (some cs[k])
      rw [hrest, written_set hk] at hstore
      rw [hrest]
      exact Returns.bind (load_returns ((Function.update_of_ne hnext _ _).trans harr) hbyte) hstore
  rw [Nat.zero_add, List.take_length, Nat.add_sub_cancel_left] at hloop
  exact hloop

include hg h in
/-- The substring constructor, when `pos` is past the end or `pos + len` does not wrap. -/
theorem substring_spec (hj : F.entry j = some bs) {pos len : Nat}
    (hsum : bs.length < pos ∨ pos + len < 2 ^ 64) :
    ∃ s', Returns (substring refuses j pos len) s F.next s' ∧
      Represents model s' (F.add ((bs.drop pos).take len)) := by
  obtain ⟨w, hw, hwsize, hfits, b, hb, harr⟩ := h.lookup hj
  have hw₀ := Table.add_entry_old hw (⟨0, none⟩ : Fields)
  by_cases hpos : pos > bs.length
  · have hnil : (bs.drop pos).take len = [] := by
      rw [List.drop_of_length_le (by omega), List.take_nil]
    have hempty := becomeEmpty_returns (s := ⟨s.objects.add ⟨0, none⟩, s.heap⟩) hg
      (s.objects.add_entry_self _)
    rw [Table.add_set] at hempty
    rw [h.next, hnil]
    refine ⟨_, Returns.bind (newObject_returns s _) (Returns.bind (object_returns hw₀) ?_),
      added h [] (by decide)⟩
    rw [if_pos (by rwa [hwsize])]
    exact Returns.bind hempty (Returns.pure _ _)
  · have hwrap : wrap (pos + len) = pos + len := Nat.mod_eq_of_lt (hsum.resolve_left hpos)
    set cs := (bs.drop pos).take len with hcs
    have hlen : (if wrap (pos + len) > w.size_ then w.size_ - pos else len) = cs.length := by
      rw [hwrap, hwsize, hcs, List.length_take, List.length_drop]
      split <;> omega
    have hcsfits : cs.length + 1 < 2 ^ 64 := by
      have : cs.length ≤ bs.length := by
        rw [hcs, List.length_take, List.length_drop]
        omega
      omega
    have halloc := allocate_returns (s := ⟨s.objects.add ⟨0, none⟩, s.heap⟩) hg
      (s.objects.add_entry_self _) hcsfits
    have hloop := copyLoop_returns (s.objects.add ⟨cs.length, some s.heap.next⟩) harr
      (List.take_prefix len (bs.drop pos))
    have hend := store_new (s.objects.add ⟨cs.length, some s.heap.next⟩) s.heap
      (cs.map some ++ [none]) (k := cs.length) (by simp) (some 0)
    have hterm : (cs.map some ++ [none]).set cs.length (some 0) = terminated cs := by
      rw [List.set_append_right _ _ (by simp)]
      simp [terminated]
    rw [Table.add_set] at halloc
    rw [hterm] at hend
    rw [h.next]
    refine ⟨_, Returns.bind (newObject_returns s _) (Returns.bind (object_returns hw₀) ?_),
      added h cs hcsfits⟩
    rw [if_neg (by rwa [hwsize]), hlen, hb]
    exact Returns.bind halloc (Returns.bind hloop (Returns.bind hend (Returns.pure _ _)))

include h in
theorem destroy_spec (hi : F.entry i = some bs) :
    ∃ s', Returns (destroy i) s () s' ∧ Represents model s' (F.erase i) := by
  obtain ⟨o, ho, _, _, b, hb, harr⟩ := h.lookup hi
  refine ⟨⟨s.objects.erase i, s.heap.release b⟩, ?_, h.erase ⟨rfl, ?_, ?_⟩ rfl⟩
  · refine Returns.bind (object_returns ho) ?_
    rw [hb]
    exact Returns.bind (deleteArray_returns harr)
      (dropObject_returns (s := ⟨s.objects, s.heap.release b⟩) ho)
  · intro c hc _
    show (s.heap.release b).array c = s.heap.array c
    rw [Heap.release_array, Function.update_of_ne]
    rintro rfl
    exact hc ⟨o, ho, hb⟩
  · intro o' c ho' _
    cases ho'

/-! ## Assignment -/

include h in
/-- Releasing the old buffer under a condition leaves the other arrays and the next number. -/
theorem onlyIf_delete (hi : F.entry i = some bs) (ho : s.objects.entry i = some o) (c : Prop)
    [Decidable c] : ∃ heap, Returns (onlyIf c (deleteArray o.buffer_)) s () ⟨s.objects, heap⟩ ∧
      heap.next = s.heap.next ∧ ∀ d, ¬ Owns model s i d → heap.array d = s.heap.array d := by
  obtain ⟨_, _, b, hb, harr⟩ := h.holds_at hi ho
  by_cases hc : c
  · rw [onlyIf_pos hc, hb]
    refine ⟨_, deleteArray_returns harr, Heap.release_next .., fun d hd => ?_⟩
    rw [Heap.release_array, Function.update_of_ne]
    rintro rfl
    exact hd ⟨o, ho, hb⟩
  · rw [onlyIf_neg hc]
    exact ⟨s.heap, Returns.pure () s, rfl, fun _ _ => rfl⟩

include h in
/-- Once the old buffer is released or given up, a new one holds the new text. -/
theorem rebuffered (hi : F.entry i = some bs) (cs : List UInt8) (hfits : cs.length + 1 < 2 ^ 64)
    {heap : Heap (Option UInt8)} (hnext : heap.next = s.heap.next)
    (harr : ∀ d, ¬ Owns model s i d → heap.array d = s.heap.array d) :
    Represents model ⟨s.objects.set i ⟨cs.length, some heap.next⟩, heap.alloc (terminated cs)⟩
      (F.set i cs) := by
  refine replaced h hi hfits (by rw [hnext]) ?_ fun d hd hne => ?_
  · rw [← hnext]
    exact Function.update_self ..
  · rw [← hnext] at hne
    exact (Function.update_of_ne hne _ _).trans (harr d hd)

include hg h in
/-- The common part of the assignments from a C string outside the target's buffer: the old buffer is
    released or given up, and the text `cs` is written into a new one of `n + 1` bytes. -/
theorem reassigned (hi : F.entry i = some bs) (ho : s.objects.entry i = some o) {src : CPtr} {n : Nat}
    (hread : Returns (readString src) s cs s) (hn : n + 1 < 2 ^ 64) (hlen : cs.length ≤ n)
    (hout : ∀ b, src.array = some b → ¬ Owns model s i b) :
    ∃ heap s₂, Returns (onlyIf (o.size_ ≠ 0) (deleteArray o.buffer_)) s () ⟨s.objects, heap⟩ ∧
      heap.next = s.heap.next ∧ (∀ d, ¬ Owns model s i d → heap.array d = s.heap.array d) ∧
      Returns (readString src) ⟨s.objects, heap⟩ cs ⟨s.objects, heap⟩ ∧
      Returns (allocate refuses i n) ⟨s.objects, heap⟩ (some heap.next) s₂ ∧
      s₂.objects = s.objects.set i ⟨n, some heap.next⟩ ∧
      Returns (strcpy (some heap.next) src) s₂ ()
        ⟨s.objects.set i ⟨n, some heap.next⟩, heap.alloc (filled n cs)⟩ := by
  obtain ⟨heap, hdel, hnext, harr⟩ := onlyIf_delete h hi ho (o.size_ ≠ 0)
  have hread₁ : Returns (readString src) ⟨s.objects, heap⟩ cs ⟨s.objects, heap⟩ :=
    readString_congr hread fun d hd => harr d (hout d hd)
  obtain ⟨s₂, halloc, hobj₂, hcopy⟩ := copied (s := ⟨s.objects, heap⟩) hg ho hn hread₁ hlen
  exact ⟨heap, s₂, hdel, hnext, harr, hread₁, halloc, hobj₂, hcopy⟩

include hg h in
/-- Assignment from another string copies up to the first NUL into a buffer for all the bytes. -/
theorem assign_returns (hi : F.entry i = some bs) (hj : F.entry j = some cs) (hij : i ≠ j) :
    ∃ heap : Heap (Option UInt8), Returns (assign refuses i j) s ()
        ⟨s.objects.set i ⟨cs.length, some heap.next⟩,
          heap.alloc (filled cs.length (cstring cs))⟩ ∧ heap.next = s.heap.next ∧
      ∀ d, ¬ Owns model s i d → heap.array d = s.heap.array d := by
  obtain ⟨o, ho, _⟩ := h.lookup hi
  obtain ⟨w, hw, hwsize, hread⟩ := read_spec h hj (Nat.zero_le _)
  obtain ⟨_, _, hold⟩ := h.lookup hj
  rw [List.drop_zero] at hread
  obtain ⟨heap, s₂, hdel, hnext, harr, _, halloc, hobj₂, hcopy⟩ :=
    reassigned hg h hi ho hread hold.fits (cstring_length_le cs) fun d hd hown =>
      hij (h.separate i j d hown ⟨w, hw, hd⟩)
  have hw₂ : s₂.objects.entry j = some w := by
    rw [hobj₂, Table.set_entry ho, Function.update_of_ne hij.symm]
    exact hw
  refine ⟨heap, Returns.bind (object_returns ho) (Returns.bind hdel
    (Returns.bind (object_returns (s := ⟨s.objects, heap⟩) hw) ?_)), hnext, harr⟩
  rw [hwsize]
  exact Returns.bind halloc (Returns.bind (Returns.bind (object_returns hw₂) (Returns.pure _ s₂))
    hcopy)

include hg h in
theorem assign_spec (hi : F.entry i = some bs) (hj : F.entry j = some cs) (hij : i ≠ j)
    (hnul : 0 ∉ cs) : ∃ s', Returns (assign refuses i j) s () s' ∧
      Represents model s' (F.set i cs) := by
  obtain ⟨_, _, hold⟩ := h.lookup hj
  obtain ⟨heap, hret, hnext, harr⟩ := assign_returns hg h hi hj hij
  rw [cstring_of_textual hnul, filled_self] at hret
  exact ⟨_, hret, rebuffered h hi cs hold.fits hnext harr⟩

include hg h in
theorem assignCString_spec (hi : F.entry i = some bs) {p : CPtr}
    (hread : Returns (readString p) s cs s) (hfits : cs.length + 1 < 2 ^ 64)
    (hout : ∀ b, p.array = some b → ¬ Owns model s i b) :
    ∃ s', Returns (assignCString refuses i p) s () s' ∧ Represents model s' (F.set i cs) := by
  obtain ⟨o, ho, _⟩ := h.lookup hi
  obtain ⟨heap, s₂, hdel, hnext, harr, hread₁, halloc, _, hcopy⟩ :=
    reassigned hg h hi ho hread hfits (Nat.le_refl _) hout
  rw [filled_self] at hcopy
  exact ⟨_, Returns.bind (object_returns ho) (Returns.bind hdel (Returns.bind
    (strlen_returns hread₁) (Returns.bind halloc hcopy))), rebuffered h hi cs hfits hnext harr⟩

include hg h in
theorem assignChar_spec (hi : F.entry i = some bs) (c : UInt8) :
    ∃ s', Returns (assignChar refuses i c) s () s' ∧ Represents model s' (F.set i [c]) := by
  obtain ⟨o, ho, _⟩ := h.lookup hi
  obtain ⟨heap, hdel, hnext, harr⟩ := onlyIf_delete h hi ho (o.size_ ≠ 1)
  have halloc := allocate_returns (s := ⟨s.objects, heap⟩) hg ho (n := 1) (by decide)
  have hfirst := store_new (s.objects.set i ⟨1, some heap.next⟩) heap [none, none] (by decide : 0 < 2)
    (some c)
  have hsecond := store_new (s.objects.set i ⟨1, some heap.next⟩) heap [some c, none]
    (by decide : 1 < 2) (some 0)
  exact ⟨_, Returns.bind (object_returns ho) (Returns.bind hdel (Returns.bind halloc
    (Returns.bind hfirst hsecond))), rebuffered h hi [c] (by simp) hnext harr⟩

include hg h in
theorem clear_spec (hi : F.entry i = some bs) :
    ∃ s', Returns (clear refuses i) s () s' ∧ Represents model s' (F.set i []) := by
  obtain ⟨o, ho, _⟩ := h.lookup hi
  obtain ⟨heap, hdel, hnext, harr⟩ := onlyIf_delete h hi ho True
  exact ⟨_, Returns.bind (object_returns ho) (Returns.bind hdel
    (becomeEmpty_returns (s := ⟨s.objects, heap⟩) hg ho)),
    rebuffered h hi [] (by decide) hnext harr⟩

include h in
/-- Overwriting one byte before the terminator. -/
theorem set_spec (hi : F.entry i = some bs) {k : Nat} (hk : k < bs.length) (c : UInt8) :
    ∃ s', Returns (set i k c) s () s' ∧ Represents model s' (F.set i (bs.set k c)) := by
  obtain ⟨o, ho, hsize, hfits, b, hb, harr⟩ := h.lookup hi
  have hset : (terminated bs).set k (some c) = terminated (bs.set k c) := by
    rw [terminated, List.set_append_left _ _ (by simpa using hk), ← List.map_set]
    rfl
  refine ⟨s.write b (terminated (bs.set k c)), ?_,
    h.set (o := o) hi ⟨?_, ?_, ?_⟩ rfl ⟨?_, ?_, b, hb, ?_⟩⟩
  · refine Returns.bind (object_returns ho) ?_
    rw [hb, ← hset]
    exact store_returns harr (by rw [terminated_length]; omega) (some c)
  · exact (Function.update_eq_self_iff.2 ho.symm).symm
  · intro d hd _
    rw [Store.write_heap, Heap.write_array harr, Function.update_of_ne]
    rintro rfl
    exact hd ⟨o, ho, hb⟩
  · intro o' d ho' hd
    cases ho'
    exact Or.inl ⟨o, ho, hd⟩
  · rw [List.length_set]
    exact hsize
  · rw [List.length_set]
    exact hfits
  · rw [Store.write_heap, Heap.write_array harr, Function.update_self]

/-! ## Appending -/

/-- The first `strcpy` of the overloads of `operator+=`: the old text, up to its first NUL, goes into a
    new array for `n` bytes. -/
theorem text_copied {n b : Nat} {heap : Heap (Option UInt8)} (objects : Table Fields)
    (hb : heap.array b = some (terminated bs)) (hlen : (cstring bs).length ≤ n) :
    Returns (strcpy (some heap.next) (.heap (some b) 0))
      ⟨objects, heap.alloc (List.replicate (n + 1) none)⟩ ()
      ⟨objects, heap.alloc (filled n (cstring bs))⟩ := by
  have hbnext : b ≠ heap.next := Nat.ne_of_lt (Heap.lt_next hb)
  have htext : Returns (readString (.heap (some b) 0))
      ⟨objects, heap.alloc (List.replicate (n + 1) none)⟩ (cstring bs)
      ⟨objects, heap.alloc (List.replicate (n + 1) none)⟩ :=
    readString_terminated ((Function.update_of_ne hbnext _ _).trans hb) (Nat.zero_le _)
  have hroom : (cstring bs).length < (List.replicate (n + 1) (none : Option UInt8)).length := by
    rw [List.length_replicate]
    omega
  have hnew : (heap.alloc (List.replicate (n + 1) none)).array heap.next
      = some (List.replicate (n + 1) none) := Function.update_self ..
  have hcopy := strcpy_returns hnew htext (fun he => hbnext (Option.some.inj he)) hroom
  rwa [Store.write, Heap.alloc_write, List.drop_replicate, Nat.add_sub_add_right] at hcopy

include hg in
/-- The common part of the overloads of `operator+=`: up to its first NUL the old text, then up to
    its first NUL the argument, in a buffer for `n` bytes. -/
theorem concatenate_returns {n b : Nat} (ho : s.objects.entry i = some ⟨n, some b⟩)
    (hb : s.heap.array b = some (terminated bs)) (hn : n + 1 < 2 ^ 64)
    (hlen : (cstring bs).length + cs.length ≤ n) {argument : StrProg CPtr} {q : CPtr}
    (harg : ∀ heap, Returns argument ⟨s.objects, heap⟩ q ⟨s.objects, heap⟩)
    (hread : Returns (readString q) s cs s) :
    Returns (concatenate refuses i argument) s () ⟨s.objects.set i ⟨n, some s.heap.next⟩,
      (s.heap.alloc (filled n (cstring bs ++ cs))).release b⟩ := by
  have hbnext : b ≠ s.heap.next := Nat.ne_of_lt (Heap.lt_next hb)
  have hqnext : q.array ≠ some s.heap.next := fun he => by
    obtain ⟨slots, hslots⟩ := readString_live hread he
    rw [Heap.array_next] at hslots
    cases hslots
  -- whatever the new array holds, the old text and the argument can still be read
  have hold : ∀ slots, (s.heap.alloc slots).array b = some (terminated bs) := fun slots =>
    (Function.update_of_ne hbnext _ _).trans hb
  have hread' : ∀ slots, Returns (readString q) ⟨s.objects, s.heap.alloc slots⟩ cs
      ⟨s.objects, s.heap.alloc slots⟩ := fun slots =>
    readString_congr hread fun c hc =>
      Function.update_of_ne (fun he => hqnext (hc.trans (congrArg some he))) _ _
  have hnew : ∀ slots, (s.heap.alloc slots).array s.heap.next = some slots := fun slots =>
    Function.update_self ..
  have hcopy := text_copied s.objects hb (n := n) (by omega)
  have hspare : cs.length
      ≤ (List.replicate (n - (cstring bs).length) (none : Option UInt8)).length := by
    rw [List.length_replicate]
    omega
  have hcat := strcat_returns (zero_notMem_cstring bs) (hnew _) (hread' _) hqnext hspare
  rw [Store.write, Heap.alloc_write, List.drop_replicate, Nat.sub_sub, ← List.length_append]
    at hcat
  have hdel := deleteArray_returns (s := ⟨s.objects, _⟩) (hold (filled n (cstring bs ++ cs)))
  have hmod := modifyObject_returns
    (s := ⟨s.objects, (s.heap.alloc (filled n (cstring bs ++ cs))).release b⟩) ho
    fun v : Fields => { v with buffer_ := some s.heap.next }
  refine Returns.bind (object_returns ho) ?_
  have hwrap : wrap (n + 1) = n + 1 := Nat.mod_eq_of_lt hn
  rw [hwrap]
  exact Returns.bind (newChars_returns hg _ s) (Returns.bind hcopy (Returns.bind (harg _)
    (Returns.bind hcat (Returns.bind hdel hmod))))

/-- The state after an `operator+=`: object `i` has a new buffer, its old one, `b`, is released. -/
def appended (s : Store Fields (Option UInt8)) (i n b : Nat) (text : List UInt8) :
    Store Fields (Option UInt8) :=
  ⟨s.objects.set i ⟨n, some s.heap.next⟩, (s.heap.alloc (filled n text)).release b⟩

include h in
theorem appended_represents (hi : F.entry i = some bs) {b : Nat}
    (hown : Owns model s i b) (hfits : cs.length + 1 < 2 ^ 64) :
    Represents model (appended s i cs.length b cs) (F.set i cs) := by
  obtain ⟨slots, hb⟩ := h.live hown
  have hne : s.heap.next ≠ b := Nat.ne_of_gt (Heap.lt_next hb)
  refine replaced h hi hfits rfl ?_ fun d hd hdn => ?_
  · show ((s.heap.alloc (filled cs.length cs)).release b).array s.heap.next = _
    rw [Heap.release_array, Function.update_of_ne hne, Heap.alloc_array, Function.update_self,
      filled_self]
  · show ((s.heap.alloc (filled cs.length cs)).release b).array d = _
    rw [Heap.release_array, Function.update_of_ne, Heap.alloc_array, Function.update_of_ne hdn]
    rintro rfl
    exact hd hown

include hg h in
theorem append_returns (hi : F.entry i = some bs) (hj : F.entry j = some cs)
    (hfits : bs.length + cs.length + 1 < 2 ^ 64) : ∃ b, Owns model s i b ∧
    Returns (append refuses i j) s ()
      (appended s i (bs.length + cs.length) b (cstring bs ++ cstring cs)) := by
  obtain ⟨o, ho, hsize, _, b, hb, harr⟩ := h.lookup hi
  obtain ⟨w, hw, hwsize, hread⟩ := read_spec h hj (Nat.zero_le _)
  rw [List.drop_zero] at hread
  have hwrap : wrap (o.size_ + w.size_) = bs.length + cs.length := by
    rw [hsize, hwsize]
    exact Nat.mod_eq_of_lt (by omega)
  have hmod := modifyObject_returns ho fun v : Fields => { v with size_ := wrap (v.size_ + w.size_) }
  rw [hwrap, hb] at hmod
  have hput := Store.put_entry ho (⟨bs.length + cs.length, some b⟩ : Fields)
  -- the argument's buffer is where it was, also when the argument is the string itself
  have harg : ∀ heap, Returns (c_str j)
      ⟨s.objects.set i ⟨bs.length + cs.length, some b⟩, heap⟩ (.heap w.buffer_ 0)
      ⟨s.objects.set i ⟨bs.length + cs.length, some b⟩, heap⟩ := by
    intro heap
    by_cases hij : i = j
    · subst hij
      rw [ho] at hw
      cases hw
      rw [hb]
      exact Returns.bind (object_returns hput) (Returns.pure _ _)
    · have hwput : (s.objects.set i ⟨bs.length + cs.length, some b⟩).entry j = some w := by
        rw [Table.set_entry ho, Function.update_of_ne (Ne.symm hij)]
        exact hw
      exact Returns.bind (object_returns hwput) (Returns.pure _ _)
  have hlen : (cstring bs).length + (cstring cs).length ≤ bs.length + cs.length :=
    Nat.add_le_add (cstring_length_le bs) (cstring_length_le cs)
  have hcat := concatenate_returns (s := s.put i ⟨bs.length + cs.length, some b⟩) hg hput harr hfits
    hlen harg (readString_congr hread fun _ _ => rfl)
  rw [Store.put_objects, Table.set_set] at hcat
  exact ⟨b, ⟨o, ho, hb⟩, Returns.bind (object_returns hw) (Returns.bind hmod hcat)⟩

include hg h in
/-- `operator+=` on texts is concatenation, also of a text to itself. -/
theorem append_spec (hi : F.entry i = some bs) (hj : F.entry j = some cs) (hbs : 0 ∉ bs)
    (hcs : 0 ∉ cs) (hfits : bs.length + cs.length + 1 < 2 ^ 64) :
    ∃ s', Returns (append refuses i j) s () s' ∧ Represents model s' (F.set i (bs ++ cs)) := by
  obtain ⟨b, hown, hret⟩ := append_returns hg h hi hj hfits
  rw [cstring_of_textual hbs, cstring_of_textual hcs, ← List.length_append] at hret
  exact ⟨_, hret, appended_represents h hi hown (by rwa [List.length_append])⟩

include hg h in
theorem appendCString_returns (hi : F.entry i = some bs) {p : CPtr}
    (hread : Returns (readString p) s cs s) (hfits : bs.length + cs.length + 1 < 2 ^ 64) :
    ∃ b, Owns model s i b ∧ Returns (appendCString refuses i p) s ()
      (appended s i (bs.length + cs.length) b (cstring bs ++ cs)) := by
  obtain ⟨o, ho, hsize, _, b, hb, harr⟩ := h.lookup hi
  have hwrap : wrap (o.size_ + cs.length) = bs.length + cs.length := by
    rw [hsize]
    exact Nat.mod_eq_of_lt (by omega)
  have hmod := modifyObject_returns ho fun v : Fields => { v with size_ := wrap (v.size_ + cs.length) }
  rw [hwrap, hb] at hmod
  have hput := Store.put_entry ho (⟨bs.length + cs.length, some b⟩ : Fields)
  have hcat := concatenate_returns (s := s.put i ⟨bs.length + cs.length, some b⟩) hg hput harr hfits
    (Nat.add_le_add_right (cstring_length_le bs) _) (fun _ => Returns.pure p _)
    (readString_congr hread fun _ _ => rfl)
  rw [Store.put_objects, Table.set_set] at hcat
  exact ⟨b, ⟨o, ho, hb⟩, Returns.bind (strlen_returns hread) (Returns.bind hmod hcat)⟩

include hg h in
theorem appendCString_spec (hi : F.entry i = some bs) {p : CPtr}
    (hread : Returns (readString p) s cs s) (hbs : 0 ∉ bs)
    (hfits : bs.length + cs.length + 1 < 2 ^ 64) :
    ∃ s', Returns (appendCString refuses i p) s () s' ∧
      Represents model s' (F.set i (bs ++ cs)) := by
  obtain ⟨b, hown, hret⟩ := appendCString_returns hg h hi hread hfits
  rw [cstring_of_textual hbs, ← List.length_append] at hret
  exact ⟨_, hret, appended_represents h hi hown (by rwa [List.length_append])⟩

/-! ## Concatenation -/

include hg h in
theorem plus_spec (hi : F.entry i = some bs) (hj : F.entry j = some cs) (hbs : 0 ∉ bs)
    (hcs : 0 ∉ cs) (hfits : bs.length + cs.length + 1 < 2 ^ 64) :
    ∃ s', Returns (plus refuses i j) s F.next s' ∧ Represents model s' (F.add (bs ++ cs)) := by
  obtain ⟨s₁, hcopy, h₁⟩ := copyConstruct_spec hg h hi hbs
  obtain ⟨s₂, happ, h₂⟩ := append_spec hg h₁ (F.add_entry_self _) (Table.add_entry_old hj _) hbs
    hcs hfits
  rw [Table.add_set] at h₂
  exact ⟨s₂, Returns.bind hcopy (Returns.bind happ (Returns.pure _ s₂)), h₂⟩

/-- A C string outside the heap, or in the buffer of an existing string, is not disturbed by the
    construction of another string. -/
theorem readString_after {p : CPtr} (hread : Returns (readString p) s cs s)
    (hkeep : ∀ c slots, s.heap.array c = some slots → s'.heap.array c = s.heap.array c) :
    Returns (readString p) s' cs s' := by
  refine readString_congr hread fun c hc => ?_
  obtain ⟨slots, hslots⟩ := readString_live hread hc
  exact hkeep c slots hslots

include hg h in
theorem plusCString_spec (hi : F.entry i = some bs) {p : CPtr}
    (hread : Returns (readString p) s cs s) (hbs : 0 ∉ bs)
    (hfits : bs.length + cs.length + 1 < 2 ^ 64) :
    ∃ s', Returns (plusCString refuses i p) s F.next s' ∧
      Represents model s' (F.add (bs ++ cs)) := by
  obtain ⟨_, _, hold⟩ := h.lookup hi
  have hcopy := copyConstruct_returns hg h hi
  rw [cstring_of_textual hbs, filled_self] at hcopy
  have h₁ := added h bs hold.fits
  have hread₁ : Returns (readString p)
      ⟨s.objects.add ⟨bs.length, some s.heap.next⟩, s.heap.alloc (terminated bs)⟩ cs
      ⟨s.objects.add ⟨bs.length, some s.heap.next⟩, s.heap.alloc (terminated bs)⟩ :=
    readString_after hread fun c slots hc => Function.update_of_ne (Nat.ne_of_lt (Heap.lt_next hc)) _ _
  obtain ⟨s₂, happ, h₂⟩ := appendCString_spec hg h₁ (F.add_entry_self _) hread₁ hbs hfits
  rw [Table.add_set] at h₂
  exact ⟨s₂, Returns.bind hcopy (Returns.bind happ (Returns.pure _ s₂)), h₂⟩

include hg h in
theorem cstringPlus_spec {p : CPtr} (hread : Returns (readString p) s bs s)
    (hj : F.entry j = some cs) (hbs : 0 ∉ bs) (hcs : 0 ∉ cs)
    (hfits : bs.length + cs.length + 1 < 2 ^ 64) :
    ∃ s', Returns (cstringPlus refuses p j) s F.next s' ∧
      Represents model s' (F.add (bs ++ cs)) := by
  obtain ⟨s₁, hnew, h₁⟩ := ofCString_spec hg h hread (by omega)
  obtain ⟨s₂, happ, h₂⟩ := append_spec hg h₁ (F.add_entry_self _) (Table.add_entry_old hj _) hbs
    hcs hfits
  rw [Table.add_set] at h₂
  exact ⟨s₂, Returns.bind hnew (Returns.bind happ (Returns.pure _ s₂)), h₂⟩

end Operations

/-- Every text without NULs is the value of a string of some store. -/
theorem exists_string (bs : List UInt8) (hbs : 0 ∉ bs) (hfits : bs.length + 1 < 2 ^ 64) :
    ∃ s F, Represents model s F ∧ F.entry 0 = some bs := by
  have hread := readString_external (s := (Store.empty : Store Fields (Option UInt8))) bs
  rw [cstring_of_textual hbs] at hread
  obtain ⟨s, _, h⟩ := ofCString_spec (fun _ => rfl) Represents.empty hread hfits
  exact ⟨s, _, h, Table.add_entry_self _ bs⟩

end LinuxSamples.FbcString
