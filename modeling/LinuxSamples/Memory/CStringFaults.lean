import LinuxSamples.Memory.CString
import LinuxSamples.Memory.Faults

set_option autoImplicit false

/-! # The faults of the string functions

Reading a C string stops, where it stops, with the fault of an access or at a byte that was never
written; copying one also when source and target overlap. With respect to any other fault the
functions of `<string.h>` are safe, and all they change is the contents of one array. -/

namespace LinuxSamples.Memory

open LinuxSamples.Program

variable {Obj : Type} {bad : Fault}

/-- `e` is not the fault of a string function. -/
structure Fault.Alien (e : Fault) : Prop where
  access : e.Foreign
  unwritten : e ≠ .unwritten
  overlap : e ≠ .overlap

theorem Fault.badAlloc_alien : Fault.badAlloc.Alien := ⟨by decide, by decide, by decide⟩

theorem Fault.badDelete_alien : Fault.badDelete.Alien := ⟨by decide, by decide, by decide⟩

theorem scanString_faults {slots : List (Option UInt8)} {e : Fault}
    (h : scanString slots = .error e) : e = .outOfBounds ∨ e = .unwritten := by
  induction slots with
  | nil =>
      cases h
      exact Or.inl rfl
  | cons x slots ih =>
      cases x with
      | none =>
          cases h
          exact Or.inr rfl
      | some b =>
          rw [scanString] at h
          split at h
          · cases h
          · cases hscan : scanString slots with
            | ok bs =>
                rw [hscan] at h
                cases h
            | error e' =>
                rw [hscan] at h ih
                cases h
                exact ih rfl

theorem CPtr.slots_reads (hbad : bad.Alien) (p : CPtr) :
    Reads bad (p.slots : CharProg Obj (List (Option UInt8))) := by
  cases p with
  | external bytes => exact Reads.pure _
  | heap array index => exact (Reads.contents hbad.access array).bind fun _ => Reads.pure _

theorem Reads.readString (hbad : bad.Alien) (p : CPtr) :
    Reads bad (readString p : CharProg Obj (List UInt8)) := by
  refine Reads.bind (CPtr.slots_reads hbad p) fun slots => ?_
  cases hscan : scanString slots with
  | ok bs => exact Reads.pure bs
  | error e =>
      refine Reads.throw ?_
      rintro rfl
      rcases scanString_faults hscan with he | he
      · exact hbad.access.2.1 he
      · exact hbad.unwritten he

theorem Reads.strlen (hbad : bad.Alien) (p : CPtr) :
    Reads bad (strlen p : CharProg Obj Nat) :=
  (Reads.readString hbad p).bind fun _ => Reads.pure _

theorem writeSlots_writes (hbad : bad.Alien) (dst : Option Nat) (k : Nat)
    (new : List (Option UInt8)) :
    Within bad (Writes dst) (writeSlots dst k new : CharProg Obj Unit) := by
  intro s
  cases dst with
  | none => exact Avoids.of_fails ⟨s, rfl⟩ hbad.access.2.1.symm
  | some b =>
      cases hb : s.heap.array b with
      | none =>
          have hfail : Fails (writeSlots (some b) k new) s .released :=
            ⟨s, by simp [writeSlots, EStateM.run, hb]⟩
          exact Avoids.of_fails hfail hbad.access.2.2.symm
      | some slots =>
          by_cases hlen : k + new.length ≤ slots.length
          · exact Avoids.of_returns (writeSlots_returns k new hb hlen) (Writes.write hb _)
          · exact Avoids.of_fails (writeSlots_fails k new hb (Nat.not_le.1 hlen))
              hbad.access.2.1.symm

theorem writeSlots_within (hbad : bad.Alien) (dst : Option Nat) (k : Nat)
    (new : List (Option UInt8)) :
    Within bad Still (writeSlots dst k new : CharProg Obj Unit) :=
  (writeSlots_writes hbad dst k new).mono Writes.still

/-- The guard of the copying functions against overlapping arguments. -/
theorem unlessOverlap_within {R : Store Obj (Option UInt8) → Store Obj (Option UInt8) → Prop}
    (hbad : bad.Alien) {p : Prop} [Decidable p] {m : CharProg Obj Unit} (hm : Within bad R m) :
    Within bad R (if p then throw .overlap else m) :=
  Within.ite (fun s => Avoids.of_fails ⟨s, rfl⟩ hbad.overlap.symm) hm

theorem strcpy_writes (hbad : bad.Alien) (dst : Option Nat) (src : CPtr) :
    Within bad (Writes dst) (strcpy dst src : CharProg Obj Unit) :=
  (Reads.readString hbad src).then_within fun _ =>
    unlessOverlap_within hbad (writeSlots_writes hbad dst _ _)

theorem strcpy_within (hbad : bad.Alien) (dst : Option Nat) (src : CPtr) :
    Within bad Still (strcpy dst src : CharProg Obj Unit) :=
  (strcpy_writes hbad dst src).mono Writes.still

theorem strcat_within (hbad : bad.Alien) (dst : Option Nat) (src : CPtr) :
    Within bad Still (strcat dst src : CharProg Obj Unit) :=
  (Reads.readString hbad _).then_within fun _ => (Reads.readString hbad src).then_within fun _ =>
    unlessOverlap_within hbad (writeSlots_within hbad dst _ _)

theorem strncpy_within (hbad : bad.Alien) (dst : Option Nat) (src : CPtr) (n : Nat) :
    Within bad Still (strncpy dst src n : CharProg Obj Unit) :=
  (Reads.readString hbad src).then_within fun _ =>
    unlessOverlap_within hbad (writeSlots_within hbad dst _ _)

/-- Where `strlen` returns, it counts the bytes of a C string that can be read. -/
theorem strlen_found (hbad : bad.Alien) (p : CPtr) (s : Store Obj (Option UInt8)) :
    Avoids bad (strlen p) s fun n s' =>
      s' = s ∧ ∃ bs, Returns (readString p) s bs s ∧ n = bs.length where
  not_fails := (Reads.strlen hbad p s).not_fails
  ensures n s' hret := by
    obtain ⟨bs, s₁, hread, hlen⟩ := Returns.bind_inv hret
    obtain ⟨rfl, rfl⟩ := Returns.pure_inv hlen
    obtain rfl := (Reads.readString hbad p s).ensures bs s' hread
    exact ⟨rfl, bs, hread, rfl⟩

end LinuxSamples.Memory
