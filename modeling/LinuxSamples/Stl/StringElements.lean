import LinuxSamples.Stl.ClassVector
import LinuxSamples.Stl.StringRuns

set_option autoImplicit false

/-! # Strings as elements of a vector

The members of `fbcstd::string` that `fbcstd::vector` calls when `T` is `string`. -/

namespace LinuxSamples.StringClass

open LinuxSamples.Program LinuxSamples.Memory LinuxSamples.ClassVector

/-- What a string can hold that is copied with `strcpy`. -/
structure Text where
  bytes : List UInt8
  textual : 0 ∉ bytes
  fits : bytes.length + 1 < 2 ^ 64
  deriving DecidableEq

def Text.empty : Text := ⟨[], by decide, by decide⟩

abbrev Strings : Type := Store FbcString.Fields (Option UInt8)

/-- An object is made by `string(const char*)`. -/
def stringClass (refuses : Nat → Bool) : Class Strings Text where
  construct := FbcString.default refuses
  make x := FbcString.ofCString refuses (.external (x.bytes ++ [0]))
  copyConstruct := FbcString.copyConstruct refuses
  assign := FbcString.assign refuses
  destroy := FbcString.destroy

end LinuxSamples.StringClass
