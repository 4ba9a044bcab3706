/-!
Octet strings: object contents, index payloads and hash inputs.
-/

namespace ArtifactPlane

/-- A finite string of octets. -/
abbrev Octets := List UInt8

/-- The UTF-8 octets of a text. -/
def Octets.ofString (s : String) : Octets :=
  s.toUTF8.data.toList

/-- Two lower-case hexadecimal digits of an octet. -/
def Octets.hexPair (b : UInt8) : List Char :=
  [Nat.digitChar (b.toNat / 16), Nat.digitChar (b.toNat % 16)]

/-- Every octet written as two lower-case hexadecimal digits. -/
def Octets.hex (bs : Octets) : String :=
  String.ofList (bs.flatMap Octets.hexPair)

end ArtifactPlane
