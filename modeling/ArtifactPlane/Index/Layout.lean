import ArtifactPlane.Index.Reader
import ArtifactPlane.Route.Walk

/-!
The layout of an index: a header, then the root node.  A node is its segment, the
number of its children, the children, and its artifact.  Texts and lists have their
length before them as a little-endian 64-bit word.
-/

namespace ArtifactPlane.Index

/-- The octets of `RTIX`. -/
def magic : Octets := [0x52, 0x54, 0x49, 0x58]

/-- The magic octets and the version in two octets. -/
def header : Octets := magic ++ [1, 0]

/-- The most levels that an index may have, the root's included. -/
def maxDepth : Nat := 128

/-- A word in eight octets, the least significant first. -/
def word (n : Nat) : Octets :=
  (List.range 8).map fun i => UInt8.ofNat (n >>> (8 * i))

/-- A text after the number of its octets. -/
def text (s : String) : Octets :=
  let bs := Octets.ofString s
  word bs.length ++ bs

/-- An artifact, or its absence, after a tag. -/
def artifact : Option Artifact → Octets
  | none => [0]
  | some a =>
    1 :: (text a.builtAt.render ++ text a.location ++ word a.dependsOn.length ++
      a.dependsOn.flatMap text)

mutual

/-- A node and all below it. -/
def node : RouteTree → Octets
  | ⟨segment, children, a⟩ =>
    text segment ++ word children.length ++ nodes children ++ artifact a

/-- Nodes one after another. -/
def nodes : List RouteTree → Octets
  | [] => []
  | t :: ts => node t ++ nodes ts

end

/-- Why a tree has no index. -/
inductive EncodeFault where
  | tooDeep
deriving DecidableEq, Repr

/-- The wording of a fault. -/
def EncodeFault.message : EncodeFault → String
  | .tooDeep => "route tree deeper than " ++ toString maxDepth ++ " levels"

/-- The index of a tree. -/
def encode (t : RouteTree) : Except EncodeFault Octets :=
  if maxDepth < t.depth then .error .tooDeep else .ok (header ++ node t)

theorem length_word (n : Nat) : (word n).length = 8 := by
  simp [word]

end ArtifactPlane.Index
