import ArtifactPlane.Index.Scan

/-!
Reading a route tree from its index.  The header is checked first, then the depth
of the node structure, then the nodes are read and nothing may follow them.
-/

namespace ArtifactPlane.Index

/-- A text after its length. -/
def readText : Reader String := do
  match Text.Utf8.decode (← Reader.counted) with
  | .ok s => return s
  | .error fault => throw (.text fault)

/-- A timestamp in any written form. -/
def readTimestamp : Reader Timestamp := do
  match Timestamp.parse (← readText) with
  | .ok t => return t
  | .error fault => throw (.timestamp fault)

/-- As many items as asked for. -/
def readMany {α : Type} (item : Reader α) : Nat → Reader (List α)
  | 0 => return []
  | n + 1 => do
    let a ← item
    return a :: (← readMany item n)

/-- An artifact or its absence. -/
def readArtifact : Reader (Option Artifact) := do
  let tag ← Reader.octet
  if tag = 0 then return none
  else if tag = 1 then
    let builtAt ← readTimestamp
    let location ← readText
    let dependsOn ← readMany readText (← Reader.word)
    return some ⟨builtAt, location, dependsOn⟩
  else throw (.artifactTag tag)

/-- A node with at most `levels` levels. -/
def readNode : (levels : Nat) → Reader RouteTree
  | 0 => throw .tooDeep
  | levels + 1 => do
    let segment ← readText
    let children ← readMany (readNode levels) (← Reader.word)
    return ⟨segment, children, ← readArtifact⟩

/-- The payload after a valid header. -/
def payload (bs : Octets) : Except Fault Octets :=
  if bs.length < headerSize then .error (.shortHeader bs.length)
  else if bs.take 4 ≠ magic then .error .badMagic
  else
    let v := Reader.littleEndian ((bs.drop 4).take 2)
    if v ≠ version then .error (.unsupportedVersion v) else .ok (bs.drop headerSize)

/-- The tree of an index. -/
def decode (bs : Octets) : Except Fault RouteTree := do
  let body ← payload bs
  checkDepth body
  let (t, rest) ← readNode maxDepth body
  if rest.isEmpty then .ok t else .error .trailing

end ArtifactPlane.Index
