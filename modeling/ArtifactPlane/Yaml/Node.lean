import ArtifactPlane.Yaml.Scanner

/-!
From tokens to the nodes of a document.  An anchor is numbered by how many names were
anchored before it; an alias stands for the last node with its number.
-/

namespace ArtifactPlane.Yaml

/-- A node of a document, with the number of its anchor if it has one. -/
inductive Node where
  | scalar (anchor : Option Nat) (tag : Option Octets) (style : Style) (text : String)
  | reference (anchor : Nat)
  | sequence (anchor : Option Nat) (items : List Node)
  | mapping (anchor : Option Nat) (entries : List (Node × Node))
deriving Repr, Inhabited

namespace Node

/-- The number of a node's anchor. -/
def anchor? : Node → Option Nat
  | scalar anchor _ _ _ => anchor
  | reference _ => none
  | sequence anchor _ => anchor
  | mapping anchor _ => anchor

mutual

/-- The anchored nodes of a tree, each node before those inside it. -/
def anchored (n : Node) : List (Nat × Node) :=
  (n.anchor?.toList.map fun a => (a, n)) ++
    match n with
    | scalar _ _ _ _ => []
    | reference _ => []
    | sequence _ items => anchoredItems items
    | mapping _ entries => anchoredEntries entries

/-- The anchored nodes of a list of nodes. -/
def anchoredItems : List Node → List (Nat × Node)
  | [] => []
  | n :: ns => anchored n ++ anchoredItems ns

/-- The anchored nodes of the entries of a mapping. -/
def anchoredEntries : List (Node × Node) → List (Nat × Node)
  | [] => []
  | (k, v) :: rest => anchored k ++ anchored v ++ anchoredEntries rest

end

end Node

/-- What is known while a document is read. -/
structure Parse where
  tokens : List Token
  /-- Anchored names with their numbers, the newest first. -/
  names : List (String × Nat)
  /-- Tag handles with their expansions. -/
  handles : List (String × Octets)

/-- Reads tokens from the front; `none` when they make up no document. -/
abbrev Reader := StateT Parse Option

namespace Reader

/-- The next token.  Tokens end with the end of the stream, which is not passed. -/
def peek : Reader Token := do
  return (← get).tokens.headD .streamEnd

/-- Pass over the next token. -/
def skip : Reader Unit := modify fun p => { p with tokens := p.tokens.tail }

/-- Pass the next token if it is the given one. -/
def accept (t : Token) : Reader Bool := do
  if (← peek) = t then
    skip
    return true
  else return false

/-- The names known so far, each counted once. -/
def countNames (names : List (String × Nat)) : Nat :=
  (names.map (·.1)).eraseDups.length

/-- Give a name to the node that begins here. -/
def bindName : Option String → Reader (Option Nat)
  | none => return none
  | some name => do
    let p ← get
    let number := countNames p.names
    set { p with names := (name, number) :: p.names }
    return some number

/-- The octets of a tag. -/
def expandTag : Option (String × Octets) → Reader (Option Octets)
  | none => return none
  | some (handle, suffix) => do
    if handle = "" then return some suffix
    else
      let p ← get
      let expansion ← p.handles.lookup handle
      return some (expansion ++ suffix)

/-- The anchor before a node, if the next token is one. -/
def anchorName : Reader (Option String) := do
  match ← peek with
  | .anchor name =>
    skip
    return some name
  | _ => return none

/-- The tag before a node, if the next token is one. -/
def tagParts : Reader (Option (String × Octets)) := do
  match ← peek with
  | .tag handle suffix =>
    skip
    return some (handle, suffix)
  | _ => return none

/-- The anchor and the tag of a node, in either order. -/
def properties : Reader (Option String × Option (String × Octets)) := do
  match ← anchorName with
  | some name => return (some name, ← tagParts)
  | none =>
    match ← tagParts with
    | some tag => return (← anchorName, some tag)
    | none => return (none, none)

/-- A node that is not written. -/
def absent : Node := .scalar none none .plain ""

/-- Where a node stands. -/
inductive Place where
  /-- A document or an entry of a block sequence. -/
  | block
  /-- A key or a value of a block mapping, which may be a sequence that is not
  indented. -/
  | mappingPart
  | flow
deriving DecidableEq, Repr

/-- The token that ends one of the lists below. -/
def isOneOf (ts : List Token) : Reader Bool := do
  return ts.contains (← peek)

mutual

/-- A node at a place. -/
def node : Nat → Place → Reader Node
  | 0, _ => failure
  | fuel + 1, place => do
    if let .reference name ← peek then
      skip
      return .reference (← (← get).names.lookup name)
    else
      let (name, parts) ← properties
      let tag ← expandTag parts
      let t ← peek
      if place = .mappingPart ∧ t = .blockEntry then
        let anchor ← bindName name
        return .sequence anchor (← looseEntries fuel)
      else
        match t with
        | .scalar style text =>
          skip
          let tag := if tag = some (Octets.ofString "!") then none else tag
          return .scalar (← bindName name) tag style text
        | .flowSequenceStart =>
          skip
          let anchor ← bindName name
          return .sequence anchor (← flowItems fuel true)
        | .flowMappingStart =>
          skip
          let anchor ← bindName name
          return .mapping anchor (← flowPairs fuel true)
        | t =>
          if t = .blockSequenceStart ∧ place ≠ .flow then
            skip
            let anchor ← bindName name
            return .sequence anchor (← blockEntries fuel)
          else if t = .blockMappingStart ∧ place ≠ .flow then
            skip
            let anchor ← bindName name
            return .mapping anchor (← blockPairs fuel)
          else if name.isSome ∨ tag.isSome then
            return .scalar (← bindName name) tag .plain ""
          else failure

/-- A node, or none where one of some tokens follows. -/
def nodeUnless : Nat → Place → List Token → Reader Node
  | 0, _, _ => failure
  | fuel + 1, place, ts => do
    if ← isOneOf ts then return absent else node fuel place

/-- The entries of an indented sequence with its end. -/
def blockEntries : Nat → Reader (List Node)
  | 0 => failure
  | fuel + 1 => do
    if ← accept .blockEntry then
      let n ← nodeUnless fuel .block [.blockEntry, .blockEnd]
      return n :: (← blockEntries fuel)
    else if ← accept .blockEnd then return []
    else failure

/-- The entries of a sequence that is not indented. -/
def looseEntries : Nat → Reader (List Node)
  | 0 => failure
  | fuel + 1 => do
    if ← accept .blockEntry then
      let n ← nodeUnless fuel .block [.blockEntry, .key, .value, .blockEnd]
      return n :: (← looseEntries fuel)
    else return []

/-- The entries of a block mapping with its end. -/
def blockPairs : Nat → Reader (List (Node × Node))
  | 0 => failure
  | fuel + 1 => do
    if ← accept .key then
      let k ← nodeUnless fuel .mappingPart [.key, .value, .blockEnd]
      let v ←
        if ← accept .value then nodeUnless fuel .mappingPart [.key, .value, .blockEnd]
        else pure absent
      return (k, v) :: (← blockPairs fuel)
    else if ← accept .blockEnd then return []
    else failure

/-- A mapping of one pair inside a flow sequence.  Where its key is not written the
next token goes with it. -/
def singlePair : Nat → Reader Node
  | 0 => failure
  | fuel + 1 => do
    let k ←
      if ← isOneOf [.value, .flowEntry, .flowSequenceEnd] then do
        skip
        pure absent
      else node fuel .flow
    let v ←
      if ← accept .value then nodeUnless fuel .flow [.flowEntry, .flowSequenceEnd]
      else pure absent
    return .mapping none [(k, v)]

/-- The items of a flow sequence with its end. -/
def flowItems : Nat → Bool → Reader (List Node)
  | 0, _ => failure
  | fuel + 1, first => do
    if ← accept .flowSequenceEnd then return []
    else
      if !first then
        if !(← accept .flowEntry) then failure
      if ← accept .key then
        let n ← singlePair fuel
        return n :: (← flowItems fuel false)
      else if ← accept .flowSequenceEnd then return []
      else
        let n ← node fuel .flow
        return n :: (← flowItems fuel false)

/-- The pairs of a flow mapping with its end. -/
def flowPairs : Nat → Bool → Reader (List (Node × Node))
  | 0, _ => failure
  | fuel + 1, first => do
    if ← accept .flowMappingEnd then return []
    else
      if !first then
        if !(← accept .flowEntry) then failure
      if ← accept .key then
        let k ← nodeUnless fuel .flow [.value, .flowEntry, .flowMappingEnd]
        let v ←
          if ← accept .value then nodeUnless fuel .flow [.flowEntry, .flowMappingEnd]
          else pure absent
        return (k, v) :: (← flowPairs fuel false)
      else if ← accept .flowMappingEnd then return []
      else
        let k ← node fuel .flow
        return (k, absent) :: (← flowPairs fuel false)

end

/-- Versions that can be read. -/
def isKnownVersion (major minor : Nat) : Bool :=
  major = 1 ∧ (minor = 1 ∨ minor = 2)

/-- Handles that need no directive. -/
def standardHandles : List (String × Octets) :=
  [("!", Octets.ofString "!"), ("!!", Octets.ofString "tag:yaml.org,2002:")]

/-- The directives of a document; `versioned` tells whether its version is known. -/
def directives : Nat → Bool → Reader Unit
  | 0, _ => failure
  | fuel + 1, versioned => do
    match ← peek with
    | .versionDirective major minor =>
      if versioned ∨ !isKnownVersion major minor then failure
      skip
      directives fuel true
    | .tagDirective handle expansion =>
      let p ← get
      if (p.handles.lookup handle).isSome then failure
      set { p with handles := p.handles ++ [(handle, expansion)] }
      skip
      directives fuel versioned
    | _ => return ()

/-- Whether a token begins a document that is marked as one. -/
def beginsMarked : Token → Bool
  | .versionDirective _ _ => true
  | .tagDirective _ _ => true
  | .documentStart => true
  | _ => false

/-- Put the standard handles after those of directives. -/
def addStandardHandles : Reader Unit :=
  modify fun p => { p with handles := p.handles ++ standardHandles }

/-- Pass ends of documents up to the end of the stream. -/
def streamEnd : Nat → Reader Unit
  | 0 => failure
  | fuel + 1 => do
    if ← accept .documentEnd then streamEnd fuel
    else if (← peek) = .streamEnd then return ()
    else failure

/-- The node of a document after its mark. -/
def content (fuel : Nat) : Reader Node := do
  let t ← peek
  if beginsMarked t ∨ t = .documentEnd ∨ t = .streamEnd then return absent
  else node fuel .block

/-- The only document of a stream, or none in a stream without one. -/
def stream (fuel : Nat) : Reader (Option Node) := do
  let t ← peek
  if t = .streamEnd then return none
  else if beginsMarked t then
    directives fuel false
    addStandardHandles
    if !(← accept .documentStart) then failure
    let n ← content fuel
    streamEnd fuel
    return some n
  else
    addStandardHandles
    let n ← node fuel .block
    streamEnd fuel
    return some n

end Reader

/-- A document: its root, if there is one, and its anchored nodes. -/
structure Document where
  root : Option Node
  anchored : List (Nat × Node)

namespace Document

/-- The only document of a text. -/
def ofText? (text : String) : Option Document := do
  let tokens ← tokens? text
  let fuel := 4 * tokens.length + 8
  let (root, _) ← (Reader.stream fuel).run ⟨tokens, [], []⟩
  return ⟨root, root.toList.flatMap Node.anchored⟩

/-- The node that an alias stands for, and any other node itself. -/
def follow? (d : Document) : Node → Option Node
  | .reference a => ((d.anchored.filter fun p => p.1 = a).getLast?).map (·.2)
  | n => some n

end Document

end ArtifactPlane.Yaml
