import ArtifactPlane.Yaml.Scalar
import ArtifactPlane.Yaml.Tag
import ArtifactPlane.Yaml.Token

/-!
From YAML text to tokens.  Outside of flow collections the column of a line opens
and closes block collections.  A key without an indicator is known as one only at
its colon: until then the place before it is kept as a possible key, one for each
flow collection and one outside of all, on one line and within 1024 characters.
-/

namespace ArtifactPlane.Yaml

/-- A place where a key may turn out to begin. -/
structure PossibleKey where
  /-- Whether the text is wrong unless it is a key. -/
  required : Bool
  /-- The number of tokens before it. -/
  place : Nat
  line : Nat
  column : Nat
deriving DecidableEq, Repr

/-- A text read in part. -/
structure Scanner where
  cursor : Cursor
  tokens : Array Token
  /-- The column of the innermost block collection, -1 outside of all. -/
  indent : Int
  /-- The columns of the block collections around it. -/
  outer : List Int
  /-- Whether a key without an indicator may begin here. -/
  keyAllowed : Bool
  /-- The possible key of each flow collection, innermost first, and the one outside
  of all of them. -/
  keys : List (Option PossibleKey)

namespace Scanner

/-- A scanner before its first token. -/
def start (cs : List Char) : Scanner :=
  ⟨.ofChars cs, #[], -1, [], true, [none]⟩

/-- Whether a flow collection is open. -/
def inFlow (s : Scanner) : Bool := 1 < s.keys.length

/-- The column of the next character. -/
def column (s : Scanner) : Int := s.cursor.column

/-- Add a token at the end. -/
def push (s : Scanner) (t : Token) : Scanner := { s with tokens := s.tokens.push t }

/-- Put a token before all but the first `place` tokens. -/
def insertAt (s : Scanner) (place : Nat) (t : Token) : Scanner :=
  { s with tokens := s.tokens.insertIdxIfInBounds place t }

/-- Pass over some characters of the line. -/
def advance (s : Scanner) (places : Nat) : Scanner := { s with cursor := s.cursor.skip places }

/-- Set whether a simple key may start here. -/
def allowKey (s : Scanner) (allowed : Bool) : Scanner := { s with keyAllowed := allowed }

/-- Set the possible key of the innermost level. -/
def setKey (s : Scanner) (key : Option PossibleKey) : Scanner :=
  { s with keys := key :: s.keys.tail }

/-- The possible key of the innermost level. -/
def key? (s : Scanner) : Option PossibleKey := s.keys.head?.join

/-- Give the innermost possible key up, unless it is required. -/
def dropKey? (s : Scanner) : Option Scanner :=
  if s.key?.any (·.required) then none else some (s.setKey none)

/-- Note that a key may begin here. -/
def saveKey? (s : Scanner) : Option Scanner :=
  if s.keyAllowed then do
    let required : Bool := !s.inFlow && s.indent == s.column
    let s ← s.dropKey?
    return s.setKey (some ⟨required, s.tokens.size, s.cursor.line, s.cursor.column⟩)
  else some s

/-- The most characters between the beginning of a key and its colon. -/
def keyLimit : Nat := 1024

/-- Whether a possible key lies too far back. -/
def isStale (c : Cursor) (k : PossibleKey) : Bool :=
  k.line < c.line ∨ k.column + keyLimit < c.column

/-- Give up possible keys that lie too far back. -/
def dropStale? (s : Scanner) : Option Scanner :=
  let stale := fun k : Option PossibleKey => k.any (isStale s.cursor)
  if s.keys.any fun k => stale k && k.any (·.required) then none
  else some { s with keys := s.keys.map fun k => if stale k then none else k }

/-- Begin a block collection at a column if it lies deeper than the innermost one. -/
def roll (s : Scanner) (column : Int) (place : Nat) (t : Token) : Scanner :=
  if s.inFlow = false ∧ s.indent < column then
    { s.insertAt place t with indent := column, outer := s.indent :: s.outer }
  else s

/-- End the block collections that lie deeper than a column, given those around them. -/
def unrollFrom (column : Int) : List Int → Scanner → Scanner
  | [], s => s
  | i :: outer, s =>
    if column < s.indent then unrollFrom column outer { s.push .blockEnd with indent := i, outer }
    else s

/-- End the block collections that lie deeper than a column. -/
def unroll (s : Scanner) (column : Int) : Scanner :=
  if s.inFlow then s else unrollFrom column s.outer s

/-- Move over blanks, comments and line breaks.  A tab does not count as a blank where
it could be taken for indentation. -/
def skipGap : Nat → Scanner → Scanner
  | 0, s => s
  | fuel + 1, s =>
    let atStart : Bool := s.cursor.line == 0 && s.cursor.column == 0
    let c := if atStart && s.cursor.sees '\ufeff' then s.cursor.skip 1 else s.cursor
    let tabs : Bool := s.inFlow || !s.keyAllowed
    let c := (c.skipWhile fun x => x = ' ' ∨ (tabs ∧ x = '\t')).skipComment
    if c.atBreak then
      skipGap fuel { s with cursor := c.skipBreak, keyAllowed := s.keyAllowed || !s.inFlow }
    else { s with cursor := c }

/-- The end of the text, which ends its last line too. -/
def streamEnd? (s : Scanner) : Option Scanner :=
  (s.unroll (-1)).dropKey?.map (·.push .streamEnd)

/-- A mark of the beginning or the end of a document. -/
def documentMark? (t : Token) (s : Scanner) : Option Scanner :=
  (s.unroll (-1)).dropKey?.map fun s => ((s.allowKey false).push t).advance 3

/-- Read the token of a directive up to the end of the line. -/
def directiveToken? (c : Cursor) : Option (Token × Cursor) := do
  let (name, c) := (c.skip 1).span isWordChar
  if name.isEmpty ∨ !isGap c.head? then none
  let (t, c) ← (match String.ofList name with
    | "YAML" => do
      let (major, minor, c) ← Tag.version? c
      return (Token.versionDirective major minor, c)
    | "TAG" => do
      let (handle, expansion, c) ← Tag.directive? c
      return (Token.tagDirective handle expansion, c)
    | _ => none)
  return (t, ← c.endLine?)

/-- Read a directive. -/
def directive? (s : Scanner) : Option Scanner := do
  let s ← (s.unroll (-1)).dropKey?
  let (t, c) ← directiveToken? s.cursor
  return { (s.allowKey false).push t with cursor := c }

/-- The beginning of a flow collection. -/
def flowStart? (t : Token) (s : Scanner) : Option Scanner := do
  let s ← s.saveKey?
  return ({ (s.allowKey true).push t with keys := none :: s.keys }).advance 1

/-- The end of a flow collection. -/
def flowEnd? (t : Token) (s : Scanner) : Option Scanner := do
  let s ← s.dropKey?
  let keys := if s.inFlow then s.keys.tail else s.keys
  return ({ (s.allowKey false).push t with keys }).advance 1

/-- Read the comma after an item of a flow collection. -/
def flowEntry? (s : Scanner) : Option Scanner := do
  let s ← s.dropKey?
  return ((s.allowKey true).push .flowEntry).advance 1

/-- Begin a block collection here, where a key must be allowed. -/
def rollHere? (t : Token) (s : Scanner) : Option Scanner :=
  if s.inFlow then some s
  else if s.keyAllowed then some (s.roll s.column s.tokens.size t)
  else none

/-- Read the dash before an item of a block sequence. -/
def blockEntry? (s : Scanner) : Option Scanner := do
  let s ← (← s.rollHere? .blockSequenceStart).dropKey?
  return ((s.allowKey true).push .blockEntry).advance 1

/-- The indicator of a key. -/
def keyIndicator? (s : Scanner) : Option Scanner := do
  let s ← (← s.rollHere? .blockMappingStart).dropKey?
  return ((s.allowKey !s.inFlow).push .key).advance 1

/-- The colon after a key. -/
def valueIndicator? (s : Scanner) : Option Scanner := do
  let s ← (match s.key? with
    | some k =>
      let s := (s.insertAt k.place .key).roll k.column k.place .blockMappingStart
      some ((s.setKey none).allowKey false)
    | none => do
      let s ← s.rollHere? .blockMappingStart
      return s.allowKey !s.inFlow)
  return (s.push .value).advance 1

/-- The name of an anchor or an alias, with what must come after it. -/
def name? (c : Cursor) : Option (String × Cursor) :=
  let (name, c) := (c.skip 1).span isWordChar
  let ends := isGap c.head? || c.head?.any fun x => "?:,]\x7d%@\x60".toList.contains x
  if name.isEmpty ∨ !ends then none else some (String.ofList name, c)

/-- Read a name after `&` or `*`. -/
def anchor? (token : String → Token) (s : Scanner) : Option Scanner := do
  let s ← s.saveKey?
  let (name, c) ← name? s.cursor
  return { (s.allowKey false).push (token name) with cursor := c }

/-- Read a tag. -/
def tag? (s : Scanner) : Option Scanner := do
  let s ← s.saveKey?
  let (handle, suffix, c) ← Tag.read? s.inFlow s.cursor
  return { (s.allowKey false).push (.tag handle suffix) with cursor := c }

/-- Read a block scalar. -/
def blockScalar? (literal : Bool) (s : Scanner) : Option Scanner := do
  let s ← s.dropKey?
  let (text, c) ← Scalar.block? literal s.indent (s.cursor.skip 1)
  let style := if literal then Style.literal else .folded
  return { (s.allowKey true).push (.scalar style (String.ofList text)) with cursor := c }

/-- Read a quoted scalar. -/
def quotedScalar? (single : Bool) (s : Scanner) : Option Scanner := do
  let s ← s.saveKey?
  let (text, c) ← Scalar.quoted? single s.cursor
  return { (s.allowKey false).push (.scalar .quoted (String.ofList text)) with cursor := c }

/-- Read a plain scalar. -/
def plainScalar? (s : Scanner) : Option Scanner := do
  let s ← s.saveKey?
  let p ← Scalar.plain? s.inFlow (s.indent + 1).toNat s.cursor
  return { (s.allowKey p.lineEnded).push (.scalar .plain (String.ofList p.text)) with
    cursor := p.cursor }

/-- Characters that begin no plain scalar. -/
def isIndicator (x : Char) : Bool :=
  "-?:,[]\x7b\x7d#&*!|>'\"%@\x60".toList.contains x

/-- Whether a plain scalar begins with this character before that one. -/
def beginsPlain (inFlow : Bool) (x : Char) (next : Option Char) : Bool :=
  !(isGap (some x) ∨ isIndicator x) ∨ (x = '-' ∧ !next.any isBlank) ∨
    (!inFlow ∧ (x = '?' ∨ x = ':') ∧ !isGap next)

/-- The token that begins with a character. -/
def tokenAt? (s : Scanner) (x : Char) : Option Scanner :=
  let next := s.cursor.ahead? 1
  if s.cursor.column = 0 ∧ x = '%' then s.directive?
  else if s.cursor.atMark '-' then s.documentMark? .documentStart
  else if s.cursor.atMark '.' then s.documentMark? .documentEnd
  else if x = '[' then s.flowStart? .flowSequenceStart
  else if x = '\x7b' then s.flowStart? .flowMappingStart
  else if x = ']' then s.flowEnd? .flowSequenceEnd
  else if x = '\x7d' then s.flowEnd? .flowMappingEnd
  else if x = ',' then s.flowEntry?
  else if x = '-' ∧ isGap next then s.blockEntry?
  else if x = '?' ∧ (s.inFlow ∨ isGap next) then s.keyIndicator?
  else if x = ':' ∧ (s.inFlow ∨ isGap next) then s.valueIndicator?
  else if x = '*' then s.anchor? .reference
  else if x = '&' then s.anchor? .anchor
  else if x = '!' then s.tag?
  else if x = '|' ∧ !s.inFlow then s.blockScalar? true
  else if x = '>' ∧ !s.inFlow then s.blockScalar? false
  else if x = '\'' then s.quotedScalar? true
  else if x = '"' then s.quotedScalar? false
  else if beginsPlain s.inFlow x next then s.plainScalar?
  else none

/-- Read up to the end of the text; each token takes at least one character. -/
def finish? : Nat → Scanner → Option Scanner
  | 0, _ => none
  | fuel + 1, s => do
    let s ← (skipGap (s.cursor.rest.length + 1) s).dropStale?
    let s := s.unroll s.column
    match s.cursor.head? with
    | none => s.streamEnd?
    | some x => finish? fuel (← s.tokenAt? x)

end Scanner

/-- The tokens of a text. -/
def tokens? (text : String) : Option (List Token) :=
  let cs := text.toList
  if cs.all isAllowed then
    let cs := unifyBreaks cs
    ((Scanner.start cs).finish? (cs.length + 1)).map (·.tokens.toList)
  else none

end ArtifactPlane.Yaml
