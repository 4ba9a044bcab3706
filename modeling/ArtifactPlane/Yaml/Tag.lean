import ArtifactPlane.Yaml.Cursor
import ArtifactPlane.Octets

/-!
Reading tags and directives.  A tag is a handle, which a directive expands, and a
suffix; the suffix is octets, since escapes in it need not make up whole characters.
Octets from a zero octet on are dropped.
-/

namespace ArtifactPlane.Yaml.Tag

/-- Characters of tag suffixes beside word characters. -/
def isUriChar (x : Char) : Bool :=
  isWordChar x ∨ ";/?:@&=+$.%!~*'()".toList.contains x

/-- Characters of verbatim tags and of expansions. -/
def isWideUriChar (x : Char) : Bool :=
  isUriChar x ∨ x = ',' ∨ x = '[' ∨ x = ']'

/-- The number of octets that a first octet announces. -/
def sequenceLength? (b : Nat) : Option Nat :=
  if b / 128 = 0 then some 1
  else if b / 32 = 6 then some 2
  else if b / 16 = 14 then some 3
  else if b / 8 = 30 then some 4
  else none

/-- One octet written as a percent sign and two hexadecimal digits. -/
def escapedOctet? : List Char → Option (Nat × List Char)
  | '%' :: a :: b :: rest => do return (16 * (← hexDigit? a) + (← hexDigit? b), rest)
  | _ => none

/-- Escaped octets that go on with a sequence. -/
def escapedTail? : Nat → List Char → Option (Octets × List Char)
  | 0, cs => some ([], cs)
  | n + 1, cs => do
    let (b, cs) ← escapedOctet? cs
    if b / 64 = 2 then
      let (bs, cs) ← escapedTail? n cs
      return (UInt8.ofNat b :: bs, cs)
    else none

/-- A whole sequence of escaped octets. -/
def escapedSequence? (cs : List Char) : Option (Octets × List Char) := do
  let (b, cs) ← escapedOctet? cs
  let n ← sequenceLength? b
  let (bs, cs) ← escapedTail? (n - 1) cs
  return (UInt8.ofNat b :: bs, cs)

/-- The characters of a suffix as octets, and what is left. -/
def uriFrom? (fits : Char → Bool) : Nat → List Char → Option (Octets × List Char)
  | 0, _ => none
  | _ + 1, [] => some ([], [])
  | fuel + 1, x :: rest =>
    if x = '%' then do
      let (bs, rest) ← escapedSequence? (x :: rest)
      let (more, rest) ← uriFrom? fits fuel rest
      return (bs ++ more, rest)
    else if fits x then do
      let (more, rest) ← uriFrom? fits fuel rest
      return (Octets.ofString (String.singleton x) ++ more, rest)
    else some ([], x :: rest)

/-- Read a suffix; it may be empty only where `mayBeEmpty` says so. -/
def uri? (fits : Char → Bool) (mayBeEmpty : Bool) (c : Cursor) : Option (Octets × Cursor) := do
  let (bs, rest) ← uriFrom? fits (c.rest.length + 1) c.rest
  let places := c.rest.length - rest.length
  if places = 0 ∧ !mayBeEmpty then none else return (bs.takeWhile (· ≠ 0), c.skip places)

/-- Read a handle: a `!`, word characters, and perhaps another `!`. -/
def handle? (c : Cursor) : Option (List Char × Cursor) :=
  if c.sees '!' then
    let (word, c) := (c.skip 1).span isWordChar
    if c.sees '!' then some ('!' :: word ++ ['!'], c.skip 1) else some ('!' :: word, c)
  else none

/-- Whether a handle is closed by a second `!`. -/
def isClosed (handle : List Char) : Bool :=
  handle.length ≠ 1 ∧ handle.getLast? = some '!'

/-- The handle and the suffix of a tag that is not verbatim. -/
def shorthand? (c : Cursor) : Option (String × Octets × Cursor) := do
  let (handle, c) ← handle? c
  if isClosed handle then
    let (suffix, c) ← uri? isUriChar false c
    return (String.ofList handle, suffix, c)
  else
    let (suffix, c) ← uri? isUriChar true c
    let suffix := Octets.ofString (String.ofList (handle.drop 1)) ++ suffix
    if suffix.isEmpty then return ("", Octets.ofString "!", c) else return ("!", suffix, c)

/-- The suffix of a tag between angle brackets. -/
def verbatim? (c : Cursor) : Option (String × Octets × Cursor) := do
  let (suffix, c) ← uri? isWideUriChar false (c.skip 2)
  if c.sees '>' then return ("", suffix, c.skip 1) else none

/-- Read a tag with what must come after it. -/
def read? (inFlow : Bool) (c : Cursor) : Option (String × Octets × Cursor) := do
  let (handle, suffix, c) ← if c.ahead? 1 = some '<' then verbatim? c else shorthand? c
  if isGap c.head? ∨ (inFlow ∧ c.sees ',') then return (handle, suffix, c) else none

/-- Read the handle and the expansion of a tag directive. -/
def directive? (c : Cursor) : Option (String × Octets × Cursor) := do
  let (handle, c) ← handle? (c.skipWhile isBlank)
  if handle ≠ ['!'] ∧ !isClosed handle then none
  if !(c.head?.any isBlank) then none
  let (expansion, c) ← uri? isWideUriChar false (c.skipWhile isBlank)
  if isGap c.head? then return (String.ofList handle, expansion, c) else none

/-- Read a version number of at most nine digits. -/
def versionNumber? (c : Cursor) : Option (Nat × Cursor) :=
  let (ds, c) := c.span fun x => '0' ≤ x ∧ x ≤ '9'
  if ds.isEmpty ∨ 9 < ds.length then none
  else some (ds.foldl (fun n d => 10 * n + (d.toNat - '0'.toNat)) 0, c)

/-- Read the numbers of a version directive. -/
def version? (c : Cursor) : Option (Nat × Nat × Cursor) := do
  let (major, c) ← versionNumber? (c.skipWhile isBlank)
  if c.sees '.' then
    let (minor, c) ← versionNumber? (c.skip 1)
    return (major, minor, c)
  else none

end ArtifactPlane.Yaml.Tag
