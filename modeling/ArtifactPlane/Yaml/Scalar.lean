import ArtifactPlane.Yaml.Cursor

/-!
Reading scalars.  A line break between words is folded: one break is written as a
blank, of several all but the first stay.  Line and paragraph separators stay as
they are.  Literal scalars keep their breaks.
-/

namespace ArtifactPlane.Yaml.Scalar

/-- What stands between two words. -/
structure Gap where
  /-- Blanks on the line of the word before. -/
  blanks : List Char
  /-- Whether the line of the word before has ended. -/
  ended : Bool
  /-- The break at the end of that line, unless it was escaped. -/
  first : Option Char
  /-- Breaks of empty lines. -/
  more : List Char

/-- No gap yet. -/
def Gap.none : Gap := ⟨[], false, .none, []⟩

/-- A gap after an escaped line break. -/
def Gap.escaped : Gap := ⟨[], true, .none, []⟩

/-- A break folded with those after it. -/
def fold (first : Option Char) (more : List Char) : List Char :=
  if first = some '\n' then (if more.isEmpty then [' '] else more) else first.toList ++ more

/-- What a gap stands for. -/
def Gap.text (g : Gap) : List Char :=
  if g.ended then fold g.first g.more else g.blanks

/-- Add a blank; those at the beginning of a line do not count. -/
def Gap.blank (g : Gap) (x : Char) : Gap :=
  if g.ended then g else { g with blanks := g.blanks ++ [x] }

/-- Add a line break. -/
def Gap.break (g : Gap) (x : Char) : Gap :=
  if g.ended then { g with more := g.more ++ [x] } else { g with ended := true, first := some x }

/-- Read on over blanks and breaks.  After a break, no tab may stand before the
column `margin`. -/
def gap? (margin : Nat) (g : Gap) (c : Cursor) : Option (Gap × Cursor) :=
  match h : c.rest with
  | [] => some (g, c)
  | x :: rest =>
    if isBlank x then
      if g.ended ∧ c.column < margin ∧ x = '\t' then none
      else gap? margin (g.blank x) ⟨rest, c.line, c.column + 1⟩
    else if isBreak x then gap? margin (g.break x) ⟨rest, c.line + 1, 0⟩
    else some (g, c)
termination_by c.rest.length
decreasing_by all_goals simp [h]

/-- Whether a colon that is no indicator stands before a flow indicator. -/
def isStrayColon (x : Char) (next : Option Char) : Bool :=
  x = ':' ∧ next.any fun y => y = ',' ∨ y = '?' ∨ y = '[' ∨ y = ']' ∨ y = '{' ∨ y = '}'

/-- Whether a character ends the words of a plain scalar. -/
def endsPlain (inFlow : Bool) (x : Char) (next : Option Char) : Bool :=
  isGap (some x) ∨ (x = ':' ∧ isGap next) ∨
    (inFlow ∧ (x = ',' ∨ x = '[' ∨ x = ']' ∨ x = '{' ∨ x = '}'))

/-- A word of a plain scalar. -/
def plainWord? (inFlow : Bool) : List Char → Option (List Char)
  | [] => some []
  | x :: rest =>
    if inFlow ∧ isStrayColon x rest.head? then none
    else if endsPlain inFlow x rest.head? then some []
    else (plainWord? inFlow rest).map (x :: ·)

/-- A plain scalar as far as it was read: its text, where it ends, and whether its
last line has ended. -/
structure Plain where
  text : List Char
  cursor : Cursor
  lineEnded : Bool

/-- Read on in a plain scalar: words with `g` before the next of them.  Outside of
flow collections it ends before a line indented less than `margin`. -/
def plainFrom? (inFlow : Bool) (margin : Nat) : Nat → List Char → Gap → Cursor → Option Plain
  | 0, _, _, _ => none
  | fuel + 1, text, g, c =>
    if c.atDocumentMark ∨ c.sees '#' then some ⟨text, c, g.ended⟩
    else do
      let word ← plainWord? inFlow c.rest
      let text := if word.isEmpty then text else text ++ g.text ++ word
      let g := if word.isEmpty then g else Gap.none
      let c := c.skip word.length
      if c.rest.isEmpty ∨ !isGap c.head? then some ⟨text, c, g.ended⟩
      else
        let (g, c) ← gap? margin g c
        if inFlow = false ∧ c.column < margin then some ⟨text, c, g.ended⟩
        else plainFrom? inFlow margin fuel text g c

/-- Read a plain scalar. -/
def plain? (inFlow : Bool) (margin : Nat) (c : Cursor) : Option Plain :=
  plainFrom? inFlow margin (c.rest.length + 1) [] Gap.none c

/-- Escapes that stand for one fixed character. -/
def simpleEscape? : Char → Option Char
  | '0' => some '\x00'
  | 'a' => some '\x07'
  | 'b' => some '\x08'
  | 't' => some '\t'
  | '\t' => some '\t'
  | 'n' => some '\n'
  | 'v' => some '\x0b'
  | 'f' => some '\x0c'
  | 'r' => some '\r'
  | 'e' => some '\x1b'
  | ' ' => some ' '
  | '"' => some '"'
  | '/' => some '/'
  | '\\' => some '\\'
  | 'N' => some '\u0085'
  | '_' => some '\u00a0'
  | 'L' => some '\u2028'
  | 'P' => some '\u2029'
  | _ => none

/-- Escapes that are followed by the number of a character, with its digits. -/
def codeLength? : Char → Option Nat
  | 'x' => some 2
  | 'u' => some 4
  | 'U' => some 8
  | _ => none

/-- The number written by hexadecimal digits. -/
def hexValue? (ds : List Char) : Option Nat :=
  ds.foldlM (fun n d => (hexDigit? d).map (16 * n + ·)) 0

/-- The character with a number, if there is one. -/
def charOf? (n : Nat) : Option Char :=
  if (0xD800 ≤ n ∧ n ≤ 0xDFFF) ∨ 0x10FFFF < n then none else some (Char.ofNat n)

/-- The character of an escape and the places it takes, both from after the backslash. -/
def escape? : List Char → Option (Char × Nat)
  | [] => none
  | x :: rest =>
    match codeLength? x with
    | none => (simpleEscape? x).map fun y => (y, 1)
    | some n =>
      if rest.length < n then none
      else do return (← charOf? (← hexValue? (rest.take n)), n + 1)

/-- How the words of a quoted scalar go on. -/
inductive Stop where
  /-- At the closing quote. -/
  | quote
  /-- At a blank, a break or the end. -/
  | gap
  /-- After an escaped line break. -/
  | escapedBreak
deriving DecidableEq, Repr

/-- Read on in a word between double quotes. -/
def doubleWord? : Nat → List Char → Cursor → Option (List Char × Stop × Cursor)
  | 0, _, _ => none
  | fuel + 1, word, c =>
    match c.rest with
    | [] => some (word, .gap, c)
    | x :: rest =>
      if isGap (some x) then some (word, .gap, c)
      else if x = '"' then some (word, .quote, c)
      else if x = '\\' then
        if rest.head?.any isBreak then some (word, .escapedBreak, (c.skip 1).skipBreak)
        else do
          let (y, places) ← escape? rest
          doubleWord? fuel (word ++ [y]) (c.skip (places + 1))
      else doubleWord? fuel (word ++ [x]) (c.skip 1)

/-- A word between single quotes and the places it takes; two quotes stand for one. -/
def singleWord : List Char → List Char × Nat × Stop
  | [] => ([], 0, .gap)
  | '\'' :: '\'' :: rest =>
    let (word, places, stop) := singleWord rest
    ('\'' :: word, places + 2, stop)
  | '\'' :: _ => ([], 0, .quote)
  | x :: rest =>
    if isGap (some x) then ([], 0, .gap)
    else
      let (word, places, stop) := singleWord rest
      (x :: word, places + 1, stop)

/-- Read a word of a quoted scalar. -/
def quotedWord? (single : Bool) (c : Cursor) : Option (List Char × Stop × Cursor) :=
  if single then
    let (word, places, stop) := singleWord c.rest
    some (word, stop, c.skip places)
  else doubleWord? (c.rest.length + 1) [] c

/-- Read on in a quoted scalar from the beginning of a word. -/
def quotedFrom? (single : Bool) : Nat → List Char → Cursor → Option (List Char × Cursor)
  | 0, _, _ => none
  | fuel + 1, text, c =>
    if c.atDocumentMark ∨ c.rest.isEmpty then none
    else do
      let (word, stop, c) ← quotedWord? single c
      let text := text ++ word
      if c.sees (if single then '\'' else '"') then some (text, c.skip 1)
      else
        let (g, c) ← gap? 0 (if stop = .escapedBreak then Gap.escaped else Gap.none) c
        quotedFrom? single fuel (text ++ g.text) c

/-- Read a quoted scalar from its opening quote on. -/
def quoted? (single : Bool) (c : Cursor) : Option (List Char × Cursor) :=
  quotedFrom? single (c.rest.length + 1) [] (c.skip 1)

/-- What becomes of the breaks at the end of a block scalar. -/
inductive Chomping where
  | strip
  | clip
  | keep
deriving DecidableEq, Repr

/-- The chomping that an indicator asks for. -/
def chomping? : Option Char → Option Chomping
  | some '+' => some .keep
  | some '-' => some .strip
  | _ => none

/-- Read an indentation indicator: a digit, but not zero. -/
def increment? (c : Cursor) : Option (Option Nat × Cursor) :=
  match c.head? with
  | some x =>
    if x = '0' then none
    else if '1' ≤ x ∧ x ≤ '9' then some (some (x.toNat - '0'.toNat), c.skip 1)
    else some (none, c)
  | none => some (none, c)

/-- Read the indicators of a block scalar in either order. -/
def blockHeader? (c : Cursor) : Option (Chomping × Option Nat × Cursor) :=
  match chomping? c.head? with
  | some chomping => do
    let (increment, c) ← increment? (c.skip 1)
    return (chomping, increment, c)
  | none => do
    let (increment, c) ← increment? c
    match increment, chomping? c.head? with
    | some n, some chomping => return (chomping, some n, c.skip 1)
    | increment, _ => return (.clip, increment, c)

/-- Read on over indentation and empty lines, with the breaks and the greatest column
met.  Blanks from the column `indent` on belong to a line; without an indentation
yet, none do. -/
def indentation? (indent : Option Nat) :
    Nat → List Char → Nat → Cursor → Option (List Char × Nat × Cursor)
  | 0, _, _, _ => none
  | fuel + 1, breaks, widest, c =>
    let room := match indent with
      | some n => n - c.column
      | none => c.rest.length
    let c := c.skip ((c.rest.take room).takeWhile (· = ' ')).length
    let widest := max widest c.column
    let inside : Bool := match indent with
      | some n => c.column < n
      | none => true
    if inside ∧ c.sees '\t' then none
    else
      match c.head? with
      | some x =>
        if isBreak x then indentation? indent fuel (breaks ++ [x]) widest c.skipBreak
        else some (breaks, widest, c)
      | none => some (breaks, widest, c)

/-- Read the lines of a block scalar from the content of the first on.  `first` is
the break at the end of the line before, `more` those of the empty lines after it,
and `spaced` tells whether that line began with a blank. -/
def blockLines? (literal : Bool) (indent : Nat) : Nat → List Char → Option Char → List Char →
    Bool → Cursor → Option (List Char × Option Char × List Char × Cursor)
  | 0, _, _, _, _, _ => none
  | fuel + 1, text, first, more, spaced, c =>
    if c.column ≠ indent ∨ c.rest.isEmpty then some (text, first, more, c)
    else do
      let blank := c.head?.any isBlank
      let between :=
        if literal ∨ spaced ∨ blank then first.toList ++ more else fold first more
      let (line, c) := c.span fun x => !isBreak x
      let first := c.head?
      let c := if c.atBreak then c.skipBreak else c
      let (more, _, c) ← indentation? (some indent) (c.rest.length + 1) [] 0 c
      blockLines? literal indent fuel (text ++ between ++ line) first more blank c

/-- Read a block scalar after its indicator, in a block indented to the column
`parent`, which is -1 outside of all blocks. -/
def block? (literal : Bool) (parent : Int) (c : Cursor) : Option (List Char × Cursor) := do
  let (chomping, increment, c) ← blockHeader? c
  let c ← c.endLine?
  let given := increment.map fun n => (max parent 0).toNat + n
  let (more, widest, c) ← indentation? given (c.rest.length + 1) [] 0 c
  let indent := given.getD (max widest (max (parent + 1).toNat 1))
  let (text, first, more, c) ← blockLines? literal indent (c.rest.length + 1) [] none more false c
  return (match chomping with
    | .strip => (text, c)
    | .clip => (text ++ first.toList, c)
    | .keep => (text ++ first.toList ++ more, c))

end ArtifactPlane.Yaml.Scalar
