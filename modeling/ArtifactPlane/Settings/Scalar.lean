import ArtifactPlane.Decimal.Numeral
import ArtifactPlane.Yaml.Node

/-!
Scalars of settings.  A truth value or a number is a plain scalar, whatever its tag,
or a literal one whose tag says so; a text is a scalar of any style.
-/

namespace ArtifactPlane.Settings

open Yaml

/-- A tag of the YAML namespace. -/
def coreTag (name : String) : Octets := Octets.ofString ("tag:yaml.org,2002:" ++ name)

/-- The text of a scalar that may be a value of the named kind. -/
def typedText? (d : Document) (kind : String) (n : Node) : Option String := do
  match ← d.follow? n with
  | .scalar _ _ .plain text => return text
  | .scalar _ tag .literal text => if tag = some (coreTag kind) then return text else none
  | _ => none

/-- A truth value. -/
def truth? (d : Document) (n : Node) : Option Bool := do
  let text ← typedText? d "bool" n
  if ["true", "True", "TRUE"].contains text then return true
  else if ["false", "False", "FALSE"].contains text then return false
  else none

/-- The value of a digit in a base up to 16. -/
def digitIn? (base : Nat) (c : Char) : Option Nat := do
  let d ← hexDigit? c
  if d < base then return d else none

/-- Digits in a base whose number fits a 64-bit word. -/
def wordIn? (base : Nat) (cs : List Char) : Option Nat := do
  if cs.isEmpty then none
  let n ← cs.foldlM (fun n c => (digitIn? base c).map (base * n + ·)) 0
  if n < UInt64.size then return n else none

/-- Digits after a mark of their base. -/
def markedWord? : List Char → Option Nat
  | '0' :: 'x' :: cs => wordIn? 16 cs
  | '0' :: 'o' :: cs => wordIn? 8 cs
  | '0' :: 'b' :: cs => wordIn? 2 cs
  | _ => none

/-- Whether digits begin with a zero that the number does not need. -/
def hasIdleZero (cs : List Char) : Bool :=
  cs.head? = some '0' ∧ 1 < cs.length ∧ cs.all Numeral.isDigit

/-- A number without a minus: hexadecimal, octal, binary or decimal. -/
def wordOfChars? (cs : List Char) : Option Nat :=
  let cs := if cs.head? = some '+' then cs.tail else cs
  match markedWord? cs with
  | some n => some n
  | none => if hasIdleZero cs then none else wordIn? 10 cs

/-- A number without a minus. -/
def word? (d : Document) (n : Node) : Option Nat := do
  wordOfChars? (← typedText? d "int" n).toList

/-- A decimal numeral with a finite value as a double. -/
def finite? (cs : List Char) : Option Float := do
  let x := (← Numeral.ofChars? cs).toFloat
  if x.isFinite then return x else none

/-- A double: infinite, not a number, or a decimal numeral. -/
def floatOfChars? (cs : List Char) : Option Float :=
  let text := String.ofList cs
  let unsigned := if cs.head? = some '+' then cs.tail else cs
  let isInf := fun s : String => s = ".inf" ∨ s = ".Inf" ∨ s = ".INF"
  if cs.head? = some '+' ∧ unsigned.head?.any (fun c => c = '+' ∨ c = '-') then none
  else if isInf (String.ofList unsigned) then some (Float.ofBits 0x7FF0000000000000)
  else if cs.head? = some '-' ∧ isInf (String.ofList cs.tail) then
    some (Float.ofBits 0xFFF0000000000000)
  else if text = ".nan" ∨ text = ".NaN" ∨ text = ".NAN" then
    some (Float.ofBits 0x7FF8000000000000)
  else finite? unsigned

/-- A double. -/
def float? (d : Document) (n : Node) : Option Float := do
  floatOfChars? (← typedText? d "float" n).toList

/-- A text. -/
def text? (d : Document) (n : Node) : Option String := do
  match ← d.follow? n with
  | .scalar _ _ _ text => return text
  | _ => none

/-- Whether a text says that there is no value. -/
def isNull (text : String) : Bool :=
  ["null", "Null", "NULL", "~"].contains text

/-- A value that may be missing. -/
def optional? {α : Type} (read : Node → Option α) (d : Document) (n : Node) :
    Option (Option α) := do
  match ← d.follow? n with
  | .scalar anchor (some tag) .plain text =>
    if tag = coreTag "null" then (if isNull text then return none else failure)
    else return some (← read (.scalar anchor (some tag) .plain text))
  | .scalar anchor none .plain text =>
    if text = "" ∨ isNull text then return none
    else return some (← read (.scalar anchor none .plain text))
  | n => return some (← read n)

end ArtifactPlane.Settings
