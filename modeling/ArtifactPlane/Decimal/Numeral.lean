import ArtifactPlane.Decimal.Binary64

/-!
Decimal numerals: an optional sign, digits with an optional point among or beside
them, and an optional exponent.  There is a digit before the exponent and, if the
exponent is written, a digit in it.
-/

namespace ArtifactPlane

/-- The number `± digits · 10^exponent`. -/
structure Numeral where
  negative : Bool
  digits : Nat
  exponent : Int
deriving DecidableEq, Repr

namespace Numeral

/-- The value of a decimal digit. -/
def digit? (c : Char) : Option Nat :=
  if '0' ≤ c ∧ c ≤ '9' then some (c.toNat - '0'.toNat) else none

/-- The number written by decimal digits, read from left to right. -/
def value (cs : List Char) : Nat :=
  cs.foldl (fun n c => 10 * n + (c.toNat - '0'.toNat)) 0

/-- Whether a character is a decimal digit. -/
def isDigit (c : Char) : Bool := (digit? c).isSome

/-- Split off an optional sign; `true` for a minus. -/
def sign : List Char → Bool × List Char
  | '-' :: cs => (true, cs)
  | '+' :: cs => (false, cs)
  | cs => (false, cs)

/-- The exponent written after the digits, zero if there is none. -/
def exponent? : List Char → Option Int
  | [] => some 0
  | c :: cs =>
    if c = 'e' ∨ c = 'E' then
      let (negative, ds) := sign cs
      if ds.isEmpty ∨ !ds.all isDigit then none
      else some (if negative then -(value ds : Int) else value ds)
    else none

/-- Read a numeral. -/
def ofChars? (cs : List Char) : Option Numeral :=
  let (negative, cs) := sign cs
  let whole := cs.takeWhile isDigit
  let rest := cs.dropWhile isDigit
  let (part, rest) :=
    match rest with
    | '.' :: rest => (rest.takeWhile isDigit, rest.dropWhile isDigit)
    | rest => ([], rest)
  if whole.isEmpty ∧ part.isEmpty then none
  else (exponent? rest).map fun e => ⟨negative, value (whole ++ part), e - part.length⟩

/-- A numeral whose first digit lies beyond these places is zero or infinite as a
double. -/
def placeLimit : Int := 400

/-- The bits of the double nearest to the magnitude of a numeral. -/
def magnitudeBits (n : Numeral) : UInt64 :=
  let places : Int := n.exponent + (n.digits.log2 : Int) / 3 + 1
  if n.digits = 0 then 0
  else if placeLimit + n.digits.log2 < n.exponent then UInt64.ofNat Binary64.infinityBits
  else if places < -placeLimit then 0
  else if 0 ≤ n.exponent then Binary64.ofRatio (n.digits * Nat.pow 10 n.exponent.toNat) 1
  else Binary64.ofRatio n.digits (Nat.pow 10 (-n.exponent).toNat)

/-- The double nearest to a numeral. -/
def toFloat (n : Numeral) : Float :=
  let bits := n.magnitudeBits
  Float.ofBits (if n.negative then bits ||| 0x8000000000000000 else bits)

end Numeral

end ArtifactPlane
