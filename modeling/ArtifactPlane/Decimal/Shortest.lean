import ArtifactPlane.Decimal.Binary64

/-!
The fewest decimal digits that read back as a given double.  The doubles that
round to `m · 2^q` fill an interval around it, whose ends count exactly when `m`
is even.  For one digit, two digits and so on up to 17, the two neighbours of the
number on that decimal grid are tried; the first grid with a hit wins.
-/

namespace ArtifactPlane.Shortest

/-- Four times a positive number and four times the ends of the interval that
rounds to it, over one denominator. -/
structure Interval where
  low : Nat
  mid : Nat
  high : Nat
  den : Nat
  /-- Whether the ends round to the number too. -/
  closed : Bool

/-- The interval of `m · 2^q`; below a power of two it is half as wide. -/
def interval (m : Nat) (q : Int) : Interval :=
  let below := if m = Binary64.hiddenBit ∧ Binary64.leastExponent < q then 1 else 2
  let up := Nat.pow 2 q.toNat
  ⟨(4 * m - below) * up, 4 * m * up, (4 * m + 2) * up, 4 * Nat.pow 2 (-q).toNat, m % 2 = 0⟩

/-- Whether `n / d` lies in the interval. -/
def Interval.contains (i : Interval) (n d : Nat) : Bool :=
  if i.closed then i.low * d ≤ n * i.den ∧ n * i.den ≤ i.high * d
  else i.low * d < n * i.den ∧ n * i.den < i.high * d

/-- The power `10^k` as a quotient of naturals. -/
def powerOfTen (k : Int) : Nat × Nat :=
  (Nat.pow 10 k.toNat, Nat.pow 10 (-k).toNat)

/-- The exponent of the leading decimal digit of `n / d`. -/
def leadingExponent (n d : Nat) : Int :=
  let guess : Int := ((Nat.toDigits 10 n).length : Int) - (Nat.toDigits 10 d).length
  let (a, b) := powerOfTen guess
  if a * d ≤ n * b then guess else guess - 1

/-- The multiple of `10^k` that stands for the number, if a neighbour of it on
that grid lies in the interval.  The nearer neighbour is taken, and the upper one
of two equally near. -/
def onGrid? (i : Interval) (k : Int) : Option Nat :=
  let (a, b) := powerOfTen k
  let num := i.mid * b
  let den := i.den * a
  let lower := num / den
  let nearUpper : Bool := den ≤ 2 * (num % den)
  let lowerIn := i.contains (lower * a) b
  let upperIn := i.contains ((lower + 1) * a) b
  if lowerIn ∧ (!upperIn ∨ !nearUpper) then some lower
  else if upperIn then some (lower + 1) else none

/-- The first grid with a hit, from `count` digits on. -/
def search (i : Interval) (lead : Int) : Nat → Nat → Nat × Int
  | 0, count => (0, lead - count)
  | tries + 1, count =>
    let k := lead - (count : Int) + 1
    match onGrid? i k with
    | some d => (d, k)
    | none => search i lead tries (count + 1)

/-- Drop trailing zeros of `d · 10^k`. -/
def trim : Nat → Nat → Int → Nat × Int
  | 0, d, k => (d, k)
  | fuel + 1, d, k => if d ≠ 0 ∧ d % 10 = 0 then trim fuel (d / 10) (k + 1) else (d, k)

/-- Digits and exponent of the shortest decimal that reads back as a positive
finite double. -/
def digits (x : Float) : Nat × Int :=
  let (m, q) := Binary64.parts x
  let i := interval m q
  let (d, k) := search i (leadingExponent i.mid i.den) 17 1
  trim 18 d k

/-- Digits with a point after the first `point` of them, where `point` may lie
outside the digits. -/
def placePoint (ds : List Char) (point : Int) : List Char :=
  if point ≤ 0 then '0' :: '.' :: (List.replicate (-point).toNat '0' ++ ds)
  else if ds.length ≤ point.toNat then ds ++ List.replicate (point.toNat - ds.length) '0'
  else ds.take point.toNat ++ '.' :: ds.drop point.toNat

/-- The shortest decimal of a double in positional notation, without a point for
an integer. -/
def positional (x : Float) : String :=
  if x.isNaN then "NaN"
  else
    let minus := if Binary64.isNegative x then "-" else ""
    if x.isInf then minus ++ "inf"
    else if x == 0.0 then minus ++ "0"
    else
      let (d, k) := digits x
      let ds := Nat.toDigits 10 d
      minus ++ String.ofList (placePoint ds (ds.length + k))

end ArtifactPlane.Shortest
