/-!
Double-precision numbers as `m · 2^q` with an integer `m`, and the double nearest
to a quotient of naturals.  Half-way quotients go to the even neighbour.
-/

namespace ArtifactPlane.Binary64

/-- The exponent of the smallest positive double. -/
def leastExponent : Int := -1074

/-- The bits of positive infinity. -/
def infinityBits : Nat := 0x7FF0000000000000

/-- The weight of the bit above the 52 that hold a fraction. -/
def hiddenBit : Nat := 0x10000000000000

/-- The weight of the sign bit. -/
def signBit : Nat := 0x8000000000000000

/-- The natural nearest to `num / den`, half-way quotients to the even one. -/
def roundHalfEven (num den : Nat) : Nat :=
  let floor := num / den
  let twice := 2 * (num % den)
  if twice < den then floor
  else if den < twice then floor + 1
  else if floor % 2 = 0 then floor else floor + 1

/-- The quotient `num / den` divided by `2^q`, as a quotient of naturals. -/
def scale (num den : Nat) (q : Int) : Nat × Nat :=
  if 0 ≤ q then (num, den * Nat.pow 2 q.toNat) else (num * Nat.pow 2 (-q).toNat, den)

/-- The exponent at which `num / den` has 53 binary digits before the point, or
the least exponent if that is larger. -/
def exponentOf (num den : Nat) : Int :=
  let guess : Int := (num.log2 : Int) - (den.log2 : Int) - 53
  let (n, d) := scale num den guess
  max leastExponent (if n < d * (2 * hiddenBit) then guess else guess + 1)

/-- The bits of the double nearest to `num / den`. -/
def ofRatio (num den : Nat) : UInt64 :=
  if num = 0 then 0
  else
    let q := exponentOf num den
    let (n, d) := scale num den q
    UInt64.ofNat (min infinityBits ((q - leastExponent).toNat * hiddenBit + roundHalfEven n d))

/-- The integer and the exponent of a finite double, its sign left aside. -/
def parts (x : Float) : Nat × Int :=
  let bits : Nat := x.toBits.toNat % signBit
  let biased : Nat := bits / hiddenBit
  let fraction : Nat := bits % hiddenBit
  if biased = 0 then (fraction, leastExponent)
  else (fraction + hiddenBit, (biased : Int) - 1075)

/-- Whether the sign bit of a double is set. -/
def isNegative (x : Float) : Bool := signBit ≤ x.toBits.toNat

end ArtifactPlane.Binary64
