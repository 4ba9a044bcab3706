/-!
Clock readings and spans of time.  Readings are exact to the nanosecond and may
lie before the epoch; cache times are whole milliseconds kept in a 64-bit word.
-/

namespace ArtifactPlane

/-- A span of time in nanoseconds. -/
structure Duration where
  nanos : Nat
deriving DecidableEq, Repr, Inhabited

/-- A reading of the system clock, in nanoseconds since the epoch. -/
structure Instant where
  nanos : Int
deriving DecidableEq, Repr, Inhabited

namespace Duration

/-- A span of microseconds. -/
def ofMicros (n : Nat) : Duration := ⟨n * 1000⟩

/-- A span of milliseconds. -/
def ofMillis (n : Nat) : Duration := ⟨n * 1000000⟩

/-- A span of seconds. -/
def ofSecs (n : Nat) : Duration := ⟨n * 1000000000⟩

/-- Whole milliseconds, reduced to 64 bits. -/
def millis (d : Duration) : UInt64 :=
  UInt64.ofNat (d.nanos / 1000000)

end Duration

namespace Instant

/-- The last second that the system clock can represent. -/
def lastSecond : Int := 9223372036854775807

/-- The reading some microseconds after the epoch, or before it. -/
def ofMicros (n : Int) : Instant := ⟨n * 1000⟩

/-- The reading some milliseconds after the epoch, or before it. -/
def ofMillis (n : Int) : Instant := ⟨n * 1000000⟩

/-- Whole milliseconds since the epoch reduced to 64 bits, and 0 before it. -/
def millis (t : Instant) : UInt64 :=
  UInt64.ofNat (t.nanos.toNat / 1000000)

/-- The instant one span later, if the clock can represent it. -/
def add? (t : Instant) (d : Duration) : Option Instant :=
  let later := t.nanos + d.nanos
  if later / 1000000000 ≤ lastSecond then some ⟨later⟩ else none

/-- Move a reading by a signed number of nanoseconds. -/
def shift (t : Instant) (nanos : Int) : Instant := ⟨t.nanos + nanos⟩

end Instant

end ArtifactPlane
