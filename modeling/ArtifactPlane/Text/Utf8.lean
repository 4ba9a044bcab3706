import ArtifactPlane.Octets

/-!
UTF-8 and its faults.  A fault names the first sequence that is not one of UTF-8:
either it breaks off before the end of the octets, or it holds a number of octets
that begin a sequence and are followed by one that cannot go on with it.
-/

namespace ArtifactPlane.Text

/-- Why octets are not UTF-8. -/
inductive Utf8Fault where
  /-- A sequence from `position` goes wrong after `length` octets. -/
  | invalid (position length : Nat)
  /-- The octets end inside the sequence from `position`. -/
  | incomplete (position : Nat)
deriving DecidableEq, Repr

/-- The wording of a fault, by its place and its length. -/
def Utf8Fault.message : Utf8Fault → String
  | .invalid position length =>
    "invalid utf-8 sequence of " ++ toString length ++ " bytes from index " ++ toString position
  | .incomplete position => "incomplete utf-8 byte sequence from index " ++ toString position

namespace Utf8

/-- What must follow the octets of a sequence read so far. -/
structure Pending where
  start : Nat
  seen : Nat
  low : UInt8
  high : UInt8
  /-- Octets needed after the next one. -/
  more : Nat

/-- What must follow a first octet above the ASCII range. -/
def lead? (start : Nat) (b : UInt8) : Option Pending :=
  if 0xC2 ≤ b ∧ b ≤ 0xDF then some ⟨start, 1, 0x80, 0xBF, 0⟩
  else if b = 0xE0 then some ⟨start, 1, 0xA0, 0xBF, 1⟩
  else if b = 0xED then some ⟨start, 1, 0x80, 0x9F, 1⟩
  else if 0xE1 ≤ b ∧ b ≤ 0xEF then some ⟨start, 1, 0x80, 0xBF, 1⟩
  else if b = 0xF0 then some ⟨start, 1, 0x90, 0xBF, 2⟩
  else if 0xF1 ≤ b ∧ b ≤ 0xF3 then some ⟨start, 1, 0x80, 0xBF, 2⟩
  else if b = 0xF4 then some ⟨start, 1, 0x80, 0x8F, 2⟩
  else none

/-- What is still missing after one more octet. -/
def Pending.next (p : Pending) : Option Pending :=
  match p.more with
  | 0 => none
  | more + 1 => some ⟨p.start, p.seen + 1, 0x80, 0xBF, more⟩

/-- The first fault from `position` on, inside the sequence `pending` if there is one. -/
def faultFrom : Nat → Option Pending → Octets → Option Utf8Fault
  | _, none, [] => none
  | _, some p, [] => some (.incomplete p.start)
  | position, none, b :: rest =>
    if b < 0x80 then faultFrom (position + 1) none rest
    else
      match lead? position b with
      | none => some (.invalid position 1)
      | some p => faultFrom (position + 1) (some p) rest
  | position, some p, b :: rest =>
    if p.low ≤ b ∧ b ≤ p.high then faultFrom (position + 1) p.next rest
    else some (.invalid p.start p.seen)

/-- The first fault of some octets. -/
def fault? (bs : Octets) : Option Utf8Fault :=
  faultFrom 0 none bs

/-- The text that some octets encode. -/
def decode (bs : Octets) : Except Utf8Fault String :=
  match String.fromUTF8? ⟨bs.toArray⟩ with
  | some s => .ok s
  | none => .error ((fault? bs).getD (.incomplete bs.length))

theorem decode_ofString (s : String) : decode (Octets.ofString s) = .ok s := by
  have h : String.fromUTF8? s.toByteArray = some s := by
    rw [String.fromUTF8?, dif_pos s.isValidUTF8]
    rfl
  simp [decode, Octets.ofString, h]

end Utf8

end ArtifactPlane.Text
