import ArtifactPlane.Text.Utf8
import ArtifactPlane.Timestamp.Parse

/-!
Reading an index from the front: single octets, little-endian 64-bit words and runs
of octets with a word for their length before them.
-/

namespace ArtifactPlane.Index

/-- Why octets are not an index. -/
inductive Fault where
  | shortHeader (size : Nat)
  | badMagic
  | unsupportedVersion (version : Nat)
  | tooDeep
  | truncated
  | artifactTag (tag : UInt8)
  | text (fault : Text.Utf8Fault)
  | timestamp (fault : Timestamp.Fault)
  | trailing
deriving DecidableEq, Repr

/-- Octets before the first node. -/
def headerSize : Nat := 6

/-- The only version of the format. -/
def version : Nat := 1

/-- The wording of a fault. -/
def Fault.message : Fault → String
  | .shortHeader size =>
    "index is " ++ toString size ++ " bytes, shorter than the " ++ toString headerSize ++
      " byte header"
  | .badMagic => "bad magic, not a router index"
  | .unsupportedVersion v =>
    "unsupported index version " ++ toString v ++ " (expected " ++ toString version ++ ")"
  | .tooDeep => "index nested too deeply"
  | .truncated => "index payload truncated"
  | .artifactTag tag => "invalid artifact tag " ++ toString tag.toNat
  | .text fault => "string is not valid utf8: " ++ fault.message
  | .timestamp fault => fault.message
  | .trailing => "Slice had bytes remaining after deserialization"

/-- Reads from the front of some octets and leaves the rest. -/
abbrev Reader := StateT Octets (Except Fault)

namespace Reader

/-- The next octet. -/
def octet : Reader UInt8
  | [] => .error .truncated
  | b :: rest => .ok (b, rest)

/-- The value of octets with the least significant first. -/
def littleEndian (bs : Octets) : Nat :=
  bs.foldr (fun b n => b.toNat + 256 * n) 0

/-- The next octets, in the given number. -/
def octets : Nat → Reader Octets
  | 0, bs => .ok ([], bs)
  | _ + 1, [] => .error .truncated
  | n + 1, b :: rest => do
    let (bs, rest) ← octets n rest
    .ok (b :: bs, rest)

/-- The next word. -/
def word : Reader Nat := do
  return littleEndian (← octets 8)

/-- The next octets, after their number. -/
def counted : Reader Octets := do
  octets (← word)

theorem octets_eq_ok {n : Nat} {bs out rest : Octets} (h : octets n bs = .ok (out, rest)) :
    bs = out ++ rest ∧ out.length = n := by
  induction n generalizing bs out with
  | zero =>
    simp only [octets, Except.ok.injEq, Prod.mk.injEq] at h
    obtain ⟨rfl, rfl⟩ := h
    exact ⟨rfl, rfl⟩
  | succ n ih =>
    cases bs with
    | nil => simp [octets] at h
    | cons b bs =>
      rw [octets] at h
      cases hrec : octets n bs with
      | error e => simp [hrec, bind, Except.bind] at h
      | ok p =>
        obtain ⟨tail, left⟩ := p
        simp only [hrec, bind, Except.bind, Except.ok.injEq, Prod.mk.injEq] at h
        obtain ⟨rfl, rfl⟩ := h
        obtain ⟨rfl, rfl⟩ := ih hrec
        exact ⟨rfl, rfl⟩

theorem octets_append (out rest : Octets) : octets out.length (out ++ rest) = .ok (out, rest) := by
  induction out with
  | nil => rfl
  | cons b out ih =>
    simp [octets, ih, bind, Except.bind]

/-- A word takes eight octets. -/
theorem word_eq_ok {bs rest : Octets} {n : Nat} (h : word bs = .ok (n, rest)) :
    rest.length + 8 = bs.length := by
  cases hoct : octets 8 bs with
  | error e => simp [word, bind, StateT.bind, Except.bind, hoct] at h
  | ok p =>
    obtain ⟨out, left⟩ := p
    have hword : word bs = .ok (littleEndian out, left) := by
      simp only [word, bind, StateT.bind, Except.bind, hoct]
      rfl
    obtain ⟨rfl, hlen⟩ := octets_eq_ok hoct
    obtain ⟨-, rfl⟩ := Prod.mk.inj (Except.ok.inj (hword.symm.trans h))
    rw [List.length_append, hlen]
    omega

/-- Counted octets take eight more for their number. -/
theorem counted_eq_ok {bs rest out : Octets} (h : counted bs = .ok (out, rest)) :
    rest.length + out.length + 8 = bs.length := by
  cases hword : word bs with
  | error e => simp [counted, bind, StateT.bind, Except.bind, hword] at h
  | ok p =>
    obtain ⟨n, left⟩ := p
    simp only [counted, bind, StateT.bind, Except.bind, hword] at h
    obtain ⟨rfl, -⟩ := octets_eq_ok h
    have hw := word_eq_ok hword
    rw [List.length_append] at hw
    omega

end Reader

end ArtifactPlane.Index
