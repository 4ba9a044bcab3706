import ArtifactPlane.Octets

/-!
The 64-bit FNV-1a hash and the placement of keys on shards.  The low bits of the
hash depend only on the low bits of each octet, so the high half is folded in
before the remainder is taken.
-/

namespace ArtifactPlane.Hash

/-- The offset basis of 64-bit FNV-1a. -/
def offsetBasis : UInt64 := 0xcbf29ce484222325

/-- The prime of 64-bit FNV-1a. -/
def prime : UInt64 := 0x100000001b3

/-- Absorb one octet. -/
def absorb (h : UInt64) (b : UInt8) : UInt64 :=
  (h ^^^ b.toUInt64) * prime

/-- The FNV-1a hash of 64 bits. -/
def fnv1a (bs : Octets) : UInt64 :=
  bs.foldl absorb offsetBasis

/-- The hash of a key with its high half folded into the low half. -/
def folded (key : String) : UInt64 :=
  let h := fnv1a (Octets.ofString key)
  h ^^^ (h >>> 32)

/-- The shard of a key among `count` shards. -/
def shard (key : String) (count : Nat) : Nat :=
  (folded key).toNat % count

/-- A key is placed only where there is a shard. -/
def shard? (key : String) (count : Nat) : Option Nat :=
  if count = 0 then none else some (shard key count)

theorem shard_lt (key : String) {count : Nat} (h : 0 < count) : shard key count < count :=
  Nat.mod_lt _ h

end ArtifactPlane.Hash
