import Cogrouping.Digest.Blake3

/-!
Digests name job descriptions and route keys to partitions.
-/

namespace Cogrouping

structure Digest where
  bytes : Bytes
  deriving DecidableEq, Repr

namespace Digest

def ofBytes (bytes : Bytes) : Digest := ⟨Blake3.hash bytes⟩

def seedBytes (seed : UInt64) : Bytes := (Bytes.ofNatWidth 8 seed.toNat).reverse

def seeded (seed : Option UInt64) (bytes : Bytes) : Digest :=
  ofBytes ((seed.map seedBytes).getD [] ++ bytes)

def toHex (digest : Digest) : String := digest.bytes.toHex

def leading (digest : Digest) : UInt64 := UInt64.ofNat (Bytes.toNat (digest.bytes.take 8).reverse)

end Digest

end Cogrouping
