import LetStack.Digest.Sha256

/-!
Digests name contents: two texts with the same digest are taken for the same text.
-/

namespace LetStack

/-- The 32 bytes of a digest. -/
abbrev Digest := Bytes

namespace Digest

def sum (x : Bytes) : Digest := Sha256.hash x

/-- The digest of digests one behind the other. -/
def combine (base : Digest) (parts : List Digest) : Digest := Sha256.hash (base ++ parts.flatten)

def isZero (d : Digest) : Bool := d.all (· == 0)

/-- The first twelve hexadecimal digits. -/
def short (d : Digest) : Bytes := (Bytes.toHex d).take 12

end Digest

end LetStack
