import Lineage.Failure
import Lineage.Md5
/-
  Short, printable fingerprints.

  A digest is the beginning of the MD5 digest of some bytes, in hexadecimal.  The bytes may be
  given in pieces; how they are cut does not matter, because the hasher takes them one by one.
-/

namespace Lineage.Digest

/-- The number of characters of a digest. -/
def size : Nat := 8

/-- The digest of the pieces, one behind the other.  There is none of no pieces at all. -/
def ofPieces (pieces : List (List UInt8)) : Except Failure String :=
  if pieces.isEmpty then .error (.invalidParameter .nothingToHash)
  else .ok (String.ofList ((Text.hex (pieces.foldl Md5.Hasher.feed .start).finish).take size))

/-- The eight bytes of a signed number, the lowest first. -/
def hashBytes (hash : Int64) : List UInt8 := Text.littleEndian 8 hash.toUInt64.toNat

/-- The digest of the hash of a plan. -/
def ofHash (hash : Int64) : Except Failure String := ofPieces [hashBytes hash]

end Lineage.Digest
