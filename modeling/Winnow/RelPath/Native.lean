import Winnow.RelPath.Basic
import Winnow.Text.Utf8

/-!
# Paths of the host

The host separates names by the slash alone, and its names are bytes. A host path is taken
over only if it cannot leave the root by itself: it must not be absolute, and no host name of
it may be the parent folder's. What is not UTF-8 in a name is replaced, and a backslash
inside a name separates once the name has been taken over.
-/

namespace Winnow.RelPath

/-- The slash, as a byte. -/
def slashByte : UInt8 := 0x2F

/-- The host name of the parent folder, as bytes. -/
def parentName : List UInt8 := [0x2E, 0x2E]

/-- The path that a host path denotes, unless it is absolute or has a parent folder name. -/
def ofNative? (bytes : List UInt8) : Option RelPath :=
  let names := bytes.splitOn slashByte
  if bytes.head? = some slashByte ∨ parentName ∈ names then none
  else some (ofSegments (names.map Text.Utf8.decodeLossy))

end Winnow.RelPath
