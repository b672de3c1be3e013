import Winnow.Text.Utf8

/-!
# What a glob is made of

A glob is a sequence of tokens, each of which matches a run of bytes of a name. Names are
matched byte by byte, so a token that stands for one byte does not stand for a character of
several bytes. A class of bytes is written with characters: each end of a range contributes
all of its bytes, and the range proper runs from the last byte of the first end to the first
byte of the last end.
-/

namespace Winnow.Glob

/-- The byte that separates the parts of a name. -/
def slash : UInt8 := 0x2F

/-- The bytes of one character. -/
def bytesOf (c : Char) : List UInt8 := String.utf8EncodeChar c

/-- A set of bytes, written as ranges of characters. -/
structure ByteClass where
  negated : Bool
  ranges : List (Char × Char)
deriving DecidableEq

/-- Whether a range of characters, read as bytes, covers a byte. -/
def covers (range : Char × Char) (byte : UInt8) : Bool :=
  let first := bytesOf range.1
  let last := bytesOf range.2
  if range.1 = range.2 then first.contains byte
  else
    first.dropLast.contains byte
      || (first.getLast?.any (· ≤ byte) && last.head?.any (byte ≤ ·))
      || last.tail.contains byte

/-- Whether a byte belongs to a class; a negated class holds exactly the other bytes. -/
def ByteClass.holds (byteClass : ByteClass) (byte : UInt8) : Bool :=
  byteClass.negated != byteClass.ranges.any (covers · byte)

/-- The tokens of a glob. -/
inductive Token where
  /-- The bytes of one character. -/
  | literal (c : Char)
  /-- One byte other than a slash. -/
  | any
  /-- Any run of bytes other than slashes. -/
  | run
  /-- Any run of bytes. -/
  | everything
  /-- A slash and any run of bytes after it. -/
  | slashEverything
  /-- One byte of a class. -/
  | oneOf (byteClass : ByteClass)
  /-- What one of the branches matches. -/
  | group (branches : List (List Token))

/-- Whether a token stands for itself. -/
def Token.isLiteral : Token → Bool
  | .literal _ => true
  | _ => false

end Winnow.Glob
