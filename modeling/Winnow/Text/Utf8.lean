/-!
# Texts as bytes

Texts are written as bytes in UTF-8. Reading accepts any bytes: every longest run of bytes
that starts a character without completing one, and every byte that starts none, is read as
one replacement character.
-/

namespace Winnow.Text.Utf8

/-- The bytes of a text, character by character. -/
def encode (text : String) : List UInt8 :=
  text.toList.flatMap String.utf8EncodeChar

/-- The character that stands for bytes which are no character. -/
def replacement : Char := '\uFFFD'

/-- A character of which the first bytes have been read. The next byte has to lie between
`low` and `high`; `missing` more bytes follow that one. -/
structure Started where
  bits : Nat
  low : UInt8
  high : UInt8
  missing : Nat

/-- What a byte does where a character may start: it is a character of one byte, starts a
longer one, or starts none. The bounds on the second byte leave out overlong forms,
surrogates and values above the last code point. -/
def start (byte : UInt8) : List Char × Option Started :=
  let value := byte.toNat
  if byte < 0x80 then ([Char.ofNat value], none)
  else if byte < 0xC2 then ([replacement], none)
  else if byte < 0xE0 then ([], some ⟨value - 0xC0, 0x80, 0xBF, 0⟩)
  else if byte = 0xE0 then ([], some ⟨0, 0xA0, 0xBF, 1⟩)
  else if byte = 0xED then ([], some ⟨0xD, 0x80, 0x9F, 1⟩)
  else if byte < 0xF0 then ([], some ⟨value - 0xE0, 0x80, 0xBF, 1⟩)
  else if byte = 0xF0 then ([], some ⟨0, 0x90, 0xBF, 2⟩)
  else if byte < 0xF4 then ([], some ⟨value - 0xF0, 0x80, 0xBF, 2⟩)
  else if byte = 0xF4 then ([], some ⟨4, 0x80, 0x8F, 2⟩)
  else ([replacement], none)

/-- Adds a byte to a started character, which may complete it. A byte that does not fit ends
the started character as a replacement and is read afresh. -/
def Started.add (started : Started) (byte : UInt8) : List Char × Option Started :=
  if started.low ≤ byte ∧ byte ≤ started.high then
    let bits := started.bits * 64 + (byte.toNat - 0x80)
    match started.missing with
    | 0 => ([Char.ofNat bits], none)
    | missing + 1 => ([], some ⟨bits, 0x80, 0xBF, missing⟩)
  else
    let (chars, next) := start byte
    (replacement :: chars, next)

/-- Reads bytes after a possibly started character. -/
def decodeFrom : Option Started → List UInt8 → List Char
  | none, [] => []
  | some _, [] => [replacement]
  | none, byte :: rest =>
      let (chars, next) := start byte
      chars ++ decodeFrom next rest
  | some started, byte :: rest =>
      let (chars, next) := started.add byte
      chars ++ decodeFrom next rest

/-- The text of any bytes, with a replacement character for whatever is not UTF-8. -/
def decodeLossy (bytes : List UInt8) : String :=
  String.ofList (decodeFrom none bytes)

end Winnow.Text.Utf8
