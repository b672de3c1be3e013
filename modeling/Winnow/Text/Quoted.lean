/-!
# Quoted texts

A text in double quotes, with a backslash before what would end it or be taken for an escape.
Control characters are shown by letter where they have one and by code point otherwise.
-/

namespace Winnow.Text

/-- The escapes that have a letter. -/
def letterEscapes : List (Char × Char) :=
  [('\x00', '0'), ('\t', 't'), ('\n', 'n'), ('\r', 'r'), ('"', '"'), ('\\', '\\')]

/-- One character of a quoted text. -/
def quoteChar (c : Char) : List Char :=
  match letterEscapes.lookup c with
  | some letter => ['\\', letter]
  | none =>
      if c.toNat < 0x20 ∨ c.toNat = 0x7F then
        ['\\', 'u', '\x7b'] ++ Nat.toDigits 16 c.toNat ++ ['\x7d']
      else [c]

/-- A text in quotes. -/
def quote (text : String) : String :=
  String.ofList ('"' :: text.toList.flatMap quoteChar ++ ['"'])

end Winnow.Text
