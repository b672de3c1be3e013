/-!
# JSON strings

A string is read as code points first: a character stands for itself and an escape for the
code point that it names, which may be a surrogate. The points are turned into characters
afterwards. Two surrogates that form a pair stand for one character; a string with any other
surrogate is well formed but stands for no text.
-/

namespace Winnow.Json

/-- The value of a hexadecimal digit. -/
def hexValue? (c : Char) : Option Nat :=
  if c.isDigit then some (c.toNat - '0'.toNat)
  else if 'a' ≤ c ∧ c ≤ 'f' then some (c.toNat - 'a'.toNat + 10)
  else if 'A' ≤ c ∧ c ≤ 'F' then some (c.toNat - 'A'.toNat + 10)
  else none

/-- The value of four hexadecimal digits. -/
def unit? (a b c d : Char) : Option Nat := do
  return (((← hexValue? a) * 16 + (← hexValue? b)) * 16 + (← hexValue? c)) * 16 + (← hexValue? d)

/-- The character of an escape of one letter. -/
def escaped? : Char → Option Char
  | '"' => some '"'
  | '\\' => some '\\'
  | '/' => some '/'
  | 'b' => some '\x08'
  | 'f' => some '\x0c'
  | 'n' => some '\n'
  | 'r' => some '\r'
  | 't' => some '\t'
  | _ => none

/-- Reads a string after its opening quote, as code points; escapes may give surrogates. -/
def readPoints : List Char → Option (List Nat × List Char)
  | '"' :: rest => some ([], rest)
  | '\\' :: 'u' :: a :: b :: c :: d :: rest => do
      let point ← unit? a b c d
      let (points, rest) ← readPoints rest
      return (point :: points, rest)
  | '\\' :: letter :: rest => do
      let char ← escaped? letter
      let (points, rest) ← readPoints rest
      return (char.toNat :: points, rest)
  | char :: rest => do
      if char.toNat < 0x20 ∨ char = '\\' then none
      let (points, rest) ← readPoints rest
      return (char.toNat :: points, rest)
  | [] => none

/-- Whether a code point is the first half of a surrogate pair. -/
def isHigh (point : Nat) : Bool := 0xD800 ≤ point && point < 0xDC00

/-- Whether a code point is the second half of a surrogate pair. -/
def isLow (point : Nat) : Bool := 0xDC00 ≤ point && point < 0xE000

/-- The characters of code points, unless a surrogate is unpaired. -/
def charsOf : List Nat → Option (List Char)
  | [] => some []
  | [point] => if isHigh point || isLow point then none else some [Char.ofNat point]
  | first :: second :: rest =>
      if isHigh first && isLow second then
        (charsOf rest).map
          (Char.ofNat (0x10000 + (first - 0xD800) * 0x400 + (second - 0xDC00)) :: ·)
      else if isHigh first || isLow first then none
      else (charsOf (second :: rest)).map (Char.ofNat first :: ·)

/-- Reads a string after its opening quote. -/
def readString (chars : List Char) : Option (Option String × List Char) := do
  let (points, rest) ← readPoints chars
  return ((charsOf points).map String.ofList, rest)

end Winnow.Json
