import Winnow.Json.Number
import Winnow.Json.Text

/-!
# Reading JSON documents

A document is one value with blanks around it. The grammar is read strictly: there are no
comments, no trailing commas, no leading zeros, and no raw control characters in strings.
-/

namespace Winnow.Json

/-- The blanks of a JSON document. -/
def isBlank (c : Char) : Bool := c == ' ' || c == '\t' || c == '\n' || c == '\r'

/-- What follows the blanks. -/
def skipBlanks (chars : List Char) : List Char := chars.dropWhile isBlank

/-- Reads the name of a member and the colon after it, up to where its value starts. -/
def readName : List Char → Option (Option String × List Char)
  | '"' :: chars => do
      let (name, rest) ← readString chars
      match skipBlanks rest with
      | ':' :: rest => return (name, skipBlanks rest)
      | _ => none
  | _ => none

mutual

/-- Reads a value that starts at once. The fuel bounds the depth of the reading. -/
def readValue : Nat → List Char → Option (Json × List Char)
  | 0, _ => none
  | fuel + 1, chars =>
      match chars with
      | '"' :: rest => do
          let (text, rest) ← readString rest
          return (.string text, rest)
      | '[' :: rest =>
          match skipBlanks rest with
          | ']' :: rest => some (.array [], rest)
          | rest => do
              let (elements, rest) ← readElements fuel rest
              return (.array elements, rest)
      | '\x7b' :: rest =>
          match skipBlanks rest with
          | '\x7d' :: rest => some (.object [], rest)
          | rest => do
              let (members, rest) ← readMembers fuel rest
              return (.object members, rest)
      | 't' :: 'r' :: 'u' :: 'e' :: rest => some (.bool true, rest)
      | 'f' :: 'a' :: 'l' :: 's' :: 'e' :: rest => some (.bool false, rest)
      | 'n' :: 'u' :: 'l' :: 'l' :: rest => some (.null, rest)
      | chars => readNumber chars

/-- Reads the elements of an array up to its closing bracket. -/
def readElements : Nat → List Char → Option (List Json × List Char)
  | 0, _ => none
  | fuel + 1, chars => do
      let (element, rest) ← readValue fuel chars
      match skipBlanks rest with
      | ']' :: rest => return ([element], rest)
      | ',' :: rest =>
          let (elements, rest) ← readElements fuel (skipBlanks rest)
          return (element :: elements, rest)
      | _ => none

/-- Reads the members of an object up to its closing brace. -/
def readMembers : Nat → List Char → Option (List (Option String × Json) × List Char)
  | 0, _ => none
  | fuel + 1, chars => do
      let (name, rest) ← readName chars
      let (value, rest) ← readValue fuel rest
      match skipBlanks rest with
      | '\x7d' :: rest => return ([(name, value)], rest)
      | ',' :: rest =>
          let (members, rest) ← readMembers fuel (skipBlanks rest)
          return ((name, value) :: members, rest)
      | _ => none

end

/-- The value of a whole document. Every character takes at most two steps. -/
def parse? (document : String) : Option Json := do
  let chars := document.toList
  let (value, rest) ← readValue (2 * chars.length + 2) (skipBlanks chars)
  if (skipBlanks rest).isEmpty then return value else none

end Winnow.Json
