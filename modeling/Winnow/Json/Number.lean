import Winnow.Json.Basic

/-!
# JSON numbers

A number has a whole part without needless zeros and may have a sign, a fraction and an
exponent. It is kept as it is written.
-/

namespace Winnow.Json

/-- Reads digits, of which there has to be at least one. -/
def readDigits (chars : List Char) : Option (List Char × List Char) :=
  match chars.takeWhile Char.isDigit with
  | [] => none
  | digits => some (digits, chars.dropWhile Char.isDigit)

/-- Reads the whole part of a number, which has no needless zeros. -/
def readWhole : List Char → Option (List Char × List Char)
  | '0' :: rest => if rest.head?.any Char.isDigit then none else some (['0'], rest)
  | chars => readDigits chars

/-- Reads the fraction of a number, if there is one. -/
def readFraction : List Char → Option (List Char × List Char)
  | '.' :: rest => do
      let (digits, rest) ← readDigits rest
      return ('.' :: digits, rest)
  | chars => some ([], chars)

/-- Reads the exponent of a number, if there is one. -/
def readExponent : List Char → Option (List Char × List Char)
  | mark :: rest =>
      if mark = 'e' ∨ mark = 'E' then do
        let sign := rest.takeWhile fun c => c == '+' || c == '-'
        if 1 < sign.length then none
        let (digits, rest) ← readDigits (rest.drop sign.length)
        return (mark :: sign ++ digits, rest)
      else some ([], mark :: rest)
  | [] => some ([], [])

/-- Reads a number. -/
def readNumber (chars : List Char) : Option (Json × List Char) := do
  let sign := if chars.head? = some '-' then ['-'] else []
  let (whole, rest) ← readWhole (chars.drop sign.length)
  let (fraction, rest) ← readFraction rest
  let (exponent, rest) ← readExponent rest
  return (.number (String.ofList (sign ++ whole ++ fraction ++ exponent)), rest)

end Winnow.Json
