import Winnow.Log.Verbosity

/-!
# Flag tokens

A flag token names a flag of one family, or all of them, and may give a level: the digits
from the first digit on. Without digits the level is 1. A token that cannot be read changes
nothing.
-/

namespace Winnow

/-- Why a flag token cannot be read. -/
inductive TokenError where
  | empty
  | nameless (token : String)
  | badLevel (token : String)
  | unknownFlag (family : Family) (name : String)
deriving DecidableEq

/-- The wording of an error. -/
def TokenError.message : TokenError → String
  | empty => "empty flag token"
  | nameless token => "flag token has no name: " ++ token
  | badLevel token => "invalid level in flag: " ++ token
  | unknownFlag family name => "unknown " ++ family.label ++ " flag: " ++ name

namespace FlagToken

/-- The number that digits stand for. -/
def numberOf (digits : List Char) : Nat :=
  digits.foldl (fun value digit => value * 10 + (digit.toNat - '0'.toNat)) 0

/-- The level that the end of a token stands for; there must be digits only, and the level
must fit into a byte. -/
def level? (chars : List Char) : Option UInt8 :=
  if chars.all Char.isDigit && numberOf chars ≤ 255 then some (UInt8.ofNat (numberOf chars))
  else none

/-- The name and the level of a token. -/
def read (token : String) : Except TokenError (String × UInt8) :=
  let name := token.toList.takeWhile (!·.isDigit)
  let digits := token.toList.dropWhile (!·.isDigit)
  if token = "" then .error .empty
  else if name.isEmpty then .error (.nameless token)
  else if digits.isEmpty then .ok (token, 1)
  else
    match level? digits with
    | none => .error (.badLevel token)
    | some level => .ok (String.ofList name, level)

/-- The name that stands for every flag of a family. -/
def everyFlag : String := "all"

end FlagToken

/-- Adjusts a verbosity by a token of the given family. -/
def Verbosity.apply (verbosity : Verbosity) (family : Family) (token : String) :
    Except TokenError Verbosity :=
  match FlagToken.read token with
  | .error error => .error error
  | .ok (name, level) =>
      if name = FlagToken.everyFlag then .ok (verbosity.setAll family level)
      else
        match Flag.ofToken? family name with
        | none => .error (.unknownFlag family name)
        | some flag => .ok (verbosity.set flag level)

/-- Adjusts a verbosity by several tokens of a family; the first bad one is reported. -/
def Verbosity.applyAll (verbosity : Verbosity) (family : Family) (tokens : List String) :
    Except TokenError Verbosity :=
  tokens.foldlM (fun current token => current.apply family token) verbosity

end Winnow
