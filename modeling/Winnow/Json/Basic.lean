/-!
# JSON values

Values as a JSON document holds them. Members of an object keep their order and may repeat a
name; numbers keep their written form. A string whose escapes leave a surrogate unpaired
stands for no text.

Records are read from objects, whose members may come in any order, or from arrays, whose
elements stand for the fields in order.
-/

namespace Winnow

/-- A JSON value. -/
inductive Json where
  | null
  | bool (value : Bool)
  | number (literal : String)
  | string (text : Option String)
  | array (elements : List Json)
  | object (members : List (Option String × Json))

namespace Json

/-- A string value. -/
def text (text : String) : Json := .string (some text)

/-- An object with the given members. -/
def ofMembers (members : List (String × Json)) : Json :=
  .object (members.map fun (name, value) => (some name, value))

/-- The byte that a number without sign, fraction and exponent stands for. -/
def byte? : Json → Option UInt8
  | number literal => do
      let value ← literal.toNat?
      if literal.toList.all Char.isDigit ∧ value ≤ 255 then some (UInt8.ofNat value) else none
  | _ => none

/-- The truth value. -/
def bool? : Json → Option Bool
  | bool value => some value
  | _ => none

/-- The text of a string. -/
def text? : Json → Option String
  | string text => text
  | _ => none

/-- A text that may be absent. -/
def optionalText? : Json → Option (Option String)
  | null => some none
  | string text => text.map some
  | _ => none

/-- The name of an alternative without content: the name itself, or an object with the name as
its only member and nothing as its value. -/
def alternative? : Json → Option String
  | string text => text
  | object [(name, null)] => name
  | _ => none

/-- The value of the only member with the given name: `none` if the name is repeated, and
`some none` if it is missing. -/
def only? (members : List (Option String × Json)) (name : String) : Option (Option Json) :=
  match members.filter fun (other, _) => other == some name with
  | [] => some none
  | [(_, value)] => some (some value)
  | _ => none

/-- The values of the named fields of a record, where present. Whether other members are
passed over is up to `lenient`; the names of all members have to be texts. -/
def fields? (names : List String) (lenient : Bool) : Json → Option (List (Option Json))
  | object members =>
      if members.all fun (name, _) => name.any fun known => lenient || names.contains known then
        names.mapM (only? members)
      else none
  | array elements =>
      if elements.length ≤ names.length then
        some ((elements.map some) ++ List.replicate (names.length - elements.length) none)
      else none
  | _ => none

end Json

end Winnow
