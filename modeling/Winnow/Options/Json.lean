import Winnow.Json.Parser
import Winnow.Options.Basic

/-!
# Options as JSON

Options are written as an object with all of their fields. They are read from an object with
any of these fields in any order, each at most once, and nothing else; what is left out has
its default value. An absent filter may also be written as null.
-/

namespace Winnow

namespace Operation

/-- The operation of the given name. -/
def ofLabel? (label : String) : Option Operation :=
  all.find? (·.label == label)

/-- An operation as JSON. -/
def toJson (operation : Operation) : Json := .text operation.label

/-- Reads an operation. -/
def ofJson? (json : Json) : Option Operation := do
  ofLabel? (← json.alternative?)

end Operation

namespace Options

/-- The names of the fields, in order. -/
def fieldNames : List String :=
  ["operation", "recursive", "includePath", "excludePath", "includePattern", "excludePattern",
   "includeAfter", "relativeSourcePath"]

/-- A text that may be absent, as JSON. -/
def textToJson : Option String → Json
  | none => .null
  | some text => .text text

/-- The members that options are written as. -/
def members (options : Options) : List (String × Json) :=
  [("operation", options.operation.toJson),
   ("recursive", .bool options.recursive),
   ("includePath", textToJson options.includePath),
   ("excludePath", textToJson options.excludePath),
   ("includePattern", textToJson options.includePattern),
   ("excludePattern", textToJson options.excludePattern),
   ("includeAfter", textToJson options.includeAfter),
   ("relativeSourcePath", textToJson options.relativeSourcePath)]

/-- Options as JSON. -/
def toJson (options : Options) : Json := .ofMembers options.members

/-- Reads a field that has a default. -/
def readField {α : Type} (read : Json → Option α) (default : α) : Option Json → Option α
  | none => some default
  | some json => read json

/-- Reads options. -/
def ofJson? (json : Json) : Option Options := do
  match ← json.fields? fieldNames false with
  | [operation, recursive, includePath, excludePath, includePattern, excludePattern,
      includeAfter, relativeSourcePath] =>
      return {
        operation := ← readField Operation.ofJson? .copy operation
        recursive := ← readField Json.bool? false recursive
        includePath := ← readField Json.optionalText? none includePath
        excludePath := ← readField Json.optionalText? none excludePath
        includePattern := ← readField Json.optionalText? none includePattern
        excludePattern := ← readField Json.optionalText? none excludePattern
        includeAfter := ← readField Json.optionalText? none includeAfter
        relativeSourcePath := ← readField Json.optionalText? none relativeSourcePath }
  | _ => none

/-- Reads options from a JSON document. -/
def parse? (document : String) : Option Options := do
  ofJson? (← Json.parse? document)

end Options

end Winnow
