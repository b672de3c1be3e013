import Winnow.Json.Parser
import Winnow.Log.Verbosity

/-!
# Verbosities as JSON

Levels are written as objects with one number for every flag, and a verbosity as an object
with the levels of the two families. Reading needs every field exactly once and passes over
anything else in an object. A flag is written as its name.
-/

namespace Winnow

/-- A level as JSON. -/
def levelToJson (level : UInt8) : Json := .number (toString level.toNat)

namespace InfoLevels

/-- Levels as JSON. -/
def toJson (levels : InfoLevels) : Json :=
  .ofMembers
    [("filter", levelToJson levels.filter),
     ("enumerate", levelToJson levels.enumerate),
     ("remove", levelToJson levels.remove),
     ("stats", levelToJson levels.stats)]

/-- Reads levels. -/
def ofJson? (json : Json) : Option InfoLevels := do
  match ← json.fields? ["filter", "enumerate", "remove", "stats"] true with
  | [some filter, some enumerate, some remove, some stats] =>
      return ⟨← filter.byte?, ← enumerate.byte?, ← remove.byte?, ← stats.byte?⟩
  | _ => none

end InfoLevels

namespace DebugLevels

/-- Levels as JSON. -/
def toJson (levels : DebugLevels) : Json :=
  .ofMembers
    [("filter", levelToJson levels.filter),
     ("enumerate", levelToJson levels.enumerate),
     ("ancestor", levelToJson levels.ancestor),
     ("scope", levelToJson levels.scope)]

/-- Reads levels. -/
def ofJson? (json : Json) : Option DebugLevels := do
  match ← json.fields? ["filter", "enumerate", "ancestor", "scope"] true with
  | [some filter, some enumerate, some ancestor, some scope] =>
      return ⟨← filter.byte?, ← enumerate.byte?, ← ancestor.byte?, ← scope.byte?⟩
  | _ => none

end DebugLevels

namespace Verbosity

/-- A verbosity as JSON. -/
def toJson (verbosity : Verbosity) : Json :=
  .ofMembers [("info", verbosity.info.toJson), ("debug", verbosity.debug.toJson)]

/-- Reads a verbosity. -/
def ofJson? (json : Json) : Option Verbosity := do
  match ← json.fields? ["info", "debug"] true with
  | [some info, some debug] => return ⟨← InfoLevels.ofJson? info, ← DebugLevels.ofJson? debug⟩
  | _ => none

end Verbosity

/-- The info flag with the given name. -/
def InfoFlag.ofLabel? (label : String) : Option InfoFlag := all.find? (·.label == label)

/-- The debug flag with the given name. -/
def DebugFlag.ofLabel? (label : String) : Option DebugFlag := all.find? (·.label == label)

/-- An info flag as JSON. -/
def InfoFlag.toJson (flag : InfoFlag) : Json := .text flag.label

/-- Reads an info flag. -/
def InfoFlag.ofJson? (json : Json) : Option InfoFlag := do ofLabel? (← json.alternative?)

/-- A debug flag as JSON. -/
def DebugFlag.toJson (flag : DebugFlag) : Json := .text flag.label

/-- Reads a debug flag. -/
def DebugFlag.ofJson? (json : Json) : Option DebugFlag := do ofLabel? (← json.alternative?)

end Winnow
