/-!
# Flags

Log messages come in two families. Each family has four flags, which say what a message is
about, and each flag has a level of its own that says how much of it is wanted.
-/

namespace Winnow

/-- What an info message is about. -/
inductive InfoFlag where
  | filter
  | enumerate
  | remove
  | stats
deriving DecidableEq, Repr

/-- What a debug message is about. -/
inductive DebugFlag where
  | filter
  | enumerate
  | ancestor
  | scope
deriving DecidableEq, Repr

/-- The two families of messages. -/
inductive Family where
  | info
  | debug
deriving DecidableEq, Repr

/-- A flag of either family. -/
inductive Flag where
  | info (flag : InfoFlag)
  | debug (flag : DebugFlag)
deriving DecidableEq, Repr

namespace InfoFlag

/-- Every info flag. -/
def all : List InfoFlag := [filter, enumerate, remove, stats]

/-- The written name of a flag. -/
def label : InfoFlag → String
  | filter => "Filter"
  | enumerate => "Enum"
  | remove => "Remove"
  | stats => "Stats"

/-- The name of a flag in a token. -/
def token : InfoFlag → String
  | filter => "filter"
  | enumerate => "enum"
  | remove => "remove"
  | stats => "stats"

end InfoFlag

namespace DebugFlag

/-- Every debug flag. -/
def all : List DebugFlag := [filter, enumerate, ancestor, scope]

/-- The written name of a flag. -/
def label : DebugFlag → String
  | filter => "Filter"
  | enumerate => "Enum"
  | ancestor => "Ancestor"
  | scope => "Scope"

/-- The name of a flag in a token. -/
def token : DebugFlag → String
  | filter => "filter"
  | enumerate => "enum"
  | ancestor => "ancestor"
  | scope => "scope"

end DebugFlag

/-- The name of a family. -/
def Family.label : Family → String
  | info => "info"
  | debug => "debug"

namespace Flag

/-- The family that a flag belongs to. -/
def family : Flag → Family
  | info _ => .info
  | debug _ => .debug

/-- The flags of a family. -/
def ofFamily : Family → List Flag
  | .info => InfoFlag.all.map info
  | .debug => DebugFlag.all.map debug

/-- The name of a flag in a token. -/
def token : Flag → String
  | info flag => flag.token
  | debug flag => flag.token

/-- The flag of a family with the given name in tokens. -/
def ofToken? (family : Family) (name : String) : Option Flag :=
  (ofFamily family).find? (·.token == name)

theorem mem_ofFamily {flag : Flag} {family : Family} :
    flag ∈ ofFamily family ↔ flag.family = family := by
  cases flag with
  | info flag => cases family <;> cases flag <;> decide
  | debug flag => cases family <;> cases flag <;> decide

end Flag

end Winnow
