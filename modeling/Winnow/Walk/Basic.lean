import Winnow.FileTree.Resolve
import Winnow.Item

/-!
# Walks

What a walk over a file tree starts from, how it goes about, and what it yields: entries, and
at most one error, which is the last thing that a walk yields.
-/

namespace Winnow

/-- How a walk goes about. -/
structure WalkSettings where
  recursive : Bool := true
  followLinks : Bool := false
  includeRoot : Bool := true
deriving DecidableEq

/-- Where a walk starts: at a path of its own or relative to the base directory. -/
inductive WalkRoot where
  | absolute (path : HostPath)
  | relative (text : String)
deriving DecidableEq

namespace WalkRoot

/-- The path that a walk starts from. -/
def path : WalkRoot → HostPath
  | absolute path => path
  | relative text => .joined text

/-- The root as it was named, given the written form of the base directory. -/
def render (base : String) : WalkRoot → String
  | absolute path => path.render base
  | relative text => text

end WalkRoot

/-- Why a walk stops early; `shown` is the written path. -/
inductive WalkError where
  | root (shown : String) (error : HostError)
  | entry (shown : String) (error : HostError)
deriving DecidableEq

namespace WalkError

/-- The path that could not be inspected. -/
def shown : WalkError → String
  | root shown _ => shown
  | entry shown _ => shown

/-- The wording of an error. -/
def message : WalkError → String
  | root shown error =>
      "failed to inspect traversal root '" ++ shown ++ "': " ++ error.message
  | entry shown error =>
      "failed to inspect metadata for '" ++ shown ++ "': " ++ error.message

end WalkError

/-- One entry of a walk. -/
structure WalkEntry where
  path : HostPath
  item : Item
  isRoot : Bool
deriving DecidableEq

end Winnow
