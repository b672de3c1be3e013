import Winnow.Glob.Parser
import Winnow.Instant.Rfc3339
import Winnow.Kind

/-!
# Malformed filters

Why an entry of a filter option cannot be used. An error names the kind of the filter and the
entry as it was written.
-/

namespace Winnow

/-- What can be wrong with a path entry. -/
inductive PathFault where
  | nulByte
  | parentSegment
  | sourceRoot
deriving DecidableEq, Repr

/-- The wording of a path fault. -/
def PathFault.message : PathFault → String
  | nulByte => "entry contains a NUL byte"
  | parentSegment => "parent-directory segments are not allowed"
  | sourceRoot => "entry names the source root"

/-- What can be wrong with an entry, by what the entry had to be. -/
inductive EntryFault where
  | path (fault : PathFault)
  | glob (fault : Glob.Fault)
  | globSeparator
  | timestamp (fault : Rfc3339.Fault)
deriving DecidableEq

/-- A filter entry that cannot be used. -/
structure FilterError where
  kind : Kind
  entry : String
  fault : EntryFault
deriving DecidableEq

/-- The wording of an error. -/
def FilterError.message (error : FilterError) : String :=
  let kind := error.kind.label
  let entry := "'" ++ error.entry ++ "'"
  match error.fault with
  | .path fault => "invalid " ++ kind ++ " entry " ++ entry ++ ": " ++ fault.message
  | .glob fault =>
      "failed to compile " ++ kind ++ " pattern " ++ entry ++
        ": error parsing glob " ++ entry ++ ": " ++ fault.message
  | .globSeparator =>
      kind ++ " pattern " ++ entry ++ " contains a path separator; patterns match a single name"
  | .timestamp fault => "invalid " ++ kind ++ " timestamp " ++ entry ++ ": " ++ fault.message

end Winnow
