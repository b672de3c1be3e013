/-!
# Options

The options of a job as they are configured: what the job does, whether it goes below the
direct children of the source root, and one text for each kind of filter. An option that is
present but empty is not the same as an absent one.
-/

namespace Winnow

/-- What a job does with the items that it accepts. -/
inductive Operation where
  | copy
  | sync
  | remove
deriving DecidableEq, Repr

/-- Every operation. -/
def Operation.all : List Operation := [copy, sync, remove]

/-- The written name of an operation. -/
def Operation.label : Operation → String
  | copy => "copy"
  | sync => "sync"
  | remove => "remove"

/-- The options of a job. -/
structure Options where
  operation : Operation := .copy
  recursive : Bool := false
  includePath : Option String := none
  excludePath : Option String := none
  includePattern : Option String := none
  excludePattern : Option String := none
  includeAfter : Option String := none
  relativeSourcePath : Option String := none
deriving DecidableEq

instance : Inhabited Options := ⟨{}⟩

end Winnow
