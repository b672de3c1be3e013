import Winnow.Kind

/-!
# Verdicts

What has been decided about an item, and why. An accepted item has passed every filter itself
or is a folder on the way to one that has. A rejected item names the first check that it
failed.
-/

namespace Winnow

/-- Why an item is accepted. -/
inductive AcceptReason where
  | selfMatched
  | ancestorOfMatch
deriving DecidableEq, Repr

/-- Why an item is rejected. -/
inductive RejectReason where
  | outOfScope
  | beyondRecursion
  | excluded (kind : Kind)
  | notIncluded (kind : Kind)
deriving DecidableEq, Repr

/-- A decision about an item. -/
inductive Verdict where
  | accepted (reason : AcceptReason)
  | rejected (reason : RejectReason)
deriving DecidableEq, Repr

namespace Verdict

/-- Whether the verdict accepts. -/
def isAccepted : Verdict → Bool
  | accepted _ => true
  | rejected _ => false

/-- Why the verdict accepts, if it does. -/
def acceptReason? : Verdict → Option AcceptReason
  | accepted reason => some reason
  | rejected _ => none

/-- Why the verdict rejects, if it does. -/
def rejectReason? : Verdict → Option RejectReason
  | accepted _ => none
  | rejected reason => some reason

/-- The wording of a verdict. -/
def message : Verdict → String
  | accepted .selfMatched => "accepted"
  | accepted .ancestorOfMatch => "accepted (ancestor of match)"
  | rejected .outOfScope => "rejected (outside scope)"
  | rejected .beyondRecursion => "rejected (not recursive)"
  | rejected (.excluded kind) => "rejected (" ++ kind.label ++ " match)"
  | rejected (.notIncluded kind) => "rejected (no " ++ kind.label ++ " match)"

end Verdict

end Winnow
