import Winnow.RelPath.Lemmas

/-!
# Scopes of removals

A scope restricts a removal to one place and, in a recursive job, to everything below it. The
scope of the source root covers the whole source.
-/

namespace Winnow

/-- The part of the source that a removal may touch. -/
structure Scope where
  path : RelPath
  recursive : Bool
deriving DecidableEq

namespace Scope

/-- Whether the scope is the whole source. -/
def isWhole (scope : Scope) : Bool := scope.path.isRoot

/-- Whether a place belongs to the scope. -/
def contains (scope : Scope) (candidate : RelPath) : Bool :=
  scope.isWhole || candidate == scope.path
    || (scope.recursive && candidate.isDescendantOf scope.path)

/-- A scope smaller than the source contains its own place and, if it is recursive, all below. -/
theorem contains_iff {scope : Scope} {candidate : RelPath} :
    scope.contains candidate = true ↔
      scope.path = .root ∨ candidate = scope.path ∨
        scope.recursive = true ∧ candidate.isDescendantOf scope.path = true := by
  simp [contains, isWhole, RelPath.isRoot_iff, or_assoc]

end Scope

end Winnow
