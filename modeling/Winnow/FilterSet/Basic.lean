import Winnow.Glob.List
import Winnow.Item
import Winnow.Options.Basic
import Winnow.PathList
import Winnow.Scope
import Winnow.Verdict

/-!
# Filter sets

A filter set holds at most one filter of each kind and decides about items one by one. The
decision looks at the set and the item alone. Its checks come in a fixed order, and a
rejection names the first check that fails:

- a job that is not recursive leaves out what is deeper than the direct children of the root,
  unless a scope other than the whole source brings its own rule for that;
- the scope rejects what it does not contain;
- an exclude filter rejects what it matches;
- an include filter rejects what it does not match.
-/

namespace Winnow

/-- A configured filter. -/
inductive Category where
  | scope (scope : Scope)
  | excludePath (list : PathList)
  | excludePattern (list : GlobList)
  | includePath (list : PathList)
  | includePattern (list : GlobList)
  | includeAfter (threshold : Instant)

namespace Category

/-- The kind of a filter. -/
def kind : Category → Kind
  | scope _ => .scope
  | excludePath _ => .excludePath
  | excludePattern _ => .excludePattern
  | includePath _ => .includePath
  | includePattern _ => .includePattern
  | includeAfter _ => .includeAfter

/-- Whether a filter matches an item. Globs are matched against the item's name, and a
threshold is matched by items modified after it. -/
def admits (category : Category) (item : Item) : Bool :=
  match category with
  | .scope region => region.contains item.path
  | .excludePath list | .includePath list => list.covers item.path
  | .excludePattern list | .includePattern list => list.matchesName item.basename
  | .includeAfter threshold => threshold < item.modified

/-- Why a filter rejects an item, if it does. -/
def rejection? (category : Category) (item : Item) : Option RejectReason :=
  match category.kind, category.admits item with
  | .scope, false => some .outOfScope
  | .excludePath, true => some (.excluded .excludePath)
  | .excludePattern, true => some (.excluded .excludePattern)
  | .includePath, false => some (.notIncluded .includePath)
  | .includePattern, false => some (.notIncluded .includePattern)
  | .includeAfter, false => some (.notIncluded .includeAfter)
  | _, _ => none

end Category

/-- The filters of a job. -/
structure FilterSet where
  operation : Operation := .copy
  recursive : Bool := false
  scope : Option Scope := none
  excludePath : Option PathList := none
  excludePattern : Option GlobList := none
  includePath : Option PathList := none
  includePattern : Option GlobList := none
  includeAfter : Option Instant := none

namespace FilterSet

instance : Inhabited FilterSet := ⟨{}⟩

/-- The filter of one kind, if it is configured. -/
def category? (set : FilterSet) : Kind → Option Category
  | .scope => set.scope.map .scope
  | .excludePath => set.excludePath.map .excludePath
  | .excludePattern => set.excludePattern.map .excludePattern
  | .includePath => set.includePath.map .includePath
  | .includePattern => set.includePattern.map .includePattern
  | .includeAfter => set.includeAfter.map .includeAfter

/-- The configured filters, in the order of evaluation. -/
def categories (set : FilterSet) : List Category :=
  Kind.all.filterMap set.category?

/-- Whether no filter is configured. -/
def isEmpty (set : FilterSet) : Bool := set.categories.isEmpty

/-- Whether the scope is configured and smaller than the whole source. -/
def isConfined (set : FilterSet) : Bool :=
  set.scope.any fun scope => !scope.isWhole

/-- Whether an item is deeper than a job that is not recursive goes. -/
def isBeyondRecursion (set : FilterSet) (item : Item) : Bool :=
  !set.recursive && decide (2 ≤ item.path.depth) && !set.isConfined

/-- Why an item is rejected, if it is. -/
def rejection? (set : FilterSet) (item : Item) : Option RejectReason :=
  if set.isBeyondRecursion item then some .beyondRecursion
  else set.categories.findSome? (·.rejection? item)

/-- The decision about an item. -/
def decide (set : FilterSet) (item : Item) : Verdict :=
  match set.rejection? item with
  | some reason => .rejected reason
  | none => .accepted .selfMatched

/-- Whether an item passes every filter. -/
def allows (set : FilterSet) (item : Item) : Bool := (set.decide item).isAccepted

theorem category?_kind {set : FilterSet} {kind : Kind} {category : Category}
    (configured : set.category? kind = some category) : category.kind = kind := by
  cases kind <;> simp only [category?, Option.map_eq_some_iff] at configured <;>
    obtain ⟨_, _, rfl⟩ := configured <;> rfl

end FilterSet

end Winnow
