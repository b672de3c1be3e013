/-!
# Kinds of filters

A job may configure each of six kinds of filters, at most once. The scope restricts a removal
to one place, the two exclude kinds reject what they match, and the three include kinds
reject what they do not match. The order of `Kind.all` is the order in which a filter set
checks them.
-/

namespace Winnow

/-- The six kinds of filters. -/
inductive Kind where
  | scope
  | excludePath
  | excludePattern
  | includePath
  | includePattern
  | includeAfter
deriving DecidableEq, Repr

namespace Kind

/-- Every kind, in the order of evaluation. -/
def all : List Kind :=
  [scope, excludePath, excludePattern, includePath, includePattern, includeAfter]

/-- The name of the option that configures a kind. -/
def label : Kind → String
  | scope => "relative-source-path"
  | excludePath => "exclude-path"
  | excludePattern => "exclude-pattern"
  | includePath => "include-path"
  | includePattern => "include-pattern"
  | includeAfter => "include-after"

/-- Whether a match of this kind rejects an item. -/
def isExclude : Kind → Bool
  | excludePath | excludePattern => true
  | scope | includePath | includePattern | includeAfter => false

/-- Whether a missing match of this kind rejects an item. -/
def isInclude : Kind → Bool
  | includePath | includePattern | includeAfter => true
  | scope | excludePath | excludePattern => false

theorem mem_all (kind : Kind) : kind ∈ all := by
  cases kind <;> decide

end Kind

end Winnow
