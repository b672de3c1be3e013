import Winnow.FilterSet.Basic
import Winnow.Log.Noted
import Winnow.Text.Blank

/-!
# Compiling options

Compiling reads the filter options one after the other, in the order in which a filter set
checks them, and stops at the first malformed entry. Some filters do not apply to every
operation: the scope is for removals, included paths are not for synchronization, and the
threshold is for copies. A filter that does not apply is left out with a notice. A threshold
and included paths have to be well formed even then; a scope is not looked at.

Notices given before an error remain given.
-/

namespace Winnow

/-- The instant that a threshold denotes. Blanks around it do not matter. -/
def readThreshold (text : String) : Except FilterError Instant :=
  match Rfc3339.parse (Text.trim text) with
  | .error fault => .error ⟨.includeAfter, text, .timestamp fault⟩
  | .ok instant => .ok instant

namespace FilterSet

/-- Computations that may come upon a malformed entry. -/
abbrev Compiling (m : Type → Type) := ExceptT FilterError m

variable {m : Type → Type} [Monad m] [MonadLog m]

/-- Notes that a filter is left out. -/
def skipping (kind : Kind) (operation : Operation) : m Unit :=
  MonadLog.info .filter 1
    (kind.label ++ " does not apply to " ++ operation.label ++ "; ignoring it")

/-- The scope of a removal; for any other operation its option is not looked at. -/
def compileScope (options : Options) : Compiling m (Option Scope) := do
  match options.relativeSourcePath with
  | none => return none
  | some text =>
      if options.operation = .remove then
        let path ← readRelPath .scope text
        (MonadLog.info .remove 1 ("restricting removal to '" ++ path.render ++ "'") : m Unit)
        return some ⟨path, options.recursive⟩
      else
        (skipping .scope options.operation : m Unit)
        return none

/-- An optional list of paths. -/
def compilePaths (kind : Kind) : Option String → Compiling m (Option PathList)
  | none => return none
  | some text => PathList.parse kind text

/-- An optional list of globs. -/
def compileGlobs (kind : Kind) : Option String → Compiling m (Option GlobList)
  | none => return none
  | some text => GlobList.parse kind text

/-- The paths that a job other than a synchronization keeps to. -/
def compileIncludePath (options : Options) : Compiling m (Option PathList) := do
  let list ← compilePaths .includePath options.includePath
  if options.operation = .sync ∧ options.includePath.isSome then
    (skipping .includePath options.operation : m Unit)
    return none
  else return list

/-- The threshold of a copy. -/
def compileIncludeAfter (options : Options) : Compiling m (Option Instant) := do
  match options.includeAfter with
  | none => return none
  | some text =>
      let threshold ← readThreshold text
      if options.operation = .copy then return some threshold
      else
        (skipping .includeAfter options.operation : m Unit)
        return none

/-- Notes which filter has been configured. -/
def noteConfigured (category : Category) : m Unit := do
  MonadLog.trace "xfer::filter" .debug "category_configured"
  MonadLog.debug .filter 1 (category.kind.label ++ " filter configured")

/-- The filter set that options describe. -/
def compile (options : Options) : Compiling m FilterSet := do
  let scope ← compileScope options
  let excludePath ← compilePaths .excludePath options.excludePath
  let excludePattern ← compileGlobs .excludePattern options.excludePattern
  let includePath ← compileIncludePath options
  let includePattern ← compileGlobs .includePattern options.includePattern
  let includeAfter ← compileIncludeAfter options
  let set : FilterSet :=
    { operation := options.operation, recursive := options.recursive, scope, excludePath,
      excludePattern, includePath, includePattern, includeAfter }
  set.categories.forM fun category => (noteConfigured category : m Unit)
  return set

end FilterSet

end Winnow
