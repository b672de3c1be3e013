import Winnow.FilterSet.Compile
import Winnow.Pass.Run
import Winnow.Walk.Walker

/-!
# File trees as sources

A tree source walks a folder of a file tree and takes what it finds through a pass. The walk
goes below the direct children of the root if the job is recursive or has a scope, since a
scope may name a place at any depth. The walk is not run ahead of the pass: what it would
still have come upon after the pass has stopped gives no notice.
-/

namespace Winnow

/-- Why a run over a tree source fails. -/
inductive SourceError where
  | filter (error : FilterError)
  | walk (error : WalkError)
  | pass (error : PassError)
deriving DecidableEq

/-- A folder to be filtered, and how. -/
structure TreeSource where
  tree : FileTree
  root : WalkRoot
  options : Options
  folderAware : Bool := true
  token : Bool := false

namespace TreeSource

/-- How the source is walked under a filter set. -/
def settings (set : FilterSet) : WalkSettings :=
  { recursive := set.recursive || set.scope.isSome }

/-- Takes the steps of a walk through a pass after some records have been delivered. -/
def feed (source : TreeSource) (pass : Pass) (sink : Sink) (delivered : List Record) :
    List (Noted (Except WalkError WalkEntry)) → Noted (Outcome SourceError)
  | [] => do
      let outcome ← pass.close sink delivered
      match outcome.result with
      | .error error => return ⟨outcome.delivered, .error (.pass error)⟩
      | .ok summary =>
          MonadLog.info .stats 1 (source.root.render source.tree.base ++ ": " ++ summary.message)
          return ⟨outcome.delivered, .ok summary⟩
  | step :: steps => do
      match ← step with
      | .error error => return ⟨delivered, .error (.walk error)⟩
      | .ok entry =>
          match ← pass.push entry.item with
          | (.error error, _) => return ⟨delivered, .error (.pass error)⟩
          | (.ok records, next) =>
              let (next, delivered) := next.deliver sink delivered records
              source.feed next sink delivered steps

/-- Compiles the options, walks the source and filters what the walk finds. -/
def run (source : TreeSource) (sink : Sink) : Noted (Outcome SourceError) := do
  match ← (FilterSet.compile source.options).run with
  | .error error => return ⟨[], .error (.filter error)⟩
  | .ok set =>
      match ← Walker.start source.tree source.root (settings set) with
      | .error error => return ⟨[], .error (.walk error)⟩
      | .ok walker =>
          let pass ← Pass.new set source.folderAware source.token
          source.feed pass sink [] walker.steps

end TreeSource

end Winnow
