import Winnow.Log.Noted
import Winnow.Text.Quoted
import Winnow.Walk.Basic

/-!
# Walkers

A walker lists a folder of a file tree depth first. The names inside of a folder are taken in
order, and a folder comes before what it contains. A folder is entered at most once, however
many links lead to it, so a walk ends even if links form a circle.

Links are listed as files unless they are followed. A followed link to a folder is listed as
a folder, and what it contains is listed below it; a link that leads nowhere then ends the
walk with an error.

In a file tree every folder that has been found can be resolved and read. A host may refuse either
of them, for want of a permission or because the folder has gone in the meantime; such errors are
outside of what a walker can meet here.
-/

namespace Winnow

/-- An entered folder: its host path, its path below the walk's root, and the names inside
that are still to be listed. -/
structure Frame where
  path : HostPath
  place : RelPath
  names : List String
deriving DecidableEq

/-- The state of a walk. The frame on top of the stack is the folder entered last; `visited`
holds the locations of all folders entered so far. -/
structure Walker where
  tree : FileTree
  settings : WalkSettings
  rootEntry : Option WalkEntry := none
  stack : List Frame := []
  visited : List Location := []
  finished : Bool := false

namespace Walker

/-- The written form of a host path. -/
def shown (walker : Walker) (path : HostPath) : String := path.render walker.tree.base

/-- The item at a place, told from what is there; a followed link counts as a folder. -/
def itemOf (place : RelPath) (node : Node) (isFolder : Bool) : Item where
  path := place
  content := if isFolder then .folder else .file node.size
  modified := node.modified

theorem isFolder_itemOf (place : RelPath) (node : Node) (isFolder : Bool) :
    (itemOf place node isFolder).isFolder = isFolder := by
  cases isFolder <;> rfl

/-- Enters a folder, unless it has been entered before. -/
def enter (walker : Walker) (path : HostPath) (location : Location) (place : RelPath) :
    Noted Walker := do
  let quoted := Text.quote (walker.shown path)
  if location ∈ walker.visited then
    MonadLog.debug .enumerate 1 ("skipping already visited directory: " ++ quoted)
    return walker
  else
    let names := walker.tree.names location
    MonadLog.debug .enumerate 3 ("entering directory: " ++ quoted)
    MonadLog.debug .enumerate 3 ("found " ++ toString names.length ++ " entries in " ++ quoted)
    return { walker with
      stack := ⟨path, place, names⟩ :: walker.stack
      visited := location :: walker.visited }

/-- What a walk finds at a path: the node itself, and the location of the folder that it is or,
as a followed link, leads to. -/
def inspect (walker : Walker) (path : HostPath) :
    Except HostError (Node × Option Location) :=
  match walker.tree.lookup false path with
  | .error error => .error error
  | .ok (location, node) =>
      match node.kind with
      | .folder => .ok (node, some location)
      | .file _ => .ok (node, none)
      | .link _ =>
          if walker.settings.followLinks then
            match walker.tree.lookup true path with
            | .error error => .error error
            | .ok (target, found) => .ok (node, if found.isFolder then some target else none)
          else .ok (node, none)

/-- The host path by which a folder is entered: its own if it stands at `path` itself, and the
direct one if a link leads to it. -/
def entrance (path : HostPath) (node : Node) (location : Location) : HostPath :=
  if node.isFolder then path else ⟨location⟩

/-- Lists what is at a path, and enters it if it is a folder. -/
def visit (walker : Walker) (path : HostPath) (place : RelPath) :
    Noted (Except WalkError WalkEntry × Walker) := do
  MonadLog.debug .enumerate 4 ("processing entry: " ++ place.render)
  match walker.inspect path with
  | .error error =>
      return (.error (.entry (walker.shown path) error), { walker with finished := true })
  | .ok (node, folder) =>
      let entry : WalkEntry := ⟨path, itemOf place node folder.isSome, false⟩
      match folder, walker.settings.recursive with
      | some location, true =>
          let entered ← walker.enter (entrance path node location) location place
          return (.ok entry, entered)
      | _, _ => return (.ok entry, walker)

/-- Takes the next name from a stack of frames; exhausted frames are left for good. -/
def nextName? : List Frame → Option (HostPath × RelPath × List Frame)
  | [] => none
  | ⟨_, _, []⟩ :: frames => nextName? frames
  | ⟨path, place, name :: names⟩ :: frames =>
      some (path.child name, place.join name, ⟨path, place, names⟩ :: frames)

/-- The next entry of a walk; there is none once the walk has ended, with or without error. -/
def next (walker : Walker) : Noted (Option (Except WalkError WalkEntry) × Walker) :=
  if walker.finished then return (none, walker)
  else
    match walker.rootEntry with
    | some entry => return (some (.ok entry), { walker with rootEntry := none })
    | none =>
        match nextName? walker.stack with
        | none => return (none, { walker with stack := [] })
        | some (path, place, frames) => do
            let (result, after) ← { walker with stack := frames }.visit path place
            return (some result, after)

/-- Starts a walk. The root itself has to be there; it is entered if it is a folder. -/
def start (tree : FileTree) (root : WalkRoot) (settings : WalkSettings) :
    Noted (Except WalkError Walker) := do
  let fresh : Walker := { tree, settings }
  let path := root.path
  let shown := fresh.shown path
  MonadLog.debug .enumerate 1
    ("enumerating " ++ Text.quote shown ++ " (recursive: " ++
      (if settings.recursive then "true" else "false") ++ ")")
  match tree.lookup false path with
  | .error error => return .error (.root shown error)
  | .ok _ =>
      match fresh.inspect path with
      | .error error => return .error (.entry shown error)
      | .ok (node, folder) =>
          let entry : WalkEntry := ⟨path, itemOf .root node folder.isSome, true⟩
          let ready := { fresh with rootEntry := if settings.includeRoot then some entry else none }
          match folder with
          | some location => return .ok (← ready.enter path location .root)
          | none => return .ok ready

/-- The results of at most `limit` further steps, each with its notices. -/
def stepsWithin (walker : Walker) : Nat → List (Noted (Except WalkError WalkEntry))
  | 0 => []
  | limit + 1 =>
      match walker.next with
      | ⟨(none, _), _⟩ => []
      | ⟨(some result, after), notices⟩ => ⟨result, notices⟩ :: after.stepsWithin limit

/-- The most steps that a walk takes from its start on: the root and, because every folder is
entered at most once, every node of the tree. -/
def stepLimit (tree : FileTree) : Nat := tree.nodes.size + 1

/-- The results of a walk, from its start on, each with its notices. -/
def steps (walker : Walker) : List (Noted (Except WalkError WalkEntry)) :=
  walker.stepsWithin (stepLimit walker.tree)

end Walker

end Winnow
