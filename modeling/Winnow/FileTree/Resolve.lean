import Winnow.FileTree.Basic
import Winnow.Text.Pieces

/-!
# Resolving host paths

A host path is the text that follows the base directory, part by part. Empty parts come from
doubled and trailing slashes; they stay in the written form and, like the name of the current
folder, lead nowhere, although they need a folder to stand in.

A path is resolved one part after the other. A link on the way is replaced by its target; so
is a link in the last place when links are followed there. After a fixed number of links
resolving gives up.
-/

namespace Winnow

/-- A path on the host, as the parts that follow the base directory. -/
structure HostPath where
  parts : List String
deriving DecidableEq

namespace HostPath

/-- The path written as the base directory, a slash and `text`. An empty text leaves the
slash. -/
def joined (text : String) : HostPath := ⟨Text.pieces (· == '/') text⟩

/-- The path of the place that `text` names below the base directory. An empty text names the
base directory itself, which is written without a slash. -/
def below (text : String) : HostPath := if text = "" then ⟨[]⟩ else joined text

/-- The written form, given the base directory's. -/
def render (base : String) (path : HostPath) : String :=
  base ++ String.join (path.parts.map ("/" ++ ·))

/-- The path of something inside of a folder; a trailing slash is not doubled. -/
def child (path : HostPath) (name : String) : HostPath :=
  if path.parts.getLast? = some "" then ⟨path.parts.dropLast ++ [name]⟩
  else ⟨path.parts ++ [name]⟩

end HostPath

/-- Why a path leads nowhere. -/
inductive HostError where
  | notFound
  | notFolder
  | tooManyLinks
deriving DecidableEq, Repr

/-- The host's wording of an error. -/
def HostError.message : HostError → String
  | notFound => "No such file or directory (os error 2)"
  | notFolder => "Not a directory (os error 20)"
  | tooManyLinks => "Too many levels of symbolic links (os error 40)"

namespace FileTree

/-- The most links that are followed for one path. -/
def maxLinks : Nat := 40

/-- Where a link's target is looked up from, and its parts. -/
def targetParts (folder : Location) (target : String) : Location × List String :=
  (if target.startsWith "/" then [] else folder, Text.pieces (· == '/') target)

/-- Resolves parts from a location on, following at most `links` links. -/
def resolveFrom (tree : FileTree) (followLast : Bool) (links : Nat) (here : Location)
    (parts : List String) : Except HostError Location :=
  match parts with
  | [] => .ok here
  | part :: rest =>
      if !tree.isFolder here then .error .notFolder
      else if part = "" ∨ part = "." then tree.resolveFrom followLast links here rest
      else if part = ".." then tree.resolveFrom followLast links here.dropLast rest
      else
        match tree.node? (here ++ [part]) with
        | none => .error .notFound
        | some ⟨.link target, _⟩ =>
            if rest = [] ∧ !followLast then .ok (here ++ [part])
            else
              match links with
              | 0 => .error .tooManyLinks
              | links + 1 =>
                  let (start, inner) := targetParts here target
                  tree.resolveFrom followLast links start (inner ++ rest)
        | some _ => tree.resolveFrom followLast links (here ++ [part]) rest
termination_by (links, parts.length)

/-- The location of a path; `followLast` says whether a link in the last place is followed. -/
def resolve (tree : FileTree) (followLast : Bool) (path : HostPath) :
    Except HostError Location :=
  tree.resolveFrom followLast maxLinks [] path.parts

/-- What is at a path, and where. -/
def lookup (tree : FileTree) (followLast : Bool) (path : HostPath) :
    Except HostError (Location × Node) :=
  match tree.resolve followLast path with
  | .error error => .error error
  | .ok location =>
      match tree.node? location with
      | none => .error .notFound
      | some node => .ok (location, node)

end FileTree

end Winnow
