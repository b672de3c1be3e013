import Winnow.Instant.Basic
import Winnow.RelPath.Basic

/-!
# Items

An item is a folder or a file that an enumeration of a source has come upon. Only files have
a size of their own.
-/

namespace Winnow

/-- What an item is. -/
inductive Content where
  | folder
  | file (size : Nat)
deriving DecidableEq, Repr

/-- A folder or file below a source root. -/
structure Item where
  path : RelPath
  content : Content
  modified : Instant
deriving DecidableEq

namespace Item

/-- Whether the item is a folder. -/
def isFolder (item : Item) : Bool :=
  match item.content with
  | .folder => true
  | .file _ => false

/-- The size of a file; a folder has size 0. -/
def size (item : Item) : Nat :=
  match item.content with
  | .folder => 0
  | .file size => size

/-- The name of the item; the source root has an empty one. -/
def basename (item : Item) : String := item.path.basename?.getD ""

end Item

/-- The word for a folder or a file. -/
def contentWord (isFolder : Bool) : String := if isFolder then "folder" else "file"

end Winnow
