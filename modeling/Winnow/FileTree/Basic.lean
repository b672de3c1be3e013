import Winnow.Instant.Basic
import Std.Data.ExtTreeMap

/-!
# File trees

A file tree holds folders, files and symbolic links, each at the location given by the names
that lead to it from the base directory. The base directory is a folder that is always there.
Everything else lies in a folder of the tree, and every name is one that a host allows.

Locations are sorted name by name, so a folder comes before everything inside of it and the
names inside of one folder are in order.
-/

namespace Winnow

/-- The names that lead from the base directory to a place, without detours. -/
abbrev Location := List String

/-- What is at a place. -/
inductive NodeKind where
  | folder
  | file (size : Nat)
  | link (target : String)
deriving DecidableEq, Repr

/-- A place's content and the time of its last modification. -/
structure Node where
  kind : NodeKind
  modified : Instant
deriving DecidableEq

/-- Whether a node is a folder; a link to a folder is none. -/
def Node.isFolder (node : Node) : Bool :=
  match node.kind with
  | .folder => true
  | .file _ | .link _ => false

/-- The size of a file, or the number of bytes of a link's target. -/
def Node.size (node : Node) : Nat :=
  match node.kind with
  | .folder => 0
  | .file size => size
  | .link target => target.utf8ByteSize

/-- A name that a host allows. -/
def IsFileName (name : String) : Prop :=
  name ≠ "" ∧ name ≠ "." ∧ name ≠ ".." ∧ '/' ∉ name.toList ∧ '\x00' ∉ name.toList

instance (name : String) : Decidable (IsFileName name) :=
  inferInstanceAs (Decidable (_ ∧ _))

/-- The content of the base directory at every depth. -/
structure FileTree where
  base : String
  nodes : Std.ExtTreeMap Location Node
  root_not_mem : [] ∉ nodes
  isFileName : ∀ location ∈ nodes, ∀ name ∈ location, IsFileName name
  parent : ∀ folder name, folder ++ [name] ∈ nodes →
    folder = [] ∨ ∃ node, nodes[folder]? = some node ∧ node.isFolder = true

namespace FileTree

/-- The base directory itself. -/
def baseNode : Node := ⟨.folder, ⟨0⟩⟩

/-- What is at a location. -/
def node? (tree : FileTree) (location : Location) : Option Node :=
  if location = [] then some baseNode else tree.nodes[location]?

/-- Whether there is a folder at a location. -/
def isFolder (tree : FileTree) (location : Location) : Bool :=
  (tree.node? location).any Node.isFolder

/-- The last name of a location inside of a folder. -/
def childName? (folder location : Location) : Option String :=
  if location.dropLast = folder then location.getLast? else none

/-- The names inside of a folder, in order. -/
def names (tree : FileTree) (folder : Location) : List String :=
  tree.nodes.keys.filterMap (childName? folder)

/-- A tree with nothing in it. -/
def empty (base : String) : FileTree where
  base := base
  nodes := ∅
  root_not_mem := by simp
  isFileName := by simp
  parent := by simp

theorem isFolder_iff {tree : FileTree} {location : Location} :
    tree.isFolder location = true ↔
      location = [] ∨ ∃ node, tree.nodes[location]? = some node ∧ node.isFolder = true := by
  unfold isFolder node?
  split
  · simp_all [baseNode, Node.isFolder]
  · simp_all [Option.any_eq_true]

/-- The last name of a location inside of a folder makes up the rest of the location. -/
theorem childName?_eq_some_iff {folder location : Location} {name : String} :
    childName? folder location = some name ↔ location = folder ++ [name] := by
  unfold childName?
  constructor
  · intro found
    split at found
    · rename_i inside
      obtain ⟨_, rfl⟩ := List.getLast?_eq_some_iff.1 found
      rw [← inside, List.dropLast_concat]
    · cases found
  · rintro rfl
    rw [List.dropLast_concat, if_pos rfl, List.getLast?_concat]

/-- The names inside of a folder are those that the tree has a node for. -/
theorem mem_names {tree : FileTree} {folder : Location} {name : String} :
    name ∈ tree.names folder ↔ folder ++ [name] ∈ tree.nodes := by
  simp only [names, List.mem_filterMap, Std.ExtTreeMap.mem_keys, childName?_eq_some_iff]
  constructor
  · rintro ⟨location, present, rfl⟩
    exact present
  · intro present
    exact ⟨folder ++ [name], present, rfl⟩

end FileTree

end Winnow
