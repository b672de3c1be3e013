import Winnow.FileTree.Basic
import Winnow.Text.Pieces

/-!
# Building file trees

A node is put into a folder of a tree under an allowed name. It may replace a node there, but
a folder only gives way to a folder, so nothing loses the folder it lies in. Putting a node at
a path makes the folders on the way to it that are missing.
-/

namespace Winnow.FileTree

/-- Whether a node may take a place; folders replace folders and only those. -/
def isFreeFor (tree : FileTree) (location : Location) (node : Node) : Bool :=
  tree.nodes[location]?.all fun old => old.isFolder == node.isFolder

/-- Puts a node into a folder. -/
def put? (tree : FileTree) (folder : Location) (name : String) (node : Node) :
    Option FileTree :=
  if fits : tree.isFolder folder = true ∧ IsFileName name ∧
      tree.isFreeFor (folder ++ [name]) node = true then
    some {
      base := tree.base
      nodes := tree.nodes.insert (folder ++ [name]) node
      root_not_mem := by simp [tree.root_not_mem]
      isFileName := by
        intro location present other member
        rcases Std.ExtTreeMap.mem_insert.1 present with same | earlier
        · rw [Std.LawfulEqOrd.compare_eq_iff_eq] at same
          subst same
          rcases List.mem_append.1 member with inFolder | last
          · rcases isFolder_iff.1 fits.1 with rfl | ⟨found, lookup, -⟩
            · simp at inFolder
            · exact tree.isFileName folder
                (Std.ExtTreeMap.mem_iff_isSome_getElem?.2 (by simp [lookup])) other inFolder
          · exact List.mem_singleton.1 last ▸ fits.2.1
        · exact tree.isFileName location earlier other member
      parent := by
        intro inner last present
        have unchanged : ∀ location, location ≠ folder ++ [name] →
            (tree.nodes.insert (folder ++ [name]) node)[location]? = tree.nodes[location]? := by
          intro location different
          rw [Std.ExtTreeMap.getElem?_insert, if_neg]
          rw [Std.LawfulEqOrd.compare_eq_iff_eq]
          exact fun same => different same.symm
        rcases Std.ExtTreeMap.mem_insert.1 present with same | earlier
        · rw [Std.LawfulEqOrd.compare_eq_iff_eq] at same
          obtain ⟨rfl, -⟩ := List.append_inj' same rfl
          rw [unchanged folder (by simp)]
          exact isFolder_iff.1 fits.1
        · rcases tree.parent inner last earlier with atBase | ⟨found, lookup, folderNode⟩
          · exact .inl atBase
          · by_cases replaced : inner = folder ++ [name]
            · have free := fits.2.2
              subst replaced
              simp only [isFreeFor, lookup, Option.all_some, folderNode, beq_iff_eq] at free
              exact .inr ⟨node, by simp, free.symm⟩
            · exact .inr ⟨found, by rw [unchanged inner replaced]; exact lookup, folderNode⟩ }
  else none

/-- Puts a node below a folder at the place that `names` lead to, and makes the missing
folders on the way. -/
def putAt? (tree : FileTree) (folder : Location) (node : Node) : List String → Option FileTree
  | [] => none
  | [name] => tree.put? folder name node
  | name :: names =>
      if tree.isFolder (folder ++ [name]) then tree.putAt? (folder ++ [name]) node names
      else do (← tree.put? folder name baseNode).putAt? (folder ++ [name]) node names

/-- Puts a node at a written path. -/
def putPath? (tree : FileTree) (path : String) (node : Node) : Option FileTree :=
  tree.putAt? [] node (Text.pieces (· == '/') path)

/-- The tree that holds the given nodes, put one after the other. -/
def ofNodes? (base : String) (nodes : List (String × Node)) : Option FileTree :=
  nodes.foldlM (fun tree (path, node) => tree.putPath? path node) (empty base)

end Winnow.FileTree
