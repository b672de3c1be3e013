import Winnow.FileTree.Resolve
import Winnow.Proofs.FileTree.Listing
import Mathlib.Data.List.Basic

/-!
# Paths of children

A path with something behind it is resolved in two turns: first the path, with a link in its last
place followed, and then, with the links that are left, what stands behind it. `lookup_child` draws
the consequence for a folder's path: followed by the name of something inside of the folder, it
leads exactly there, whatever links lead to the folder.
-/

namespace Winnow.FileTree

variable {tree : FileTree} {links : Nat} {here folder : Location} {part name : String}
  {path : HostPath} {node : Node}

/-- Other than the base directory, the tree has a node for every location that has something. -/
theorem mem_iff_exists_node? {location : Location} (belowBase : location ≠ []) :
    location ∈ tree.nodes ↔ ∃ node, tree.node? location = some node := by
  rw [node?, if_neg belowBase, Std.ExtTreeMap.mem_iff_isSome_getElem?, Option.isSome_iff_exists]

/-- A location has a folder when the node that is there is one. -/
theorem isFolder_of_node? {location : Location} (found : tree.node? location = some node) :
    tree.isFolder location = node.isFolder := by
  rw [FileTree.isFolder, found, Option.any_some]

/-- Something is found at a path when the path leads to a location that has it. -/
theorem lookup_eq_ok_iff {followLast : Bool} {location : Location} :
    tree.lookup followLast path = .ok (location, node) ↔
      tree.resolve followLast path = .ok location ∧ tree.node? location = some node := by
  unfold lookup
  constructor
  · intro found
    split at found
    · cases found
    · rename_i place resolved
      split at found
      · cases found
      · rename_i other lookedUp
        cases found
        exact ⟨resolved, lookedUp⟩
  · rintro ⟨resolved, lookedUp⟩
    simp only [resolved, lookedUp]

/-- The path of the base directory leads to it. -/
theorem lookup_base (tree : FileTree) (followLast : Bool) :
    tree.lookup followLast ⟨[]⟩ = .ok ([], baseNode) :=
  lookup_eq_ok_iff.2 ⟨resolveFrom.eq_1 .., rfl⟩

/-- What stands behind some parts is resolved from where they lead, with the links they leave. -/
theorem resolveFrom_append (tree : FileTree) (links : Nat) (here : Location)
    (parts : List String) :
    ∃ left, ∀ followLast, ∀ tail ≠ [],
      tree.resolveFrom followLast links here (parts ++ tail) =
        (tree.resolveFrom true links here parts).bind fun spot =>
          tree.resolveFrom followLast left spot tail := by
  fun_induction tree.resolveFrom true links here parts with
  | case1 links here => exact ⟨links, fun _ _ _ => rfl⟩
  | case2 links here part rest notFolder =>
      refine ⟨links, fun followLast tail _ => ?_⟩
      rw [List.cons_append, resolveFrom, if_pos notFolder]
      rfl
  | case3 links here part rest isFolder current inductionHypothesis =>
      obtain ⟨left, resolved⟩ := inductionHypothesis
      refine ⟨left, fun followLast tail nonempty => ?_⟩
      rw [List.cons_append, resolveFrom, if_neg isFolder, if_pos current]
      exact resolved followLast tail nonempty
  | case4 links here rest isFolder notCurrent inductionHypothesis =>
      obtain ⟨left, resolved⟩ := inductionHypothesis
      refine ⟨left, fun followLast tail nonempty => ?_⟩
      rw [List.cons_append, resolveFrom, if_neg isFolder, if_neg notCurrent, if_pos rfl]
      exact resolved followLast tail nonempty
  | case5 links here part rest isFolder notCurrent notParent missing =>
      refine ⟨links, fun followLast tail _ => ?_⟩
      rw [List.cons_append, resolveFrom, if_neg isFolder, if_neg notCurrent, if_neg notParent,
        missing]
      rfl
  | case6 links here part rest _ _ _ target modified _ unfollowed =>
      exact absurd unfollowed.2 Bool.false_ne_true
  | case7 here part rest isFolder notCurrent notParent target modified found _ =>
      refine ⟨0, fun followLast tail nonempty => ?_⟩
      have more : rest ++ tail ≠ [] := List.append_ne_nil_of_right_ne_nil rest nonempty
      rw [List.cons_append, resolveFrom, if_neg isFolder, if_neg notCurrent, if_neg notParent,
        found]
      simp only [more, false_and, if_false]
      rfl
  | case8 here part rest isFolder notCurrent notParent target modified found _ links start inner
      targetParted inductionHypothesis =>
      obtain ⟨left, resolved⟩ := inductionHypothesis
      refine ⟨left, fun followLast tail nonempty => ?_⟩
      have more : rest ++ tail ≠ [] := List.append_ne_nil_of_right_ne_nil rest nonempty
      rw [List.cons_append, resolveFrom, if_neg isFolder, if_neg notCurrent, if_neg notParent,
        found]
      simp only [more, false_and, if_false, targetParted]
      rw [← List.append_assoc]
      exact resolved followLast tail nonempty
  | case9 links here part rest isFolder notCurrent notParent node notLink found
      inductionHypothesis =>
      obtain ⟨left, resolved⟩ := inductionHypothesis
      refine ⟨left, fun followLast tail nonempty => ?_⟩
      rw [List.cons_append, resolveFrom, if_neg isFolder, if_neg notCurrent, if_neg notParent,
        found]
      simp only
      exact resolved followLast tail nonempty

/-- A name in the last place leads to what has it, be it a link. -/
theorem resolveFrom_singleton_of_isFileName (isFolder : tree.isFolder here = true)
    (isFileName : IsFileName name) (found : tree.node? (here ++ [name]) = some node) :
    tree.resolveFrom false links here [name] = .ok (here ++ [name]) := by
  obtain ⟨notEmpty, notCurrent, notParent, _⟩ := isFileName
  rw [resolveFrom, isFolder, if_neg (by decide), if_neg (by simp [notEmpty, notCurrent]),
    if_neg notParent, found]
  obtain ⟨kind, modified⟩ := node
  cases kind with
  | folder => exact resolveFrom.eq_1 ..
  | file size => exact resolveFrom.eq_1 ..
  | link target => rfl

/-- A slash in the last place leads nowhere. -/
theorem eq_of_resolveFrom_slash {followLast : Bool}
    (resolved : tree.resolveFrom followLast links here [""] = .ok folder) : here = folder := by
  rw [resolveFrom] at resolved
  split at resolved
  · cases resolved
  · rw [if_pos (.inl rfl), resolveFrom] at resolved
    exact Except.ok.inj resolved

/-- A last part that leads to a folder without being followed leads there when it is followed. -/
theorem resolveFrom_singleton_of_isFolder (isFolder : tree.isFolder folder = true)
    (resolved : tree.resolveFrom false links here [part] = .ok folder) :
    tree.resolveFrom true links here [part] = .ok folder := by
  rw [resolveFrom] at resolved ⊢
  simp only [resolveFrom.eq_1] at resolved ⊢
  split at resolved
  · cases resolved
  · rename_i hereFolder
    rw [if_neg hereFolder]
    split at resolved
    · rename_i current
      rwa [if_pos current]
    · rename_i notCurrent
      rw [if_neg notCurrent]
      split at resolved
      · rename_i parent
        rwa [if_pos parent]
      · rename_i notParent
        rw [if_neg notParent]
        cases found : tree.node? (here ++ [part]) with
        | none => rw [found] at resolved; cases resolved
        | some node =>
            rw [found] at resolved
            obtain ⟨kind, modified⟩ := node
            cases kind with
            | folder => exact resolved
            | file size => exact resolved
            | link target =>
                obtain rfl : here ++ [part] = folder := Except.ok.inj resolved
                rw [FileTree.isFolder, found] at isFolder
                cases isFolder

/-- A path that leads to a folder leads there when links are followed as well. -/
theorem resolve_of_isFolder (isFolder : tree.isFolder folder = true)
    (resolved : tree.resolve false path = .ok folder) : tree.resolve true path = .ok folder := by
  unfold resolve at resolved ⊢
  rcases List.eq_nil_or_concat' path.parts with empty | ⟨parts, last, ends⟩
  · rw [empty, resolveFrom] at resolved ⊢
    exact resolved
  · obtain ⟨left, inTurns⟩ := resolveFrom_append tree maxLinks [] parts
    rw [ends, inTurns _ _ (List.cons_ne_nil _ [])] at resolved ⊢
    cases stem : tree.resolveFrom true maxLinks [] parts with
    | error error => rw [stem] at resolved; cases resolved
    | ok spot =>
        rw [stem] at resolved
        exact resolveFrom_singleton_of_isFolder isFolder resolved

/-- The names that lead to a folder without detours lead to it from any folder on the way. -/
theorem resolveFrom_of_isFolder {followLast : Bool} {names : List String}
    (isFolder : tree.isFolder (here ++ names) = true) :
    tree.resolveFrom followLast links here names = .ok (here ++ names) := by
  induction names generalizing here with
  | nil => rw [resolveFrom, List.append_nil]
  | cons name names inductionHypothesis =>
      have hereFolder : tree.isFolder here = true :=
        isFolder_of_prefix isFolder (List.prefix_append ..)
      rw [List.append_cons] at isFolder ⊢
      have nextFolder : tree.isFolder (here ++ [name]) = true :=
        isFolder_of_prefix isFolder (List.prefix_append ..)
      obtain ⟨⟨kind, modified⟩, found, isFolderNode⟩ := (Option.any_eq_true ..).1 nextFolder
      have present : here ++ [name] ∈ tree.nodes := (mem_iff_exists_node? (by simp)).2 ⟨_, found⟩
      obtain ⟨notEmpty, notCurrent, notParent, _⟩ := tree.isFileName _ present name (by simp)
      rw [resolveFrom, hereFolder, if_neg (by decide), if_neg (by simp [notEmpty, notCurrent]),
        if_neg notParent, found]
      cases kind with
      | folder => exact inductionHypothesis isFolder
      | file size => cases isFolderNode
      | link target => cases isFolderNode

/-- The direct path of a folder leads to it. -/
theorem resolve_direct {followLast : Bool} (isFolder : tree.isFolder folder = true) :
    tree.resolve followLast ⟨folder⟩ = .ok folder :=
  resolveFrom_of_isFolder isFolder

/-- What stands before a child's name in its path leads to the folder, links followed. -/
theorem exists_parts_of_child (resolved : tree.resolve true path = .ok folder) :
    ∃ parts, tree.resolveFrom true maxLinks [] parts = .ok folder ∧
      ∀ name, path.child name = ⟨parts ++ [name]⟩ := by
  unfold resolve at resolved
  unfold HostPath.child
  rcases List.eq_nil_or_concat' path.parts with empty | ⟨parts, last, ends⟩
  · rw [empty] at resolved ⊢
    exact ⟨[], resolved, fun _ => rfl⟩
  · rw [ends] at resolved ⊢
    rw [List.getLast?_concat, List.dropLast_concat]
    by_cases slashed : last = ""
    · subst slashed
      obtain ⟨left, inTurns⟩ := resolveFrom_append tree maxLinks [] parts
      rw [inTurns _ _ (List.cons_ne_nil _ [])] at resolved
      cases stem : tree.resolveFrom true maxLinks [] parts with
      | error error => rw [stem] at resolved; cases resolved
      | ok spot =>
          rw [stem] at resolved
          rw [eq_of_resolveFrom_slash resolved] at stem
          exact ⟨parts, stem, fun name => if_pos rfl⟩
    · exact ⟨parts ++ [last], resolved, fun name => if_neg (by simpa using slashed)⟩

/-- A folder's path and the name of something inside of the folder lead to it. -/
theorem lookup_child (isFolder : tree.isFolder folder = true)
    (resolved : tree.resolve true path = .ok folder)
    (found : tree.node? (folder ++ [name]) = some node) :
    tree.lookup false (path.child name) = .ok (folder ++ [name], node) := by
  obtain ⟨parts, stem, childPath⟩ := exists_parts_of_child resolved
  obtain ⟨left, inTurns⟩ := resolveFrom_append tree maxLinks [] parts
  have present : folder ++ [name] ∈ tree.nodes := (mem_iff_exists_node? (by simp)).2 ⟨node, found⟩
  have isFileName : IsFileName name := tree.isFileName _ present name (by simp)
  have arrives : tree.resolve false (path.child name) = .ok (folder ++ [name]) := by
    rw [resolve, childPath, inTurns _ _ (List.cons_ne_nil _ []), stem]
    exact resolveFrom_singleton_of_isFileName isFolder isFileName found
  exact lookup_eq_ok_iff.2 ⟨arrives, found⟩

end Winnow.FileTree
