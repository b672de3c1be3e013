import Winnow.FileTree.Build
import Winnow.Proofs.Walk.Pending
import Winnow.RelPath.Lemmas

/-!
# Complete listings

`IsListing` says what the entries of a walk that follows no links have to be: everything below the
root that is to be listed, each thing once, in the order of paths, and so every folder before what
it contains. The locations that a walk takes are in order, whatever the names are; where no name
holds a backslash, a location and the path of its entry are the same names, and the order and the
extent of the locations are those of the paths.
-/

namespace Winnow

variable {tree : FileTree} {settings : WalkSettings} {source : WalkRoot} {path : HostPath}
  {root below location : Location} {node : Node}

/-- No name of a node below a place holds a backslash. -/
def FileTree.IsPlainBelow (tree : FileTree) (place : Location) : Prop :=
  ∀ below, place ++ below ∈ tree.nodes → ∀ name ∈ below, '\\' ∉ name.toList

/-- Whether a tree is free of backslashes is seen from the places in it. -/
theorem FileTree.isPlainBelow_of_keys {locations : List Location}
    (keys : tree.nodes.keys = locations)
    (plain : ∀ location ∈ locations, ∀ name ∈ location, '\\' ∉ name.toList) :
    tree.IsPlainBelow [] := by
  intro below present
  rw [List.nil_append, ← Std.ExtTreeMap.mem_keys, keys] at present
  exact plain below present

/-- A host's name without a backslash may stand in a path. -/
theorem IsFileName.isSegment {name : String} (isFileName : IsFileName name)
    (noBackslash : '\\' ∉ name.toList) : IsSegment name := by
  obtain ⟨notEmpty, notCurrent, _, noSlash, _⟩ := isFileName
  refine ⟨notEmpty, notCurrent, fun c present => ?_⟩
  rw [isSeparator, Bool.or_eq_false_iff, beq_eq_false_iff_ne, beq_eq_false_iff_ne]
  exact ⟨fun slash => noSlash (slash ▸ present), fun backslash => noBackslash (backslash ▸ present)⟩

/-- The names below such a place may all stand in paths. -/
theorem FileTree.IsPlainBelow.isSegment (plain : tree.IsPlainBelow root)
    (present : root ++ below ∈ tree.nodes) : ∀ name ∈ below, IsSegment name := by
  intro name named
  have isFileName := tree.isFileName _ present name (List.mem_append_right root named)
  exact isFileName.isSegment (plain below present name named)

namespace RelPath

/-- Names that may stand in a path make up the path that is read from them. -/
theorem segments_ofSegments_of_isSegment {names : List String}
    (segments : ∀ name ∈ names, IsSegment name) : (ofSegments names).segments = names := by
  rw [segments_ofSegments, flatMap_segmentsOf segments]

/-- A path lies below no path that comes after it. -/
theorem isDescendantOf_eq_false_of_lt {earlier later : RelPath}
    (before : compare earlier later = .lt) : earlier.isDescendantOf later = false := by
  refine Bool.eq_false_iff.2 fun descends => ?_
  obtain ⟨⟨rest, extended⟩, different⟩ := isDescendantOf_iff.1 descends
  have below : rest ≠ [] := by
    rintro rfl
    exact different (RelPath.ext (by rw [← extended, List.append_nil]))
  have after := Location.precedes_append_self later.segments below
  rw [extended] at after
  exact Std.Asymm.asymm _ _ after before

end RelPath

namespace Walker

/-- A walk lists its root if asked for, and the nodes below, the deeper ones if it is recursive. -/
theorem mem_listing : location ∈ listing tree settings root ↔
    ∃ below, location = root ++ below ∧
      if below = [] then settings.includeRoot = true
      else root ++ below ∈ tree.nodes ∧ (settings.recursive = true ∨ below.length ≤ 1) := by
  rw [listing, List.mem_append, FileTree.mem_inside]
  constructor
  · rintro (atRoot | ⟨present, below, rfl, belowRoot, shallow⟩)
    · cases included : settings.includeRoot with
      | false => rw [included] at atRoot; cases atRoot
      | true =>
          rw [included, if_pos rfl, List.mem_singleton] at atRoot
          exact ⟨[], by rw [atRoot, List.append_nil], rfl⟩
    · exact ⟨below, rfl, by rw [if_neg belowRoot]; exact ⟨present, shallow⟩⟩
  · rintro ⟨below, rfl, listed⟩
    by_cases belowRoot : below = []
    · subst belowRoot
      rw [if_pos rfl] at listed
      rw [if_pos listed, List.append_nil]
      exact .inl (List.mem_singleton_self root)
    · rw [if_neg belowRoot] at listed
      exact .inr ⟨listed.1, below, rfl, belowRoot, listed.2⟩

/-- Whether a walk lists what some names lead to from its root. -/
theorem append_mem_listing : root ++ below ∈ listing tree settings root ↔
    if below = [] then settings.includeRoot = true
    else root ++ below ∈ tree.nodes ∧ (settings.recursive = true ∨ below.length ≤ 1) := by
  rw [mem_listing]
  constructor
  · rintro ⟨other, same, listed⟩
    obtain rfl := List.append_cancel_left same
    exact listed
  · exact fun listed => ⟨below, rfl, listed⟩

/-- A walk lists in order. -/
theorem pairwise_listing (tree : FileTree) (settings : WalkSettings) (root : Location) :
    (listing tree settings root).Pairwise Location.Precedes := by
  unfold listing
  cases settings.includeRoot with
  | false => exact tree.pairwise_inside settings.recursive root
  | true =>
      refine List.pairwise_cons.2 ⟨fun other listed => ?_, tree.pairwise_inside _ root⟩
      obtain ⟨_, below, rfl, belowRoot, _⟩ := FileTree.mem_inside.1 listed
      exact root.precedes_append_self belowRoot

/-- What a folder contains comes before a name that continues the folder's with a dot. -/
example :
    (FileTree.ofNodes? "/base" [("a/b", ⟨.file 1, ⟨0⟩⟩), ("a.l", ⟨.link "a", ⟨0⟩⟩)]).map
      (listing · {} []) = some [[], ["a"], ["a", "b"], ["a.l"]] := by
  decide +kernel

/-- A walk lists no more than its steps allow. -/
theorem length_listing_le (tree : FileTree) (settings : WalkSettings) (root : Location) :
    (listing tree settings root).length ≤ stepLimit tree := by
  have distinct : (tree.inside settings.recursive root).Nodup :=
    (tree.pairwise_inside settings.recursive root).nodup
  have within : (tree.inside settings.recursive root).length ≤ tree.nodes.size := by
    rw [← Std.ExtTreeMap.length_keys]
    refine (List.subperm_of_subset distinct fun location listed => ?_).length_le
    exact Std.ExtTreeMap.mem_keys.2 (FileTree.mem_inside.1 listed).1
  have atRoot : (if settings.includeRoot then [root] else []).length ≤ 1 := by
    split
    · exact Nat.le_refl 1
    · exact Nat.zero_le 1
  rw [listing, List.length_append, stepLimit]
  omega

/-- Entries that list a root and everything below it that a walk is to list. -/
structure IsListing (tree : FileTree) (settings : WalkSettings) (root : Location)
    (entries : List WalkEntry) : Prop where
  increasing : entries.Pairwise fun earlier later =>
    compare earlier.item.path later.item.path = .lt
  foldersFirst : entries.Pairwise fun earlier later =>
    earlier.item.path.isDescendantOf later.item.path = false
  complete : ∀ place, (∃ entry ∈ entries, entry.item.path = place) ↔
    if place.isRoot then settings.includeRoot = true
    else root ++ place.segments ∈ tree.nodes ∧ (settings.recursive = true ∨ place.depth ≤ 1)
  faithful : ∀ entry ∈ entries, ∃ node,
    tree.node? (root ++ entry.item.path.segments) = some node ∧
      entry.item = itemOf entry.item.path node node.isFolder ∧
      entry.isRoot = entry.item.path.isRoot

/-- The path of an entry consists of the names that lead from the root to its location. -/
theorem segments_entryAt (plain : tree.IsPlainBelow root) (path : HostPath)
    (listed : root ++ below ∈ listing tree settings root) :
    (entryAt tree path root (root ++ below)).item.path.segments = below := by
  rw [entryAt, List.drop_left]
  refine RelPath.segments_ofSegments_of_isSegment ?_
  by_cases belowRoot : below = []
  · subst belowRoot
    exact List.forall_mem_nil _
  · rw [append_mem_listing, if_neg belowRoot] at listed
    exact plain.isSegment listed.1

/-- The paths of the entries for the listed locations increase. -/
theorem pairwise_entries (plain : tree.IsPlainBelow root) (path : HostPath) :
    ((listing tree settings root).map (entryAt tree path root)).Pairwise
      fun earlier later => compare earlier.item.path later.item.path = .lt := by
  refine List.pairwise_map.2 ((pairwise_listing tree settings root).imp_of_mem ?_)
  intro earlier later earlierListed laterListed before
  obtain ⟨first, rfl, _⟩ := mem_listing.1 earlierListed
  obtain ⟨second, rfl, _⟩ := mem_listing.1 laterListed
  rw [RelPath.compare_eq, segments_entryAt plain path earlierListed,
    segments_entryAt plain path laterListed]
  exact Location.precedes_append.1 before

/-- There is an entry for a place when its names lead from the root to a listed location. -/
theorem exists_entry_iff (plain : tree.IsPlainBelow root) (path : HostPath) (place : RelPath) :
    (∃ entry ∈ (listing tree settings root).map (entryAt tree path root),
      entry.item.path = place) ↔ root ++ place.segments ∈ listing tree settings root := by
  constructor
  · rintro ⟨entry, member, rfl⟩
    obtain ⟨location, listed, rfl⟩ := List.mem_map.1 member
    obtain ⟨below, rfl, _⟩ := mem_listing.1 listed
    rwa [segments_entryAt plain path listed]
  · intro listed
    exact ⟨_, List.mem_map_of_mem listed, RelPath.ext (segments_entryAt plain path listed)⟩

/-- Something is at every listed location. -/
theorem exists_node?_of_listed (rootFound : tree.node? root = some node)
    (listed : root ++ below ∈ listing tree settings root) :
    ∃ found, tree.node? (root ++ below) = some found := by
  by_cases belowRoot : below = []
  · rw [belowRoot, List.append_nil]
    exact ⟨node, rootFound⟩
  · rw [append_mem_listing, if_neg belowRoot] at listed
    exact (FileTree.mem_iff_exists_node? (by simp [belowRoot])).1 listed.1

/-- Without backslashes in the names below the root, the entries for the listed locations are
all that they should be. -/
theorem isListing_entries (plain : tree.IsPlainBelow root) (path : HostPath)
    (rootFound : tree.node? root = some node) :
    IsListing tree settings root
      ((listing tree settings root).map (entryAt tree path root)) where
  increasing := pairwise_entries plain path
  foldersFirst := (pairwise_entries plain path).imp RelPath.isDescendantOf_eq_false_of_lt
  complete place := by
    rw [exists_entry_iff plain path place, append_mem_listing]
    simp only [RelPath.isRoot, RelPath.depth, List.isEmpty_iff]
  faithful entry member := by
    obtain ⟨location, listed, rfl⟩ := List.mem_map.1 member
    obtain ⟨below, rfl, _⟩ := mem_listing.1 listed
    obtain ⟨found, lookedUp⟩ := exists_node?_of_listed rootFound listed
    have named := segments_entryAt plain path listed
    refine ⟨found, by rw [named]; exact lookedUp, ?_, ?_⟩
    · simp only [entryAt, List.drop_left, lookedUp, Option.getD_some]
      rfl
    · rw [RelPath.isRoot, named, entryAt, List.drop_left]

/-- A walk that starts where something is, follows no links and meets no name with a backslash
yields everything that it is to list, each thing once and in order, and no error. -/
theorem isListing_start (lookedUp : tree.lookup false source.path = .ok (root, node))
    (unfollowed : settings.followLinks = false) (plain : tree.IsPlainBelow root) :
    ∃ walker entries, (start tree source settings).value = .ok walker ∧
      walker.steps.map Noted.value = entries.map .ok ∧
      (∀ limit, (walker.stepsWithin limit).map Noted.value = (entries.take limit).map .ok) ∧
      IsListing tree settings root entries := by
  obtain ⟨walker, started, sameTree, values⟩ := exists_values_start unfollowed lookedUp
  have rootFound := (FileTree.lookup_eq_ok_iff.1 lookedUp).2
  refine ⟨walker, (listing tree settings root).map (entryAt tree source.path root), started, ?_,
    fun limit => ?_, isListing_entries plain source.path rootFound⟩
  · rw [steps, sameTree, values, List.take_of_length_le (length_listing_le tree settings root),
      List.map_map]
    rfl
  · rw [values, ← List.map_take, List.map_map]
    rfl

/-- A walk through a folder and past a link with a name that continues the folder's. -/
theorem isListing_start_beside_dot :
    ∃ tree, FileTree.ofNodes? "/base" [("a/b", ⟨.file 1, ⟨0⟩⟩), ("a.l", ⟨.link "a", ⟨0⟩⟩)] =
        some tree ∧
      ∃ walker entries, (start tree (.absolute ⟨[]⟩) {}).value = .ok walker ∧
        walker.steps.map Noted.value = entries.map .ok ∧
        (∀ limit, (walker.stepsWithin limit).map Noted.value = (entries.take limit).map .ok) ∧
        IsListing tree {} [] entries := by
  let nodes : List (String × Node) :=
    [("a/b", ⟨.file 1, ⟨0⟩⟩), ("a.l", ⟨.link "a", ⟨0⟩⟩)]
  have keys : (FileTree.ofNodes? "/base" nodes).map (·.nodes.keys) =
      some [["a"], ["a", "b"], ["a.l"]] := by
    decide +kernel
  obtain ⟨tree, built, keys⟩ := Option.map_eq_some_iff.1 keys
  refine ⟨tree, built, isListing_start (tree.lookup_base false) rfl ?_⟩
  intro below present
  rw [List.nil_append, ← Std.ExtTreeMap.mem_keys, keys] at present
  revert below
  decide

end Walker

end Winnow
