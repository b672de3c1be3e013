import Winnow.FileTree.Basic
import Mathlib.Data.List.Induction
import Mathlib.Data.List.Sort

/-!
# Listings of a file tree

The locations of a tree's nodes are sorted name by name. `within_eq_cons` says what that order has
to do with folders: everything at a place and below it is the place itself, followed by everything
inside of it, one name after the other. It holds because a node lies in folders of the tree all the
way up, so nothing below a place is missed by going through the names inside of it.
-/

namespace Winnow

namespace Location

/-- One location comes before another one. -/
def Precedes (earlier later : Location) : Prop := compare earlier later = .lt

instance : Std.Irrefl Precedes where
  irrefl location before := by
    rw [Precedes, Std.ReflOrd.compare_self] at before
    cases before

instance : Std.Asymm Precedes where
  asymm earlier later before after := by
    rw [Precedes, Std.OrientedOrd.eq_swap, before] at after
    cases after

/-- Locations that part from each other do so at a name. -/
theorem precedes_cons {name other : String} (left right : Location)
    (before : compare name other = .lt) : Precedes (name :: left) (other :: right) := by
  rw [Precedes, List.compare_eq_compareLex, List.compareLex_cons_cons, before]
  rfl

/-- Locations of one name each are in the order of these names. -/
theorem precedes_singleton {name other : String} :
    Precedes [name] [other] ↔ compare name other = .lt := by
  simp [Precedes]

/-- A first part that two locations share does not matter for their order. -/
theorem precedes_append {shared left right : Location} :
    Precedes (shared ++ left) (shared ++ right) ↔ Precedes left right := by
  induction shared with
  | nil => rfl
  | cons name shared inductionHypothesis =>
      rw [← inductionHypothesis]
      simp only [Precedes, List.compare_eq_compareLex, List.cons_append,
        List.compareLex_cons_cons, Std.ReflCmp.compare_self, Ordering.eq_then]

/-- A location comes before everything below it. -/
theorem precedes_append_self (location : Location) {rest : Location} (below : rest ≠ []) :
    Precedes location (location ++ rest) := by
  obtain ⟨name, rest, rfl⟩ := List.exists_cons_of_ne_nil below
  have shared : Precedes (location ++ []) (location ++ name :: rest) := precedes_append.2 rfl
  rwa [List.append_nil] at shared

end Location

namespace FileTree

variable {tree : FileTree} {place folder location : Location} {recursive : Bool} {name : String}

/-- The places above a node are nodes, down from the base directory. -/
theorem mem_of_prefix (present : location ∈ tree.nodes) (above : place <+: location)
    (belowBase : place ≠ []) : place ∈ tree.nodes := by
  induction location using List.reverseRecOn with
  | nil => exact absurd (List.prefix_nil.1 above) belowBase
  | append_singleton folder name inductionHypothesis =>
      rcases List.prefix_concat_iff.1 above with rfl | higher
      · exact present
      · rcases tree.parent folder name present with rfl | ⟨node, lookup, _⟩
        · exact absurd (List.prefix_nil.1 higher) belowBase
        · refine inductionHypothesis ?_ higher
          exact Std.ExtTreeMap.mem_iff_isSome_getElem?.2 (by rw [lookup]; rfl)

/-- The places above a folder are folders, down from the base directory. -/
theorem isFolder_of_prefix (isFolder : tree.isFolder location = true) (above : place <+: location) :
    tree.isFolder place = true := by
  induction location using List.reverseRecOn with
  | nil => rwa [List.prefix_nil.1 above]
  | append_singleton folder name inductionHypothesis =>
      rcases List.prefix_concat_iff.1 above with rfl | higher
      · exact isFolder
      · rcases isFolder_iff.1 isFolder with atBase | ⟨node, lookup, _⟩
        · exact absurd atBase (by simp)
        · have present : folder ++ [name] ∈ tree.nodes :=
            Std.ExtTreeMap.mem_iff_isSome_getElem?.2 (by rw [lookup]; rfl)
          exact inductionHypothesis (isFolder_iff.2 (tree.parent folder name present)) higher

/-- A node lies in folders, all the way down from the base directory. -/
theorem isFolder_of_append_mem {rest : Location} (present : place ++ rest ∈ tree.nodes)
    (below : rest ≠ []) : tree.isFolder place = true := by
  obtain ⟨names, name, rfl⟩ := (List.eq_nil_or_concat' rest).resolve_left below
  rw [← List.append_assoc] at present
  have inFolder := isFolder_iff.2 (tree.parent _ name present)
  exact isFolder_of_prefix inFolder (List.prefix_append ..)

/-- Only a folder has names inside. -/
theorem names_eq_nil (notFolder : tree.isFolder place = false) : tree.names place = [] := by
  refine List.eq_nil_iff_forall_not_mem.2 fun name inside => ?_
  have folderNode := isFolder_iff.2 (tree.parent place name (mem_names.1 inside))
  rw [notFolder] at folderNode
  exact Bool.false_ne_true folderNode

/-- The locations of a tree are sorted. -/
theorem pairwise_keys (tree : FileTree) : tree.nodes.keys.Pairwise Location.Precedes :=
  Std.ExtTreeMap.ordered_keys

/-- The names inside of a folder are sorted. -/
theorem pairwise_names (tree : FileTree) (folder : Location) :
    (tree.names folder).Pairwise fun earlier later => compare earlier later = .lt := by
  refine List.pairwise_filterMap.2 (tree.pairwise_keys.imp ?_)
  intro first second sorted earlier earlierName later laterName
  rw [childName?_eq_some_iff.1 earlierName, childName?_eq_some_iff.1 laterName,
    Location.precedes_append] at sorted
  exact Location.precedes_singleton.1 sorted

/-- No name stands twice in one folder. -/
theorem nodup_names (tree : FileTree) (folder : Location) : (tree.names folder).Nodup := by
  refine (tree.pairwise_names folder).imp fun before same => ?_
  rw [same, Std.ReflOrd.compare_self] at before
  cases before

/-- The nodes at a place and below it, in order. -/
def within (tree : FileTree) (place : Location) : List Location :=
  tree.nodes.keys.filter fun location => place.isPrefixOf location

/-- What a listing shows for a place: all that is within it, or the place alone. -/
def span (tree : FileTree) (recursive : Bool) (place : Location) : List Location :=
  if recursive then tree.within place else [place]

/-- What a listing shows inside of a folder, one name after the other. -/
def inside (tree : FileTree) (recursive : Bool) (folder : Location) : List Location :=
  (tree.names folder).flatMap fun name => tree.span recursive (folder ++ [name])

/-- A node is within a place when its location starts with the place. -/
theorem mem_within : location ∈ tree.within place ↔ location ∈ tree.nodes ∧ place <+: location := by
  rw [within, List.mem_filter, Std.ExtTreeMap.mem_keys, List.isPrefixOf_iff_prefix]

/-- Everything that a listing shows for a place starts with it. -/
theorem prefix_of_mem_span (shown : location ∈ tree.span recursive place) :
    place <+: location := by
  unfold span at shown
  split at shown
  · exact (mem_within.1 shown).2
  · exact List.mem_singleton.1 shown ▸ List.prefix_rfl

/-- There is nothing inside of what is no folder. -/
theorem inside_eq_nil (notFolder : tree.isFolder place = false) :
    tree.inside recursive place = [] := by
  rw [inside, names_eq_nil notFolder, List.flatMap_nil]

/-- A listing shows the nodes below a folder, the deeper ones only if it is recursive. -/
theorem mem_inside : location ∈ tree.inside recursive folder ↔
    location ∈ tree.nodes ∧ ∃ rest, location = folder ++ rest ∧ rest ≠ [] ∧
      (recursive = true ∨ rest.length ≤ 1) := by
  simp only [inside, List.mem_flatMap, mem_names]
  constructor
  · rintro ⟨name, named, shown⟩
    cases recursive with
    | true =>
        obtain ⟨present, rest, rfl⟩ := mem_within.1 shown
        exact ⟨present, name :: rest, List.append_assoc .., nofun, .inl rfl⟩
    | false =>
        obtain rfl := List.mem_singleton.1 shown
        exact ⟨named, [name], rfl, nofun, .inr (Nat.le_refl 1)⟩
  · rintro ⟨present, rest, rfl, nonempty, shallow⟩
    obtain ⟨name, rest, rfl⟩ := List.exists_cons_of_ne_nil nonempty
    have above : folder ++ [name] <+: folder ++ name :: rest :=
      ⟨rest, List.append_assoc folder [name] rest⟩
    refine ⟨name, mem_of_prefix present above (by simp), ?_⟩
    cases recursive with
    | true => exact mem_within.2 ⟨present, above⟩
    | false =>
        obtain rfl : rest = [] := by simpa using shallow
        exact List.mem_singleton_self _

/-- A listing shows what is inside of a folder in order. -/
theorem pairwise_inside (tree : FileTree) (recursive : Bool) (folder : Location) :
    (tree.inside recursive folder).Pairwise Location.Precedes := by
  refine List.pairwise_flatMap.2 ⟨fun name _ => ?_, ?_⟩
  · cases recursive with
    | true => exact tree.pairwise_keys.filter _
    | false => exact List.pairwise_singleton ..
  · refine (tree.pairwise_names folder).imp fun sorted earlier earlierShown later laterShown => ?_
    obtain ⟨first, rfl⟩ := prefix_of_mem_span earlierShown
    obtain ⟨second, rfl⟩ := prefix_of_mem_span laterShown
    rw [List.append_assoc, List.append_assoc, Location.precedes_append]
    exact Location.precedes_cons first second sorted

/-- What is within a node is the node, followed by what is inside of it. -/
theorem within_eq_cons (present : location ∈ tree.nodes) :
    tree.within location = location :: tree.inside true location := by
  have withinSorted : (tree.within location).Pairwise Location.Precedes :=
    tree.pairwise_keys.filter _
  have insideSorted : (location :: tree.inside true location).Pairwise Location.Precedes := by
    refine List.pairwise_cons.2 ⟨fun other shown => ?_, tree.pairwise_inside true location⟩
    obtain ⟨_, rest, rfl, below, _⟩ := mem_inside.1 shown
    exact location.precedes_append_self below
  -- Two sorted lists with the same members are equal.
  refine withinSorted.eq_of_mem_iff insideSorted fun other => ?_
  rw [mem_within, List.mem_cons, mem_inside]
  constructor
  · rintro ⟨otherPresent, rest, rfl⟩
    by_cases below : rest = []
    · exact .inl (by rw [below, List.append_nil])
    · exact .inr ⟨otherPresent, rest, rfl, below, .inl rfl⟩
  · rintro (rfl | ⟨otherPresent, rest, rfl, _⟩)
    · exact ⟨present, List.prefix_rfl⟩
    · exact ⟨otherPresent, List.prefix_append ..⟩

/-- What a listing shows for a node is the node, followed by what is inside of it if the listing
is recursive. -/
theorem span_eq_cons (present : location ∈ tree.nodes) (recursive : Bool) :
    tree.span recursive location =
      location :: if recursive then tree.inside true location else [] := by
  cases recursive with
  | true => exact within_eq_cons present
  | false => rfl

end FileTree

end Winnow
