import Winnow.FileTree.Build
import Winnow.Proofs.Walk.Listing

/-!
# Walks that stay below their root

A path that goes up from its root names the parent folder somewhere. No file has that name, but a
backslash inside of a file's name separates once the name is read into a path, and what stands
beside it may be the parent folder's name. `staysBelow_iff` says that this is the only way out: the
walks over a tree stay below their roots, however they go about, exactly if no name in the tree has
the parent folder's between its backslashes.
-/

namespace Winnow

variable {tree : FileTree} {settings : WalkSettings} {source : WalkRoot} {path : HostPath}
  {place : RelPath} {stack frames : List Frame} {walker : Walker} {folder location : Location}
  {name : String}

/-- A path that never goes up to a parent folder. -/
def RelPath.StaysBelow (path : RelPath) : Prop := ".." ∉ path.segments

/-- The root stays below itself. -/
theorem RelPath.staysBelow_root : root.StaysBelow := List.not_mem_nil

/-- Reading on from a path goes up only if the text does. -/
theorem RelPath.staysBelow_join {text : String} :
    (place.join text).StaysBelow ↔ place.StaysBelow ∧ ".." ∉ segmentsOf text := by
  rw [StaysBelow, segments_join, List.mem_append, not_or, StaysBelow]

/-- A tree with no name that goes up when it is read into a path. -/
def FileTree.StaysBelow (tree : FileTree) : Prop :=
  ∀ location ∈ tree.nodes, ∀ name ∈ location, ".." ∉ segmentsOf name

/-- In such a tree no folder contains a name that goes up. -/
theorem FileTree.StaysBelow.not_mem_of_mem_names (staysBelow : tree.StaysBelow)
    (named : name ∈ tree.names folder) : ".." ∉ segmentsOf name :=
  staysBelow _ (mem_names.1 named) name (List.mem_append_right folder (.head []))

namespace Walker

/-- A walk that yields no path that goes up. -/
def StaysBelow (walker : Walker) : Prop :=
  ∀ limit entry, .ok entry ∈ (walker.stepsWithin limit).map Noted.value →
    entry.item.path.StaysBelow

/-- A stack whose frames are below the root, and all that they name as well. -/
def Confines (stack : List Frame) : Prop :=
  ∀ frame ∈ stack, frame.place.StaysBelow ∧ ∀ name ∈ frame.names, ".." ∉ segmentsOf name

/-- The next name of such a stack leads to a place below the root. -/
theorem confines_of_nextName? (confines : Confines stack)
    (first : nextName? stack = some (path, place, frames)) :
    place.StaysBelow ∧ Confines frames := by
  fun_induction nextName? stack with
  | case1 => cases first
  | case2 _ _ deeper inductionHypothesis =>
      exact inductionHypothesis (List.forall_mem_cons.1 confines).2 first
  | case3 framePath framePlace name names deeper =>
      obtain ⟨⟨placeBelow, named⟩, others⟩ := List.forall_mem_cons.1 confines
      obtain ⟨nameBelow, namesBelow⟩ := List.forall_mem_cons.1 named
      cases first
      refine ⟨RelPath.staysBelow_join.2 ⟨placeBelow, nameBelow⟩, ?_⟩
      exact List.forall_mem_cons.2 ⟨⟨placeBelow, namesBelow⟩, others⟩

/-- A walk over a tree with nothing at hand that goes up. -/
structure Confined (tree : FileTree) (walker : Walker) : Prop where
  sameTree : walker.tree = tree
  rootEntry : ∀ entry, walker.rootEntry = some entry → entry.item.path.StaysBelow
  stack : Confines walker.stack

/-- Entering a folder below the root gets hold of nothing that goes up. -/
theorem Confined.enter (confined : Confined tree walker) (staysBelow : tree.StaysBelow)
    (placeBelow : place.StaysBelow) (path : HostPath) (location : Location) :
    Confined tree (walker.enter path location place).value := by
  obtain ⟨rfl, rootEntry, confines⟩ := confined
  rw [Walker.enter]
  split
  · exact ⟨rfl, rootEntry, confines⟩
  · refine ⟨rfl, rootEntry, List.forall_mem_cons.2 ⟨⟨placeBelow, ?_⟩, confines⟩⟩
    exact fun name => staysBelow.not_mem_of_mem_names

/-- Visiting a place below the root yields no other path and gets hold of nothing that goes up. -/
theorem Confined.visit (confined : Confined tree walker) (staysBelow : tree.StaysBelow)
    (placeBelow : place.StaysBelow) (path : HostPath) :
    let visited := (walker.visit path place).value
    Confined tree visited.2 ∧ ∀ entry, visited.1 = .ok entry → entry.item.path = place := by
  rw [Walker.visit]
  dsimp only [Noted.value_bind]
  split
  · refine ⟨⟨confined.sameTree, confined.rootEntry, confined.stack⟩, ?_⟩
    rintro _ ⟨⟩
  · split
    · refine ⟨confined.enter staysBelow placeBelow _ _, ?_⟩
      rintro entry ⟨rfl⟩
      rfl
    · refine ⟨confined, ?_⟩
      rintro entry ⟨rfl⟩
      rfl

/-- A step yields no path that goes up and gets hold of nothing that does. -/
theorem Confined.next (confined : Confined tree walker) (staysBelow : tree.StaysBelow) :
    let taken := walker.next.value
    Confined tree taken.2 ∧
      ∀ entry, taken.1 = some (.ok entry) → entry.item.path.StaysBelow := by
  rw [Walker.next]
  split
  · refine ⟨confined, ?_⟩
    rintro _ ⟨⟩
  · split
    · rename_i entry rootEntry
      refine ⟨⟨confined.sameTree, ?_, confined.stack⟩, ?_⟩
      · rintro _ ⟨⟩
      · rintro _ ⟨rfl⟩
        exact confined.rootEntry entry rootEntry
    · split
      · refine ⟨⟨confined.sameTree, confined.rootEntry, List.forall_mem_nil _⟩, ?_⟩
        rintro _ ⟨⟩
      · rename_i path place frames first
        obtain ⟨placeBelow, confines⟩ := confines_of_nextName? confined.stack first
        have popped : Confined tree { walker with stack := frames } :=
          ⟨confined.sameTree, confined.rootEntry, confines⟩
        obtain ⟨after, listed⟩ := popped.visit staysBelow placeBelow path
        refine ⟨after, fun entry yielded => ?_⟩
        rw [listed entry (Option.some.inj yielded)]
        exact placeBelow

/-- A walk with nothing at hand that goes up never does. -/
theorem Confined.staysBelow (confined : Confined tree walker) (staysBelow : tree.StaysBelow) :
    walker.StaysBelow := by
  intro limit
  induction limit generalizing walker with
  | zero => exact nofun
  | succ limit inductionHypothesis =>
      intro entry yielded
      obtain ⟨after, listed⟩ := confined.next staysBelow
      cases taken : walker.next.value with
      | mk result next =>
          rw [taken] at after listed
          cases result with
          | none =>
              rw [stepsWithin_of_ended (congrArg Prod.fst taken)] at yielded
              cases yielded
          | some result =>
              rw [values_stepsWithin_succ taken] at yielded
              rcases List.mem_cons.1 yielded with first | later
              · exact listed entry (congrArg some first.symm)
              · exact inductionHypothesis after entry later

/-- A walk starts with nothing at hand that goes up. -/
theorem confined_start (staysBelow : tree.StaysBelow)
    (started : (start tree source settings).value = .ok walker) : Confined tree walker := by
  rw [start] at started
  dsimp only [Noted.value_bind] at started
  split at started
  · cases started
  · split at started
    · cases started
    · rename_i node folder _
      have ready : Confined tree
          { tree, settings
            rootEntry := if settings.includeRoot then
              some ⟨source.path, itemOf .root node folder.isSome, true⟩ else none } := by
        refine ⟨rfl, fun entry isRootEntry => ?_, List.forall_mem_nil _⟩
        split at isRootEntry
        · cases isRootEntry
          exact RelPath.staysBelow_root
        · cases isRootEntry
      split at started
      · cases started
        exact ready.enter staysBelow RelPath.staysBelow_root _ _
      · cases started
        exact ready

/-- A walk from the base directory comes upon every node of the tree. -/
theorem exists_entry_of_mem (present : location ∈ tree.nodes) :
    ∃ walker, (start tree (.absolute ⟨[]⟩) {}).value = .ok walker ∧
      ∃ limit entry, .ok entry ∈ (walker.stepsWithin limit).map Noted.value ∧
        entry.item.path = .ofSegments location := by
  obtain ⟨walker, started, _, values⟩ :=
    @exists_values_start tree {} [] _ (.absolute ⟨[]⟩) rfl (tree.lookup_base false)
  have belowBase : location ≠ [] := fun atBase => tree.root_not_mem (atBase ▸ present)
  have listed : location ∈ listing tree {} [] :=
    mem_listing.2 ⟨location, rfl, by rw [if_neg belowBase]; exact ⟨present, .inl rfl⟩⟩
  refine ⟨walker, started, (listing tree {} []).length, entryAt tree ⟨[]⟩ [] location, ?_, rfl⟩
  rw [values, List.take_length]
  exact List.mem_map_of_mem listed

/-- A name goes up when it has the parent folder's name between its backslashes. -/
theorem parent_mem_segmentsOf_iff (isFileName : IsFileName name) :
    ".." ∈ segmentsOf name ↔ ".." ∈ Text.pieces (· == '\\') name := by
  have noSlash : ∀ c ∈ name.toList, isSeparator c = (c == '\\') := by
    intro c present
    have notSlash : (c == '/') = false :=
      beq_eq_false_iff_ne.2 fun slash => isFileName.2.2.2.1 (slash ▸ present)
    rw [isSeparator, notSlash, Bool.false_or]
  rw [segmentsOf, List.mem_filter, Text.pieces_congr noSlash]
  exact and_iff_left rfl

/-- The walks over a tree stay below their roots, however they go about, exactly if no name in the
tree has the parent folder's between its backslashes. -/
theorem staysBelow_iff (tree : FileTree) :
    (∀ source settings walker, (start tree source settings).value = .ok walker →
      walker.StaysBelow) ↔
    ∀ location ∈ tree.nodes, ∀ name ∈ location, ".." ∉ Text.pieces (· == '\\') name := by
  constructor
  · intro walks location present name named goesUp
    rw [← parent_mem_segmentsOf_iff (tree.isFileName location present name named)] at goesUp
    obtain ⟨walker, started, yielded⟩ := exists_entry_of_mem present
    have inPath : ".." ∈ (RelPath.ofSegments location).segments := by
      rw [RelPath.segments_ofSegments]
      exact List.mem_flatMap.2 ⟨name, named, goesUp⟩
    obtain ⟨limit, entry, yielded, path⟩ := yielded
    refine walks _ _ walker started limit entry yielded ?_
    rwa [path]
  · intro names source settings walker started
    have staysBelow : tree.StaysBelow := by
      intro location present name named
      rw [parent_mem_segmentsOf_iff (tree.isFileName location present name named)]
      exact names location present name named
    exact (confined_start staysBelow started).staysBelow staysBelow

/-- A file with the parent folder's name, a backslash and a letter for its name is listed beside the
root and not below it. -/
theorem not_staysBelow_parent_name :
    ∃ tree walker, FileTree.ofNodes? "/base" [("..\\x", ⟨.file 1, ⟨0⟩⟩)] = some tree ∧
      (start tree (.absolute ⟨[]⟩) {}).value = .ok walker ∧
      ∃ limit entry, .ok entry ∈ (walker.stepsWithin limit).map Noted.value ∧
        entry.item.path.segments = ["..", "x"] := by
  have keys : (FileTree.ofNodes? "/base" [("..\\x", ⟨.file 1, ⟨0⟩⟩)]).map (·.nodes.keys) =
      some [["..\\x"]] := by
    decide +kernel
  obtain ⟨tree, built, keys⟩ := Option.map_eq_some_iff.1 keys
  have present : ["..\\x"] ∈ tree.nodes := by
    rw [← Std.ExtTreeMap.mem_keys, keys]
    exact List.mem_singleton_self _
  obtain ⟨walker, started, limit, entry, yielded, path⟩ := exists_entry_of_mem present
  refine ⟨tree, walker, built, started, limit, entry, yielded, ?_⟩
  rw [path]
  decide

end Walker

end Winnow
