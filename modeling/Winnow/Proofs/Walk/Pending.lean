import Winnow.Proofs.FileTree.Listing
import Winnow.Proofs.FileTree.Resolution
import Winnow.RelPath.Order
import Winnow.Walk.Walker

/-!
# Stacks of half-listed folders

A walk that follows no links lists what is inside of its root one location after the other.
`Pending` ties the stack of half-listed folders to the locations that are still to be listed;
`Lists` adds to it what keeps a step from failing and from skipping a folder as entered before.
A step takes the first of these locations, and so a run takes them all. Nothing is assumed about
the names that a walk comes upon.
-/

namespace Winnow

variable {tree : FileTree} {settings : WalkSettings} {recursive : Bool} {path : HostPath}
  {root below location : Location} {stack : List Frame} {remaining : List Location}
  {walker : Walker} {node : Node} {place : RelPath}

/-- The path of what several names lead to from a folder. -/
def HostPath.descend (path : HostPath) (names : List String) : HostPath :=
  names.foldl child path

/-- The last name is added to the path of the others. -/
theorem HostPath.descend_concat (path : HostPath) (names : List String) (name : String) :
    path.descend (names ++ [name]) = (path.descend names).child name :=
  List.foldl_concat child path name names

/-- The last text is read from the place of the others. -/
theorem RelPath.ofSegments_concat (texts : List String) (text : String) :
    ofSegments (texts ++ [text]) = (ofSegments texts).join text :=
  List.foldl_concat join root text texts

/-- There is nothing to list inside of what is no folder, or not to be entered. -/
theorem FileTree.inside_eq_nil_of_shallow (found : tree.node? location = some node)
    (shallow : (node.isFolder && recursive) = false) :
    (if recursive then tree.inside true location else []) = [] := by
  cases recursive with
  | false => rfl
  | true =>
      rw [Bool.and_true, ← isFolder_of_node? found] at shallow
      exact inside_eq_nil shallow

namespace Walker

/-- The entry for what is at a location, in a walk from a path that leads to `root`. -/
def entryAt (tree : FileTree) (path : HostPath) (root location : Location) : WalkEntry :=
  let below := location.drop root.length
  let node := (tree.node? location).getD FileTree.baseNode
  ⟨path.descend below, itemOf (.ofSegments below) node node.isFolder, below.isEmpty⟩

/-- What the frames of a stack still have to list, the top of the stack first. A frame is at the
folder that some names lead to from the walk's root, and it names things inside of that folder. -/
inductive Pending (tree : FileTree) (recursive : Bool) (path : HostPath) (root : Location) :
    List Frame → List Location → Prop where
  | nil : Pending tree recursive path root [] []
  | cons {below names stack rest} (isFolder : tree.isFolder (root ++ below) = true)
      (resolved : tree.resolve false (path.descend below) = .ok (root ++ below))
      (named : ∀ name ∈ names, root ++ below ++ [name] ∈ tree.nodes)
      (deeper : Pending tree recursive path root stack rest) :
      Pending tree recursive path root
        (⟨path.descend below, .ofSegments below, names⟩ :: stack)
        ((names.flatMap fun name => tree.span recursive (root ++ below ++ [name])) ++ rest)

/-- Either nothing is pending, or the next name of the stack is that of the first location. -/
theorem Pending.nextName? (pending : Pending tree recursive path root stack remaining) :
    remaining = [] ∧ Walker.nextName? stack = none ∨
    ∃ below node frames rest,
      below ≠ [] ∧
      remaining = (root ++ below) ::
        ((if recursive then tree.inside true (root ++ below) else []) ++ rest) ∧
      Walker.nextName? stack = some (path.descend below, .ofSegments below, frames) ∧
      tree.lookup false (path.descend below) = .ok (root ++ below, node) ∧
      Pending tree recursive path root frames rest := by
  induction pending with
  | nil => exact .inl ⟨rfl, rfl⟩
  | @cons below names stack rest isFolder resolved named deeper inductionHypothesis =>
      cases names with
      -- An exhausted frame is left, and nothing of it was pending.
      | nil => exact inductionHypothesis
      | cons name names =>
          have present := named name List.mem_cons_self
          obtain ⟨node, found⟩ := (FileTree.mem_iff_exists_node? (by simp)).1 present
          have others : ∀ other ∈ names, root ++ below ++ [other] ∈ tree.nodes :=
            fun other listed => named other (List.mem_cons_of_mem name listed)
          refine .inr ⟨below ++ [name], node, _, _, by simp, ?_, ?_, ?_,
            .cons isFolder resolved others deeper⟩
          · rw [List.flatMap_cons, FileTree.span_eq_cons present, List.append_assoc root,
              List.append_assoc, List.cons_append]
          · rw [Walker.nextName?, HostPath.descend_concat, RelPath.ofSegments_concat]
          · rw [HostPath.descend_concat, ← List.append_assoc]
            have followed := FileTree.resolve_of_isFolder isFolder resolved
            exact FileTree.lookup_child isFolder followed found

/-- What a walk finds when it follows no links. -/
theorem inspect_of_unfollowed (unfollowed : walker.settings.followLinks = false)
    (lookedUp : walker.tree.lookup false path = .ok (location, node)) :
    walker.inspect path = .ok (node, if node.isFolder then some location else none) := by
  rw [inspect, lookedUp]
  obtain ⟨kind, modified⟩ := node
  cases kind with
  | folder => rfl
  | file size => rfl
  | link target =>
      simp only [unfollowed]
      rfl

/-- Entering a folder for the first time puts it on top of the stack. -/
theorem value_enter (unvisited : location ∉ walker.visited) :
    (walker.enter path location place).value =
      { walker with
        stack := ⟨path, place, walker.tree.names location⟩ :: walker.stack
        visited := location :: walker.visited } := by
  simp only [enter, unvisited, if_false, Noted.value_bind, Noted.value_pure]

/-- What is no folder, or not to be entered, is listed and nothing else. -/
theorem value_visit_of_shallow (unfollowed : walker.settings.followLinks = false)
    (lookedUp : walker.tree.lookup false path = .ok (location, node))
    (shallow : (node.isFolder && walker.settings.recursive) = false) :
    (walker.visit path place).value =
      (.ok ⟨path, itemOf place node node.isFolder, false⟩, walker) := by
  simp only [visit, inspect_of_unfollowed unfollowed lookedUp, Noted.value_bind]
  cases isFolder : node.isFolder with
  | false => rfl
  | true =>
      rw [isFolder, Bool.true_and] at shallow
      simp only [shallow]
      rfl

/-- A folder is listed and entered. -/
theorem value_visit_of_folder (unfollowed : walker.settings.followLinks = false)
    (lookedUp : walker.tree.lookup false path = .ok (location, node))
    (isFolder : node.isFolder = true) (deep : walker.settings.recursive = true)
    (unvisited : location ∉ walker.visited) :
    (walker.visit path place).value =
      (.ok ⟨path, itemOf place node node.isFolder, false⟩,
        { walker with
          stack := ⟨path, place, walker.tree.names location⟩ :: walker.stack
          visited := location :: walker.visited }) := by
  simp only [visit, inspect_of_unfollowed unfollowed lookedUp, Noted.value_bind, isFolder, deep,
    entrance, if_true, value_enter unvisited, Noted.value_pure, Option.isSome_some]

/-- A walk that follows no links still has to list some locations, and nothing else. -/
structure Lists (tree : FileTree) (settings : WalkSettings) (path : HostPath) (root : Location)
    (remaining : List Location) (walker : Walker) : Prop where
  sameTree : walker.tree = tree
  sameSettings : walker.settings = settings
  unfollowed : settings.followLinks = false
  noRootEntry : walker.rootEntry = none
  unfinished : walker.finished = false
  pending : Pending tree settings.recursive path root walker.stack remaining
  distinct : remaining.Nodup
  unvisited : ∀ location ∈ remaining, location ∉ walker.visited

/-- The entry for a location is told from the node there. -/
theorem entryAt_eq (belowRoot : below ≠ []) (found : tree.node? (root ++ below) = some node) :
    entryAt tree path root (root ++ below) =
      ⟨path.descend below, itemOf (.ofSegments below) node node.isFolder, false⟩ := by
  have notRoot : below.isEmpty = false := by simpa using belowRoot
  simp only [entryAt, List.drop_left, found, Option.getD_some, notRoot]

/-- A step without a root's entry visits what the stack names next. -/
theorem value_next_of_visit {frames : List Frame} {result : Except WalkError WalkEntry}
    {after : Walker} (unfinished : walker.finished = false)
    (noRootEntry : walker.rootEntry = none)
    (first : nextName? walker.stack = some (path, place, frames))
    (visited : ({ walker with stack := frames }.visit path place).value = (result, after)) :
    walker.next.value = (some result, after) := by
  simp only [unfinished, noRootEntry] at visited
  simp only [next, unfinished, noRootEntry, first]
  rw [if_neg Bool.false_ne_true, Noted.value_bind, visited]
  rfl

/-- A step lists a root's entry before anything else. -/
theorem value_next_of_rootEntry {entry : WalkEntry} (unfinished : walker.finished = false)
    (rootEntry : walker.rootEntry = some entry) :
    walker.next.value = (some (.ok entry), { walker with rootEntry := none }) := by
  simp only [next, unfinished, rootEntry]
  rfl

/-- With nothing left to list, a walk has ended. -/
theorem Lists.next_nil (lists : Lists tree settings path root [] walker) :
    walker.next.value.1 = none := by
  rcases lists.pending.nextName? with ⟨_, exhausted⟩ | ⟨_, _, _, _, _, impossible, _⟩
  · simp only [next, lists.unfinished, lists.noRootEntry, exhausted]
    rfl
  · cases impossible

/-- A step lists the first of the locations that are left. -/
theorem Lists.next_cons (lists : Lists tree settings path root (location :: remaining) walker) :
    ∃ after, walker.next.value = (some (.ok (entryAt tree path root location)), after) ∧
      Lists tree settings path root remaining after := by
  obtain ⟨rfl, rfl, unfollowed, noRootEntry, unfinished, pending, distinct, unvisited⟩ := lists
  rcases pending.nextName? with
    ⟨impossible, _⟩ | ⟨below, node, frames, rest, belowRoot, listed, first, lookedUp, deeper⟩
  · cases impossible
  · obtain ⟨rfl, rfl⟩ := List.cons.inj listed
    obtain ⟨locationUnlisted, restDistinct⟩ := List.nodup_cons.1 distinct
    obtain ⟨locationUnvisited, restUnvisited⟩ := List.forall_mem_cons.1 unvisited
    obtain ⟨resolved, found⟩ := FileTree.lookup_eq_ok_iff.1 lookedUp
    rw [entryAt_eq belowRoot found]
    -- Only a folder that is entered makes anything else pending.
    cases entered : node.isFolder && walker.settings.recursive with
    | false =>
        have step := value_next_of_visit unfinished noRootEntry first
          (value_visit_of_shallow unfollowed lookedUp entered)
        refine ⟨_, step, rfl, rfl, unfollowed, noRootEntry, unfinished, ?_, restDistinct,
          restUnvisited⟩
        rwa [FileTree.inside_eq_nil_of_shallow found entered, List.nil_append]
    | true =>
        obtain ⟨isFolder, deep⟩ := Bool.and_eq_true_iff.1 entered
        have step := value_next_of_visit unfinished noRootEntry first
          (value_visit_of_folder unfollowed lookedUp isFolder deep locationUnvisited)
        refine ⟨_, step, rfl, rfl, unfollowed, noRootEntry, unfinished, ?_, restDistinct, ?_⟩
        · have isFolderAt : walker.tree.isFolder (root ++ below) = true := by
            rw [FileTree.isFolder_of_node? found, isFolder]
          rw [deep] at deeper ⊢
          exact .cons isFolderAt resolved (fun name => FileTree.mem_names.1) deeper
        · intro other listed
          rintro (_ | ⟨_, earlier⟩)
          · exact locationUnlisted listed
          · exact restUnvisited other listed earlier

/-- A step that lists something is the first of the steps within any positive limit. -/
theorem values_stepsWithin_succ {result : Except WalkError WalkEntry} {after : Walker}
    (step : walker.next.value = (some result, after)) (limit : Nat) :
    (walker.stepsWithin (limit + 1)).map Noted.value =
      result :: (after.stepsWithin limit).map Noted.value := by
  rw [stepsWithin]
  cases taken : walker.next with
  | mk value notices =>
      obtain rfl : value = (some result, after) := by rw [← step, taken]
      rfl

/-- A walk that has ended takes no steps. -/
theorem stepsWithin_of_ended (ended : walker.next.value.1 = none) (limit : Nat) :
    walker.stepsWithin limit = [] := by
  cases limit with
  | zero => rfl
  | succ limit =>
      rw [stepsWithin]
      cases taken : walker.next with
      | mk value notices =>
          obtain ⟨result, after⟩ := value
          obtain rfl : result = none := by rw [← ended, taken]
          rfl

/-- The steps of a walk list the locations that are left, one after the other. -/
theorem Lists.values_stepsWithin (lists : Lists tree settings path root remaining walker)
    (limit : Nat) :
    (walker.stepsWithin limit).map Noted.value =
      (remaining.take limit).map fun location => .ok (entryAt tree path root location) := by
  induction remaining generalizing walker limit with
  | nil => rw [stepsWithin_of_ended lists.next_nil, List.take_nil, List.map_nil, List.map_nil]
  | cons location remaining inductionHypothesis =>
      cases limit with
      | zero => rfl
      | succ limit =>
          obtain ⟨after, step, lists⟩ := lists.next_cons
          rw [values_stepsWithin_succ step, inductionHypothesis lists, List.take_succ_cons,
            List.map_cons]

/-- A walk that has its root's entry as well lists the root first. -/
theorem Lists.values_stepsWithin_of_rootEntry
    (lists : Lists tree settings path root remaining { walker with rootEntry := none })
    (rootEntry : walker.rootEntry = some (entryAt tree path root root)) (limit : Nat) :
    (walker.stepsWithin limit).map Noted.value =
      ((root :: remaining).take limit).map fun location =>
        .ok (entryAt tree path root location) := by
  have unfinished : walker.finished = false := lists.unfinished
  cases limit with
  | zero => rfl
  | succ limit =>
      rw [values_stepsWithin_succ (value_next_of_rootEntry unfinished rootEntry),
        lists.values_stepsWithin, List.take_succ_cons, List.map_cons]

/-- A walk that has entered its root, if there is a folder, and has listed nothing yet. -/
def entered (tree : FileTree) (settings : WalkSettings) (path : HostPath) (root : Location) :
    Walker :=
  if tree.isFolder root then
    { tree, settings, stack := [⟨path, .root, tree.names root⟩], visited := [root] }
  else { tree, settings }

/-- A walk starts when its root is there. It lists the root first, if the root is asked for. -/
theorem value_start {source : WalkRoot} (unfollowed : settings.followLinks = false)
    (lookedUp : tree.lookup false source.path = .ok (root, node)) :
    (start tree source settings).value = .ok
      { entered tree settings source.path root with
        rootEntry := if settings.includeRoot then some (entryAt tree source.path root root)
          else none } := by
  have found := (FileTree.lookup_eq_ok_iff.1 lookedUp).2
  have rootEntry : entryAt tree source.path root root =
      ⟨source.path, itemOf .root node node.isFolder, true⟩ := by
    simp only [entryAt, List.drop_length, found, Option.getD_some, List.isEmpty_nil]
    rfl
  have inspected := @inspect_of_unfollowed source.path root ⟨tree, settings, none, [], [], false⟩
    node unfollowed lookedUp
  rw [rootEntry, entered, FileTree.isFolder_of_node? found]
  simp only [start, lookedUp, inspected, Noted.value_bind]
  cases isFolder : node.isFolder with
  | false => rfl
  | true => rfl

/-- After its root a walk lists what is inside of the root. -/
theorem lists_entered (resolved : tree.resolve false path = .ok root)
    (unfollowed : settings.followLinks = false) :
    Lists tree settings path root (tree.inside settings.recursive root)
      { entered tree settings path root with rootEntry := none } := by
  have distinct : (tree.inside settings.recursive root).Nodup :=
    (tree.pairwise_inside settings.recursive root).nodup
  unfold entered
  cases isFolder : tree.isFolder root with
  | false =>
      rw [FileTree.inside_eq_nil isFolder] at distinct ⊢
      exact ⟨rfl, rfl, unfollowed, rfl, rfl, .nil, distinct, nofun⟩
  | true =>
      refine ⟨rfl, rfl, unfollowed, rfl, rfl, ?_, distinct, ?_⟩
      · have atRoot := @Pending.cons tree settings.recursive path root [] (tree.names root) [] []
        simp only [List.append_nil] at atRoot
        exact atRoot isFolder resolved (fun name => FileTree.mem_names.1) .nil
      · intro location listed inVisited
        obtain rfl := List.mem_singleton.1 inVisited
        obtain ⟨_, below, same, nonempty, _⟩ := FileTree.mem_inside.1 listed
        exact nonempty (List.self_eq_append_right.1 same)

/-- The locations that a walk from `root` lists, in order. -/
def listing (tree : FileTree) (settings : WalkSettings) (root : Location) : List Location :=
  (if settings.includeRoot then [root] else []) ++ tree.inside settings.recursive root

/-- A walk that starts where something is lists one location after the other. -/
theorem exists_values_start {source : WalkRoot} (unfollowed : settings.followLinks = false)
    (lookedUp : tree.lookup false source.path = .ok (root, node)) :
    ∃ walker, (start tree source settings).value = .ok walker ∧ walker.tree = tree ∧ ∀ limit,
      (walker.stepsWithin limit).map Noted.value =
        ((listing tree settings root).take limit).map fun location =>
          .ok (entryAt tree source.path root location) := by
  have lists := lists_entered (FileTree.lookup_eq_ok_iff.1 lookedUp).1 unfollowed
  refine ⟨_, value_start unfollowed lookedUp, lists.sameTree, fun limit => ?_⟩
  unfold listing
  cases settings.includeRoot with
  | false => exact lists.values_stepsWithin limit
  | true =>
      exact @Lists.values_stepsWithin_of_rootEntry tree settings source.path root _
        { entered tree settings source.path root with rootEntry := some _ } lists rfl limit

end Walker

end Winnow
