import Winnow.Proofs.Walk.Pending

/-!
# Entering folders

A walk that follows links comes to a folder along the folder's own path or along that of a link.
`opening?` says which folder may be entered at a spot and by which path, and `Leads` that this path
leads to the folder, so that looking at what is inside of it finds exactly that. `step_of_next` says
once what a step does that lists an entry: it hands out the root's entry, it takes a name and leaves
the rest as it is, or it takes a name and enters a folder that has not been entered before.
-/

namespace Winnow

/-- Where a walk comes upon something: the host path, and the place below the walk's root. -/
abbrev Spot := HostPath × RelPath

/-- Where a walk has come upon an entry. -/
def WalkEntry.spot (entry : WalkEntry) : Spot := (entry.path, entry.item.path)

/-- The spots of the names that a frame still has to list. -/
def Frame.spots (frame : Frame) : List Spot :=
  frame.names.map fun name => (frame.path.child name, frame.place.join name)

/-- A folder that a walk enters: its location, the path by which it is entered, and the place at
which what it contains is listed. -/
structure Opening where
  location : Location
  path : HostPath
  place : RelPath

namespace Opening

/-- The frame of a folder when it is entered. -/
def frame (tree : FileTree) (opening : Opening) : Frame :=
  ⟨opening.path, opening.place, tree.names opening.location⟩

/-- A folder stands at the location, and the path leads to it. -/
structure Leads (tree : FileTree) (opening : Opening) : Prop where
  isFolder : tree.isFolder opening.location = true
  resolved : tree.resolve true opening.path = .ok opening.location

/-- The spots inside of an opening are those of the names there. -/
theorem mem_spots_iff {tree : FileTree} {opening : Opening} {spot : Spot} :
    spot ∈ (opening.frame tree).spots ↔
      ∃ name ∈ tree.names opening.location,
        (opening.path.child name, opening.place.join name) = spot :=
  List.mem_map

/-- Looking at a spot inside of an opening finds what has the name there. -/
theorem Leads.lookup_child {tree : FileTree} {opening : Opening} {name : String}
    (leads : opening.Leads tree) (named : name ∈ tree.names opening.location) :
    ∃ node, tree.node? (opening.location ++ [name]) = some node ∧
      tree.lookup false (opening.path.child name) = .ok (opening.location ++ [name], node) := by
  have present := FileTree.mem_names.1 named
  obtain ⟨node, found⟩ := (FileTree.mem_iff_exists_node? (by simp)).1 present
  exact ⟨node, found, FileTree.lookup_child leads.isFolder leads.resolved found⟩

end Opening

namespace Walker

variable {tree : FileTree} {settings : WalkSettings} {path : HostPath} {place : RelPath}
  {spot : Spot} {stack frames : List Frame} {walker after : Walker} {location : Location}
  {node : Node} {folder? : Option Location} {opening : Opening} {entry : WalkEntry}

/-- The folder at a spot that a walk may enter, be it that a followed link there leads to it. -/
def opening? (tree : FileTree) (settings : WalkSettings) (spot : Spot) : Option Opening :=
  match ({ tree, settings } : Walker).inspect spot.1 with
  | .ok (node, some location) => some ⟨location, entrance spot.1 node location, spot.2⟩
  | .ok (_, none) | .error _ => none

/-- What inspecting a path finds depends on the tree and the settings alone. -/
theorem opening?_of_inspect (inspected : walker.inspect path = .ok (node, folder?)) :
    opening? walker.tree walker.settings (path, place) =
      folder?.map fun location => ⟨location, entrance path node location, place⟩ := by
  have same : ({ tree := walker.tree, settings := walker.settings } : Walker).inspect path =
      .ok (node, folder?) := inspected
  simp only [opening?, same]
  cases folder? with
  | none => rfl
  | some location => rfl

/-- A folder at a spot is entered by its own path. -/
theorem opening?_of_isFolder (found : tree.lookup false spot.1 = .ok (location, node))
    (isFolder : node.isFolder = true) :
    opening? tree settings spot = some ⟨location, spot.1, spot.2⟩ := by
  obtain ⟨kind, modified⟩ := node
  cases kind with
  | folder => simp only [opening?, inspect, found, entrance, isFolder, if_true]
  | file size => cases isFolder
  | link target => cases isFolder

/-- What may be entered at a spot is a folder there or one to which a followed link there leads. -/
theorem cases_opening? (opens : opening? tree settings spot = some opening) :
    (∃ node, tree.lookup false spot.1 = .ok (opening.location, node) ∧ node.isFolder = true ∧
      opening = ⟨opening.location, spot.1, spot.2⟩) ∨
    ∃ standing target modified found, settings.followLinks = true ∧
      tree.lookup false spot.1 = .ok (standing, ⟨.link target, modified⟩) ∧
      tree.lookup true spot.1 = .ok (opening.location, found) ∧ found.isFolder = true ∧
      opening = ⟨opening.location, ⟨opening.location⟩, spot.2⟩ := by
  unfold opening? inspect at opens
  cases found : tree.lookup false spot.1 with
  | error error => simp only [found] at opens; cases opens
  | ok result =>
      obtain ⟨standing, ⟨kind, modified⟩⟩ := result
      simp only [found] at opens
      cases kind with
      | folder =>
          obtain rfl := Option.some.inj opens
          exact .inl ⟨_, rfl, rfl, rfl⟩
      | file size => cases opens
      | link target =>
          dsimp only at opens
          cases followed : settings.followLinks with
          | false => rw [followed] at opens; cases opens
          | true =>
              rw [followed, if_pos rfl] at opens
              cases led : tree.lookup true spot.1 with
              | error error => rw [led] at opens; cases opens
              | ok result =>
                  obtain ⟨location, reached⟩ := result
                  rw [led] at opens
                  dsimp only at opens
                  cases isFolder : reached.isFolder with
                  | false => rw [isFolder] at opens; cases opens
                  | true =>
                      rw [isFolder] at opens
                      obtain rfl := Option.some.inj opens
                      exact .inr ⟨standing, target, modified, reached, rfl, rfl, rfl, isFolder, rfl⟩

/-- With links followed, a spot leads to the folder that may be entered there. -/
theorem resolve_of_opening? (opens : opening? tree settings spot = some opening) :
    tree.isFolder opening.location = true ∧ tree.resolve true spot.1 = .ok opening.location := by
  rcases cases_opening? opens with
    ⟨node, found, isFolderNode, _⟩ | ⟨_, _, _, node, _, _, found, isFolderNode, _⟩
  · obtain ⟨resolved, lookedUp⟩ := FileTree.lookup_eq_ok_iff.1 found
    have isFolder : tree.isFolder opening.location = true := by
      rw [FileTree.isFolder_of_node? lookedUp, isFolderNode]
    exact ⟨isFolder, FileTree.resolve_of_isFolder isFolder resolved⟩
  · obtain ⟨resolved, lookedUp⟩ := FileTree.lookup_eq_ok_iff.1 found
    exact ⟨by rw [FileTree.isFolder_of_node? lookedUp, isFolderNode], resolved⟩

/-- The way along which a folder is entered leads to it. -/
theorem leads_of_opening? (opens : opening? tree settings spot = some opening) :
    opening.Leads tree := by
  obtain ⟨isFolder, resolved⟩ := resolve_of_opening? opens
  rcases cases_opening? opens with ⟨_, _, _, entered⟩ | ⟨_, _, _, _, _, _, _, _, entered⟩
  · rw [entered]
    exact ⟨isFolder, resolved⟩
  · rw [entered]
    exact ⟨isFolder, FileTree.resolve_direct isFolder⟩

/-- A folder that has been entered before is not entered again. -/
theorem value_enter_of_visited (visited : location ∈ walker.visited) :
    (walker.enter path location place).value = walker := by
  simp only [enter, visited, if_true, Noted.value_bind, Noted.value_pure]

/-- What a step does that lists an entry: it hands out the root's entry, or it takes the next name
of the stack and enters the folder that it finds, if that is asked for and has not been done. -/
inductive Step (walker : Walker) (entry : WalkEntry) : Walker → Prop where
  | root (held : walker.rootEntry = some entry) :
      Step walker entry { walker with rootEntry := none }
  | inside {frames : List Frame} (noRootEntry : walker.rootEntry = none)
      (below : entry.isRoot = false)
      (first : nextName? walker.stack = some (entry.path, entry.item.path, frames))
      (closed : walker.settings.recursive = false ∨
        ∀ opening, opening? walker.tree walker.settings entry.spot = some opening →
          opening.location ∈ walker.visited) :
      Step walker entry { walker with stack := frames }
  | entered {frames : List Frame} {opening : Opening} (noRootEntry : walker.rootEntry = none)
      (below : entry.isRoot = false)
      (first : nextName? walker.stack = some (entry.path, entry.item.path, frames))
      (opens : opening? walker.tree walker.settings entry.spot = some opening)
      (unvisited : opening.location ∉ walker.visited) :
      Step walker entry { walker with
        stack := opening.frame walker.tree :: frames
        visited := opening.location :: walker.visited }

/-- A visit lists what is at a path and enters the folder that is there or to which it leads, if
the walk is recursive. -/
theorem value_visit (inspected : walker.inspect path = .ok (node, folder?)) (place : RelPath) :
    (walker.visit path place).value =
      (.ok ⟨path, itemOf place node folder?.isSome, false⟩,
        match folder?, walker.settings.recursive with
        | some location, true => (walker.enter (entrance path node location) location place).value
        | _, _ => walker) := by
  simp only [visit, inspected, Noted.value_bind]
  cases folder? with
  | none => rfl
  | some location =>
      cases walker.settings.recursive with
      | false => rfl
      | true => rfl

/-- A visit that meets something that cannot be inspected lists nothing. -/
theorem value_visit_of_error {error : HostError} (failed : walker.inspect path = .error error) :
    (walker.visit path place).value =
      (.error (.entry (walker.shown path) error), { walker with finished := true }) := by
  simp only [visit, failed, Noted.value_bind, Noted.value_pure]

/-- A step that lists an entry does one of these things. -/
theorem step_of_next (unfinished : walker.finished = false)
    (taken : walker.next.value = (some (.ok entry), after)) : Step walker entry after := by
  cases held : walker.rootEntry with
  | some rootEntry =>
      rw [value_next_of_rootEntry unfinished held] at taken
      cases taken
      exact .root held
  | none =>
      cases first : nextName? walker.stack with
      | none =>
          simp only [next, unfinished, held, first] at taken
          cases taken
      | some named =>
          obtain ⟨path, place, frames⟩ := named
          cases inspected : { walker with stack := frames }.inspect path with
          | error error =>
              rw [value_next_of_visit unfinished held first (value_visit_of_error inspected)]
                at taken
              cases taken
          | ok found =>
              obtain ⟨node, folder?⟩ := found
              have opens := @opening?_of_inspect path place _ node folder? inspected
              rw [value_next_of_visit unfinished held first (value_visit inspected place)] at taken
              dsimp only at opens taken
              cases folder? with
              | none =>
                  cases taken
                  refine .inside held rfl first (.inr fun opening opened => ?_)
                  cases opens.symm.trans opened
              | some location =>
                  cases recursive : walker.settings.recursive with
                  | false =>
                      rw [recursive] at taken
                      cases taken
                      exact .inside held rfl first (.inl recursive)
                  | true =>
                      rw [recursive] at taken
                      dsimp only at taken
                      by_cases visited : location ∈ { walker with stack := frames }.visited
                      · rw [value_enter_of_visited visited] at taken
                        cases taken
                        refine .inside held rfl first (.inr fun opening opened => ?_)
                        obtain rfl := Option.some.inj (opens.symm.trans opened)
                        exact visited
                      · rw [value_enter visited] at taken
                        cases taken
                        exact @Step.entered walker _ frames
                          ⟨location, entrance path node location, place⟩ held rfl first opens
                          visited

/-- The spots at hand start with that of the name that a stack yields next. -/
theorem spots_of_nextName? (first : nextName? stack = some (path, place, frames)) :
    stack.flatMap Frame.spots = (path, place) :: frames.flatMap Frame.spots := by
  fun_induction nextName? stack with
  | case1 => cases first
  | case2 _ _ deeper inductionHypothesis => exact inductionHypothesis first
  | case3 framePath framePlace name names deeper =>
      cases first
      rfl

/-- A stack that yields no name has nothing at hand. -/
theorem spots_of_nextName?_eq_none (exhausted : nextName? stack = none) :
    stack.flatMap Frame.spots = [] := by
  fun_induction nextName? stack with
  | case1 => rfl
  | case2 _ _ deeper inductionHypothesis => exact inductionHypothesis exhausted
  | case3 framePath framePlace name names deeper => cases exhausted

end Walker

end Winnow
