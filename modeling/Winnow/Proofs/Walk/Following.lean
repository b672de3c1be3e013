import Winnow.FileTree.Build
import Winnow.Proofs.Walk.Collection

/-!
# Walks that follow links

A walk that follows links enters each folder once. If it comes to a folder along a link before it
comes to the folder itself, it lists what the folder contains below the link's place, and leaves the
folder's own place bare. `kept_or_displaced_collect` says that nothing worse happens to what is
listed without following links: everything is still listed, and at its own place unless one of the
folders above it has been displaced in this way.
-/

namespace Winnow

namespace Walker

variable {tree : FileTree} {settings : WalkSettings} {source : WalkRoot} {location below : Location}
  {node : Node} {name : String} {walker : Walker} {root entry : WalkEntry}
  {openings : List Opening} {opening : Opening} {entries listed : List WalkEntry}

/-- A followed link that was listed before a folder has drawn what the folder contains to its own
place. -/
structure Displaces (tree : FileTree) (entries : List WalkEntry) (link folder : WalkEntry) :
    Prop where
  before : [link, folder].Sublist entries
  isLink : ∃ place target modified,
    tree.lookup false link.path = .ok (place, ⟨.link target, modified⟩)
  leads : tree.lookup true link.path = tree.lookup false folder.path
  drawn : ∀ place node, tree.lookup false folder.path = .ok (place, node) →
    ∀ name ∈ tree.names place, ∃ entry ∈ entries, entry.item.path = link.item.path.join name ∧
      ∃ found, tree.lookup false entry.path = .ok (place ++ [name], found)

/-- An entry for something that is, at whatever depth, inside of a folder. -/
def LiesInside (tree : FileTree) (entry folder : WalkEntry) : Prop :=
  ∃ place node rest found, tree.lookup false folder.path = .ok (place, node) ∧ rest ≠ [] ∧
    tree.lookup false entry.path = .ok (place ++ rest, found)

namespace Explored

/-- A recursive walk has entered the folders to which the entries inside of its root lead. -/
theorem exists_opening_of_listed (explored : Explored tree settings root openings entries walker)
    (recursive : settings.recursive = true) (listed : entry ∈ entries)
    (below : entry.isRoot = false) (opens : opening? tree settings entry.spot = some opening) :
    ∃ known ∈ openings, known.location = opening.location := by
  rcases explored.hasEntered recursive entry listed below opening opens with
    itself | ⟨known, entered, same, _⟩
  · exact ⟨opening, itself, rfl⟩
  · exact ⟨known, entered, same⟩

/-- A walk has entered the folders at and, if it is recursive, below its root. -/
theorem exists_opening (explored : Explored tree settings root openings entries walker)
    (ended : walker.next.value.1 = none) (atRoot : ∃ known ∈ openings, known.location = location)
    (isFolder : tree.isFolder (location ++ below) = true)
    (deep : settings.recursive = true ∨ below = []) :
    ∃ known ∈ openings, known.location = location ++ below := by
  induction below using List.reverseRecOn with
  | nil => rwa [List.append_nil]
  | append_singleton names name inductionHypothesis =>
      have recursive := deep.resolve_right (by simp)
      rw [← List.append_assoc] at isFolder ⊢
      have above := FileTree.isFolder_of_prefix isFolder (List.prefix_append ..)
      obtain ⟨outer, entered, same⟩ := inductionHypothesis above (.inl recursive)
      rw [← same] at isFolder ⊢
      obtain ⟨found, lookedUp, isFolderNode⟩ := (Option.any_eq_true ..).1 isFolder
      have named : name ∈ tree.names outer.location :=
        FileTree.mem_names.2 ((FileTree.mem_iff_exists_node? (by simp)).2 ⟨found, lookedUp⟩)
      obtain ⟨entry, listed, inside, -, node, standing⟩ :=
        explored.exists_entry ended entered named
      obtain rfl := Option.some.inj ((FileTree.lookup_eq_ok_iff.1 standing).2.symm.trans lookedUp)
      exact explored.exists_opening_of_listed recursive listed inside
        (opening?_of_isFolder standing isFolderNode)

/-- A recursive walk that lists a folder inside of its root enters it there, unless a followed link
displaces it. -/
theorem entered_or_displaced (explored : Explored tree settings root openings entries walker)
    (ended : walker.next.value.1 = none) (recursive : settings.recursive = true)
    (listed : entry ∈ entries) (inside : entry.isRoot = false) {place : Location}
    (found : tree.lookup false entry.path = .ok (place, node)) (isFolder : node.isFolder = true)
    (notRoot : tree.resolve true root.path ≠ .ok place) :
    ⟨place, entry.path, entry.item.path⟩ ∈ openings ∨
      ∃ link, Displaces tree entries link entry := by
  have opens := @opening?_of_isFolder tree settings entry.spot place node found isFolder
  rcases explored.hasEntered recursive entry listed inside _ opens with
    itself | ⟨known, entered, same, way⟩
  · exact .inl itself
  · obtain rfl : known.location = place := same
    have notAlongRoot : known.path ≠ root.path := by
      intro alongRoot
      have resolved := (explored.leads known entered).resolved
      rw [alongRoot] at resolved
      exact notRoot resolved
    rcases way with atRoot | ⟨link, before, linkOpens⟩
    · exact absurd (congrArg Prod.fst atRoot) notAlongRoot
    · rcases cases_opening? linkOpens with
        ⟨_, standing, _, along⟩ | ⟨_, _, _, reached, _, standing, led, _, along⟩
      · -- The folder itself would have been listed twice.
        cases linkRoot : link.isRoot with
        | true =>
            have isRoot := explored.eq_root (before.subset List.mem_cons_self) linkRoot
            rw [isRoot] at along
            exact absurd (congrArg Opening.path along) notAlongRoot
        | false =>
            exact absurd (standing?_of_lookup found)
              (explored.not_twice before linkRoot inside (standing?_of_lookup standing))
      · refine .inr ⟨link, before, ⟨_, _, _, standing⟩, ?_, fun place other there name named => ?_⟩
        · obtain ⟨-, lookedUp⟩ := FileTree.lookup_eq_ok_iff.1 led
          obtain rfl := Option.some.inj
            (lookedUp.symm.trans (FileTree.lookup_eq_ok_iff.1 found).2)
          exact led.trans found.symm
        · obtain ⟨rfl, rfl⟩ := Prod.mk.inj (Except.ok.inj (found.symm.trans there))
          obtain ⟨inner, innerListed, -, atSpot, standing⟩ :=
            explored.exists_entry ended entered named
          refine ⟨inner, innerListed, ?_, standing⟩
          rw [along] at atSpot
          exact congrArg Prod.snd atSpot

/-- A walk enters a folder at or below its root by the names that lead to it, unless one of the
folders on the way is displaced. -/
theorem own_or_displaced (explored : Explored tree settings root openings entries walker)
    (ended : walker.next.value.1 = none) (atRoot : ⟨location, root.path, .root⟩ ∈ openings)
    (isFolder : tree.isFolder (location ++ below) = true)
    (deep : settings.recursive = true ∨ below = []) :
    ⟨location ++ below, root.path.descend below, .ofSegments below⟩ ∈ openings ∨
      ∃ link folder up rest, Displaces tree entries link folder ∧ up ≠ [] ∧ below = up ++ rest ∧
        folder.spot = (root.path.descend up, .ofSegments up) := by
  induction below using List.reverseRecOn with
  | nil =>
      rw [List.append_nil]
      exact .inl atRoot
  | append_singleton names name inductionHypothesis =>
      have recursive := deep.resolve_right (by simp)
      rw [← List.append_assoc] at isFolder ⊢
      have above := FileTree.isFolder_of_prefix isFolder (List.prefix_append ..)
      rcases inductionHypothesis above (.inl recursive) with
        outer | ⟨link, folder, up, rest, displaces, upBelow, extended, atSpot⟩
      · obtain ⟨found, lookedUp, isFolderNode⟩ := (Option.any_eq_true ..).1 isFolder
        have named : name ∈ tree.names (location ++ names) :=
          FileTree.mem_names.2 ((FileTree.mem_iff_exists_node? (by simp)).2 ⟨found, lookedUp⟩)
        obtain ⟨entry, listed, inside, atSpot, node, standing⟩ :=
          explored.exists_entry ended outer named
        obtain rfl := Option.some.inj ((FileTree.lookup_eq_ok_iff.1 standing).2.symm.trans lookedUp)
        rw [← HostPath.descend_concat, ← RelPath.ofSegments_concat] at atSpot
        have notRoot : tree.resolve true root.path ≠ .ok (location ++ names ++ [name]) := by
          rw [(explored.leads _ atRoot).resolved]
          simp
        rcases explored.entered_or_displaced ended recursive listed inside standing isFolderNode
          notRoot with itself | ⟨link, displaces⟩
        · obtain ⟨samePath, samePlace⟩ := Prod.mk.inj atSpot
          rw [samePath, samePlace] at itself
          exact .inl itself
        · exact .inr ⟨link, entry, names ++ [name], [], displaces, by simp, by simp, atSpot⟩
      · -- Below a displaced folder nothing more has to be known.
        refine .inr ⟨link, folder, up, rest ++ [name], displaces, upBelow, ?_, atSpot⟩
        rw [extended, List.append_assoc]

/-- What is at or below a walk's root is listed, be it elsewhere. -/
theorem exists_listed (explored : Explored tree settings root openings entries walker)
    (ended : walker.next.value.1 = none) (atRoot : ⟨location, root.path, .root⟩ ∈ openings)
    (present : location ++ below ++ [name] ∈ tree.nodes)
    (deep : settings.recursive = true ∨ below = []) :
    ∃ same ∈ entries, ∃ node,
      tree.lookup false same.path = .ok (location ++ below ++ [name], node) := by
  have inFolder := FileTree.isFolder_iff.2 (tree.parent _ name present)
  obtain ⟨known, entered, sameFolder⟩ :=
    explored.exists_opening ended ⟨_, atRoot, rfl⟩ inFolder deep
  rw [← sameFolder] at present ⊢
  obtain ⟨same, listed, -, -, standing⟩ :=
    explored.exists_entry ended entered (FileTree.mem_names.2 present)
  exact ⟨same, listed, standing⟩

/-- What is at or below a walk's root is listed at its own place, unless one of the folders on the
way is displaced. -/
theorem kept_or_displaced (explored : Explored tree settings root openings entries walker)
    (ended : walker.next.value.1 = none) (atRoot : ⟨location, root.path, .root⟩ ∈ openings)
    (present : location ++ below ++ [name] ∈ tree.nodes)
    (deep : settings.recursive = true ∨ below = []) :
    (∃ same ∈ entries,
      same.spot = (root.path.descend (below ++ [name]), .ofSegments (below ++ [name]))) ∨
      ∃ link folder up rest, Displaces tree entries link folder ∧ up ≠ [] ∧ below = up ++ rest ∧
        folder.spot = (root.path.descend up, .ofSegments up) := by
  have inFolder := FileTree.isFolder_iff.2 (tree.parent _ name present)
  rcases explored.own_or_displaced ended atRoot inFolder deep with own | displaced
  · obtain ⟨same, listed, -, atSpot, -⟩ :=
      explored.exists_entry ended own (FileTree.mem_names.2 present)
    rw [← HostPath.descend_concat, ← RelPath.ofSegments_concat] at atSpot
    exact .inl ⟨same, listed, atSpot⟩
  · exact .inr displaced

end Explored

/-- The spot of a listed location is told from the names that lead there from the root. -/
theorem spot_entryAt (tree : FileTree) (path : HostPath) (root below : Location) :
    (entryAt tree path root (root ++ below)).spot = (path.descend below, .ofSegments below) := by
  rw [WalkEntry.spot, entryAt, List.drop_left]
  rfl

/-- Following links loses nothing that is listed without following them, and it moves nothing either
but what is inside of a folder that a followed link displaces. -/
theorem kept_or_displaced_collect
    (plain : collect tree source { settings with followLinks := false } = .ok listed)
    (followed : collect tree source { settings with followLinks := true } = .ok entries) :
    ∀ entry ∈ listed,
      (∃ found, tree.lookup false entry.path = .ok found ∧
        ∃ same ∈ entries, tree.lookup false same.path = .ok found) ∧
      ((∃ same ∈ entries, same.spot = entry.spot) ∨
        ∃ link folder, Displaces tree entries link folder ∧
          (∃ own ∈ listed, own.spot = folder.spot) ∧ LiesInside tree entry folder) := by
  obtain ⟨location, node, found, rfl⟩ := exists_listing_of_collect rfl plain
  obtain ⟨other, isFolder, openings, last, entered, explored, ended⟩ :=
    exists_explored_of_collect followed
  intro entry member
  obtain ⟨place, shown, rfl⟩ := List.mem_map.1 member
  obtain ⟨below, rfl, listing⟩ := mem_listing.1 shown
  obtain ⟨thing, standing⟩ := lookup_of_mem_listing found shown
  have atSpot := spot_entryAt tree source.path location below
  generalize entryAt tree source.path location (location ++ below) = entry at atSpot
  obtain ⟨samePath, -⟩ := Prod.mk.inj atSpot
  rw [← samePath] at standing
  rw [atSpot]
  rcases List.eq_nil_or_concat' below with rfl | ⟨names, name, rfl⟩
  · have listed := explored.root_mem ended (by simpa using listing)
    exact ⟨⟨_, samePath ▸ found, _, listed, found⟩, .inl ⟨_, listed, rfl⟩⟩
  · have inFolder := isFolder_of_mem_listing shown
    have rootFolder := FileTree.isFolder_of_prefix inFolder (List.prefix_append ..)
    rw [FileTree.isFolder_of_node? (FileTree.lookup_eq_ok_iff.1 found).2] at rootFolder
    have atRoot := entered location node found rootFolder
    rw [if_neg (by simp), ← List.append_assoc] at listing
    obtain ⟨present, deep⟩ := listing
    have deepEnough : settings.recursive = true ∨ names = [] :=
      deep.imp_right fun shallow => by simpa using shallow
    constructor
    · obtain ⟨same, listed, sameThing, sameStanding⟩ :=
        explored.exists_listed ended atRoot present deepEnough
      rw [List.append_assoc] at sameStanding
      obtain ⟨-, thingFound⟩ := FileTree.lookup_eq_ok_iff.1 standing
      obtain ⟨-, sameFound⟩ := FileTree.lookup_eq_ok_iff.1 sameStanding
      obtain rfl := Option.some.inj (sameFound.symm.trans thingFound)
      exact ⟨_, standing, same, listed, sameStanding⟩
    · rcases explored.kept_or_displaced ended atRoot present deepEnough with
        kept | ⟨link, folder, up, rest, displaces, upBelow, rfl, folderSpot⟩
      · exact .inl kept
      · rw [List.append_assoc up] at shown standing
        rw [← List.append_assoc] at standing
        have upShown := mem_listing_of_append upBelow shown
        obtain ⟨upThing, upStanding⟩ := lookup_of_mem_listing found upShown
        obtain ⟨folderPath, -⟩ := Prod.mk.inj folderSpot
        rw [← folderPath] at upStanding
        refine .inr ⟨link, folder, displaces, ⟨_, List.mem_map_of_mem upShown, ?_⟩,
          _, _, _, _, upStanding, by simp, standing⟩
        rw [spot_entryAt, folderSpot]

/-- A tree with a folder, a file in it, and a link to the folder that comes before it. -/
structure HasLinkBefore (tree : FileTree) : Prop where
  namesInRoot : tree.names [] = ["a", "z"]
  namesInFolder : tree.names ["z"] = ["x"]
  link : tree.node? ["a"] = some ⟨.link "z", ⟨0⟩⟩
  folder : tree.node? ["z"] = some FileTree.baseNode
  file : tree.node? ["z", "x"] = some ⟨.file 1, ⟨0⟩⟩

/-- There is such a tree, and a walk that follows no links lists it as it is. -/
theorem exists_hasLinkBefore :
    ∃ tree, FileTree.ofNodes? "/base" [("z/x", ⟨.file 1, ⟨0⟩⟩), ("a", ⟨.link "z", ⟨0⟩⟩)] =
        some tree ∧
      HasLinkBefore tree ∧
      (listing tree {} []).map
          (fun location => (entryAt tree ⟨[]⟩ [] location).item.path.segments) =
        [[], ["a"], ["z"], ["z", "x"]] := by
  have contents : (FileTree.ofNodes? "/base"
      [("z/x", ⟨.file 1, ⟨0⟩⟩), ("a", ⟨.link "z", ⟨0⟩⟩)]).any (fun tree =>
        tree.names [] = ["a", "z"] ∧ tree.names ["z"] = ["x"] ∧
        tree.node? ["a"] = some ⟨.link "z", ⟨0⟩⟩ ∧ tree.node? ["z"] = some FileTree.baseNode ∧
        tree.node? ["z", "x"] = some ⟨.file 1, ⟨0⟩⟩ ∧
        (listing tree {} []).map
            (fun location => (entryAt tree ⟨[]⟩ [] location).item.path.segments) =
          [[], ["a"], ["z"], ["z", "x"]]) = true := by
    decide +kernel
  obtain ⟨tree, built, facts⟩ := (Option.any_eq_true ..).1 contents
  obtain ⟨namesInRoot, namesInFolder, link, folder, file, listed⟩ := of_decide_eq_true facts
  exact ⟨tree, built, ⟨namesInRoot, namesInFolder, link, folder, file⟩, listed⟩

namespace HasLinkBefore

open FileTree

theorem lookup_link (has : HasLinkBefore tree) :
    tree.lookup false ⟨["a"]⟩ = .ok (["a"], ⟨.link "z", ⟨0⟩⟩) :=
  lookup_child rfl (lookup_eq_ok_iff.1 (tree.lookup_base true)).1 has.link

theorem lookup_target (has : HasLinkBefore tree) :
    tree.lookup true ⟨["a"]⟩ = .ok (["z"], baseNode) := by
  have atRoot : tree.isFolder [] = true := rfl
  have target : targetParts [] "z" = ([], ["z"]) := by decide +kernel
  simp [lookup, resolve, resolveFrom, atRoot, has.link, has.folder, baseNode, maxLinks, target]

theorem lookup_folder (has : HasLinkBefore tree) :
    tree.lookup false ⟨["z"]⟩ = .ok (["z"], baseNode) :=
  lookup_child rfl (lookup_eq_ok_iff.1 (tree.lookup_base true)).1 has.folder

theorem lookup_file (has : HasLinkBefore tree) :
    tree.lookup false ⟨["z", "x"]⟩ = .ok (["z", "x"], ⟨.file 1, ⟨0⟩⟩) :=
  lookup_child (isFolder_of_node? has.folder)
    (resolve_of_isFolder (isFolder_of_node? has.folder) (lookup_eq_ok_iff.1 has.lookup_folder).1)
    has.file

/-- What is left of the root when it has been entered. -/
def rootFrame (names : List String) : Frame := ⟨⟨[]⟩, .root, names⟩

/-- What is left of the folder when it has been entered along the link. -/
def linkFrame (names : List String) : Frame := ⟨⟨["z"]⟩, .join .root "a", names⟩

/-- A walk that follows links, after its root has been listed. -/
def following (tree : FileTree) (stack : List Frame) (visited : List Location) : Walker :=
  { tree, settings := { followLinks := true }, stack, visited }

theorem value_start_following (has : HasLinkBefore tree) :
    (start tree (.absolute ⟨[]⟩) { followLinks := true }).value = .ok
      { following tree [rootFrame ["a", "z"]] [[]] with
        rootEntry := some ⟨⟨[]⟩, itemOf .root baseNode true, true⟩ } := by
  simp only [start, inspect, WalkRoot.path, tree.lookup_base, Noted.value_bind, following,
    rootFrame, ← has.namesInRoot]
  rfl

/-- The folder is entered along the link. -/
theorem value_next_link (has : HasLinkBefore tree) :
    (following tree [rootFrame ["a", "z"]] [[]]).next.value =
      (some (.ok ⟨⟨["a"]⟩, itemOf (.join .root "a") ⟨.link "z", ⟨0⟩⟩ true, false⟩),
        following tree [linkFrame ["x"], rootFrame ["z"]] [["z"], []]) := by
  have first : nextName? [rootFrame ["a", "z"]] =
      some (⟨["a"]⟩, .join .root "a", [rootFrame ["z"]]) := rfl
  have inspected : (following tree [rootFrame ["z"]] [[]]).inspect ⟨["a"]⟩ =
      .ok (⟨.link "z", ⟨0⟩⟩, some ["z"]) := by
    simp only [inspect, following, has.lookup_link, has.lookup_target]
    rfl
  rw [value_next_of_visit rfl rfl first (value_visit inspected _), linkFrame, ← has.namesInFolder]
  rfl

theorem value_next_file (has : HasLinkBefore tree) :
    (following tree [linkFrame ["x"], rootFrame ["z"]] [["z"], []]).next.value =
      (some (.ok ⟨⟨["z", "x"]⟩, itemOf (.join (.join .root "a") "x") ⟨.file 1, ⟨0⟩⟩ false, false⟩),
        following tree [linkFrame [], rootFrame ["z"]] [["z"], []]) := by
  have first : nextName? [linkFrame ["x"], rootFrame ["z"]] =
      some (⟨["z", "x"]⟩, .join (.join .root "a") "x", [linkFrame [], rootFrame ["z"]]) := rfl
  have inspected : (following tree [linkFrame [], rootFrame ["z"]] [["z"], []]).inspect
      ⟨["z", "x"]⟩ = .ok (⟨.file 1, ⟨0⟩⟩, none) := by
    simp only [inspect, following, has.lookup_file]
  rw [value_next_of_visit rfl rfl first (value_visit inspected _)]
  rfl

/-- The folder has been entered before the walk comes to it, so it is left bare. -/
theorem value_next_folder (has : HasLinkBefore tree) :
    (following tree [linkFrame [], rootFrame ["z"]] [["z"], []]).next.value =
      (some (.ok ⟨⟨["z"]⟩, itemOf (.join .root "z") baseNode true, false⟩),
        following tree [rootFrame []] [["z"], []]) := by
  have first : nextName? [linkFrame [], rootFrame ["z"]] =
      some (⟨["z"]⟩, .join .root "z", [rootFrame []]) := rfl
  have inspected : (following tree [rootFrame []] [["z"], []]).inspect ⟨["z"]⟩ =
      .ok (baseNode, some ["z"]) := by
    simp only [inspect, following, has.lookup_folder]
    rfl
  rw [value_next_of_visit rfl rfl first (value_visit inspected _)]
  rfl

/-- A walk that follows the link lists the file below the link. -/
theorem collect_following (has : HasLinkBefore tree) :
    collect tree (.absolute ⟨[]⟩) { followLinks := true } = .ok
      [⟨⟨[]⟩, itemOf .root baseNode true, true⟩,
       ⟨⟨["a"]⟩, itemOf (.join .root "a") ⟨.link "z", ⟨0⟩⟩ true, false⟩,
       ⟨⟨["z", "x"]⟩, itemOf (.join (.join .root "a") "x") ⟨.file 1, ⟨0⟩⟩ false, false⟩,
       ⟨⟨["z"]⟩, itemOf (.join .root "z") baseNode true, false⟩] :=
  collect_of_yields has.value_start_following (.cons (value_next_of_rootEntry rfl rfl)
    (.cons has.value_next_link (.cons has.value_next_file
      (.cons has.value_next_folder (.nil rfl)))))

end HasLinkBefore

/-- Two walks past a link to a folder that comes later, the second of which follows the link. -/
theorem collect_past_link :
    ∃ tree listed entries,
      FileTree.ofNodes? "/base" [("z/x", ⟨.file 1, ⟨0⟩⟩), ("a", ⟨.link "z", ⟨0⟩⟩)] = some tree ∧
      collect tree (.absolute ⟨[]⟩) {} = .ok listed ∧
      collect tree (.absolute ⟨[]⟩) { followLinks := true } = .ok entries ∧
      listed.map (·.item.path.segments) = [[], ["a"], ["z"], ["z", "x"]] ∧
      entries.map (·.item.path.segments) = [[], ["a"], ["a", "x"], ["z"]] := by
  obtain ⟨tree, built, has, names⟩ := exists_hasLinkBefore
  have plain := @collect_unfollowed tree {} (.absolute ⟨[]⟩) _ _ rfl (tree.lookup_base false)
  refine ⟨tree, _, _, built, plain, has.collect_following, ?_, by decide +kernel⟩
  rw [List.map_map]
  exact names

/-- Following a link to a folder that comes later takes a path away. -/
theorem not_kept_past_link :
    ∃ tree listed entries,
      FileTree.ofNodes? "/base" [("z/x", ⟨.file 1, ⟨0⟩⟩), ("a", ⟨.link "z", ⟨0⟩⟩)] = some tree ∧
      collect tree (.absolute ⟨[]⟩) {} = .ok listed ∧
      collect tree (.absolute ⟨[]⟩) { followLinks := true } = .ok entries ∧
      ∃ entry ∈ listed, ∀ same ∈ entries, same.item.path ≠ entry.item.path := by
  obtain ⟨tree, listed, entries, built, plain, followed, names, followNames⟩ := collect_past_link
  refine ⟨tree, listed, entries, built, plain, followed, ?_⟩
  have member : ["z", "x"] ∈ listed.map (·.item.path.segments) := by rw [names]; decide
  obtain ⟨entry, entryListed, entryNames⟩ := List.mem_map.1 member
  refine ⟨entry, entryListed, fun same sameListed samePath => ?_⟩
  have followMember : same.item.path.segments ∈ entries.map (·.item.path.segments) :=
    List.mem_map_of_mem sameListed
  rw [samePath, entryNames, followNames] at followMember
  revert followMember
  decide

/-- The entries of such walks are kept or displaced. -/
theorem kept_or_displaced_past_link :
    ∃ tree listed entries,
      FileTree.ofNodes? "/base" [("z/x", ⟨.file 1, ⟨0⟩⟩), ("a", ⟨.link "z", ⟨0⟩⟩)] = some tree ∧
      collect tree (.absolute ⟨[]⟩) {} = .ok listed ∧
      collect tree (.absolute ⟨[]⟩) { followLinks := true } = .ok entries ∧
      ∀ entry ∈ listed,
        (∃ found, tree.lookup false entry.path = .ok found ∧
          ∃ same ∈ entries, tree.lookup false same.path = .ok found) ∧
        ((∃ same ∈ entries, same.spot = entry.spot) ∨
          ∃ link folder, Displaces tree entries link folder ∧
            (∃ own ∈ listed, own.spot = folder.spot) ∧ LiesInside tree entry folder) := by
  obtain ⟨tree, listed, entries, built, plain, followed, -⟩ := collect_past_link
  exact ⟨tree, listed, entries, built, plain, followed,
    @kept_or_displaced_collect tree {} (.absolute ⟨[]⟩) entries listed plain followed⟩

end Walker

end Winnow
