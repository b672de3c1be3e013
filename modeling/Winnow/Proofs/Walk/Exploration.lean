import Winnow.Proofs.Walk.Entering
import Mathlib.Data.List.Flatten
import Mathlib.Data.List.Perm.Lattice

/-!
# Entered folders

A walk that follows links may come to one folder along several ways. It enters the folder along the
first of them, and what the folder contains is listed at the place to which that way leads.
`Explored` is the account of a walk in terms of the folders that it has entered: what it has listed
and what it still has at hand are together what these folders contain, each thing once. The account
holds from the start of a walk on (`explored_start`), whether or not links are followed, and every
step keeps it (`Explored.next`), so it holds at the end of the walk (`Explored.of_ends`). It bounds
the number of steps, so a walk that meets no error ends within its limit with nothing left at hand
(`Explored.exists_yields`).
-/

namespace Winnow

/-- The locations of what an opening contains. -/
def Opening.locations (tree : FileTree) (opening : Opening) : List Location :=
  (tree.names opening.location).map fun name => opening.location ++ [name]

/-- Where a spot is in the tree; a link there is left alone. -/
def FileTree.standing? (tree : FileTree) (spot : Spot) : Option Location :=
  (tree.resolve false spot.1).toOption

/-- The spots inside of an opening stand at the locations of what it contains. -/
theorem Opening.Leads.map_standing_spots {tree : FileTree} {opening : Opening}
    (leads : opening.Leads tree) :
    (opening.frame tree).spots.map tree.standing? = (opening.locations tree).map some := by
  rw [Frame.spots, List.map_map, Opening.locations, List.map_map]
  refine List.map_congr_left fun name named => ?_
  obtain ⟨node, -, found⟩ := leads.lookup_child named
  change (tree.resolve false (opening.path.child name)).toOption = _
  rw [(FileTree.lookup_eq_ok_iff.1 found).1]
  rfl

/-- The spots inside of an opening are at the locations of what it contains. -/
theorem Opening.Leads.standing_spots {tree : FileTree} {opening : Opening}
    (leads : opening.Leads tree) :
    (opening.frame tree).spots.filterMap tree.standing? = opening.locations tree := by
  have located := congrArg (List.filterMap id) leads.map_standing_spots
  rwa [List.filterMap_map, List.filterMap_map, Function.id_comp, Function.id_comp,
    List.filterMap_some] at located

namespace Walker

variable {tree : FileTree} {settings : WalkSettings} {source : WalkRoot} {walker after : Walker}
  {location : Location} {node : Node} {name : String} {opening : Opening}
  {root entry earlier later : WalkEntry} {openings : List Opening} {entries : List WalkEntry}
  {stack : List Frame} {last : Walker}

/-- A walk has entered the folder to which an entry leads: along the entry itself, with the walk's
root, or along something that it had listed before the entry. -/
def HasEntered (tree : FileTree) (settings : WalkSettings) (root : WalkEntry)
    (openings : List Opening) (entries : List WalkEntry) (entry : WalkEntry)
    (opening : Opening) : Prop :=
  opening ∈ openings ∨
    ∃ known ∈ openings, known.location = opening.location ∧
      ((known.path, known.place) = root.spot ∨
        ∃ earlier, [earlier, entry].Sublist entries ∧
          opening? tree settings earlier.spot = some known)

/-- What has been entered stays so. -/
theorem HasEntered.mono {others : List Opening} {longer : List WalkEntry}
    (hasEntered : HasEntered tree settings root openings entries entry opening)
    (openingsKept : openings ⊆ others) (entriesKept : entries.Sublist longer) :
    HasEntered tree settings root others longer entry opening := by
  rcases hasEntered with itself | ⟨known, entered, same, atRoot | ⟨earlier, before, opens⟩⟩
  · exact .inl (openingsKept itself)
  · exact .inr ⟨known, openingsKept entered, same, .inl atRoot⟩
  · exact .inr ⟨known, openingsKept entered, same, .inr ⟨earlier, before.trans entriesKept, opens⟩⟩

/-- A walk that has entered some folders and listed some entries. The names inside of the entered
folders are those that it has listed and those that it has at hand. -/
structure Explored (tree : FileTree) (settings : WalkSettings) (root : WalkEntry)
    (openings : List Opening) (entries : List WalkEntry) (walker : Walker) : Prop where
  sameTree : walker.tree = tree
  sameSettings : walker.settings = settings
  unfinished : walker.finished = false
  visited : walker.visited = openings.map Opening.location
  distinct : (openings.map Opening.location).Nodup
  leads : ∀ opening ∈ openings, opening.Leads tree
  isRoot : root.isRoot = true
  roots : entries.filter (·.isRoot) ++ walker.rootEntry.toList =
    if settings.includeRoot then [root] else []
  spots : ((entries.filter (!·.isRoot)).map WalkEntry.spot ++
    walker.stack.flatMap Frame.spots).Perm
      (openings.flatMap fun opening => (opening.frame tree).spots)
  entrances : ∀ opening ∈ openings, (opening.path, opening.place) = root.spot ∨
    ∃ entry ∈ entries, opening? tree settings entry.spot = some opening
  hasEntered : settings.recursive = true → ∀ entry ∈ entries, entry.isRoot = false →
    ∀ opening, opening? tree settings entry.spot = some opening →
      HasEntered tree settings root openings entries entry opening

namespace Explored

/-- A folder that has been entered before an entry was listed has been entered with the root or
along something listed before. -/
theorem hasEntered_of_mem_visited
    (explored : Explored tree settings root openings entries walker)
    (visited : opening.location ∈ walker.visited) (entry : WalkEntry) :
    HasEntered tree settings root openings (entries ++ [entry]) entry opening := by
  rw [explored.visited] at visited
  obtain ⟨known, entered, same⟩ := List.mem_map.1 visited
  refine .inr ⟨known, entered, same, ?_⟩
  rcases explored.entrances known entered with atRoot | ⟨earlier, listed, opens⟩
  · exact .inl atRoot
  · have before := (List.singleton_sublist.2 listed).append (List.Sublist.refl [entry])
    exact .inr ⟨earlier, before, opens⟩

/-- What has been entered was reached along entries, also once more entries are listed. -/
theorem entrances_concat (explored : Explored tree settings root openings entries walker)
    (entry : WalkEntry) :
    ∀ opening ∈ openings, (opening.path, opening.place) = root.spot ∨
      ∃ earlier ∈ entries ++ [entry], opening? tree settings earlier.spot = some opening := by
  intro opening entered
  rcases explored.entrances opening entered with atRoot | ⟨earlier, listed, opens⟩
  · exact .inl atRoot
  · exact .inr ⟨earlier, List.mem_append_left _ listed, opens⟩

/-- Earlier entries and the latest one lead into folders that have been entered. -/
theorem hasEntered_concat {others : List Opening}
    (explored : Explored tree settings root openings entries walker) (kept : openings ⊆ others)
    (latest : settings.recursive = true → entry.isRoot = false → ∀ opening,
      opening? tree settings entry.spot = some opening →
        HasEntered tree settings root others (entries ++ [entry]) entry opening) :
    settings.recursive = true → ∀ earlier ∈ entries ++ [entry], earlier.isRoot = false →
      ∀ opening, opening? tree settings earlier.spot = some opening →
        HasEntered tree settings root others (entries ++ [entry]) earlier opening := by
  intro recursive earlier listed below opening opens
  rcases List.mem_append.1 listed with before | last
  · have entered := explored.hasEntered recursive earlier before below opening opens
    exact entered.mono kept (List.sublist_append_left ..)
  · obtain rfl := List.mem_singleton.1 last
    exact latest recursive below opening opens

/-- An entry inside of the root moves its spot from those at hand to those listed. -/
theorem spots_concat {frames : List Frame}
    (first : nextName? stack = some (entry.path, entry.item.path, frames))
    (below : entry.isRoot = false) :
    ((entries ++ [entry]).filter (!·.isRoot)).map WalkEntry.spot ++ frames.flatMap Frame.spots =
      (entries.filter (!·.isRoot)).map WalkEntry.spot ++ stack.flatMap Frame.spots := by
  rw [spots_of_nextName? first, List.filter_append, List.map_append, List.append_assoc]
  simp [below, WalkEntry.spot]

/-- An entry inside of the root is no root. -/
theorem roots_concat (below : entry.isRoot = false) :
    (entries ++ [entry]).filter (·.isRoot) = entries.filter (·.isRoot) := by
  simp [below]

/-- A step that lists an entry keeps the account. -/
theorem next (explored : Explored tree settings root openings entries walker)
    (step : Step walker entry after) :
    ∃ others, openings ⊆ others ∧ Explored tree settings root others (entries ++ [entry]) after := by
  have kept : openings ⊆ openings := List.Subset.refl openings
  have entrances := explored.entrances_concat entry
  have roots := explored.roots
  have spots := explored.spots
  obtain ⟨rfl, rfl, unfinished, visited, distinct, leads, isRoot, -, -, -, -⟩ := id explored
  cases step with
  | root held =>
      -- The root's entry is the only one that can be held, and nothing else was a root before.
      rw [held, Option.toList_some] at roots
      obtain ⟨noneBefore, rfl⟩ : entries.filter (·.isRoot) = [] ∧ entry = root := by
        split at roots
        · have only := (List.append_eq_singleton_iff.1 roots).resolve_right (by simp)
          exact only.imp_right (by simp)
        · simp at roots
      refine ⟨openings, kept, rfl, rfl, unfinished, visited, distinct, leads, isRoot, ?_, ?_,
        entrances, explored.hasEntered_concat kept fun _ below => ?_⟩
      · rw [← roots, List.filter_append, noneBefore]
        simp [isRoot]
      · rw [List.filter_append]
        simpa [isRoot] using spots
      · exact absurd (isRoot.symm.trans below) (by decide)
  | inside noRootEntry below first closed =>
      rw [← spots_concat first below] at spots
      rw [← roots_concat below] at roots
      refine ⟨openings, kept, rfl, rfl, unfinished, visited, distinct, leads, isRoot, roots, spots,
        entrances, explored.hasEntered_concat kept fun recursive _ opening opens => ?_⟩
      rcases closed with shallow | known
      · exact absurd (shallow.symm.trans recursive) (by decide)
      · exact explored.hasEntered_of_mem_visited (known opening opens) entry
  | @entered frames opening noRootEntry below first opens unvisited =>
      rw [← spots_concat first below] at spots
      rw [← roots_concat below] at roots
      rw [visited] at unvisited
      refine ⟨opening :: openings, List.subset_cons_self .., rfl, rfl, unfinished, ?_, ?_, ?_,
        isRoot, roots, ?_, ?_, explored.hasEntered_concat (List.subset_cons_self ..) ?_⟩
      · rw [List.map_cons, visited]
      · exact List.nodup_cons.2 ⟨unvisited, distinct⟩
      · exact List.forall_mem_cons.2 ⟨leads_of_opening? opens, leads⟩
      · rw [List.flatMap_cons, List.flatMap_cons]
        exact (List.perm_append_comm_assoc ..).trans (spots.append_left _)
      · refine List.forall_mem_cons.2 ⟨.inr ⟨entry, ?_, opens⟩, entrances⟩
        exact List.mem_append_right _ (List.mem_singleton_self entry)
      · intro _ _ other otherOpens
        obtain rfl := Option.some.inj (opens.symm.trans otherOpens)
        exact .inl List.mem_cons_self

end Explored

/-- A stack with nothing at hand yields no name. -/
theorem nextName?_eq_none_iff : nextName? stack = none ↔ stack.flatMap Frame.spots = [] := by
  constructor
  · exact spots_of_nextName?_eq_none
  · intro nothing
    cases first : nextName? stack with
    | none => rfl
    | some named =>
        rw [spots_of_nextName? first] at nothing
        cases nothing

/-- A walk that has met no error ends when nothing is left to be listed. -/
theorem value_next_eq_none_iff (unfinished : walker.finished = false) :
    walker.next.value.1 = none ↔
      walker.rootEntry = none ∧ walker.stack.flatMap Frame.spots = [] := by
  rw [← nextName?_eq_none_iff]
  cases held : walker.rootEntry with
  | some entry => simp [value_next_of_rootEntry unfinished held]
  | none =>
      cases first : nextName? walker.stack with
      | none => simp [next, unfinished, held, first]
      | some named =>
          obtain ⟨path, place, frames⟩ := named
          simp [value_next_of_visit unfinished held first rfl]

/-- Folders at different locations contain nothing in common. -/
theorem nodup_locations (distinct : (openings.map Opening.location).Nodup) :
    (openings.flatMap (Opening.locations tree)).Nodup := by
  refine List.nodup_flatMap.2 ⟨fun opening _ => ?_, ?_⟩
  · refine List.Nodup.map (fun name other same => ?_) (tree.nodup_names opening.location)
    exact List.singleton_inj.1 (List.append_cancel_left same)
  · refine (List.pairwise_map.1 distinct).imp fun different => ?_
    refine List.disjoint_left.2 fun location first second => different ?_
    obtain ⟨name, -, rfl⟩ := List.mem_map.1 first
    obtain ⟨other, -, same⟩ := List.mem_map.1 second
    exact (List.append_inj' same rfl).1.symm

/-- Where something is found, there it stands. -/
theorem standing?_of_lookup (found : tree.lookup false entry.path = .ok (location, node)) :
    tree.standing? entry.spot = some location := by
  change (tree.resolve false entry.path).toOption = some location
  rw [(FileTree.lookup_eq_ok_iff.1 found).1]
  rfl

namespace Explored

/-- What a walk has listed inside of its root and what it has at hand are at the locations of what
the entered folders contain. -/
theorem standing (explored : Explored tree settings root openings entries walker) :
    (((entries.filter (!·.isRoot)).map WalkEntry.spot ++
      walker.stack.flatMap Frame.spots).filterMap tree.standing?).Perm
        (openings.flatMap (Opening.locations tree)) := by
  refine (explored.spots.filterMap _).trans (.of_eq ?_)
  rw [List.filterMap_flatMap]
  exact List.flatMap_congr fun opening entered => (explored.leads opening entered).standing_spots

/-- A walk has listed and has at hand no more than its steps allow. -/
theorem length_le (explored : Explored tree settings root openings entries walker) :
    entries.length + walker.rootEntry.toList.length + (walker.stack.flatMap Frame.spots).length ≤
      stepLimit tree := by
  have roots := congrArg List.length explored.roots
  have atMostRoot : (if settings.includeRoot then [root] else []).length ≤ 1 := by
    split <;> simp
  have spots := explored.spots.length_eq
  have within : (openings.flatMap (Opening.locations tree)).length ≤ tree.nodes.size := by
    rw [← Std.ExtTreeMap.length_keys]
    refine (List.subperm_of_subset (nodup_locations explored.distinct) ?_).length_le
    intro location contained
    obtain ⟨opening, -, inside⟩ := List.mem_flatMap.1 contained
    obtain ⟨name, named, rfl⟩ := List.mem_map.1 inside
    exact Std.ExtTreeMap.mem_keys.2 (FileTree.mem_names.1 named)
  have same : (openings.flatMap fun opening => (opening.frame tree).spots).length =
      (openings.flatMap (Opening.locations tree)).length := by
    simp only [List.length_flatMap, Frame.spots, Opening.frame, Opening.locations, List.length_map]
  have parts := List.length_eq_length_filter_add (l := entries) (·.isRoot)
  simp only [List.length_append, List.length_map] at roots spots
  rw [stepLimit]
  omega

/-- A walk that may take no more steps has nothing left to be listed. -/
theorem next_eq_none (explored : Explored tree settings root openings entries walker)
    (exhausted : stepLimit tree ≤ entries.length) : walker.next.value.1 = none := by
  have bound := explored.length_le
  refine (value_next_eq_none_iff explored.unfinished).2 ⟨?_, ?_⟩
  · exact Option.toList_eq_nil_iff.1 (List.eq_nil_of_length_eq_zero (by omega))
  · exact List.eq_nil_of_length_eq_zero (by omega)

end Explored

/-- A walk lists some entries and then comes to its end, with or without an error. The last walker
is the one before the call that ends the walk. -/
inductive Ends : Walker → List WalkEntry → Option WalkError → Walker → Prop where
  /-- There is nothing left. -/
  | exhausted {walker : Walker} (ended : walker.next.value.1 = none) : Ends walker [] none walker
  /-- What comes next cannot be inspected. -/
  | failed {walker : Walker} {error : WalkError}
      (failed : walker.next.value.1 = some (.error error)) : Ends walker [] (some error) walker
  /-- There is an entry to be listed before. -/
  | cons {walker after last : Walker} {entry : WalkEntry} {later : List WalkEntry}
      {error? : Option WalkError} (step : walker.next.value = (some (.ok entry), after))
      (rest : Ends after later error? last) : Ends walker (entry :: later) error? last

/-- What the call that ends a walk answers. -/
theorem Ends.answer_last {error? : Option WalkError} (ends : Ends walker entries error? last) :
    last.next.value.1 = error?.map .error := by
  induction ends with
  | exhausted ended => exact ended
  | failed failed => exact failed
  | cons step rest inductionHypothesis => exact inductionHypothesis

/-- A walk lists some entries, meets no error and then ends. -/
inductive Yields : Walker → List WalkEntry → Walker → Prop where
  | nil {walker : Walker} (ended : walker.next.value.1 = none) : Yields walker [] walker
  | cons {walker after last : Walker} {entry : WalkEntry} {later : List WalkEntry}
      (step : walker.next.value = (some (.ok entry), after)) (rest : Yields after later last) :
      Yields walker (entry :: later) last

/-- Such a walk comes to its end. -/
theorem Yields.ends (yields : Yields walker entries last) : Ends walker entries none last := by
  induction yields with
  | nil ended => exact .exhausted ended
  | cons step rest inductionHypothesis => exact .cons step inductionHypothesis

/-- The walk that is left has ended. -/
theorem Yields.ended (yields : Yields walker entries last) : last.next.value.1 = none :=
  yields.ends.answer_last

/-- The steps of such a walk list its entries, however many steps are allowed. -/
theorem Yields.values_stepsWithin (yields : Yields walker entries last) (limit : Nat) :
    (walker.stepsWithin limit).map Noted.value = (entries.take limit).map .ok := by
  induction yields generalizing limit with
  | nil ended => rw [stepsWithin_of_ended ended, List.take_nil, List.map_nil, List.map_nil]
  | cons step rest inductionHypothesis =>
      cases limit with
      | zero => rfl
      | succ limit =>
          rw [values_stepsWithin_succ step, inductionHypothesis, List.take_succ_cons,
            List.map_cons]

namespace Explored

/-- The account holds when a walk comes to its end. -/
theorem of_ends {later : List WalkEntry} {error? : Option WalkError}
    (explored : Explored tree settings root openings entries walker)
    (ends : Ends walker later error? last) :
    ∃ others, openings ⊆ others ∧ Explored tree settings root others (entries ++ later) last := by
  induction ends generalizing openings entries with
  | exhausted | failed => exact ⟨openings, List.Subset.refl _, by rwa [List.append_nil]⟩
  | @cons walker after last entry later error? step rest inductionHypothesis =>
      obtain ⟨more, kept, explored⟩ := explored.next (step_of_next explored.unfinished step)
      obtain ⟨others, moreKept, explored⟩ := inductionHypothesis explored
      rw [List.append_assoc, List.singleton_append] at explored
      exact ⟨others, List.Subset.trans kept moreKept, explored⟩

/-- A walk that meets no error within its limit ends. -/
theorem exists_yields {limit : Nat}
    (explored : Explored tree settings root openings entries walker)
    (noError : ∀ error, .error error ∉ (walker.stepsWithin limit).map Noted.value)
    (enough : stepLimit tree ≤ entries.length + limit) : ∃ later last, Yields walker later last := by
  induction limit generalizing openings entries walker with
  | zero => exact ⟨[], walker, .nil (explored.next_eq_none enough)⟩
  | succ limit inductionHypothesis =>
      obtain ⟨⟨result?, after⟩, step⟩ : ∃ taken, walker.next.value = taken := ⟨_, rfl⟩
      cases result? with
      | none => exact ⟨[], walker, .nil (by rw [step])⟩
      | some result =>
          rw [values_stepsWithin_succ step] at noError
          cases result with
          | error error => exact absurd List.mem_cons_self (noError error)
          | ok entry =>
              obtain ⟨others, -, explored⟩ := explored.next (step_of_next explored.unfinished step)
              have noErrorLater := fun error => (List.not_mem_of_not_mem_cons (noError error))
              obtain ⟨later, last, rest⟩ := inductionHypothesis explored noErrorLater
                (by rw [List.length_append, List.length_singleton]; omega)
              exact ⟨entry :: later, last, .cons step rest⟩

/-- At its end a walk has listed exactly what the entered folders contain. -/
theorem spots_of_ended (explored : Explored tree settings root openings entries walker)
    (ended : walker.next.value.1 = none) :
    ((entries.filter (!·.isRoot)).map WalkEntry.spot).Perm
      (openings.flatMap fun opening => (opening.frame tree).spots) := by
  have nothing := ((value_next_eq_none_iff explored.unfinished).1 ended).2
  simpa only [nothing, List.append_nil] using explored.spots

/-- At its end a walk has listed its root if it was asked for. -/
theorem root_mem (explored : Explored tree settings root openings entries walker)
    (ended : walker.next.value.1 = none) (included : settings.includeRoot = true) :
    root ∈ entries := by
  have roots := explored.roots
  rw [((value_next_eq_none_iff explored.unfinished).1 ended).1, if_pos included,
    Option.toList_none, List.append_nil] at roots
  have listed : root ∈ entries.filter (·.isRoot) := by
    rw [roots]
    exact List.mem_singleton_self root
  exact List.mem_of_mem_filter listed

/-- What an entered folder contains is listed at the place by which the folder has been entered. -/
theorem exists_entry (explored : Explored tree settings root openings entries walker)
    (ended : walker.next.value.1 = none) (entered : opening ∈ openings)
    (named : name ∈ tree.names opening.location) :
    ∃ entry ∈ entries, entry.isRoot = false ∧
      entry.spot = (opening.path.child name, opening.place.join name) ∧
      ∃ node, tree.lookup false entry.path = .ok (opening.location ++ [name], node) := by
  have contained : (opening.path.child name, opening.place.join name) ∈
      openings.flatMap fun opening => (opening.frame tree).spots :=
    List.mem_flatMap.2 ⟨opening, entered, Opening.mem_spots_iff.2 ⟨name, named, rfl⟩⟩
  rw [← (explored.spots_of_ended ended).mem_iff] at contained
  obtain ⟨entry, listed, atSpot⟩ := List.mem_map.1 contained
  obtain ⟨member, below⟩ := List.mem_filter.1 listed
  obtain ⟨node, -, found⟩ := (explored.leads opening entered).lookup_child named
  have samePath : entry.path = opening.path.child name := congrArg Prod.fst atSpot
  exact ⟨entry, member, by simpa using below, atSpot, node, samePath ▸ found⟩

/-- The only root that a walk lists is its own. -/
theorem eq_root (explored : Explored tree settings root openings entries walker)
    (member : entry ∈ entries) (isRoot : entry.isRoot = true) : entry = root := by
  have listed : entry ∈ entries.filter (·.isRoot) ++ walker.rootEntry.toList :=
    List.mem_append_left _ (List.mem_filter.2 ⟨member, isRoot⟩)
  rw [explored.roots] at listed
  split at listed
  · exact List.mem_singleton.1 listed
  · cases listed

/-- Nothing inside of the root is listed twice. -/
theorem not_twice (explored : Explored tree settings root openings entries walker)
    (before : [earlier, later].Sublist entries) (earlierBelow : earlier.isRoot = false)
    (laterBelow : later.isRoot = false) (earlierAt : tree.standing? earlier.spot = some location) :
    tree.standing? later.spot ≠ some location := by
  intro laterAt
  have distinct := explored.standing.nodup_iff.2 (nodup_locations explored.distinct)
  have kept := ((before.filter (!·.isRoot)).map WalkEntry.spot).trans
    (List.sublist_append_left _ (walker.stack.flatMap Frame.spots))
  have twice := kept.filterMap tree.standing?
  have both : (([earlier, later].filter (!·.isRoot)).map WalkEntry.spot).filterMap tree.standing? =
      [location, location] := by
    simp [earlierBelow, laterBelow, earlierAt, laterAt]
  rw [both] at twice
  exact absurd (distinct.sublist twice) (by simp)

end Explored

/-- A walk starts with its root, and has entered it if there is a folder. -/
theorem explored_start (started : (start tree source settings).value = .ok walker) :
    ∃ node folder?, ({ tree, settings } : Walker).inspect source.path = .ok (node, folder?) ∧
      Explored tree settings ⟨source.path, itemOf .root node folder?.isSome, true⟩
        (folder?.toList.map fun folder => ⟨folder, source.path, .root⟩) [] walker := by
  simp only [start, Noted.value_bind] at started
  cases found : tree.lookup false source.path with
  | error error => rw [found] at started; cases started
  | ok result =>
      rw [found] at started
      dsimp only at started
      cases inspected : ({ tree, settings } : Walker).inspect source.path with
      | error error => rw [inspected] at started; cases started
      | ok result =>
          obtain ⟨node, folder?⟩ := result
          rw [inspected] at started
          refine ⟨node, folder?, rfl, ?_⟩
          cases folder? with
          | none =>
              cases started
              refine ⟨rfl, rfl, rfl, rfl, .nil, List.forall_mem_nil _, rfl, ?_, .nil,
                List.forall_mem_nil _, fun _ => List.forall_mem_nil _⟩
              cases settings.includeRoot <;> rfl
          | some folder =>
              have opens := @opening?_of_inspect source.path .root _ node (some folder) inspected
              obtain ⟨isFolder, resolved⟩ := resolve_of_opening? opens
              dsimp only [Noted.value_bind] at started
              rw [value_enter (List.not_mem_nil)] at started
              cases started
              refine ⟨rfl, rfl, rfl, rfl, List.nodup_singleton _, ?_, rfl, ?_, .of_eq rfl, ?_,
                fun _ => List.forall_mem_nil _⟩
              · exact List.forall_mem_singleton.2 ⟨isFolder, resolved⟩
              · cases settings.includeRoot <;> rfl
              · exact List.forall_mem_singleton.2 (.inl rfl)

end Walker

end Winnow
