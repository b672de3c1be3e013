import Winnow.Proofs.EntryList
import Winnow.Proofs.Walk.Exploration
import Winnow.Proofs.Walk.Listing

/-!
# Collected walks

`collect` is what a walk comes to when its entries are all wanted: the whole list of them, or the
error that the walk has met instead. A collected walk has ended, because no walk has more entries
than its steps allow. So its account is complete (`exists_explored_of_collect`), and one that
follows no links has collected its listing (`exists_listing_of_collect`).
-/

namespace Winnow

variable {tree : FileTree} {settings : WalkSettings} {source : WalkRoot} {path : HostPath}
  {location below : Location} {node other : Node} {name : String} {folder? : Option Location}
  {entries : List WalkEntry}

/-- The names below a folder lead to what is there, from whatever path leads to the folder. -/
theorem FileTree.lookup_descend (resolved : tree.resolve true path = .ok location)
    (isFolder : tree.isFolder location = true) (belowFolder : below ≠ [])
    (found : tree.node? (location ++ below) = some node) :
    tree.lookup false (path.descend below) = .ok (location ++ below, node) := by
  induction below using List.reverseRecOn generalizing node with
  | nil => exact absurd rfl belowFolder
  | append_singleton names name inductionHypothesis =>
      rw [HostPath.descend_concat, ← List.append_assoc]
      rw [← List.append_assoc] at found
      by_cases empty : names = []
      · subst empty
        rw [List.append_nil] at found ⊢
        exact lookup_child isFolder resolved found
      · have present := (mem_iff_exists_node? (by simp)).2 ⟨node, found⟩
        have inFolder := isFolder_iff.2 (tree.parent _ name present)
        obtain ⟨above, lookedUp, -⟩ := (Option.any_eq_true ..).1 inFolder
        have stem := (lookup_eq_ok_iff.1 (inductionHypothesis empty lookedUp)).1
        exact lookup_child inFolder (resolve_of_isFolder inFolder stem) found

namespace Walker

/-- All entries of a walk; an error of the walk takes their place. -/
def collect (tree : FileTree) (source : WalkRoot) (settings : WalkSettings) :
    Except WalkError (List WalkEntry) := do
  (← (start tree source settings).value).steps.mapM Noted.value

/-- A walk has collected its entries when it starts and its steps yield them. -/
theorem collect_eq_ok_iff : collect tree source settings = .ok entries ↔
    ∃ walker, (start tree source settings).value = .ok walker ∧
      walker.steps.map Noted.value = entries.map .ok := by
  unfold collect
  cases started : (start tree source settings).value with
  | error error => exact ⟨nofun, nofun⟩
  | ok walker => 
      simp only [Except.ok.injEq, exists_eq_left']
      rw [← List.forall₂_eq_eq_eq, List.forall₂_map_left_iff, List.forall₂_map_right_iff]
      exact mapM_eq_ok_iff

/-- A walk that yields some entries and no error collects them. -/
theorem collect_of_yields {walker last : Walker}
    (started : (start tree source settings).value = .ok walker)
    (yields : Yields walker entries last) : collect tree source settings = .ok entries := by
  obtain ⟨node, folder?, -, explored⟩ := explored_start started
  have sameTree := explored.sameTree
  obtain ⟨openings, -, explored⟩ := explored.of_ends yields.ends
  -- The account bounds the entries, so the limit cuts none of them off.
  have bound := explored.length_le
  rw [List.nil_append] at bound
  refine collect_eq_ok_iff.2 ⟨walker, started, ?_⟩
  rw [steps, sameTree, yields.values_stepsWithin, List.take_of_length_le (by omega)]

/-- A walk that starts at a folder finds it there. -/
theorem eq_some_of_inspect
    (inspected : ({ tree, settings } : Walker).inspect path = .ok (node, folder?))
    (found : tree.lookup false path = .ok (location, other)) (isFolder : other.isFolder = true) :
    folder? = some location := by
  have opens := @opening?_of_isFolder tree settings (path, .root) location other found isFolder
  have same := @opening?_of_inspect path .root { tree, settings } node folder? inspected
  rw [opens] at same
  obtain ⟨folder, rfl, entered⟩ := Option.map_eq_some_iff.1 same.symm
  exact congrArg (some ∘ Opening.location) entered

/-- At the end of a walk that has collected its entries, the account of them holds. -/
theorem exists_explored_of_collect (collected : collect tree source settings = .ok entries) :
    ∃ node isFolder openings last,
      (∀ location found, tree.lookup false source.path = .ok (location, found) →
        found.isFolder = true → ⟨location, source.path, .root⟩ ∈ openings) ∧
      Explored tree settings ⟨source.path, itemOf .root node isFolder, true⟩ openings entries
        last ∧ last.next.value.1 = none := by
  obtain ⟨walker, started, values⟩ := collect_eq_ok_iff.1 collected
  obtain ⟨node, folder?, inspected, explored⟩ := explored_start started
  have noError : ∀ error, .error error ∉ walker.steps.map Noted.value := by
    rw [values]
    exact fun error member => nomatch (List.mem_map.1 member)
  have sameTree := explored.sameTree
  rw [steps, sameTree] at noError
  obtain ⟨later, last, yields⟩ := explored.exists_yields noError (Nat.le_add_left ..)
  obtain ⟨openings, kept, explored⟩ := explored.of_ends yields.ends
  rw [List.nil_append] at explored
  obtain rfl := Except.ok.inj (collected.symm.trans (collect_of_yields started yields))
  refine ⟨node, folder?.isSome, openings, last, fun location found lookedUp isFolder => ?_, explored,
    yields.ended⟩
  obtain rfl := eq_some_of_inspect inspected lookedUp isFolder
  exact kept List.mem_cons_self

/-- A walk that starts where something is and follows no links collects the locations of its
listing. -/
theorem collect_unfollowed (unfollowed : settings.followLinks = false)
    (found : tree.lookup false source.path = .ok (location, node)) :
    collect tree source settings =
      .ok ((listing tree settings location).map (entryAt tree source.path location)) := by
  obtain ⟨walker, started, sameTree, values⟩ := exists_values_start unfollowed found
  refine collect_eq_ok_iff.2 ⟨walker, started, ?_⟩
  rw [steps, sameTree, values, List.take_of_length_le (length_listing_le ..), List.map_map]
  rfl

/-- What a walk that follows no links has collected are the locations of its listing. -/
theorem exists_listing_of_collect (unfollowed : settings.followLinks = false)
    (collected : collect tree source settings = .ok entries) :
    ∃ location node, tree.lookup false source.path = .ok (location, node) ∧
      entries = (listing tree settings location).map (entryAt tree source.path location) := by
  obtain ⟨walker, started, -⟩ := collect_eq_ok_iff.1 collected
  cases found : tree.lookup false source.path with
  | error error =>
      simp only [start, found, Noted.value_bind] at started
      cases started
  | ok result =>
      obtain ⟨location, node⟩ := result
      have same := collected.symm.trans (collect_unfollowed unfollowed found)
      exact ⟨location, node, rfl, Except.ok.inj same⟩

/-- Where no name holds a backslash such a walk has collected all that it should. -/
theorem exists_collect (found : tree.lookup false source.path = .ok (location, node))
    (unfollowed : settings.followLinks = false) (plain : tree.IsPlainBelow location) :
    ∃ entries, collect tree source settings = .ok entries ∧
      IsListing tree settings location entries :=
  ⟨_, collect_unfollowed unfollowed found,
    isListing_entries plain source.path (FileTree.lookup_eq_ok_iff.1 found).2⟩

/-- A walk that lists something lists the folders above it, down from its root. -/
theorem mem_listing_of_append {up rest : Location} (upBelow : up ≠ [])
    (shown : location ++ (up ++ rest) ∈ listing tree settings location) :
    location ++ up ∈ listing tree settings location := by
  rw [append_mem_listing, if_neg (by simp [upBelow])] at shown
  rw [append_mem_listing, if_neg upBelow]
  obtain ⟨present, deep⟩ := shown
  refine ⟨FileTree.mem_of_prefix present ?_ (by simp [upBelow]), deep.imp_right fun shallow => ?_⟩
  · exact (List.prefix_append_right_inj _).2 (List.prefix_append ..)
  · rw [List.length_append] at shallow
    omega

/-- What a walk lists lies in folders, down from its root. -/
theorem isFolder_of_mem_listing
    (shown : location ++ (below ++ [name]) ∈ listing tree settings location) :
    tree.isFolder (location ++ below) = true := by
  rw [append_mem_listing, if_neg (by simp), ← List.append_assoc] at shown
  exact FileTree.isFolder_of_append_mem shown.1 (List.cons_ne_nil name [])

/-- A listed location is where the names lead from the root's path. -/
theorem lookup_of_mem_listing (found : tree.lookup false path = .ok (location, node))
    (shown : location ++ below ∈ listing tree settings location) :
    ∃ thing, tree.lookup false (path.descend below) = .ok (location ++ below, thing) := by
  obtain ⟨resolved, lookedUp⟩ := FileTree.lookup_eq_ok_iff.1 found
  obtain ⟨thing, thingFound⟩ := exists_node?_of_listed lookedUp shown
  refine ⟨thing, ?_⟩
  rcases List.eq_nil_or_concat' below with rfl | ⟨names, name, rfl⟩
  · rw [List.append_nil] at thingFound ⊢
    exact FileTree.lookup_eq_ok_iff.2 ⟨resolved, thingFound⟩
  · have rootFolder :=
      FileTree.isFolder_of_prefix (isFolder_of_mem_listing shown) (List.prefix_append ..)
    have followed := FileTree.resolve_of_isFolder rootFolder resolved
    exact FileTree.lookup_descend followed rootFolder (by simp) thingFound

end Walker

end Winnow
