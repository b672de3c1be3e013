import Winnow.Proofs.FilterSet.Compiled
import Winnow.Proofs.Materializer.Enumeration
import Winnow.Proofs.Pass.Completion
import Winnow.Proofs.Walk.Collection
import Winnow.TreeSource

/-!
# Tree sources as runs

A tree source takes the entries of a walk through a pass one by one. `value_run` says that this
comes to the same as collecting the walk first and running the pass over its items, whatever the
sink does. The items of a walk that follows no links are an enumeration (`isEnumeration_decideAll`).
-/

namespace Winnow

/-- An outcome with its error told in other terms. -/
def Outcome.mapError {ε δ : Type} (outcome : Outcome ε) (tell : ε → δ) : Outcome δ :=
  ⟨outcome.delivered, outcome.result.mapError tell⟩

namespace TreeSource

variable {source : TreeSource} {set : FilterSet} {entries : List WalkEntry}
  {steps : List (Noted (Except WalkError WalkEntry))}

/-- Feeding the entries of a walk to a pass is running the pass over their items. -/
theorem value_feed (walked : steps.map Noted.value = entries.map .ok) (pass : Pass) (sink : Sink)
    (delivered : List Record) :
    (source.feed pass sink delivered steps).value =
      (pass.runFrom sink delivered (entries.map WalkEntry.item)).value.mapError .pass := by
  induction steps generalizing entries pass delivered with
  | nil =>
      obtain rfl : entries = [] := List.map_eq_nil_iff.1 walked.symm
      rw [feed, List.map_nil, Pass.runFrom, Noted.value_bind]
      generalize (pass.close sink delivered).value = closed
      obtain ⟨records, result⟩ := closed
      cases result with
      | error error => rfl
      | ok summary => rfl
  | cons step steps inductionHypothesis =>
      cases entries with
      | nil => cases walked
      | cons entry entries =>
          obtain ⟨first, others⟩ := List.cons.inj walked
          rw [feed, List.map_cons, Pass.runFrom, Noted.value_bind, Noted.value_bind, first]
          dsimp only
          rw [Noted.value_bind]
          generalize (pass.push entry.item).value = answer
          obtain ⟨result, next⟩ := answer
          cases result with
          | error error => rfl
          | ok records => exact inductionHypothesis others _ _

/-- A run over a tree source is a run of a fresh pass over the items of the walk. -/
theorem value_run (compiles : FilterSet.outcome (FilterSet.compile source.options) = .ok set)
    (walked : Walker.collect source.tree source.root (settings set) = .ok entries) (sink : Sink) :
    (source.run sink).value =
      ((Pass.new set source.folderAware source.token).value.run sink
        (entries.map WalkEntry.item)).value.mapError .pass := by
  obtain ⟨walker, started, values⟩ := Walker.collect_eq_ok_iff.1 walked
  have compiled : (FilterSet.compile source.options).run.value = .ok set := compiles
  rw [run, Noted.value_bind, compiled]
  dsimp only
  rw [Noted.value_bind, started]
  exact value_feed values _ sink []

end TreeSource

namespace Walker

open History

variable {tree : FileTree} {settings : WalkSettings} {root : Location} {entries : List WalkEntry}
  {entry : WalkEntry} {folder : RelPath}

namespace IsListing

/-- The folders above a listed place are listed, as folders. -/
theorem exists_of_mem_ancestors (listing : IsListing tree settings root entries)
    (listed : entry ∈ entries) (above : folder ∈ entry.item.path.ancestors) :
    ∃ upper ∈ entries, upper.item.path = folder ∧ upper.item.isFolder = true := by
  have shallower := RelPath.depth_lt_of_mem_ancestors above
  obtain ⟨folderBelow, different, rest, extended⟩ := RelPath.mem_ancestors_iff.1 above
  have notRoot : ∀ {path : RelPath}, path ≠ .root → path.isRoot ≠ true :=
    fun below isRoot => below (RelPath.isRoot_iff.1 isRoot)
  have entryBelow : entry.item.path ≠ .root := by
    intro atRoot
    rw [atRoot, RelPath.segments_root] at extended
    exact folderBelow (RelPath.ext (List.append_eq_nil_iff.1 extended).1)
  have restBelow : rest ≠ [] := by
    rintro rfl
    rw [List.append_nil] at extended
    exact different (RelPath.ext extended)
  have shown := (listing.complete entry.item.path).1 ⟨entry, listed, rfl⟩
  rw [if_neg (notRoot entryBelow), ← extended, ← List.append_assoc] at shown
  obtain ⟨present, deep⟩ := shown
  have folderPresent := FileTree.mem_of_prefix present (List.prefix_append ..)
    (List.append_ne_nil_of_right_ne_nil root fun empty => folderBelow (RelPath.ext empty))
  obtain ⟨upper, upperListed, rfl⟩ := (listing.complete folder).2 (by
    rw [if_neg (notRoot folderBelow)]
    exact ⟨folderPresent, deep.imp_right fun shallow => by omega⟩)
  obtain ⟨node, found, item, -⟩ := listing.faithful upper upperListed
  have isFolder := FileTree.isFolder_of_append_mem present restBelow
  rw [FileTree.isFolder_of_node? found] at isFolder
  exact ⟨upper, upperListed, rfl, by rw [item, isFolder_itemOf, isFolder]⟩

/-- Each place is listed once. -/
theorem nodup_paths (listing : IsListing tree settings root entries) :
    (entries.map (·.item.path)).Nodup := by
  refine List.pairwise_map.2 (listing.increasing.imp fun before same => ?_)
  rw [same, Std.ReflOrd.compare_self] at before
  cases before

/-- The items of a listing are an enumeration, whatever is decided about them. -/
theorem isEnumeration_decideAll (listing : IsListing tree settings root entries) (set : FilterSet) :
    IsEnumeration (set.decideAll (entries.map WalkEntry.item)) where
  distinct := by
    rw [FilterSet.decideAll, List.map_map, List.map_map]
    exact listing.nodup_paths
  foldersFirst earlier decided later split folder above := by
    rw [FilterSet.decideAll, List.map_map] at split
    obtain ⟨before, rest, rfl, rfl, restSplit⟩ := List.map_eq_append_iff.1 split
    obtain ⟨entry, after, rfl, rfl, -⟩ := List.map_eq_cons_iff.1 restSplit
    have listed : entry ∈ before ++ entry :: after := List.mem_append_right _ List.mem_cons_self
    obtain ⟨upper, upperListed, rfl, isFolder⟩ := listing.exists_of_mem_ancestors listed above
    have descends : entry.item.path.isDescendantOf upper.item.path = true := by
      obtain ⟨-, different, starts⟩ := RelPath.mem_ancestors_iff.1 above
      exact RelPath.isDescendantOf_iff.2 ⟨starts, different⟩
    -- A folder that is not listed before the entry would come after it or be the entry itself.
    rcases List.mem_append.1 upperListed with arrived | late
    · refine reports_ne_nil_iff.2 ⟨_, List.mem_map_of_mem arrived, isFolder, rfl⟩
    · exfalso
      rcases List.mem_cons.1 late with rfl | later
      · exact RelPath.not_mem_ancestors_self _ above
      · have ordered := (List.pairwise_append.1 listing.foldersFirst).2.1
        have notBelow := List.rel_of_pairwise_cons ordered later
        exact Bool.false_ne_true (notBelow.symm.trans descends)

end IsListing

end Walker

end Winnow
