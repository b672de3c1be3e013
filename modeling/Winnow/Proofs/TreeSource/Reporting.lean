import Winnow.FileTree.Build
import Winnow.Proofs.TreeSource.Feeding

/-!
# One record for each node

`Reports` says what the records of a tree source have to be: one record for each entry of the walk
and no other, none of them synthesized, and accepted as the filter set decides, or because folders
are forwarded for what lies below them. `reports_run` shows that every run that nobody stops
delivers such records. Nothing is synthesized because the walk is an enumeration: every folder has
arrived, and is held or emitted, before anything below it can ask for it.
-/

namespace Winnow.TreeSource

open Materializer History

variable {source : TreeSource} {set : FilterSet} {root : Location} {node : Node}
  {entries : List WalkEntry} {entry : WalkEntry}

/-- A folder on the way to something that is accepted is forwarded, if it is not the root and if the
job is neither a removal nor told not to forward folders. -/
def Forwards (source : TreeSource) (set : FilterSet) (entries : List WalkEntry)
    (folder : RelPath) : Prop :=
  source.folderAware = true ∧ source.options.operation ≠ .remove ∧ folder ≠ .root ∧
    ∃ entry ∈ entries, (set.decide entry.item).isAccepted = true ∧
      entry.item.path.isDescendantOf folder = true

/-- Records that stand for the entries of a walk, one for each, as they have been decided. -/
structure Reports (source : TreeSource) (set : FilterSet) (entries : List WalkEntry)
    (records : List Record) : Prop where
  subjects : (records.map Record.subject).Perm (entries.map fun entry => entry.item.subject)
  unsynthesized : ∀ record ∈ records, record.synthesized = false
  files : ∀ record ∈ records, ∀ entry ∈ entries, entry.item.path = record.path →
    entry.item.isFolder = false →
      (record.isAccepted = true ↔ (set.decide entry.item).isAccepted = true)
  folders : ∀ record ∈ records, ∀ entry ∈ entries, entry.item.path = record.path →
    entry.item.isFolder = true →
      (record.isAccepted = true ↔ (set.decide entry.item).isAccepted = true ∨
        source.Forwards set entries entry.item.path)

/-- What a source forwards is what the history of its walk leads down from, as far as its
materializer forwards anything. -/
theorem forwards_iff (source : TreeSource) (set : FilterSet) (entries : List WalkEntry)
    (folder : RelPath) (operation : set.operation = source.options.operation) :
    (source.folderAware && decide (set.operation ≠ .remove)) = true ∧
        LeadsDown (set.decideAll (entries.map (·.item))) folder ↔
      source.Forwards set entries folder := by
  rw [leadsDown_iff, Bool.and_eq_true, decide_eq_true_eq, operation, and_assoc, Forwards]
  simp only [FilterSet.decideAll, List.map_map, List.mem_map, exists_exists_and_eq_and,
    Function.comp_apply]

/-- A run over a tree source that nobody stops delivers one record for each node that its walk
visits, and no other; nothing is synthesized, and what is accepted is what the filter set accepts
and the folders that are forwarded for it. -/
theorem reports_run (lookedUp : source.tree.lookup false source.root.path = .ok (root, node))
    (plain : source.tree.IsPlainBelow root) (quiet : source.token = false)
    (compiles : FilterSet.outcome (FilterSet.compile source.options) = .ok set) :
    ∃ entries records,
      Walker.collect source.tree source.root (settings set) = .ok entries ∧
      Walker.IsListing source.tree (settings set) root entries ∧
      (source.run .patient).value = ⟨records, .ok (Summary.tally records)⟩ ∧
      (Summary.tally records).synthesized = 0 ∧ source.Reports set entries records := by
  obtain ⟨entries, walked, listing⟩ :=
    @Walker.exists_collect _ (settings set) _ _ _ lookedUp rfl plain
  have enumeration := listing.isEnumeration_decideAll set
  have operation := (FilterSet.compile_eq_ok_iff.1 compiles).operation
  have ended := value_run compiles walked .patient
  obtain ⟨batches, after, observes, ran⟩ :=
    Pass.exists_run_new set source.folderAware (entries.map (·.item))
  rw [quiet, ran] at ended
  have unsynthesized : ∀ record ∈ batches.flatten ++ after.held, record.synthesized = false := by
    intro record listed
    rcases List.mem_append.1 listed with immediate | flushed
    · exact synthesized_of_observes observes enumeration.foldersFirst record immediate
    · exact synthesized_of_mem_held flushed
  have accepted : ∀ record ∈ batches.flatten ++ after.held, ∀ entry ∈ entries,
      entry.item.path = record.path →
        (record.isAccepted = true ↔ (set.decide entry.item).isAccepted = true ∨
          entry.item.isFolder = true ∧ source.Forwards set entries entry.item.path) := by
    intro record listed entry entryListed here
    have arrived : (entry.item, set.decide entry.item) ∈ set.decideAll (entries.map (·.item)) :=
      List.mem_map_of_mem (List.mem_map_of_mem entryListed)
    rw [isAccepted_final_enumeration observes enumeration listed arrived here,
      forwards_iff source set entries entry.item.path operation]
  refine ⟨entries, batches.flatten ++ after.held, walked, listing, ended, ?_, ?_, unsynthesized,
    ?_, ?_⟩
  · refine List.countP_eq_zero.2 fun record listed => ?_
    rw [unsynthesized record listed]
    exact Bool.false_ne_true
  · have subjects := perm_subjects_final observes enumeration
    rwa [FilterSet.decideAll, List.map_map, List.map_map] at subjects
  · intro record listed entry entryListed here isFile
    rw [accepted record listed entry entryListed here, isFile]
    simp
  · intro record listed entry entryListed here isFolder
    rw [accepted record listed entry entryListed here, and_iff_right isFolder]

/-- A copy of one file: the folder above it is rejected and then forwarded, another one is held to
the end. -/
theorem reports_run_around_file :
    let options : Options := { recursive := true, includePath := some "a/b" }
    ∃ tree set, FileTree.ofNodes? "/base" [("a/b", ⟨.file 1, ⟨0⟩⟩), ("c/d", ⟨.link "x", ⟨0⟩⟩)] =
        some tree ∧
      let source : TreeSource := { tree, root := .absolute ⟨[]⟩, options }
      FilterSet.outcome (FilterSet.compile options) = .ok set ∧
      ∃ entries records,
        Walker.collect tree source.root (settings set) = .ok entries ∧
        Walker.IsListing tree (settings set) [] entries ∧
        (source.run .patient).value = ⟨records, .ok (Summary.tally records)⟩ ∧
        (Summary.tally records).synthesized = 0 ∧ source.Reports set entries records := by
  intro options
  let nodes : List (String × Node) :=
    [("a/b", ⟨.file 1, ⟨0⟩⟩), ("c/d", ⟨.link "x", ⟨0⟩⟩)]
  have keys : (FileTree.ofNodes? "/base" nodes).map (·.nodes.keys) =
      some [["a"], ["a", "b"], ["c"], ["c", "d"]] := by
    decide +kernel
  obtain ⟨tree, built, keys⟩ := Option.map_eq_some_iff.1 keys
  have plain : tree.IsPlainBelow [] := FileTree.isPlainBelow_of_keys keys (by decide)
  have succeeds : (FilterSet.outcome (FilterSet.compile options)).isOk = true := by decide
  obtain ⟨set, compiles⟩ := isOk_iff.1 succeeds
  exact ⟨tree, set, built, compiles,
    @reports_run { tree, root := .absolute ⟨[]⟩, options } set [] _ (tree.lookup_base false) plain
      rfl compiles⟩

end Winnow.TreeSource
