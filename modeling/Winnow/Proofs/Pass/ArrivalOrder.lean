import Winnow.Proofs.Materializer.Rearrangement
import Winnow.Proofs.Pass.Completion

/-!
# The order of arrival

A whole pass comes to the same end in whatever order its items arrive, as long as a folder that
arrives more than once is modified at the same time each time. Folders with different times could
get different verdicts, and the flush repeats the last one.

`Report.Agrees` says what two runs have in common. The reasons of accepted folders and the count
of synthesized ones are not part of it, because they depend on what arrives first.
-/

namespace Winnow

open History Materializer Record

variable {set : FilterSet} {items rearranged : List Item}

/-- A folder that is listed more than once is modified at the same time each time. -/
def FolderTimesAgree (items : List Item) : Prop :=
  ∀ item ∈ items, ∀ twin ∈ items, item.isFolder = true → twin.isFolder = true →
    item.path = twin.path → item.modified = twin.modified

instance : Decidable (FolderTimesAgree items) :=
  inferInstanceAs (Decidable (∀ _ ∈ _, _))

/-- Folders have nothing but a place and a time. -/
theorem Item.eq_of_isFolder {item twin : Item} (isFolder : item.isFolder = true)
    (twinIsFolder : twin.isFolder = true) (samePath : item.path = twin.path)
    (sameTime : item.modified = twin.modified) : item = twin := by
  obtain ⟨path, _ | _, modified⟩ := item
  · obtain ⟨_, _ | _, _⟩ := twin
    · obtain rfl : path = _ := samePath
      obtain rfl : modified = _ := sameTime
      rfl
    · cases twinIsFolder
  · cases isFolder

/-- One filter set decides alike about folders that are listed alike. -/
theorem FilterSet.consistent_decideAll (set : FilterSet) (agree : FolderTimesAgree items) :
    (set.decideAll items).Consistent := by
  have decided : ∀ {folder verdict}, verdict ∈ reports (set.decideAll items) folder →
      ∃ item ∈ items, item.isFolder = true ∧ item.path = folder ∧ set.decide item = verdict := by
    intro folder verdict reported
    obtain ⟨item, arrived, isFolder, here⟩ := mem_reports_iff.1 reported
    obtain ⟨listed, inItems, same⟩ := List.mem_map.1 arrived
    obtain ⟨rfl, rfl⟩ := Prod.mk.inj same
    exact ⟨listed, inItems, isFolder, here, rfl⟩
  intro folder verdict reported other otherReported
  obtain ⟨item, inItems, isFolder, here, rfl⟩ := decided reported
  obtain ⟨twin, twinInItems, twinIsFolder, twinHere, rfl⟩ := decided otherReported
  have samePath : item.path = twin.path := here.trans twinHere.symm
  have sameTime := agree item inItems twin twinInItems isFolder twinIsFolder samePath
  rw [Item.eq_of_isFolder isFolder twinIsFolder samePath sameTime]

/-- A folder is provided exactly when some record has the outline of its acceptance. -/
theorem Record.provides_iff_mem_outlines {records : List Record} {folder : RelPath} :
    Provides records folder ↔ ⟨folder, true, true⟩ ∈ records.map outline := by
  rw [List.mem_map]
  refine exists_congr fun record => and_congr_right fun _ => ?_
  simp only [outline, Outline.mk.injEq]
  constructor
  · rintro ⟨isFolder, isAccepted, here⟩
    exact ⟨here, isFolder, isAccepted⟩
  · rintro ⟨here, isFolder, isAccepted⟩
    exact ⟨isFolder, isAccepted, here⟩

namespace Pass

variable {pass : Pass} {folderAware : Bool}

/-- What two runs have in common: the records of files, the folders that are provided, the final
flush, and all counts but that of the synthesized folders. -/
structure Report.Agrees (first second : Report) : Prop where
  files : (first.records.filter fun record => !record.isFolder).Perm
    (second.records.filter fun record => !record.isFolder)
  provides : ∀ folder, Provides first.records folder ↔ Provides second.records folder
  flushed : first.flushed = second.flushed
  acceptedFiles : first.summary.acceptedFiles = second.summary.acceptedFiles
  acceptedFolders : first.summary.acceptedFolders = second.summary.acceptedFolders
  rejectedFiles : first.summary.rejectedFiles = second.summary.rejectedFiles
  rejectedFolders : first.summary.rejectedFolders = second.summary.rejectedFolders

/-- Reports agree if they have the same flush, and the same records before it up to outlines and
to their order. -/
theorem Report.agrees_of_outlines {first second : Report}
    (files : (first.immediate.filter fun record => !record.isFolder).Perm
      (second.immediate.filter fun record => !record.isFolder))
    (outlines : (first.immediate.map outline).Perm (second.immediate.map outline))
    (flushed : first.flushed = second.flushed)
    (firstSummary : first.summary = Summary.tally first.records)
    (secondSummary : second.summary = Summary.tally second.records) :
    first.Agrees second := by
  have all : (first.records.map outline).Perm (second.records.map outline) := by
    rw [Report.records, Report.records, List.map_append, List.map_append, flushed]
    exact outlines.append_right _
  have count : ∀ holds : Outline → Bool,
      first.records.countP (holds ∘ outline) = second.records.countP (holds ∘ outline) := by
    intro holds
    rw [← List.countP_map, ← List.countP_map]
    exact all.countP_eq holds
  constructor
  · rw [Report.records, Report.records, List.filter_append, List.filter_append, flushed]
    exact files.append_right _
  · intro folder
    rw [provides_iff_mem_outlines, provides_iff_mem_outlines]
    exact all.mem_iff
  · exact flushed
  · rw [firstSummary, secondSummary]
    exact count fun outline => outline.isAccepted && !outline.isFolder
  · rw [firstSummary, secondSummary]
    exact count fun outline => outline.isAccepted && outline.isFolder
  · rw [firstSummary, secondSummary]
    exact count fun outline => !outline.isAccepted && !outline.isFolder
  · rw [firstSummary, secondSummary]
    exact count fun outline => !outline.isAccepted && outline.isFolder

/-- A run that nobody stops completes for any order of the items, and agrees with the run for any
other order. -/
theorem arrivalOrder_run (set : FilterSet) (folderAware : Bool)
    (order : items.Perm rearranged) (agree : FolderTimesAgree items) :
    ∃ first second : Report,
      (new set folderAware).value.Completes items first ∧
      (new set folderAware).value.Completes rearranged second ∧
      first.Agrees second := by
  have decided : (set.decideAll items).Perm (set.decideAll rearranged) := order.map _
  have consistent := set.consistent_decideAll agree
  rw [value_new]
  generalize (folderAware && decide (set.operation ≠ .remove)) = aware
  obtain ⟨batches, after, observes, completes⟩ := exists_completes_new set aware items
  obtain ⟨others, afterwards, observesOther, completesOther⟩ :=
    exists_completes_new set aware rearranged
  refine ⟨_, _, completes, completesOther, Report.agrees_of_outlines ?_ ?_ ?_ rfl rfl⟩
  · rw [fileRecords_of_observes observes, fileRecords_of_observes observesOther]
    exact fileRecords_perm decided
  · exact perm_outlines decided observes observesOther
  · exact held_eq_of_perm decided consistent observes observesOther

/-- A rejected folder that is listed twice, before and after the accepted file inside it. -/
theorem arrivalOrder_run_around_file :
    let set : FilterSet := { includeAfter := some ⟨10⟩ }
    let folder : Item := ⟨.parse "a", .folder, ⟨0⟩⟩
    let file : Item := ⟨.parse "a/b", .file 1, ⟨20⟩⟩
    [folder, file, folder].Perm [file, folder, folder] ∧
      FolderTimesAgree [folder, file, folder] ∧
      ∃ first second : Report,
        (new set).value.Completes [folder, file, folder] first ∧
        (new set).value.Completes [file, folder, folder] second ∧
        first.Agrees second := by
  intro set folder file
  have order : [folder, file, folder].Perm [file, folder, folder] := .swap ..
  have agree : FolderTimesAgree [folder, file, folder] := by decide
  exact ⟨order, agree, arrivalOrder_run set true order agree⟩

end Pass

end Winnow
