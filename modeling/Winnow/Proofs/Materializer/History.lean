import Winnow.Proofs.RelPath.Ancestors
import Winnow.Record

/-!
# Histories of decided items

A history is the list of items that have arrived, each with the verdict on it, oldest first.
It says by itself which folders a job has to be told about as accepted: the folders that were
accepted under their own name and the folders above accepted items. These definitions look at
the history alone; what a materializer does with it is stated against them elsewhere.

`forwards_of_mem_ancestors` is the closure on which the materializer relies: whatever lies
above a folder that has to be accepted has to be accepted too.
-/

namespace Winnow

/-- Decided items, in the order of their arrival. -/
abbrev History := List (Item × Verdict)

namespace History

variable {history earlier later : History} {item : Item} {verdict : Verdict}
  {path folder ancestor : RelPath}

/-- The verdicts on a place that has arrived as a folder, oldest first. -/
def reports (history : History) (folder : RelPath) : List Verdict :=
  history.filterMap fun (item, verdict) =>
    if item.isFolder = true ∧ item.path = folder then some verdict else none

/-- A folder has arrived and been accepted at least once. -/
def Accepts (history : History) (folder : RelPath) : Prop :=
  ∃ verdict ∈ reports history folder, verdict.isAccepted = true

/-- A place lies between the root and an accepted item. -/
def LeadsDown (history : History) (folder : RelPath) : Prop :=
  ∃ entry ∈ history, entry.2.isAccepted = true ∧ folder ∈ entry.1.path.ancestors

/-- A folder has to be accepted, for its own sake or for that of an item below it. -/
def Forwards (history : History) (folder : RelPath) : Prop :=
  Accepts history folder ∨ LeadsDown history folder

instance : Decidable (Accepts history folder) :=
  inferInstanceAs (Decidable (∃ _ ∈ _, _))

instance : Decidable (LeadsDown history folder) :=
  inferInstanceAs (Decidable (∃ _ ∈ _, _))

instance : Decidable (Forwards history folder) :=
  inferInstanceAs (Decidable (_ ∨ _))

/-- The records of the files of a history, each with its own verdict. -/
def fileRecords (history : History) : List Record :=
  (history.filter fun entry => !entry.1.isFolder).map fun (item, verdict) =>
    .observed item.path false verdict

/-- The records of all items of a history, each with its own verdict. -/
def ownRecords (history : History) : List Record :=
  history.map fun (item, verdict) => .observed item.path item.isFolder verdict

/-- A verdict on a folder stands in the history together with the folder. -/
theorem mem_reports_iff :
    verdict ∈ reports history folder ↔
      ∃ item, (item, verdict) ∈ history ∧ item.isFolder = true ∧ item.path = folder := by
  simp only [reports, List.mem_filterMap, Option.ite_none_right_eq_some, Option.some.injEq]
  constructor
  · rintro ⟨⟨item, _⟩, arrived, ⟨isFolder, here⟩, rfl⟩
    exact ⟨item, arrived, isFolder, here⟩
  · rintro ⟨item, arrived, isFolder, here⟩
    exact ⟨(item, verdict), arrived, ⟨isFolder, here⟩, rfl⟩

theorem reports_append :
    reports (earlier ++ later) folder = reports earlier folder ++ reports later folder :=
  List.filterMap_append

theorem reports_singleton :
    reports [(item, verdict)] folder =
      if item.isFolder = true ∧ item.path = folder then [verdict] else [] := by
  by_cases here : item.isFolder = true ∧ item.path = folder <;> simp [reports, here]

theorem fileRecords_append :
    fileRecords (earlier ++ later) = fileRecords earlier ++ fileRecords later := by
  simp only [fileRecords, List.filter_append, List.map_append]

/-- The own records of files are the records of the files. -/
theorem filter_ownRecords (history : History) :
    (ownRecords history).filter (fun record => !record.isFolder) = fileRecords history := by
  rw [ownRecords, List.filter_map]
  refine List.map_congr_left fun (item, verdict) kept => ?_
  have isFile : (!item.isFolder) = true := (List.mem_filter.1 kept).2
  rw [Bool.not_eq_true'] at isFile
  exact congrArg (Record.observed item.path · verdict) isFile

/-- A folder is accepted under its own name before or by the last arrival. -/
theorem accepts_concat :
    Accepts (history ++ [(item, verdict)]) folder ↔
      Accepts history folder ∨
        verdict.isAccepted = true ∧ item.isFolder = true ∧ item.path = folder := by
  simp only [Accepts, reports_append, reports_singleton, List.mem_append, or_and_right,
    exists_or]
  refine or_congr Iff.rfl ?_
  by_cases here : item.isFolder = true ∧ item.path = folder <;> simp [here]

/-- A place lies above an accepted item before or because of the last arrival. -/
theorem leadsDown_concat :
    LeadsDown (history ++ [(item, verdict)]) folder ↔
      LeadsDown history folder ∨
        verdict.isAccepted = true ∧ folder ∈ item.path.ancestors := by
  simp only [LeadsDown, List.mem_append, List.mem_singleton, or_and_right, exists_or,
    exists_eq_left]

/-- One more item adds the folders above it, and itself if it is a folder, when it is
accepted. -/
theorem forwards_concat :
    Forwards (history ++ [(item, verdict)]) folder ↔
      Forwards history folder ∨ verdict.isAccepted = true ∧
        (item.isFolder = true ∧ item.path = folder ∨ folder ∈ item.path.ancestors) := by
  rw [Forwards, Forwards, accepts_concat, leadsDown_concat, or_or_or_comm, ← and_or_left]

/-- A rejected item adds nothing. -/
theorem forwards_concat_of_rejected (isRejected : verdict.isAccepted = false) :
    Forwards (history ++ [(item, verdict)]) folder ↔ Forwards history folder := by
  rw [forwards_concat, isRejected, or_iff_left_iff_imp]
  exact fun impossible => absurd impossible.1 Bool.false_ne_true

/-- What has to be accepted for a history has to be accepted for any longer one. -/
theorem Forwards.append (forwards : Forwards earlier folder) (later : History) :
    Forwards (earlier ++ later) folder := by
  rcases forwards with ⟨verdict, reported, accepted⟩ | ⟨entry, arrived, below⟩
  · exact .inl ⟨verdict, reports_append ▸ List.mem_append_left _ reported, accepted⟩
  · exact .inr ⟨entry, List.mem_append_left _ arrived, below⟩

/-- Whatever lies above a folder that has to be accepted has to be accepted too. -/
theorem forwards_of_mem_ancestors (forwards : Forwards history folder)
    (above : ancestor ∈ folder.ancestors) : Forwards history ancestor := by
  refine .inr ?_
  rcases forwards with ⟨verdict, reported, accepted⟩ | ⟨entry, arrived, accepted, below⟩
  · obtain ⟨item, arrived, _, rfl⟩ := mem_reports_iff.1 reported
    exact ⟨(item, verdict), arrived, accepted, above⟩
  · exact ⟨entry, arrived, accepted, RelPath.mem_ancestors_trans above below⟩

/-- An item that has to be forwarded already adds nothing, whatever the verdict on it. -/
theorem forwards_concat_of_forwards (forwards : Forwards history item.path) :
    Forwards (history ++ [(item, verdict)]) folder ↔ Forwards history folder := by
  rw [forwards_concat, or_iff_left_iff_imp]
  rintro ⟨_, ⟨_, rfl⟩ | above⟩
  · exact forwards
  · exact forwards_of_mem_ancestors forwards above

end History

end Winnow
