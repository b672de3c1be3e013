import Winnow.Proofs.Materializer.Accounting

/-!
# The final flush

Finalizing an open materializer always succeeds. It reports exactly the folders that are still
held, each with the verdict that it was held with, and counts them. After a history these are the
folders that arrived without being forwarded, so each is reported with its last verdict, which
rejects it.
-/

namespace Winnow.Materializer

open History Record

variable {materializer after : Materializer} {history : History} {record : Record}
  {folder : RelPath}

/-- An open materializer can be finalized. -/
theorem value_finalize (isOpen : materializer.IsOpen) :
    materializer.finalize.value =
      (.ok (materializer.held, materializer.summary.addAll materializer.held),
        { materializer with
          stage := .done
          pending := ∅
          summary := materializer.summary.addAll materializer.held }) := by
  rw [finalize, refusal?_eq_none isOpen]
  rfl

/-- A record is flushed for every held folder, with the verdict that it is held with. -/
theorem mem_held_iff :
    record ∈ materializer.held ↔
      ∃ folder verdict, materializer.pending[folder]? = some verdict ∧
        .observed folder true verdict = record := by
  rw [held, List.mem_map]
  constructor
  · rintro ⟨⟨folder, verdict⟩, listed, rfl⟩
    exact ⟨folder, verdict, Std.ExtTreeMap.mem_toList_iff_getElem?_eq_some.1 listed, rfl⟩
  · rintro ⟨folder, verdict, stored, rfl⟩
    exact ⟨(folder, verdict), Std.ExtTreeMap.mem_toList_iff_getElem?_eq_some.2 stored, rfl⟩

/-- Only folders are flushed. -/
theorem isFolder_of_mem_held (flushed : record ∈ materializer.held) : record.isFolder = true := by
  obtain ⟨folder, verdict, _, rfl⟩ := mem_held_iff.1 flushed
  rfl

/-- The flushed folders are the held ones, in the order of their paths. -/
theorem folderPaths_held (materializer : Materializer) :
    folderPaths materializer.held = materializer.pending.keys := by
  have all : (materializer.held.filter fun record => record.isFolder) = materializer.held :=
    List.filter_eq_self.2 fun _ => isFolder_of_mem_held
  rw [folderPaths, all, held, List.map_map]
  exact Std.ExtTreeMap.map_fst_toList_eq_keys

namespace Tracks

/-- The flushed folders are those that arrived without being forwarded. -/
theorem mem_folderPaths_held (tracks : Tracks history after) :
    folder ∈ folderPaths after.held ↔
      reports history folder ≠ [] ∧ ¬Forwards history folder := by
  rw [folderPaths_held, Std.ExtTreeMap.mem_keys, Std.ExtTreeMap.mem_iff_isSome_getElem?,
    tracks.pending]
  by_cases forwards : Forwards history folder
  · simp [forwards]
  · simp [forwards, lastReport?]

/-- Every flushed folder is reported with its last verdict and has not been forwarded. -/
theorem of_mem_held (tracks : Tracks history after) (flushed : record ∈ after.held) :
    ¬Forwards history record.path ∧ lastReport? history record.path = some record.verdict := by
  obtain ⟨folder, verdict, stored, rfl⟩ := mem_held_iff.1 flushed
  rw [tracks.pending] at stored
  by_cases forwards : Forwards history folder
  · rw [if_pos forwards] at stored
    cases stored
  · rw [if_neg forwards] at stored
    exact ⟨forwards, stored⟩

/-- Every flushed folder is rejected. -/
theorem isAccepted_of_mem_held (tracks : Tracks history after) (flushed : record ∈ after.held) :
    record.isAccepted = false :=
  isAccepted_lastReport? (tracks.of_mem_held flushed).1 (tracks.of_mem_held flushed).2

end Tracks

end Winnow.Materializer
