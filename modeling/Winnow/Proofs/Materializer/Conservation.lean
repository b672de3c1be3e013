import Winnow.Proofs.Materializer.Flush

/-!
# No loss, no duplication

Over a whole history and the flush at its end, every file has its record and every folder that
matters has exactly one. A folder matters if it arrived or lies above an accepted item, and it is
accepted if it was accepted once, however often it was rejected, or lies above an accepted item.
-/

namespace Winnow.Materializer

open History Record

variable {after : Materializer} {history : History} {batches : List (List Record)}
  {record : Record} {folder : RelPath}

/-- The folders of the final records are those that arrived and those above accepted items. -/
theorem mem_folderPaths_final (observes : Observes {} history batches after) :
    folder ∈ folderPaths (batches.flatten ++ after.held) ↔
      reports history folder ≠ [] ∨ LeadsDown history folder := by
  have tracks := tracks_of_observes observes
  rw [folderPaths_append, List.mem_append, (accounts_of_observes observes).emitted,
    tracks.emitted, tracks.mem_folderPaths_held]
  constructor
  · rintro ((⟨verdict, reported, _⟩ | leads) | ⟨reported, _⟩)
    · exact .inl (List.ne_nil_of_mem reported)
    · exact .inr leads
    · exact .inl reported
  · rintro (reported | leads)
    · by_cases forwards : Forwards history folder
      · exact .inl forwards
      · exact .inr ⟨reported, forwards⟩
    · exact .inl (.inr leads)

/-- No folder has two of the final records. -/
theorem nodup_folderPaths_final (observes : Observes {} history batches after) :
    (folderPaths (batches.flatten ++ after.held)).Nodup := by
  have tracks := tracks_of_observes observes
  have accounts := accounts_of_observes observes
  rw [folderPaths_append]
  refine List.nodup_append.2 ⟨accounts.nodup, ?_, ?_⟩
  · rw [folderPaths_held]
    exact Std.ExtTreeMap.nodup_keys
  · rintro emitted emittedListed held heldListed rfl
    have forwards := (tracks.emitted emitted).1 ((accounts.emitted emitted).1 emittedListed)
    exact (tracks.mem_folderPaths_held.1 heldListed).2 forwards

/-- The final record of a folder accepts it exactly when the history forwards it, and otherwise
repeats its last report. -/
theorem isAccepted_final_iff (observes : Observes {} history batches after)
    (listed : record ∈ batches.flatten ++ after.held) (isFolder : record.isFolder = true) :
    (record.isAccepted = true ↔ Forwards history record.path) ∧
      (record.isAccepted = false → lastReport? history record.path = some record.verdict) := by
  have tracks := tracks_of_observes observes
  have accounts := accounts_of_observes observes
  rcases List.mem_append.1 listed with emitted | flushed
  · have accepted := accounts.accepted record emitted isFolder
    have forwards : Forwards history record.path := by
      rw [← tracks.emitted, ← accounts.emitted, Record.mem_folderPaths_iff]
      exact ⟨record, emitted, isFolder, rfl⟩
    exact ⟨iff_of_true accepted forwards, fun rejected =>
      absurd (rejected.symm.trans accepted) Bool.false_ne_true⟩
  · have rejected := tracks.isAccepted_of_mem_held flushed
    obtain ⟨unforwarded, last⟩ := tracks.of_mem_held flushed
    refine ⟨iff_of_false ?_ unforwarded, fun _ => last⟩
    rw [rejected]
    exact Bool.false_ne_true

/-- The final records of files are those of the history. -/
theorem fileRecords_final (observes : Observes {} history batches after) :
    ((batches.flatten ++ after.held).filter fun record => !record.isFolder) =
      fileRecords history := by
  have noFiles : (after.held.filter fun record => !record.isFolder) = [] := by
    refine List.filter_eq_nil_iff.2 fun record flushed => ?_
    rw [isFolder_of_mem_held flushed]
    exact Bool.false_ne_true
  rw [List.filter_append, noFiles, List.append_nil, (accounts_of_observes observes).files]

/-- An open materializer answers the finalization with what it still holds. -/
theorem replies_finalize (isOpen : after.IsOpen) :
    after.replies [.finalize] = [.totals after.held (after.summary.addAll after.held)] := by
  rw [replies_cons, replies_nil, answer, Noted.value_bind, value_finalize isOpen]
  rfl

/-- Nothing is lost and nothing doubled, in whatever order items arrive: no call is refused, a
folder has one record if it arrived or lies above an accepted item and none otherwise, its record
accepts it if it was accepted once or lies above an accepted item and otherwise repeats its last
report, and every file has its own record in the order of arrival. -/
theorem conservation_replies (history : History) :
    let replies := ({ folderAware := true } : Materializer).replies
      (history.map Call.ofDecided ++ [.finalize])
    let records := replies.flatMap Reply.delivered
    (∀ reply ∈ replies, ∀ error, reply ≠ .refused error) ∧
      (∀ folder, (records.countP fun record => record.isFolder && record.path == folder) =
        if reports history folder ≠ [] ∨ LeadsDown history folder then 1 else 0) ∧
      (∀ record ∈ records, record.isFolder = true →
        (record.isAccepted = true ↔
          Accepts history record.path ∨ LeadsDown history record.path) ∧
        (record.isAccepted = false →
          lastReport? history record.path = some record.verdict)) ∧
      (records.filter fun record => !record.isFolder) = fileRecords history := by
  obtain ⟨batches, after, observes, answered⟩ :=
    replies_observations (isOpen_fresh true) history [.finalize]
  have isOpen := observes.isOpen (isOpen_fresh true)
  rw [replies_finalize isOpen] at answered
  have delivered : (batches.map Reply.records ++
      [Reply.totals after.held (after.summary.addAll after.held)]).flatMap Reply.delivered =
      batches.flatten ++ after.held := by
    rw [List.flatMap_append, delivered_records, List.flatMap_singleton]
    rfl
  dsimp only
  rw [answered, delivered]
  refine ⟨?_, fun folder => ?_, fun record => isAccepted_final_iff observes,
    fileRecords_final observes⟩
  · intro reply listed error refused
    subst refused
    simp at listed
  · rw [Record.countP_folder, (nodup_folderPaths_final observes).count]
    exact if_congr (mem_folderPaths_final observes) rfl rfl

end Winnow.Materializer
