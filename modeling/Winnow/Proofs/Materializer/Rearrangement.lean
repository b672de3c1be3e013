import Winnow.Proofs.Materializer.Flush

/-!
# Histories in another order

The records of a history depend on the order of arrival: whether a folder is forwarded under its
own name or for the sake of an item below it, and whether it is synthesized, is a matter of what
came first. What is left of a record without these is its outline, and the outlines of a history
do not depend on the order (`perm_outlines`). Neither do the folders that are held at its end, as
long as the verdicts on one folder agree (`held_eq_of_perm`).
-/

namespace Winnow

namespace History

variable {history rearranged : History} {folder : RelPath}

/-- All verdicts on one folder are the same. -/
def Consistent (history : History) : Prop :=
  ∀ folder, ∀ verdict ∈ reports history folder, ∀ other ∈ reports history folder,
    verdict = other

theorem reports_perm (order : history.Perm rearranged) (folder : RelPath) :
    (reports history folder).Perm (reports rearranged folder) :=
  order.filterMap _

theorem fileRecords_perm (order : history.Perm rearranged) :
    (fileRecords history).Perm (fileRecords rearranged) :=
  (order.filter _).map _

/-- Which folders have to be accepted does not depend on the order. -/
theorem forwards_perm (order : history.Perm rearranged) :
    Forwards history folder ↔ Forwards rearranged folder := by
  refine or_congr ?_ ?_
  · exact exists_congr fun verdict =>
      and_congr_left fun _ => (reports_perm order folder).mem_iff
  · exact exists_congr fun entry => and_congr_left fun _ => order.mem_iff

/-- The last of consistent reports is the same in any order. -/
theorem lastReport?_perm (order : history.Perm rearranged) (consistent : history.Consistent)
    (folder : RelPath) : lastReport? history folder = lastReport? rearranged folder := by
  have reordered := reports_perm order folder
  unfold lastReport?
  cases last : (reports rearranged folder).getLast? with
  | none =>
      rw [List.getLast?_eq_none_iff] at last ⊢
      rw [last] at reordered
      exact reordered.eq_nil
  | some verdict =>
      have reported := reordered.mem_iff.2 (List.mem_of_getLast? last)
      have arrived := List.ne_nil_of_mem reported
      rw [List.getLast?_eq_some_getLast arrived]
      exact congrArg some (consistent folder _ (List.getLast_mem arrived) _ reported)

end History

/-- What a record says about a place, the reason and the synthesis aside. -/
structure Outline where
  path : RelPath
  isFolder : Bool
  isAccepted : Bool

/-- The outline of a record. -/
def Record.outline (record : Record) : Outline :=
  ⟨record.path, record.isFolder, record.isAccepted⟩

namespace Materializer

open History Record

variable {start after afterwards : Materializer} {history rearranged : History}
  {batches others : List (List Record)} {folderAware : Bool}

/-- A materializer that is not folder-aware reports a history item by item and holds nothing. -/
theorem flat_of_observes (flat : start.folderAware = false)
    (observes : Observes start history batches after) :
    batches.flatten = ownRecords history ∧ after.pending = start.pending := by
  induction observes with
  | nothing => exact ⟨rfl, rfl⟩
  | newest prior taken inductionHypothesis =>
      obtain ⟨recordsEq, pendingEq⟩ := inductionHypothesis
      obtain ⟨ownRecord, samePending⟩ := flat_of_observe (prior.folderAware.trans flat) taken
      constructor
      · rw [List.flatten_concat, recordsEq, ownRecord, ownRecords, ownRecords, List.map_append,
          List.map_singleton]
      · rw [samePending, pendingEq]

/-- A fresh materializer that is not folder-aware holds nothing after any history. -/
theorem held_of_flat (observes : Observes { folderAware := false } history batches after) :
    after.held = [] := by
  rw [held, (flat_of_observes rfl observes).2]
  rfl

/-- What a fresh materializer still holds after a history is rejected. -/
theorem isRejected_of_mem_held {record : Record}
    (observes : Observes { folderAware } history batches after)
    (flushed : record ∈ after.held) : record.isAccepted = false := by
  cases folderAware with
  | false =>
      rw [held_of_flat observes] at flushed
      exact absurd flushed List.not_mem_nil
  | true => exact (tracks_of_observes observes).isAccepted_of_mem_held flushed

/-- Up to their outlines the records of a folder-aware materializer are one acceptance for each
of their folders and the files of the history. -/
theorem Accounts.perm_outlines {records : List Record}
    (accounts : Accounts history records after) :
    (records.map outline).Perm
      ((folderPaths records).map (fun folder => ⟨folder, true, true⟩) ++
        (fileRecords history).map outline) := by
  have folders : (records.filter (·.isFolder)).map outline =
      (folderPaths records).map fun folder => ⟨folder, true, true⟩ := by
    rw [folderPaths, List.map_map]
    refine List.map_congr_left fun record kept => ?_
    obtain ⟨listed, isFolder⟩ := List.mem_filter.1 kept
    have isAccepted := accounts.accepted record listed isFolder
    rw [outline, isFolder, isAccepted]
    rfl
  have split := (List.filter_append_perm (fun record => record.isFolder) records).map outline
  rw [List.map_append, folders, accounts.files] at split
  exact split.symm

/-- A folder-aware materializer forwards the same folders in any order. -/
theorem perm_folderPaths (order : history.Perm rearranged)
    (observes : Observes {} history batches after)
    (observesOther : Observes {} rearranged others afterwards) :
    (folderPaths batches.flatten).Perm (folderPaths others.flatten) := by
  have accounts := accounts_of_observes observes
  have accountsOther := accounts_of_observes observesOther
  refine (List.perm_ext_iff_of_nodup accounts.nodup accountsOther.nodup).2 fun folder => ?_
  rw [accounts.emitted, accountsOther.emitted, (tracks_of_observes observes).emitted,
    (tracks_of_observes observesOther).emitted, forwards_perm order]

/-- Up to their outlines the records of a history do not depend on its order. -/
theorem perm_outlines (order : history.Perm rearranged)
    (observes : Observes { folderAware } history batches after)
    (observesOther : Observes { folderAware } rearranged others afterwards) :
    (batches.flatten.map outline).Perm (others.flatten.map outline) := by
  cases folderAware with
  | false =>
      rw [(flat_of_observes rfl observes).1, (flat_of_observes rfl observesOther).1]
      exact (order.map _).map outline
  | true =>
      refine (accounts_of_observes observes).perm_outlines.trans ?_
      refine .trans ?_ (accounts_of_observes observesOther).perm_outlines.symm
      have folders := perm_folderPaths order observes observesOther
      exact (folders.map _).append ((fileRecords_perm order).map _)

/-- The records of files are those of the history, whether or not folders are forwarded. -/
theorem fileRecords_of_observes (observes : Observes { folderAware } history batches after) :
    (batches.flatten.filter fun record => !record.isFolder) = fileRecords history := by
  cases folderAware with
  | false =>
      rw [(flat_of_observes rfl observes).1]
      exact filter_ownRecords history
  | true => exact (accounts_of_observes observes).files

/-- If the verdicts on one folder agree, the same folders are held, with the same verdicts, after
a history in any order. -/
theorem held_eq_of_perm (order : history.Perm rearranged) (consistent : history.Consistent)
    (observes : Observes { folderAware } history batches after)
    (observesOther : Observes { folderAware } rearranged others afterwards) :
    after.held = afterwards.held := by
  have samePending : after.pending = afterwards.pending := by
    cases folderAware with
    | false => rw [(flat_of_observes rfl observes).2, (flat_of_observes rfl observesOther).2]
    | true =>
        refine Std.ExtTreeMap.ext_getElem? fun folder => ?_
        rw [(tracks_of_observes observes).pending, (tracks_of_observes observesOther).pending,
          lastReport?_perm order consistent]
        exact if_congr (forwards_perm order) rfl rfl
  rw [held, held, samePending]

end Materializer

end Winnow
