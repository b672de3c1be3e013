import Winnow.Proofs.Materializer.Conservation
import Winnow.Proofs.Materializer.Rearrangement

/-!
# Enumerations

An enumeration of a source comes upon each place once, and upon a folder before anything inside of
it. A materializer that observes one has nothing to make up: every folder that it forwards has
arrived before, so no record is synthesized, and there is one record for each item, the folders that
nothing claims included. Which records are synthesized is a matter of what has arrived, whatever the
order is (`Placement.synthesized_iff`).

Where nothing is accepted but what lies directly inside of the root, no folder is forwarded for
another item's sake, and the accepted records are the items' own (`filter_isAccepted_final`).
-/

namespace Winnow

/-- What an item is about: its place, and whether there is a folder. -/
def Item.subject (item : Item) : RelPath × Bool := (item.path, item.isFolder)

/-- What a record is about: its place, and whether there is a folder. -/
def Record.subject (record : Record) : RelPath × Bool := (record.path, record.isFolder)

namespace History

variable {history earlier later : History} {item : Item} {verdict : Verdict}
  {entry other : Item × Verdict} {folder : RelPath}

/-- Every item arrives when the folders above it have arrived. -/
def FoldersFirst (history : History) : Prop :=
  ∀ earlier entry later, history = earlier ++ entry :: later →
    ∀ folder ∈ entry.1.path.ancestors, reports earlier folder ≠ []

/-- No place arrives twice, and folders arrive before what is inside of them. -/
structure IsEnumeration (history : History) : Prop where
  distinct : (history.map fun entry => entry.1.path).Nodup
  foldersFirst : history.FoldersFirst

/-- The first part of a history has the order of the whole. -/
theorem FoldersFirst.of_append (foldersFirst : FoldersFirst (earlier ++ later)) :
    FoldersFirst earlier := by
  rintro before entry after rfl
  exact foldersFirst before entry (after ++ later) (by simp)

/-- An arrival of a folder is a report of it. -/
theorem reports_ne_nil_iff :
    reports history folder ≠ [] ↔
      ∃ entry ∈ history, entry.1.isFolder = true ∧ entry.1.path = folder := by
  constructor
  · intro nonempty
    obtain ⟨verdict, reported⟩ := List.exists_mem_of_ne_nil _ nonempty
    obtain ⟨item, arrived, isFolder, here⟩ := mem_reports_iff.1 reported
    exact ⟨_, arrived, isFolder, here⟩
  · rintro ⟨⟨item, verdict⟩, arrived, isFolder, here⟩
    exact List.ne_nil_of_mem (mem_reports_iff.2 ⟨item, arrived, isFolder, here⟩)

/-- A place lies between the root and an accepted item when that item lies below it. -/
theorem leadsDown_iff :
    LeadsDown history folder ↔ folder ≠ .root ∧
      ∃ entry ∈ history, entry.2.isAccepted = true ∧
        entry.1.path.isDescendantOf folder = true := by
  simp only [LeadsDown, RelPath.mem_ancestors_iff_isDescendantOf]
  constructor
  · rintro ⟨entry, arrived, isAccepted, below, descends⟩
    exact ⟨below, entry, arrived, isAccepted, descends⟩
  · rintro ⟨below, entry, arrived, isAccepted, descends⟩
    exact ⟨entry, arrived, isAccepted, below, descends⟩

namespace IsEnumeration

/-- An item is known by its place. -/
theorem eq_of_path_eq (enumeration : IsEnumeration history) (first : entry ∈ history)
    (second : other ∈ history) (samePath : entry.1.path = other.1.path) : entry = other :=
  List.inj_on_of_nodup_map enumeration.distinct first second samePath

/-- The first part of an enumeration is one. -/
theorem of_append (enumeration : IsEnumeration (earlier ++ later)) :
    IsEnumeration earlier where
  distinct := by
    have distinct := enumeration.distinct
    rw [List.map_append] at distinct
    exact distinct.of_append_left
  foldersFirst := enumeration.foldersFirst.of_append

/-- What lies above an accepted item has arrived. -/
theorem reports_of_leadsDown (enumeration : IsEnumeration history)
    (leads : LeadsDown history folder) : reports history folder ≠ [] := by
  obtain ⟨entry, arrived, -, above⟩ := leads
  obtain ⟨earlier, later, rfl⟩ := List.append_of_mem arrived
  have before := enumeration.foldersFirst earlier entry later rfl folder above
  rw [reports_append]
  exact List.append_ne_nil_of_left_ne_nil before _

/-- A folder has been accepted under its own name when its only arrival was accepted. -/
theorem accepts_iff (enumeration : IsEnumeration history) (arrived : (item, verdict) ∈ history)
    (isFolder : item.isFolder = true) : Accepts history item.path ↔ verdict.isAccepted = true := by
  constructor
  · rintro ⟨other, reported, isAccepted⟩
    obtain ⟨twin, twinArrived, -, samePath⟩ := mem_reports_iff.1 reported
    cases enumeration.eq_of_path_eq twinArrived arrived samePath
    exact isAccepted
  · intro isAccepted
    exact ⟨verdict, mem_reports_iff.2 ⟨item, arrived, isFolder, rfl⟩, isAccepted⟩

end IsEnumeration

/-- Accepted items lie directly inside of the root, or at it. -/
def AcceptsShallow (history : History) : Prop :=
  ∀ entry ∈ history, entry.2.isAccepted = true → entry.1.path.ancestors = []

end History

namespace Materializer

open History Record

variable {before after : Materializer} {history : History} {batches : List (List Record)}
  {item : Item} {verdict : Verdict} {records : List Record} {record : Record}
  {path folder : RelPath} {folderAware : Bool}

/-- A folder that is missing is held when it has arrived. -/
theorem Tracks.mem_pending_iff (tracks : Tracks history before)
    (missing : folder ∈ before.missing path) :
    folder ∈ before.pending ↔ reports history folder ≠ [] := by
  have unforwarded : ¬Forwards history folder := by
    intro forwards
    exact (tracks.gapless.mem_missing_iff.1 missing).2 ((tracks.emitted folder).2 forwards)
  rw [Std.ExtTreeMap.mem_iff_isSome_getElem?, tracks.pending, if_neg unforwarded, lastReport?,
    List.getLast?_isSome]

/-- The record of an item itself does not stand for a folder above it. -/
theorem not_synthesized_observed (item : Item) (verdict : Verdict) :
    (observed item.path item.isFolder verdict).synthesized = true ↔
      item.path ∈ item.path.ancestors ∧ reports history item.path = [] :=
  iff_of_false Bool.false_ne_true fun above => RelPath.not_mem_ancestors_self _ above.1

/-- A record is synthesized when it stands for a folder above the item that has never arrived. -/
theorem Placement.synthesized_iff (placement : Placement before item verdict records after)
    (tracks : Tracks history before) (listed : record ∈ records) :
    record.synthesized = true ↔
      record.path ∈ item.path.ancestors ∧ reports history record.path = [] := by
  cases placement with
  | known _ _ recordsEq _ _ | held _ _ _ recordsEq _ _ =>
      rw [recordsEq] at listed
      exact absurd listed List.not_mem_nil
  | accepted _ _ recordsEq _ _ =>
      rw [recordsEq, List.mem_append, List.mem_map, List.mem_singleton] at listed
      rcases listed with ⟨folder, missing, rfl⟩ | rfl
      · have missing := List.mem_reverse.1 missing
        have above := (tracks.gapless.mem_missing_iff.1 missing).1
        have held := tracks.mem_pending_iff missing
        rw [ancestor, Bool.not_eq_true', ← Bool.not_eq_true, Std.ExtTreeMap.contains_iff_mem, held,
          not_not]
        exact (and_iff_right above).symm
      · exact not_synthesized_observed item verdict
  | reported _ isFile recordsEq _ _ =>
      rw [recordsEq, ← isFile, List.mem_singleton] at listed
      rw [listed]
      exact not_synthesized_observed item verdict

/-- A flushed record stands for a folder that has arrived. -/
theorem synthesized_of_mem_held (flushed : record ∈ after.held) : record.synthesized = false := by
  obtain ⟨folder, verdict, -, rfl⟩ := mem_held_iff.1 flushed
  rfl

/-- Nothing is synthesized when folders arrive first. -/
theorem synthesized_of_observes (observes : Observes { folderAware } history batches after)
    (foldersFirst : FoldersFirst history) :
    ∀ record ∈ batches.flatten, record.synthesized = false := by
  cases folderAware with
  | false =>
      rw [(flat_of_observes rfl observes).1, ownRecords, List.forall_mem_map]
      exact fun _ _ => rfl
  | true =>
      induction observes with
      | nothing => exact List.forall_mem_nil _
      | @newest history batches current item verdict records after prior taken
          inductionHypothesis =>
          have tracks := tracks_of_observes prior
          have placement := placement_of_observe prior.folderAware taken
          intro record listed
          rw [List.flatten_concat, List.mem_append] at listed
          rcases listed with earlier | latest
          · exact inductionHypothesis foldersFirst.of_append record earlier
          · rw [← Bool.not_eq_true, placement.synthesized_iff tracks latest, not_and]
            exact foldersFirst history (item, verdict) [] rfl record.path

/-- The subjects of some records are the places of their folders and those of the files. -/
theorem perm_subjects (records : List Record) :
    (records.map Record.subject).Perm
      ((folderPaths records).map (·, true) ++
        (records.filter fun record => !record.isFolder).map Record.subject) := by
  have folders : (records.filter (·.isFolder)).map Record.subject =
      (folderPaths records).map (·, true) := by
    rw [folderPaths, List.map_map]
    refine List.map_congr_left fun record kept => ?_
    rw [Record.subject, (List.mem_filter.1 kept).2]
    rfl
  have split := (List.filter_append_perm (fun record => record.isFolder) records).map Record.subject
  rw [List.map_append, folders] at split
  exact split.symm

/-- The subjects of a history are those of its own records. -/
theorem subjects_ownRecords (history : History) :
    (ownRecords history).map Record.subject = history.map fun entry => entry.1.subject := by
  rw [ownRecords, List.map_map]
  rfl

/-- The own records of an enumeration stand for distinct folders. -/
theorem nodup_folderPaths_ownRecords (enumeration : IsEnumeration history) :
    (folderPaths (ownRecords history)).Nodup := by
  have kept := (List.filter_sublist (p := (·.isFolder)) (l := ownRecords history)).map Record.path
  have distinct := enumeration.distinct
  refine List.Nodup.sublist kept ?_
  rw [ownRecords, List.map_map]
  exact distinct

/-- The own records of a history stand for the folders that have arrived. -/
theorem mem_folderPaths_ownRecords :
    folder ∈ folderPaths (ownRecords history) ↔ reports history folder ≠ [] := by
  rw [mem_folderPaths_iff, reports_ne_nil_iff, ownRecords]
  simp only [List.mem_map, exists_exists_and_eq_and]
  rfl

/-- There is one final record for each item of an enumeration, and no other. -/
theorem perm_subjects_final (observes : Observes { folderAware } history batches after)
    (enumeration : IsEnumeration history) :
    ((batches.flatten ++ after.held).map Record.subject).Perm
      (history.map fun entry => entry.1.subject) := by
  rw [← subjects_ownRecords]
  cases folderAware with
  | false => rw [held_of_flat observes, List.append_nil, (flat_of_observes rfl observes).1]
  | true =>
      have folders : (folderPaths (batches.flatten ++ after.held)).Perm
          (folderPaths (ownRecords history)) := by
        refine (List.perm_ext_iff_of_nodup (nodup_folderPaths_final observes)
          (nodup_folderPaths_ownRecords enumeration)).2 fun folder => ?_
        rw [mem_folderPaths_final observes, mem_folderPaths_ownRecords, or_iff_left_iff_imp]
        exact enumeration.reports_of_leadsDown
      have files := (fileRecords_final observes).trans (filter_ownRecords history).symm
      refine (perm_subjects _).trans (.trans ?_ (perm_subjects _).symm)
      rw [files]
      exact (folders.map _).append_right _

/-- Among the own records of an enumeration, that at an item's place has the item's verdict. -/
theorem isAccepted_ownRecord (enumeration : IsEnumeration history)
    (listed : record ∈ ownRecords history) (arrived : (item, verdict) ∈ history)
    (here : item.path = record.path) :
    record.isAccepted = verdict.isAccepted ∧ record.isFolder = item.isFolder := by
  obtain ⟨⟨twin, other⟩, twinArrived, rfl⟩ := List.mem_map.1 listed
  cases enumeration.eq_of_path_eq twinArrived arrived here.symm
  exact ⟨rfl, rfl⟩

/-- The final record of a folder accepts it if it has been accepted itself or, if folders are
forwarded, lies above an accepted item; that of a file accepts it if it has been accepted. -/
theorem isAccepted_final_enumeration (observes : Observes { folderAware } history batches after)
    (enumeration : IsEnumeration history) (listed : record ∈ batches.flatten ++ after.held)
    (arrived : (item, verdict) ∈ history) (here : item.path = record.path) :
    record.isAccepted = true ↔ verdict.isAccepted = true ∨
      item.isFolder = true ∧ folderAware = true ∧ LeadsDown history item.path := by
  cases folderAware with
  | false =>
      rw [held_of_flat observes, List.append_nil, (flat_of_observes rfl observes).1] at listed
      rw [(isAccepted_ownRecord enumeration listed arrived here).1]
      simp
  | true =>
      cases isFolder : record.isFolder with
      | false =>
          have file : record ∈ (batches.flatten ++ after.held).filter (!·.isFolder) :=
            List.mem_filter.2 ⟨listed, by rw [isFolder]; rfl⟩
          rw [fileRecords_final observes, ← filter_ownRecords] at file
          obtain ⟨same, sameKind⟩ :=
            isAccepted_ownRecord enumeration (List.mem_of_mem_filter file) arrived here
          rw [same, ← sameKind, isFolder]
          simp
      | true =>
          have folder := (mem_folderPaths_final observes).1
            (Record.mem_folderPaths_iff.2 ⟨record, listed, isFolder, rfl⟩)
          obtain ⟨entry, entryArrived, entryIsFolder, samePath⟩ := reports_ne_nil_iff.1
            (folder.elim id enumeration.reports_of_leadsDown)
          cases enumeration.eq_of_path_eq entryArrived arrived (samePath.trans here.symm)
          rw [(isAccepted_final_iff observes listed isFolder).1, ← here, Forwards,
            enumeration.accepts_iff arrived entryIsFolder]
          simp [entryIsFolder]

/-- The last item of an enumeration in which nothing leads down has not been emitted. -/
theorem Tracks.not_mem_emitted (tracks : Tracks history before)
    (enumeration : IsEnumeration (history ++ [(item, verdict)]))
    (shallow : AcceptsShallow history) : item.path ∉ before.emitted := by
  rw [tracks.emitted]
  rintro (⟨other, reported, -⟩ | ⟨entry, arrived, isAccepted, above⟩)
  · obtain ⟨twin, arrived, -, samePath⟩ := mem_reports_iff.1 reported
    have distinct := enumeration.distinct
    rw [List.map_append] at distinct
    have apart := (List.nodup_append.1 distinct).2.2
    exact apart _ (List.mem_map_of_mem arrived) _ List.mem_cons_self samePath
  · rw [shallow entry arrived isAccepted] at above
    exact List.not_mem_nil above

/-- An item with nothing above it brings out no accepted record but its own. -/
theorem Placement.filter_isAccepted (placement : Placement before item verdict records after)
    (fresh : item.path ∉ before.emitted)
    (shallow : verdict.isAccepted = true → item.path.ancestors = []) :
    records.filter (·.isAccepted) =
      (ownRecords [(item, verdict)]).filter (·.isAccepted) := by
  cases placement with
  | known _ emitted _ _ _ => exact absurd emitted fresh
  | accepted isAccepted _ recordsEq _ _ =>
      have alone : before.missing item.path = [] := by
        rw [missing, shallow isAccepted, List.takeWhile_nil]
      rw [recordsEq, alone]
      rfl
  | held isRejected _ _ recordsEq _ _ =>
      rw [recordsEq]
      simp [ownRecords, observed, Record.isAccepted, isRejected]
  | reported _ isFile recordsEq _ _ =>
      rw [recordsEq, ← isFile]
      rfl

/-- If only shallow items are accepted, the accepted final records are the items' own, in the order
of arrival, whether or not folders are forwarded. -/
theorem filter_isAccepted_final (observes : Observes { folderAware } history batches after)
    (enumeration : IsEnumeration history) (shallow : AcceptsShallow history) :
    (batches.flatten ++ after.held).filter (·.isAccepted) =
      (ownRecords history).filter (·.isAccepted) := by
  have flushed : after.held.filter (·.isAccepted) = [] := by
    refine List.filter_eq_nil_iff.2 fun record listed => ?_
    rw [isRejected_of_mem_held observes listed]
    exact Bool.false_ne_true
  rw [List.filter_append, flushed, List.append_nil]
  clear flushed
  cases folderAware with
  | false => rw [(flat_of_observes rfl observes).1]
  | true =>
      induction observes with
      | nothing => rfl
      | @newest history batches current item verdict records after prior taken
          inductionHypothesis =>
          have tracks := tracks_of_observes prior
          have placement := placement_of_observe prior.folderAware taken
          obtain ⟨before, last⟩ := List.forall_mem_append.1 shallow
          have fresh := tracks.not_mem_emitted enumeration before
          have latest := placement.filter_isAccepted fresh (last _ List.mem_cons_self)
          rw [List.flatten_concat, List.filter_append, latest,
            inductionHypothesis enumeration.of_append before, ownRecords, ownRecords, ownRecords,
            List.map_append, List.filter_append]

end Materializer

end Winnow
