import Winnow.Proofs.Materializer.Stores

/-!
# Accounting for the records of a history

`Accounts` ties the records that have been handed out to the history and to the emitted folders:
every emitted folder has exactly one record, that record is accepted, no other folder has one, and
the files are reported one by one as they arrived. Before a materializer is closed no folder is
reported as rejected.
-/

namespace Winnow

namespace Record

variable {records earlier later : List Record} {folder path : RelPath} {verdict : Verdict}

/-- The places of the folders among some records, in order. -/
def folderPaths (records : List Record) : List RelPath :=
  (records.filter (·.isFolder)).map (·.path)

/-- An accepted record tells the job to create a folder. -/
def Provides (records : List Record) (folder : RelPath) : Prop :=
  ∃ record ∈ records, record.isFolder = true ∧ record.isAccepted = true ∧ record.path = folder

/-- The places of folders are those of their records. -/
theorem mem_folderPaths_iff :
    folder ∈ folderPaths records ↔
      ∃ record ∈ records, record.isFolder = true ∧ record.path = folder := by
  simp only [folderPaths, List.mem_map, List.mem_filter, and_assoc]

theorem folderPaths_append :
    folderPaths (earlier ++ later) = folderPaths earlier ++ folderPaths later := by
  simp only [folderPaths, List.filter_append, List.map_append]

/-- Forwarded ancestors are folders at their own places. -/
theorem folderPaths_ancestors (folders : List RelPath) (synthesized : RelPath → Bool) :
    folderPaths (folders.map fun folder => .ancestor folder (synthesized folder)) = folders := by
  induction folders with
  | nil => rfl
  | cons folder rest inductionHypothesis => exact congrArg (folder :: ·) inductionHypothesis

/-- The record of an item stands for a folder only if the item is one. -/
theorem folderPaths_observed (path : RelPath) (isFolder : Bool) (verdict : Verdict) :
    folderPaths [.observed path isFolder verdict] = if isFolder = true then [path] else [] := by
  cases isFolder <;> rfl

/-- What is provided stays provided. -/
theorem Provides.append (provides : Provides earlier folder) (later : List Record) :
    Provides (earlier ++ later) folder := by
  obtain ⟨record, listed, found⟩ := provides
  exact ⟨record, List.mem_append_left _ listed, found⟩

/-- As many folder records stand at a place as it has entries among the places of folders. -/
theorem countP_folder (records : List Record) (path : RelPath) :
    (records.countP fun record => record.isFolder && record.path == path) =
      (folderPaths records).count path := by
  rw [folderPaths, List.count, List.countP_map, List.countP_filter]
  exact List.countP_congr fun record _ => by simp [and_comm]

end Record

namespace Materializer

open History Record

variable {materializer before after : Materializer} {history : History}
  {batches : List (List Record)} {item : Item} {verdict : Verdict} {records : List Record}
  {path folder : RelPath}

namespace Placement

/-- Every folder that becomes emitted has a record at once, and no other folder has one. -/
theorem mem_folderPaths_iff (placement : Placement before item verdict records after)
    (tracks : Tracks history before) :
    folder ∈ folderPaths records ↔ folder ∈ after.emitted ∧ folder ∉ before.emitted := by
  cases placement with
  | known _ _ recordsEq emittedEq _ | held _ _ _ recordsEq emittedEq _ =>
      rw [recordsEq, emittedEq]
      simp [folderPaths]
  | accepted isAccepted fresh recordsEq emittedIff _ =>
      rw [recordsEq, folderPaths_append, folderPaths_ancestors, folderPaths_observed,
        emittedIff, List.mem_append, List.mem_reverse]
      have own : folder ∈ (if item.isFolder = true then [item.path] else []) ↔
          item.isFolder = true ∧ folder = item.path := by
        by_cases isFolder : item.isFolder = true <;> simp [isFolder]
      rw [own]
      constructor
      · rintro (missing | ⟨isFolder, rfl⟩)
        · exact ⟨.inl (.inl missing), (tracks.gapless.mem_missing_iff.1 missing).2⟩
        · exact ⟨.inl (.inr ⟨isFolder, rfl⟩), fresh isFolder⟩
      · rintro ⟨newly | emitted, absent⟩
        · exact newly
        · exact absurd emitted absent
  | reported _ _ recordsEq emittedEq _ =>
      rw [recordsEq, emittedEq]
      simp [folderPaths, observed]

/-- One call gives no folder two records. -/
theorem nodup_folderPaths (placement : Placement before item verdict records after) :
    (folderPaths records).Nodup := by
  cases placement with
  | known _ _ recordsEq _ _ | held _ _ _ recordsEq _ _ =>
      rw [recordsEq]
      exact List.nodup_nil
  | accepted _ _ recordsEq _ _ =>
      rw [recordsEq, folderPaths_append, folderPaths_ancestors, folderPaths_observed]
      refine List.nodup_append.2 ⟨List.nodup_reverse.2 (nodup_missing _ _), ?_, ?_⟩
      · by_cases isFolder : item.isFolder = true <;> simp [isFolder]
      · intro missing listed own ownListed same
        -- The item itself is not above itself.
        have above : missing ∈ item.path.ancestors :=
          (List.takeWhile_sublist _).subset (List.mem_reverse.1 listed)
        by_cases isFolder : item.isFolder = true
        · rw [if_pos isFolder, List.mem_singleton] at ownListed
          rw [same, ownListed] at above
          exact RelPath.not_mem_ancestors_self _ above
        · rw [if_neg isFolder] at ownListed
          exact List.not_mem_nil ownListed
  | reported _ _ recordsEq _ _ =>
      rw [recordsEq, folderPaths_observed, if_neg Bool.false_ne_true]
      exact List.nodup_nil

/-- Observing never reports a folder as rejected. -/
theorem isAccepted_of_isFolder (placement : Placement before item verdict records after) :
    ∀ record ∈ records, record.isFolder = true → record.isAccepted = true := by
  intro record listed isFolder
  cases placement with
  | known _ _ recordsEq _ _ | held _ _ _ recordsEq _ _ =>
      rw [recordsEq] at listed
      exact absurd listed List.not_mem_nil
  | accepted isAccepted _ recordsEq _ _ =>
      rw [recordsEq, List.mem_append, List.mem_map, List.mem_singleton] at listed
      rcases listed with ⟨_, _, rfl⟩ | rfl
      · rfl
      · exact isAccepted
  | reported _ _ recordsEq _ _ =>
      rw [recordsEq, List.mem_singleton] at listed
      subst listed
      exact absurd isFolder Bool.false_ne_true

/-- A file is reported by its own record, and a folder by none that stands for a file. -/
theorem fileRecords_eq (placement : Placement before item verdict records after) :
    (records.filter fun record => !record.isFolder) = fileRecords [(item, verdict)] := by
  cases placement with
  | known isFolder _ recordsEq _ _ | held _ isFolder _ recordsEq _ _ =>
      rw [recordsEq]
      simp [fileRecords, isFolder]
  | accepted _ _ recordsEq _ _ =>
      have noFiles : ((before.missing item.path).reverse.map
          (fun folder => Record.ancestor folder (!before.pending.contains folder))).filter
          (fun record => !record.isFolder) = [] := by
        refine List.filter_eq_nil_iff.2 fun record listed => ?_
        obtain ⟨_, _, rfl⟩ := List.mem_map.1 listed
        exact Bool.false_ne_true
      rw [recordsEq, List.filter_append, noFiles]
      cases isFolder : item.isFolder <;> simp [fileRecords, isFolder, observed]
  | reported _ isFile recordsEq _ _ =>
      rw [recordsEq]
      simp [fileRecords, isFile, observed]

end Placement

/-- The records that have been handed out are what the history and the emitted folders say. -/
structure Accounts (history : History) (records : List Record) (after : Materializer) :
    Prop where
  nodup : (folderPaths records).Nodup
  emitted : ∀ folder, folder ∈ folderPaths records ↔ folder ∈ after.emitted
  accepted : ∀ record ∈ records, record.isFolder = true → record.isAccepted = true
  files : (records.filter fun record => !record.isFolder) = fileRecords history

/-- Exactly the emitted folders are provided. -/
theorem Accounts.provides_iff (accounts : Accounts history records after) :
    Provides records folder ↔ folder ∈ after.emitted := by
  rw [← accounts.emitted, Record.mem_folderPaths_iff]
  constructor
  · rintro ⟨record, listed, isFolder, _, here⟩
    exact ⟨record, listed, isFolder, here⟩
  · rintro ⟨record, listed, isFolder, here⟩
    exact ⟨record, listed, isFolder, accounts.accepted record listed isFolder, here⟩

/-- One more item keeps the accounts. -/
theorem Accounts.next {earlier : List Record} (accounts : Accounts history earlier before)
    (tracks : Tracks history before)
    (placement : Placement before item verdict records after) :
    Accounts (history ++ [(item, verdict)]) (earlier ++ records) after := by
  have grows : ∀ folder, folder ∈ before.emitted → folder ∈ after.emitted := by
    intro folder emitted
    exact ((tracks.next placement).emitted folder).2 (((tracks.emitted folder).1 emitted).append _)
  constructor
  · rw [folderPaths_append]
    refine List.nodup_append.2 ⟨accounts.nodup, placement.nodup_folderPaths, ?_⟩
    rintro old oldListed new newListed rfl
    exact ((placement.mem_folderPaths_iff tracks).1 newListed).2
      ((accounts.emitted old).1 oldListed)
  · intro folder
    rw [folderPaths_append, List.mem_append, accounts.emitted,
      placement.mem_folderPaths_iff tracks]
    constructor
    · rintro (emitted | ⟨emitted, _⟩)
      · exact grows folder emitted
      · exact emitted
    · intro emitted
      by_cases already : folder ∈ before.emitted
      · exact .inl already
      · exact .inr ⟨emitted, already⟩
  · intro record listed
    rcases List.mem_append.1 listed with old | new
    · exact accounts.accepted record old
    · exact placement.isAccepted_of_isFolder record new
  · rw [List.filter_append, accounts.files, placement.fileRecords_eq, fileRecords_append]

/-- The records of every history of a fresh materializer are accounted for. -/
theorem accounts_of_observes (observes : Observes {} history batches after) :
    Accounts history batches.flatten after := by
  induction observes with
  | nothing =>
      constructor
      · exact List.nodup_nil
      · intro folder
        simp [folderPaths]
      · intro record listed
        exact absurd listed List.not_mem_nil
      · rfl
  | newest prior taken inductionHypothesis =>
      rw [List.flatten_concat]
      exact inductionHypothesis.next (tracks_of_observes prior)
        (placement_of_observe prior.folderAware taken)

end Materializer

end Winnow
