import Winnow.Proofs.FilterSet.Extension
import Winnow.Proofs.Materializer.Rearrangement
import Winnow.Proofs.Pass.Completion

/-!
# Filters compose monotonically

A whole pass forwards no more when more is excluded, and no less when more is included. What a
pass forwards depends on the items that are accepted, and not on the order in which they come or on
what is rejected beside them: a place is forwarded when an accepted item is there, or, by a
folder-aware materializer, when it is a folder above one (`accepts_iff_of_observes`). So the
statement about passes follows from the one about single decisions.
-/

namespace Winnow

/-- An accepted record stands for a folder, or for a file, at a place. -/
def Record.Accepts (records : List Record) (path : RelPath) (isFolder : Bool) : Prop :=
  ∃ record ∈ records,
    record.isAccepted = true ∧ record.path = path ∧ record.isFolder = isFolder

namespace History

variable {history other : History} {path : RelPath} {isFolder : Bool}

/-- An accepted item of a history is at a place. -/
def HasAccepted (history : History) (path : RelPath) (isFolder : Bool) : Prop :=
  ∃ entry ∈ history,
    entry.2.isAccepted = true ∧ entry.1.path = path ∧ entry.1.isFolder = isFolder

/-- Every item that one history accepts is accepted by the other one. -/
def AcceptsWithin (history other : History) : Prop :=
  ∀ entry ∈ history, entry.2.isAccepted = true →
    ∃ twin ∈ other, twin.2.isAccepted = true ∧ twin.1 = entry.1

theorem AcceptsWithin.hasAccepted (within : history.AcceptsWithin other)
    (accepted : history.HasAccepted path isFolder) : other.HasAccepted path isFolder := by
  obtain ⟨entry, arrived, isAccepted, rfl, rfl⟩ := accepted
  obtain ⟨twin, twinArrived, twinAccepted, same⟩ := within entry arrived isAccepted
  exact ⟨twin, twinArrived, twinAccepted, by rw [same], by rw [same]⟩

theorem AcceptsWithin.leadsDown (within : history.AcceptsWithin other)
    (leads : history.LeadsDown path) : other.LeadsDown path := by
  obtain ⟨entry, arrived, isAccepted, above⟩ := leads
  obtain ⟨twin, twinArrived, twinAccepted, same⟩ := within entry arrived isAccepted
  exact ⟨twin, twinArrived, twinAccepted, by rwa [same]⟩

/-- A folder is accepted under its own name when an accepted folder is there. -/
theorem accepts_iff_hasAccepted : history.Accepts path ↔ history.HasAccepted path true := by
  constructor
  · rintro ⟨verdict, reported, isAccepted⟩
    obtain ⟨item, arrived, isFolder, here⟩ := mem_reports_iff.1 reported
    exact ⟨(item, verdict), arrived, isAccepted, here, isFolder⟩
  · rintro ⟨⟨item, verdict⟩, arrived, isAccepted, here, isFolder⟩
    exact ⟨verdict, mem_reports_iff.2 ⟨item, arrived, isFolder, here⟩, isAccepted⟩

/-- The accepted records of files are those of the accepted files. -/
theorem accepts_fileRecords_iff :
    Record.Accepts (fileRecords history) path false ↔ history.HasAccepted path false := by
  constructor
  · rintro ⟨record, listed, isAccepted, here, _⟩
    obtain ⟨⟨item, verdict⟩, kept, rfl⟩ := List.mem_map.1 listed
    obtain ⟨arrived, isFile⟩ := List.mem_filter.1 kept
    rw [Bool.not_eq_true'] at isFile
    exact ⟨(item, verdict), arrived, isAccepted, here, isFile⟩
  · rintro ⟨⟨item, verdict⟩, arrived, isAccepted, here, isFile⟩
    have kept : (item, verdict) ∈ history.filter fun entry => !entry.1.isFolder :=
      List.mem_filter.2 ⟨arrived, by rw [isFile]; rfl⟩
    exact ⟨_, List.mem_map.2 ⟨_, kept, rfl⟩, isAccepted, here, rfl⟩

end History

namespace Materializer

open History Record

variable {history : History} {batches : List (List Record)} {after : Materializer}
  {path : RelPath} {isFolder aware : Bool}

/-- The final flush accepts nothing. -/
theorem accepts_append_held (observes : Observes { folderAware := aware } history batches after) :
    Record.Accepts (batches.flatten ++ after.held) path isFolder ↔
      Record.Accepts batches.flatten path isFolder := by
  constructor
  · rintro ⟨record, listed, isAccepted, found⟩
    rcases List.mem_append.1 listed with immediate | flushed
    · exact ⟨record, immediate, isAccepted, found⟩
    · have isRejected := isRejected_of_mem_held observes flushed
      exact absurd (isRejected.symm.trans isAccepted) Bool.false_ne_true
  · rintro ⟨record, listed, found⟩
    exact ⟨record, List.mem_append_left _ listed, found⟩

/-- The accepted records of files are those of the accepted files. -/
theorem accepts_file_iff (observes : Observes { folderAware := aware } history batches after) :
    Record.Accepts batches.flatten path false ↔ history.HasAccepted path false := by
  rw [← accepts_fileRecords_iff, ← fileRecords_of_observes observes]
  constructor
  · rintro ⟨record, listed, isAccepted, here, isFile⟩
    have kept : record ∈ batches.flatten.filter fun record => !record.isFolder :=
      List.mem_filter.2 ⟨listed, by rw [isFile]; rfl⟩
    exact ⟨record, kept, isAccepted, here, isFile⟩
  · rintro ⟨record, kept, found⟩
    exact ⟨record, (List.mem_filter.1 kept).1, found⟩

/-- The accepted records of folders are those of the accepted folders and, if folders are forwarded,
of those above accepted items. -/
theorem accepts_folder_iff (observes : Observes { folderAware := aware } history batches after) :
    Record.Accepts batches.flatten path true ↔
      history.HasAccepted path true ∨ aware = true ∧ history.LeadsDown path := by
  cases aware with
  | false =>
      rw [(flat_of_observes rfl observes).1,
        or_iff_left fun forwarded => absurd forwarded.1 Bool.false_ne_true]
      constructor
      · rintro ⟨record, listed, found⟩
        obtain ⟨entry, arrived, rfl⟩ := List.mem_map.1 listed
        exact ⟨entry, arrived, found⟩
      · rintro ⟨entry, arrived, found⟩
        exact ⟨_, List.mem_map.2 ⟨entry, arrived, rfl⟩, found⟩
  | true =>
      have accounts := accounts_of_observes observes
      have provided : Record.Accepts batches.flatten path true ↔ Provides batches.flatten path := by
        refine exists_congr fun record => and_congr_right fun _ => ?_
        rw [and_comm (a := record.path = path), and_left_comm]
      rw [provided, accounts.provides_iff, (tracks_of_observes observes).emitted, Forwards,
        accepts_iff_hasAccepted, and_iff_right rfl]

/-- What is accepted among all records of a history, the flush included, is at the place of an
accepted item or is a folder above one that has been forwarded. -/
theorem accepts_iff_of_observes
    (observes : Observes { folderAware := aware } history batches after) :
    Record.Accepts (batches.flatten ++ after.held) path isFolder ↔
      history.HasAccepted path isFolder ∨
        isFolder = true ∧ aware = true ∧ history.LeadsDown path := by
  rw [accepts_append_held observes]
  cases isFolder with
  | false =>
      rw [accepts_file_iff observes,
        or_iff_left fun forwarded => absurd forwarded.1 Bool.false_ne_true]
  | true => rw [accepts_folder_iff observes, and_iff_right rfl]

/-- Who accepts fewer items forwards fewer places. -/
theorem accepts_mono {other : History} {others : List (List Record)} {afterwards : Materializer}
    (within : history.AcceptsWithin other)
    (observes : Observes { folderAware := aware } history batches after)
    (observesOther : Observes { folderAware := aware } other others afterwards)
    (accepts : Record.Accepts (batches.flatten ++ after.held) path isFolder) :
    Record.Accepts (others.flatten ++ afterwards.held) path isFolder := by
  rw [accepts_iff_of_observes observes] at accepts
  rw [accepts_iff_of_observes observesOther]
  rcases accepts with own | ⟨isFolder, isAware, leads⟩
  · exact .inl (within.hasAccepted own)
  · exact .inr ⟨isFolder, isAware, within.leadsDown leads⟩

end Materializer

namespace FilterSet

/-- One filter set accepts every item that another one accepts. -/
def AcceptsWithin (narrow wide : FilterSet) : Prop :=
  ∀ item, (narrow.decide item).isAccepted = true → (wide.decide item).isAccepted = true

/-- A filter set that accepts fewer items accepts fewer of any list. -/
theorem AcceptsWithin.decideAll {narrow wide : FilterSet} (within : narrow.AcceptsWithin wide)
    (items : List Item) : (narrow.decideAll items).AcceptsWithin (wide.decideAll items) := by
  intro entry arrived isAccepted
  obtain ⟨item, listed, rfl⟩ := List.mem_map.1 arrived
  exact ⟨_, List.mem_map.2 ⟨item, listed, rfl⟩, within item isAccepted, rfl⟩

end FilterSet

namespace Pass

open FilterSet

variable {options : Options} {kind : Kind} {text : String} {set extended : FilterSet}

/-- The first report forwards nothing that the second one does not forward. -/
def Report.ForwardsWithin (first second : Report) : Prop :=
  ∀ path isFolder, Record.Accepts first.records path isFolder →
    Record.Accepts second.records path isFolder

/-- Passes over the same items with filter sets for the same operation complete, and if one of the
sets accepts what the other does, so does one of the reports. -/
theorem exists_reports {first second : FilterSet}
    (sameOperation : first.operation = second.operation) (folderAware : Bool)
    (items : List Item) :
    ∃ firstReport secondReport : Report,
      (new first folderAware).value.Completes items firstReport ∧
      (new second folderAware).value.Completes items secondReport ∧
      (first.AcceptsWithin second → firstReport.ForwardsWithin secondReport) ∧
      (second.AcceptsWithin first → secondReport.ForwardsWithin firstReport) := by
  rw [value_new, value_new, sameOperation]
  generalize (folderAware && Decidable.decide (second.operation ≠ .remove)) = aware
  obtain ⟨batches, after, observes, completes⟩ := exists_completes_new first aware items
  obtain ⟨others, afterwards, observesOther, completesOther⟩ :=
    exists_completes_new second aware items
  refine ⟨_, _, completes, completesOther, ?_, ?_⟩
  · intro within path isFolder
    exact Materializer.accepts_mono (within.decideAll items) observes observesOther
  · intro within path isFolder
    exact Materializer.accepts_mono (within.decideAll items) observesOther observes

/-- Making an exclude list longer makes a whole pass forward no more, and making an include list
longer that has an entry makes it forward no less: files and folders alike, those that are forwarded
for the sake of others among them. -/
theorem monotone_run (compiles : outcome (compile options) = .ok set)
    (extendedCompiles : outcome (compile (options.extend kind text)) = .ok extended)
    (folderAware : Bool) (items : List Item) :
    ∃ report extendedReport : Report,
      (new set folderAware).value.Completes items report ∧
      (new extended folderAware).value.Completes items extendedReport ∧
      (kind.isExclude = true → extendedReport.ForwardsWithin report) ∧
      (kind.isInclude = true → options.entries kind ≠ [] →
        report.ForwardsWithin extendedReport) := by
  have compiled := compile_eq_ok_iff.1 compiles
  have extendedCompiled := compile_eq_ok_iff.1 extendedCompiles
  have sameOperation : set.operation = extended.operation := by
    rw [compiled.operation, extendedCompiled.operation]
    cases kind <;> rfl
  obtain ⟨report, extendedReport, completes, extendedCompletes, wider, narrower⟩ :=
    exists_reports sameOperation folderAware items
  refine ⟨report, extendedReport, completes, extendedCompletes, ?_, ?_⟩
  · intro isExclude
    have wide := options.wider_extend_of_isExclude isExclude text
    exact narrower fun item => wide.isAccepted compiled extendedCompiled
  · intro isInclude configured
    have wide := options.wider_extend_of_entries_ne_nil isInclude configured text
    exact wider fun item => wide.isAccepted extendedCompiled compiled

/-- A job excludes one more folder and includes one more; a folder above both is forwarded. -/
theorem monotone_run_around_folder :
    let options : Options :=
      { recursive := true, excludePath := some "a/b/x", includePath := some "a/b;;c" }
    let items : List Item :=
      [⟨.parse "a", .folder, ⟨0⟩⟩, ⟨.parse "a/b/y", .file 1, ⟨0⟩⟩, ⟨.parse "d/e", .file 1, ⟨0⟩⟩]
    ∃ set less more, outcome (compile options) = .ok set ∧
      outcome (compile (options.extend .excludePath "a/b/y;")) = .ok less ∧
      outcome (compile (options.extend .includePath "d")) = .ok more ∧
      (∃ report lessReport : Report,
        (new set).value.Completes items report ∧ (new less).value.Completes items lessReport ∧
        lessReport.ForwardsWithin report) ∧
      ∃ report moreReport : Report,
        (new set).value.Completes items report ∧ (new more).value.Completes items moreReport ∧
        report.ForwardsWithin moreReport := by
  intro options items
  have succeeds : (outcome (compile options)).isOk = true := by decide
  have lessSucceeds : (outcome (compile (options.extend .excludePath "a/b/y;"))).isOk = true := by
    decide
  have moreSucceeds : (outcome (compile (options.extend .includePath "d"))).isOk = true := by
    decide
  have configured : options.entries .includePath ≠ [] := by decide
  obtain ⟨set, compiles⟩ := isOk_iff.1 succeeds
  obtain ⟨less, lessCompiles⟩ := isOk_iff.1 lessSucceeds
  obtain ⟨more, moreCompiles⟩ := isOk_iff.1 moreSucceeds
  refine ⟨set, less, more, compiles, lessCompiles, moreCompiles, ?_, ?_⟩
  · obtain ⟨report, lessReport, completes, lessCompletes, within, _⟩ :=
      monotone_run compiles lessCompiles true items
    exact ⟨report, lessReport, completes, lessCompletes, within rfl⟩
  · obtain ⟨report, moreReport, completes, moreCompletes, _, within⟩ :=
      monotone_run compiles moreCompiles true items
    exact ⟨report, moreReport, completes, moreCompletes, within rfl configured⟩

end Pass

end Winnow
