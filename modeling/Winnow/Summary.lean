import Winnow.Record

/-!
# Summaries

A summary counts the records that a job has received: accepted and rejected ones, files and
folders apart, and among the accepted folders those that were synthesized.
-/

namespace Winnow

/-- Counts of records. -/
structure Summary where
  acceptedFiles : Nat := 0
  acceptedFolders : Nat := 0
  synthesized : Nat := 0
  rejectedFiles : Nat := 0
  rejectedFolders : Nat := 0
deriving DecidableEq

namespace Summary

/-- Counts one more record. -/
def add (summary : Summary) (record : Record) : Summary :=
  let counted :=
    match record.isAccepted, record.isFolder with
    | true, false => { summary with acceptedFiles := summary.acceptedFiles + 1 }
    | true, true => { summary with acceptedFolders := summary.acceptedFolders + 1 }
    | false, false => { summary with rejectedFiles := summary.rejectedFiles + 1 }
    | false, true => { summary with rejectedFolders := summary.rejectedFolders + 1 }
  if record.synthesized then { counted with synthesized := counted.synthesized + 1 } else counted

/-- Counts several more records. -/
def addAll (summary : Summary) (records : List Record) : Summary :=
  records.foldl add summary

/-- Every accepted record. -/
def totalAccepted (summary : Summary) : Nat := summary.acceptedFiles + summary.acceptedFolders

/-- The wording of a summary. -/
def message (summary : Summary) : String :=
  toString summary.acceptedFiles ++ " files and " ++ toString summary.acceptedFolders ++
    " folders accepted (" ++ toString summary.synthesized ++ " synthesized), " ++
    toString summary.rejectedFiles ++ " files and " ++ toString summary.rejectedFolders ++
    " folders rejected"

/-- The counts of a list of records, each on its own. -/
def tally (records : List Record) : Summary where
  acceptedFiles := records.countP fun record => record.isAccepted && !record.isFolder
  acceptedFolders := records.countP fun record => record.isAccepted && record.isFolder
  synthesized := records.countP (·.synthesized)
  rejectedFiles := records.countP fun record => !record.isAccepted && !record.isFolder
  rejectedFolders := records.countP fun record => !record.isAccepted && record.isFolder

/-- Adding a record to the counts of others counts it with them. -/
theorem add_tally (records : List Record) (record : Record) :
    (tally records).add record = tally (records ++ [record]) := by
  cases accepted : record.isAccepted <;> cases folder : record.isFolder <;>
    cases synthesized : record.synthesized <;>
    simp [add, tally, accepted, folder, synthesized]

/-- Counting record by record gives the counts. -/
theorem addAll_tally (counted records : List Record) :
    (tally counted).addAll records = tally (counted ++ records) := by
  induction records generalizing counted with
  | nil => simp [addAll]
  | cons record records inductionHypothesis =>
      have next := inductionHypothesis (counted ++ [record])
      rw [addAll, List.foldl_cons, add_tally]
      simpa [addAll] using next

/-- Counting in two steps is counting at once. -/
theorem addAll_append (summary : Summary) (first second : List Record) :
    summary.addAll (first ++ second) = (summary.addAll first).addAll second :=
  List.foldl_append

end Summary

end Winnow
