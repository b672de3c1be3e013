import Winnow.Item
import Winnow.Verdict

/-!
# Records

A record is what a job is told about one place: the verdict on an item that was observed, or
a folder that is forwarded because it lies above an accepted item. A folder that was forwarded
without ever having been observed is marked as synthesized.
-/

namespace Winnow

/-- What a job does about a record. -/
inductive Action where
  | createFolder
  | transfer
  | ignore
deriving DecidableEq, Repr

/-- The written name of an action. -/
def Action.label : Action → String
  | createFolder => "create-folder"
  | transfer => "transfer"
  | ignore => "ignore"

/-- One entry of the stream that a job receives. -/
structure Record where
  path : RelPath
  isFolder : Bool
  verdict : Verdict
  synthesized : Bool
deriving DecidableEq

namespace Record

/-- The record of an item that was observed. -/
def observed (path : RelPath) (isFolder : Bool) (verdict : Verdict) : Record where
  path := path
  isFolder := isFolder
  verdict := verdict
  synthesized := false

/-- The record of a folder that is forwarded for the sake of an item below it. -/
def ancestor (path : RelPath) (synthesized : Bool) : Record where
  path := path
  isFolder := true
  verdict := .accepted .ancestorOfMatch
  synthesized := synthesized

/-- Whether the job takes part in the place. -/
def isAccepted (record : Record) : Bool := record.verdict.isAccepted

/-- What the job does. -/
def action (record : Record) : Action :=
  if record.isAccepted then if record.isFolder then .createFolder else .transfer else .ignore

/-- The wording of a record. -/
def message (record : Record) : String :=
  contentWord record.isFolder ++ " '" ++ record.path.render ++ "': " ++ record.verdict.message

end Record

end Winnow
