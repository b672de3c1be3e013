import Winnow.Log.Noted
import Winnow.RelPath.Order
import Winnow.Summary
import Std.Data.ExtTreeMap

/-!
# Materializers

A job that creates what it accepts has to create the folders above an accepted item first,
even those that were rejected or never observed. The materializer takes decided items in any
order and gives out records in which every accepted item comes after the folders above it.

Its state is what it has to remember for that: the folders emitted as accepted, and the
rejected folders that are held back because an item below them may still be accepted.
`settle` moves a folder from the held ones to the emitted ones and `hold` adds a held one;
nothing else changes either store before the materializer is closed.
-/

namespace Winnow

/-- Where a materializer is in its life. -/
inductive Stage where
  | idle
  | accumulating
  | finalizing
  | done
  | cancelled
deriving DecidableEq, Repr

/-- The written name of a stage. -/
def Stage.label : Stage → String
  | idle => "idle"
  | accumulating => "accumulating"
  | finalizing => "finalizing"
  | done => "done"
  | cancelled => "cancelled"

/-- What a materializer can be asked to do, as long as it is open. -/
inductive Request where
  | observe
  | finalize
deriving DecidableEq, Repr

/-- The written name of a request. -/
def Request.label : Request → String
  | observe => "observe"
  | finalize => "finalize"

/-- Why a materializer refuses a request. -/
inductive MaterializerError where
  | cancelled
  | invalidStage (stage : Stage) (request : Request)
deriving DecidableEq, Repr

/-- The wording of a refusal. -/
def MaterializerError.message : MaterializerError → String
  | cancelled => "ancestor materialization was cancelled"
  | invalidStage stage request =>
      "cannot " ++ request.label ++ " while the materializer is " ++ stage.label

/-- The state of a materializer: the folders that have been emitted as accepted, the rejected
folders that are held back with their verdicts, and the counts of all records given out. -/
structure Materializer where
  folderAware : Bool := true
  stage : Stage := .idle
  emitted : Std.ExtTreeSet RelPath := ∅
  pending : Std.ExtTreeMap RelPath Verdict := ∅
  summary : Summary := {}

namespace Materializer

instance : Inhabited Materializer := ⟨{}⟩

/-- Why a request is refused at the present stage, if it is. -/
def refusal? (materializer : Materializer) (request : Request) : Option MaterializerError :=
  match materializer.stage with
  | .idle | .accumulating => none
  | .cancelled => some .cancelled
  | .finalizing => some (.invalidStage .finalizing request)
  | .done => some (.invalidStage .done request)

/-- Counts records that are given out. -/
def count (materializer : Materializer) (records : List Record) : Materializer :=
  { materializer with summary := materializer.summary.addAll records }

/-- Takes a folder from the held ones to the emitted ones. -/
def settle (materializer : Materializer) (folder : RelPath) : Materializer :=
  { materializer with
    pending := materializer.pending.erase folder
    emitted := materializer.emitted.insert folder }

/-- Holds a rejected folder back; a later verdict on it replaces an earlier one. -/
def hold (materializer : Materializer) (folder : RelPath) (verdict : Verdict) : Materializer :=
  { materializer with pending := materializer.pending.insert folder verdict }

/-- Lets go of all held folders. -/
def release (materializer : Materializer) : Materializer :=
  { materializer with pending := ∅ }

@[simp]
theorem mem_emitted_settle {materializer : Materializer} {folder path : RelPath} :
    path ∈ (materializer.settle folder).emitted ↔
      path = folder ∨ path ∈ materializer.emitted := by
  rw [settle, Std.ExtTreeSet.mem_insert, Std.LawfulEqOrd.compare_eq_iff_eq, eq_comm]

@[simp]
theorem mem_pending_settle {materializer : Materializer} {folder path : RelPath} :
    path ∈ (materializer.settle folder).pending ↔
      path ≠ folder ∧ path ∈ materializer.pending := by
  rw [settle, Std.ExtTreeMap.mem_erase, ne_eq, Std.LawfulEqOrd.compare_eq_iff_eq, ne_eq,
    eq_comm]

@[simp]
theorem mem_pending_hold {materializer : Materializer} {folder path : RelPath}
    {verdict : Verdict} :
    path ∈ (materializer.hold folder verdict).pending ↔
      path = folder ∨ path ∈ materializer.pending := by
  rw [hold, Std.ExtTreeMap.mem_insert, Std.LawfulEqOrd.compare_eq_iff_eq, eq_comm]

end Materializer

end Winnow
