import Winnow.EntryList
import Winnow.RelPath.Basic

/-!
# Path entries

A path entry names one place below the source root. It covers the item at that place and
everything below it: an item is covered when its path starts with the names of the entry,
each name being compared as a whole.
-/

namespace Winnow

/-- Whether each name of `pattern` is the name at the same place of `candidate`. -/
def namesCover (pattern candidate : List String) : Bool :=
  decide (pattern.length ≤ candidate.length)
    && (pattern.zip candidate).all fun (expected, actual) => expected == actual

/-- Names cover exactly the places that start with them. -/
theorem namesCover_iff {pattern candidate : List String} :
    namesCover pattern candidate = true ↔ pattern <+: candidate := by
  induction pattern generalizing candidate with
  | nil => simp [namesCover]
  | cons expected names inductionHypothesis =>
      cases candidate with
      | nil => simp [namesCover]
      | cons actual others =>
          have rest := @inductionHypothesis others
          simp only [namesCover, Bool.and_eq_true, decide_eq_true_eq] at rest
          simp only [namesCover, List.length_cons, List.zip_cons_cons, List.all_cons,
            Bool.and_eq_true, decide_eq_true_eq, beq_iff_eq, List.cons_prefix_cons,
            Nat.add_le_add_iff_right, ← rest]
          exact and_left_comm

/-- The path that an option value of the given kind names. It may be the source root, but
nothing that could leave it. -/
def readRelPath (kind : Kind) (text : String) : Except FilterError RelPath :=
  if '\x00' ∈ text.toList then .error ⟨kind, text, .path .nulByte⟩
  else if ".." ∈ segmentsOf text then .error ⟨kind, text, .path .parentSegment⟩
  else .ok (RelPath.parse text)

/-- A path entry, with the text it was read from. -/
structure PathEntry where
  text : String
  path : RelPath
deriving DecidableEq

/-- Reads an entry; unlike an option value of its own, it must not name the source root. -/
def PathEntry.parse (kind : Kind) (text : String) : Except FilterError PathEntry :=
  match readRelPath kind text with
  | .error error => .error error
  | .ok path =>
      if path.isRoot then .error ⟨kind, text, .path .sourceRoot⟩ else .ok ⟨text, path⟩

/-- Whether an entry covers a place. -/
def PathEntry.covers (entry : PathEntry) (candidate : RelPath) : Bool :=
  namesCover entry.path.segments candidate.segments

/-- A configured list of path entries. -/
abbrev PathList := EntryList PathEntry

namespace PathList

/-- Reads a list of path entries. -/
def parse (kind : Kind) (text : String) : Except FilterError (Option PathList) :=
  EntryList.parse (PathEntry.parse kind) text

/-- The first entry that covers a place. -/
def covering? (list : PathList) (candidate : RelPath) : Option PathEntry :=
  list.entries.find? (·.covers candidate)

/-- Whether some entry covers a place. -/
def covers (list : PathList) (candidate : RelPath) : Bool :=
  (list.covering? candidate).isSome

/-- A list covers a place when one of its entries lies at or above it. -/
theorem covers_iff {list : PathList} {path : RelPath} :
    list.covers path = true ↔ ∃ entry ∈ list.entries, entry.path.segments <+: path.segments := by
  simp [covers, covering?, PathEntry.covers, namesCover_iff]

/-- What lies below a covered place is covered. -/
theorem covers_of_prefix {list : PathList} {upper lower : RelPath}
    (above : upper.segments <+: lower.segments) (covered : list.covers upper = true) :
    list.covers lower = true := by
  obtain ⟨entry, listed, starts⟩ := covers_iff.1 covered
  exact covers_iff.2 ⟨entry, listed, starts.trans above⟩

end PathList

end Winnow
