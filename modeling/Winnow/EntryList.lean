import Winnow.FilterError
import Winnow.Text.Pieces

/-!
# Lists of entries

A list option holds entries separated by semicolons. Empty entries are passed over; an option
without any other entry counts as not configured. Entries are read in order, and the first
one that cannot be read is reported.
-/

namespace Winnow

/-- The entries of a list option that are not empty, in order. -/
def entryTexts (text : String) : List String :=
  (Text.pieces (· == ';') text).filter (· != "")

/-- The entries of a list are those of its two sides when a semicolon stands between them. -/
theorem entryTexts_append (left right : String) :
    entryTexts (left ++ String.ofList [';'] ++ right) = entryTexts left ++ entryTexts right := by
  rw [entryTexts, Text.pieces_append_cut (by decide), List.filter_append]
  rfl

/-- The entries of a configured list option; there is at least one. -/
structure EntryList (α : Type) where
  entries : List α
  entries_ne_nil : entries ≠ []

namespace EntryList

variable {α : Type}

/-- The entries as a list, unless there are none. -/
def ofEntries? (entries : List α) : Option (EntryList α) :=
  if configured : entries ≠ [] then some ⟨entries, configured⟩ else none

/-- Reads every entry of an option with `read`. -/
def parse (read : String → Except FilterError α) (text : String) :
    Except FilterError (Option (EntryList α)) := do
  return ofEntries? (← (entryTexts text).mapM read)

@[simp]
theorem ofEntries?_nil : ofEntries? ([] : List α) = none := rfl

end EntryList

end Winnow
