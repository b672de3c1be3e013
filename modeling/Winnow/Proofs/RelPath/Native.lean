import Winnow.Proofs.RelPath.NormalForm
import Winnow.Proofs.Text.Utf8

/-!
# Paths of the host as texts

A host path written as a text is read in two turns. The host separates names at slashes, and each
name is then read at backslashes too. Whether the path leaves the place where reading starts is
looked at after the first turn alone (`LeavesOnHost`).

`ofNative?_encode` says what reading comes to, and `ofNative?_encode_parent_iff` which paths the
second turn lets through: the parent folder's name is part of a path exactly when it stands between
backslashes inside a name of the host.
-/

namespace Winnow.RelPath

open Text

/-- The names that the host reads in a path. -/
def hostNames (text : String) : List String := pieces (· == '/') text

/-- The host itself takes a path elsewhere: the path is absolute, or the parent folder's name is one
of its names. -/
def LeavesOnHost (text : String) : Prop :=
  text.toList.head? = some '/' ∨ ".." ∈ hostNames text

instance (text : String) : Decidable (LeavesOnHost text) :=
  inferInstanceAs (Decidable (_ ∨ _))

variable {text : String}

/-- The bytes of a text hold the byte of the slash when the text holds a slash. -/
theorem slashByte_mem_encode_iff : slashByte ∈ Utf8.encode text ↔ '/' ∈ text.toList :=
  Utf8.mem_encode_iff (by decide) (by decide)

/-- The bytes of texts with slashes between them. -/
theorem encode_intercalate (texts : List String) :
    Utf8.encode ("/".intercalate texts) = [slashByte].intercalate (texts.map Utf8.encode) := by
  induction texts with
  | nil => rfl
  | cons text rest inductionHypothesis =>
      cases rest with
      | nil => simp
      | cons second rest =>
          rw [String.intercalate_cons_cons, Utf8.encode_append, Utf8.encode_append,
            inductionHypothesis, List.map_cons, List.map_cons, List.map_cons,
            List.intercalate_cons_cons]
          rfl

/-- The names of a host path, as bytes, are the names that the host reads in its text. -/
theorem splitOn_encode (text : String) :
    (Utf8.encode text).splitOn slashByte = (hostNames text).map Utf8.encode := by
  have joined : "/".intercalate (hostNames text) = text := intercalate_pieces '/' text
  have uncut : ∀ name ∈ (hostNames text).map Utf8.encode, slashByte ∉ name := by
    intro name member
    obtain ⟨piece, listed, rfl⟩ := List.mem_map.1 member
    rw [slashByte_mem_encode_iff]
    intro slash
    cases eq_false_of_mem_pieces listed '/' slash
  have nonempty : (hostNames text).map Utf8.encode ≠ [] := by
    rw [Ne, List.map_eq_nil_iff]
    exact pieces_ne_nil _ text
  rw [← List.splitOn_intercalate slashByte uncut nonempty, ← encode_intercalate, joined]

/-- A host path is absolute when its text starts with a slash. -/
theorem head?_encode_eq_slash_iff :
    (Utf8.encode text).head? = some slashByte ↔ text.toList.head? = some '/' := by
  rw [List.head?_eq_some_iff, List.head?_eq_some_iff]
  constructor
  · rintro ⟨rest, bytes⟩
    have cut : Utf8.encode text = Utf8.encode "/" ++ rest := bytes
    obtain ⟨after, rfl, -⟩ := Utf8.exists_text_of_encode_eq cut
    exact ⟨after.toList, by simp⟩
  · rintro ⟨rest, chars⟩
    exact ⟨rest.flatMap String.utf8EncodeChar, by rw [Utf8.encode, chars]; rfl⟩

/-- The parent folder's name is a name of a host path exactly when the host reads it in the text. -/
theorem parentName_mem_splitOn_iff :
    parentName ∈ (Utf8.encode text).splitOn slashByte ↔ ".." ∈ hostNames text := by
  have bytes : parentName = Utf8.encode ".." := by decide
  rw [splitOn_encode, bytes, List.mem_map]
  constructor
  · rintro ⟨name, listed, same⟩
    exact Utf8.encode_injective same ▸ listed
  · intro listed
    exact ⟨"..", listed, rfl⟩

/-- The names that the host reads make up the path that the text denotes. -/
theorem ofSegments_hostNames (text : String) : ofSegments (hostNames text) = parse text := by
  have joined : "/".intercalate (hostNames text) = text := intercalate_pieces '/' text
  rw [← parse_intercalate, joined]

/-- A host path written as a text is taken over as the path that the text denotes, unless the host
itself takes it elsewhere. -/
theorem ofNative?_encode (text : String) :
    ofNative? (Utf8.encode text) = if LeavesOnHost text then none else some (parse text) := by
  have names : ((Utf8.encode text).splitOn slashByte).map Utf8.decodeLossy = hostNames text := by
    rw [splitOn_encode, List.map_map]
    simp [Function.comp_def]
  have refused : (Utf8.encode text).head? = some slashByte ∨
      parentName ∈ (Utf8.encode text).splitOn slashByte ↔ LeavesOnHost text :=
    or_congr head?_encode_eq_slash_iff parentName_mem_splitOn_iff
  rw [ofNative?, names, ofSegments_hostNames]
  by_cases leaves : LeavesOnHost text
  · rw [if_pos leaves]
    exact if_pos (refused.2 leaves)
  · rw [if_neg leaves]
    exact if_neg (mt refused.1 leaves)

/-- A host path written as a text is refused exactly if it is absolute or the host reads the parent
folder's name in it, and is otherwise taken over as the path that the text denotes. The parent
folder's name is part of such a path exactly when it stands, between backslashes or next to one,
inside a name of the host. -/
theorem ofNative?_encode_parent_iff (text : String) :
    ofNative? (Utf8.encode text) = (if LeavesOnHost text then none else some (parse text)) ∧
      ((∃ path ∈ ofNative? (Utf8.encode text), ".." ∈ path.segments) ↔
        ¬LeavesOnHost text ∧ ∃ name ∈ hostNames text, ".." ∈ segmentsOf name) := by
  refine ⟨ofNative?_encode text, ?_⟩
  have segments : (parse text).segments = (hostNames text).flatMap segmentsOf := by
    rw [← ofSegments_hostNames, segments_ofSegments]
  rw [ofNative?_encode, ← List.mem_flatMap, ← segments]
  by_cases leaves : LeavesOnHost text
  · simp [leaves]
  · simp [leaves]

/-- A path with the parent folder's name between backslashes is taken over, although the name leads
out of the folder before it. -/
theorem ofNative?_parent_between_backslashes :
    ¬(ofNative? (Utf8.encode "a\\..\\b") = none ↔
        "a\\..\\b".toList.head? = some '/' ∨ ".." ∈ segmentsOf "a\\..\\b") ∧
      ofNative? (Utf8.encode "a\\..\\b") = some (parse "a/../b") := by
  decide

end Winnow.RelPath
