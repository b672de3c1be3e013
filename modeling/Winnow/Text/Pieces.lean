/-!
# Pieces of a text

A text is cut at every character of a class; the characters of the class vanish. There is
always one piece more than cuts, so two neighbouring cuts leave an empty piece between them.
No piece contains a character of the class, and every other character of the text is in a
piece. Cutting a text at one of its cuts cuts the two sides on their own.
-/

namespace Winnow.Text

/-- The pieces of `text` between the characters that satisfy `isCut`. -/
def pieces (isCut : Char → Bool) (text : String) : List String :=
  (text.toList.splitOnP isCut).map String.ofList

/-- There is at least one piece. -/
theorem pieces_ne_nil (isCut : Char → Bool) (text : String) : pieces isCut text ≠ [] := by
  simp [pieces, List.splitOnP_ne_nil]

/-- A cut at the start of a text ends an empty piece; any other character belongs to the first
piece. -/
theorem pieces_cons (isCut : Char → Bool) (c : Char) (chars : List Char) :
    pieces isCut (String.ofList (c :: chars)) =
      if isCut c then "" :: pieces isCut (String.ofList chars)
      else (pieces isCut (String.ofList chars)).modifyHead (String.ofList [c] ++ ·) := by
  simp only [pieces, String.toList_ofList, List.splitOnP_cons_eq_if_modifyHead]
  split
  · rfl
  · obtain ⟨first, others, blocks⟩ :=
      List.exists_cons_of_ne_nil (List.splitOnP_ne_nil isCut chars)
    rw [blocks, List.modifyHead_cons, List.map_cons, List.map_cons, List.modifyHead_cons,
      ← String.ofList_append, List.singleton_append]

/-- No block of a cut list holds an element of the cutting class. -/
theorem eq_false_of_mem_splitOnP {isCut : Char → Bool} {chars block : List Char}
    (member : block ∈ chars.splitOnP isCut) : ∀ c ∈ block, isCut c = false := by
  induction chars generalizing block with
  | nil => simp_all [List.splitOnP_nil]
  | cons head tail inductionHypothesis =>
      rw [List.splitOnP_cons_eq_if_modifyHead] at member
      split at member
      · rcases List.mem_cons.1 member with rfl | later
        · simp
        · exact inductionHypothesis later
      · rename_i notCut
        obtain ⟨first, others, blocks⟩ :=
          List.exists_cons_of_ne_nil (List.splitOnP_ne_nil isCut tail)
        rw [blocks, List.modifyHead_cons] at member
        rcases List.mem_cons.1 member with rfl | later
        · intro c present
          rcases List.mem_cons.1 present with rfl | inFirst
          · simpa using notCut
          · exact inductionHypothesis (blocks ▸ List.mem_cons_self) c inFirst
        · exact inductionHypothesis (blocks ▸ List.mem_cons_of_mem _ later)

/-- No piece contains a character of the cutting class. -/
theorem eq_false_of_mem_pieces {isCut : Char → Bool} {text piece : String}
    (member : piece ∈ pieces isCut text) : ∀ c ∈ piece.toList, isCut c = false := by
  obtain ⟨block, inBlocks, rfl⟩ := List.mem_map.1 member
  simpa using eq_false_of_mem_splitOnP inBlocks

/-- A text holds a character at which it is not cut exactly if one of its pieces does. -/
theorem exists_mem_pieces_iff {isCut : Char → Bool} {c : Char} (uncut : isCut c = false)
    (text : String) : (∃ piece ∈ pieces isCut text, c ∈ piece.toList) ↔ c ∈ text.toList := by
  suffices general : ∀ chars : List Char,
      (∃ block ∈ chars.splitOnP isCut, c ∈ block) ↔ c ∈ chars by
    rw [← general text.toList]
    constructor
    · rintro ⟨piece, listed, present⟩
      obtain ⟨block, inBlocks, rfl⟩ := List.mem_map.1 listed
      exact ⟨block, inBlocks, by simpa using present⟩
    · rintro ⟨block, inBlocks, present⟩
      exact ⟨String.ofList block, List.mem_map_of_mem inBlocks, by simpa using present⟩
  intro chars
  induction chars with
  | nil => simp [List.splitOnP_nil]
  | cons head tail inductionHypothesis =>
      rw [List.splitOnP_cons_eq_if_modifyHead, List.mem_cons, ← inductionHypothesis]
      split
      · rename_i isCutting
        have different : c ≠ head := by
          rintro rfl
          cases uncut.symm.trans isCutting
        simp [different]
      · obtain ⟨first, others, blocks⟩ :=
          List.exists_cons_of_ne_nil (List.splitOnP_ne_nil isCut tail)
        simp [blocks, or_assoc]

/-- A text without characters of the class is its only piece. -/
theorem pieces_eq_singleton {isCut : Char → Bool} {text : String}
    (uncut : ∀ c ∈ text.toList, isCut c = false) : pieces isCut text = [text] := by
  simp [pieces, List.splitOnP_eq_singleton uncut]

/-- Classes that agree on the characters of a text cut it in the same places. -/
theorem pieces_congr {isCut isOtherCut : Char → Bool} {text : String}
    (agree : ∀ c ∈ text.toList, isCut c = isOtherCut c) :
    pieces isCut text = pieces isOtherCut text := by
  suffices general : ∀ chars : List Char, (∀ c ∈ chars, isCut c = isOtherCut c) →
      chars.splitOnP isCut = chars.splitOnP isOtherCut by
    rw [pieces, pieces, general text.toList agree]
  intro chars
  induction chars with
  | nil => exact fun _ => rfl
  | cons head tail inductionHypothesis =>
      intro agree
      obtain ⟨first, others⟩ := List.forall_mem_cons.1 agree
      rw [List.splitOnP_cons_eq_if_modifyHead, List.splitOnP_cons_eq_if_modifyHead, first,
        inductionHypothesis others]

/-- A cut between two texts separates their pieces. -/
theorem pieces_append_cut {isCut : Char → Bool} {cut : Char} (isCutting : isCut cut = true)
    (left right : String) :
    pieces isCut (left ++ String.ofList [cut] ++ right) =
      pieces isCut left ++ pieces isCut right := by
  simp [pieces, List.splitOnP_append_cons _ _ isCutting]

/-- The pieces of a text make up the text again when the cuts are put back between them. -/
theorem intercalate_pieces (cut : Char) (text : String) :
    (String.ofList [cut]).intercalate (pieces (· == cut) text) = text := by
  apply String.toList_injective
  rw [String.toList_intercalate, pieces, List.map_map, ← List.splitOn_eq_splitOnP]
  simp [Function.comp_def, List.intercalate_splitOn]

end Winnow.Text
