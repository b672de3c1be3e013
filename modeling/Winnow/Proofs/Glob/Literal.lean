import Winnow.Glob.List
import Winnow.Proofs.Glob.Language

/-!
# Characters that stand for themselves

A character without a meaning is read as itself, and so is any character behind a backslash. Tokens
that are all characters stand for exactly one text, and at the end of a glob they stand for the end
of a name.
-/

namespace Winnow.Glob

open Text

section Reading

variable {previous : Option Char} {branch : List Token} {c : Char} {rest : List Char}

/-- The characters that, outside of groups and classes, do not stand for themselves. -/
def meaningful : List Char := ['*', '?', '[', '\x7b', '\x7d', '\\']

/-- A character without a meaning is read as itself. -/
theorem readTokens_plain_cons (plain : c ∉ meaningful) :
    readTokens previous [] branch (c :: rest) =
      readTokens (some c) [] (.literal c :: branch) rest := by
  simp only [meaningful, List.mem_cons, List.not_mem_nil, or_false, not_or] at plain
  by_cases comma : c = ','
  · subst comma
    rw [readTokens]
  · rw [readTokens] <;> grind

/-- A character behind a backslash is read as itself, whatever it is. -/
theorem readTokens_escaped_cons :
    readTokens previous [] branch ('\\' :: c :: rest) =
      readTokens (some c) [] (.literal c :: branch) rest := by
  rw [readTokens]

end Reading

section Standing

variable {left right tokens : List Token} {bytes : List UInt8} {chars : List Char} {name : String}
  {glob : Glob}

/-- Tokens after others stand for what is left by the others. -/
theorem allStandFor_append_iff :
    AllStandFor (left ++ right) bytes ↔
      ∃ lead rest, bytes = lead ++ rest ∧ AllStandFor left lead ∧ AllStandFor right rest := by
  induction left generalizing bytes with
  | nil =>
      constructor
      · exact fun stood => ⟨[], bytes, rfl, rfl, stood⟩
      · rintro ⟨_, rest, rfl, rfl, stood⟩
        exact stood
  | cons token left inductionHypothesis =>
      simp only [List.cons_append, AllStandFor, inductionHypothesis]
      constructor
      · rintro ⟨first, _, rfl, here, lead, rest, rfl, stood, after⟩
        exact ⟨first ++ lead, rest, (List.append_assoc ..).symm, ⟨first, lead, rfl, here, stood⟩,
          after⟩
      · rintro ⟨_, rest, rfl, ⟨first, lead, rfl, here, stood⟩, after⟩
        exact ⟨first, lead ++ rest, List.append_assoc .., here, lead, rest, rfl, stood, after⟩

/-- Characters stand for the text that they make up. -/
theorem allStandFor_literals_iff :
    AllStandFor (chars.map .literal) bytes ↔ bytes = Utf8.encode (String.ofList chars) := by
  induction chars generalizing bytes with
  | nil => exact Iff.rfl
  | cons c chars inductionHypothesis =>
      have encoded : Utf8.encode (String.ofList (c :: chars)) =
          bytesOf c ++ Utf8.encode (String.ofList chars) := by
        simp [Utf8.encode, bytesOf]
      simp only [List.map_cons, AllStandFor, Token.StandsFor, inductionHypothesis, encoded]
      constructor
      · rintro ⟨_, _, rfl, rfl, rfl⟩
        rfl
      · rintro rfl
        exact ⟨_, _, rfl, rfl, rfl⟩

/-- Characters alone match the text that they make up and nothing else. -/
theorem matchesTokens_literals_iff :
    matchesTokens (chars.map .literal) name = true ↔ name = String.ofList chars := by
  rw [matchesTokens_iff, allStandFor_literals_iff]
  exact ⟨fun same => Utf8.encode_injective same, congrArg Utf8.encode⟩

/-- A glob of characters matches what they make up, alone and in a list. -/
theorem matches_literals_iff {other : String} (literal : glob.tokens = name.toList.map .literal) :
    (glob.matchesName other = true ↔ other = name) ∧
      (glob.matchesInList other = true ↔ other = name) := by
  have alone : glob.matchesName other = true ↔ other = name := by
    rw [matchesName, literal, matchesTokens_literals_iff, String.ofList_toList]
  have unrestricted : glob.requiresExtension = false := by
    simp [requiresExtension, literal, Token.isLiteral]
  refine ⟨alone, ?_⟩
  rw [matchesInList, unrestricted, Bool.false_and, Bool.not_false, Bool.and_true, alone]

/-- A name that is matched by tokens with characters behind them ends in these characters. -/
theorem exists_lead_of_matchesTokens
    (matched : matchesTokens (tokens ++ chars.map .literal) name = true) :
    ∃ lead, name = lead ++ String.ofList chars := by
  rw [matchesTokens_iff, allStandFor_append_iff] at matched
  obtain ⟨lead, rest, cut, -, stood⟩ := matched
  rw [allStandFor_literals_iff] at stood
  have starts : Utf8.StartsCharacter rest := by
    rw [stood]
    cases chars with
    | nil => exact nofun
    | cons c chars =>
        have encoded : Utf8.encode (String.ofList (c :: chars)) =
            String.utf8EncodeChar c ++ Utf8.encode (String.ofList chars) := by
          simp [Utf8.encode]
        rw [encoded]
        exact Utf8.startsCharacter_utf8EncodeChar_append c _
  obtain ⟨before, after, rfl, -, rfl⟩ := Utf8.exists_texts_of_encode_eq cut starts
  exact ⟨before, by rw [Utf8.encode_injective stood]⟩

end Standing

end Winnow.Glob
