import Mathlib.Data.List.Induction
import Winnow.Proofs.Glob.Literal
import Winnow.Text.Pieces

/-!
# Globs of stars

A starred text holds no character with a meaning in a glob other than stars. `parse_starred` says
that it is read as a glob, and that the glob matches the names which come from the text by putting
any text in the place of each star (`FillsStars`), so that several stars in a row mean what one star
means. It says so of names without slashes: two stars alone match every name, and one star matches
no slash.

A name is matched byte by byte, and a star may stand for bytes that end inside a character. It does
so only before another star. What follows a star otherwise starts a character, so that the bytes for
which the star stands are a text (`allStandFor_run_iff`).
-/

namespace Winnow

/-- Pieces with one run after each of them but the last. -/
def weave : List String → List String → String
  | piece :: pieces, run :: runs => piece ++ run ++ weave pieces runs
  | piece :: _, [] => piece
  | [], _ => ""

/-- A name is a text with some text put in the place of each star. -/
def FillsStars (text name : String) : Prop :=
  ∃ runs : List String, runs.length + 1 = (Text.pieces (· == '*') text).length ∧
    name = weave (Text.pieces (· == '*') text) runs

section Filling

variable {name : String} {chars : List Char}

theorem fillsStars_nil : FillsStars (String.ofList []) name ↔ name = "" := by
  have pieces : Text.pieces (· == '*') (String.ofList []) = [""] :=
    Text.pieces_eq_singleton fun c listed => absurd listed List.not_mem_nil
  simp [FillsStars, pieces, weave]

/-- Any text may stand in the place of a star. -/
theorem fillsStars_star_cons :
    FillsStars (String.ofList ('*' :: chars)) name ↔
      ∃ run after, name = run ++ after ∧ FillsStars (String.ofList chars) after := by
  have pieces : Text.pieces (· == '*') (String.ofList ('*' :: chars)) =
      "" :: Text.pieces (· == '*') (String.ofList chars) := by
    rw [Text.pieces_cons, if_pos (beq_self_eq_true '*')]
  rw [FillsStars, pieces]
  constructor
  · rintro ⟨runs, counted, rfl⟩
    cases runs with
    | nil =>
        have none : Text.pieces (· == '*') (String.ofList chars) = [] := by simpa using counted
        exact absurd none (Text.pieces_ne_nil _ _)
    | cons run runs =>
        exact ⟨run, _, by rw [weave, String.empty_append], runs, by simpa using counted, rfl⟩
  · rintro ⟨run, after, rfl, runs, counted, rfl⟩
    exact ⟨run :: runs, by simp [counted], by rw [weave, String.empty_append]⟩

/-- Every other character stands for itself. -/
theorem fillsStars_char_cons {c : Char} (other : c ≠ '*') :
    FillsStars (String.ofList (c :: chars)) name ↔
      ∃ after, name = String.ofList [c] ++ after ∧ FillsStars (String.ofList chars) after := by
  obtain ⟨piece, pieces, cut⟩ := List.exists_cons_of_ne_nil
    (Text.pieces_ne_nil (· == '*') (String.ofList chars))
  have longer : Text.pieces (· == '*') (String.ofList (c :: chars)) =
      (String.ofList [c] ++ piece) :: pieces := by
    rw [Text.pieces_cons, if_neg (by simpa using other), cut, List.modifyHead_cons]
  have woven (runs : List String) : weave ((String.ofList [c] ++ piece) :: pieces) runs =
      String.ofList [c] ++ weave (piece :: pieces) runs := by
    cases runs with
    | nil => rfl
    | cons run runs => simp only [weave, String.append_assoc]
  rw [FillsStars, longer]
  constructor
  · rintro ⟨runs, counted, rfl⟩
    exact ⟨weave (piece :: pieces) runs, woven runs, runs, by rwa [cut], by rw [cut]⟩
  · rintro ⟨_, rfl, runs, counted, rfl⟩
    rw [cut] at counted ⊢
    exact ⟨runs, counted, (woven runs).symm⟩

/-- Filling the stars of two texts one after the other. -/
theorem fillsStars_append {left right : List Char} :
    FillsStars (String.ofList (left ++ right)) name ↔
      ∃ lead after, name = lead ++ after ∧ FillsStars (String.ofList left) lead ∧
        FillsStars (String.ofList right) after := by
  induction left generalizing name with
  | nil =>
      simp only [fillsStars_nil]
      constructor
      · exact fun filled => ⟨"", name, String.empty_append.symm, rfl, filled⟩
      · rintro ⟨_, after, rfl, rfl, filled⟩
        rwa [String.empty_append]
  | cons c left inductionHypothesis =>
      rw [List.cons_append]
      by_cases star : c = '*'
      · subst star
        simp only [fillsStars_star_cons, inductionHypothesis]
        constructor
        · rintro ⟨run, _, rfl, lead, after, rfl, filled, rest⟩
          exact ⟨run ++ lead, after, String.append_assoc.symm, ⟨run, lead, rfl, filled⟩, rest⟩
        · rintro ⟨_, after, rfl, ⟨run, lead, rfl, filled⟩, rest⟩
          exact ⟨run, lead ++ after, String.append_assoc, lead, after, rfl, filled, rest⟩
      · simp only [fillsStars_char_cons star, inductionHypothesis]
        constructor
        · rintro ⟨_, rfl, lead, after, rfl, filled, rest⟩
          exact ⟨_, after, String.append_assoc.symm, ⟨lead, rfl, filled⟩, rest⟩
        · rintro ⟨_, after, rfl, ⟨lead, rfl, filled⟩, rest⟩
          exact ⟨lead ++ after, String.append_assoc, lead, after, rfl, filled, rest⟩

/-- Any text may stand in the place of several stars in a row. -/
theorem fillsStars_replicate (count : Nat) (name : String) :
    FillsStars (String.ofList (List.replicate (count + 1) '*')) name := by
  induction count with
  | zero => exact fillsStars_star_cons.2 ⟨name, "", String.append_empty.symm, fillsStars_nil.2 rfl⟩
  | succ count inductionHypothesis =>
      exact fillsStars_star_cons.2 ⟨"", name, String.empty_append.symm, inductionHypothesis⟩

/-- Any text may stand between what two texts stand for when there are stars between the two,
however many they are. -/
theorem fillsStars_row {left right : String} (count : Nat) :
    FillsStars (left ++ String.ofList (List.replicate (count + 1) '*') ++ right) name ↔
      ∃ lead run after, name = lead ++ run ++ after ∧ FillsStars left lead ∧
        FillsStars right after := by
  have whole : left ++ String.ofList (List.replicate (count + 1) '*') ++ right =
      String.ofList (left.toList ++ List.replicate (count + 1) '*' ++ right.toList) :=
    String.toList_injective (by simp)
  rw [whole, fillsStars_append]
  simp only [fillsStars_append, String.ofList_toList]
  constructor
  · rintro ⟨_, after, rfl, ⟨lead, run, rfl, filled, -⟩, rest⟩
    exact ⟨lead, run, after, rfl, filled, rest⟩
  · rintro ⟨lead, run, after, rfl, filled, rest⟩
    exact ⟨lead ++ run, after, rfl, ⟨lead, run, rfl, filled, fillsStars_replicate count run⟩, rest⟩

end Filling

namespace Glob

open Text

/-- The characters other than stars that do not stand for themselves outside of groups and classes,
and the slash, which no glob may hold. -/
def unstarred : List Char := ['?', '[', '\x7b', '\x7d', '\\', '/']

/-- Every character of a text is a star or stands for itself. -/
def IsStarred (text : String) : Prop :=
  ∀ c ∈ text.toList, c ∉ unstarred

instance (text : String) : Decidable (IsStarred text) :=
  inferInstanceAs (Decidable (∀ c ∈ text.toList, c ∉ unstarred))

/-- The token of a character of a starred text. -/
def starToken (c : Char) : Token :=
  if c = '*' then .run else .literal c

section Reading

variable {previous : Option Char} {branch : List Token} {c : Char} {rest chars : List Char}

/-- A character that is not the first of two stars is read by itself. -/
theorem readTokens_starred_cons (starred : c ∉ unstarred)
    (alone : c = '*' → rest.head? ≠ some '*') :
    readTokens previous [] branch (c :: rest) =
      readTokens (some c) [] (starToken c :: branch) rest := by
  by_cases star : c = '*'
  · subst star
    rw [readTokens, starToken, if_pos rfl]
    rintro after rfl
    exact alone rfl rfl
  · have plain : c ∉ meaningful := fun member =>
      (List.mem_cons.1 member).elim star fun other =>
        starred (List.mem_append_left ['/'] other)
    rw [starToken, if_neg star, readTokens_plain_cons plain]

/-- Two stars are read as a star and another one, unless they are all there is. -/
theorem readTokens_star_star (more : branch = [] → rest ≠ []) :
    readTokens previous [] branch ('*' :: '*' :: rest) =
      readTokens (some '*') [] (.run :: .run :: branch) rest := by
  rw [readTokens]
  cases branch with
  | nil =>
      have continued : rest.isEmpty = false := by simpa using more rfl
      simp [addStarPair, continued]
  | cons token older => simp [addStarPair]

/-- A starred text is read character by character, unless it is two stars and nothing else. -/
theorem readTokens_starred (starred : ∀ c ∈ chars, c ∉ unstarred)
    (apart : branch = [] → chars ≠ ['*', '*']) :
    readTokens previous [] branch chars = .ok (branch.reverse ++ chars.map starToken) := by
  -- Two stars are read at once, so the induction goes on by one character or by two.
  induction chars using List.twoStepInduction generalizing previous branch with
  | nil => simp [readTokens]
  | singleton c =>
      rw [readTokens_starred_cons (starred c List.mem_cons_self) (by simp)]
      simp [readTokens]
  | cons_cons c next rest afterPair afterOne =>
      obtain ⟨first, others⟩ := List.forall_mem_cons.1 starred
      by_cases pair : c = '*' ∧ next = '*'
      · obtain ⟨rfl, rfl⟩ := pair
        have more : branch = [] → rest ≠ [] := by
          rintro empty rfl
          exact apart empty rfl
        rw [readTokens_star_star more,
          afterPair (fun c listed => others c (List.mem_cons_of_mem _ listed)) (by simp)]
        simp [starToken]
      · have alone : c = '*' → (next :: rest).head? ≠ some '*' := by
          intro star next
          exact pair ⟨star, by simpa using next⟩
        rw [readTokens_starred_cons first alone, afterOne next others (by simp)]
        simp

/-- The tokens of a starred text. -/
theorem tokensOf_starred {text : String} (starred : IsStarred text) :
    tokensOf text =
      .ok (if text = "**" then [.everything] else text.toList.map starToken) := by
  split
  · rename_i stars
    subst stars
    simp [tokensOf, readTokens, addStarPair]
  · rename_i other
    have apart : text.toList ≠ ['*', '*'] := fun chars =>
      other (String.toList_injective chars)
    rw [tokensOf, readTokens_starred starred fun _ => apart]
    rfl

end Reading

section Matching

variable {name : String} {chars : List Char}

/-- Bytes for which the characters of a starred text stand start a character, unless the text starts
with a star. -/
theorem startsCharacter_of_allStandFor {c : Char} {bytes : List UInt8} (other : c ≠ '*')
    (stood : AllStandFor ((c :: chars).map starToken) bytes) : Utf8.StartsCharacter bytes := by
  rw [List.map_cons, starToken, if_neg other] at stood
  obtain ⟨lead, rest, rfl, rfl, -⟩ := stood
  exact Utf8.startsCharacter_utf8EncodeChar_append c rest

/-- A star stands for some text that what follows the star leaves. -/
theorem allStandFor_run_iff (unslashed : '/' ∉ name.toList) :
    AllStandFor (.run :: chars.map starToken) (Utf8.encode name) ↔
      ∃ run after, name = run ++ after ∧
        AllStandFor (chars.map starToken) (Utf8.encode after) := by
  rw [← slash_mem_encode_iff] at unslashed
  constructor
  · rintro ⟨lead, rest, cut, -, stood⟩
    cases chars with
    | nil =>
        obtain rfl : rest = [] := stood
        exact ⟨name, "", String.append_empty.symm, rfl⟩
    | cons c chars =>
        by_cases star : c = '*'
        · -- The bytes may be cut inside a character here, but the next star can stand for all of
          -- what the two of them stand for.
          subst star
          obtain ⟨next, rest, rfl, -, stood⟩ := stood
          refine ⟨"", name, String.empty_append.symm, lead ++ next, rest, ?_, ?_, stood⟩
          · rw [cut, List.append_assoc]
          · intro member
            apply unslashed
            rw [cut, ← List.append_assoc]
            exact List.mem_append_left _ member
        · obtain ⟨run, after, rfl, -, rfl⟩ :=
            Utf8.exists_texts_of_encode_eq cut (startsCharacter_of_allStandFor star stood)
          exact ⟨run, after, rfl, stood⟩
  · rintro ⟨run, after, rfl, stood⟩
    rw [Utf8.encode_append] at unslashed ⊢
    exact ⟨_, _, rfl, fun member => unslashed (List.mem_append_left _ member), stood⟩

/-- The characters of a starred text stand for the names that fill its stars. -/
theorem allStandFor_starTokens_iff (unslashed : '/' ∉ name.toList) :
    AllStandFor (chars.map starToken) (Utf8.encode name) ↔
      FillsStars (String.ofList chars) name := by
  induction chars generalizing name with
  | nil =>
      rw [fillsStars_nil]
      constructor
      · exact fun bytes => Utf8.encode_injective bytes
      · rintro rfl
        rfl
  | cons c chars inductionHypothesis =>
      have later (lead after : String) (cut : name = lead ++ after) :
          AllStandFor (chars.map starToken) (Utf8.encode after) ↔
            FillsStars (String.ofList chars) after := by
        apply inductionHypothesis
        intro member
        rw [cut, String.toList_append] at unslashed
        exact unslashed (List.mem_append_right _ member)
      by_cases star : c = '*'
      · subst star
        rw [List.map_cons, starToken, if_pos rfl, allStandFor_run_iff unslashed,
          fillsStars_star_cons]
        exact exists_congr fun run => exists_congr fun after => and_congr_right (later run after)
      · rw [List.map_cons, starToken, if_neg star, allStandFor_literal_iff,
          fillsStars_char_cons star]
        exact exists_congr fun after => and_congr_right (later _ after)

/-- A starred text is read as a glob that matches, among the names without slashes, those which fill
its stars. -/
theorem exists_parse_eq_ok (kind : Kind) {text : String} (starred : IsStarred text) :
    ∃ glob, Glob.parse kind text = .ok glob ∧
      ∀ name : String, '/' ∉ name.toList →
        (glob.matchesName name = true ↔ FillsStars text name) := by
  have unslashed : '/' ∉ text.toList := by
    intro listed
    exact starred '/' listed (by decide)
  refine ⟨_, by rw [Glob.parse, if_neg unslashed, tokensOf_starred starred], ?_⟩
  intro name unslashedName
  rw [matchesName, matchesTokens_iff]
  dsimp only
  split
  · rename_i stars
    subst stars
    have everything : AllStandFor [.everything] (Utf8.encode name) :=
      ⟨Utf8.encode name, [], (List.append_nil _).symm, trivial, rfl⟩
    have fills : FillsStars "**" name := fillsStars_replicate 1 name
    exact iff_of_true everything fills
  · rw [allStandFor_starTokens_iff unslashedName, String.ofList_toList]

end Matching

/-- A text that holds only stars and characters that stand for themselves is read as a glob. The
glob matches the names without slashes that fill the stars of the text, and in them several stars in
a row mean what one star means. -/
theorem parse_starred (kind : Kind) {text : String} (starred : IsStarred text) :
    ∃ glob, Glob.parse kind text = .ok glob ∧
      (∀ name : String, '/' ∉ name.toList →
        (glob.matchesName name = true ↔ FillsStars text name)) ∧
      ∀ (left right : String) (count : Nat),
        text = left ++ String.ofList (List.replicate (count + 1) '*') ++ right →
          ∃ single, Glob.parse kind (left ++ "*" ++ right) = .ok single ∧
            ∀ name : String, '/' ∉ name.toList →
              single.matchesName name = glob.matchesName name := by
  obtain ⟨glob, read, matching⟩ := exists_parse_eq_ok kind starred
  refine ⟨glob, read, matching, ?_⟩
  rintro left right count rfl
  have singleStarred : IsStarred (left ++ "*" ++ right) := by
    intro c listed
    simp only [String.toList_append, List.mem_append] at listed
    rcases listed with (inLeft | star) | inRight
    · exact starred c (by simp [inLeft])
    · obtain rfl : c = '*' := List.mem_singleton.1 star
      decide
    · exact starred c (by simp [inRight])
  obtain ⟨single, readSingle, matchingSingle⟩ := exists_parse_eq_ok kind singleStarred
  refine ⟨single, readSingle, ?_⟩
  intro name unslashed
  have one : FillsStars (left ++ "*" ++ right) name ↔ _ := fillsStars_row 0
  rw [Bool.eq_iff_iff, matchingSingle name unslashed, matching name unslashed, one,
    fillsStars_row count]

/-- Two stars inside of a glob, one of which may stand for a character of two bytes. -/
theorem parse_starred_doubled :
    IsStarred "a**.t*" ∧
      ∃ glob, Glob.parse .excludePattern "a**.t*" = .ok glob ∧
        glob.matchesName "a\u00e9.txt" = true ∧
          ∃ single, Glob.parse .excludePattern "a*.t*" = .ok single ∧
            single.matchesName "a\u00e9.txt" = true := by
  have starred : IsStarred "a**.t*" := by simp [IsStarred, unstarred]
  obtain ⟨glob, read, matching, rows⟩ := parse_starred .excludePattern starred
  have filled : glob.matchesName "a\u00e9.txt" = true :=
    (matching _ (by decide)).2 ⟨["", "\u00e9", "xt"], by decide, by decide⟩
  obtain ⟨single, readSingle, same⟩ := rows "a" ".t*" 1 (by decide)
  exact ⟨starred, glob, read, filled, single, readSingle, by rw [same _ (by decide), filled]⟩

end Glob

end Winnow
