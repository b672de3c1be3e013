import Winnow.Proofs.EntryList
import Winnow.Proofs.Glob.Literal

/-!
# Quoted names

Any name without a slash can be written as a glob that matches this name alone: with a backslash
before every character that has a meaning, and before any others (`Quotes`). In a list, such a glob
is the only entry unless the name is empty or holds the semicolon, which separates entries however
it is written.

A glob without any character that has a meaning quotes itself, so that a glob which is said to be
literal matches its own text and nothing else (`parse_quoted`).
-/

namespace Winnow.Glob

/-- The characters of a name written with backslashes before some of them, and before all that have
a meaning. -/
inductive QuotesChars : List Char → List Char → Prop where
  /-- Nothing is written as nothing. -/
  | nil : QuotesChars [] []
  /-- A character without a meaning stands for itself. -/
  | plain {c : Char} {name text : List Char} (ordinary : c ∉ specialCharacters)
      (rest : QuotesChars name text) : QuotesChars (c :: name) (c :: text)
  /-- Behind a backslash every character stands for itself. -/
  | escaped {c : Char} {name text : List Char} (rest : QuotesChars name text) :
      QuotesChars (c :: name) ('\\' :: c :: text)

/-- A text is a name with backslashes before some characters, and before all that have a meaning. -/
def Quotes (text name : String) : Prop := QuotesChars name.toList text.toList

section Quoting

variable {kind : Kind} {name text : String} {nameChars textChars : List Char} {glob : Glob}

/-- Every name can be quoted. -/
theorem exists_quotes (name : String) : ∃ text, Quotes text name := by
  have general (chars : List Char) : ∃ text, QuotesChars chars text := by
    induction chars with
    | nil => exact ⟨[], .nil⟩
    | cons c chars inductionHypothesis =>
        obtain ⟨text, quotes⟩ := inductionHypothesis
        exact ⟨'\\' :: c :: text, .escaped quotes⟩
  obtain ⟨text, quotes⟩ := general name.toList
  exact ⟨String.ofList text, by rwa [Quotes, String.toList_ofList]⟩

/-- A name without characters that have a meaning quotes itself. -/
theorem quotes_self (ordinary : ∀ c ∈ name.toList, c ∉ specialCharacters) : Quotes name name := by
  have general (chars : List Char) (ordinary : ∀ c ∈ chars, c ∉ specialCharacters) :
      QuotesChars chars chars := by
    induction chars with
    | nil => exact .nil
    | cons c chars inductionHypothesis =>
        obtain ⟨first, others⟩ := List.forall_mem_cons.1 ordinary
        exact .plain first (inductionHypothesis others)
  exact general name.toList ordinary

/-- Quoting writes no other characters than backslashes into a name. -/
theorem QuotesChars.mem_iff (quotes : QuotesChars nameChars textChars) {c : Char}
    (other : c ≠ '\\') : c ∈ textChars ↔ c ∈ nameChars := by
  induction quotes with
  | nil => exact Iff.rfl
  | plain _ _ inductionHypothesis => simp only [List.mem_cons, inductionHypothesis]
  | escaped _ inductionHypothesis =>
      simp only [List.mem_cons, other, false_or, inductionHypothesis]

/-- Only the empty name is quoted by the empty text. -/
theorem Quotes.eq_empty (quotes : Quotes text name) (empty : text = "") : name = "" := by
  rw [Quotes, empty] at quotes
  cases chars : name.toList with
  | nil => exact String.toList_injective chars
  | cons c rest =>
      rw [chars] at quotes
      cases quotes

/-- A quoted name is read character by character. -/
theorem readTokens_quoted (quotes : QuotesChars nameChars textChars) (previous : Option Char)
    (branch : List Token) :
    readTokens previous [] branch textChars =
      .ok (branch.reverse ++ nameChars.map .literal) := by
  induction quotes generalizing previous branch with
  | nil => simp [readTokens]
  | @plain c name text ordinary rest inductionHypothesis =>
      have meaningless : c ∉ meaningful := by
        intro listed
        apply ordinary
        revert listed
        simp only [meaningful, specialCharacters, List.mem_cons, List.not_mem_nil, or_false]
        tauto
      rw [readTokens_plain_cons meaningless, inductionHypothesis]
      simp
  | escaped rest inductionHypothesis =>
      rw [readTokens_escaped_cons, inductionHypothesis]
      simp

/-- A quoted name without slashes is read as the characters of the name. -/
theorem parse_of_quotes (kind : Kind) (quotes : Quotes text name) (unslashed : '/' ∉ name.toList) :
    Glob.parse kind text = .ok ⟨text, name.toList.map .literal⟩ := by
  have unslashedText : '/' ∉ text.toList := by rwa [quotes.mem_iff (by decide)]
  rw [Glob.parse, if_neg unslashedText, tokensOf, readTokens_quoted quotes]
  rfl

/-- A text that is no entry of several is its only entry. -/
theorem entryTexts_eq_singleton (written : text ≠ "") (single : ';' ∉ text.toList) :
    entryTexts text = [text] := by
  have uncut : ∀ c ∈ text.toList, (c == ';') = false := by
    intro c listed
    exact beq_false_of_ne fun semicolon => single (semicolon ▸ listed)
  rw [entryTexts, Text.pieces_eq_singleton uncut]
  simp [written]

/-- A text is read as a glob, and as a list of this glob alone unless it is no entry by itself. The
glob and the list match one name and nothing else. -/
structure MatchesOnly (kind : Kind) (text name : String) : Prop where
  alone : ∃ glob, Glob.parse kind text = .ok glob ∧
    ∀ other : String, glob.matchesName other = true ↔ other = name
  listed : name ≠ "" → ';' ∉ name.toList →
    ∃ glob list, GlobList.parse kind text = .ok (some list) ∧ list.entries = [glob] ∧
      ∀ other : String, list.matchesName other = true ↔ other = name

/-- A quoted name without slashes matches the name and nothing else. -/
theorem matchesOnly_of_quotes (kind : Kind) (quotes : Quotes text name)
    (unslashed : '/' ∉ name.toList) : MatchesOnly kind text name where
  alone := ⟨_, parse_of_quotes kind quotes unslashed, fun _ => (matches_literals_iff rfl).1⟩
  listed written single := by
    have only : entryTexts text = [text] :=
      entryTexts_eq_singleton (fun empty => written (quotes.eq_empty empty))
        (by rwa [quotes.mem_iff (by decide)])
    have read : GlobList.parse kind text =
        .ok (some ⟨[⟨text, name.toList.map .literal⟩], List.cons_ne_nil _ _⟩) := by
      refine EntryList.parse_eq_ok_iff.2 ?_
      rw [only]
      exact .cons (parse_of_quotes kind quotes unslashed) .nil
    refine ⟨_, _, read, rfl, fun other => ?_⟩
    have matched := (@matches_literals_iff name
      ⟨text, name.toList.map .literal⟩ other rfl).2
    rw [← matched]
    simp [GlobList.matchesName, GlobList.matching?]

/-- The texts of literal globs have no characters with a meaning. -/
theorem isLiteral_iff : glob.isLiteral = true ↔ ∀ c ∈ glob.text.toList, c ∉ specialCharacters := by
  simp [isLiteral]

/-- A glob keeps its text, and the text holds no slash. -/
theorem text_of_parse (read : Glob.parse kind text = .ok glob) :
    glob.text = text ∧ '/' ∉ text.toList := by
  rw [Glob.parse] at read
  split at read
  · cases read
  · rename_i unslashed
    split at read
    · cases read
    · cases read
      exact ⟨rfl, unslashed⟩

end Quoting

/-- Any name without slashes can be quoted, and however it is quoted it is read as a glob that
matches the name and nothing else, alone and as the only entry of a list. A name without characters
that have a meaning quotes itself, as a glob that is literal, and whatever glob is literal matches
its own text and nothing else, also as one of several entries. -/
theorem parse_quoted (kind : Kind) :
    (∀ name : String, '/' ∉ name.toList →
      (∃ text, Quotes text name) ∧
      (∀ text, Quotes text name → MatchesOnly kind text name) ∧
      ((∀ c ∈ name.toList, c ∉ specialCharacters) →
        Quotes name name ∧ ∀ glob, Glob.parse kind name = .ok glob → glob.isLiteral = true)) ∧
    (∀ text glob, Glob.parse kind text = .ok glob → glob.isLiteral = true →
      MatchesOnly kind text text) ∧
    ∀ text list, GlobList.parse kind text = .ok (some list) →
      ∀ glob ∈ list.entries, glob.isLiteral = true → ∀ other : String,
        (glob.matchesName other = true ↔ other = glob.text) ∧
          (glob.matchesInList other = true ↔ other = glob.text) := by
  refine ⟨fun name unslashed => ⟨exists_quotes name, ?_, ?_⟩, ?_, ?_⟩
  · exact fun text quotes => matchesOnly_of_quotes kind quotes unslashed
  · intro ordinary
    refine ⟨quotes_self ordinary, fun glob read => ?_⟩
    rwa [isLiteral_iff, (text_of_parse read).1]
  · intro text glob read literal
    obtain ⟨rfl, unslashed⟩ := text_of_parse read
    exact matchesOnly_of_quotes kind (quotes_self (isLiteral_iff.1 literal)) unslashed
  · intro text list read glob listed literal other
    have reads := EntryList.parse_eq_ok_iff.1 read
    obtain ⟨entry, -, _, readEntry, rfl⟩ :=
      (reads.exists_entry_iff (· = glob)).1 ⟨glob, listed, rfl⟩
    obtain ⟨rfl, unslashed⟩ := text_of_parse readEntry
    have quoted := parse_of_quotes kind (quotes_self (isLiteral_iff.1 literal)) unslashed
    exact matches_literals_iff (congrArg Glob.tokens (Except.ok.inj (readEntry.symm.trans quoted)))

/-- A name with brackets, a star and a letter of two bytes, quoted as a glob of a list. -/
theorem parse_quoted_brackets :
    Quotes "a\\[\u00e9\\].\\*" "a[\u00e9].*" ∧
      ∃ glob list, GlobList.parse .excludePattern "a\\[\u00e9\\].\\*" = .ok (some list) ∧
        list.entries = [glob] ∧ list.matchesName "a[\u00e9].*" = true ∧
          list.matchesName "a\u00e9.*" = false := by
  have quotes : Quotes "a\\[\u00e9\\].\\*" "a[\u00e9].*" :=
    .plain (by decide) (.escaped (.plain (by decide) (.escaped (.plain (by decide)
      (.escaped .nil)))))
  obtain ⟨-, quoted, -⟩ := (parse_quoted .excludePattern).1 "a[\u00e9].*" (by decide)
  obtain ⟨glob, list, read, only, matched⟩ := (quoted _ quotes).listed (by decide) (by decide)
  refine ⟨quotes, glob, list, read, only, (matched _).2 rfl, ?_⟩
  rw [Bool.eq_false_iff, Ne, matched]
  decide

end Winnow.Glob
