import Mathlib.Data.List.TakeWhile
import Winnow.Proofs.EntryList.Concatenation
import Winnow.Proofs.Glob.Literal

/-!
# Lists of globs as an index

A list of globs need not try each of them on a name. `GlobIndex` sorts them by what they ask of a
name: to be a certain text, to have a certain extension, or nothing that is known beforehand. Only
globs of the last kind are tried on every name. The index reports the places of the globs that it
finds kind by kind, and so in no order.

What an index finds is what a search through the list finds (`reports_index`). It is also what the
globs match by themselves, except for one kind of name: one whose last part is the name of the
parent folder has no extension, although it holds a dot (`agrees_with_globs`).
-/

namespace Winnow

open Text

namespace Glob

/-- What stands before the first dot; there is nothing to tell without a dot. -/
def beforeDot? : List Char → Option (List Char)
  | [] => none
  | c :: rest => if c = '.' then some [] else (beforeDot? rest).map (c :: ·)

/-- The characters of a name after its last slash, the last one first. -/
def lastPartBackwards (name : String) : List Char :=
  name.toList.reverse.takeWhile (· != '/')

/-- The extension of a name, which is what its last part holds after its last dot; the last
character comes first. The name of the parent folder has none. -/
def extensionOf? (name : String) : Option (List Char) :=
  if endsInParentName name then none else beforeDot? (lastPartBackwards name)

/-- The character for which a token stands, if it stands for one. -/
def Token.char? : Token → Option Char
  | .literal c => some c
  | _ => none

/-- The characters at the end of a glob, the last one first. -/
def endBackwards (glob : Glob) : List Char :=
  (glob.tokens.reverse.takeWhile Token.isLiteral).filterMap Token.char?

/-- What a glob asks of the names that it matches. -/
inductive Need where
  /-- To be a text. -/
  | text (text : String)
  /-- To have an extension, given with its last character first. -/
  | extension (backwards : List Char)
  /-- Nothing that could be told without trying the glob. -/
  | nothing

/-- A glob of characters alone asks for its text, and any other one for the extension with which it
ends, if it ends with one. -/
def need (glob : Glob) : Need :=
  if glob.tokens.all Token.isLiteral then .text (String.ofList glob.endBackwards.reverse)
  else
    match beforeDot? glob.endBackwards with
    | some backwards => .extension backwards
    | none => .nothing

/-- Whether an index finds a glob for a name. -/
def IsFound (glob : Glob) (name : String) : Prop :=
  match glob.need with
  | .text text => name = text
  | .extension backwards => extensionOf? name = some backwards ∧ glob.matchesName name = true
  | .nothing => glob.matchesName name = true

/-- Tokens without a character that is a slash. -/
def Unslashed (tokens : List Token) : Prop := .literal '/' ∉ tokens

section Reading

variable {previous : Option Char} {groups : List OpenGroup} {branch tokens : List Token}
  {chars rest : List Char} {token : Token}

/-- What follows a class is the end of what has been read. -/
theorem suffix_of_readMembers {members read : List (Char × Char)} {ranging : Bool}
    (ok : readMembers members ranging chars = .ok (read, rest)) : rest <:+ chars := by
  fun_induction readMembers members ranging chars <;> grind

/-- What follows a class is the end of what has been read. -/
theorem suffix_of_readClass {byteClass : ByteClass} (ok : readClass chars = .ok (byteClass, rest)) :
    rest <:+ chars := by
  simp only [readClass] at ok
  split at ok
  · cases ok
  · rename_i read
    cases ok
    refine (suffix_of_readMembers read).trans ?_
    split
    · exact List.tail_suffix chars
    · exact List.suffix_refl chars

theorem unslashed_cons_iff :
    Unslashed (token :: tokens) ↔ token ≠ .literal '/' ∧ Unslashed tokens := by
  rw [Unslashed, Unslashed, List.mem_cons, not_or, ne_comm]

/-- A pair of stars adds no slash. -/
theorem unslashed_addStarPair (here : Unslashed branch) :
    Unslashed (addStarPair previous groups branch rest) := by
  unfold addStarPair
  split
  · split
    · simp [Unslashed]
    · simp [Unslashed]
  · rw [unslashed_cons_iff] at here
    split
    · exact unslashed_cons_iff.2 ⟨nofun, here.2⟩
    · simpa [unslashed_cons_iff] using here

/-- A text without slashes is read as tokens without slashes. -/
theorem unslashed_of_readTokens (read : readTokens previous groups branch chars = .ok tokens)
    (text : '/' ∉ chars) (here : Unslashed branch)
    (outside : ∀ group ∈ groups, Unslashed group.before) : Unslashed tokens := by
  fun_induction readTokens previous groups branch chars with
  | case1 previous groups branch closed =>
      cases read
      simpa [Unslashed] using here
  | case2 => cases read
  | case3 previous groups branch rest inductionHypothesis =>
      exact inductionHypothesis read (List.not_mem_of_not_mem_cons text)
        (unslashed_cons_iff.2 ⟨nofun, here⟩) outside
  | case4 previous groups branch rest inductionHypothesis =>
      have later := List.not_mem_of_not_mem_cons (List.not_mem_of_not_mem_cons text)
      exact inductionHypothesis read later (unslashed_addStarPair here) outside
  | case5 previous groups branch rest _ inductionHypothesis =>
      exact inductionHypothesis read (List.not_mem_of_not_mem_cons text)
        (unslashed_cons_iff.2 ⟨nofun, here⟩) outside
  | case6 => simp_all
  | case7 previous groups branch rest byteClass after readsClass _ inductionHypothesis =>
      have later : '/' ∉ after := fun listed =>
        List.not_mem_of_not_mem_cons text ((suffix_of_readClass readsClass).subset listed)
      exact inductionHypothesis read later (unslashed_cons_iff.2 ⟨nofun, here⟩) outside
  | case8 previous groups branch rest inductionHypothesis =>
      exact inductionHypothesis read (List.not_mem_of_not_mem_cons text) List.not_mem_nil
        (List.forall_mem_cons.2 ⟨here, outside⟩)
  | case9 => cases read
  | case10 previous branch rest group outer inductionHypothesis =>
      obtain ⟨before, others⟩ := List.forall_mem_cons.1 outside
      exact inductionHypothesis (by simpa using read) (List.not_mem_of_not_mem_cons text)
        (unslashed_cons_iff.2 ⟨nofun, before⟩) others
  | case11 previous branch rest inductionHypothesis =>
      exact inductionHypothesis read (List.not_mem_of_not_mem_cons text)
        (unslashed_cons_iff.2 ⟨by simp, here⟩) outside
  | case12 previous branch rest group outer inductionHypothesis =>
      obtain ⟨before, others⟩ := List.forall_mem_cons.1 outside
      exact inductionHypothesis (by simpa using read) (List.not_mem_of_not_mem_cons text)
        List.not_mem_nil (List.forall_mem_cons.2 ⟨before, others⟩)
  | case13 => cases read
  | case14 previous groups branch c rest inductionHypothesis =>
      obtain ⟨notSlash, later⟩ := not_or.1 (mt List.mem_cons.2 (List.not_mem_of_not_mem_cons text))
      exact inductionHypothesis read later
        (unslashed_cons_iff.2 ⟨fun same => notSlash (Token.literal.inj same).symm, here⟩) outside
  | case15 previous groups branch c rest _ _ _ _ _ _ _ _ _ inductionHypothesis =>
      obtain ⟨notSlash, later⟩ := not_or.1 (mt List.mem_cons.2 text)
      exact inductionHypothesis read later
        (unslashed_cons_iff.2 ⟨fun same => notSlash (Token.literal.inj same).symm, here⟩) outside

/-- A glob holds no slash. -/
theorem unslashed_of_parse {kind : Kind} {text : String} {glob : Glob}
    (read : Glob.parse kind text = .ok glob) : Unslashed glob.tokens := by
  rw [Glob.parse] at read
  split at read
  · cases read
  · rename_i unslashed
    split at read
    · cases read
    · rename_i tokens readsTokens
      cases read
      exact unslashed_of_readTokens readsTokens unslashed List.not_mem_nil nofun

end Reading

section Ends

variable {chars left right before : List Char} {name : String} {glob : Glob} {tokens : List Token}

/-- There is something before the first dot when there is a dot. -/
theorem isSome_beforeDot?_iff : (beforeDot? chars).isSome = true ↔ '.' ∈ chars := by
  induction chars with
  | nil => simp [beforeDot?]
  | cons c chars inductionHypothesis =>
      rw [beforeDot?, List.mem_cons]
      split
      · simp_all
      · rename_i other
        rw [Option.isSome_map, inductionHypothesis]
        simp [Ne.symm other]

/-- What follows does not matter for what stands before the first dot. -/
theorem beforeDot?_append (found : beforeDot? left = some before) :
    beforeDot? (left ++ right) = some before := by
  induction left generalizing before with
  | nil => cases found
  | cons c left inductionHypothesis =>
      rw [beforeDot?] at found
      rw [List.cons_append, beforeDot?]
      split at found
      · rename_i dot
        rwa [if_pos dot]
      · rename_i other
        obtain ⟨rest, foundRest, rfl⟩ := Option.map_eq_some_iff.1 found
        rw [if_neg other, inductionHypothesis foundRest, Option.map_some]

/-- Tokens that all stand for characters are those of their characters. -/
theorem map_literal_filterMap_char? (literal : ∀ token ∈ tokens, token.isLiteral = true) :
    (tokens.filterMap Token.char?).map .literal = tokens := by
  induction tokens with
  | nil => rfl
  | cons token tokens inductionHypothesis =>
      obtain ⟨first, others⟩ := List.forall_mem_cons.1 literal
      cases token with
      | literal c => simp [Token.char?, inductionHypothesis others]
      | any | run | everything | slashEverything | oneOf | group => cases first

/-- A glob ends in the characters at its end. -/
theorem exists_front (glob : Glob) :
    ∃ front, glob.tokens = front ++ glob.endBackwards.reverse.map .literal := by
  refine ⟨(glob.tokens.reverse.dropWhile Token.isLiteral).reverse, ?_⟩
  rw [endBackwards, List.map_reverse, map_literal_filterMap_char?, ← List.reverse_append,
    List.takeWhile_append_dropWhile, List.reverse_reverse]
  exact fun token listed => List.mem_takeWhile_imp listed

/-- A glob of characters alone is made up of the characters at its end. -/
theorem tokens_eq_of_all (literal : glob.tokens.all Token.isLiteral = true) :
    glob.tokens = glob.endBackwards.reverse.map .literal := by
  rw [List.all_eq_true] at literal
  have whole : glob.tokens.reverse.takeWhile Token.isLiteral = glob.tokens.reverse :=
    List.takeWhile_eq_self_iff.2 fun token listed => literal token (List.mem_reverse.1 listed)
  rw [endBackwards, whole, List.filterMap_reverse, List.reverse_reverse,
    map_literal_filterMap_char? literal]

/-- A glob requires an extension when it is more than characters and ends with one. -/
theorem requiresExtension_eq (glob : Glob) :
    glob.requiresExtension =
      (!glob.tokens.all Token.isLiteral && (beforeDot? glob.endBackwards).isSome) := by
  have dots : (glob.tokens.reverse.takeWhile Token.isLiteral).any Token.isDot =
      (beforeDot? glob.endBackwards).isSome := by
    rw [Bool.eq_iff_iff, isSome_beforeDot?_iff, endBackwards, List.any_eq_true, List.mem_filterMap]
    refine exists_congr fun token => and_congr_right fun _ => ?_
    cases token <;> simp [Token.isDot, Token.char?]
  rw [requiresExtension, dots, List.not_all_eq_any_not]

/-- The characters at the end of a name without a slash among them are at the end of its last
part. -/
theorem lastPartBackwards_append (lead : String) (unslashed : '/' ∉ chars) :
    lastPartBackwards (lead ++ String.ofList chars.reverse) =
      chars ++ lead.toList.reverse.takeWhile (· != '/') := by
  have others : ∀ c ∈ chars, (c != '/') = true := by
    intro c listed
    exact bne_iff_ne.2 fun slash => unslashed (slash ▸ listed)
  simp only [lastPartBackwards, String.toList_append, String.toList_ofList, List.reverse_append,
    List.reverse_reverse]
  rw [List.takeWhile_append_of_pos others]

/-- A name that a glob matches has the extension with which the glob ends, unless it is that of the
parent folder. -/
theorem extensionOf?_of_matchesName (unslashed : Unslashed glob.tokens)
    (ends : beforeDot? glob.endBackwards = some before) (matched : glob.matchesName name = true) :
    extensionOf? name = if endsInParentName name then none else some before := by
  obtain ⟨front, tokens⟩ := exists_front glob
  rw [matchesName, tokens] at matched
  obtain ⟨lead, rfl⟩ := exists_lead_of_matchesTokens matched
  have unslashedEnd : '/' ∉ glob.endBackwards := by
    intro listed
    apply unslashed
    rw [tokens]
    exact List.mem_append_right _ (List.mem_map_of_mem (List.mem_reverse.2 listed))
  rw [extensionOf?, lastPartBackwards_append lead unslashedEnd, beforeDot?_append ends]

/-- An index finds the globs that match in a list. -/
theorem isFound_iff (unslashed : Unslashed glob.tokens) :
    glob.IsFound name ↔ glob.matchesInList name = true := by
  unfold IsFound need
  by_cases literal : glob.tokens.all Token.isLiteral = true
  · have tokens : glob.tokens =
        (String.ofList glob.endBackwards.reverse).toList.map .literal := by
      rw [String.toList_ofList, tokens_eq_of_all literal]
    rw [if_pos literal, (matches_literals_iff tokens).2]
  · rw [if_neg literal, matchesInList, requiresExtension_eq, Bool.eq_false_iff.2 literal]
    cases ends : beforeDot? glob.endBackwards with
    | none => simp
    | some before =>
        simp only [Option.isSome_some, Bool.not_false, Bool.true_and, Bool.and_eq_true,
          Bool.not_eq_true']
        rw [and_comm]
        refine and_congr_right fun matched => ?_
        rw [extensionOf?_of_matchesName unslashed ends matched]
        cases endsInParentName name <;> simp

end Ends

end Glob

/-- The globs of a list with their places, sorted by what they ask of a name. -/
structure GlobIndex where
  texts : List (String × Nat)
  extensions : List (List Char × Nat × Glob)
  others : List (Nat × Glob)

namespace GlobIndex

/-- The places of the globs that match a name, kind by kind. -/
def report (index : GlobIndex) (name : String) : List Nat :=
  (index.texts.filter fun (text, _) => name = text).map (fun (_, place) => place) ++
    (index.extensions.filter fun (backwards, _, glob) =>
      Glob.extensionOf? name = some backwards && glob.matchesName name).map
        (fun (_, place, _) => place) ++
    (index.others.filter fun (_, glob) => glob.matchesName name).map (fun (place, _) => place)

end GlobIndex

namespace GlobList

variable {list : GlobList} {name text : String} {place : Nat} {glob : Glob}
  {backwards : List Char}

/-- The index of a list. -/
def index (list : GlobList) : GlobIndex where
  texts := list.entries.zipIdx.filterMap fun (glob, place) =>
    match glob.need with
    | .text text => some (text, place)
    | .extension _ | .nothing => none
  extensions := list.entries.zipIdx.filterMap fun (glob, place) =>
    match glob.need with
    | .extension backwards => some (backwards, place, glob)
    | .text _ | .nothing => none
  others := list.entries.zipIdx.filterMap fun (glob, place) =>
    match glob.need with
    | .nothing => some (place, glob)
    | .text _ | .extension _ => none

theorem mem_texts_index_iff : (text, place) ∈ list.index.texts ↔
    ∃ glob, list.entries[place]? = some glob ∧ glob.need = .text text := by
  simp only [index, List.mem_filterMap, Prod.exists, List.mem_zipIdx_iff_getElem?]
  grind

theorem mem_extensions_index_iff : (backwards, place, glob) ∈ list.index.extensions ↔
    list.entries[place]? = some glob ∧ glob.need = .extension backwards := by
  simp only [index, List.mem_filterMap, Prod.exists, List.mem_zipIdx_iff_getElem?]
  grind

theorem mem_others_index_iff : (place, glob) ∈ list.index.others ↔
    list.entries[place]? = some glob ∧ glob.need = .nothing := by
  simp only [index, List.mem_filterMap, Prod.exists, List.mem_zipIdx_iff_getElem?]
  grind

/-- An index reports the places of the globs that it finds. -/
theorem mem_report_index_iff :
    place ∈ list.index.report name ↔
      ∃ glob, list.entries[place]? = some glob ∧ glob.IsFound name := by
  simp only [GlobIndex.report, List.mem_append, List.mem_map, List.mem_filter, Prod.exists,
    mem_texts_index_iff, mem_extensions_index_iff, mem_others_index_iff, Glob.IsFound]
  grind

/-- The globs of a list that has been read hold no slash. -/
theorem unslashed_of_parse {kind : Kind} (read : parse kind text = .ok (some list))
    (listed : glob ∈ list.entries) : Glob.Unslashed glob.tokens := by
  have reads := EntryList.parse_eq_ok_iff.1 read
  obtain ⟨entry, -, _, readEntry, rfl⟩ :=
    (reads.exists_entry_iff (· = glob)).1 ⟨glob, listed, rfl⟩
  exact Glob.unslashed_of_parse readEntry

/-- An index reports what a search through its list finds. -/
theorem reports_index {kind : Kind} (read : parse kind text = .ok (some list)) (name : String) :
    list.Reports name (list.index.report name) := by
  intro place
  rw [mem_report_index_iff]
  refine exists_congr fun glob => and_congr_right fun held => ?_
  exact Glob.isFound_iff (unslashed_of_parse read (List.mem_of_getElem? held))

/-- Apart from names that end in that of the parent folder, a glob matches in a list what it matches
by itself. -/
theorem matchesInList_eq (proper : Glob.endsInParentName name = false) (glob : Glob) :
    glob.matchesInList name = glob.matchesName name := by
  rw [Glob.matchesInList, proper, Bool.and_false, Bool.not_false, Bool.and_true]

/-- Whatever matches in a list matches by itself. -/
theorem matchesName_of_matchesInList (matched : glob.matchesInList name = true) :
    glob.matchesName name = true :=
  (Bool.and_eq_true_iff.1 matched).1

/-- What an index finds of a list that has been read is what the list finds. It is matched by one of
the globs by themselves, and the glob found is one that matches by itself. For every name that does
not end in that of the parent folder, conversely, the list matches what any of its globs matches by
itself, and finds the first of them that does. -/
theorem agrees_with_globs {kind : Kind} (read : parse kind text = .ok (some list))
    (name : String) :
    (list.matchesName name = true ↔ list.index.report name ≠ []) ∧
    list.matching? name =
      ((list.index.report name).min?.bind fun place => list.entries[place]?) ∧
    (list.matchesName name = true → ∃ glob ∈ list.entries, glob.matchesName name = true) ∧
    (∀ glob, list.matching? name = some glob →
      glob ∈ list.entries ∧ glob.matchesName name = true) ∧
    (Glob.endsInParentName name = false →
      (list.matchesName name = true ↔ ∃ glob ∈ list.entries, glob.matchesName name = true) ∧
      list.matching? name = list.entries.find? (·.matchesName name)) := by
  have reports := reports_index read name
  refine ⟨reports.matchesName_iff, reports.matching?_eq, ?_, ?_, ?_⟩
  · rw [matchesName_iff]
    rintro ⟨glob, listed, matched⟩
    exact ⟨glob, listed, matchesName_of_matchesInList matched⟩
  · intro glob found
    have matched := List.find?_some found
    exact ⟨List.mem_of_find?_eq_some found, matchesName_of_matchesInList matched⟩
  · intro proper
    simp only [matchesName_iff, matching?, matchesInList_eq proper, and_self]

/-- An index comes upon the later of two globs first, and the list finds the earlier one. -/
theorem agrees_with_globs_out_of_order :
    ∃ list, parse .includePattern "2020*;*.log" = .ok (some list) ∧
      Glob.endsInParentName "2020.log" = false ∧ list.index.report "2020.log" = [1, 0] ∧
      list.matching? "2020.log" = list.entries.find? (·.matchesName "2020.log") ∧
      (list.matching? "2020.log").map Glob.text = some "2020*" := by
  have read : parse .includePattern "2020*;*.log" = .ok (some
      ⟨[⟨"2020*", [.literal '2', .literal '0', .literal '2', .literal '0', .run]⟩,
        ⟨"*.log", [.run, .literal '.', .literal 'l', .literal 'o', .literal 'g']⟩],
        List.cons_ne_nil _ _⟩) := by
    cbv
  have proper : Glob.endsInParentName "2020.log" = false := by decide
  have agrees := agrees_with_globs read "2020.log"
  refine ⟨_, read, proper, by decide, (agrees.2.2.2.2 proper).2, ?_⟩
  rw [(agrees.2.2.2.2 proper).2]
  decide

/-- The name of the parent folder matches a star and a dot, but not in a list. -/
example :
    let glob : Glob := ⟨"*.", [.run, .literal '.']⟩
    glob.matchesName ".." = true ∧ glob.matchesInList ".." = false := by
  decide

end GlobList

end Winnow
