import Winnow.Glob.List
import Winnow.PathList
import Winnow.Proofs.EntryList

/-!
# Lists of entries one after the other

A semicolon between two texts makes one list option of two. It is read as the two are, one after
the other: the first error of either is its error, and otherwise its entries are theirs (`concat`).
A search through it goes through the first list and then through the second.

`concatenates_lists` says so of paths and of globs. Globs are matched by one matcher for a whole
list, which reports the places of the globs that match, in no particular order (`GlobList.Reports`);
the least place reported is that of the first glob that matches.
-/

namespace Winnow

namespace EntryList

variable {α β : Type} {read : String → Except FilterError α}

/-- Two options of a kind as one: the entries of the first, and then those of the second. -/
def concat (first second : Option (EntryList α)) : Option (EntryList α) :=
  ofEntries? (entriesOf first ++ entriesOf second)

@[simp]
theorem entriesOf_concat (first second : Option (EntryList α)) :
    entriesOf (concat first second) = entriesOf first ++ entriesOf second :=
  entriesOf_ofEntries? _

/-- Two options amount to none when neither is configured. -/
theorem concat_eq_none_iff {first second : Option (EntryList α)} :
    concat first second = none ↔ first = none ∧ second = none := by
  rw [← entriesOf_eq_nil_iff, entriesOf_concat, List.append_eq_nil_iff, entriesOf_eq_nil_iff,
    entriesOf_eq_nil_iff]

/-- Texts around a semicolon are read one after the other. -/
theorem parse_concat (left right : String) :
    parse read (left ++ ";" ++ right) = (do
      let first ← parse read left
      let second ← parse read right
      return concat first second) := by
  have texts : entryTexts (left ++ ";" ++ right) = entryTexts left ++ entryTexts right :=
    entryTexts_append left right
  simp only [parse, texts, List.mapM_append]
  cases (entryTexts left).mapM read with
  | error error => rfl
  | ok first =>
      cases (entryTexts right).mapM read with
      | error error => rfl
      | ok second => simp [concat, bind, Except.bind, pure, Except.pure]

/-- A search through an option is a search through its entries. -/
theorem bind_find? (hit : α → Bool) (list? : Option (EntryList α)) :
    (list?.bind fun list => list.entries.find? hit) = (entriesOf list?).find? hit := by
  cases list? with
  | none => rfl
  | some list => rfl

/-- A search through an option comes to something when a search through its entries does. -/
theorem any_find? (hit : α → Bool) (list? : Option (EntryList α)) :
    (list?.any fun list => (list.entries.find? hit).isSome) =
      ((entriesOf list?).find? hit).isSome := by
  cases list? with
  | none => rfl
  | some list => rfl

/-- A list option is the two options that a semicolon separates in it: it is read as they are read
one after the other, it holds what they hold, and what it finds is what the first finds or else what
the second finds. -/
structure Concatenates (parse : String → Except FilterError (Option (EntryList α)))
    (found? : EntryList α → β → Option α) (finds : EntryList α → β → Bool) : Prop where
  parse_eq : ∀ left right : String, parse (left ++ ";" ++ right) = (do
    let first ← parse left
    let second ← parse right
    return concat first second)
  entries : ∀ first second : Option (EntryList α),
    entriesOf (concat first second) = entriesOf first ++ entriesOf second
  unconfigured : ∀ first second : Option (EntryList α),
    concat first second = none ↔ first = none ∧ second = none
  found : ∀ (first second : Option (EntryList α)) (candidate : β),
    (concat first second).bind (found? · candidate) =
      (first.bind (found? · candidate)).or (second.bind (found? · candidate))
  finds_eq : ∀ (first second : Option (EntryList α)) (candidate : β),
    (concat first second).any (finds · candidate) =
      (first.any (finds · candidate) || second.any (finds · candidate))

/-- Whatever is read and searched entry by entry is the two options around a semicolon. -/
theorem concatenates_find? (read : String → Except FilterError α) (hit : β → α → Bool) :
    Concatenates (parse read) (fun list candidate => list.entries.find? (hit candidate))
      (fun list candidate => (list.entries.find? (hit candidate)).isSome) where
  parse_eq := parse_concat
  entries := entriesOf_concat
  unconfigured _ _ := concat_eq_none_iff
  found first second candidate := by
    rw [bind_find?, bind_find?, bind_find?, entriesOf_concat, List.find?_append]
  finds_eq first second candidate := by
    rw [any_find?, any_find?, any_find?, entriesOf_concat, List.find?_append, Option.isSome_or]

end EntryList

namespace GlobList

/-- What a matcher for a whole list reports of a name: the places of the globs that match it, in any
order. -/
def Reports (list : GlobList) (name : String) (places : List Nat) : Prop :=
  ∀ place, place ∈ places ↔
    ∃ glob, list.entries[place]? = some glob ∧ glob.matchesInList name = true

variable {list : GlobList} {name : String} {places : List Nat}

/-- A list matches a name when one of its globs does in the list. -/
theorem matchesName_iff : list.matchesName name = true ↔
    ∃ glob ∈ list.entries, glob.matchesInList name = true := by
  rw [matchesName, matching?, List.find?_isSome]

/-- A glob of a list matches when a place is reported. -/
theorem Reports.matchesName_iff (reports : list.Reports name places) :
    list.matchesName name = true ↔ places ≠ [] := by
  rw [GlobList.matchesName_iff]
  constructor
  · rintro ⟨glob, listed, matched⟩
    obtain ⟨place, held⟩ := List.mem_iff_getElem?.1 listed
    exact List.ne_nil_of_mem ((reports place).2 ⟨glob, held, matched⟩)
  · intro reported
    obtain ⟨place, member⟩ := List.exists_mem_of_ne_nil places reported
    obtain ⟨glob, held, matched⟩ := (reports place).1 member
    exact ⟨glob, List.mem_of_getElem? held, matched⟩

/-- The first glob that matches is the one at the least place that is reported. -/
theorem Reports.matching?_eq (reports : list.Reports name places) :
    list.matching? name = places.min?.bind fun place => list.entries[place]? := by
  cases found : list.matching? name with
  | none =>
      have unmatched : ¬list.matchesName name = true := by simp [matchesName, found]
      have unreported : places = [] := by
        simpa only [reports.matchesName_iff, ne_eq, not_not] using unmatched
      rw [unreported]
      rfl
  | some glob =>
      obtain ⟨matched, place, bound, rfl, earlier⟩ := List.find?_eq_some_iff_getElem.1 found
      have held : list.entries[place]? = some list.entries[place] := List.getElem?_eq_getElem bound
      have least : places.min? = some place := by
        rw [List.min?_eq_some_iff]
        refine ⟨(reports place).2 ⟨_, held, matched⟩, fun other reported => ?_⟩
        obtain ⟨glob, heldThere, matchedThere⟩ := (reports other).1 reported
        obtain ⟨otherBound, rfl⟩ := List.getElem?_eq_some_iff.1 heldThere
        refine Nat.le_of_not_lt fun before => ?_
        have unmatched := earlier other before
        rw [matchedThere] at unmatched
        cases unmatched
      rw [least, Option.bind_some, held]

end GlobList

open EntryList

/-- A list of paths or of globs is the two lists that a semicolon separates in it, for every kind
and all texts. The matcher for a whole list of globs finds what a search through the list does: a
glob matches when the matcher reports a place, and the first that does is at the least place
reported. -/
theorem concatenates_lists (kind : Kind) :
    Concatenates (PathList.parse kind) PathList.covering? PathList.covers ∧
      Concatenates (GlobList.parse kind) GlobList.matching? GlobList.matchesName ∧
      ∀ (list : GlobList) (name : String) (places : List Nat), list.Reports name places →
        (list.matchesName name = true ↔ places ≠ []) ∧
          list.matching? name = places.min?.bind fun place => list.entries[place]? := by
  refine ⟨concatenates_find? _ _, concatenates_find? _ _, fun list name places reports => ?_⟩
  exact ⟨reports.matchesName_iff, reports.matching?_eq⟩

/-- A matcher that reports the later of two globs first does not change which one is found. -/
theorem concatenates_lists_reported_in_reverse :
    let list : GlobList :=
      ⟨[⟨"*.c", [.run, .literal '.', .literal 'c']⟩, ⟨"a*", [.literal 'a', .run]⟩],
        List.cons_ne_nil _ _⟩
    list.Reports "a.c" [1, 0] ∧ (list.matching? "a.c").map Glob.text = some "*.c" := by
  intro list
  have reports : list.Reports "a.c" [1, 0] := by
    intro place
    match place with
    | 0 => exact iff_of_true (by decide) ⟨_, rfl, by decide⟩
    | 1 => exact iff_of_true (by decide) ⟨_, rfl, by decide⟩
    | place + 2 => simp [list]
  have first := ((concatenates_lists .excludePattern).2.2 list "a.c" [1, 0] reports).2
  refine ⟨reports, ?_⟩
  rw [first]
  rfl

end Winnow
