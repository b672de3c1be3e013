import Winnow.Proofs.FilterSet.Malformation

/-!
# Naming a place in a list of paths

A place other than the root can be named in a list of paths unless a name on the way to it is the
parent folder's or holds a NUL or a semicolon (`IsNameable`). Its written form names it, and so does
every other text that denotes it, with further separators of either sort or the current folder's
name thrown in (`Spells`).

However the place is spelled, the list has it as its one entry and covers the place and what lies
below it. `spellings_exclude` carries this on to the decisions of a recursive copy: in one that
leaves the place out, an item is rejected for that reason exactly when it is the place or lies below
it, whatever the other options say.
-/

namespace Winnow

namespace RelPath

/-- A place that some entry of a list can name. -/
structure IsNameable (place : RelPath) : Prop where
  ne_root : place ≠ root
  noParent : ".." ∉ place.segments
  noNul : ∀ name ∈ place.segments, '\x00' ∉ name.toList
  noSemicolon : ∀ name ∈ place.segments, ';' ∉ name.toList

/-- A text that denotes a place and is a single entry of a list. -/
structure Spells (place : RelPath) (text : String) : Prop where
  denotes : parse text = place
  noNul : '\x00' ∉ text.toList
  noSemicolon : ';' ∉ text.toList

variable {place : RelPath} {text : String} {kind : Kind}

/-- The written form of a place that can be named names it. -/
theorem IsNameable.spells_render (nameable : IsNameable place) : Spells place place.render := by
  have denotes : parse place.render = place := parse_render place
  have segments : segmentsOf place.render = place.segments := congrArg RelPath.segments denotes
  refine ⟨denotes, fun nul => ?_, fun semicolon => ?_⟩
  · obtain ⟨name, listed, inName⟩ := (exists_mem_segmentsOf_iff (by decide) (by decide)).2 nul
    exact nameable.noNul name (segments ▸ listed) inName
  · obtain ⟨name, listed, inName⟩ :=
      (exists_mem_segmentsOf_iff (by decide) (by decide)).2 semicolon
    exact nameable.noSemicolon name (segments ▸ listed) inName

namespace Spells

/-- A text that names a place other than the root is the one entry of the list that it is. -/
theorem entryTexts_eq (spells : Spells place text) (ne_root : place ≠ root) :
    entryTexts text = [text] := by
  have uncut : ∀ c ∈ text.toList, (c == ';') = false := by
    intro c present
    exact beq_false_of_ne fun same => spells.noSemicolon (same ▸ present)
  have nonempty : text ≠ "" := by
    rintro rfl
    exact ne_root spells.denotes.symm
  simp [entryTexts, Text.pieces_eq_singleton uncut, nonempty]

/-- A text that names a place is read as an entry for it. -/
theorem parse_pathEntry (spells : Spells place text) (nameable : IsNameable place) :
    PathEntry.parse kind text = .ok ⟨text, place⟩ :=
  PathEntry.parse_eq_ok_iff.2
    ⟨spells.denotes, nameable.ne_root, nameable.noParent, nameable.noNul⟩

/-- A text that names a place is read as a list with one entry, for the place. -/
theorem parse_pathList (spells : Spells place text) (nameable : IsNameable place) :
    ∃ list, PathList.parse kind text = .ok (some list) ∧ list.entries = [⟨text, place⟩] := by
  refine ⟨⟨[⟨text, place⟩], List.cons_ne_nil _ _⟩, ?_, rfl⟩
  rw [PathList.parse, EntryList.parse, spells.entryTexts_eq nameable.ne_root, List.mapM_cons,
    spells.parse_pathEntry nameable]
  rfl

end Spells

end RelPath

/-- Excluded paths are the only ones to reject for their reason. -/
theorem Check.reason_eq_excluded_excludePath_iff {check : Check} :
    check.reason = .excluded .excludePath ↔ check = .filter .excludePath := by
  cases check with
  | recursion => decide
  | filter kind => cases kind <;> decide

namespace FilterSet

variable {options : Options} {set : FilterSet} {item : Item}

/-- A compiled filter set rejects an item for the first check of the options that it fails. -/
theorem Compiled.decide_eq_rejected_iff (compiled : Compiled options set) {reason : RejectReason} :
    set.decide item = .rejected reason ↔
      ∃ check, Check.first? (Check.Fails options item) = some check ∧ check.reason = reason := by
  have sameCheck : Check.first? (Check.Rejects set item) =
      Check.first? (Check.Fails options item) :=
    List.find?_congr fun check _ => decide_eq_decide.2 (compiled.rejects_iff check)
  rw [FilterSet.decide, rejection?_eq_first?, sameCheck]
  cases Check.first? (Check.Fails options item) with
  | none => simp
  | some check => simp

end FilterSet

namespace Options

variable {options : Options} {item : Item} {place : RelPath} {text : String}

/-- In a recursive copy nothing is checked before the excluded paths. -/
theorem first?_fails_eq_excludePath_iff (copies : options.operation = .copy)
    (recursive : options.recursive = true) :
    Check.first? (Check.Fails options item) = some (.filter .excludePath) ↔
      (Check.filter .excludePath).Fails options item := by
  have goesBelow : ¬Check.recursion.Fails options item := by
    rintro ⟨flat, -⟩
    cases recursive.symm.trans flat
  have unconfined : ¬(Check.filter .scope).Fails options item := by
    rintro ⟨place, confined, -⟩
    rw [confinement?, if_neg (by simp [copies])] at confined
    cases confined
  have order : Check.first? (Check.Fails options item) =
      [Check.filter .excludePath, .filter .excludePattern, .filter .includePath,
        .filter .includePattern, .filter .includeAfter].find?
          fun check => decide (check.Fails options item) := by
    simp only [Check.first?, Check.all]
    rw [List.find?_cons_of_neg (by simpa using goesBelow),
      List.find?_cons_of_neg (by simpa using unconfined)]
  rw [order]
  by_cases excluded : (Check.filter .excludePath).Fails options item
  · simp [excluded]
  · rw [List.find?_cons_of_neg (by simpa using excluded)]
    refine iff_of_false (fun found => ?_) excluded
    have listed := List.mem_of_find?_eq_some found
    simp at listed

/-- Options can be compiled when nothing is wrong with them. -/
theorem exists_compiled_of_failure? (sound : options.failure? = none) :
    ∃ set, FilterSet.outcome (FilterSet.compile options) = .ok set := by
  rw [failure?] at sound
  cases compiles : FilterSet.outcome (FilterSet.compile options) with
  | error error => simp [compiles] at sound
  | ok set => exact ⟨set, rfl⟩

/-- A copy that leaves out a named place can be compiled when the other options can. -/
theorem failure?_of_spells (nameable : place.IsNameable) (spells : place.Spells text)
    (copies : options.operation = .copy) (excludes : options.excludePath = some text)
    (others : ({ options with excludePath := none } : Options).failure? = none) :
    options.failure? = none := by
  have keeps : options.operation ≠ .remove := by simp [copies]
  rw [failure?_eq, if_neg keeps, Option.none_or, List.findSome?_eq_none_iff] at others ⊢
  intro kind unscoped
  cases kind with
  | excludePath =>
      have entries : listed options.excludePath = [text] := by
        rw [excludes]
        exact spells.entryTexts_eq nameable.ne_root
      simp [fault?, entries, spells.parse_pathEntry nameable]
  | scope | excludePattern | includePath | includePattern | includeAfter => exact others _ unscoped

end Options

/-- A place other than the root without a parent folder's name, a NUL or a semicolon in it is named
by its written form. However it is spelled, a list of paths reads the spelling as its one entry and
covers the place and what lies below it. A recursive copy that leaves the spelling out can be
compiled when its other options can, and rejects an item for that reason exactly when it is the
place or lies below it. -/
theorem spellings_exclude {place : RelPath} (nameable : place.IsNameable) :
    place.Spells place.render ∧
      ∀ text, place.Spells text →
        (∀ kind, ∃ list, PathList.parse kind text = .ok (some list) ∧
          list.entries = [⟨text, place⟩] ∧
          ∀ path, list.covers path = true ↔ place.segments <+: path.segments) ∧
        ∀ options : Options, options.operation = .copy → options.recursive = true →
          options.excludePath = some text →
          ({ options with excludePath := none } : Options).failure? = none →
          ∃ set, FilterSet.outcome (FilterSet.compile options) = .ok set ∧
            ∀ item, set.decide item = .rejected (.excluded .excludePath) ↔
              item.path = place ∨ item.path.isDescendantOf place = true := by
  refine ⟨nameable.spells_render, fun text spells => ⟨fun kind => ?_, ?_⟩⟩
  · obtain ⟨list, read, entries⟩ := spells.parse_pathList nameable
    refine ⟨list, read, entries, fun path => ?_⟩
    rw [PathList.covers_iff, entries]
    simp
  · intro options copies recursive excludes others
    obtain ⟨set, compiles⟩ := Options.exists_compiled_of_failure?
      (Options.failure?_of_spells nameable spells copies excludes others)
    refine ⟨set, compiles, fun item => ?_⟩
    have compiled := FilterSet.compile_eq_ok_iff.1 compiles
    have entries : listed options.excludePath = [text] := by
      rw [excludes]
      exact spells.entryTexts_eq nameable.ne_root
    calc set.decide item = .rejected (.excluded .excludePath)
        ↔ Check.first? (Check.Fails options item) = some (.filter .excludePath) := by
          rw [compiled.decide_eq_rejected_iff]
          simp only [Check.reason_eq_excluded_excludePath_iff, exists_eq_right]
      _ ↔ (Check.filter .excludePath).Fails options item :=
          Options.first?_fails_eq_excludePath_iff copies recursive
      _ ↔ place.segments <+: item.path.segments := by
          simp only [Check.Fails, entries, List.mem_singleton, exists_eq_left, spells.denotes]
      _ ↔ item.path = place ∨ item.path.isDescendantOf place = true :=
          RelPath.prefix_iff_eq_or_isDescendantOf

/-- A spelling with both separators and the current folder's name, in a copy whose scope is
malformed and which includes another place: what lies below the named place is excluded by it, and
an item whose name merely starts like it is not. -/
theorem spellings_exclude_with_both_separators :
    let place := RelPath.parse "a/b"
    let options : Options :=
      { operation := .copy, recursive := true, excludePath := some "\\.\\a//b/",
        includePath := some "c", relativeSourcePath := some ".." }
    place.IsNameable ∧ place.Spells "\\.\\a//b/" ∧
      ∃ set, FilterSet.outcome (FilterSet.compile options) = .ok set ∧
        set.decide ⟨.parse "a/b/c", .file 1, ⟨0⟩⟩ = .rejected (.excluded .excludePath) ∧
        set.decide ⟨.parse "a/bc", .file 1, ⟨0⟩⟩ ≠ .rejected (.excluded .excludePath) := by
  intro place options
  have nameable : place.IsNameable := ⟨by decide, by decide, by decide, by decide⟩
  have spells : place.Spells "\\.\\a//b/" := ⟨by decide, by decide, by decide⟩
  obtain ⟨-, spellings⟩ := spellings_exclude nameable
  obtain ⟨-, decides⟩ := spellings "\\.\\a//b/" spells
  obtain ⟨set, compiles, excludes⟩ := decides options rfl rfl rfl (by decide)
  refine ⟨nameable, spells, set, compiles, (excludes _).2 (by decide), fun rejected => ?_⟩
  exact absurd ((excludes _).1 rejected) (by decide)

end Winnow
