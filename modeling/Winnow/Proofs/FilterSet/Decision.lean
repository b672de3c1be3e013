import Mathlib.Data.List.Find
import Winnow.Proofs.FilterSet.Compiled
import Winnow.RelPath.Lemmas

/-!
# Decisions from options

`Check.Fails` says of each check, in terms of the texts of the options alone, when an item fails
it. `decide_compiled` shows that the filter set compiled from the options decides by the first
failing check, in the order of `Check.all`.

On the way stands `Check.Rejects`, the same of a filter set: it describes the evaluation of any
filter set, compiled or not (`rejection?_eq_first?`).
-/

namespace Winnow

/-- The checks of a decision. -/
inductive Check where
  | recursion
  | filter (kind : Kind)
deriving DecidableEq

/-- The place, other than the source root, to which a removal is confined. -/
def Options.confinement? (options : Options) : Option RelPath :=
  if options.operation = .remove then
    (options.relativeSourcePath.map RelPath.parse).filter (!·.isRoot)
  else none

/-- Whether a text, read as an entry of a list of globs, matches a name. -/
def globMatches (kind : Kind) (name text : String) : Bool :=
  match Glob.parse kind text with
  | .error _ => false
  | .ok glob => glob.matchesInList name

/-- A text matches a name when it can be read as a glob that does. -/
theorem globMatches_iff {kind : Kind} {name text : String} :
    globMatches kind name text = true ↔
      ∃ glob, Glob.parse kind text = .ok glob ∧ glob.matchesInList name = true := by
  unfold globMatches
  cases Glob.parse kind text with
  | error error => simp
  | ok glob => simp

namespace Check

/-- Every check, in the order of evaluation. -/
def all : List Check :=
  [recursion, filter .scope, filter .excludePath, filter .excludePattern, filter .includePath,
    filter .includePattern, filter .includeAfter]

/-- After the depth the kinds are checked in the order in which a filter set holds them. -/
theorem all_eq : all = recursion :: Kind.all.map filter := rfl

/-- The first check, in the order of evaluation, of which something holds. -/
def first? (holds : Check → Prop) [DecidablePred holds] : Option Check :=
  all.find? fun check => decide (holds check)

theorem mem_all (check : Check) : check ∈ all := by
  rw [all_eq]
  cases check with
  | recursion => exact List.mem_cons_self
  | filter kind => exact List.mem_cons_of_mem _ (List.mem_map_of_mem (Kind.mem_all kind))

/-- What a rejection by a check says. -/
def reason : Check → RejectReason
  | recursion => .beyondRecursion
  | filter .scope => .outOfScope
  | filter kind => if kind.isExclude then .excluded kind else .notIncluded kind

/-- An item fails a check of the options. -/
def Fails (options : Options) (item : Item) : Check → Prop
  | recursion =>
      options.recursive = false ∧ 2 ≤ item.path.depth ∧ options.confinement? = none
  | filter .scope =>
      ∃ place ∈ options.confinement?, item.path ≠ place ∧
        ¬(options.recursive = true ∧ item.path.isDescendantOf place = true)
  | filter .excludePath =>
      ∃ text ∈ listed options.excludePath,
        (RelPath.parse text).segments <+: item.path.segments
  | filter .excludePattern =>
      ∃ text ∈ listed options.excludePattern, globMatches .excludePattern item.basename text
  | filter .includePath =>
      options.operation ≠ .sync ∧ listed options.includePath ≠ [] ∧
        ¬∃ text ∈ listed options.includePath,
          (RelPath.parse text).segments <+: item.path.segments
  | filter .includePattern =>
      listed options.includePattern ≠ [] ∧
        ¬∃ text ∈ listed options.includePattern, globMatches .includePattern item.basename text
  | filter .includeAfter =>
      options.operation = .copy ∧ ∃ text ∈ options.includeAfter,
        ∃ threshold ∈ (readThreshold text).toOption, ¬threshold < item.modified

instance (options : Options) (item : Item) : DecidablePred (Fails options item)
  | recursion => inferInstanceAs (Decidable (_ ∧ _))
  | filter .scope => inferInstanceAs (Decidable (∃ _ ∈ _, _))
  | filter .excludePath => inferInstanceAs (Decidable (∃ _ ∈ _, _))
  | filter .excludePattern => inferInstanceAs (Decidable (∃ _ ∈ _, _))
  | filter .includePath => inferInstanceAs (Decidable (_ ∧ _))
  | filter .includePattern => inferInstanceAs (Decidable (_ ∧ _))
  | filter .includeAfter => inferInstanceAs (Decidable (_ ∧ _))

/-- A filter set rejects an item by a check. Exclude filters reject what they match, and the
others what they do not match. -/
def Rejects (set : FilterSet) (item : Item) : Check → Prop
  | recursion => set.isBeyondRecursion item = true
  | filter kind => ∃ category ∈ set.category? kind, category.admits item = kind.isExclude

instance (set : FilterSet) (item : Item) : DecidablePred (Rejects set item)
  | recursion => inferInstanceAs (Decidable (_ = _))
  | filter _ => inferInstanceAs (Decidable (∃ _ ∈ _, _))

end Check

variable {options : Options} {set : FilterSet} {item : Item}

/-- A filter rejects an item with the reason of its kind, exclude filters on a match and the
others without one. -/
theorem Category.rejection?_eq (category : Category) (item : Item) :
    category.rejection? item =
      if category.admits item = category.kind.isExclude then
        some (Check.filter category.kind).reason
      else none := by
  unfold rejection?
  cases category <;> cases admits _ item <;> rfl

namespace FilterSet

open EntryList

/-- One check of the evaluation: the depth of the item, or one configured filter. -/
def checked? (set : FilterSet) (item : Item) : Check → Option RejectReason
  | .recursion => if set.isBeyondRecursion item then some .beyondRecursion else none
  | .filter kind => (set.category? kind).bind (·.rejection? item)

/-- A check yields its own reason. -/
theorem checked?_eq (set : FilterSet) (item : Item) (check : Check) :
    set.checked? item check = if check.Rejects set item then some check.reason else none := by
  cases check with
  | recursion => rfl
  | filter kind =>
      cases configured : set.category? kind with
      | none => simp [checked?, Check.Rejects, configured]
      | some category =>
          have same := category?_kind configured
          simp [checked?, Check.Rejects, configured, Category.rejection?_eq, same]

/-- A filter set evaluates its checks in order and rejects by the first that says so. -/
theorem rejection?_eq_first? (set : FilterSet) (item : Item) :
    set.rejection? item = (Check.first? (Check.Rejects set item)).map Check.reason := by
  have evaluated : set.rejection? item = Check.all.findSome? (set.checked? item) := by
    have filters : set.categories.findSome? (·.rejection? item) =
        Kind.all.findSome? (set.checked? item ∘ Check.filter) := by
      rw [categories, ← List.head?_filterMap, List.filterMap_filterMap, List.head?_filterMap]
      rfl
    rw [rejection?, filters, Check.all_eq, List.findSome?_cons, List.findSome?_map, checked?]
    by_cases beyond : set.isBeyondRecursion item = true <;> simp [beyond]
  rw [evaluated, Check.first?, ← List.findSome?_guard, List.map_findSome?]
  refine congrArg (Check.all.findSome? ·) (funext fun check => ?_)
  rw [checked?_eq]
  by_cases rejects : check.Rejects set item <;> simp [Option.guard, rejects]

/-- A filter set accepts what none of its checks rejects. -/
theorem isAccepted_decide_iff (set : FilterSet) (item : Item) :
    (set.decide item).isAccepted = true ↔ ∀ check : Check, ¬check.Rejects set item := by
  have unrejected : (set.decide item).isAccepted = true ↔ set.rejection? item = none := by
    rw [FilterSet.decide]
    cases set.rejection? item with
    | none => exact iff_of_true rfl rfl
    | some reason => exact iff_of_false Bool.false_ne_true nofun
  rw [unrejected, rejection?_eq_first?, Option.map_eq_none_iff, Check.first?, List.find?_eq_none]
  constructor
  · intro passes check rejects
    exact passes check check.mem_all (decide_eq_true rejects)
  · intro passes check _ rejects
    exact passes check (of_decide_eq_true rejects)

/-- Some list of paths covers a place when one of its entries lies at or above it. -/
theorem exists_covers_iff {list? : Option PathList} {path : RelPath} :
    (∃ list ∈ list?, PathList.covers list path = true) ↔
      ∃ entry ∈ entriesOf list?, entry.path.segments <+: path.segments := by
  cases list? with
  | none => simp [entriesOf]
  | some list =>
      simp [entriesOf, PathList.covers_iff]

/-- Some list of globs matches a name when one of its globs does. -/
theorem exists_matchesName_iff {list? : Option GlobList} {name : String} :
    (∃ list ∈ list?, GlobList.matchesName list name = true) ↔
      ∃ glob ∈ entriesOf list?, glob.matchesInList name = true := by
  cases list? with
  | none => simp [entriesOf]
  | some list => simp [entriesOf, GlobList.matchesName, GlobList.matching?]

/-- An option holds something that fails a test when it holds something, but nothing that
passes. -/
theorem exists_eq_false_iff {α : Type} {option : Option α} {test : α → Bool} :
    (∃ held ∈ option, test held = false) ↔
      option ≠ none ∧ ¬∃ held ∈ option, test held = true := by
  cases option with
  | none => simp
  | some held => simp

namespace Compiled

/-- The scope of a filter set confines it to the place that the options name. -/
theorem isConfined_iff (compiled : Compiled options set) :
    set.isConfined = true ↔ options.confinement? ≠ none := by
  rw [isConfined, compiled.scope_eq, Options.confinement?]
  by_cases removes : options.operation = .remove
  · rw [if_pos removes, if_pos removes]
    cases options.relativeSourcePath <;> simp [Scope.isWhole]
  · simp [removes]

/-- The depth of an item matters to jobs that are neither recursive nor confined. -/
theorem rejects_recursion_iff (compiled : Compiled options set) :
    Check.recursion.Rejects set item ↔ Check.recursion.Fails options item := by
  have unconfined : set.isConfined = false ↔ options.confinement? = none := by
    rw [← Bool.not_eq_true, compiled.isConfined_iff, not_not]
  change set.isBeyondRecursion item = true ↔ _
  rw [isBeyondRecursion, Bool.and_eq_true, Bool.and_eq_true, and_assoc, compiled.recursive,
    Bool.not_eq_true', Bool.not_eq_true', decide_eq_true_eq, unconfined]
  rfl

/-- A scope rejects what lies neither at its place nor, in a recursive job, below it. -/
theorem rejects_scope_iff (compiled : Compiled options set) :
    (Check.filter .scope).Rejects set item ↔ (Check.filter .scope).Fails options item := by
  have outside : ∀ scope : Scope, scope.contains item.path = false ↔
      scope.path.isRoot = false ∧ item.path ≠ scope.path ∧
        ¬(scope.recursive = true ∧ item.path.isDescendantOf scope.path = true) := by
    intro scope
    rw [← Bool.not_eq_true, Scope.contains_iff, not_or, not_or, ← RelPath.isRoot_iff,
      Bool.not_eq_true]
  simp only [Check.Rejects, Check.Fails, category?, compiled.scope_eq, Options.confinement?]
  by_cases removes : options.operation = .remove
  · cases options.relativeSourcePath with
    | none => simp [removes]
    | some text => simp [removes, Category.admits, Kind.isExclude, outside]
  · simp [removes]

/-- A list of excluded paths rejects what one of its texts covers. -/
theorem rejects_excludePath_iff (compiled : Compiled options set) :
    (Check.filter .excludePath).Rejects set item ↔
      (Check.filter .excludePath).Fails options item := by
  have matched : (Check.filter .excludePath).Rejects set item ↔
      ∃ list ∈ set.excludePath, PathList.covers list item.path = true := by
    simp [Check.Rejects, category?, Category.admits, Kind.isExclude]
  rw [matched, exists_covers_iff, entriesOf_compilePaths compiled.excludePath]
  simp [Check.Fails]

/-- A list of excluded globs rejects the names that one of its texts matches. -/
theorem rejects_excludePattern_iff (compiled : Compiled options set) :
    (Check.filter .excludePattern).Rejects set item ↔
      (Check.filter .excludePattern).Fails options item := by
  have matched : (Check.filter .excludePattern).Rejects set item ↔
      ∃ list ∈ set.excludePattern, GlobList.matchesName list item.basename = true := by
    simp [Check.Rejects, category?, Category.admits, Kind.isExclude]
  rw [matched, exists_matchesName_iff,
    (reads_compileGlobs compiled.excludePattern).exists_entry_iff]
  simp [Check.Fails, globMatches_iff]

/-- A list of included paths rejects what none of its texts covers. -/
theorem rejects_includePath_iff (compiled : Compiled options set) :
    (Check.filter .includePath).Rejects set item ↔
      (Check.filter .includePath).Fails options item := by
  have unmatched : (Check.filter .includePath).Rejects set item ↔
      ∃ list ∈ set.includePath, PathList.covers list item.path = false := by
    simp [Check.Rejects, category?, Category.admits, Kind.isExclude]
  rw [unmatched, exists_eq_false_iff, exists_covers_iff, ne_eq, ← entriesOf_eq_nil_iff,
    compiled.entriesOf_includePath]
  by_cases syncs : options.operation = .sync
  · simp [Check.Fails, syncs]
  · simp [Check.Fails, syncs]

/-- A list of included globs rejects the names that none of its texts matches. -/
theorem rejects_includePattern_iff (compiled : Compiled options set) :
    (Check.filter .includePattern).Rejects set item ↔
      (Check.filter .includePattern).Fails options item := by
  have reads := reads_compileGlobs compiled.includePattern
  have unmatched : (Check.filter .includePattern).Rejects set item ↔
      ∃ list ∈ set.includePattern, GlobList.matchesName list item.basename = false := by
    simp [Check.Rejects, category?, Category.admits, Kind.isExclude]
  rw [unmatched, exists_eq_false_iff, exists_matchesName_iff, ne_eq, reads.eq_none_iff,
    reads.exists_entry_iff]
  simp [Check.Fails, globMatches_iff]

/-- A threshold rejects what has not been modified after it. -/
theorem rejects_includeAfter_iff (compiled : Compiled options set) :
    (Check.filter .includeAfter).Rejects set item ↔
      (Check.filter .includeAfter).Fails options item := by
  have unmatched : (Check.filter .includeAfter).Rejects set item ↔
      ∃ threshold ∈ set.includeAfter, ¬threshold < item.modified := by
    simp [Check.Rejects, category?, Category.admits, Kind.isExclude]
  rw [unmatched, compiled.includeAfter_eq]
  by_cases copies : options.operation = .copy
  · cases given : options.includeAfter with
    | none => simp [Check.Fails, copies, given]
    | some text => simp [Check.Fails, copies, given]
  · simp [Check.Fails, copies]

/-- A compiled filter set rejects an item by a check exactly when the item fails the check of the
options. -/
theorem rejects_iff (compiled : Compiled options set) (check : Check) :
    check.Rejects set item ↔ check.Fails options item := by
  cases check with
  | recursion => exact compiled.rejects_recursion_iff
  | filter kind =>
      cases kind with
      | scope => exact compiled.rejects_scope_iff
      | excludePath => exact compiled.rejects_excludePath_iff
      | excludePattern => exact compiled.rejects_excludePattern_iff
      | includePath => exact compiled.rejects_includePath_iff
      | includePattern => exact compiled.rejects_includePattern_iff
      | includeAfter => exact compiled.rejects_includeAfter_iff

/-- A compiled filter set accepts the items that fail no check of the options. -/
theorem isAccepted_decide_iff (compiled : Compiled options set) (item : Item) :
    (set.decide item).isAccepted = true ↔ ∀ check : Check, ¬check.Fails options item := by
  rw [FilterSet.isAccepted_decide_iff]
  exact forall_congr' fun check => not_congr (compiled.rejects_iff check)

end Compiled

/-- A filter set compiled from options accepts an item that fails no check of the options, and
otherwise rejects it with the reason of the first check that it fails. -/
theorem decide_compiled (compiles : outcome (compile options) = .ok set) (item : Item) :
    set.decide item =
      match Check.first? (Check.Fails options item) with
      | some check => .rejected check.reason
      | none => .accepted .selfMatched := by
  have compiled := compile_eq_ok_iff.1 compiles
  have sameCheck : Check.first? (Check.Rejects set item) =
      Check.first? (Check.Fails options item) := by
    refine List.find?_congr fun check _ => ?_
    rw [decide_eq_decide]
    exact compiled.rejects_iff check
  rw [FilterSet.decide, rejection?_eq_first?, sameCheck]
  cases Check.first? (Check.Fails options item) with
  | none => rfl
  | some check => rfl

/-- A removal that is not recursive reaches its scope below the direct children of the root, and
an excluded path there is reported before the missing inclusion. -/
theorem decide_compiled_excluded_scope :
    let options : Options :=
      { operation := .remove, relativeSourcePath := some "a/./b", excludePath := some ";a//b/",
        includePath := some "c" }
    let item : Item := ⟨.parse "a/b", .file 1, ⟨0⟩⟩
    ∃ set, outcome (compile options) = .ok set ∧
      set.decide item = .rejected (.excluded .excludePath) := by
  intro options item
  have first : Check.first? (Check.Fails options item) = some (.filter .excludePath) := by decide
  have succeeds : (outcome (compile options)).isOk = true := by decide
  cases compiles : outcome (compile options) with
  | error error =>
      rw [compiles] at succeeds
      cases succeeds
  | ok set =>
      refine ⟨set, rfl, ?_⟩
      rw [decide_compiled compiles item, first]
      rfl

end FilterSet

end Winnow
