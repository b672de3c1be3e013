import Winnow.Proofs.FilterSet.Decision

/-!
# Lists that get longer

Four of the options are lists, and a list is made longer by a semicolon and further text. Its
entries are then those of both texts, wherever they are cut.

`Wider` compares two options that differ in their lists alone: the wider ones exclude no more and
include no less. The converse of a longer list matters for inclusions: a list without entries
includes everything, so the first entry narrows what any further one widens. `Wider.fails` shows
that an item that fails a check of the wider options fails it for the narrower ones too.
-/

namespace Winnow

/-- A list option with further text; an absent option becomes the text alone. -/
def lengthened (option : Option String) (text : String) : String :=
  match option with
  | none => text
  | some given => given ++ ";" ++ text

/-- A longer list has the entries of both parts. -/
theorem listed_lengthened (option : Option String) (text : String) :
    listed (some (lengthened option text)) = listed option ++ entryTexts text := by
  cases option with
  | none => rfl
  | some given => exact entryTexts_append given text

/-- No kind both excludes and includes. -/
theorem Kind.ne_of_isExclude_of_isInclude {kind other : Kind} (isExclude : kind.isExclude = true)
    (isInclude : other.isInclude = true) : kind ≠ other := by
  rintro rfl
  cases kind with
  | scope | includePath | includePattern | includeAfter => cases isExclude
  | excludePath | excludePattern => cases isInclude

namespace Options

variable {options wide narrow : Options} {kind other : Kind} {item : Item} {check : Check}

/-- The entries that options list under a kind; two kinds are not lists. -/
def entries (options : Options) (kind : Kind) : List String :=
  match kind with
  | .excludePath => listed options.excludePath
  | .excludePattern => listed options.excludePattern
  | .includePath => listed options.includePath
  | .includePattern => listed options.includePattern
  | .scope | .includeAfter => []

/-- Options with further text in the list of a kind. -/
def extend (options : Options) (kind : Kind) (text : String) : Options :=
  match kind with
  | .excludePath => { options with excludePath := lengthened options.excludePath text }
  | .excludePattern => { options with excludePattern := lengthened options.excludePattern text }
  | .includePath => { options with includePath := lengthened options.includePath text }
  | .includePattern => { options with includePattern := lengthened options.includePattern text }
  | .scope | .includeAfter => options

/-- Extending the list of a kind loses none of its entries. -/
theorem entries_subset_extend (options : Options) (kind : Kind) (text : String) :
    options.entries kind ⊆ (options.extend kind text).entries kind := by
  cases kind with
  | scope | includeAfter => exact List.Subset.refl _
  | excludePath | excludePattern | includePath | includePattern =>
      rw [entries, extend, entries, listed_lengthened]
      exact List.subset_append_left _ _

/-- Extending the list of a kind leaves the others alone. -/
theorem entries_extend_of_ne (different : other ≠ kind) (text : String) :
    (options.extend kind text).entries other = options.entries other := by
  cases kind <;> cases other <;> first | rfl | exact absurd rfl different

/-- Options that exclude no more and include no less than others, and are like them otherwise. -/
structure Wider (wide narrow : Options) : Prop where
  operation : wide.operation = narrow.operation
  recursive : wide.recursive = narrow.recursive
  source : wide.relativeSourcePath = narrow.relativeSourcePath
  includeAfter : wide.includeAfter = narrow.includeAfter
  excludes : ∀ kind, kind.isExclude = true → wide.entries kind ⊆ narrow.entries kind
  includes : ∀ kind, kind.isInclude = true → narrow.entries kind ⊆ wide.entries kind
  includesAll : ∀ kind, kind.isInclude = true → narrow.entries kind = [] → wide.entries kind = []

/-- Options are wider than with more excluded. -/
theorem wider_extend_of_isExclude (isExclude : kind.isExclude = true) (text : String) :
    options.Wider (options.extend kind text) := by
  have same : ∀ other : Kind, other.isInclude = true →
      (options.extend kind text).entries other = options.entries other :=
    fun other isInclude =>
      entries_extend_of_ne (Kind.ne_of_isExclude_of_isInclude isExclude isInclude).symm text
  constructor
  case excludes =>
    intro other _
    by_cases extended : other = kind
    · rw [extended]
      exact entries_subset_extend options kind text
    · rw [entries_extend_of_ne extended]
      exact List.Subset.refl _
  case includes =>
    intro other isInclude
    rw [same other isInclude]
    exact List.Subset.refl _
  case includesAll =>
    intro other isInclude none
    rwa [same other isInclude] at none
  all_goals cases kind <;> rfl

/-- Options are narrower than with more included, if something was included already. -/
theorem wider_extend_of_entries_ne_nil (isInclude : kind.isInclude = true)
    (configured : options.entries kind ≠ []) (text : String) :
    (options.extend kind text).Wider options := by
  constructor
  case excludes =>
    intro other isExclude
    rw [entries_extend_of_ne (Kind.ne_of_isExclude_of_isInclude isExclude isInclude)]
    exact List.Subset.refl _
  case includes =>
    intro other _
    by_cases extended : other = kind
    · rw [extended]
      exact entries_subset_extend options kind text
    · rw [entries_extend_of_ne extended]
      exact List.Subset.refl _
  case includesAll =>
    intro other _ none
    have unextended : other ≠ kind := by
      rintro rfl
      exact configured none
    rwa [entries_extend_of_ne unextended]
  all_goals cases kind <;> rfl

namespace Wider

/-- Both options confine a job to the same place. -/
theorem confinement? (wider : wide.Wider narrow) : wide.confinement? = narrow.confinement? := by
  rw [Options.confinement?, Options.confinement?, wider.operation, wider.source]

/-- An item that fails a check of the wider options fails that of the narrower ones. -/
theorem fails (wider : wide.Wider narrow) (failed : check.Fails wide item) :
    check.Fails narrow item := by
  rcases check with _ | kind
  · simpa only [Check.Fails, wider.recursive, wider.confinement?] using failed
  · cases kind with
    | scope => simpa only [Check.Fails, wider.recursive, wider.confinement?] using failed
    | excludePath =>
        obtain ⟨text, given, covers⟩ := failed
        exact ⟨text, wider.excludes .excludePath rfl given, covers⟩
    | excludePattern =>
        obtain ⟨text, given, found⟩ := failed
        exact ⟨text, wider.excludes .excludePattern rfl given, found⟩
    | includePath =>
        obtain ⟨applies, configured, missed⟩ := failed
        refine ⟨wider.operation ▸ applies, mt (wider.includesAll .includePath rfl) configured, ?_⟩
        rintro ⟨text, given, covers⟩
        exact missed ⟨text, wider.includes .includePath rfl given, covers⟩
    | includePattern =>
        obtain ⟨configured, missed⟩ := failed
        refine ⟨mt (wider.includesAll .includePattern rfl) configured, ?_⟩
        rintro ⟨text, given, found⟩
        exact missed ⟨text, wider.includes .includePattern rfl given, found⟩
    | includeAfter => simpa only [Check.Fails, wider.operation, wider.includeAfter] using failed

/-- Filter sets compiled from wider options accept what those from narrower ones accept. -/
theorem isAccepted (wider : wide.Wider narrow) {wideSet narrowSet : FilterSet}
    (wideCompiled : FilterSet.Compiled wide wideSet)
    (narrowCompiled : FilterSet.Compiled narrow narrowSet)
    (accepted : (narrowSet.decide item).isAccepted = true) :
    (wideSet.decide item).isAccepted = true := by
  rw [wideCompiled.isAccepted_decide_iff]
  rw [narrowCompiled.isAccepted_decide_iff] at accepted
  intro check failed
  exact accepted check (wider.fails failed)

end Wider

end Options

end Winnow
