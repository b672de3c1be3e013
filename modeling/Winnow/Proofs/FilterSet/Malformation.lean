import Winnow.Proofs.FilterSet.Extension
import Winnow.Proofs.FilterSet.Validation

/-!
# Which entry is reported

`Kind.IsMalformed` says when an entry cannot be used, by its text alone: what is wrong with a path
is read off the pieces between its separators. `Options.readings` lists everything that is read from
options, entry by entry and in the order of evaluation.

An entry of a list of paths stands for the place that its text denotes, and only the place matters
for whether the text can be read (`PathEntry.parse_eq_ok_iff`).

`failure?_names_first_malformed` shows that compiling fails exactly when one of these entries is
malformed, and that the error then names the first of them, as it was written. A malformed scope is
not among them unless the job is a removal. Globs and timestamps are malformed when their grammars
refuse them, the latter once the blanks around them have been taken away.
-/

namespace Winnow

/-- A text that names no place at or below the source: it holds a NUL, or the parent folder's name
leads out. -/
def LeavesSource (text : String) : Prop :=
  '\x00' ∈ text.toList ∨ ".." ∈ Text.pieces isSeparator text

/-- A text without a name between its separators; it stands for the source root. -/
def IsNameless (text : String) : Prop :=
  ∀ piece ∈ Text.pieces isSeparator text, piece = "" ∨ piece = "."

/-- The parent folder's name is contributed to a path wherever it stands between separators. -/
theorem parent_mem_segmentsOf_iff_mem_pieces {text : String} :
    ".." ∈ segmentsOf text ↔ ".." ∈ Text.pieces isSeparator text := by
  rw [segmentsOf, List.mem_filter]
  exact and_iff_left rfl

/-- A nameless text contributes nothing to a path. -/
theorem segmentsOf_eq_nil_iff {text : String} : segmentsOf text = [] ↔ IsNameless text := by
  rw [IsNameless, segmentsOf, List.filter_eq_nil_iff]
  refine forall₂_congr fun piece _ => ?_
  simp [or_iff_not_imp_left]

/-- Whether a text leaves the source is seen from the names that it contributes. -/
theorem leavesSource_iff {text : String} :
    LeavesSource text ↔
      ".." ∈ segmentsOf text ∨ ∃ name ∈ segmentsOf text, '\x00' ∈ name.toList := by
  rw [LeavesSource, parent_mem_segmentsOf_iff_mem_pieces,
    exists_mem_segmentsOf_iff (by decide) (by decide), or_comm]

/-- The nameless texts are those that denote the root. -/
theorem isNameless_iff {text : String} : IsNameless text ↔ RelPath.parse text = .root := by
  rw [← segmentsOf_eq_nil_iff]
  constructor
  · intro nothing
    exact RelPath.ext nothing
  · intro isRoot
    exact congrArg RelPath.segments isRoot

section Searches

variable {α β γ : Type}

/-- A search through several lists in turn is a search through the lists. -/
theorem findSome?_flatMap (search : β → Option γ) (parts : α → List β) (wholes : List α) :
    (wholes.flatMap parts).findSome? search =
      wholes.findSome? fun whole => (parts whole).findSome? search := by
  induction wholes with
  | nil => rfl
  | cons whole wholes inductionHypothesis =>
      rw [List.flatMap_cons, List.findSome?_append, inductionHypothesis, findSome?_cons_eq_or]

/-- A search through at most one value looks at that value. -/
theorem findSome?_toList (search : α → Option β) (value? : Option α) :
    value?.toList.findSome? search = value?.bind search := by
  cases value? with
  | none => rfl
  | some value => exact List.findSome?_singleton

end Searches

section Readers

variable {kind : Kind} {text : String}

/-- A path option cannot be read exactly if it leaves the source. -/
theorem isSome_errorOf?_readRelPath :
    (errorOf? (readRelPath kind text)).isSome = true ↔ LeavesSource text := by
  rw [LeavesSource, ← parent_mem_segmentsOf_iff_mem_pieces, readRelPath]
  by_cases nul : '\x00' ∈ text.toList
  · simp [nul]
  · by_cases parent : ".." ∈ segmentsOf text
    · simp [nul, parent]
    · simp [nul, parent]

/-- A path entry cannot be read exactly if it leaves the source or stands for its root. -/
theorem isSome_errorOf?_parse_pathEntry :
    (errorOf? (PathEntry.parse kind text)).isSome = true ↔
      LeavesSource text ∨ IsNameless text := by
  rw [← @isSome_errorOf?_readRelPath kind, ← segmentsOf_eq_nil_iff, PathEntry.parse]
  cases read : readRelPath kind text with
  | error error => simp
  | ok path =>
      obtain rfl := FilterSet.eq_parse_of_readRelPath read
      by_cases nameless : segmentsOf text = []
      · simp [RelPath.isRoot, nameless]
      · simp [RelPath.isRoot, nameless]

/-- What is not refused is read as an entry for the place that the text denotes. -/
theorem PathEntry.parse_eq_ok_iff_errorOf? {place : RelPath} :
    PathEntry.parse kind text = .ok ⟨text, place⟩ ↔
      RelPath.parse text = place ∧ ¬(errorOf? (PathEntry.parse kind text)).isSome = true := by
  cases read : PathEntry.parse kind text with
  | error error => simp
  | ok entry =>
      obtain rfl := FilterSet.eq_of_parse_pathEntry read
      simp

/-- A text is read as an entry for a place exactly if it denotes the place, and the place is not the
root and has neither the parent folder's name nor a NUL in it. -/
theorem PathEntry.parse_eq_ok_iff {place : RelPath} :
    PathEntry.parse kind text = .ok ⟨text, place⟩ ↔
      RelPath.parse text = place ∧ place ≠ .root ∧ ".." ∉ place.segments ∧
        ∀ name ∈ place.segments, '\x00' ∉ name.toList := by
  rw [parse_eq_ok_iff_errorOf?, isSome_errorOf?_parse_pathEntry, leavesSource_iff,
    isNameless_iff]
  refine and_congr_right ?_
  rintro rfl
  simp only [not_or, not_exists, not_and, RelPath.segments_parse]
  exact and_comm

/-- A glob entry cannot be read exactly if it holds a slash or its grammar refuses it. -/
theorem isSome_errorOf?_parse_glob :
    (errorOf? (Glob.parse kind text)).isSome = true ↔
      '/' ∈ text.toList ∨ ∃ fault, Glob.tokensOf text = .error fault := by
  rw [Glob.parse]
  by_cases slash : '/' ∈ text.toList
  · simp [slash]
  · cases Glob.tokensOf text with
    | error fault => simp [slash]
    | ok tokens => simp [slash]

/-- A threshold cannot be read exactly if, without blanks around it, it is no timestamp. -/
theorem isSome_errorOf?_readThreshold :
    (errorOf? (readThreshold text)).isSome = true ↔
      ∃ fault, Rfc3339.parse (Text.trim text) = .error fault := by
  rw [readThreshold]
  cases Rfc3339.parse (Text.trim text) with
  | error fault => simp
  | ok instant => simp

end Readers

namespace Kind

variable {kind : Kind} {text : String} {error : FilterError}

/-- An entry that cannot be used as one of its kind. A scope may be the source root, but the entries
of lists of paths may not. -/
def IsMalformed (kind : Kind) (text : String) : Prop :=
  match kind with
  | .scope => LeavesSource text
  | .excludePath | .includePath => LeavesSource text ∨ IsNameless text
  | .excludePattern | .includePattern =>
      '/' ∈ text.toList ∨ ∃ fault, Glob.tokensOf text = .error fault
  | .includeAfter => ∃ fault, Rfc3339.parse (Text.trim text) = .error fault

/-- The error of reading one entry of a kind, if it cannot be read. -/
def misreading? (kind : Kind) (text : String) : Option FilterError :=
  match kind with
  | .scope => errorOf? (readRelPath kind text)
  | .excludePath | .includePath => errorOf? (PathEntry.parse kind text)
  | .excludePattern | .includePattern => errorOf? (Glob.parse kind text)
  | .includeAfter => errorOf? (readThreshold text)

/-- An entry cannot be read exactly if it is malformed. -/
theorem isSome_misreading?_iff :
    (kind.misreading? text).isSome = true ↔ kind.IsMalformed text := by
  unfold misreading? IsMalformed
  cases kind with
  | scope => exact isSome_errorOf?_readRelPath
  | excludePath | includePath => exact isSome_errorOf?_parse_pathEntry
  | excludePattern | includePattern => exact isSome_errorOf?_parse_glob
  | includeAfter => exact isSome_errorOf?_readThreshold

/-- The error of reading an entry names its kind and its text. -/
theorem names_of_misreading? (misread : kind.misreading? text = some error) :
    error.kind = kind ∧ error.entry = text := by
  cases kind with
  | scope => exact names_of_readRelPath (errorOf?_eq_some_iff.1 misread)
  | excludePath | includePath => exact names_of_parse_pathEntry (errorOf?_eq_some_iff.1 misread)
  | excludePattern | includePattern => exact names_of_parse_glob (errorOf?_eq_some_iff.1 misread)
  | includeAfter => exact names_of_readThreshold (errorOf?_eq_some_iff.1 misread)

end Kind

namespace Options

variable {options : Options} {kind : Kind}

/-- The texts that are read for a kind, in order. A scope is read for removals alone. -/
def texts (options : Options) (kind : Kind) : List String :=
  match kind with
  | .scope => if options.operation = .remove then options.relativeSourcePath.toList else []
  | .excludePath | .excludePattern | .includePath | .includePattern => options.entries kind
  | .includeAfter => options.includeAfter.toList

/-- Everything that is read from options, each text with its kind, in the order of evaluation. -/
def readings (options : Options) : List (Kind × String) :=
  Kind.all.flatMap fun kind => (options.texts kind).map fun text => (kind, text)

/-- What is wrong with the option of a kind is the first misreading of its texts. -/
theorem findSome?_texts_of_ne_scope (unscoped : kind ≠ .scope) :
    (options.texts kind).findSome? kind.misreading? = options.fault? kind := by
  cases kind with
  | scope => exact absurd rfl unscoped
  | excludePath | excludePattern | includePath | includePattern => rfl
  | includeAfter => exact findSome?_toList _ _

/-- What is wrong with a scope is found in removals alone. -/
theorem findSome?_texts_scope (options : Options) :
    (options.texts .scope).findSome? Kind.scope.misreading? =
      if options.operation = .remove then options.fault? .scope else none := by
  rw [texts]
  split
  · exact findSome?_toList _ _
  · rfl

/-- Compiling fails with the first misreading. -/
theorem failure?_eq_findSome? (options : Options) :
    options.failure? =
      options.readings.findSome? fun reading => reading.1.misreading? reading.2 := by
  have perKind : ∀ kind, ((options.texts kind).map fun text => (kind, text)).findSome?
      (fun reading => reading.1.misreading? reading.2) =
        (options.texts kind).findSome? kind.misreading? :=
    fun kind => List.findSome?_map
  rw [failure?_eq, readings, findSome?_flatMap]
  simp only [perKind, Kind.all, Kind.unscoped, findSome?_cons_eq_or, List.findSome?_nil,
    findSome?_texts_scope]
  simp only [ne_eq, reduceCtorEq, not_false_eq_true, findSome?_texts_of_ne_scope]

/-- A scope may be the source root, and globs to exclude are read before paths to include. -/
example :
    let options : Options :=
      { operation := .remove
        relativeSourcePath := some "./"
        excludePattern := some "*.o;a/b;[z"
        includePath := some ".." }
    options.failure?.map (fun error => (error.kind, error.entry)) =
      some (.excludePattern, "a/b") := by
  decide +kernel

/-- Options are refused exactly if something that is read from them is malformed. The error then
names the first of these entries in the order of evaluation, by its kind and as it was written. -/
theorem failure?_names_first_malformed (options : Options) :
    ((∃ error, options.failure? = some error) ↔
        ∃ reading ∈ options.readings, reading.1.IsMalformed reading.2) ∧
      ∀ error, options.failure? = some error →
        ∃ earlier later, options.readings = earlier ++ (error.kind, error.entry) :: later ∧
          error.kind.IsMalformed error.entry ∧
          ∀ reading ∈ earlier, ¬reading.1.IsMalformed reading.2 := by
  rw [failure?_eq_findSome?]
  constructor
  · rw [← Option.isSome_iff_exists, List.findSome?_isSome_iff]
    simp only [Kind.isSome_misreading?_iff]
  · intro error failed
    obtain ⟨earlier, ⟨kind, text⟩, later, split, misread, wellFormed⟩ :=
      List.findSome?_eq_some_iff.1 failed
    obtain ⟨rfl, rfl⟩ := Kind.names_of_misreading? misread
    refine ⟨earlier, later, split, ?_, fun reading listed => ?_⟩
    · exact Kind.isSome_misreading?_iff.1 (Option.isSome_of_eq_some misread)
    · rw [← Kind.isSome_misreading?_iff, wellFormed reading listed]
      exact Bool.false_ne_true

end Options

end Winnow
