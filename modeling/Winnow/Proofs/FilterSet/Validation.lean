import Winnow.Proofs.FilterSet.Compiled

/-!
# Which options are refused

Compiling fails like the first option that cannot be read. `Options.fault?` says of each kind of
filter, in terms of its text alone, what is wrong with it, and `failure?_eq` shows that compiling
reports the first of these faults in the order of evaluation.

All options but the scope are read for every operation, whether or not the filter applies to it. A
scope is read for removals alone, so a malformed one goes unnoticed in a copy or in a
synchronization. `failure?_eq_failure?_iff` shows that a failure depends on the operation in no
other way.
-/

namespace Winnow

section Errors

variable {ε α β : Type}

/-- The error that a computation has come to, if it has failed. -/
def errorOf? : Except ε α → Option ε
  | .error error => some error
  | .ok _ => none

@[simp]
theorem errorOf?_error (error : ε) : errorOf? (.error error : Except ε α) = some error := rfl

@[simp]
theorem errorOf?_ok (result : α) : errorOf? (.ok result : Except ε α) = none := rfl

theorem errorOf?_eq_some_iff {result : Except ε α} {error : ε} :
    errorOf? result = some error ↔ result = .error error := by
  cases result with
  | error other => simp
  | ok value => simp

@[simp]
theorem errorOf?_map (change : α → β) (result : Except ε α) :
    errorOf? (result.map change) = errorOf? result := by
  cases result with
  | error error => rfl
  | ok value => rfl

/-- A computation in two steps fails like the first step, or else like the second, when the failure
of the second does not depend on what the first has come to. -/
theorem errorOf?_bind {first : Except ε α} {next : α → Except ε β} {later : Option ε}
    (independent : ∀ middle, errorOf? (next middle) = later) :
    errorOf? (first >>= next) = (errorOf? first).or later := by
  cases first with
  | error error => rfl
  | ok middle => exact independent middle

/-- What is made of a result does not decide whether it is reached. -/
theorem errorOf?_bind_pure (first : Except ε α) (result : α → β) :
    errorOf? (first >>= fun middle => pure (result middle)) = errorOf? first := by
  cases first with
  | error error => rfl
  | ok middle => rfl

/-- What a search finds is what it finds at the first place, or else what it finds later. -/
theorem findSome?_cons_eq_or (search : α → Option β) (first : α) (others : List α) :
    (first :: others).findSome? search = (search first).or (others.findSome? search) := by
  rw [← List.singleton_append, List.findSome?_append, List.findSome?_singleton]

end Errors

namespace EntryList

variable {α : Type} {read : String → Except FilterError α}

/-- Reading several texts fails like the first of them that cannot be read. -/
theorem errorOf?_mapM (texts : List String) :
    errorOf? (texts.mapM read) = texts.findSome? fun text => errorOf? (read text) := by
  induction texts with
  | nil => rfl
  | cons text rest inductionHypothesis =>
      have others : ∀ entry,
          errorOf? (rest.mapM read >>= fun entries => pure (entry :: entries)) =
            errorOf? (rest.mapM read) := by
        intro entry
        exact errorOf?_bind_pure _ _
      rw [List.mapM_cons, errorOf?_bind others, inductionHypothesis, findSome?_cons_eq_or]

/-- Parsing a list option fails like the first of its texts that cannot be read. -/
theorem errorOf?_parse (text : String) :
    errorOf? (parse read text) =
      (entryTexts text).findSome? fun entry => errorOf? (read entry) := by
  rw [parse, errorOf?_bind_pure, errorOf?_mapM]

end EntryList

section Readers

variable {kind : Kind} {text : String} {error : FilterError}

/-- A path option that cannot be read is named by its kind and its text. -/
theorem names_of_readRelPath (malformed : readRelPath kind text = .error error) :
    error.kind = kind ∧ error.entry = text := by
  unfold readRelPath at malformed
  split at malformed
  · obtain rfl := Except.error.inj malformed
    exact ⟨rfl, rfl⟩
  · split at malformed
    · obtain rfl := Except.error.inj malformed
      exact ⟨rfl, rfl⟩
    · cases malformed

/-- A path entry that cannot be read is named by its kind and its text. -/
theorem names_of_parse_pathEntry (malformed : PathEntry.parse kind text = .error error) :
    error.kind = kind ∧ error.entry = text := by
  unfold PathEntry.parse at malformed
  split at malformed
  case h_1 fault read =>
    obtain rfl := Except.error.inj malformed
    exact names_of_readRelPath read
  case h_2 path read =>
    split at malformed
    · obtain rfl := Except.error.inj malformed
      exact ⟨rfl, rfl⟩
    · cases malformed

/-- A glob that cannot be read is named by its kind and its text. -/
theorem names_of_parse_glob (malformed : Glob.parse kind text = .error error) :
    error.kind = kind ∧ error.entry = text := by
  unfold Glob.parse at malformed
  split at malformed
  · obtain rfl := Except.error.inj malformed
    exact ⟨rfl, rfl⟩
  · split at malformed
    · obtain rfl := Except.error.inj malformed
      exact ⟨rfl, rfl⟩
    · cases malformed

/-- A threshold that cannot be read is named by its kind and its text. -/
theorem names_of_readThreshold (malformed : readThreshold text = .error error) :
    error.kind = .includeAfter ∧ error.entry = text := by
  unfold readThreshold at malformed
  split at malformed
  · obtain rfl := Except.error.inj malformed
    exact ⟨rfl, rfl⟩
  · cases malformed

end Readers

/-- The kinds of filters whose options are read for every operation, in the order of evaluation. -/
def Kind.unscoped : List Kind :=
  [.excludePath, .excludePattern, .includePath, .includePattern, .includeAfter]

namespace Options

variable {options : Options} {kind : Kind} {error : FilterError}

/-- What is wrong with the option of one kind: the error of its first entry that cannot be read.
Whether the filter applies to the operation does not matter. -/
def fault? (options : Options) : Kind → Option FilterError
  | .scope => options.relativeSourcePath.bind fun text => errorOf? (readRelPath .scope text)
  | .excludePath => (listed options.excludePath).findSome? fun text =>
      errorOf? (PathEntry.parse .excludePath text)
  | .excludePattern => (listed options.excludePattern).findSome? fun text =>
      errorOf? (Glob.parse .excludePattern text)
  | .includePath => (listed options.includePath).findSome? fun text =>
      errorOf? (PathEntry.parse .includePath text)
  | .includePattern => (listed options.includePattern).findSome? fun text =>
      errorOf? (Glob.parse .includePattern text)
  | .includeAfter => options.includeAfter.bind fun text => errorOf? (readThreshold text)

/-- Why options cannot be compiled, if they cannot. -/
def failure? (options : Options) : Option FilterError :=
  errorOf? (FilterSet.outcome (FilterSet.compile options))

/-- A fault names the kind of the option that has it. -/
theorem kind_of_fault? (faulty : options.fault? kind = some error) : error.kind = kind := by
  cases kind with
  | scope =>
      obtain ⟨text, _, malformed⟩ := Option.bind_eq_some_iff.1 faulty
      exact (names_of_readRelPath (errorOf?_eq_some_iff.1 malformed)).1
  | excludePath | includePath =>
      obtain ⟨text, _, malformed⟩ := List.exists_of_findSome?_eq_some faulty
      exact (names_of_parse_pathEntry (errorOf?_eq_some_iff.1 malformed)).1
  | excludePattern | includePattern =>
      obtain ⟨text, _, malformed⟩ := List.exists_of_findSome?_eq_some faulty
      exact (names_of_parse_glob (errorOf?_eq_some_iff.1 malformed)).1
  | includeAfter =>
      obtain ⟨text, _, malformed⟩ := Option.bind_eq_some_iff.1 faulty
      exact (names_of_readThreshold (errorOf?_eq_some_iff.1 malformed)).1

/-- What is wrong with an option is a matter of its text and not of the operation. -/
theorem fault?_operation (options : Options) (operation : Operation) (kind : Kind) :
    ({ options with operation } : Options).fault? kind = options.fault? kind := by
  cases kind <;> rfl

end Options

namespace FilterSet

open EntryList

/-- A scope is refused in removals alone. -/
theorem errorOf?_compileScope (options : Options) :
    errorOf? (outcome (compileScope options)) =
      if options.operation = .remove then options.fault? .scope else none := by
  rw [outcome_compileScope, Options.fault?]
  cases options.relativeSourcePath with
  | none => exact (ite_self none).symm
  | some text =>
      dsimp only
      split
      · rw [errorOf?_map, Option.bind_some]
      · rfl

theorem errorOf?_compilePaths (kind : Kind) (text? : Option String) :
    errorOf? (outcome (compilePaths kind text?)) =
      (listed text?).findSome? fun text => errorOf? (PathEntry.parse kind text) := by
  rw [outcome_compilePaths]
  cases text? with
  | none => rfl
  | some text => exact errorOf?_parse text

theorem errorOf?_compileGlobs (kind : Kind) (text? : Option String) :
    errorOf? (outcome (compileGlobs kind text?)) =
      (listed text?).findSome? fun text => errorOf? (Glob.parse kind text) := by
  rw [outcome_compileGlobs]
  cases text? with
  | none => rfl
  | some text => exact errorOf?_parse text

/-- Included paths are refused whether or not they apply. -/
theorem errorOf?_compileIncludePath (options : Options) :
    errorOf? (outcome (compileIncludePath options)) = options.fault? .includePath := by
  rw [outcome_compileIncludePath, errorOf?_map, errorOf?_compilePaths, Options.fault?]

/-- A threshold is refused whether or not it applies. -/
theorem errorOf?_compileIncludeAfter (options : Options) :
    errorOf? (outcome (compileIncludeAfter options)) = options.fault? .includeAfter := by
  rw [outcome_compileIncludeAfter, Options.fault?]
  cases options.includeAfter with
  | none => rfl
  | some text => rw [errorOf?_map, Option.bind_some]

end FilterSet

namespace Options

open FilterSet

/-- Options fail with the first fault in the order of evaluation. In a removal the scope comes
first; otherwise its fault does not count. -/
theorem failure?_eq (options : Options) :
    options.failure? =
      (if options.operation = .remove then options.fault? .scope else none).or
        (Kind.unscoped.findSome? options.fault?) := by
  -- No step needs the result of an earlier one, so each fails as it would by itself.
  have inOrder : options.failure? =
      (errorOf? (outcome (compileScope options))).or
        ((errorOf? (outcome (compilePaths .excludePath options.excludePath))).or
          ((errorOf? (outcome (compileGlobs .excludePattern options.excludePattern))).or
            ((errorOf? (outcome (compileIncludePath options))).or
              ((errorOf? (outcome (compileGlobs .includePattern options.includePattern))).or
                (errorOf? (outcome (compileIncludeAfter options))))))) := by
    rw [failure?, outcome_compile]
    exact errorOf?_bind fun scope => errorOf?_bind fun excludePath =>
      errorOf?_bind fun excludePattern => errorOf?_bind fun includePath =>
      errorOf?_bind fun includePattern => errorOf?_bind_pure _ _
  rw [inOrder, errorOf?_compileScope, errorOf?_compilePaths, errorOf?_compileGlobs,
    errorOf?_compileIncludePath, errorOf?_compileGlobs, errorOf?_compileIncludeAfter]
  simp only [Kind.unscoped, findSome?_cons_eq_or, List.findSome?_nil, Option.or_none]
  rfl

/-- The failure of the same options for some operation. -/
theorem failure?_operation (options : Options) (operation : Operation) :
    ({ options with operation } : Options).failure? =
      (if operation = .remove then options.fault? .scope else none).or
        (Kind.unscoped.findSome? options.fault?) := by
  have sameFaults : ({ options with operation } : Options).fault? = options.fault? :=
    funext (fault?_operation options operation)
  rw [failure?_eq, sameFaults]

/-- A malformed scope is reported before anything else, and no other option fails like it. -/
theorem fault?_scope_or_eq_iff (options : Options) :
    (options.fault? .scope).or (Kind.unscoped.findSome? options.fault?) =
        Kind.unscoped.findSome? options.fault? ↔
      options.fault? .scope = none := by
  constructor
  · intro unnoticed
    cases faulty : options.fault? .scope with
    | none => rfl
    | some error =>
        rw [faulty, Option.some_or] at unnoticed
        obtain ⟨kind, read, likewise⟩ := List.exists_of_findSome?_eq_some unnoticed.symm
        have same : Kind.scope = kind :=
          (kind_of_fault? faulty).symm.trans (kind_of_fault? likewise)
        rw [← same] at read
        exact absurd read (by decide)
  · intro wellFormed
    rw [wellFormed, Option.none_or]

/-- Whether options fail, and how, is the same for two operations exactly when both or neither is a
removal, or nothing is wrong with the scope. -/
theorem failure?_eq_failure?_iff (options : Options) (first second : Operation) :
    ({ options with operation := first } : Options).failure? =
        ({ options with operation := second } : Options).failure? ↔
      (first = .remove ↔ second = .remove) ∨ options.fault? .scope = none := by
  rw [failure?_operation, failure?_operation]
  by_cases firstRemoves : first = .remove
  · by_cases secondRemoves : second = .remove
    · simp [firstRemoves, secondRemoves]
    · rw [if_pos firstRemoves, if_neg secondRemoves, Option.none_or, fault?_scope_or_eq_iff]
      simp [firstRemoves, secondRemoves]
  · by_cases secondRemoves : second = .remove
    · rw [if_neg firstRemoves, if_pos secondRemoves, Option.none_or, eq_comm,
        fault?_scope_or_eq_iff]
      simp [firstRemoves, secondRemoves]
    · simp [firstRemoves, secondRemoves]

/-- A scope that would leave the source is refused in a removal and overlooked in a copy. -/
theorem failure?_scope_above_root :
    let removal : Options := { operation := .remove, relativeSourcePath := some ".." }
    let copy : Options := { operation := .copy, relativeSourcePath := some ".." }
    removal.failure? = some ⟨.scope, "..", .path .parentSegment⟩ ∧ copy.failure? = none := by
  decide

end Options

end Winnow
