import Winnow.FilterSet.Compile
import Winnow.Proofs.EntryList

/-!
# What compiling comes to

`outcome` is what compiling yields, its notices aside. `outcome_compile` gives it as a plain
computation, one step for each kind of filter in the order of evaluation; `Compiled` lists what
the steps have come to when none of them fails.
-/

namespace Winnow.FilterSet

open EntryList

variable {α β : Type} {options : Options} {set : FilterSet} {kind : Kind} {text? : Option String}

/-- What a step of compiling comes to, its notices aside. -/
def outcome (step : Compiling Noted α) : Except FilterError α := step.run.value

@[simp]
theorem outcome_pure (result : α) : outcome (pure result : Compiling Noted α) = .ok result := rfl

@[simp]
theorem outcome_lift (noted : Noted α) :
    outcome (monadLift noted : Compiling Noted α) = .ok noted.value := rfl

@[simp]
theorem outcome_read (result : Except FilterError α) :
    outcome (monadLift result : Compiling Noted α) = result := rfl

@[simp]
theorem outcome_bind (step : Compiling Noted α) (next : α → Compiling Noted β) :
    outcome (step >>= next) = outcome step >>= fun middle => outcome (next middle) := by
  unfold outcome
  rw [ExceptT.run_bind, Noted.value_bind]
  cases step.run.value with
  | error error => rfl
  | ok middle => rfl

/-- Notices alone cannot fail. -/
theorem outcome_forM (categories : List Category) (notify : Category → Noted Unit) :
    outcome (categories.forM fun category => (monadLift (notify category) : Compiling Noted Unit)) =
      .ok () := by
  induction categories with
  | nil => rfl
  | cons category rest inductionHypothesis =>
      change outcome (monadLift (notify category) >>= fun _ => rest.forM _) = _
      rw [outcome_bind, outcome_lift]
      exact inductionHypothesis

/-- The scope is read for removals alone. -/
theorem outcome_compileScope (options : Options) :
    outcome (compileScope options) =
      match options.relativeSourcePath with
      | none => .ok none
      | some text =>
          if options.operation = .remove then
            (readRelPath .scope text).map fun path => some ⟨path, options.recursive⟩
          else .ok none := by
  unfold compileScope
  cases options.relativeSourcePath with
  | none => rfl
  | some text =>
      dsimp only
      split
      · rw [outcome_bind, outcome_read]
        cases readRelPath .scope text with
        | error error => rfl
        | ok path => rfl
      · rfl

theorem outcome_compilePaths (kind : Kind) (text? : Option String) :
    outcome (compilePaths kind text?) =
      match text? with
      | none => .ok none
      | some text => PathList.parse kind text := by
  cases text? with
  | none => rfl
  | some text => rfl

theorem outcome_compileGlobs (kind : Kind) (text? : Option String) :
    outcome (compileGlobs kind text?) =
      match text? with
      | none => .ok none
      | some text => GlobList.parse kind text := by
  cases text? with
  | none => rfl
  | some text => rfl

/-- Included paths are read for every operation, and left out of synchronizations. -/
theorem outcome_compileIncludePath (options : Options) :
    outcome (compileIncludePath options) =
      (outcome (compilePaths .includePath options.includePath)).map fun list? =>
        if options.operation = .sync then none else list? := by
  unfold compileIncludePath
  rw [outcome_bind]
  cases given : options.includePath with
  | none =>
      have nothing : outcome (compilePaths .includePath none) = .ok none := rfl
      rw [nothing]
      dsimp only [bind, Except.bind, Except.map]
      rw [if_neg fun both => absurd both.2 Bool.false_ne_true, ite_self]
      rfl
  | some text =>
      cases outcome (compilePaths .includePath (some text)) with
      | error error => rfl
      | ok list? =>
          dsimp only [bind, Except.bind, Except.map]
          by_cases syncs : options.operation = .sync
          · rw [if_pos ⟨syncs, rfl⟩, if_pos syncs]
            rfl
          · rw [if_neg fun both => syncs both.1, if_neg syncs]
            rfl

/-- A threshold is read for every operation, and kept for copies alone. -/
theorem outcome_compileIncludeAfter (options : Options) :
    outcome (compileIncludeAfter options) =
      match options.includeAfter with
      | none => .ok none
      | some text => (readThreshold text).map fun threshold =>
          if options.operation = .copy then some threshold else none := by
  unfold compileIncludeAfter
  cases options.includeAfter with
  | none => rfl
  | some text =>
      dsimp only
      rw [outcome_bind, outcome_read]
      cases readThreshold text with
      | error error => rfl
      | ok threshold =>
          dsimp only [bind, Except.bind, Except.map]
          split
          · rfl
          · rfl

/-- Compiling reads the filters in the order of their evaluation and stops at the first that
cannot be read. -/
theorem outcome_compile (options : Options) :
    outcome (compile options) = do
      let scope ← outcome (compileScope options)
      let excludePath ← outcome (compilePaths .excludePath options.excludePath)
      let excludePattern ← outcome (compileGlobs .excludePattern options.excludePattern)
      let includePath ← outcome (compileIncludePath options)
      let includePattern ← outcome (compileGlobs .includePattern options.includePattern)
      let includeAfter ← outcome (compileIncludeAfter options)
      return { operation := options.operation, recursive := options.recursive, scope,
               excludePath, excludePattern, includePath, includePattern, includeAfter } := by
  unfold compile
  simp only [outcome_bind, outcome_pure, outcome_forM]
  rfl

/-- What the steps of compiling have come to when none of them fails. -/
structure Compiled (options : Options) (set : FilterSet) : Prop where
  operation : set.operation = options.operation
  recursive : set.recursive = options.recursive
  scope : outcome (compileScope options) = .ok set.scope
  excludePath : outcome (compilePaths .excludePath options.excludePath) = .ok set.excludePath
  excludePattern :
    outcome (compileGlobs .excludePattern options.excludePattern) = .ok set.excludePattern
  includePath : outcome (compileIncludePath options) = .ok set.includePath
  includePattern :
    outcome (compileGlobs .includePattern options.includePattern) = .ok set.includePattern
  includeAfter : outcome (compileIncludeAfter options) = .ok set.includeAfter

/-- Compiling comes to a filter set exactly when every step does. -/
theorem compile_eq_ok_iff : outcome (compile options) = .ok set ↔ Compiled options set := by
  rw [outcome_compile]
  simp only [bind_eq_ok]
  constructor
  · rintro ⟨scope, scopeRead, excludePath, excludePathRead, excludePattern, excludePatternRead,
      includePath, includePathRead, includePattern, includePatternRead, includeAfter,
      includeAfterRead, same⟩
    obtain rfl := Except.ok.inj same
    exact ⟨rfl, rfl, scopeRead, excludePathRead, excludePatternRead, includePathRead,
      includePatternRead, includeAfterRead⟩
  · rintro ⟨operation, recursive, scopeRead, excludePathRead, excludePatternRead,
      includePathRead, includePatternRead, includeAfterRead⟩
    refine ⟨_, scopeRead, _, excludePathRead, _, excludePatternRead, _, includePathRead, _,
      includePatternRead, _, includeAfterRead, ?_⟩
    rw [← operation, ← recursive]
    rfl
/-- A path option that can be read names its place. -/
theorem eq_parse_of_readRelPath {text : String} {path : RelPath}
    (read : readRelPath kind text = .ok path) : path = .parse text := by
  unfold readRelPath at read
  split at read
  · cases read
  · split at read
    · cases read
    · exact (Except.ok.inj read).symm

/-- A path entry that can be read names its place. -/
theorem eq_of_parse_pathEntry {text : String} {entry : PathEntry}
    (read : PathEntry.parse kind text = .ok entry) : entry = ⟨text, .parse text⟩ := by
  unfold PathEntry.parse at read
  split at read
  case h_1 => cases read
  case h_2 path named =>
    obtain rfl := eq_parse_of_readRelPath named
    split at read
    · cases read
    · exact (Except.ok.inj read).symm

/-- A compiled list of paths holds the places that its texts name. -/
theorem entriesOf_compilePaths {list? : Option PathList}
    (compiles : outcome (compilePaths kind text?) = .ok list?) :
    entriesOf list? = (listed text?).map fun text => ⟨text, .parse text⟩ := by
  rw [outcome_compilePaths] at compiles
  cases text? with
  | none =>
      obtain rfl := Except.ok.inj compiles
      rfl
  | some text =>
      have reads : Reads (PathEntry.parse kind) (entryTexts text) list? :=
        parse_eq_ok_iff.1 compiles
      exact reads.entriesOf_eq_map _ fun _ _ => eq_of_parse_pathEntry

/-- A compiled list of globs is read from its texts. -/
theorem reads_compileGlobs {list? : Option GlobList}
    (compiles : outcome (compileGlobs kind text?) = .ok list?) :
    Reads (Glob.parse kind) (listed text?) list? := by
  rw [outcome_compileGlobs] at compiles
  cases text? with
  | none =>
      obtain rfl := Except.ok.inj compiles
      exact .nil
  | some text => exact parse_eq_ok_iff.1 compiles

namespace Compiled

/-- The scope is that of a removal; it names its place and is as recursive as the job. -/
theorem scope_eq (compiled : Compiled options set) :
    set.scope =
      if options.operation = .remove then
        options.relativeSourcePath.map fun text => ⟨.parse text, options.recursive⟩
      else none := by
  have read := compiled.scope
  rw [outcome_compileScope] at read
  cases source : options.relativeSourcePath with
  | none =>
      rw [source] at read
      rw [← Except.ok.inj read]
      exact (ite_self none).symm
  | some text =>
      rw [source] at read
      dsimp only at read
      by_cases removes : options.operation = .remove
      · rw [if_pos removes] at read ⊢
        cases named : readRelPath .scope text with
        | error error =>
            rw [named] at read
            cases read
        | ok path =>
            obtain rfl := eq_parse_of_readRelPath named
            rw [named] at read
            exact (Except.ok.inj read).symm
      · rw [if_neg removes] at read ⊢
        exact (Except.ok.inj read).symm

/-- Included paths are those of the option, unless the job is a synchronization. -/
theorem entriesOf_includePath (compiled : Compiled options set) :
    entriesOf set.includePath =
      if options.operation = .sync then []
      else (listed options.includePath).map fun text => ⟨text, .parse text⟩ := by
  have read := compiled.includePath
  rw [outcome_compileIncludePath] at read
  cases compiles : outcome (compilePaths .includePath options.includePath) with
  | error error =>
      rw [compiles] at read
      cases read
  | ok list? =>
      rw [compiles] at read
      have kept : (if options.operation = .sync then none else list?) = set.includePath :=
        Except.ok.inj read
      rw [← kept]
      by_cases syncs : options.operation = .sync
      · rw [if_pos syncs, if_pos syncs]
        rfl
      · rw [if_neg syncs, if_neg syncs, entriesOf_compilePaths compiles]

/-- The threshold is that of a copy. -/
theorem includeAfter_eq (compiled : Compiled options set) :
    set.includeAfter =
      if options.operation = .copy then
        options.includeAfter.bind fun text => (readThreshold text).toOption
      else none := by
  have read := compiled.includeAfter
  rw [outcome_compileIncludeAfter] at read
  cases given : options.includeAfter with
  | none =>
      rw [given] at read
      rw [← Except.ok.inj read]
      exact (ite_self none).symm
  | some text =>
      rw [given] at read
      dsimp only at read
      cases denotes : readThreshold text with
      | error error =>
          rw [denotes] at read
          cases read
      | ok threshold =>
          rw [denotes] at read
          rw [← Except.ok.inj read, Option.bind_some, denotes]
          rfl

end Compiled

end Winnow.FilterSet
