import Winnow.FilterSet.Compile
import Winnow.Pass.Run
import Winnow.Proofs.Log.Mirroring

/-!
# Jobs with and without a log

A job compiles options and takes items through a fresh pass. Each of its parts is one program that
can be run with a log at hand or as a value with notices. One lemma for each part says that the two
forms mirror each other; the lemma about a part refers to those about the parts that it calls, up to
`mirrors_job`.
-/

namespace Winnow

variable {α β : Type}

namespace FilterSet

variable {step : Compiling Logging α} {other : Compiling Noted α}
  {next : α → Compiling Logging β} {otherNext : α → Compiling Noted β}

/-- What comes after an error is said in neither form. -/
theorem mirrors_bind (first : Mirrors step.run other.run)
    (rest : ∀ middle, Mirrors (next middle).run (otherNext middle).run) :
    Mirrors (step >>= next).run (other >>= otherNext).run := by
  rw [ExceptT.run_bind, ExceptT.run_bind]
  refine .bind first fun result => ?_
  cases result with
  | error error => exact .pure _
  | ok middle => exact rest middle

theorem mirrors_lift {logging : Logging α} {noted : Noted α} (mirrors : Mirrors logging noted) :
    Mirrors (monadLift logging : Compiling Logging α).run
      (monadLift noted : Compiling Noted α).run := by
  change Mirrors (Except.ok <$> logging) (Except.ok <$> noted)
  rw [← bind_pure_comp, ← bind_pure_comp]
  exact .bind mirrors fun _ => .pure _

theorem mirrors_read (result : Except FilterError α) :
    Mirrors (monadLift result : Compiling Logging α).run
      (monadLift result : Compiling Noted α).run := by
  cases result with
  | error error => exact .pure _
  | ok value => exact .pure _

theorem mirrors_skipping (kind : Kind) (operation : Operation) :
    Mirrors (skipping kind operation) (skipping kind operation) :=
  .offer (by decide)

theorem mirrors_compileScope (options : Options) :
    Mirrors (compileScope options).run (compileScope options).run := by
  unfold compileScope
  cases options.relativeSourcePath with
  | none => exact .pure _
  | some text =>
      dsimp only
      split
      · refine mirrors_bind (mirrors_read _) fun path => ?_
        exact mirrors_bind (mirrors_lift (.offer (by decide))) fun _ => .pure _
      · exact mirrors_bind (mirrors_lift (mirrors_skipping _ _)) fun _ => .pure _

theorem mirrors_compilePaths (kind : Kind) (text? : Option String) :
    Mirrors (compilePaths kind text?).run (compilePaths kind text?).run := by
  cases text? with
  | none => exact .pure _
  | some text => exact mirrors_read _

theorem mirrors_compileGlobs (kind : Kind) (text? : Option String) :
    Mirrors (compileGlobs kind text?).run (compileGlobs kind text?).run := by
  cases text? with
  | none => exact .pure _
  | some text => exact mirrors_read _

theorem mirrors_compileIncludePath (options : Options) :
    Mirrors (compileIncludePath options).run (compileIncludePath options).run := by
  refine mirrors_bind (mirrors_compilePaths _ _) fun list => ?_
  split
  · exact mirrors_bind (mirrors_lift (mirrors_skipping _ _)) fun _ => .pure _
  · exact .pure _

theorem mirrors_compileIncludeAfter (options : Options) :
    Mirrors (compileIncludeAfter options).run (compileIncludeAfter options).run := by
  unfold compileIncludeAfter
  cases options.includeAfter with
  | none => exact .pure _
  | some text =>
      refine mirrors_bind (mirrors_read _) fun threshold => ?_
      split
      · exact .pure _
      · exact mirrors_bind (mirrors_lift (mirrors_skipping _ _)) fun _ => .pure _

theorem mirrors_noteConfigured (category : Category) :
    Mirrors (noteConfigured category) (noteConfigured category) :=
  .bind (.dispatch rfl (by decide)) fun _ => .offer (by decide)

theorem mirrors_forM (categories : List Category) :
    Mirrors
      (categories.forM fun category =>
        (monadLift (noteConfigured category : Logging Unit) : Compiling Logging Unit)).run
      (categories.forM fun category =>
        (monadLift (noteConfigured category : Noted Unit) : Compiling Noted Unit)).run := by
  induction categories with
  | nil => exact .pure _
  | cons category rest inductionHypothesis =>
      exact mirrors_bind (mirrors_lift (mirrors_noteConfigured category)) fun _ =>
        inductionHypothesis

theorem mirrors_compile (options : Options) :
    Mirrors (compile options).run (compile options).run := by
  refine mirrors_bind (mirrors_compileScope options) fun _ => ?_
  refine mirrors_bind (mirrors_compilePaths _ _) fun _ => ?_
  refine mirrors_bind (mirrors_compileGlobs _ _) fun _ => ?_
  refine mirrors_bind (mirrors_compileIncludePath options) fun _ => ?_
  refine mirrors_bind (mirrors_compileGlobs _ _) fun _ => ?_
  refine mirrors_bind (mirrors_compileIncludeAfter options) fun _ => ?_
  exact mirrors_bind (mirrors_forM _) fun _ => .pure _

end FilterSet

namespace Materializer

theorem mirrors_forward (materializer : Materializer) (folder : RelPath) :
    Mirrors (materializer.forward folder) (materializer.forward folder) := by
  refine .bind (.offer (by decide)) fun _ => ?_
  exact .bind (.dispatch rfl (by decide)) fun _ => .pure _

theorem mirrors_forwardAll (materializer : Materializer) (folders : List RelPath) :
    Mirrors (materializer.forwardAll folders) (materializer.forwardAll folders) := by
  induction folders generalizing materializer with
  | nil => exact .pure _
  | cons folder folders inductionHypothesis =>
      refine .bind (mirrors_forward materializer folder) fun (next, _) => ?_
      exact .bind (inductionHypothesis next) fun _ => .pure _

theorem mirrors_place (materializer : Materializer) (item : Item) (verdict : Verdict) :
    Mirrors (materializer.place item verdict) (materializer.place item verdict) := by
  unfold place
  dsimp only
  split
  · exact .pure _
  · split
    · exact .bind (.offer (by decide)) fun _ => .pure _
    · split
      · exact .bind (mirrors_forwardAll materializer _) fun _ => .pure _
      · split
        · exact .bind (.offer (by decide)) fun _ => .pure _
        · exact .pure _

theorem mirrors_observe (materializer : Materializer) (item : Item) (verdict : Verdict) :
    Mirrors (materializer.observe item verdict) (materializer.observe item verdict) := by
  unfold observe
  cases materializer.refusal? .observe with
  | some error => exact .pure _
  | none => exact .bind (mirrors_place _ item verdict) fun _ => .pure _

theorem mirrors_finalize (materializer : Materializer) :
    Mirrors materializer.finalize materializer.finalize := by
  unfold finalize
  cases materializer.refusal? .finalize with
  | some error => exact .pure _
  | none => exact .bind (.offer (by decide)) fun _ => .pure _

theorem mirrors_cancel (materializer : Materializer) :
    Mirrors materializer.cancel materializer.cancel := by
  unfold cancel
  split
  · exact .pure _
  · split
    · exact .bind (.offer (by decide)) fun _ => .pure _
    · exact .pure _

end Materializer

namespace Pass

theorem mirrors_new (set : FilterSet) (folderAware token : Bool) :
    Mirrors (new set folderAware token) (new set folderAware token) := by
  unfold new
  split
  · exact .bind (.offer (by decide)) fun _ => .pure _
  · exact .pure _

theorem mirrors_checkToken (pass : Pass) : Mirrors pass.checkToken pass.checkToken := by
  unfold checkToken
  split
  · refine .bind (Materializer.mirrors_cancel _) fun _ => ?_
    exact .bind (.offer (by decide)) fun _ => .pure _
  · exact .pure _

theorem mirrors_noteVerdict (item : Item) (verdict : Verdict) :
    Mirrors (noteVerdict item verdict) (noteVerdict item verdict) := by
  cases verdict with
  | accepted reason => exact .offer (by decide)
  | rejected reason => cases reason <;> exact .offer (by decide)

theorem mirrors_process (pass : Pass) (item : Item) (verdict : Verdict) :
    Mirrors (pass.process item verdict) (pass.process item verdict) := by
  refine .bind (mirrors_noteVerdict item verdict) fun _ => ?_
  refine .bind (.dispatch rfl (by decide)) fun _ => ?_
  exact .bind (Materializer.mirrors_observe _ item verdict) fun _ => .pure _

theorem mirrors_push (pass : Pass) (item : Item) : Mirrors (pass.push item) (pass.push item) := by
  refine .bind (mirrors_checkToken pass) fun (stopped?, pass) => ?_
  cases stopped? with
  | some error => exact .pure _
  | none => exact mirrors_process pass item _

theorem mirrors_finish (pass : Pass) : Mirrors pass.finish pass.finish := by
  refine .bind (mirrors_checkToken pass) fun (stopped?, pass) => ?_
  cases stopped? with
  | some error => exact .pure _
  | none =>
      refine .bind (Materializer.mirrors_finalize _) fun (result, _) => ?_
      cases result with
      | error error => exact .pure _
      | ok totals => exact .bind (.dispatch rfl (by decide)) fun _ => .pure _

theorem mirrors_close (pass : Pass) (sink : Sink) (delivered : List Record) :
    Mirrors (pass.close sink delivered) (pass.close sink delivered) := by
  refine .bind (mirrors_finish pass) fun (result, _) => ?_
  cases result with
  | error error => exact .pure _
  | ok totals => exact .pure _

/-- A run is in step item by item, each from the pass that the items before it have led to. -/
theorem mirrors_runFrom (pass : Pass) (sink : Sink) (delivered : List Record)
    (items : List Item) :
    Mirrors (pass.runFrom sink delivered items) (pass.runFrom sink delivered items) := by
  induction items generalizing pass delivered with
  | nil => exact mirrors_close pass sink delivered
  | cons item items inductionHypothesis =>
      refine .bind (mirrors_push pass item) fun (result, next) => ?_
      cases result with
      | error error => exact .pure _
      | ok records => exact inductionHypothesis _ _

theorem mirrors_runDecidedFrom (pass : Pass) (sink : Sink) (delivered : List Record)
    (decided : List (Item × Verdict)) :
    Mirrors (pass.runDecidedFrom sink delivered decided)
      (pass.runDecidedFrom sink delivered decided) := by
  induction decided generalizing pass delivered with
  | nil => exact mirrors_close pass sink delivered
  | cons first rest inductionHypothesis =>
      refine .bind (mirrors_checkToken pass) fun (stopped?, pass) => ?_
      cases stopped? with
      | some error => exact .pure _
      | none =>
          refine .bind (mirrors_process pass first.1 first.2) fun (result, next) => ?_
          cases result with
          | error error => exact .pure _
          | ok records => exact inductionHypothesis _ _

theorem mirrors_runDecided (pass : Pass) (sink : Sink) (items : List Item)
    (decideEach : (Item → Verdict) → List Item → List Verdict) :
    Mirrors (pass.runDecided sink items decideEach) (pass.runDecided sink items decideEach) := by
  refine .bind (mirrors_checkToken pass) fun (stopped?, pass) => ?_
  cases stopped? with
  | some error => exact .pure _
  | none => exact mirrors_runDecidedFrom pass sink [] _

/-- Compiles options and takes items through a fresh pass with the filter set. -/
def job {m : Type → Type} [Monad m] [MonadLog m] (options : Options) (folderAware token : Bool)
    (sink : Sink) (items : List Item) : m (Except FilterError (Outcome PassError)) := do
  match ← (FilterSet.compile options).run with
  | .error error => return .error error
  | .ok set =>
      let pass ← new set folderAware token
      return .ok (← pass.run sink items)

/-- The two forms of a job mirror each other. -/
theorem mirrors_job (options : Options) (folderAware token : Bool) (sink : Sink)
    (items : List Item) :
    Mirrors (job options folderAware token sink items)
      (job options folderAware token sink items) := by
  refine .bind (FilterSet.mirrors_compile options) fun result => ?_
  cases result with
  | error error => exact .pure _
  | ok set =>
      refine .bind (mirrors_new set folderAware token) fun pass => ?_
      exact .bind (mirrors_runFrom pass sink [] items) fun _ => .pure _

end Pass

end Winnow
