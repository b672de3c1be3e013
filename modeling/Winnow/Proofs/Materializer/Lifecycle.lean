import Winnow.Proofs.Materializer.Flush

/-!
# The life of a materializer

Whatever is asked of a materializer, and in whatever order, it is open until it is finalized or
cancelled and does not change at all from then on. A closed materializer refuses to observe and to
finalize, a refusal leaves everything as it was, and nothing else is ever refused.

`Answered` lists what one call can do, and is the only description of a call that the proofs about
whole lives use. `Upkeep` is what every call preserves. It ties the counts to the records that have
been handed out, by whichever of the calls, so no record is handed out without being counted. The
stores stay gapless as well (`gapless_calls`).
-/

namespace Winnow.Materializer

variable {materializer before after : Materializer} {item : Item} {verdict : Verdict}
  {request : Request} {error : MaterializerError} {call : Call} {reply : Reply}
  {replies : List Reply}

/-- A materializer that has been finalized or cancelled. -/
def IsClosed (materializer : Materializer) : Prop :=
  materializer.stage = .done ∨ materializer.stage = .cancelled

/-- A closed materializer refuses with an error: once finalized it names its stage and what was
asked of it, and once cancelled it says so. -/
def Refuses (materializer : Materializer) (request : Request) (error : MaterializerError) : Prop :=
  materializer.stage = .done ∧ error = .invalidStage .done request ∨
    materializer.stage = .cancelled ∧ error = .cancelled

/-- A closed materializer is not open. -/
theorem IsClosed.not_isOpen (isClosed : materializer.IsClosed) : ¬materializer.IsOpen := by
  rcases isClosed with isDone | isCancelled
  · simp [IsOpen, isDone]
  · simp [IsOpen, isCancelled]

/-- Outside of a finalization, refusals come from closed materializers. -/
theorem refusal?_eq_some_iff (settled : materializer.stage ≠ .finalizing) :
    materializer.refusal? request = some error ↔ materializer.Refuses request error := by
  unfold refusal? Refuses
  cases reached : materializer.stage with
  | idle => simp
  | accumulating => simp
  | finalizing => exact absurd reached settled
  | done => simp [eq_comm]
  | cancelled => simp [eq_comm]

/-- To observe fails exactly on a closed materializer, and leaves it as it was. -/
theorem value_observe_eq_error_iff (settled : materializer.stage ≠ .finalizing) :
    (materializer.observe item verdict).value = (.error error, after) ↔
      materializer.Refuses .observe error ∧ after = materializer := by
  rw [← refusal?_eq_some_iff settled]
  cases refused : materializer.refusal? .observe with
  | none =>
      rw [value_observe (isOpen_of_refusal?_eq_none refused)]
      simp
  | some other =>
      rw [observe, refused]
      simp [eq_comm]

/-- To finalize fails exactly on a closed materializer, and leaves it as it was. -/
theorem value_finalize_eq_error_iff (settled : materializer.stage ≠ .finalizing) :
    materializer.finalize.value = (.error error, after) ↔
      materializer.Refuses .finalize error ∧ after = materializer := by
  rw [← refusal?_eq_some_iff settled]
  cases refused : materializer.refusal? .finalize with
  | none =>
      rw [value_finalize (isOpen_of_refusal?_eq_none refused)]
      simp
  | some other =>
      rw [finalize, refused]
      simp [eq_comm]

/-- An open materializer has not been finalized. -/
theorem IsOpen.stage_ne_done (isOpen : materializer.IsOpen) : materializer.stage ≠ .done :=
  fun isDone => IsClosed.not_isOpen (.inl isDone) isOpen

/-- What a call asks for, if it can be refused. -/
def Call.request? : Call → Option Request
  | .observe _ _ => some .observe
  | .finalize => some .finalize
  | .cancel => none

/-- Everything that one call can do. -/
inductive Answered (before : Materializer) : Call → Reply → Materializer → Prop where
  /-- A refusal changes nothing. -/
  | refused {call : Call} {request : Request} {error : MaterializerError}
      (asks : call.request? = some request) (refusal : before.refusal? request = some error) :
      Answered before call (.refused error) before
  /-- An item is taken. -/
  | observed {item : Item} {verdict : Verdict} {records : List Record} {after : Materializer}
      (taken : (before.observe item verdict).value = (.ok records, after)) :
      Answered before (.observe item verdict) (.records records) after
  /-- The folders that are still held are reported and counted. -/
  | finalized (isOpen : before.IsOpen) :
      Answered before .finalize (.totals before.held (before.summary.addAll before.held))
        { before with
          stage := .done
          pending := ∅
          summary := before.summary.addAll before.held }
  /-- Cancelling comes too late. -/
  | finished (isDone : before.stage = .done) : Answered before .cancel .cancelled before
  /-- The folders that are still held are let go of. -/
  | cancelled (unfinished : before.stage ≠ .done) :
      Answered before .cancel .cancelled { before with stage := .cancelled, pending := ∅ }

/-- A call does nothing but what `Answered` lists. -/
theorem answered (materializer : Materializer) (call : Call) :
    Answered materializer call (materializer.answer call).value.1
      (materializer.answer call).value.2 := by
  cases call with
  | observe item verdict =>
      cases refused : materializer.refusal? .observe with
      | none =>
          have taken := value_observe (isOpen_of_refusal?_eq_none refused) item verdict
          have answer := answer_ofDecided taken
          rw [Call.ofDecided] at answer
          rw [answer]
          exact .observed taken
      | some error =>
          rw [answer, observe, refused]
          exact .refused rfl refused
  | finalize =>
      cases refused : materializer.refusal? .finalize with
      | none =>
          have isOpen := isOpen_of_refusal?_eq_none refused
          rw [answer, Noted.value_bind, value_finalize isOpen]
          exact .finalized isOpen
      | some error =>
          rw [answer, finalize, refused]
          exact .refused rfl refused
  | cancel =>
      by_cases isDone : materializer.stage = .done
      · rw [answer, cancel, if_pos isDone]
        exact .finished isDone
      · rw [answer, cancel, if_neg isDone]
        have unfinished := Answered.cancelled isDone
        split
        · exact unfinished
        · exact unfinished

/-- A closed materializer that holds no folder stays exactly as it is. -/
theorem Answered.eq_of_isClosed (answered : Answered before call reply after)
    (isClosed : before.IsClosed) (released : before.pending = ∅) : after = before := by
  cases answered with
  | refused _ _ => rfl
  | observed taken => exact absurd (isOpen_of_observe taken) isClosed.not_isOpen
  | finalized isOpen => exact absurd isOpen isClosed.not_isOpen
  | finished _ => rfl
  | cancelled unfinished =>
      have isCancelled : before.stage = .cancelled := isClosed.resolve_left unfinished
      rw [← isCancelled, ← released]

/-- Whether a reply is that to a finalization that has succeeded. -/
def Reply.isTotals : Reply → Bool
  | .totals _ _ => true
  | .records _ | .cancelled | .refused _ => false

/-- What holds between any two calls, given the replies so far. No finalization is under way, a
closed materializer holds no folder, it has been finalized once if it is done and otherwise never,
and its counts are those of all records that have been handed out. -/
structure Upkeep (replies : List Reply) (reached : Materializer) : Prop where
  settled : reached.stage ≠ .finalizing
  released : reached.IsClosed → reached.pending = ∅
  finalizations : replies.countP (·.isTotals) = if reached.stage = .done then 1 else 0
  counted : reached.summary = .tally (replies.flatMap Reply.delivered)

/-- Nothing has been handed out or held at first. -/
theorem upkeep_fresh (folderAware : Bool) : Upkeep [] { folderAware } where
  settled := Stage.noConfusion
  released _ := rfl
  finalizations := rfl
  counted := rfl

/-- A call keeps the upkeep if it leaves a settled stage, lets go of the held folders when it
closes the materializer, and counts a finalization and the records that it hands out. -/
theorem Upkeep.concat (upkeep : Upkeep replies before)
    (settled : after.stage ≠ .finalizing) (released : after.IsClosed → after.pending = ∅)
    (finalizations : (if before.stage = .done then 1 else 0) + [reply].countP (·.isTotals) =
      if after.stage = .done then 1 else 0)
    (counted : after.summary = before.summary.addAll reply.delivered) :
    Upkeep (replies ++ [reply]) after where
  settled := settled
  released := released
  finalizations := by rw [List.countP_append, upkeep.finalizations, finalizations]
  counted := by
    rw [counted, upkeep.counted, Summary.addAll_tally, List.flatMap_append, List.flatMap_singleton]

/-- Every call keeps the upkeep. -/
theorem Upkeep.next (upkeep : Upkeep replies before) (answered : Answered before call reply after) :
    Upkeep (replies ++ [reply]) after := by
  cases answered with
  | refused _ _ => exact upkeep.concat upkeep.settled upkeep.released rfl rfl
  | observed taken =>
      have frame := frame_of_observe taken
      have isOpen := isOpen_of_observe taken
      refine upkeep.concat ?_ ?_ ?_ frame.summary
      · rw [frame.stage]
        exact Stage.noConfusion
      · intro isClosed
        exact absurd (isOpen_after_observe taken) isClosed.not_isOpen
      · rw [if_neg isOpen.stage_ne_done, frame.stage]
        rfl
  | finalized isOpen =>
      refine upkeep.concat Stage.noConfusion (fun _ => rfl) ?_ rfl
      rw [if_neg isOpen.stage_ne_done]
      rfl
  | finished _ => exact upkeep.concat upkeep.settled upkeep.released rfl rfl
  | cancelled unfinished =>
      refine upkeep.concat Stage.noConfusion (fun _ => rfl) ?_ rfl
      rw [if_neg unfinished]
      rfl

/-- The state that several calls lead to. -/
def stateAfter (materializer : Materializer) (calls : List Call) : Materializer :=
  calls.foldl (fun current call => (current.answer call).value.2) materializer

@[simp]
theorem stateAfter_nil (materializer : Materializer) : materializer.stateAfter [] = materializer :=
  rfl

@[simp]
theorem stateAfter_cons (materializer : Materializer) (call : Call) (calls : List Call) :
    materializer.stateAfter (call :: calls) =
      (materializer.answer call).value.2.stateAfter calls := rfl

/-- Any number of calls keeps the upkeep. -/
theorem Upkeep.stateAfter (upkeep : Upkeep replies before) (calls : List Call) :
    Upkeep (replies ++ before.replies calls) (before.stateAfter calls) := by
  induction calls generalizing before replies with
  | nil => simpa using upkeep
  | cons call calls inductionHypothesis =>
      have rest := inductionHypothesis (upkeep.next (answered before call))
      rw [List.append_assoc] at rest
      exact rest

/-- Nothing that is asked of a closed materializer changes it. -/
theorem stateAfter_of_isClosed (isClosed : materializer.IsClosed)
    (released : materializer.pending = ∅) (calls : List Call) :
    materializer.stateAfter calls = materializer := by
  induction calls with
  | nil => rfl
  | cons call calls inductionHypothesis =>
      rw [stateAfter_cons, (answered materializer call).eq_of_isClosed isClosed released,
        inductionHypothesis]

/-- The whole life of a materializer. After any calls the upkeep holds. To observe and to finalize
fail exactly on a closed materializer, each with the error for its stage, and change nothing when
they fail. Once closed, a materializer holds no folder and nothing changes it any more. -/
theorem lifecycle_calls (folderAware : Bool) (calls : List Call) :
    let fresh : Materializer := { folderAware }
    let reached := fresh.stateAfter calls
    Upkeep (fresh.replies calls) reached ∧
      (∀ item verdict error after, (reached.observe item verdict).value = (.error error, after) ↔
        reached.Refuses .observe error ∧ after = reached) ∧
      (∀ error after, reached.finalize.value = (.error error, after) ↔
        reached.Refuses .finalize error ∧ after = reached) ∧
      (reached.IsClosed →
        reached.pending.size = 0 ∧ ∀ later, reached.stateAfter later = reached) := by
  intro fresh reached
  have upkeep : Upkeep (fresh.replies calls) reached := (upkeep_fresh folderAware).stateAfter calls
  refine ⟨upkeep, ?_, ?_, ?_⟩
  · intro item verdict error after
    exact value_observe_eq_error_iff upkeep.settled
  · intro error after
    exact value_finalize_eq_error_iff upkeep.settled
  · intro isClosed
    have released := upkeep.released isClosed
    refine ⟨?_, stateAfter_of_isClosed isClosed released⟩
    rw [released, Std.ExtTreeMap.size_empty]

/-- Every call keeps the stores gapless. -/
theorem Gapless.next (gapless : before.Gapless) (answered : Answered before call reply after) :
    after.Gapless := by
  cases answered with
  | refused _ _ => exact gapless
  | observed taken => exact gapless.observe taken
  | finalized _ => exact ⟨gapless.upward, fun _ _ => Std.ExtTreeMap.not_mem_empty⟩
  | finished _ => exact gapless
  | cancelled _ => exact ⟨gapless.upward, fun _ _ => Std.ExtTreeMap.not_mem_empty⟩

/-- Any number of calls keeps the stores gapless. -/
theorem Gapless.stateAfter (gapless : before.Gapless) (calls : List Call) :
    (before.stateAfter calls).Gapless := by
  induction calls generalizing before with
  | nil => exact gapless
  | cons call calls inductionHypothesis =>
      exact inductionHypothesis (gapless.next (answered before call))

/-- The early stop overlooks nothing. After any calls everything above an emitted folder is emitted
and no emitted folder is held, so the ancestors of a place that are found up to the first emitted
one are all that have not been emitted. Forwarding them, from the top down, leaves no gap at any
moment. -/
theorem gapless_calls (folderAware : Bool) (calls : List Call) :
    let reached := ({ folderAware } : Materializer).stateAfter calls
    (∀ folder ∈ reached.emitted, ∀ ancestor ∈ folder.ancestors, ancestor ∈ reached.emitted) ∧
      (∀ folder ∈ reached.emitted, folder ∉ reached.pending) ∧
      ∀ path, reached.missing path =
          path.ancestors.filter (fun ancestor => !reached.emitted.contains ancestor) ∧
        ∀ first rest, (reached.missing path).reverse = first ++ rest →
          (reached.forwardAll first).value.1.Gapless := by
  intro reached
  have gapless : reached.Gapless := (gapless_fresh folderAware).stateAfter calls
  refine ⟨gapless.upward, gapless.apart, fun path => ⟨gapless.missing_eq_filter path, ?_⟩⟩
  intro first rest split
  have inTurn := settlesInTurn_missing gapless path
  rw [split] at inTurn
  exact gapless.forwardAll inTurn.of_append

end Winnow.Materializer
