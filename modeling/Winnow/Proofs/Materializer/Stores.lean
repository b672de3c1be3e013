import Winnow.Proofs.Materializer.Gapless
import Winnow.Proofs.Materializer.Observation

/-!
# What the stores hold

`Tracks` gives both stores of a folder-aware materializer as functions of the history alone. A
folder is emitted exactly when the history forwards it, and any other folder that has arrived is
held with the verdict of its last arrival. `tracks_of_observes` shows that every history of a
fresh materializer leads to such a state.

Such stores have no gaps (`Tracks.gapless`), since a history that forwards a folder forwards
whatever lies above it. So the search for missing ancestors, which stops at the first emitted one,
finds all that the history does not forward.
-/

namespace Winnow

namespace History

variable {history : History} {item : Item} {verdict : Verdict} {folder : RelPath}

/-- The newest verdict on a folder, if it has arrived. -/
def lastReport? (history : History) (folder : RelPath) : Option Verdict :=
  (reports history folder).getLast?

/-- The newest arrival of a folder decides its last report. -/
theorem lastReport?_concat_self (isFolder : item.isFolder = true) :
    lastReport? (history ++ [(item, verdict)]) item.path = some verdict := by
  rw [lastReport?, reports_append, reports_singleton, if_pos ⟨isFolder, rfl⟩,
    List.getLast?_concat]

/-- Any other arrival leaves a last report as it is. -/
theorem lastReport?_concat_other (other : ¬(item.isFolder = true ∧ item.path = folder)) :
    lastReport? (history ++ [(item, verdict)]) folder = lastReport? history folder := by
  rw [lastReport?, reports_append, reports_singleton, if_neg other, List.append_nil, lastReport?]

/-- A folder whose last report accepts it is forwarded. -/
theorem isAccepted_lastReport? (unforwarded : ¬Forwards history folder)
    (last : lastReport? history folder = some verdict) : verdict.isAccepted = false := by
  rw [← Bool.not_eq_true]
  intro accepted
  exact unforwarded (.inl ⟨verdict, List.mem_of_getLast? last, accepted⟩)

end History

namespace Materializer

open History

variable {materializer before after : Materializer} {history : History}
  {batches : List (List Record)} {item : Item} {verdict : Verdict} {records : List Record}
  {folder : RelPath}

/-- The stores are what the history says. -/
structure Tracks (history : History) (materializer : Materializer) : Prop where
  emitted : ∀ folder, folder ∈ materializer.emitted ↔ Forwards history folder
  pending : ∀ folder, materializer.pending[folder]? =
    if Forwards history folder then none else lastReport? history folder

/-- Nothing is emitted or held before anything has arrived. -/
theorem tracks_fresh (folderAware : Bool) : Tracks [] { folderAware } where
  emitted folder := by simp [Forwards, Accepts, LeadsDown, reports]
  pending folder := by simp [lastReport?, reports]

namespace Tracks

/-- What a history forwards has no gaps, and nothing that it forwards is held. -/
theorem gapless (tracks : Tracks history materializer) : materializer.Gapless where
  upward folder emitted ancestor above := by
    have forwards := (tracks.emitted folder).1 emitted
    exact (tracks.emitted ancestor).2 (forwards_of_mem_ancestors forwards above)
  apart folder emitted := by
    rw [Std.ExtTreeMap.mem_iff_isSome_getElem?, tracks.pending,
      if_pos ((tracks.emitted folder).1 emitted)]
    exact Bool.false_ne_true

/-- An accepted item makes the missing folders above it and itself forwarded. -/
theorem forwards_concat_of_accepted (tracks : Tracks history before)
    (isAccepted : verdict.isAccepted = true) :
    Forwards (history ++ [(item, verdict)]) folder ↔
      (folder ∈ before.missing item.path ∨ item.isFolder = true ∧ folder = item.path) ∨
        Forwards history folder := by
  rw [forwards_concat, tracks.gapless.mem_missing_iff, tracks.emitted]
  by_cases forwards : Forwards history folder
  · simp only [forwards, true_or, or_true]
  · simp only [forwards, isAccepted, not_false_eq_true, and_true, true_and, false_or, or_false,
      eq_comm (a := folder)]
    exact or_comm

/-- A history that forwards what a shorter one does, and reports what it does of all other
folders, is tracked by the same stores. -/
theorem of_unchanged {longer : History} (tracks : Tracks history before)
    (emittedEq : after.emitted = before.emitted) (pendingEq : after.pending = before.pending)
    (forwardsIff : ∀ folder, Forwards longer folder ↔ Forwards history folder)
    (reportsEq : ∀ folder, ¬Forwards history folder →
      lastReport? longer folder = lastReport? history folder) :
    Tracks longer after := by
  constructor
  · intro folder
    rw [emittedEq, forwardsIff, tracks.emitted]
  · intro folder
    rw [pendingEq, tracks.pending]
    by_cases forwards : Forwards history folder
    · rw [if_pos forwards, if_pos ((forwardsIff folder).2 forwards)]
    · rw [if_neg forwards, if_neg (mt (forwardsIff folder).1 forwards),
        reportsEq folder forwards]

/-- One more item leaves the stores as the longer history says. -/
theorem next (tracks : Tracks history before)
    (placement : Placement before item verdict records after) :
    Tracks (history ++ [(item, verdict)]) after := by
  cases placement with
  | known isFolder emitted _ emittedEq pendingEq =>
      have forwarded := (tracks.emitted item.path).1 emitted
      refine tracks.of_unchanged emittedEq pendingEq
        (fun folder => forwards_concat_of_forwards forwarded) fun folder unforwarded => ?_
      rw [lastReport?_concat_other]
      rintro ⟨_, rfl⟩
      exact unforwarded forwarded
  | accepted isAccepted fresh _ emittedIff pendingEq =>
      have wider : ∀ folder, Forwards (history ++ [(item, verdict)]) folder ↔ _ :=
        fun folder => tracks.forwards_concat_of_accepted isAccepted
      constructor
      · intro folder
        rw [emittedIff, wider, tracks.emitted]
      · intro folder
        rw [pendingEq, tracks.pending]
        by_cases newly : folder ∈ before.missing item.path ∨
            item.isFolder = true ∧ folder = item.path
        · rw [if_pos newly, if_pos ((wider folder).2 (.inl newly))]
        · rw [if_neg newly, lastReport?_concat_other]
          · refine if_congr ?_ rfl rfl
            rw [wider, or_iff_right newly]
          · rintro ⟨isFolder, rfl⟩
            exact newly (.inr ⟨isFolder, rfl⟩)
  | held isRejected isFolder fresh _ emittedEq pendingEq =>
      have same := @forwards_concat_of_rejected history item verdict
      have unforwarded : ¬Forwards history item.path := mt (tracks.emitted item.path).2 fresh
      constructor
      · intro folder
        rw [emittedEq, same isRejected, tracks.emitted]
      · intro folder
        rw [pendingEq, tracks.pending]
        by_cases here : folder = item.path
        · subst here
          rw [if_pos rfl, if_neg (mt (same isRejected).1 unforwarded),
            lastReport?_concat_self isFolder]
        · rw [if_neg here, lastReport?_concat_other fun own => here own.2.symm]
          exact if_congr (same isRejected).symm rfl rfl
  | reported isRejected isFile _ emittedEq pendingEq =>
      refine tracks.of_unchanged emittedEq pendingEq
        (fun folder => forwards_concat_of_rejected isRejected) fun folder _ => ?_
      rw [lastReport?_concat_other]
      rintro ⟨isFolder, _⟩
      exact absurd (isFile.symm.trans isFolder) Bool.false_ne_true

end Tracks

/-- Every history of a fresh materializer is tracked by its stores. -/
theorem tracks_of_observes (observes : Observes {} history batches after) :
    Tracks history after := by
  induction observes with
  | nothing => exact tracks_fresh true
  | newest prior taken inductionHypothesis =>
      exact inductionHypothesis.next (placement_of_observe prior.folderAware taken)

end Materializer

end Winnow
