import Winnow.Materializer.Call
import Winnow.Proofs.Materializer.Placement

/-!
# Observing whole histories

`Observes start history batches after` says that a materializer takes the items of a history one
after the other, refuses none, hands out one batch of records for each, and is left in the last
state. The relation grows at its end, so an induction on it extends a history by its newest item.

`replies_observations` is the way from calls to the relation: an open materializer that is asked to
observe answers every call with a batch, whatever it is asked afterwards.
-/

namespace Winnow.Materializer

variable {start next after : Materializer} {history : History} {batches : List (List Record)}
  {item : Item} {verdict : Verdict} {records : List Record}

/-- Taking the items of a history one after the other, without a refusal. -/
inductive Observes (start : Materializer) :
    History → List (List Record) → Materializer → Prop where
  | nothing : Observes start [] [] start
  | newest {history batches current item verdict records after}
      (prior : Observes start history batches current)
      (taken : (current.observe item verdict).value = (.ok records, after)) :
      Observes start (history ++ [(item, verdict)]) (batches ++ [records]) after

/-- A history may be extended at its start as well. -/
theorem Observes.oldest (taken : (start.observe item verdict).value = (.ok records, next))
    (rest : Observes next history batches after) :
    Observes start ((item, verdict) :: history) (records :: batches) after := by
  induction rest with
  | nothing => exact .newest .nothing taken
  | newest _ lastTaken inductionHypothesis => exact .newest inductionHypothesis lastTaken

/-- The empty history leads nowhere. -/
theorem Observes.of_nil (observes : Observes start [] batches after) :
    batches = [] ∧ after = start := by
  generalize emptied : ([] : History) = history at observes
  cases observes with
  | nothing => exact ⟨rfl, rfl⟩
  | newest _ _ => exact absurd emptied.symm (List.append_ne_nil_of_right_ne_nil _ (by simp))

/-- The oldest item of a history has been taken first. -/
theorem Observes.of_cons (observes : Observes start ((item, verdict) :: history) batches after) :
    ∃ records next rest, (start.observe item verdict).value = (.ok records, next) ∧
      Observes next history rest after ∧ batches = records :: rest := by
  generalize whole : (item, verdict) :: history = longer at observes
  induction observes generalizing history with
  | nothing => cases whole
  | @newest earlier batches current newestItem newestVerdict records after prior taken
      inductionHypothesis =>
      cases earlier with
      | nil =>
          obtain ⟨same, rfl⟩ := List.cons.inj whole
          obtain ⟨rfl, rfl⟩ := Prod.mk.inj same
          obtain ⟨rfl, rfl⟩ := prior.of_nil
          exact ⟨records, after, [], taken, .nothing, rfl⟩
      | cons oldest others =>
          obtain ⟨rfl, rfl⟩ := List.cons.inj whole
          obtain ⟨first, next, rest, firstTaken, between, rfl⟩ := inductionHypothesis rfl
          exact ⟨first, next, rest ++ [records], firstTaken, .newest between taken, rfl⟩

/-- Every item of a history brings out one batch. -/
theorem Observes.length_batches (observes : Observes start history batches after) :
    batches.length = history.length := by
  induction observes with
  | nothing => rfl
  | newest _ _ inductionHypothesis =>
      rw [List.length_append, List.length_append, inductionHypothesis]
      rfl

/-- Observing leaves a materializer open. -/
theorem Observes.isOpen (isOpen : start.IsOpen)
    (observes : Observes start history batches after) : after.IsOpen := by
  cases observes with
  | nothing => exact isOpen
  | newest _ taken => exact isOpen_after_observe taken

/-- Observing never changes whether folders are forwarded. -/
theorem Observes.folderAware (observes : Observes start history batches after) :
    after.folderAware = start.folderAware := by
  induction observes with
  | nothing => rfl
  | newest _ taken inductionHypothesis =>
      exact (frame_of_observe taken).folderAware.trans inductionHypothesis

/-- The counts after a history are the earlier ones and those of the records handed out. -/
theorem Observes.summary (observes : Observes start history batches after) :
    after.summary = start.summary.addAll batches.flatten := by
  induction observes with
  | nothing => rfl
  | newest _ taken inductionHypothesis =>
      rw [(frame_of_observe taken).summary, inductionHypothesis, List.flatten_concat,
        Summary.addAll_append]

/-- The call that hands over a decided item. -/
def Call.ofDecided (decided : Item × Verdict) : Call := .observe decided.1 decided.2

/-- How several calls are answered. -/
def replies (materializer : Materializer) (calls : List Call) : List Reply :=
  (materializer.answerAll calls).value.map Prod.fst

@[simp]
theorem replies_nil (materializer : Materializer) : materializer.replies [] = [] := rfl

@[simp]
theorem replies_cons (materializer : Materializer) (call : Call) (calls : List Call) :
    materializer.replies (call :: calls) =
      (materializer.answer call).value.1 ::
        (materializer.answer call).value.2.replies calls := rfl

/-- An item that is taken is answered with its batch. -/
theorem answer_ofDecided (taken : (start.observe item verdict).value = (.ok records, next)) :
    (start.answer (.ofDecided (item, verdict))).value = (.records records, next) := by
  simp only [Call.ofDecided, answer, Noted.value_bind, taken]
  rfl

/-- An open materializer answers the items of a history with one batch each. -/
theorem replies_observations (isOpen : start.IsOpen) (history : History) (calls : List Call) :
    ∃ batches after, Observes start history batches after ∧
      start.replies (history.map Call.ofDecided ++ calls) =
        batches.map Reply.records ++ after.replies calls := by
  induction history generalizing start with
  | nil => exact ⟨[], start, .nothing, rfl⟩
  | cons decided rest inductionHypothesis =>
      obtain ⟨item, verdict⟩ := decided
      have taken := value_observe isOpen item verdict
      obtain ⟨batches, after, observes, answered⟩ :=
        inductionHypothesis (isOpen_after_observe taken)
      refine ⟨_ :: batches, after, .oldest taken observes, ?_⟩
      rw [List.map_cons, List.cons_append, replies_cons, answer_ofDecided taken, answered]
      rfl

/-- Answers with batches hand out the records of the batches, one batch after the other. -/
theorem delivered_records (batches : List (List Record)) :
    (batches.map Reply.records).flatMap Reply.delivered = batches.flatten := by
  induction batches with
  | nil => rfl
  | cons batch rest inductionHypothesis =>
      rw [List.map_cons, List.flatMap_cons, inductionHypothesis, List.flatten_cons, Reply.delivered]

end Winnow.Materializer
