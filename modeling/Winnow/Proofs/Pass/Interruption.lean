import Winnow.Proofs.Pass.Completion

/-!
# Runs that may be stopped

A sink can ask for cancellation at any record, and a run may be cancelled before it starts. `Ends`
lists the two ways in which a run can come to an end: it has taken all items and flushed what was
held, or it has taken some first items and nothing after them, not even the flush. `run_ends` shows
that every run of a pass with an open materializer ends in one of these ways, whatever its sink
does.
-/

namespace Winnow

/-- Whether a sink that has received some records asks for cancellation at one of those that
follow. -/
def Sink.firesOn (sink : Sink) (delivered : List Record) : List Record → Bool
  | [] => false
  | record :: records =>
      sink.stops (delivered ++ [record]) || sink.firesOn (delivered ++ [record]) records

/-- A sink that takes two lists of records after one another asks at a record of either. -/
theorem Sink.firesOn_append (sink : Sink) (delivered earlier later : List Record) :
    sink.firesOn delivered (earlier ++ later) =
      (sink.firesOn delivered earlier || sink.firesOn (delivered ++ earlier) later) := by
  induction earlier generalizing delivered with
  | nil => simp [firesOn]
  | cons record rest inductionHypothesis =>
      rw [List.cons_append, firesOn, firesOn, inductionHypothesis, Bool.or_assoc,
        List.append_assoc, List.singleton_append]

namespace Pass

open Materializer

variable {pass : Pass} {item : Item} {items : List Item} {records : List Record}
  {after : Materializer} {outcome : Outcome PassError}

/-- Delivering hands over every record and fires the token if the sink asks for it; nothing else of
a pass changes. -/
theorem deliver_eq (pass : Pass) (sink : Sink) (delivered records : List Record) :
    pass.deliver sink delivered records =
      ({ pass with token := pass.token || sink.firesOn delivered records },
        delivered ++ records) := by
  induction records generalizing pass delivered with
  | nil => rw [deliver, Sink.firesOn, List.append_nil, Bool.or_false]
  | cons record rest inductionHypothesis =>
      rw [deliver, Sink.firesOn]
      cases sink.stops (delivered ++ [record]) with
      | false =>
          refine (inductionHypothesis pass (delivered ++ [record])).trans ?_
          rw [List.append_assoc, List.singleton_append, Bool.false_or]
      | true =>
          refine (inductionHypothesis pass.fire (delivered ++ [record])).trans ?_
          rw [List.append_assoc, List.singleton_append, Bool.true_or, Bool.or_true, fire,
            Bool.true_or]

/-- Looking at a token that has fired stops the pass. -/
theorem value_checkToken_of_fired (fired : pass.token = true) :
    pass.checkToken.value =
      (some (.cancelled pass.processed),
        { pass with materializer := pass.materializer.cancel.value }) := by
  simp only [checkToken, fired, if_true, Noted.value_bind, Noted.value_pure]

/-- A pass whose token has fired takes no item. -/
theorem value_push_of_fired (fired : pass.token = true) (item : Item) :
    (pass.push item).value =
      (.error (.cancelled pass.processed),
        { pass with materializer := pass.materializer.cancel.value }) := by
  rw [push, Noted.value_bind, value_checkToken_of_fired fired]
  rfl

/-- A pass whose token has fired is not flushed. -/
theorem value_finish_of_fired (fired : pass.token = true) :
    pass.finish.value =
      (.error (.cancelled pass.processed),
        { pass with materializer := pass.materializer.cancel.value }) := by
  rw [finish, Noted.value_bind, value_checkToken_of_fired fired]
  rfl

/-- A run that is stopped before its first step only notes that. -/
theorem runFrom_of_fired (fired : pass.token = true) (sink : Sink) (delivered : List Record)
    (items : List Item) :
    pass.runFrom sink delivered items =
      pass.checkToken >>= fun _ => pure ⟨delivered, .error (.cancelled pass.processed)⟩ := by
  have stopped := value_checkToken_of_fired fired
  cases items with
  | nil =>
      rw [runFrom, close, finish, bind_assoc]
      refine Noted.bind_congr_value ?_
      rw [stopped]
      rfl
  | cons item items =>
      rw [runFrom, push, bind_assoc]
      refine Noted.bind_congr_value ?_
      rw [stopped]
      rfl

/-- A run that is stopped before its first step delivers nothing more. -/
theorem value_runFrom_of_fired (fired : pass.token = true) (sink : Sink)
    (delivered : List Record) (items : List Item) :
    (pass.runFrom sink delivered items).value =
      ⟨delivered, .error (.cancelled pass.processed)⟩ := by
  rw [runFrom_of_fired fired]
  rfl

/-- The ways in which a run can end. -/
inductive Ends (pass : Pass) (items : List Item) : Outcome PassError → Prop where
  /-- All items have been taken and what was held has been flushed. -/
  | completed {batches after}
      (observes : Observes pass.materializer (pass.set.decideAll items) batches after) :
      Ends pass items
        ⟨batches.flatten ++ after.held, .ok (after.summary.addAll after.held)⟩
  /-- Some first items have been taken, and nothing has been flushed. -/
  | stopped {taken rest batches after} (split : taken ++ rest = items)
      (observes : Observes pass.materializer (pass.set.decideAll taken) batches after) :
      Ends pass items ⟨batches.flatten, .error (.cancelled (pass.processed + taken.length))⟩

/-- A run that takes an item first ends like the run over the other items. -/
theorem Ends.cons {token : Bool}
    (taken : (pass.materializer.observe item (pass.set.decide item)).value = (.ok records, after))
    (ends : Ends
      { pass with materializer := after, processed := pass.processed + 1, token } items outcome) :
    Ends pass (item :: items) ⟨records ++ outcome.delivered, outcome.result⟩ := by
  cases ends with
  | completed observes =>
      rw [← List.append_assoc, ← List.flatten_cons]
      exact .completed (.oldest taken observes)
  | stopped split observes =>
      rw [← List.flatten_cons, Nat.add_right_comm, Nat.add_assoc, ← List.length_cons]
      exact .stopped (congrArg (item :: ·) split) (.oldest taken observes)

/-- Closing a pass ends a run over no further items. -/
theorem close_ends (isOpen : pass.materializer.IsOpen) (sink : Sink) (delivered : List Record) :
    ∃ outcome, Ends pass [] outcome ∧
      (pass.close sink delivered).value = ⟨delivered ++ outcome.delivered, outcome.result⟩ := by
  rw [close, Noted.value_bind]
  cases token : pass.token with
  | true =>
      refine ⟨_, .stopped (List.append_nil []) .nothing, ?_⟩
      rw [value_finish_of_fired token]
      simp
  | false =>
      refine ⟨_, .completed .nothing, ?_⟩
      have finished := value_finish token isOpen
      generalize pass.finish.value = answer at finished
      obtain ⟨result, closed⟩ := answer
      obtain rfl := finished
      simp only [deliver_eq, Noted.value_pure, List.flatten_nil, List.nil_append]

/-- A run of a pass whose materializer is open ends in one of these ways. -/
theorem runFrom_ends (isOpen : pass.materializer.IsOpen) (sink : Sink) (delivered : List Record)
    (items : List Item) :
    ∃ outcome, Ends pass items outcome ∧
      (pass.runFrom sink delivered items).value =
        ⟨delivered ++ outcome.delivered, outcome.result⟩ := by
  induction items generalizing pass delivered with
  | nil => exact close_ends isOpen sink delivered
  | cons item items inductionHypothesis =>
      cases token : pass.token with
      | true =>
          refine ⟨_, .stopped (List.nil_append _) .nothing, ?_⟩
          rw [value_runFrom_of_fired token, List.flatten_nil, List.append_nil]
          rfl
      | false =>
          obtain ⟨records, after, taken⟩ :
              ∃ records after,
                (pass.materializer.observe item (pass.set.decide item)).value =
                  (.ok records, after) :=
            ⟨_, _, value_observe isOpen item _⟩
          obtain ⟨outcome, ends, rest⟩ := @inductionHypothesis
            { pass with
              materializer := after, processed := pass.processed + 1,
              token := pass.token || sink.firesOn delivered records }
            (isOpen_after_observe taken) (delivered ++ records)
          refine ⟨_, ends.cons taken, ?_⟩
          rw [runFrom, Noted.value_bind, value_push token taken]
          simp only [deliver_eq, rest, List.append_assoc]

/-- However a run of a pass with an open materializer ends, it ends in one of these ways. -/
theorem run_ends (isOpen : pass.materializer.IsOpen) (sink : Sink) (items : List Item) :
    Ends pass items (pass.run sink items).value := by
  obtain ⟨outcome, ends, same⟩ := runFrom_ends isOpen sink [] items
  rw [run, same]
  exact ends

end Pass

end Winnow
