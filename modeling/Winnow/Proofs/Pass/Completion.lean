import Winnow.Pass.Run
import Winnow.Proofs.Materializer.Flush

/-!
# Runs that nobody stops

As long as its token does not fire a pass takes every item, and its materializer observes the items
with the verdicts of the filter set. `Completes` says what such a run comes to: the records that the
items bring out, the records of the final flush, and the totals. Every pass with an open
materializer and a quiet token completes (`exists_completes`), for any list of items.
-/

namespace Winnow

/-- Items with the verdicts of a filter set. -/
def FilterSet.decideAll (set : FilterSet) (items : List Item) : History :=
  items.map fun item => (item, set.decide item)

namespace Pass

open Materializer

variable {pass last : Pass} {item : Item} {items : List Item} {after : Materializer}

/-- Pushes items one after the other, up to the first error, and collects what they bring out. -/
def pushAll (pass : Pass) : List Item → Except PassError (List Record × Pass)
  | [] => .ok ([], pass)
  | item :: items =>
      match (pass.push item).value with
      | (.error error, _) => .error error
      | (.ok records, next) =>
          (next.pushAll items).map fun (later, last) => (records ++ later, last)

/-- What a run has come to: the records that the items brought out, the records of the final
flush, and the totals. -/
structure Report where
  immediate : List Record
  flushed : List Record
  summary : Summary

/-- All records of a report, in the order in which they are delivered. -/
def Report.records (report : Report) : List Record := report.immediate ++ report.flushed

/-- A run to which nobody objects takes all items, flushes the rest and comes to a report. -/
structure Completes (pass : Pass) (items : List Item) (report : Report) : Prop where
  pushed : ∃ last, pass.pushAll items = .ok (report.immediate, last) ∧
    last.finish.value.1 = .ok (report.flushed, report.summary)
  run : (pass.run .patient items).value = ⟨report.records, .ok report.summary⟩

/-- A patient sink takes every record and never fires the token. -/
theorem deliver_patient (pass : Pass) (delivered records : List Record) :
    pass.deliver .patient delivered records = (pass, delivered ++ records) := by
  induction records generalizing delivered with
  | nil => rw [deliver, List.append_nil]
  | cons record rest inductionHypothesis =>
      rw [deliver]
      exact (inductionHypothesis (delivered ++ [record])).trans (by rw [List.append_assoc]; rfl)

/-- Pushing several items is pushing the first one and then the others. -/
theorem pushAll_cons_eq_ok {records : List Record}
    (pushed : pass.pushAll (item :: items) = .ok (records, last)) :
    ∃ first next later, (pass.push item).value = (.ok first, next) ∧
      next.pushAll items = .ok (later, last) ∧ first ++ later = records := by
  rw [pushAll] at pushed
  generalize (pass.push item).value = answer at pushed
  obtain ⟨_ | first, next⟩ := answer
  · cases pushed
  · dsimp only at pushed
    cases rest : next.pushAll items with
    | error error =>
        rw [rest] at pushed
        cases pushed
    | ok outcome =>
        rw [rest] at pushed
        obtain ⟨together, rfl⟩ := Prod.mk.inj (Except.ok.inj pushed)
        exact ⟨first, next, outcome.1, rfl, rest, together⟩

/-- A run with a patient sink delivers what the pushes bring out, and then the final flush. -/
theorem runFrom_patient {delivered immediate flushed : List Record} {summary : Summary}
    (pushed : pass.pushAll items = .ok (immediate, last))
    (finished : last.finish.value.1 = .ok (flushed, summary)) :
    (pass.runFrom .patient delivered items).value =
      ⟨delivered ++ (immediate ++ flushed), .ok summary⟩ := by
  induction items generalizing pass delivered immediate with
  | nil =>
      obtain ⟨rfl, rfl⟩ := Prod.mk.inj (Except.ok.inj pushed)
      rw [runFrom, close, Noted.value_bind]
      generalize pass.finish.value = closed at finished
      obtain ⟨result, closed⟩ := closed
      obtain rfl := finished
      simp only [deliver_patient, Noted.value_pure, List.nil_append]
  | cons item items inductionHypothesis =>
      obtain ⟨first, next, later, taken, rest, rfl⟩ := pushAll_cons_eq_ok pushed
      rw [runFrom, Noted.value_bind, taken]
      simp only [deliver_patient, inductionHypothesis rest, List.append_assoc]

/-- Looking at a token that has not fired does nothing. -/
theorem checkToken_of_quiet (quiet : pass.token = false) : pass.checkToken = pure (none, pass) := by
  rw [checkToken, quiet]
  rfl

/-- A pass whose token is quiet hands every item on with the verdict of its set. -/
theorem value_push {records : List Record} (quiet : pass.token = false)
    (taken : (pass.materializer.observe item (pass.set.decide item)).value =
      (.ok records, after)) :
    (pass.push item).value =
      (.ok records, { pass with materializer := after, processed := pass.processed + 1 }) := by
  rw [push, checkToken_of_quiet quiet, pure_bind]
  simp only [process, Noted.value_bind, taken]
  rfl

/-- A pass whose token is quiet flushes an open materializer. -/
theorem value_finish (quiet : pass.token = false) (isOpen : pass.materializer.IsOpen) :
    pass.finish.value.1 =
      .ok (pass.materializer.held,
        pass.materializer.summary.addAll pass.materializer.held) := by
  rw [finish, checkToken_of_quiet quiet, pure_bind]
  simp only [Noted.value_bind, Noted.value_pure, value_finalize isOpen]

/-- Pushing items is observing them with the verdicts of the set. -/
theorem pushAll_eq (quiet : pass.token = false) (isOpen : pass.materializer.IsOpen)
    (items : List Item) :
    ∃ batches after,
      Observes pass.materializer (pass.set.decideAll items) batches after ∧
      pass.pushAll items = .ok (batches.flatten,
        { pass with materializer := after, processed := pass.processed + items.length }) := by
  induction items generalizing pass with
  | nil => exact ⟨[], pass.materializer, .nothing, rfl⟩
  | cons item items inductionHypothesis =>
      have taken := value_observe isOpen item (pass.set.decide item)
      have pushed := value_push quiet taken
      generalize ({ pass.materializer with stage := .accumulating }.place item
        (pass.set.decide item)).value = placed at taken pushed
      obtain ⟨batches, after, observes, rest⟩ :=
        @inductionHypothesis
          { pass with
            materializer := placed.1.count placed.2, processed := pass.processed + 1 }
          quiet (isOpen_after_observe taken)
      refine ⟨_, after, .oldest taken observes, ?_⟩
      rw [pushAll, pushed]
      simp only [rest, Except.map, List.flatten_cons, List.length_cons, Nat.add_assoc,
        Nat.add_comm 1]

/-- A pass whose token is quiet and whose materializer is open completes any list of items. -/
theorem exists_completes (quiet : pass.token = false) (isOpen : pass.materializer.IsOpen)
    (items : List Item) :
    ∃ batches after,
      Observes pass.materializer (pass.set.decideAll items) batches after ∧
      pass.Completes items
        ⟨batches.flatten, after.held, after.summary.addAll after.held⟩ := by
  obtain ⟨batches, after, observes, pushed⟩ := pushAll_eq quiet isOpen items
  have finished := @value_finish
    { pass with materializer := after, processed := pass.processed + items.length }
    quiet (observes.isOpen isOpen)
  refine ⟨batches, after, observes, ⟨_, pushed, finished⟩, ?_⟩
  rw [run, runFrom_patient pushed finished, List.nil_append, Report.records]

/-- A fresh pass forwards folders if it is told to and is not a removal. -/
theorem value_new (set : FilterSet) (folderAware token : Bool) :
    (new set folderAware token).value =
      { set
        materializer := { folderAware := folderAware && decide (set.operation ≠ .remove) }
        token } := by
  unfold new
  split
  case isTrue forbidden =>
    have never : (folderAware && decide (set.operation ≠ .remove)) = false := by
      simp [forbidden.1]
    rw [never]
    rfl
  case isFalse allowed =>
    have asked : (folderAware && decide (set.operation ≠ .remove)) = folderAware := by
      cases folderAware with
      | false => rfl
      | true => simpa using allowed
    rw [asked]
    rfl

/-- A fresh pass completes any list of items, and its totals count what it has delivered. -/
theorem exists_completes_new (set : FilterSet) (aware : Bool) (items : List Item) :
    ∃ batches after,
      Observes { folderAware := aware } (set.decideAll items) batches after ∧
      Completes { set, materializer := { folderAware := aware } } items
        ⟨batches.flatten, after.held, Summary.tally (batches.flatten ++ after.held)⟩ := by
  obtain ⟨batches, after, observes, completes⟩ :=
    @exists_completes { set, materializer := { folderAware := aware } } rfl (isOpen_fresh aware)
      items
  have counted : after.summary.addAll after.held =
      Summary.tally (batches.flatten ++ after.held) := by
    rw [← Summary.addAll_tally, observes.summary]
    exact congrArg (Summary.addAll · after.held) (Summary.addAll_tally [] batches.flatten)
  exact ⟨batches, after, observes, counted ▸ completes⟩

/-- A run of a fresh pass that nobody stops delivers what the materializer makes of the decided
items, and counts it. -/
theorem exists_run_new (set : FilterSet) (folderAware : Bool) (items : List Item) :
    ∃ batches after,
      Observes { folderAware := folderAware && decide (set.operation ≠ .remove) }
        (set.decideAll items) batches after ∧
      ((new set folderAware).value.run .patient items).value =
        ⟨batches.flatten ++ after.held, .ok (Summary.tally (batches.flatten ++ after.held))⟩ := by
  obtain ⟨batches, after, observes, completes⟩ :=
    exists_completes_new set (folderAware && decide (set.operation ≠ .remove)) items
  refine ⟨batches, after, observes, ?_⟩
  rw [value_new]
  exact completes.run

end Pass

end Winnow
