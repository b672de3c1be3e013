import Winnow.Proofs.Materializer.Rearrangement
import Winnow.Proofs.Pass.Interruption

/-!
# Cancelled passes

Cancellation may be asked for between any two calls of a pass, or by the sink of a run. `Move` and
`play` are about the first: what a pass answers after any sequence of pushes and requests, and what
it would answer to a push or to the final flush at that point. The invariant `Reached` ties the
token to the count of items taken and to the stage of the materializer; it is the reason why a pass
never shows an error of its materializer.

A run is cut at the end of the batch of records in which its sink asks for cancellation. A sink that
asks no earlier than at the final flush is not heard any more.
-/

namespace Winnow

/-- A sink asks for cancellation in one of several batches, and so in a first one. -/
theorem Sink.exists_firesOn_take {sink : Sink} {delivered : List Record}
    {batches : List (List Record)} (fires : sink.firesOn delivered batches.flatten = true) :
    ∃ count < batches.length,
      sink.firesOn delivered (batches.take count).flatten = false ∧
      sink.firesOn delivered (batches.take (count + 1)).flatten = true := by
  induction batches generalizing delivered with
  | nil => exact absurd fires Bool.false_ne_true
  | cons batch rest inductionHypothesis =>
      cases inFirst : sink.firesOn delivered batch with
      | true =>
          refine ⟨0, Nat.succ_pos _, rfl, ?_⟩
          rw [List.take_succ_cons, List.take_zero, List.flatten_cons, List.flatten_nil,
            List.append_nil, inFirst]
      | false =>
          rw [List.flatten_cons, firesOn_append, inFirst, Bool.false_or] at fires
          obtain ⟨count, inside, quiet, fired⟩ := inductionHypothesis fires
          refine ⟨count + 1, Nat.succ_lt_succ inside, ?_, ?_⟩
          · rw [List.take_succ_cons, List.flatten_cons, firesOn_append, inFirst, quiet]
            rfl
          · rw [List.take_succ_cons, List.flatten_cons, firesOn_append, inFirst, fired]
            rfl

namespace Pass

open Materializer

variable {pass : Pass} {item : Item} {items : List Item} {batches : List (List Record)}
  {after : Materializer} {fired : Bool} {taken : Nat}

/-- What can happen to a pass before it is finished. -/
inductive Move where
  | push (item : Item)
  | fire
deriving DecidableEq

/-- The answers to the pushes among some moves, in order, and the pass after them. -/
def play (pass : Pass) : List Move → List (Except PassError (List Record)) × Pass
  | [] => ([], pass)
  | .fire :: moves => pass.fire.play moves
  | .push item :: moves =>
      let answered := (pass.push item).value
      let later := answered.2.play moves
      (answered.1 :: later.1, later.2)

/-- A push is answered before everything that happens later. -/
theorem play_push {answer : Except PassError (List Record)} {next : Pass}
    (answered : (pass.push item).value = (answer, next)) (moves : List Move) :
    pass.play (.push item :: moves) = (answer :: (next.play moves).1, (next.play moves).2) := by
  rw [play, answered]

/-- Every call of a pass would succeed. -/
def Grants (pass : Pass) : Prop :=
  (∀ item, ∃ records, (pass.push item).value.1 = .ok records) ∧
    ∃ totals, pass.finish.value.1 = .ok totals

/-- Every call of a pass would report that it has been cancelled after some items. -/
def Refuses (pass : Pass) (taken : Nat) : Prop :=
  (∀ item, (pass.push item).value.1 = .error (.cancelled taken)) ∧
    pass.finish.value.1 = .error (.cancelled taken)

/-- A pass that has taken some items: the token says whether cancellation has been asked for, and
until then the materializer is open. -/
structure Reached (fired : Bool) (taken : Nat) (pass : Pass) : Prop where
  token : pass.token = fired
  processed : pass.processed = taken
  isOpen : fired = false → pass.materializer.IsOpen

/-- A fresh pass has taken nothing. -/
theorem reached_new (set : FilterSet) (folderAware token : Bool) :
    Reached token 0 (new set folderAware token).value := by
  rw [value_new]
  exact ⟨rfl, rfl, fun _ => isOpen_fresh _⟩

namespace Reached

/-- Asking for cancellation takes nothing. -/
theorem fire (reached : Reached fired taken pass) : Reached true taken pass.fire :=
  ⟨rfl, reached.processed, nofun⟩

/-- Before cancellation a push succeeds and takes its item. -/
theorem push_of_quiet (reached : Reached false taken pass) (item : Item) :
    ∃ records next, (pass.push item).value = (.ok records, next) ∧
      Reached false (taken + 1) next := by
  have observed := value_observe (reached.isOpen rfl) item (pass.set.decide item)
  refine ⟨_, _, value_push reached.token observed, reached.token, ?_, fun _ => ?_⟩
  · exact congrArg (· + 1) reached.processed
  · exact isOpen_after_observe observed

/-- After cancellation a push takes nothing. -/
theorem push_of_fired (reached : Reached true taken pass) (item : Item) :
    ∃ next, (pass.push item).value = (.error (.cancelled taken), next) ∧
      Reached true taken next := by
  have refused := value_push_of_fired reached.token item
  rw [reached.processed] at refused
  exact ⟨_, refused, reached.token, rfl, nofun⟩

/-- Before cancellation every call succeeds. -/
theorem grants (reached : Reached false taken pass) : pass.Grants := by
  constructor
  · intro item
    obtain ⟨records, next, answered, _⟩ := reached.push_of_quiet item
    exact ⟨records, congrArg Prod.fst answered⟩
  · exact ⟨_, value_finish reached.token (reached.isOpen rfl)⟩

/-- After cancellation no call succeeds. -/
theorem refuses (reached : Reached true taken pass) : pass.Refuses taken := by
  constructor
  · intro item
    obtain ⟨next, refused, _⟩ := reached.push_of_fired item
    exact congrArg Prod.fst refused
  · rw [value_finish_of_fired reached.token, reached.processed]

/-- Moves lead from one such pass to another. The items taken are counted by the answers that
succeed, and all other answers report cancellation. -/
theorem play (reached : Reached fired taken pass) (moves : List Move) :
    let answers := (pass.play moves).1
    Reached (fired || moves.contains .fire) (taken + answers.countP (·.isOk))
        (pass.play moves).2 ∧
      ∀ answer ∈ answers, ∀ error, answer = .error error → ∃ count, error = .cancelled count := by
  induction moves generalizing pass fired taken with
  | nil =>
      dsimp only [Pass.play]
      rw [List.contains_nil, Bool.or_false]
      exact ⟨reached, by simp⟩
  | cons move moves inductionHypothesis =>
      cases move with
      | fire =>
          obtain ⟨last, cancelled⟩ := inductionHypothesis reached.fire
          rw [List.contains_cons, beq_self_eq_true, Bool.true_or, Bool.or_true]
          rw [Bool.true_or] at last
          exact ⟨last, cancelled⟩
      | push item =>
          have other : (Move.fire == Move.push item) = false := rfl
          rw [List.contains_cons, other, Bool.false_or]
          cases fired with
          | false =>
              obtain ⟨records, next, answered, nextReached⟩ := reached.push_of_quiet item
              obtain ⟨last, cancelled⟩ := inductionHypothesis nextReached
              rw [play_push answered]
              dsimp only
              rw [List.countP_cons_of_pos rfl, Nat.add_comm _ 1, ← Nat.add_assoc]
              exact ⟨last, List.forall_mem_cons.2 ⟨nofun, cancelled⟩⟩
          | true =>
              obtain ⟨next, answered, nextReached⟩ := reached.push_of_fired item
              obtain ⟨last, cancelled⟩ := inductionHypothesis nextReached
              rw [play_push answered]
              dsimp only
              rw [List.countP_cons_of_neg Bool.false_ne_true]
              refine ⟨last, List.forall_mem_cons.2 ⟨?_, cancelled⟩⟩
              intro error same
              exact ⟨taken, (Except.error.inj same).symm⟩

end Reached

/-- A pass that nobody cancels answers every push with the batch of its item. -/
theorem play_pushes (quiet : pass.token = false)
    (observes : Observes pass.materializer (pass.set.decideAll items) batches after) :
    (pass.play (items.map .push)).1 = batches.map .ok := by
  induction items generalizing pass batches with
  | nil =>
      obtain ⟨rfl, _⟩ := observes.of_nil
      rfl
  | cons item items inductionHypothesis =>
      obtain ⟨records, next, rest, taken, others, rfl⟩ := observes.of_cons
      have answers := @inductionHypothesis
        { pass with materializer := next, processed := pass.processed + 1 } _ quiet others
      rw [List.map_cons, play_push (value_push quiet taken), answers]
      rfl

/-- A run whose sink does not ask before the flush delivers every batch and the flush. -/
theorem runFrom_of_patient_batches {sink : Sink} {delivered : List Record}
    (quiet : pass.token = false) (isOpen : pass.materializer.IsOpen)
    (observes : Observes pass.materializer (pass.set.decideAll items) batches after)
    (patient : sink.firesOn delivered batches.flatten = false) :
    (pass.runFrom sink delivered items).value =
      ⟨delivered ++ (batches.flatten ++ after.held),
        .ok (after.summary.addAll after.held)⟩ := by
  induction items generalizing pass delivered batches with
  | nil =>
      obtain ⟨rfl, rfl⟩ := observes.of_nil
      have finished := value_finish quiet isOpen
      rw [runFrom, close, Noted.value_bind]
      generalize pass.finish.value = answer at finished
      obtain ⟨result, closed⟩ := answer
      obtain rfl := finished
      simp only [deliver_eq, Noted.value_pure, List.flatten_nil, List.nil_append]
  | cons item items inductionHypothesis =>
      obtain ⟨records, next, rest, taken, others, rfl⟩ := observes.of_cons
      rw [List.flatten_cons, Sink.firesOn_append, Bool.or_eq_false_iff] at patient
      have remaining := @inductionHypothesis
        { pass with
          materializer := next, processed := pass.processed + 1,
          token := pass.token || sink.firesOn delivered records }
        rest (delivered ++ records) (by rw [quiet, patient.1]; rfl) (isOpen_after_observe taken)
        others patient.2
      rw [runFrom, Noted.value_bind, value_push quiet taken]
      simp only [deliver_eq, remaining, List.flatten_cons, List.append_assoc]

/-- A run is cut after the batch in which its sink asks for the first time. -/
theorem runFrom_of_firing_batch {sink : Sink} {delivered : List Record} {count : Nat}
    (quiet : pass.token = false)
    (observes : Observes pass.materializer (pass.set.decideAll items) batches after)
    (inside : count < batches.length)
    (patient : sink.firesOn delivered (batches.take count).flatten = false)
    (fires : sink.firesOn delivered (batches.take (count + 1)).flatten = true) :
    (pass.runFrom sink delivered items).value =
      ⟨delivered ++ (batches.take (count + 1)).flatten,
        .error (.cancelled (pass.processed + (count + 1)))⟩ := by
  induction items generalizing pass delivered batches count with
  | nil =>
      obtain ⟨rfl, _⟩ := observes.of_nil
      exact absurd inside (Nat.not_lt_zero count)
  | cons item items inductionHypothesis =>
      obtain ⟨records, next, rest, taken, others, rfl⟩ := observes.of_cons
      rw [List.take_succ_cons, List.flatten_cons, Sink.firesOn_append] at fires
      rw [runFrom, Noted.value_bind, value_push quiet taken]
      cases count with
      | zero =>
          have firesNow : sink.firesOn delivered records = true := by
            simpa [Sink.firesOn] using fires
          simp only [deliver_eq, firesNow, Bool.or_true]
          rw [value_runFrom_of_fired rfl, List.take_succ_cons, List.take_zero, List.flatten_cons,
            List.flatten_nil, List.append_nil, Nat.zero_add]
      | succ count =>
          rw [List.take_succ_cons, List.flatten_cons, Sink.firesOn_append,
            Bool.or_eq_false_iff] at patient
          rw [patient.1, Bool.false_or] at fires
          have remaining := @inductionHypothesis
            { pass with
              materializer := next, processed := pass.processed + 1,
              token := pass.token || sink.firesOn delivered records }
            rest (delivered ++ records) count (by rw [quiet, patient.1]; rfl) others
            (Nat.lt_of_succ_lt_succ inside) patient.2 fires
          simp only [deliver_eq, remaining, List.take_succ_cons, List.flatten_cons,
            List.append_assoc, Nat.add_assoc, Nat.add_comm 1]

/-- Whatever has happened to a fresh pass, until cancellation its next call succeeds, and after
that every call reports the number of pushes that have succeeded. No answer is an error of the
materializer. -/
theorem answers_new (set : FilterSet) (folderAware token : Bool) (moves : List Move) :
    let played := (new set folderAware token).value.play moves
    (token = false → .fire ∉ moves → played.2.Grants) ∧
      (token = true ∨ .fire ∈ moves → played.2.Refuses (played.1.countP (·.isOk))) ∧
      ∀ answer ∈ played.1, ∀ error, answer ≠ .error (.materializer error) := by
  intro played
  obtain ⟨reached, cancelled⟩ := (reached_new set folderAware token).play moves
  rw [Nat.zero_add] at reached
  refine ⟨?_, ?_, ?_⟩
  · intro quiet unasked
    have silent : (token || moves.contains .fire) = false := by simp [quiet, unasked]
    rw [silent] at reached
    exact reached.grants
  · intro asked
    have heard : (token || moves.contains .fire) = true := by simpa using asked
    rw [heard] at reached
    exact reached.refuses
  · intro answer answered error refused
    obtain ⟨count, same⟩ := cancelled answer answered _ refused
    cases same

/-- What the items of a run bring out when nobody cancels: one batch of records for each item, in
which no folder is rejected if folders are held back, and the flush of those that are still held. -/
structure Batched (pass : Pass) (items : List Item) (batches : List (List Record))
    (flushed : List Record) (summary : Summary) : Prop where
  answers : (pass.play (items.map .push)).1 = batches.map .ok
  completes : pass.Completes items ⟨batches.flatten, flushed, summary⟩
  forwarded : pass.materializer.folderAware = true →
    ∀ record ∈ batches.flatten, record.isFolder = true → record.isAccepted = true
  unheld : pass.materializer.folderAware = false → flushed = []

/-- How a run ends that its sink may cancel: with the batch in which the sink asks for it, or, if
the sink asks no earlier than at the flush, as if it had not asked. -/
structure Cut (pass : Pass) (items : List Item) (batches : List (List Record))
    (flushed : List Record) (summary : Summary) (sink : Sink) : Prop where
  starts : (pass.run sink items).value.delivered <+: batches.flatten ++ flushed
  unasked : sink.firesOn [] batches.flatten = false →
    (pass.run sink items).value = ⟨batches.flatten ++ flushed, .ok summary⟩
  asked : sink.firesOn [] batches.flatten = true →
    ∃ count < items.length,
      sink.firesOn [] (batches.take count).flatten = false ∧
      sink.firesOn [] (batches.take (count + 1)).flatten = true ∧
      (pass.run sink items).value =
        ⟨(batches.take (count + 1)).flatten, .error (.cancelled (count + 1))⟩

/-- A sink can cut a run only between two batches. -/
theorem cut_of_observes (quiet : pass.token = false) (isOpen : pass.materializer.IsOpen)
    (untouched : pass.processed = 0)
    (observes : Observes pass.materializer (pass.set.decideAll items) batches after)
    (sink : Sink) :
    Cut pass items batches after.held (after.summary.addAll after.held) sink := by
  cases fires : sink.firesOn [] batches.flatten with
  | false =>
      have complete := runFrom_of_patient_batches quiet isOpen observes fires
      rw [List.nil_append] at complete
      constructor
      · have delivered : (pass.run sink items).value.delivered = batches.flatten ++ after.held :=
          congrArg Outcome.delivered complete
        exact delivered ▸ List.prefix_rfl
      · intro _
        exact complete
      · intro asked
        exact absurd (fires.symm.trans asked) Bool.false_ne_true
  | true =>
      obtain ⟨count, inside, patient, firing⟩ := Sink.exists_firesOn_take fires
      have stopped := runFrom_of_firing_batch quiet observes inside patient firing
      rw [untouched, Nat.zero_add, List.nil_append] at stopped
      have sameLength : batches.length = items.length :=
        observes.length_batches.trans (List.length_map _)
      have taken : (batches.take (count + 1)).flatten <+: batches.flatten := by
        refine ⟨(batches.drop (count + 1)).flatten, ?_⟩
        rw [← List.flatten_append, List.take_append_drop]
      constructor
      · rw [run, stopped]
        exact taken.trans (List.prefix_append _ _)
      · intro unasked
        exact absurd (unasked.symm.trans fires) Bool.false_ne_true
      · intro _
        exact ⟨count, sameLength ▸ inside, patient, firing, stopped⟩

/-- Cancellation is clean. Whatever has been asked of a pass, its next call succeeds until
cancellation is asked for, and reports the number of pushes that have succeeded from then on; no
call ever reports an error of the materializer. A run that its sink cancels delivers a prefix of
what it would have delivered, which ends with the records of an item and holds none of the rejected
folders that are held back; if the sink asks only in the final flush, nothing changes. -/
theorem cancellation_run (set : FilterSet) (folderAware : Bool) :
    (∀ (token : Bool) (moves : List Move),
      let played := (new set folderAware token).value.play moves
      (token = false → .fire ∉ moves → played.2.Grants) ∧
        (token = true ∨ .fire ∈ moves → played.2.Refuses (played.1.countP (·.isOk))) ∧
        ∀ answer ∈ played.1, ∀ error, answer ≠ .error (.materializer error)) ∧
      ∀ items : List Item, ∃ batches flushed summary,
        Batched (new set folderAware).value items batches flushed summary ∧
          ∀ sink, Cut (new set folderAware).value items batches flushed summary sink := by
  refine ⟨answers_new set folderAware, fun items => ?_⟩
  rw [value_new]
  generalize (folderAware && decide (set.operation ≠ .remove)) = aware
  let pass : Pass := { set, materializer := { folderAware := aware } }
  have isOpen : pass.materializer.IsOpen := isOpen_fresh aware
  obtain ⟨batches, after, observes, completes⟩ := @exists_completes pass rfl isOpen items
  have batched : Batched pass items batches after.held (after.summary.addAll after.held) := by
    refine ⟨play_pushes rfl observes, completes, ?_, ?_⟩
    · intro isAware
      obtain rfl : aware = true := isAware
      exact (accounts_of_observes observes).accepted
    · intro isFlat
      obtain rfl : aware = false := isFlat
      exact held_of_flat observes
  exact ⟨batches, _, _, batched, cut_of_observes rfl isOpen rfl observes⟩

end Pass

end Winnow
