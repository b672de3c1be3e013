import Winnow.Proofs.Pass.Interruption
import Winnow.Proofs.Pass.Job

/-!
# Deciding first

Deciding about all items before the first one is handed on changes nothing: neither what is
delivered, nor how the run ends, nor what is noted on the way. A pass never changes its filter set,
so a decision is the same whenever it is made; and the additional look at the token before all
decisions finds what the next one would have found.
-/

namespace Winnow.Pass

variable {pass : Pass} {set : FilterSet}

/-- Handing an item on leaves the filter set alone. -/
theorem set_process (pass : Pass) (item : Item) (verdict : Verdict) :
    (pass.process item verdict).value.2.set = pass.set := rfl

/-- Delivering records leaves the filter set alone. -/
theorem set_deliver (pass : Pass) (sink : Sink) (delivered records : List Record) :
    (pass.deliver sink delivered records).1.set = pass.set := by
  rw [deliver_eq]

/-- Taking items with the verdicts of the pass's own set is taking them undecided. -/
theorem runDecidedFrom_eq_runFrom (pass : Pass) (sink : Sink) (delivered : List Record)
    (items : List Item) :
    pass.runDecidedFrom sink delivered (pass.set.decideAll items) =
      pass.runFrom sink delivered items := by
  induction items generalizing pass delivered with
  | nil => rfl
  | cons item items inductionHypothesis =>
      rw [FilterSet.decideAll, List.map_cons, runDecidedFrom, runFrom, push, bind_assoc]
      cases token : pass.token with
      | true =>
          refine Noted.bind_congr_value ?_
          rw [value_checkToken_of_fired token]
          rfl
      | false =>
          rw [checkToken_of_quiet token, pure_bind, pure_bind]
          refine Noted.bind_congr_value ?_
          have sameSet := set_process pass item (pass.set.decide item)
          generalize (pass.process item (pass.set.decide item)).value = answer at sameSet ⊢
          obtain ⟨_ | records, next⟩ := answer
          · rfl
          · have rest := inductionHypothesis (next.deliver sink delivered records).1
              (next.deliver sink delivered records).2
            rw [set_deliver, sameSet] at rest
            exact rest

/-- A run that decides first is the run that decides item by item. -/
theorem runDecided_eq_run {decideEach : (Item → Verdict) → List Item → List Verdict}
    (inOrder : ∀ decide items, decideEach decide items = items.map decide) (pass : Pass)
    (sink : Sink) (items : List Item) :
    pass.runDecided sink items decideEach = pass.run sink items := by
  have decided : items.zip (decideEach pass.set.decide items) = pass.set.decideAll items := by
    have together := @List.zip_map' _ _ _ id pass.set.decide items
    rw [List.map_id] at together
    rw [inOrder, together]
    rfl
  rw [runDecided, run]
  cases token : pass.token with
  | true =>
      rw [runFrom_of_fired token]
      refine Noted.bind_congr_value ?_
      rw [value_checkToken_of_fired token]
  | false =>
      rw [checkToken_of_quiet token, pure_bind]
      dsimp only
      rw [decided, runDecidedFrom_eq_runFrom]

/-- Deciding first changes nothing that a sink, a caller or a log can tell, be the log shown the
notices of the run or at hand while it goes on. -/
theorem watch_runDecided {decideEach : (Item → Verdict) → List Item → List Verdict}
    (inOrder : ∀ decide items, decideEach decide items = items.map decide) (set : FilterSet)
    (folderAware token : Bool) (sink : Sink) (items : List Item) (log : Log) :
    let decidedFirst : Logging (Outcome PassError) := do
      (← new set folderAware token).runDecided sink items decideEach
    let decidedInTurn : Logging (Outcome PassError) := do
      (← new set folderAware token).run sink items
    log.watch (do (← new set folderAware token).runDecided sink items decideEach) =
        log.watch (do (← new set folderAware token).run sink items) ∧
      decidedFirst.run { log } = decidedInTurn.run { log } := by
  intro decidedFirst decidedInTurn
  constructor
  · simp only [runDecided_eq_run inOrder]
  · have fresh := mirrors_new set folderAware token
    have first := fresh.bind fun pass => mirrors_runDecided pass sink items decideEach
    have inTurn := fresh.bind fun pass => mirrors_runFrom pass sink [] items
    simp only [runDecided_eq_run inOrder] at first
    exact (first.run_eq _).trans (inTurn.run_eq _).symm

/-- Maps the two halves of a list apart, as two workers do that share it. -/
def mapHalves {α β : Type} (change : α → β) (values : List α) : List β :=
  (values.take (values.length / 2)).map change ++ (values.drop (values.length / 2)).map change

theorem mapHalves_eq_map {α β : Type} (change : α → β) (values : List α) :
    mapHalves change values = values.map change := by
  rw [mapHalves, ← List.map_append, List.take_append_drop]

/-- Two workers decide about the items of a run that is stopped at its first record. -/
theorem watch_runDecided_mapHalves :
    let items : List Item :=
      [⟨.parse "a/b", .file 1, ⟨0⟩⟩, ⟨.parse "c", .folder, ⟨0⟩⟩, ⟨.parse "d", .file 2, ⟨0⟩⟩]
    let set : FilterSet := { recursive := true }
    let log : Log :=
      { verbosity := { info := .uniform 2, debug := .uniform 2 }, tracing := true }
    let decidedFirst : Logging (Outcome PassError) := do
      (← new set true).runDecided (.limited 1) items mapHalves
    let decidedInTurn : Logging (Outcome PassError) := do
      (← new set true).run (.limited 1) items
    (∀ (decide : Item → Verdict) items, mapHalves decide items = items.map decide) ∧
      log.watch (do (← new set true).runDecided (.limited 1) items mapHalves) =
        log.watch (do (← new set true).run (.limited 1) items) ∧
      decidedFirst.run { log } = decidedInTurn.run { log } := by
  intro items set log
  exact ⟨mapHalves_eq_map, watch_runDecided mapHalves_eq_map set true false (.limited 1) items log⟩

end Winnow.Pass
