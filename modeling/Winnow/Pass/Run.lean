import Winnow.Pass.Basic

/-!
# Whole runs

A run takes a list of items through a pass and hands every record to a sink as soon as it is
ready. The sink may ask for cancellation on receiving a record, which the pass notices before
the next item. Records that have been handed over stay delivered when a run stops.

Since decisions depend on nothing but the filter set and the item, they may all be made before
the first item is handed on; `runDecided` is the run that does so.
-/

namespace Winnow

/-- The receiver of records. It asks for cancellation when `stops` holds of everything that it
has received, the newest record last. -/
structure Sink where
  stops : List Record → Bool

/-- A sink that takes everything. -/
def Sink.patient : Sink := ⟨fun _ => false⟩

/-- A sink that asks for cancellation when it has received a number of records. -/
def Sink.limited (count : Nat) : Sink := ⟨fun received => count ≤ received.length⟩

/-- What has been delivered, and how the run has ended. -/
structure Outcome (ε : Type) where
  delivered : List Record
  result : Except ε Summary

namespace Pass

variable {m : Type → Type} [Monad m] [MonadLog m]

/-- Hands records to a sink, one by one. -/
def deliver (pass : Pass) (sink : Sink) (delivered : List Record) :
    List Record → Pass × List Record
  | [] => (pass, delivered)
  | record :: records =>
      let received := delivered ++ [record]
      let next := if sink.stops received then pass.fire else pass
      next.deliver sink received records

/-- Ends a run: flushes the pass and delivers what it still held. -/
def close (pass : Pass) (sink : Sink) (delivered : List Record) : m (Outcome PassError) := do
  match ← pass.finish with
  | (.error error, _) => return ⟨delivered, .error error⟩
  | (.ok (records, summary), closed) =>
      return ⟨(closed.deliver sink delivered records).2, .ok summary⟩

/-- Takes items through a pass after some records have been delivered. -/
def runFrom (pass : Pass) (sink : Sink) (delivered : List Record) :
    List Item → m (Outcome PassError)
  | [] => pass.close sink delivered
  | item :: items => do
      match ← pass.push item with
      | (.error error, _) => return ⟨delivered, .error error⟩
      | (.ok records, next) =>
          let (next, delivered) := next.deliver sink delivered records
          next.runFrom sink delivered items

/-- Takes items through a pass. -/
def run (pass : Pass) (sink : Sink) (items : List Item) : m (Outcome PassError) :=
  pass.runFrom sink [] items

/-- Takes decided items through a pass after some records have been delivered. -/
def runDecidedFrom (pass : Pass) (sink : Sink) (delivered : List Record) :
    List (Item × Verdict) → m (Outcome PassError)
  | [] => pass.close sink delivered
  | (item, verdict) :: rest => do
      match ← pass.checkToken with
      | (some error, _) => return ⟨delivered, .error error⟩
      | (none, pass) =>
          match ← pass.process item verdict with
          | (.error error, _) => return ⟨delivered, .error error⟩
          | (.ok records, next) =>
              let (next, delivered) := next.deliver sink delivered records
              next.runDecidedFrom sink delivered rest

/-- Decides about all items first and then takes them through a pass. The decisions need not be
made one after the other: `decideEach` is any way of making them. -/
def runDecided (pass : Pass) (sink : Sink) (items : List Item)
    (decideEach : (Item → Verdict) → List Item → List Verdict := List.map) :
    m (Outcome PassError) := do
  match ← pass.checkToken with
  | (some error, _) => return ⟨[], .error error⟩
  | (none, pass) =>
      pass.runDecidedFrom sink [] (items.zip (decideEach pass.set.decide items))

end Pass

end Winnow
