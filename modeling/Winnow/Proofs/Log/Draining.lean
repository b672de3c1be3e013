import Mathlib.Algebra.GroupWithZero.Nat
import Mathlib.Data.List.DropRight
import Winnow.Proofs.Log.Hearing

/-!
# Draining a log

A log that is drained from time to time hands out the newest events since the drain before, and
counts the others. What that has to be is a matter of the uses of the log alone: `periods` cuts the
emitted events at the drains, and `Handover.ofPeriod` says what a drain has to show of a period.

`drains_ofHistory` is the run of any uses from a buffer with any history. From it `accounts_drains`
reads off what is seen of a log that starts empty: no event is handed out twice or out of order, and
none is missing without being counted.
-/

namespace Winnow

namespace EventBuffer

/-- What a buffer keeps of a history is its last part, as far as there is room for it. -/
theorem events_ofHistory (history : List Event) :
    (ofHistory history).events = history.rtake (min history.length capacity) := by
  have skipped : history.length - min history.length capacity = history.length - capacity := by
    omega
  rw [ofHistory, List.rtake, skipped]

/-- What a buffer has dropped of a history is what there was no room for. -/
theorem dropped_ofHistory (history : List Event) :
    (ofHistory history).dropped = history.length - min history.length capacity := by
  simp only [ofHistory]
  omega

/-- A buffer within its bound drops its oldest event exactly when it is full. -/
theorem push_of_length_le {buffer : EventBuffer} (bounded : buffer.events.length ≤ capacity)
    (event : Event) :
    buffer.push event =
      if buffer.events.length = capacity then ⟨buffer.events.tail ++ [event], buffer.dropped + 1⟩
      else ⟨buffer.events ++ [event], buffer.dropped⟩ := by
  unfold push
  by_cases full : buffer.events.length = capacity
  · rw [if_neg (by omega), if_pos full]
  · rw [if_pos (by omega), if_neg full]

end EventBuffer

namespace Log

open EventBuffer (capacity ofHistory)

/-- What is done to a log between two changes of its verbosity: an event of either family is
emitted, or the log is drained. -/
inductive Use where
  | emit (event : Event)
  | drain
deriving DecidableEq

namespace Use

/-- The event of an emission. -/
def event? : Use → Option Event
  | emit event => some event
  | drain => none

/-- Whether a use is a drain. -/
def isDrain : Use → Bool
  | emit _ => false
  | drain => true

end Use

/-- What is seen of a drain: the number of dropped events right before it, the events that it hands
out, and the number of dropped events right after it. -/
structure Handover where
  droppedBefore : Nat
  events : List Event
  droppedAfter : Nat
deriving DecidableEq

/-- What has to be seen of the drain that ends a period in which some events were emitted: the
newest of them, as many as there is room for. -/
def Handover.ofPeriod (emitted : List Event) : Handover where
  droppedBefore := emitted.length - min emitted.length capacity
  events := emitted.rtake (min emitted.length capacity)
  droppedAfter := 0

/-- The events that are emitted by some uses. -/
def emitted (uses : List Use) : List Event := uses.filterMap Use.event?

/-- The events that are emitted before the first drain, between any two drains and after the last
one. -/
def periods (uses : List Use) : List (List Event) := (uses.splitOnP Use.isDrain).map emitted

/-- Puts a log to a use. -/
def use (log : Log) : Use → Log
  | .emit event => log.emit event
  | .drain => log.drain.2

/-- The log after several uses. -/
def after (log : Log) (uses : List Use) : Log := uses.foldl use log

/-- What would be seen of a drain right now. -/
def handover (log : Log) : Handover :=
  ⟨log.buffer.dropped, log.drain.1, log.drain.2.buffer.dropped⟩

/-- What is seen of the drains among some uses. -/
def drains (log : Log) : List Use → List Handover
  | [] => []
  | .emit event :: uses => (log.emit event).drains uses
  | .drain :: uses => log.handover :: log.drain.2.drains uses

variable {log : Log} {history : List Event}

theorem after_cons (log : Log) (use : Use) (uses : List Use) :
    log.after (use :: uses) = (log.use use).after uses := rfl

theorem periods_nil : periods [] = [[]] := rfl

/-- A drain ends an empty period. -/
theorem periods_drain (uses : List Use) : periods (.drain :: uses) = [] :: periods uses := by
  rw [periods, List.splitOnP_cons_eq_if_modifyHead]
  rfl

/-- An emission belongs to the first period. -/
theorem periods_emit (event : Event) (uses : List Use) :
    periods (.emit event :: uses) = (periods uses).modifyHead (event :: ·) := by
  rw [periods, periods, List.splitOnP_cons_eq_if_modifyHead, Use.isDrain,
    if_neg Bool.false_ne_true]
  obtain ⟨first, others, cut⟩ :=
    List.exists_cons_of_ne_nil (List.splitOnP_ne_nil Use.isDrain uses)
  rw [cut]
  rfl

/-- Every emitted event belongs to one period, and the periods follow each other. -/
theorem flatten_periods (uses : List Use) : (periods uses).flatten = emitted uses := by
  induction uses with
  | nil => rfl
  | cons use uses inductionHypothesis =>
      cases use with
      | drain =>
          rw [periods_drain, List.flatten_cons, List.nil_append, inductionHypothesis]
          rfl
      | emit event =>
          have step : ((periods uses).modifyHead (event :: ·)).flatten =
              event :: (periods uses).flatten := by
            obtain ⟨first, others, cut⟩ : ∃ first others, periods uses = first :: others :=
              List.exists_cons_of_ne_nil (by simp [periods, List.splitOnP_ne_nil])
            rw [cut]
            rfl
          rw [periods_emit, step, inductionHypothesis]
          rfl

/-- Nothing comes before the first period of a log without a history. -/
theorem extendFirst_nil (periods : List (List Event)) : periods.modifyHead ([] ++ ·) = periods :=
  congrFun List.modifyHead_id periods

/-- No use fills a log beyond its bound. -/
theorem length_use_le (bounded : log.buffer.events.length ≤ capacity) (use : Use) :
    (log.use use).buffer.events.length ≤ capacity := by
  cases use with
  | emit event => exact EventBuffer.length_push_le event bounded
  | drain => exact Nat.zero_le capacity

/-- However it is used, a log stays within its bound. -/
theorem length_after_le (bounded : log.buffer.events.length ≤ capacity) (uses : List Use) :
    (log.after uses).buffer.events.length ≤ capacity := by
  induction uses generalizing log with
  | nil => exact bounded
  | cons use uses inductionHypothesis => exact inductionHypothesis (length_use_le bounded use)

/-- A drain shows what it has to show of the history of the buffer. -/
theorem handover_ofHistory (kept : log.buffer = ofHistory history) :
    log.handover = .ofPeriod history := by
  rw [handover, drain, kept, EventBuffer.dropped_ofHistory, EventBuffer.drain,
    EventBuffer.events_ofHistory]
  rfl

/-- The drains among some uses, and one more at the end, show what they have to show of the periods;
the first period goes back to the history of the buffer. -/
theorem drains_ofHistory (kept : log.buffer = ofHistory history) (uses : List Use) :
    log.drains uses ++ [(log.after uses).handover] =
      ((periods uses).modifyHead (history ++ ·)).map .ofPeriod := by
  -- The history is general, since an emission moves its event from the uses to the history.
  induction uses generalizing log history with
  | nil =>
      rw [periods_nil, List.modifyHead_cons, List.append_nil]
      exact congrArg (fun shown => [shown]) (handover_ofHistory kept)
  | cons use uses inductionHypothesis =>
      cases use with
      | emit event =>
          have longer : (log.emit event).buffer = ofHistory (history ++ [event]) := by
            rw [emit, kept, EventBuffer.push_ofHistory]
          rw [drains, after_cons, use, inductionHypothesis longer, periods_emit,
            List.modifyHead_modifyHead]
          simp only [Function.comp_def, List.append_assoc, List.singleton_append]
      | drain =>
          have emptied : log.drain.2.buffer = ofHistory [] := rfl
          rw [drains, after_cons, use, List.cons_append, inductionHypothesis emptied,
            handover_ofHistory kept, periods_drain, List.modifyHead_cons, List.append_nil,
            List.map_cons, extendFirst_nil]

/-- What drains have to show of periods is a part of the emitted events, in their order. -/
theorem sublist_events_ofPeriod (periods : List (List Event)) :
    ((periods.map Handover.ofPeriod).flatMap Handover.events).Sublist periods.flatten := by
  induction periods with
  | nil => exact .slnil
  | cons period periods inductionHypothesis =>
      exact (List.drop_sublist _ period).append inductionHypothesis

/-- What drains have to show of periods accounts for every emitted event. -/
theorem sum_ofPeriod (periods : List (List Event)) :
    ((periods.map Handover.ofPeriod).map fun shown =>
      shown.droppedBefore + shown.events.length).sum = periods.flatten.length := by
  induction periods with
  | nil => rfl
  | cons period periods inductionHypothesis =>
      rw [List.map_cons, List.map_cons, List.sum_cons, inductionHypothesis, List.flatten_cons,
        List.length_append]
      simp only [Handover.ofPeriod, List.rtake, List.length_drop]
      omega

/-- A log that starts empty, whatever is emitted and however often it is drained. It never holds
more than its bound, and another event displaces the oldest one exactly when the log is full. Each
drain, and one more at the end, hands out the newest events of its period, as many as there is room
for; it is preceded by the number of the others and followed by none. All together they hand out
events in the order in which they were emitted, each at most once, and count all the others. -/
theorem accounts_drains (levels : Verbosity) (tracing : Bool) (uses : List Use) :
    let fresh : Log := { verbosity := levels, tracing }
    let reached := fresh.after uses
    let shown := fresh.drains uses ++ [reached.handover]
    reached.buffer.events.length ≤ capacity ∧
      (∀ event, (reached.emit event).buffer =
        if reached.buffer.events.length = capacity then
          ⟨reached.buffer.events.tail ++ [event], reached.buffer.dropped + 1⟩
        else ⟨reached.buffer.events ++ [event], reached.buffer.dropped⟩) ∧
      shown = (periods uses).map .ofPeriod ∧
      (shown.flatMap Handover.events).Sublist (emitted uses) ∧
      (shown.map fun drain => drain.droppedBefore + drain.events.length).sum =
        (emitted uses).length := by
  intro fresh reached shown
  have empty : fresh.buffer.events.length ≤ capacity := Nat.zero_le capacity
  have bounded : reached.buffer.events.length ≤ capacity := length_after_le empty uses
  have shownEq : shown = (periods uses).map .ofPeriod := by
    have unused : fresh.buffer = ofHistory [] := rfl
    rw [← extendFirst_nil (periods uses)]
    exact drains_ofHistory unused uses
  refine ⟨bounded, EventBuffer.push_of_length_le bounded, shownEq, ?_, ?_⟩
  · rw [shownEq, ← flatten_periods]
    exact sublist_events_ofPeriod (periods uses)
  · rw [shownEq, ← flatten_periods]
    exact sum_ofPeriod (periods uses)

end Log

end Winnow
