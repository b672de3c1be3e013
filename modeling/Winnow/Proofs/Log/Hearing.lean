import Mathlib.Data.List.Basic
import Winnow.Log.Buffer

/-!
# What a log hears

A log hears the events that it wants of the notices given to it, and keeps the newest of them. Which
events it hears is a matter of its verbosity and of whether traces reach it, never of what it has
kept: `addAll_eq` takes a log apart into the events it hears and the buffer that stores them.

`heard_eq_filter` compares a log with one that wants everything.
-/

namespace Winnow

namespace EventBuffer

variable {history : List Event} {event : Event}

/-- What a buffer keeps of a history of events: the newest ones, and the number of the others. -/
def ofHistory (history : List Event) : EventBuffer where
  events := history.drop (history.length - capacity)
  dropped := history.length - capacity

/-- Pushes events one after the other. -/
def pushAll (buffer : EventBuffer) (events : List Event) : EventBuffer :=
  events.foldl push buffer

theorem pushAll_cons (buffer : EventBuffer) (event : Event) (events : List Event) :
    buffer.pushAll (event :: events) = (buffer.push event).pushAll events := rfl

theorem pushAll_append (buffer : EventBuffer) (earlier later : List Event) :
    buffer.pushAll (earlier ++ later) = (buffer.pushAll earlier).pushAll later :=
  List.foldl_append

/-- One more event continues the history of a buffer. -/
theorem push_ofHistory (history : List Event) (event : Event) :
    (ofHistory history).push event = ofHistory (history ++ [event]) := by
  have kept : (ofHistory history).events.length = min history.length capacity := by
    rw [ofHistory, List.length_drop]
    omega
  unfold push
  rw [kept]
  split
  case isTrue room =>
    have fits : history.length + 1 - capacity = 0 := by omega
    have fitted : history.length - capacity = 0 := by omega
    simp only [ofHistory, List.length_append, List.length_singleton, fits, fitted, List.drop_zero]
  case isFalse full =>
    have more : history.length + 1 - capacity = history.length - capacity + 1 := by omega
    have within : history.length - capacity + 1 ≤ history.length := by
      have positive : 0 < capacity := by decide
      omega
    simp only [ofHistory, List.length_append, List.length_singleton, more, List.tail_drop,
      List.drop_append_of_le_length within]

/-- More events continue the history of a buffer. -/
theorem pushAll_ofHistory (history events : List Event) :
    (ofHistory history).pushAll events = ofHistory (history ++ events) := by
  induction events generalizing history with
  | nil => simp only [pushAll, List.foldl_nil, List.append_nil]
  | cons event events inductionHypothesis =>
      rw [pushAll_cons, push_ofHistory, inductionHypothesis, List.append_assoc,
        List.singleton_append]

/-- As long as there is room a buffer keeps all of its history. -/
theorem ofHistory_of_le (room : history.length ≤ capacity) : ofHistory history = ⟨history, 0⟩ := by
  rw [ofHistory, Nat.sub_eq_zero_of_le room, List.drop_zero]

end EventBuffer

namespace Verbosity

/-- The verbosity that wants everything. -/
def loudest : Verbosity := ⟨.uniform 255, .uniform 255⟩

theorem level_loudest (flag : Flag) : loudest.level flag = 255 := by
  cases flag with
  | info flag => exact InfoLevels.get_uniform 255 flag
  | debug flag => exact DebugLevels.get_uniform 255 flag

/-- No level is higher than the highest. -/
theorem wants_loudest (flag : Flag) (level : UInt8) : loudest.wants flag level = true := by
  rw [wants, level_loudest, decide_eq_true_eq, UInt8.le_iff_toNat_le]
  exact Nat.le_of_lt_succ level.toNat_lt

end Verbosity

namespace Log

variable {log : Log}

/-- The events that a log wants of some notices. -/
def heard (log : Log) (notices : List Notice) : List Event := notices.filterMap log.wanted?

@[simp]
theorem heard_append (log : Log) (earlier later : List Notice) :
    log.heard (earlier ++ later) = log.heard earlier ++ log.heard later :=
  List.filterMap_append

theorem heard_cons (log : Log) (notice : Notice) (notices : List Notice) :
    log.heard (notice :: notices) = log.heard [notice] ++ log.heard notices :=
  log.heard_append [notice] notices

/-- A notice is heard and kept, or nothing happens. -/
theorem add_eq (log : Log) (notice : Notice) :
    log.add notice = { log with buffer := log.buffer.pushAll (log.heard [notice]) } := by
  unfold add heard
  rw [List.filterMap_cons, List.filterMap_nil]
  cases log.wanted? notice with
  | none => rfl
  | some event => rfl

theorem addAll_cons (log : Log) (notice : Notice) (notices : List Notice) :
    log.addAll (notice :: notices) = (log.add notice).addAll notices := rfl

/-- Of several notices a log keeps what it hears, one event after the other. -/
theorem addAll_eq (log : Log) (notices : List Notice) :
    log.addAll notices = { log with buffer := log.buffer.pushAll (log.heard notices) } := by
  induction notices generalizing log with
  | nil => rfl
  | cons notice notices inductionHypothesis =>
      rw [addAll_cons, inductionHypothesis, add_eq, heard_cons log notice notices,
        EventBuffer.pushAll_append]
      rfl

/-- A log hears, of all events, those of a level that it wants of their flag. -/
theorem heard_eq_filter_events (log : Log) (notices : List Notice) :
    log.heard notices = (notices.filterMap (Notice.event? log.tracing)).filter
      fun event => event.level ≤ log.verbosity.level event.flag := by
  rw [List.filter_filterMap]
  rfl

/-- A log that wants everything hears every event. -/
theorem heard_loudest (log : Log) (notices : List Notice) :
    heard { log with verbosity := .loudest } notices =
      notices.filterMap (Notice.event? log.tracing) := by
  rw [heard_eq_filter_events, List.filter_eq_self]
  exact fun event _ => Verbosity.wants_loudest event.flag event.level

/-- What a log hears is what it would hear if it wanted everything, as far as the levels of the
flags allow. -/
theorem heard_eq_filter (log : Log) (notices : List Notice) :
    log.heard notices = (heard { log with verbosity := .loudest } notices).filter
      fun event => event.level ≤ log.verbosity.level event.flag := by
  rw [heard_loudest, heard_eq_filter_events]

/-- A log that wants more of every flag hears more. -/
theorem heard_sublist {louder : Verbosity}
    (wider : ∀ flag, log.verbosity.level flag ≤ louder.level flag) (notices : List Notice) :
    (log.heard notices).Sublist (heard { log with verbosity := louder } notices) := by
  rw [heard_eq_filter_events, heard_eq_filter_events]
  refine List.monotone_filter_right _ fun event wanted => ?_
  rw [decide_eq_true_eq] at wanted ⊢
  exact UInt8.le_trans wanted (wider event.flag)

end Log

end Winnow
