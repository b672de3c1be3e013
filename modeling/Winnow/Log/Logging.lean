import Winnow.Log.Buffer
import Winnow.Log.MonadLog

/-!
# Computations with a log at hand

`Logging α` is a computation that has a log at hand. Wherever a message is to be given it looks up
the level that the log has at that moment for the flag of the message, and what is wanted is in the
log before the computation goes on. A trace reaches the log only while tracing is on; its flag is
looked up first, then it is treated like any other message.

The log forgets events when its buffer is full or drained. A journal also remembers everything that
has been written to the log. Nothing here looks at what it remembers.
-/

namespace Winnow

/-- A log, and everything that has been written to it. -/
structure Journal where
  log : Log
  emitted : List Event := []

/-- Writes an event, wanted or not. -/
def Journal.write (journal : Journal) (event : Event) : Journal :=
  ⟨journal.log.emit event, journal.emitted ++ [event]⟩

/-- Computations with a log at hand. -/
abbrev Logging := StateM Journal

namespace Logging

/-- Whether the log, as it is now, wants messages of a flag and level. -/
def wants (flag : Flag) (level : UInt8) : Logging Bool := do
  return (← get).log.verbosity.wants flag level

/-- Writes an event to the log, wanted or not. -/
def emit (event : Event) : Logging Unit :=
  modify (·.write event)

/-- Collects a trace: if the trace is about something known and is wanted, its message becomes an
event. -/
def collect (trace : Trace) : Logging Unit := do
  match trace.flag? with
  | none => return
  | some flag =>
      if ← wants flag trace.severity.level then
        match trace.message with
        | none => return
        | some message => emit ⟨flag, trace.severity.level, message⟩

instance : MonadLog Logging where
  wants := wants
  emit := emit
  dispatch trace := do
    if (← get).log.tracing then
      collect trace

end Logging

end Winnow
