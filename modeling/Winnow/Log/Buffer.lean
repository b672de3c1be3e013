import Winnow.Log.Noted
import Winnow.Log.Token

/-!
# The log

A log keeps the events that its verbosity wants, oldest first, up to a fixed number. When it
is full each new event displaces the oldest one, which is counted as dropped. Draining the log
hands out its events and forgets both them and the count.
-/

namespace Winnow

/-- Events kept between two drains. -/
structure EventBuffer where
  events : List Event := []
  dropped : Nat := 0
deriving DecidableEq

namespace EventBuffer

/-- The most events that are kept. -/
def capacity : Nat := 4096

/-- Adds an event, at the cost of the oldest one if there is no room. -/
def push (buffer : EventBuffer) (event : Event) : EventBuffer :=
  if buffer.events.length < capacity then
    { buffer with events := buffer.events ++ [event] }
  else
    { events := buffer.events.tail ++ [event], dropped := buffer.dropped + 1 }

/-- A buffer never holds more than its capacity. -/
theorem length_push_le {buffer : EventBuffer} (event : Event)
    (bounded : buffer.events.length ≤ capacity) :
    (buffer.push event).events.length ≤ capacity := by
  unfold push
  split
  · simpa using by omega
  · have positive : 0 < capacity := by decide
    simp only [List.length_append, List.length_tail, List.length_singleton]
    omega

/-- Hands out the events and leaves nothing behind. -/
def drain (buffer : EventBuffer) : List Event × EventBuffer :=
  (buffer.events, {})

end EventBuffer

/-- A log: what it wants, whether traces reach it, and what it has kept. -/
structure Log where
  verbosity : Verbosity := {}
  tracing : Bool := false
  buffer : EventBuffer := {}

namespace Log

/-- Keeps an event, wanted or not. -/
def emit (log : Log) (event : Event) : Log :=
  { log with buffer := log.buffer.push event }

/-- The event that a notice becomes in this log, if it is wanted. -/
def wanted? (log : Log) (notice : Notice) : Option Event :=
  (notice.event? log.tracing).filter fun event => log.verbosity.wants event.flag event.level

/-- Keeps what is wanted of a notice. -/
def add (log : Log) (notice : Notice) : Log :=
  match log.wanted? notice with
  | none => log
  | some event => log.emit event

/-- Keeps what is wanted of several notices. -/
def addAll (log : Log) (notices : List Notice) : Log :=
  notices.foldl add log

/-- What a computation yields while the log keeps what it wants of the notices. -/
def watch {α : Type} (log : Log) (noted : Noted α) : α × Log :=
  (noted.value, log.addAll noted.notices)

/-- Hands out the kept events. -/
def drain (log : Log) : List Event × Log :=
  (log.buffer.drain.1, { log with buffer := log.buffer.drain.2 })

/-- Adjusts the verbosity by a flag token; a bad token leaves the log as it is. -/
def apply (log : Log) (family : Family) (token : String) : Except TokenError Log :=
  match log.verbosity.apply family token with
  | .error error => .error error
  | .ok verbosity => .ok { log with verbosity := verbosity }

end Log

end Winnow
