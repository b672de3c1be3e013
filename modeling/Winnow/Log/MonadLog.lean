import Winnow.Log.Event

/-!
# Log calls

A program may ask a log whether it wants messages of a flag and level, write an event to it, and
hand out a trace. `MonadLog` has these three operations. A program that uses no other way to a log
can be run with the log at hand, where each question is answered by the levels of the log at that
moment, and without one.

Programs rarely use the operations themselves. `info` and `debug` ask first and write only what is
wanted.
-/

namespace Winnow

/-- Computations with a log. -/
class MonadLog (m : Type → Type) where
  /-- Asks whether messages of a flag and level are wanted. -/
  wants (flag : Flag) (level : UInt8) : m Bool
  /-- Writes an event, wanted or not. -/
  emit (event : Event) : m Unit
  /-- Hands a trace to whoever collects traces. -/
  dispatch (trace : Trace) : m Unit

namespace MonadLog

variable {m : Type → Type} [Monad m] [MonadLog m]

/-- Writes an event if it is wanted. -/
def offer (event : Event) : m Unit := do
  if ← wants event.flag event.level then
    emit event

/-- Gives an info message if it is wanted. -/
def info (flag : InfoFlag) (level : UInt8) (message : String) : m Unit :=
  offer ⟨.info flag, level, message⟩

/-- Gives a debug message if it is wanted. -/
def debug (flag : DebugFlag) (level : UInt8) (message : String) : m Unit :=
  offer ⟨.debug flag, level, message⟩

/-- Gives a trace. -/
def trace (target : String) (severity : Severity) (message : String) : m Unit :=
  dispatch ⟨target, severity, some message⟩

end MonadLog

end Winnow
