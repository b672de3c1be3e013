import Winnow.Log.Verbosity

/-!
# Events and notices

An event is a message of some flag and level, and a trace is a message of some severity from a
named target. The last part of the target's name says what the trace is about; traces about
anything unknown are passed over. A notice is an event or a trace that a computation would have a
log hear, whether or not the log wants it.
-/

namespace Winnow

/-- A message of the log. -/
structure Event where
  flag : Flag
  level : UInt8
  message : String
deriving DecidableEq

/-- How serious a trace is. -/
inductive Severity where
  | error
  | warn
  | info
  | debug
  | trace
deriving DecidableEq, Repr

namespace Severity

/-- The level that a trace of this severity has in the log. -/
def level : Severity → UInt8
  | error | warn | info => 1
  | debug => 2
  | trace => 3

/-- Whether a trace of this severity may be a debug message. -/
def isDebug : Severity → Bool
  | error | warn | info => false
  | debug | trace => true

end Severity

/-- A structured message from a named part of a program. -/
structure Trace where
  target : String
  severity : Severity
  message : Option String
deriving DecidableEq

namespace Trace

/-- What follows the last pair of colons, or `found` if there is none. -/
def afterLastColons (found : List Char) : List Char → List Char
  | ':' :: ':' :: rest => afterLastColons rest (':' :: rest)
  | _ :: rest => afterLastColons found rest
  | [] => found

/-- The last part of a target's name. -/
def subsystem (target : String) : String :=
  String.ofList (afterLastColons target.toList target.toList)

/-- The info flag for traces about a subsystem. -/
def infoFlag? : String → Option InfoFlag
  | "filter" => some .filter
  | "enum" | "enumerate" => some .enumerate
  | "remove" => some .remove
  | "stats" => some .stats
  | _ => none

/-- The debug flag for traces about a subsystem. -/
def debugFlag? : String → Option DebugFlag
  | "filter" => some .filter
  | "enum" | "enumerate" => some .enumerate
  | "ancestor" => some .ancestor
  | "scope" => some .scope
  | _ => none

/-- The flag that decides whether a trace is wanted. A trace of low severity belongs to the
debug family if its subsystem has a debug flag; all other traces belong to the info family. -/
def flag? (trace : Trace) : Option Flag :=
  let name := subsystem trace.target
  match (if trace.severity.isDebug then debugFlag? name else none) with
  | some flag => some (.debug flag)
  | none => (infoFlag? name).map .info

/-- The event that a trace becomes, if it is about something known and has a message. -/
def event? (trace : Trace) : Option Event := do
  return ⟨← trace.flag?, trace.severity.level, ← trace.message⟩

end Trace

/-- What a computation has to say on its way. -/
inductive Notice where
  | event (event : Event)
  | trace (trace : Trace)
deriving DecidableEq

namespace Notice

/-- The event that a notice becomes; traces count only while `tracing`. -/
def event? (tracing : Bool) : Notice → Option Event
  | .event plain => some plain
  | .trace structured => if tracing then structured.event? else none

end Notice

end Winnow
