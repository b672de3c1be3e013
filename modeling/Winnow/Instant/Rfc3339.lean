import Winnow.Instant.Basic
import Winnow.Instant.Calendar
import Winnow.Text.Utf8

/-!
# RFC 3339 timestamps

A timestamp is read from left to right as bytes: a date, any one byte, a time with an optional
fraction of a second, and an offset from UTC. Only afterwards are the parts checked against
the calendar. Of the faults that a timestamp has, the first met on this way is reported.

Digits of a fraction beyond the ninth are read over. A leap second is read as the last
nanosecond of the second before it, and allowed only where it ends a month in UTC.
-/

namespace Winnow.Rfc3339

/-- The parts of a timestamp. -/
inductive Component where
  | year
  | month
  | day
  | separator
  | hour
  | minute
  | second
  | subsecond
  | offsetHour
  | offsetMinute
deriving DecidableEq, Repr

/-- The name of a part. -/
def Component.label : Component → String
  | year => "year"
  | month => "month"
  | day => "day"
  | separator => "separator"
  | hour => "hour"
  | minute => "minute"
  | second => "second"
  | subsecond => "subsecond"
  | offsetHour => "offset hour"
  | offsetMinute => "offset minute"

/-- What can be wrong with a timestamp. -/
inductive Fault where
  | unreadable (component : Component)
  | wrongMark
  | outOfRange (component : Component)
  | trailing
deriving DecidableEq, Repr

/-- The wording of a fault. -/
def Fault.message : Fault → String
  | unreadable component => "the '" ++ component.label ++ "' component could not be parsed"
  | wrongMark => "a character literal was not valid"
  | outOfRange component => component.label ++ " was not in range"
  | trailing => "unexpected trailing characters; the end of input was expected"

/-- A timestamp as it is written; the offset from UTC is in minutes. -/
structure Timestamp where
  year : Nat
  month : Nat
  day : Nat
  hour : Nat
  minute : Nat
  second : Nat
  nanosecond : Nat
  offset : Int
deriving DecidableEq

/-- The value of a byte that is a digit. -/
def digit? (byte : UInt8) : Option Nat :=
  if 0x30 ≤ byte ∧ byte ≤ 0x39 then some (byte.toNat - 0x30) else none

/-- Reads exactly `count` digits as a number that starts with the digits of `value`. -/
def readDigits (value : Nat) : Nat → List UInt8 → Option (Nat × List UInt8)
  | 0, bytes => some (value, bytes)
  | _ + 1, [] => none
  | count + 1, byte :: rest => do readDigits (value * 10 + (← digit? byte)) count rest

/-- Reads a part of `count` digits. -/
def readNumber (component : Component) (count : Nat) (bytes : List UInt8) :
    Except Fault (Nat × List UInt8) :=
  match readDigits 0 count bytes with
  | none => .error (.unreadable component)
  | some read => .ok read

/-- Reads one given character of a single byte. -/
def readMark (mark : Char) : List UInt8 → Except Fault (List UInt8)
  | [] => .error .wrongMark
  | byte :: rest => if byte = mark.toUInt8 then .ok rest else .error .wrongMark

/-- The nanoseconds that the digits of a fraction stand for; `unit` is the value of a one in
the place of the first of them, and digits beyond the last place count nothing. -/
def fraction (unit : Nat) : List Nat → Nat
  | [] => 0
  | digit :: digits => digit * unit + fraction (unit / 10) digits

/-- Reads the fraction of a second after its point: all digits that follow, at least one. -/
def readFraction (bytes : List UInt8) : Except Fault (Nat × List UInt8) :=
  let isDigit byte := (digit? byte).isSome
  match (bytes.takeWhile isDigit).filterMap digit? with
  | [] => .error (.unreadable .subsecond)
  | digits => .ok (fraction 100000000 digits, bytes.dropWhile isDigit)

/-- Reads an optional fraction of a second. -/
def readSubsecond : List UInt8 → Except Fault (Nat × List UInt8)
  | byte :: rest => if byte = '.'.toUInt8 then readFraction rest else .ok (0, byte :: rest)
  | [] => .ok (0, [])

/-- Reads the hours and minutes of an offset after its sign. -/
def readOffsetSize (bytes : List UInt8) : Except Fault (Nat × List UInt8) := do
  let (hours, bytes) ← readNumber .offsetHour 2 bytes
  if 23 < hours then throw (.unreadable .offsetHour)
  let bytes ← readMark ':' bytes
  let (minutes, bytes) ← readNumber .offsetMinute 2 bytes
  if 59 < minutes then throw (.outOfRange .offsetMinute)
  return (hours * 60 + minutes, bytes)

/-- Reads an offset: a letter for none, or a signed number of hours and minutes. -/
def readOffset : List UInt8 → Except Fault (Int × List UInt8)
  | [] => .error (.unreadable .offsetHour)
  | byte :: rest =>
      if byte = 'Z'.toUInt8 ∨ byte = 'z'.toUInt8 then .ok (0, rest)
      else if byte = '+'.toUInt8 then do
        let (size, rest) ← readOffsetSize rest
        return (size, rest)
      else if byte = '-'.toUInt8 then do
        let (size, rest) ← readOffsetSize rest
        return (-size, rest)
      else .error (.unreadable .offsetHour)

/-- Reads a month, which is never 0. -/
def readMonth (bytes : List UInt8) : Except Fault (Nat × List UInt8) := do
  let (month, bytes) ← readNumber .month 2 bytes
  if month = 0 then throw (.unreadable .month)
  return (month, bytes)

/-- Reads the byte between date and time, whatever it is. -/
def readSeparator : List UInt8 → Except Fault (List UInt8)
  | [] => .error (.unreadable .separator)
  | _ :: rest => .ok rest

/-- Reads a whole timestamp without checking it against the calendar. -/
def read (text : String) : Except Fault Timestamp := do
  let (year, bytes) ← readNumber .year 4 (Text.Utf8.encode text)
  let bytes ← readMark '-' bytes
  let (month, bytes) ← readMonth bytes
  let bytes ← readMark '-' bytes
  let (day, bytes) ← readNumber .day 2 bytes
  let bytes ← readSeparator bytes
  let (hour, bytes) ← readNumber .hour 2 bytes
  let bytes ← readMark ':' bytes
  let (minute, bytes) ← readNumber .minute 2 bytes
  let bytes ← readMark ':' bytes
  let (second, bytes) ← readNumber .second 2 bytes
  let (nanosecond, bytes) ← readSubsecond bytes
  let (offset, bytes) ← readOffset bytes
  if bytes ≠ [] then throw .trailing
  return { year, month, day, hour, minute, second, nanosecond, offset }

namespace Timestamp

/-- Whether the minute of the timestamp is, in UTC, the last one of a month. The offset moves
the minute by at most one day, and no month has a single day. -/
def endsMonth (timestamp : Timestamp) : Bool :=
  let minute : Int := timestamp.hour * 60 + timestamp.minute - timestamp.offset
  let day : Int := timestamp.day + Int.fdiv minute 1440
  Int.fmod minute 1440 == 1439
    && (day == 0 || day == Calendar.monthLength timestamp.year timestamp.month)

/-- The instant that a timestamp denotes when its parts are in range. -/
def toInstant (timestamp : Timestamp) : Instant :=
  let day : Int :=
    Calendar.dayNumber timestamp.year timestamp.month timestamp.day - Calendar.epochDay
  let minute : Int := day * 1440 + timestamp.hour * 60 + timestamp.minute - timestamp.offset
  .ofParts (minute * 60 + timestamp.second) timestamp.nanosecond

/-- The instant that a timestamp denotes, if the calendar has it. -/
def instant (timestamp : Timestamp) : Except Fault Instant := do
  if 12 < timestamp.month then throw (.outOfRange .month)
  if timestamp.day = 0 ∨ Calendar.monthLength timestamp.year timestamp.month < timestamp.day then
    throw (.outOfRange .day)
  if 23 < timestamp.hour then throw (.outOfRange .hour)
  if 59 < timestamp.minute then throw (.outOfRange .minute)
  if timestamp.second = 60 then
    if timestamp.endsMonth then
      return { timestamp with second := 59, nanosecond := 999999999 }.toInstant
    else throw (.outOfRange .second)
  else if 59 < timestamp.second then throw (.outOfRange .second)
  else return timestamp.toInstant

end Timestamp

/-- The instant that a text denotes. -/
def parse (text : String) : Except Fault Instant := do
  (← read text).instant

end Winnow.Rfc3339
