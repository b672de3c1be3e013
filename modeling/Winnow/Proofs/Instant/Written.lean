import Mathlib.Data.List.TakeDrop
import Winnow.Proofs.EntryList
import Winnow.Proofs.Instant.Order
import Winnow.Proofs.Text.Utf8

/-!
# Written timestamps

A `Stamp` is what is written in a timestamp: numbers of a fixed width, the character between the
date and the time, the digits of a fraction and an offset. A text is read as a timestamp exactly if
it is the text of a stamp (`read_eq_ok_iff`), and the stamp says what is read, without mention of
how.
-/

namespace Winnow.Rfc3339

open Text.Utf8

/-- An offset from UTC as it is written. -/
inductive Zone where
  /-- The letter for no offset, in either case. -/
  | utc (small : Bool)
  /-- Hours and minutes after a plus sign. -/
  | ahead (hours : Fin 24) (minutes : Fin 60)
  /-- Hours and minutes after a minus sign. -/
  | behind (hours : Fin 24) (minutes : Fin 60)
deriving DecidableEq

/-- A timestamp as it is written. The date and the time have any character of a single byte between
them, and a fraction has any number of digits. -/
structure Stamp where
  year : Fin 10000
  month : Fin 100
  day : Fin 100
  separator : Char
  hour : Fin 100
  minute : Fin 100
  second : Fin 100
  fraction : List (Fin 10)
  zone : Zone
  month_ne_zero : month ≠ 0
  separator_ascii : separator.toNat < 0x80

/-- The last digits of a number. -/
def lastDigits (value : Nat) : Nat → List Char
  | 0 => []
  | count + 1 => Nat.digitChar (value / 10 ^ count % 10) :: lastDigits value count

/-- The characters of some digits. -/
def digitChars (digits : List (Fin 10)) : List Char :=
  digits.map fun digit => Nat.digitChar digit.val

/-- A fraction of a second; without digits it has no point. -/
def fractionChars (digits : List (Fin 10)) : List Char :=
  if digits = [] then [] else '.' :: digitChars digits

namespace Zone

/-- Hours and minutes as they are written. -/
def sizeChars (hours : Fin 24) (minutes : Fin 60) : List Char :=
  lastDigits hours 2 ++ ':' :: lastDigits minutes 2

/-- How an offset is written. -/
def chars : Zone → List Char
  | utc false => ['Z']
  | utc true => ['z']
  | ahead hours minutes => '+' :: sizeChars hours minutes
  | behind hours minutes => '-' :: sizeChars hours minutes

/-- The minutes by which clocks are ahead of UTC. -/
def offset : Zone → Int
  | utc _ => 0
  | ahead hours minutes => hours.val * 60 + minutes.val
  | behind hours minutes => -(hours.val * 60 + minutes.val)

end Zone

/-- How a date is written. -/
def dateChars (year month day : Nat) : List Char :=
  lastDigits year 4 ++ '-' :: lastDigits month 2 ++ '-' :: lastDigits day 2

/-- How a time is written, its offset included. -/
def timeChars (hour minute second : Nat) (digits : List (Fin 10)) (zone : Zone) : List Char :=
  lastDigits hour 2 ++ ':' :: lastDigits minute 2 ++ ':' :: lastDigits second 2 ++
    fractionChars digits ++ zone.chars

namespace Stamp

/-- How a timestamp is written. -/
def text (stamp : Stamp) : String :=
  String.ofList (dateChars stamp.year stamp.month stamp.day ++ stamp.separator ::
    timeChars stamp.hour stamp.minute stamp.second stamp.fraction stamp.zone)

/-- The nanoseconds of a timestamp: its first nine digits of a fraction, with zeros for those that
are not written. -/
def nanosecond (stamp : Stamp) : Nat :=
  (stamp.fraction.takeD 9 0).foldl (fun value digit => value * 10 + digit.val) 0

/-- The parts of a timestamp apart from its offset, the largest first. -/
def fields (stamp : Stamp) : List Nat :=
  [stamp.year, stamp.month, stamp.day, stamp.hour, stamp.minute, stamp.second, stamp.nanosecond]

/-- What is read from a timestamp. -/
def timestamp (stamp : Stamp) : Timestamp where
  year := stamp.year
  month := stamp.month
  day := stamp.day
  hour := stamp.hour
  minute := stamp.minute
  second := stamp.second
  nanosecond := stamp.nanosecond
  offset := stamp.zone.offset

end Stamp

section Reading

variable {bytes rest : List UInt8} {byte : UInt8} {value result count : Nat} {chars : List Char}
  {digits : List (Fin 10)} {component : Component}

/-- The bytes of some characters. -/
def bytesOf (chars : List Char) : List UInt8 := chars.flatMap String.utf8EncodeChar

theorem encode_ofList (chars : List Char) : encode (String.ofList chars) = bytesOf chars := by
  rw [encode, String.toList_ofList]
  rfl

theorem bytesOf_append (chars others : List Char) :
    bytesOf (chars ++ others) = bytesOf chars ++ bytesOf others := List.flatMap_append

/-- A character below 0x80 has a single byte. -/
theorem bytesOf_cons {c : Char} (ascii : c.toNat < 0x80) (chars : List Char) :
    bytesOf (c :: chars) = c.toUInt8 :: bytesOf chars := by
  have small : c.utf8Size = 1 := Char.utf8Size_eq_one_iff.2 (Nat.le_of_lt_succ ascii)
  rw [bytesOf, List.flatMap_cons, String.utf8EncodeChar_eq_singleton small]
  rfl

/-- A byte is read as a digit if it is the byte of the digit's character. -/
theorem digit?_eq_some_iff :
    digit? byte = some value ↔ value < 10 ∧ byte = (Nat.digitChar value).toUInt8 := by
  have written : ∀ digit < 10, (Nat.digitChar digit).toUInt8.toNat = digit + 0x30 := by decide
  simp only [digit?, UInt8.le_iff_toNat_le, ← UInt8.toNat_inj, UInt8.toNat_ofNat]
  constructor
  · intro read
    split at read
    · obtain rfl := Option.some.inj read
      rw [written _ (by omega)]
      omega
    · cases read
  · rintro ⟨isDigit, same⟩
    rw [written value isDigit] at same
    rw [if_pos (by omega), same, Nat.add_sub_cancel]

/-- The characters of digits are below 0x80. -/
theorem toNat_digitChar_lt {digit : Nat} (isDigit : digit < 10) :
    (Nat.digitChar digit).toNat < 0x80 := by
  rw [Nat.toNat_digitChar_of_lt_ten isDigit]
  omega

/-- The last digits of a number do not depend on those before them. -/
theorem lastDigits_add (high low count : Nat) :
    lastDigits (high * 10 ^ count + low) count = lastDigits low count := by
  induction count generalizing high with
  | zero => rfl
  | succ count inductionHypothesis =>
      have shifted : high * 10 ^ (count + 1) = high * 10 * 10 ^ count := by ring
      rw [lastDigits, lastDigits, shifted, inductionHypothesis (high * 10), Nat.add_comm,
        Nat.add_mul_div_right _ _ (Nat.pow_pos (by decide)), Nat.add_mul_mod_self_right]

/-- The first of the last digits. -/
theorem lastDigits_succ {digit low : Nat} (isDigit : digit < 10) (bounded : low < 10 ^ count) :
    lastDigits (digit * 10 ^ count + low) (count + 1) =
      Nat.digitChar digit :: lastDigits low count := by
  rw [lastDigits, lastDigits_add, Nat.add_comm, Nat.add_mul_div_right _ _ (Nat.zero_lt_of_lt bounded),
    Nat.div_eq_of_lt bounded, Nat.zero_add, Nat.mod_eq_of_lt isDigit]

/-- Reading a number of digits goes on from what has been read before. -/
theorem readDigits_eq_some_iff :
    readDigits value count bytes = some (result, rest) ↔
      ∃ low < 10 ^ count, result = value * 10 ^ count + low ∧
        bytes = bytesOf (lastDigits low count) ++ rest := by
  induction count generalizing value bytes with
  | zero => simp [readDigits, lastDigits, bytesOf, eq_comm]
  | succ count inductionHypothesis =>
      constructor
      · intro read
        cases bytes with
        | nil => cases read
        | cons byte bytes =>
            obtain ⟨digit, isRead, restRead⟩ := Option.bind_eq_some_iff.1 read
            obtain ⟨isDigit, rfl⟩ := digit?_eq_some_iff.1 isRead
            obtain ⟨low, bounded, rfl, rfl⟩ := inductionHypothesis.1 restRead
            refine ⟨digit * 10 ^ count + low, ?_, by ring, ?_⟩
            · calc
                digit * 10 ^ count + low < (digit + 1) * 10 ^ count := by
                  rw [Nat.succ_mul]
                  exact Nat.add_lt_add_left bounded _
                _ ≤ 10 * 10 ^ count := Nat.mul_le_mul_right _ isDigit
                _ = 10 ^ (count + 1) := (Nat.pow_succ' ..).symm
            · rw [lastDigits_succ isDigit bounded, bytesOf_cons (toNat_digitChar_lt isDigit)]
              rfl
      · rintro ⟨low, bounded, rfl, rfl⟩
        rw [Nat.pow_succ] at bounded
        have isDigit : low / 10 ^ count < 10 := Nat.div_lt_of_lt_mul bounded
        have lowBounded : low % 10 ^ count < 10 ^ count := Nat.mod_lt _ (Nat.pow_pos (by decide))
        have parts := lastDigits_succ isDigit lowBounded
        rw [Nat.div_add_mod'] at parts
        rw [parts, bytesOf_cons (toNat_digitChar_lt isDigit)]
        refine Option.bind_eq_some_iff.2 ⟨_, digit?_eq_some_iff.2 ⟨isDigit, rfl⟩, ?_⟩
        refine inductionHypothesis.2 ⟨_, lowBounded, ?_, rfl⟩
        conv_lhs => rw [← Nat.div_add_mod' low (10 ^ count)]
        ring

/-- A number is read if it is written in so many digits. -/
theorem readNumber_eq_ok_iff :
    readNumber component count bytes = .ok (result, rest) ↔
      result < 10 ^ count ∧ bytes = bytesOf (lastDigits result count) ++ rest := by
  have isRead : readNumber component count bytes = .ok (result, rest) ↔
      readDigits 0 count bytes = some (result, rest) := by
    rw [readNumber]
    cases readDigits 0 count bytes <;> simp
  rw [isRead, readDigits_eq_some_iff]
  simp

/-- A mark is read if it is there. -/
theorem readMark_eq_ok_iff (mark : Char) (ascii : mark.toNat < 0x80) :
    readMark mark bytes = .ok rest ↔ bytes = bytesOf [mark] ++ rest := by
  rw [bytesOf_cons ascii]
  cases bytes with
  | nil => simp [readMark]
  | cons byte bytes =>
      rw [readMark]
      by_cases same : byte = mark.toUInt8
      · simp [same, bytesOf]
      · simp [same]

/-- Any byte is read between date and time. -/
theorem readSeparator_eq_ok_iff :
    readSeparator bytes = .ok rest ↔ ∃ byte, bytes = byte :: rest := by
  cases bytes with
  | nil => simp [readSeparator]
  | cons byte bytes => simp [readSeparator]

/-- A month is read if it is written in two digits and is not 0. -/
theorem readMonth_eq_ok_iff :
    readMonth bytes = .ok (result, rest) ↔
      (result < 100 ∧ result ≠ 0) ∧ bytes = bytesOf (lastDigits result 2) ++ rest := by
  simp only [readMonth, bind_eq_ok, refused_eq_ok_iff, Prod.exists, readNumber_eq_ok_iff]
  constructor
  · rintro ⟨_, _, ⟨bounded, rfl⟩, given, same⟩
    cases same
    exact ⟨⟨bounded, given⟩, rfl⟩
  · rintro ⟨⟨bounded, given⟩, rfl⟩
    exact ⟨_, _, ⟨bounded, rfl⟩, given, rfl⟩

/-- The size of an offset is read if its hours and minutes are written in two digits and belong to
a day. -/
theorem readOffsetSize_eq_ok_iff :
    readOffsetSize bytes = .ok (result, rest) ↔
      ∃ hours minutes, result = Fin.val hours * 60 + Fin.val minutes ∧
        bytes = bytesOf (Zone.sizeChars hours minutes) ++ rest := by
  simp only [readOffsetSize, bind_eq_ok, refused_eq_ok_iff, Prod.exists, readNumber_eq_ok_iff,
    readMark_eq_ok_iff ':' (by decide)]
  constructor
  · rintro ⟨hours, _, ⟨-, rfl⟩, hoursInDay, _, rfl, minutes, _, ⟨-, rfl⟩, minutesInHour, same⟩
    cases same
    refine ⟨⟨hours, by omega⟩, ⟨minutes, by omega⟩, rfl, ?_⟩
    simp [Zone.sizeChars, bytesOf]
  · rintro ⟨hours, minutes, rfl, rfl⟩
    have written : bytesOf (Zone.sizeChars hours minutes) ++ rest =
        bytesOf (lastDigits hours 2) ++ (bytesOf [':'] ++
          (bytesOf (lastDigits minutes 2) ++ rest)) := by
      simp [Zone.sizeChars, bytesOf]
    rw [written]
    exact ⟨_, _, ⟨by omega, rfl⟩, by omega, _, rfl, _, _, ⟨by omega, rfl⟩, by omega, rfl⟩

/-- An offset is read if it is written. -/
theorem readOffset_eq_ok_iff {offset : Int} :
    readOffset bytes = .ok (offset, rest) ↔
      ∃ zone, offset = Zone.offset zone ∧ bytes = bytesOf zone.chars ++ rest := by
  constructor
  · intro read
    cases bytes with
    | nil => cases read
    | cons byte bytes =>
        rw [readOffset] at read
        split at read
        case isTrue letter =>
          cases read
          rcases letter with rfl | rfl
          · exact ⟨.utc false, rfl, rfl⟩
          · exact ⟨.utc true, rfl, rfl⟩
        split at read
        case isTrue plus =>
          obtain ⟨⟨size, after⟩, sizeRead, same⟩ := bind_eq_ok.1 read
          obtain ⟨hours, minutes, rfl, rfl⟩ := readOffsetSize_eq_ok_iff.1 sizeRead
          cases same
          exact ⟨.ahead hours minutes, by simp [Zone.offset], plus ▸ rfl⟩
        split at read
        case isTrue minus =>
          obtain ⟨⟨size, after⟩, sizeRead, same⟩ := bind_eq_ok.1 read
          obtain ⟨hours, minutes, rfl, rfl⟩ := readOffsetSize_eq_ok_iff.1 sizeRead
          cases same
          exact ⟨.behind hours minutes, by simp [Zone.offset], minus ▸ rfl⟩
        cases read
  · rintro ⟨zone, rfl, rfl⟩
    cases zone with
    | utc small => cases small <;> rfl
    | ahead hours minutes =>
        refine bind_eq_ok.2 ⟨_, readOffsetSize_eq_ok_iff.2 ⟨hours, minutes, rfl, rfl⟩, ?_⟩
        simp [Zone.offset]
        rfl
    | behind hours minutes =>
        refine bind_eq_ok.2 ⟨_, readOffsetSize_eq_ok_iff.2 ⟨hours, minutes, rfl, rfl⟩, ?_⟩
        simp [Zone.offset]
        rfl

theorem bytesOf_digitChars_cons (digit : Fin 10) (digits : List (Fin 10)) :
    bytesOf (digitChars (digit :: digits)) =
      (Nat.digitChar digit.val).toUInt8 :: bytesOf (digitChars digits) :=
  bytesOf_cons (toNat_digitChar_lt digit.isLt) _

/-- All bytes are some digits and what follows them. -/
theorem exists_digits (bytes : List UInt8) :
    ∃ digits rest, bytes = bytesOf (digitChars digits) ++ rest ∧
      ∀ byte ∈ rest.head?, digit? byte = none := by
  induction bytes with
  | nil => exact ⟨[], [], rfl, nofun⟩
  | cons byte bytes inductionHypothesis =>
      cases read : digit? byte with
      | none => exact ⟨[], byte :: bytes, rfl, fun first same => Option.some.inj same ▸ read⟩
      | some value =>
          obtain ⟨isDigit, rfl⟩ := digit?_eq_some_iff.1 read
          obtain ⟨digits, rest, rfl, stops⟩ := inductionHypothesis
          refine ⟨⟨value, isDigit⟩ :: digits, rest, ?_, stops⟩
          rw [bytesOf_digitChars_cons]
          rfl

/-- Digits are read as their values. -/
theorem map_digit?_bytesOf (digits : List (Fin 10)) :
    (bytesOf (digitChars digits)).map digit? = digits.map fun digit => some digit.val := by
  induction digits with
  | nil => rfl
  | cons digit digits inductionHypothesis =>
      rw [bytesOf_digitChars_cons, List.map_cons, List.map_cons, inductionHypothesis,
        digit?_eq_some_iff.2 ⟨digit.isLt, rfl⟩]

/-- A fraction is read to the end of its digits, and there has to be one. -/
theorem readFraction_digits (stops : ∀ byte ∈ rest.head?, digit? byte = none) :
    readFraction (bytesOf (digitChars digits) ++ rest) =
      if digits = [] then .error (.unreadable .subsecond)
      else .ok (fraction 100000000 (digits.map Fin.val), rest) := by
  have values := map_digit?_bytesOf digits
  have areDigits : ∀ byte ∈ bytesOf (digitChars digits), (digit? byte).isSome = true := by
    intro byte written
    have read : digit? byte ∈ digits.map fun digit => some digit.val :=
      values ▸ List.mem_map_of_mem written
    obtain ⟨digit, -, same⟩ := List.mem_map.1 read
    rw [← same]
    rfl
  have noneLeft : rest.takeWhile (fun byte => (digit? byte).isSome) = [] ∧
      rest.dropWhile (fun byte => (digit? byte).isSome) = rest := by
    cases rest with
    | nil => exact ⟨rfl, rfl⟩
    | cons byte rest =>
        have notDigit : (digit? byte).isSome = false := by rw [stops byte rfl]; rfl
        simp [notDigit]
  have valuesRead : (bytesOf (digitChars digits)).filterMap digit? = digits.map Fin.val := by
    have filtered := congrArg (List.filterMap id) values
    rw [List.filterMap_map, List.filterMap_map] at filtered
    simpa using filtered
  rw [readFraction, List.takeWhile_append_of_pos areDigits, List.dropWhile_append_of_pos areDigits,
    noneLeft.1, noneLeft.2, List.append_nil, valuesRead]
  cases digits with
  | nil => rfl
  | cons digit digits => rfl

/-- The fraction that has been read is written before what is left. -/
theorem exists_fraction_of_readSubsecond (read : readSubsecond bytes = .ok (result, rest)) :
    ∃ digits : List (Fin 10), result = fraction 100000000 (digits.map Fin.val) ∧
      bytes = bytesOf (fractionChars digits) ++ rest := by
  cases bytes with
  | nil =>
      cases read
      exact ⟨[], rfl, rfl⟩
  | cons byte bytes =>
      rw [readSubsecond] at read
      split at read
      case isTrue point =>
        obtain ⟨digits, after, rfl, stops⟩ := exists_digits bytes
        rw [readFraction_digits stops] at read
        split at read
        · cases read
        case isFalse some =>
          cases read
          refine ⟨digits, rfl, ?_⟩
          rw [fractionChars, if_neg some, bytesOf_cons (by decide), point]
          rfl
      · cases read
        exact ⟨[], rfl, rfl⟩

/-- A fraction is read if neither a digit nor another point follows it. -/
theorem readSubsecond_fraction (digits : List (Fin 10))
    (stops : ∀ byte ∈ rest.head?, digit? byte = none ∧ byte ≠ '.'.toUInt8) :
    readSubsecond (bytesOf (fractionChars digits) ++ rest) =
      .ok (fraction 100000000 (digits.map Fin.val), rest) := by
  rw [fractionChars]
  split
  case isTrue none =>
    subst none
    cases rest with
    | nil => rfl
    | cons byte rest => exact if_neg (stops byte rfl).2
  case isFalse some =>
    have read := @readFraction_digits rest digits fun byte first => (stops byte first).1
    rw [if_neg some] at read
    rw [bytesOf_cons (by decide)]
    exact read

/-- What an offset starts with does not belong to a fraction before it. -/
theorem stops_zone (zone : Zone) :
    ∀ byte ∈ (bytesOf zone.chars).head?, digit? byte = none ∧ byte ≠ '.'.toUInt8 := by
  have starts : ∃ mark, (bytesOf zone.chars).head? = some mark ∧ digit? mark = none ∧
      mark ≠ '.'.toUInt8 := by
    cases zone with
    | utc small =>
        cases small with
        | false => exact ⟨'Z'.toUInt8, rfl, by decide⟩
        | true => exact ⟨'z'.toUInt8, rfl, by decide⟩
    | ahead hours minutes => exact ⟨'+'.toUInt8, rfl, by decide⟩
    | behind hours minutes => exact ⟨'-'.toUInt8, rfl, by decide⟩
  obtain ⟨mark, first, stops⟩ := starts
  intro byte same
  rw [first] at same
  exact Option.some.inj same ▸ stops

end Reading

/-- Digits below the last place count nothing. -/
theorem fraction_zero (digits : List Nat) : fraction 0 digits = 0 := by
  induction digits with
  | nil => rfl
  | cons digit digits inductionHypothesis => simp [fraction, inductionHypothesis]

/-- The first digits of a fraction make up a number, and digits that are not written are zeros. -/
theorem foldl_takeD (digits : List (Fin 10)) (value count : Nat) :
    (digits.takeD count 0).foldl (fun value digit => value * 10 + digit.val) value =
      value * 10 ^ count + fraction (10 ^ count / 10) (digits.map Fin.val) := by
  induction count generalizing digits value with
  | zero => simp [fraction_zero]
  | succ count inductionHypothesis =>
      have unit : 10 ^ (count + 1) / 10 = 10 ^ count := Nat.mul_div_cancel _ (by decide)
      rw [unit]
      cases digits with
      | nil =>
          rw [List.takeD_succ, List.foldl_cons, List.tail_nil, inductionHypothesis]
          simp [fraction]
          ring
      | cons digit digits =>
          rw [List.takeD_succ, List.foldl_cons, List.tail_cons, inductionHypothesis]
          simp [fraction]
          ring

/-- A number is below the next one of as many digits. -/
theorem foldl_digits_lt (digits : List (Fin 10)) (value : Nat) :
    digits.foldl (fun value digit => value * 10 + digit.val) value <
      (value + 1) * 10 ^ digits.length := by
  induction digits generalizing value with
  | nil => simp
  | cons digit digits inductionHypothesis =>
      calc
        _ < (value * 10 + digit.val + 1) * 10 ^ digits.length := inductionHypothesis _
        _ ≤ (value + 1) * 10 * 10 ^ digits.length := Nat.mul_le_mul_right _ (by omega)
        _ = (value + 1) * 10 ^ (digits.length + 1) := by ring

namespace Stamp

/-- The nanoseconds of a stamp are those that are read. -/
theorem fraction_eq_nanosecond (stamp : Stamp) :
    Rfc3339.fraction 100000000 (stamp.fraction.map Fin.val) = stamp.nanosecond := by
  have value := foldl_takeD stamp.fraction 0 9
  rw [Nat.zero_mul, Nat.zero_add] at value
  exact value.symm

/-- The nanoseconds of a stamp are fewer than a second has. -/
theorem nanosecond_lt (stamp : Stamp) : stamp.nanosecond < 1000000000 := by
  have bound := foldl_digits_lt (stamp.fraction.takeD 9 0) 0
  rwa [List.takeD_length] at bound

/-- The bytes of a stamp. -/
theorem encode_text (stamp : Stamp) :
    encode stamp.text = bytesOf (dateChars stamp.year stamp.month stamp.day) ++
      stamp.separator.toUInt8 ::
        bytesOf (timeChars stamp.hour stamp.minute stamp.second stamp.fraction stamp.zone) := by
  rw [text, encode_ofList, bytesOf_append, bytesOf_cons stamp.separator_ascii]

end Stamp

/-- The bytes of a date, part by part. -/
theorem bytesOf_dateChars (year month day : Nat) (rest : List UInt8) :
    bytesOf (dateChars year month day) ++ rest =
      bytesOf (lastDigits year 4) ++ (bytesOf ['-'] ++ (bytesOf (lastDigits month 2) ++
        (bytesOf ['-'] ++ (bytesOf (lastDigits day 2) ++ rest)))) := by
  simp [dateChars, bytesOf]

/-- The bytes of a time, part by part. -/
theorem bytesOf_timeChars (hour minute second : Nat) (digits : List (Fin 10)) (zone : Zone) :
    bytesOf (timeChars hour minute second digits zone) =
      bytesOf (lastDigits hour 2) ++ (bytesOf [':'] ++ (bytesOf (lastDigits minute 2) ++
        (bytesOf [':'] ++ (bytesOf (lastDigits second 2) ++ (bytesOf (fractionChars digits) ++
          bytesOf zone.chars))))) := by
  simp [timeChars, bytesOf]

/-- A text is read exactly if it is the text of a stamp. -/
theorem read_eq_ok_iff {text : String} {timestamp : Timestamp} :
    read text = .ok timestamp ↔ ∃ stamp : Stamp, text = stamp.text ∧ timestamp = stamp.timestamp := by
  simp only [read, bind_eq_ok, refused_eq_ok_iff, Prod.exists, readNumber_eq_ok_iff,
    readMark_eq_ok_iff '-' (by decide), readMark_eq_ok_iff ':' (by decide), readMonth_eq_ok_iff,
    readSeparator_eq_ok_iff, readOffset_eq_ok_iff]
  constructor
  · rintro ⟨year, _, ⟨yearBound, written⟩, _, rfl, month, _, ⟨⟨monthBound, monthGiven⟩, rfl⟩, _, rfl,
      day, _, ⟨dayBound, rfl⟩, _, ⟨byte, rfl⟩, hour, _, ⟨hourBound, rfl⟩, _, rfl, minute, _,
      ⟨minuteBound, rfl⟩, _, rfl, second, _, ⟨secondBound, rfl⟩, nanosecond, _, subsecond, offset, _,
      ⟨zone, rfl, rfl⟩, ended, same⟩
    obtain rfl := not_not.1 ended
    rw [List.append_nil] at subsecond
    obtain ⟨digits, rfl, rfl⟩ := exists_fraction_of_readSubsecond subsecond
    rw [← bytesOf_timeChars, ← bytesOf_dateChars] at written
    -- Whole characters stand on both sides of the separator, so its byte is a character too.
    have cut := written
    rw [← encode_ofList, ← encode_ofList] at cut
    obtain ⟨separator, ascii, rfl⟩ := exists_ascii_of_encode_eq cut
    let stamp : Stamp :=
      ⟨⟨year, yearBound⟩, ⟨month, monthBound⟩, ⟨day, dayBound⟩, separator, ⟨hour, hourBound⟩,
        ⟨minute, minuteBound⟩, ⟨second, secondBound⟩, digits, zone,
        fun isZero => monthGiven (congrArg Fin.val isZero), ascii⟩
    refine ⟨stamp, encode_injective (written.trans stamp.encode_text.symm), ?_⟩
    rw [← Except.ok.inj same, Stamp.timestamp, ← stamp.fraction_eq_nanosecond]
  · rintro ⟨stamp, rfl, rfl⟩
    have subsecond := readSubsecond_fraction stamp.fraction (stops_zone stamp.zone)
    have given : stamp.month.val ≠ 0 := fun isZero => stamp.month_ne_zero (Fin.ext isZero)
    rw [stamp.encode_text, bytesOf_dateChars, bytesOf_timeChars]
    refine ⟨_, _, ⟨stamp.year.isLt, rfl⟩, _, rfl, _, _, ⟨⟨stamp.month.isLt, given⟩, rfl⟩, _, rfl,
      _, _, ⟨stamp.day.isLt, rfl⟩, _, ⟨_, rfl⟩, _, _, ⟨stamp.hour.isLt, rfl⟩, _, rfl,
      _, _, ⟨stamp.minute.isLt, rfl⟩, _, rfl, _, _, ⟨stamp.second.isLt, rfl⟩, _, _, subsecond,
      _, [], ⟨stamp.zone, rfl, (List.append_nil _).symm⟩, not_not.2 rfl, ?_⟩
    rw [stamp.fraction_eq_nanosecond]
    rfl

namespace Timestamp

variable {timestamp : Timestamp} {instant : Instant}

/-- A timestamp without a leap second denotes an instant if its date is in the calendar and its time
on the clock. -/
theorem instant_eq_ok_iff (noLeapSecond : timestamp.second < 60)
    (nanosecond : timestamp.nanosecond < 1000000000) :
    timestamp.instant = .ok instant ↔ timestamp.IsRegular ∧ timestamp.toInstant = instant := by
  have isRegular : timestamp.IsRegular ↔ ¬12 < timestamp.month ∧
      ¬(timestamp.day = 0 ∨ Calendar.monthLength timestamp.year timestamp.month < timestamp.day) ∧
        ¬23 < timestamp.hour ∧ ¬59 < timestamp.minute := by
    constructor
    · rintro ⟨⟨month, dayPos, day⟩, hour, minute, -, -⟩
      omega
    · rintro ⟨month, day, hour, minute⟩
      exact ⟨⟨by omega, by omega, by omega⟩, by omega, by omega, noLeapSecond, nanosecond⟩
  have notSixty : timestamp.second ≠ 60 := Nat.ne_of_lt noLeapSecond
  have notMore : ¬59 < timestamp.second := by omega
  have denoted : (pure timestamp.toInstant : Except Fault Instant) = .ok instant ↔
      timestamp.toInstant = instant := ⟨Except.ok.inj, congrArg Except.ok⟩
  simp only [Timestamp.instant, notSixty, notMore, if_false, refused_eq_ok_iff, isRegular, and_assoc,
    denoted]

end Timestamp

/-- The text of a stamp denotes what the stamp does. -/
theorem parse_text (stamp : Stamp) : parse stamp.text = stamp.timestamp.instant := by
  rw [parse, read_eq_ok_iff.2 ⟨stamp, rfl, rfl⟩]
  rfl

/-- Only the text of a stamp denotes an instant. -/
theorem exists_stamp_of_parse {text : String} {instant : Instant}
    (denotes : parse text = .ok instant) : ∃ stamp : Stamp, text = stamp.text := by
  obtain ⟨timestamp, isRead, -⟩ := bind_eq_ok.1 denotes
  obtain ⟨stamp, same, -⟩ := read_eq_ok_iff.1 isRead
  exact ⟨stamp, same⟩

end Winnow.Rfc3339
