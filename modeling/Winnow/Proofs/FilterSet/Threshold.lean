import Mathlib.Data.List.TakeWhile
import Winnow.Proofs.FilterSet.Decision
import Winnow.Proofs.Instant.Written

/-!
# Thresholds

A threshold is the instant that its text denotes. `Denotes` puts beside it what is written in the
text, and `readThreshold_denotes` says how the one depends on the other: thresholds with one offset
are ordered as they are written, and another offset moves a threshold by the difference. Decisions
depend on the instant alone, and an earlier one rejects nothing that a later one accepts.
-/

namespace Winnow

open Rfc3339

/-- Blanks around a text are left out with those at its own ends. -/
theorem Text.trim_surrounded {before text after : String}
    (blankBefore : ∀ c ∈ before.toList, isBlank c = true)
    (blankAfter : ∀ c ∈ after.toList, isBlank c = true) :
    trim (before ++ text ++ after) = trim text := by
  have noneAfter : after.toList.dropWhile isBlank = [] := List.dropWhile_eq_nil_iff.2 blankAfter
  have noneAfterReversed : after.toList.reverse.dropWhile isBlank = [] :=
    List.dropWhile_eq_nil_iff.2 fun c member => blankAfter c (List.mem_reverse.1 member)
  rw [trim, trim, String.toList_append, String.toList_append, List.append_assoc,
    List.dropWhile_append_of_pos blankBefore, List.dropWhile_append]
  split
  case isTrue onlyBlanks =>
    rw [noneAfter, List.isEmpty_iff.1 onlyBlanks]
  case isFalse _ =>
    rw [List.reverse_append, List.dropWhile_append, noneAfterReversed]
    rfl

/-- A text is read as a threshold, and a stamp is what is written in it, apart from blanks around
it. -/
structure Denotes (text : String) (stamp : Stamp) (threshold : Instant) : Prop where
  written : Text.trim text = stamp.text
  accepted : readThreshold text = .ok threshold

section Reading

variable {text other : String} {stamp otherStamp : Stamp} {threshold otherThreshold : Instant}

/-- A threshold is what the text denotes without the blanks around it. -/
theorem readThreshold_eq_ok_iff :
    readThreshold text = .ok threshold ↔ parse (Text.trim text) = .ok threshold := by
  rw [readThreshold]
  cases parse (Text.trim text) <;> simp

/-- A text is read as a threshold exactly if a stamp with an instant in the calendar is written in
it. -/
theorem denotes_iff :
    Denotes text stamp threshold ↔
      Text.trim text = stamp.text ∧ stamp.timestamp.instant = .ok threshold := by
  constructor
  · rintro ⟨written, accepted⟩
    rw [readThreshold_eq_ok_iff, written, parse_text] at accepted
    exact ⟨written, accepted⟩
  · rintro ⟨written, denoted⟩
    refine ⟨written, ?_⟩
    rwa [readThreshold_eq_ok_iff, written, parse_text]

/-- Something is written in every text that is accepted. -/
theorem exists_denotes (accepted : readThreshold text = .ok threshold) :
    ∃ stamp, Denotes text stamp threshold := by
  obtain ⟨stamp, written⟩ := exists_stamp_of_parse (readThreshold_eq_ok_iff.1 accepted)
  exact ⟨stamp, written, accepted⟩

namespace Denotes

/-- A stamp without a leap second is on the calendar and the clock, and denotes the threshold. -/
theorem isRegular (denotes : Denotes text stamp threshold) (noLeapSecond : stamp.second.val < 60) :
    stamp.timestamp.IsRegular ∧ stamp.timestamp.toInstant = threshold :=
  (Timestamp.instant_eq_ok_iff noLeapSecond stamp.nanosecond_lt).1 (denotes_iff.1 denotes).2

/-- Thresholds with one offset are ordered as they are written. -/
theorem order (denotes : Denotes text stamp threshold)
    (otherDenotes : Denotes other otherStamp otherThreshold)
    (noLeapSecond : stamp.second.val < 60) (otherNoLeapSecond : otherStamp.second.val < 60)
    (sameOffset : stamp.zone.offset = otherStamp.zone.offset) :
    (threshold < otherThreshold ↔ stamp.fields < otherStamp.fields) ∧
      (threshold = otherThreshold ↔ stamp.fields = otherStamp.fields) := by
  obtain ⟨isRegular, rfl⟩ := denotes.isRegular noLeapSecond
  obtain ⟨otherIsRegular, rfl⟩ := otherDenotes.isRegular otherNoLeapSecond
  exact ⟨Timestamp.toInstant_lt_iff isRegular otherIsRegular sameOffset,
    Timestamp.toInstant_eq_iff isRegular otherIsRegular sameOffset⟩

/-- Another offset moves a threshold by the difference. -/
theorem withZone (denotes : Denotes text stamp threshold) (noLeapSecond : stamp.second.val < 60)
    {zone : Zone} (written : Text.trim other = { stamp with zone }.text) :
    Denotes other { stamp with zone }
      (threshold.plusMinutes (stamp.zone.offset - zone.offset)) := by
  obtain ⟨isRegular, rfl⟩ := denotes.isRegular noLeapSecond
  have otherIsRegular : Timestamp.IsRegular ({ stamp with zone } : Stamp).timestamp :=
    ⟨isRegular.isDate, isRegular.hour, isRegular.minute, isRegular.second, isRegular.nanosecond⟩
  have moved := stamp.timestamp.toInstant_withOffset zone.offset
  exact denotes_iff.2 ⟨written,
    (Timestamp.instant_eq_ok_iff noLeapSecond stamp.nanosecond_lt).2 ⟨otherIsRegular, moved⟩⟩

end Denotes

end Reading

/-- Options with a threshold. -/
def Options.withThreshold (options : Options) (text : String) : Options :=
  { options with includeAfter := some text }

namespace FilterSet

variable {options : Options} {set : FilterSet} {earlyText lateText : String} {early late : Instant}

/-- Options whose thresholds denote one instant compile to the same. -/
theorem outcome_compile_withThreshold (earlyRead : readThreshold earlyText = .ok early)
    (lateRead : readThreshold lateText = .ok early) :
    outcome (compile (options.withThreshold earlyText)) =
      outcome (compile (options.withThreshold lateText)) := by
  have sameThreshold : outcome (compileIncludeAfter (options.withThreshold earlyText)) =
      outcome (compileIncludeAfter (options.withThreshold lateText)) := by
    simp only [outcome_compileIncludeAfter, Options.withThreshold, earlyRead, lateRead]
  rw [outcome_compile, outcome_compile, sameThreshold]
  rfl

/-- Options compile with one threshold if they do with another. -/
theorem exists_compiled_withThreshold
    (compiled : Compiled (options.withThreshold lateText) set)
    (earlyRead : readThreshold earlyText = .ok early) :
    ∃ other, Compiled (options.withThreshold earlyText) other := by
  obtain ⟨operation, recursive, scope, excludePath, excludePattern, includePath, includePattern,
    -⟩ := compiled
  refine ⟨{ set with includeAfter := if options.operation = .copy then some early else none },
    operation, recursive, scope, excludePath, excludePattern, includePath, includePattern, ?_⟩
  simp only [outcome_compileIncludeAfter, Options.withThreshold, earlyRead]
  rfl

/-- What fails a check with an earlier threshold fails it with a later one. -/
theorem fails_withThreshold (earlyRead : readThreshold earlyText = .ok early)
    (lateRead : readThreshold lateText = .ok late) (notLater : ¬late < early) {check : Check}
    {item : Item} (failed : check.Fails (options.withThreshold earlyText) item) :
    check.Fails (options.withThreshold lateText) item := by
  cases check with
  | recursion => exact failed
  | filter kind =>
      cases kind with
      | scope | excludePath | excludePattern | includePath | includePattern => exact failed
      | includeAfter =>
          obtain ⟨copies, text, given, threshold, isRead, notAfter⟩ := failed
          obtain rfl := Option.some.inj given
          rw [earlyRead] at isRead
          obtain rfl := Option.some.inj isRead
          refine ⟨copies, lateText, rfl, late, by rw [lateRead]; rfl, ?_⟩
          exact fun after => notAfter (Int.lt_of_le_of_lt (Int.not_lt.1 notLater) after)

/-- An earlier threshold compiles too, and what is accepted under the later one is accepted under
it. -/
theorem exists_compile_earlier (earlyRead : readThreshold earlyText = .ok early)
    (lateRead : readThreshold lateText = .ok late) (notLater : ¬late < early)
    (compiles : outcome (compile (options.withThreshold lateText)) = .ok set) :
    ∃ other, outcome (compile (options.withThreshold earlyText)) = .ok other ∧
      ∀ item, set.allows item = true → other.allows item = true := by
  have compiled := compile_eq_ok_iff.1 compiles
  obtain ⟨other, otherCompiled⟩ := exists_compiled_withThreshold compiled earlyRead
  refine ⟨other, compile_eq_ok_iff.2 otherCompiled, fun item allowed => ?_⟩
  rw [allows, compiled.isAccepted_decide_iff] at allowed
  rw [allows, otherCompiled.isAccepted_decide_iff]
  exact fun check failed =>
    allowed check (fails_withThreshold earlyRead lateRead notLater failed)

end FilterSet

/-- Thresholds denote instants. Something is written in every text that is accepted; thresholds with
one offset are ordered as their parts are; an offset moves a threshold by exactly its hours and
minutes; and blanks around a text do not matter. So a filter set depends on the instant alone, and
an earlier one accepts no less. -/
theorem readThreshold_denotes :
    (∀ text threshold, readThreshold text = .ok threshold → ∃ stamp, Denotes text stamp threshold) ∧
    (∀ text stamp threshold other otherStamp otherThreshold,
      Denotes text stamp threshold → Denotes other otherStamp otherThreshold →
      stamp.second.val ≤ 59 → otherStamp.second.val ≤ 59 →
      stamp.zone.offset = otherStamp.zone.offset →
        (threshold < otherThreshold ↔ stamp.fields < otherStamp.fields) ∧
        (threshold = otherThreshold ↔ stamp.fields = otherStamp.fields)) ∧
    (∀ text stamp threshold small, Denotes text stamp threshold → stamp.second.val ≤ 59 →
      stamp.zone = .utc small → ∀ (hours : Fin 24) (minutes : Fin 60) other,
        (Text.trim other = { stamp with zone := .ahead hours minutes }.text →
          readThreshold other =
            .ok (threshold.plusMinutes (-(hours.val * 60 + minutes.val)))) ∧
        (Text.trim other = { stamp with zone := .behind hours minutes }.text →
          readThreshold other =
            .ok (threshold.plusMinutes (hours.val * 60 + minutes.val)))) ∧
    (∀ before text after, (∀ c ∈ before.toList, Text.isBlank c = true) →
      (∀ c ∈ after.toList, Text.isBlank c = true) → ∀ threshold,
        readThreshold (before ++ text ++ after) = .ok threshold ↔
          readThreshold text = .ok threshold) ∧
    (∀ text other threshold, readThreshold text = .ok threshold →
      readThreshold other = .ok threshold → ∀ options : Options,
        FilterSet.outcome (FilterSet.compile (options.withThreshold text)) =
          FilterSet.outcome (FilterSet.compile (options.withThreshold other))) ∧
    (∀ earlyText lateText early late, readThreshold earlyText = .ok early →
      readThreshold lateText = .ok late → early < late → ∀ (options : Options) set,
        FilterSet.outcome (FilterSet.compile (options.withThreshold lateText)) = .ok set →
          ∃ other, FilterSet.outcome (FilterSet.compile (options.withThreshold earlyText)) =
            .ok other ∧ ∀ item, set.allows item = true → other.allows item = true) := by
  refine ⟨fun text threshold => exists_denotes, ?order, ?offset, ?blanks, ?sameInstant, ?earlier⟩
  case order =>
    intro text stamp threshold other otherStamp otherThreshold denotes otherDenotes second otherSecond
    exact denotes.order otherDenotes (Nat.lt_succ_of_le second) (Nat.lt_succ_of_le otherSecond)
  case offset =>
    intro text stamp threshold small denotes second utc hours minutes other
    have withZone := @denotes.withZone text other stamp threshold (Nat.lt_succ_of_le second)
    rw [utc] at withZone
    constructor
    · intro written
      have moved := (withZone written).accepted
      rwa [Zone.offset, Zone.offset, Int.zero_sub] at moved
    · intro written
      have moved := (withZone written).accepted
      rwa [Zone.offset, Zone.offset, Int.sub_neg, Int.zero_add] at moved
  case blanks =>
    intro before text after blankBefore blankAfter threshold
    rw [readThreshold_eq_ok_iff, readThreshold_eq_ok_iff,
      Text.trim_surrounded blankBefore blankAfter]
  case sameInstant =>
    intro text other threshold accepted otherAccepted options
    exact FilterSet.outcome_compile_withThreshold accepted otherAccepted
  case earlier =>
    intro earlyText lateText early late earlyRead lateRead before options set compiles
    exact FilterSet.exists_compile_earlier earlyRead lateRead (Int.lt_asymm before) compiles

/-- The offset of a clock that is far ahead moves a threshold to the year before, and to an instant
before 1970. -/
theorem readThreshold_denotes_before_epoch :
    readThreshold "1970-01-01T00:30:00.0000000019Z" = .ok ⟨1800000000001⟩ ∧
      readThreshold "\t1970-01-01T00:30:00.0000000019+23:59 " = .ok ⟨-84539999999999⟩ := by
  let stamp : Stamp :=
    ⟨1970, 1, 1, 'T', 0, 30, 0, [0, 0, 0, 0, 0, 0, 0, 0, 1, 9], .utc false, by decide, by decide⟩
  have denotes : Denotes "1970-01-01T00:30:00.0000000019Z" stamp ⟨1800000000001⟩ :=
    ⟨by decide +kernel, by decide +kernel⟩
  have shifts := readThreshold_denotes.2.2.1 _ stamp _ false denotes (by decide) rfl
  exact ⟨denotes.accepted, (shifts 23 59 _).1 (by decide +kernel)⟩

end Winnow
