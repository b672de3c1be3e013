import Winnow.Log.Logging
import Winnow.Log.Noted
import Winnow.Proofs.Log.Hearing

/-!
# Programs with and without a log

A program can be run with a log at hand or as a value with notices. `Mirrors` relates the two forms
of one program, constructor by constructor: they yield the same values, and make the same calls at
the same places. The only question that such a program puts to a log is the one in front of a
message; one that went on in one way or another with the answer would have no mirror image.

`Mirrors.run_eq` says what the form with a log does. Its value is the value of the other form, so
the log has no say in it; and the log is left as if it had heard the notices of the other form. That
this is so for each call by itself is a matter of the gates (`run_offer`, `run_dispatch`).

The relation also keeps to messages of certain levels, which `Mirrors.hasGrade` gives back.
-/

namespace Winnow

variable {α : Type}

/-- The levels of messages of a flag: from 1 up to that of the highest preset. -/
def Flag.HasGrade (flag : Flag) (level : UInt8) : Prop :=
  1 ≤ level ∧ level ≤ (Verbosity.preset 4).level flag

instance (flag : Flag) (level : UInt8) : Decidable (flag.HasGrade level) :=
  inferInstanceAs (Decidable (_ ∧ _))

namespace Journal

/-- What becomes of a journal whose log hears some notices. -/
def hear (journal : Journal) (notices : List Notice) : Journal :=
  ⟨journal.log.addAll notices, journal.emitted ++ journal.log.heard notices⟩

theorem hear_nil (journal : Journal) : journal.hear [] = journal := by
  simp only [hear, Log.heard, List.filterMap_nil, List.append_nil]
  rfl

/-- What a log has heard does not change what it wants. -/
theorem hear_append (journal : Journal) (earlier later : List Notice) :
    journal.hear (earlier ++ later) = (journal.hear earlier).hear later := by
  have same : (journal.log.addAll earlier).heard later = journal.log.heard later := by
    rw [Log.addAll_eq]
    rfl
  simp only [hear, same, Log.heard_append, List.append_assoc]
  simp only [Log.addAll, List.foldl_append]

/-- One notice is written to the journal or passed over. -/
theorem hear_singleton (journal : Journal) (notice : Notice) :
    journal.hear [notice] =
      match journal.log.wanted? notice with
      | none => journal
      | some event => journal.write event := by
  simp only [hear, Log.addAll, List.foldl_cons, List.foldl_nil, Log.add, Log.heard,
    List.filterMap_cons, List.filterMap_nil]
  cases journal.log.wanted? notice with
  | none => simp only [List.append_nil]
  | some event => rfl

end Journal

namespace Logging

/-- An offered event is written if the levels of the log allow it, and is passed over otherwise. -/
theorem run_offer (event : Event) (journal : Journal) :
    (MonadLog.offer event : Logging Unit).run journal = ((), journal.hear [.event event]) := by
  change (if journal.log.verbosity.wants event.flag event.level then _ else _ : Logging Unit)
    journal = _
  rw [Journal.hear_singleton, Log.wanted?, Notice.event?, Option.filter_some]
  split <;> rfl

/-- A trace is written like any event if traces reach the log and it can make an event of it. -/
theorem run_dispatch (trace : Trace) (journal : Journal) :
    (MonadLog.dispatch trace : Logging Unit).run journal = ((), journal.hear [.trace trace]) := by
  change (if journal.log.tracing then collect trace else _ : Logging Unit) journal = _
  rw [Journal.hear_singleton, Log.wanted?, Notice.event?]
  cases journal.log.tracing with
  | false => rfl
  | true =>
      simp only [if_true, Trace.event?, collect]
      cases trace.flag? with
      | none => rfl
      | some flag =>
          cases trace.message with
          | none =>
              change (if journal.log.verbosity.wants flag trace.severity.level then _ else _ :
                Logging Unit) journal = _
              split <;> rfl
          | some message =>
              have offered := run_offer ⟨flag, trace.severity.level, message⟩ journal
              rw [Journal.hear_singleton] at offered
              exact offered

end Logging

/-- One program in two forms, all of whose messages are given at some grade of their flags. -/
inductive Mirrors : {α : Type} → Logging α → Noted α → Prop where
  /-- Nothing is said. -/
  | pure {α : Type} (value : α) : Mirrors (pure value) (pure value)
  /-- One program after the other, in either form. -/
  | bind {α β : Type} {logging : Logging α} {noted : Noted α} {next : α → Logging β}
      {other : α → Noted β} (first : Mirrors logging noted)
      (rest : ∀ value, Mirrors (next value) (other value)) :
      Mirrors (logging >>= next) (noted >>= other)
  /-- A message is given if it is wanted. -/
  | offer {flag level message} (graded : flag.HasGrade level) :
      Mirrors (MonadLog.offer ⟨flag, level, message⟩) (MonadLog.offer ⟨flag, level, message⟩)
  /-- A trace is given. Its severity is its level. -/
  | dispatch {target severity message flag}
      (flagged : Trace.flag? ⟨target, severity, message⟩ = some flag)
      (graded : flag.HasGrade severity.level) :
      Mirrors (MonadLog.dispatch ⟨target, severity, message⟩)
        (MonadLog.dispatch ⟨target, severity, message⟩)

/-- With a log at hand a program comes to the value of its other form, whatever the log wants, and
the log is left as if it had heard the notices of that form. -/
theorem Mirrors.run_eq {logging : Logging α} {noted : Noted α} (mirrors : Mirrors logging noted)
    (journal : Journal) : logging.run journal = (noted.value, journal.hear noted.notices) := by
  induction mirrors generalizing journal with
  | pure value => rw [Noted.notices_pure, journal.hear_nil]; rfl
  | bind first rest firstHypothesis restHypothesis =>
      rw [StateT.run_bind, firstHypothesis, Noted.notices_bind, journal.hear_append]
      exact restHypothesis _ _
  | offer graded => exact Logging.run_offer _ journal
  | dispatch flagged graded => exact Logging.run_dispatch _ journal

/-- A log at hand ends up like one that is shown the notices afterwards. -/
theorem Mirrors.watch_eq {logging : Logging α} {noted : Noted α} (mirrors : Mirrors logging noted)
    (log : Log) :
    log.watch noted = ((logging.run { log }).1, (logging.run { log }).2.log) := by
  rw [mirrors.run_eq]
  rfl

/-- Every event that may come of a program has a grade. -/
theorem Mirrors.hasGrade {logging : Logging α} {noted : Noted α} (mirrors : Mirrors logging noted)
    {tracing : Bool} {event : Event}
    (given : event ∈ noted.notices.filterMap (Notice.event? tracing)) :
    event.flag.HasGrade event.level := by
  induction mirrors with
  | pure value => cases given
  | bind first rest firstHypothesis restHypothesis =>
      rw [Noted.notices_bind, List.filterMap_append, List.mem_append] at given
      exact given.elim firstHypothesis (restHypothesis _)
  | offer graded =>
      obtain rfl := List.mem_singleton.1 given
      exact graded
  | @dispatch target severity message flag flagged graded =>
      obtain ⟨notice, noticed, becomes⟩ := List.mem_filterMap.1 given
      obtain rfl := List.mem_singleton.1 noticed
      cases tracing with
      | false => cases becomes
      | true =>
          change Trace.event? _ = some event at becomes
          rw [Trace.event?, flagged] at becomes
          cases message with
          | none => cases becomes
          | some text =>
              obtain rfl := Option.some.inj becomes
              exact graded

end Winnow
