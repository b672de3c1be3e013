import Winnow.Proofs.Pass.Job

/-!
# The levels of a job

A job with a log at hand asks it before every message what it wants. `noninterference_job` says
that the answers matter to nothing but the log: what the job comes to is the same whatever the log
wants and has kept, and what is written to the log is what would be written if it wanted everything,
as far as the levels of the flags allow.

The levels at which a job speaks are few. None has the level 0, so a log that has not been told what
it wants is left as it was, and none is above the levels of the highest preset, which therefore lets
through as much as any levels can.
-/

namespace Winnow.Pass

variable (options : Options) (folderAware token : Bool) (sink : Sink) (items : List Item)

/-- What a job comes to does not depend on the log, nor on what the log has kept before. Of the
events that would be written with the highest levels those are written whose level the log allows
for their flag. They go into the buffer of the log one by one, and it stays otherwise as it was. -/
theorem noninterference_job (levels others : Verbosity) (tracing otherTracing : Bool)
    (buffer otherBuffer : EventBuffer) :
    let job : Logging (Except FilterError (Outcome PassError)) :=
      job options folderAware token sink items
    let log : Log := ⟨levels, tracing, buffer⟩
    let other : Log := ⟨others, otherTracing, otherBuffer⟩
    let loudest : Log := ⟨.loudest, tracing, buffer⟩
    (job.run { log }).1 = (job.run { log := other }).1 ∧
      (job.run { log }).2.emitted = (job.run { log := loudest }).2.emitted.filter
        (fun event => event.level ≤ levels.level event.flag) ∧
      (job.run { log }).2.log =
        { log with buffer := buffer.pushAll (job.run { log }).2.emitted } := by
  intro job log other loudest
  have mirrors := mirrors_job options folderAware token sink items
  refine ⟨?_, ?_, ?_⟩
  · rw [mirrors.run_eq, mirrors.run_eq]
  · rw [mirrors.run_eq, mirrors.run_eq]
    exact Log.heard_eq_filter log _
  · rw [mirrors.run_eq]
    exact Log.addAll_eq log _

/-- A log that wants nothing but messages about ancestors gets two about a forwarded folder, the
second one from a trace. -/
example :
    let log : Log := { verbosity := { debug := { ancestor := 2 } }, tracing := true }
    let options : Options := { recursive := true, excludePath := some "b" }
    let job : Logging (Except FilterError (Outcome PassError)) :=
      job options true false .patient [⟨.parse "a/b", .file 1, ⟨0⟩⟩]
    (job.run { log }).2.emitted.map (·.message) =
      ["forwarding ancestor 'a' (synthesized)", "ancestor_emitted"] := by
  decide +kernel

/-- A log that was empty keeps the newest of what a job writes, and all of it if there is room. -/
theorem buffer_job_of_empty (levels : Verbosity) (tracing : Bool) :
    let job : Logging (Except FilterError (Outcome PassError)) :=
      job options folderAware token sink items
    let after := (job.run { log := ⟨levels, tracing, {}⟩ }).2
    after.log.buffer = .ofHistory after.emitted ∧
      (after.emitted.length ≤ EventBuffer.capacity → after.log.buffer = ⟨after.emitted, 0⟩) := by
  intro job after
  have kept : after.log.buffer = .ofHistory after.emitted := by
    simp only [after, job, (mirrors_job options folderAware token sink items).run_eq, Journal.hear,
      Log.addAll_eq]
    exact EventBuffer.pushAll_ofHistory [] _
  exact ⟨kept, fun room => kept.trans (EventBuffer.ofHistory_of_le room)⟩

/-- A log that has not been told what it wants is left as it was. -/
theorem run_job_of_default (log : Log) (silent : log.verbosity = {}) :
    ((job options folderAware token sink items : Logging _).run { log }).2 = { log } := by
  have mirrors := mirrors_job options folderAware token sink items
  rw [mirrors.run_eq]
  have nothing : log.heard (job options folderAware token sink items : Noted _).notices = [] := by
    rw [Log.heard_eq_filter_events, List.filter_eq_nil_iff]
    intro event given wanted
    have positive := (mirrors.hasGrade given).1
    have lowest : log.verbosity.level event.flag = 0 := by
      rw [silent]
      cases event.flag with
      | info flag => cases flag <;> rfl
      | debug flag => cases flag <;> rfl
    rw [decide_eq_true_eq, lowest] at wanted
    exact absurd (UInt8.le_trans positive wanted) (by decide)
  simp only [Journal.hear, Log.addAll_eq, nothing]
  rfl

/-- The highest preset lets through as much of a job as any levels can. -/
theorem emitted_job_of_preset_four (tracing : Bool) (buffer : EventBuffer) :
    let job : Logging (Except FilterError (Outcome PassError)) :=
      job options folderAware token sink items
    (job.run { log := ⟨.preset 4, tracing, buffer⟩ }).2.emitted =
      (job.run { log := ⟨.loudest, tracing, buffer⟩ }).2.emitted := by
  intro job
  have mirrors := mirrors_job options folderAware token sink items
  rw [mirrors.run_eq, mirrors.run_eq]
  dsimp only [Journal.hear]
  rw [Log.heard_eq_filter, List.filter_eq_self.2]
  intro event given
  rw [Log.heard_loudest] at given
  exact decide_eq_true (mirrors.hasGrade given).2

end Winnow.Pass
