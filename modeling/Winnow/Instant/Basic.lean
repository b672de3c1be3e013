/-!
# Instants

An instant is a whole number of nanoseconds before or after the start of 1970 in UTC. It is
shown as seconds rounded down and the nanoseconds since then.
-/

namespace Winnow

/-- A moment, in nanoseconds since the start of 1970 in UTC. -/
structure Instant where
  nanoseconds : Int
deriving DecidableEq, Inhabited

namespace Instant

/-- Nanoseconds of one second. -/
def perSecond : Nat := 1000000000

/-- The instant some seconds and nanoseconds after the start of 1970. -/
def ofParts (seconds : Int) (nanoseconds : Nat) : Instant :=
  ⟨seconds * perSecond + nanoseconds⟩

/-- The whole seconds, rounded down. -/
def seconds (instant : Instant) : Int := Int.fdiv instant.nanoseconds perSecond

/-- The nanoseconds after the whole seconds. -/
def subsecond (instant : Instant) : Nat := (Int.fmod instant.nanoseconds perSecond).toNat

instance : LT Instant := ⟨fun earlier later => earlier.nanoseconds < later.nanoseconds⟩

instance (earlier later : Instant) : Decidable (earlier < later) :=
  inferInstanceAs (Decidable (earlier.nanoseconds < later.nanoseconds))

theorem lt_def {earlier later : Instant} :
    earlier < later ↔ earlier.nanoseconds < later.nanoseconds := Iff.rfl

/-- The shown parts denote the instant. -/
theorem ofParts_seconds_subsecond (instant : Instant) :
    ofParts instant.seconds instant.subsecond = instant := by
  have parts := Int.mul_fdiv_add_fmod instant.nanoseconds perSecond
  have nonnegative := Int.fmod_nonneg_of_pos instant.nanoseconds (b := perSecond) (by decide)
  cases instant
  simp only [ofParts, seconds, subsecond, Instant.mk.injEq, Int.toNat_of_nonneg nonnegative]
  rw [Int.mul_comm]
  exact parts

end Instant

end Winnow
