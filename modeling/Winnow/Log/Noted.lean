import Winnow.Log.MonadLog

/-!
# Values with notices

`Noted α` is a value together with the notices given while it was computed, in order. There is no
log; whoever asks is told that everything is wanted. Running a program this way gives all that it
may have to say, and a log may choose from that afterwards.
-/

namespace Winnow

/-- A value and the notices given on the way to it. -/
structure Noted (α : Type) where
  value : α
  notices : List Notice := []

namespace Noted

variable {α β : Type}

instance : Monad Noted where
  pure value := ⟨value, []⟩
  bind noted next := ⟨(next noted.value).value, noted.notices ++ (next noted.value).notices⟩

/-- Gives a notice. -/
def note (notice : Notice) : Noted Unit := ⟨(), [notice]⟩

-- Where it is left open how a program is run, it is run without a log.
@[default_instance]
instance : MonadLog Noted where
  wants _ _ := pure true
  emit event := note (.event event)
  dispatch trace := note (.trace trace)

@[simp]
theorem value_pure (value : α) : (pure value : Noted α).value = value := rfl

@[simp]
theorem notices_pure (value : α) : (pure value : Noted α).notices = [] := rfl

@[simp]
theorem value_bind (noted : Noted α) (next : α → Noted β) :
    (noted >>= next).value = (next noted.value).value := rfl

@[simp]
theorem notices_bind (noted : Noted α) (next : α → Noted β) :
    (noted >>= next).notices = noted.notices ++ (next noted.value).notices := rfl

/-- What follows a computation matters for the value that it yields alone. -/
theorem bind_congr_value {noted : Noted α} {next other : α → Noted β}
    (same : next noted.value = other noted.value) : noted >>= next = noted >>= other := by
  simp only [Bind.bind, same]

instance : LawfulMonad Noted := LawfulMonad.mk' Noted
  (by intro α noted; cases noted; simp [Functor.map])
  (by intro α β value next; simp [Bind.bind, pure])
  (by intro α β γ noted next last; simp [Bind.bind, List.append_assoc])

end Noted

end Winnow
