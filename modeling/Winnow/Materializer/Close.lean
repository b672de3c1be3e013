import Winnow.Materializer.Basic

/-!
# Closing a materializer

A materializer is closed in one of two ways. Finalizing reports the folders that are still
held as rejected, in the order of their paths, and gives the totals. Cancelling drops them. A
closed materializer stays as it is: it refuses to observe and to finalize, and cancelling
does not undo a finalization.
-/

namespace Winnow.Materializer

variable {m : Type → Type} [Monad m] [MonadLog m]

/-- The records of the folders that are still held, in the order of their paths. -/
def held (materializer : Materializer) : List Record :=
  materializer.pending.toList.map fun (folder, verdict) => .observed folder true verdict

/-- Reports the folders that no accepted item has claimed and closes the materializer. -/
def finalize (materializer : Materializer) :
    m (Except MaterializerError (List Record × Summary) × Materializer) :=
  match materializer.refusal? .finalize with
  | some error => return (.error error, materializer)
  | none => do
      let flushing := { materializer with stage := .finalizing }
      let counted := (flushing.release).count flushing.held
      let closed := { counted with stage := .done }
      MonadLog.info .stats 1 closed.summary.message
      return (.ok (flushing.held, closed.summary), closed)

/-- Closes the materializer without reporting held folders. Once finalized it stays so. -/
def cancel (materializer : Materializer) : m Materializer := do
  if materializer.stage = .done then
    return materializer
  else
    if !materializer.pending.isEmpty then
      MonadLog.debug .ancestor 1
        ("cancelled with " ++ toString materializer.pending.size ++ " held folders")
    return { materializer.release with stage := .cancelled }

end Winnow.Materializer
