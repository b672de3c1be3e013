import Winnow.Materializer.Close
import Winnow.Materializer.Observe

/-!
# Histories of a materializer

Whatever a materializer has been through is a list of calls. Each call is answered, if only by
a refusal, and leads to the next state.
-/

namespace Winnow.Materializer

variable {m : Type → Type} [Monad m] [MonadLog m]

/-- What can be asked of a materializer. -/
inductive Call where
  | observe (item : Item) (verdict : Verdict)
  | finalize
  | cancel
deriving DecidableEq

/-- How a call is answered. -/
inductive Reply where
  | records (records : List Record)
  | totals (records : List Record) (summary : Summary)
  | cancelled
  | refused (error : MaterializerError)
deriving DecidableEq

/-- Answers one call. -/
def answer (materializer : Materializer) : Call → m (Reply × Materializer)
  | .observe item verdict => do
      match ← materializer.observe item verdict with
      | (.error error, after) => return (.refused error, after)
      | (.ok records, after) => return (.records records, after)
  | .finalize => do
      match ← materializer.finalize with
      | (.error error, after) => return (.refused error, after)
      | (.ok (records, summary), after) => return (.totals records summary, after)
  | .cancel => do
      return (.cancelled, ← materializer.cancel)

/-- Answers several calls, one after the other, and gives the state after each of them. -/
def answerAll (materializer : Materializer) :
    List Call → m (List (Reply × Materializer))
  | [] => return []
  | call :: calls => do
      let (reply, after) ← materializer.answer call
      return (reply, after) :: (← after.answerAll calls)

/-- The records that a reply hands out. -/
def Reply.delivered : Reply → List Record
  | .records ready => ready
  | .totals remaining _ => remaining
  | .cancelled | .refused _ => []

end Winnow.Materializer
