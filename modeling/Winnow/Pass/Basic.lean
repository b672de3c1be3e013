import Winnow.FilterSet.Basic
import Winnow.Materializer.Close
import Winnow.Materializer.Observe

/-!
# Passes

A pass takes the items of one enumeration through a filter set and a materializer. Before
every item and before the final flush it looks at its cancellation token; once the token has
fired every further call fails in the same way, with the number of items processed before.

Removals never forward ancestors, whatever they are told: a removal acts on every accepted
folder, so only items that are accepted themselves may be.
-/

namespace Winnow

/-- Why a pass stops. -/
inductive PassError where
  | cancelled (processed : Nat)
  | materializer (error : MaterializerError)
deriving DecidableEq, Repr

/-- The wording of an error. -/
def PassError.message : PassError → String
  | cancelled processed => "filter pass cancelled after " ++ toString processed ++ " items"
  | materializer error => error.message

/-- The state of a pass. The token says whether cancellation has been asked for. -/
structure Pass where
  set : FilterSet
  materializer : Materializer
  token : Bool := false
  processed : Nat := 0

namespace Pass

variable {m : Type → Type} [Monad m] [MonadLog m]

/-- A fresh pass. -/
def new (set : FilterSet) (folderAware : Bool := true) (token : Bool := false) : m Pass := do
  if set.operation = .remove ∧ folderAware then
    MonadLog.debug .ancestor 1 "ancestor forwarding disabled for remove"
    return { set, materializer := { folderAware := false }, token }
  else
    return { set, materializer := { folderAware }, token }

/-- Asks for cancellation. -/
def fire (pass : Pass) : Pass := { pass with token := true }

/-- Looks at the token; if it has fired, the materializer is cancelled. -/
def checkToken (pass : Pass) : m (Option PassError × Pass) := do
  if pass.token then
    let cancelled ← pass.materializer.cancel
    let error := PassError.cancelled pass.processed
    MonadLog.info .filter 1 error.message
    return (some error, { pass with materializer := cancelled })
  else
    return (none, pass)

/-- Notes what has been decided about an item. -/
def noteVerdict (item : Item) (verdict : Verdict) : m Unit :=
  let subject := contentWord item.isFolder ++ " '" ++ item.path.render ++ "' "
  match verdict with
  | .rejected .outOfScope => MonadLog.debug .scope 1 (subject ++ "outside removal scope")
  | .rejected _ => MonadLog.info .filter 2 (subject ++ verdict.message)
  | .accepted _ => MonadLog.debug .filter 1 (subject ++ verdict.message)

/-- Hands a decided item on to the materializer. -/
def process (pass : Pass) (item : Item) (verdict : Verdict) :
    m (Except PassError (List Record) × Pass) := do
  noteVerdict item verdict
  MonadLog.trace "xfer::filter" .trace "item_decision"
  let (result, materializer) ← pass.materializer.observe item verdict
  return (result.mapError .materializer,
    { pass with materializer, processed := pass.processed + 1 })

/-- Decides about one item and gives out the records that are ready. -/
def push (pass : Pass) (item : Item) : m (Except PassError (List Record) × Pass) := do
  match ← pass.checkToken with
  | (some error, stopped) => return (.error error, stopped)
  | (none, pass) => pass.process item (pass.set.decide item)

/-- Reports the folders that are still held and gives the totals. -/
def finish (pass : Pass) : m (Except PassError (List Record × Summary) × Pass) := do
  match ← pass.checkToken with
  | (some error, stopped) => return (.error error, stopped)
  | (none, pass) =>
      let (result, materializer) ← pass.materializer.finalize
      let closed := { pass with materializer }
      match result with
      | .error error => return (.error (.materializer error), closed)
      | .ok totals =>
          MonadLog.trace "xfer::stats" .info "pass_summary"
          return (.ok totals, closed)

end Pass

end Winnow
