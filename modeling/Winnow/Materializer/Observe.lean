import Winnow.Materializer.Basic

/-!
# Observing items

An accepted item brings out the folders above it that have not been emitted, from the top
down, and then itself. A rejected file is reported at once. A rejected folder is held back,
and a folder that has been emitted already brings out nothing.

For jobs without folders the materializer can be told to pass every item through as it was
decided.
-/

namespace Winnow.Materializer

variable {m : Type → Type} [Monad m] [MonadLog m]

/-- The ancestors of a place that still have to be forwarded, nearest first. Looking stops at
the first emitted one, since a folder is never emitted before the folders above it. -/
def missing (materializer : Materializer) (path : RelPath) : List RelPath :=
  path.ancestors.takeWhile fun ancestor => !materializer.emitted.contains ancestor

/-- Forwards one ancestor. It is synthesized if it is not among the held folders. -/
def forward (materializer : Materializer) (folder : RelPath) : m (Materializer × Record) := do
  let synthesized := !materializer.pending.contains folder
  MonadLog.debug .ancestor 1
    ("forwarding ancestor '" ++ folder.render ++ "'" ++
      if synthesized then " (synthesized)" else "")
  MonadLog.trace "xfer::ancestor" .debug "ancestor_emitted"
  return (materializer.settle folder, .ancestor folder synthesized)

/-- Forwards several ancestors, one after the other. -/
def forwardAll (materializer : Materializer) :
    List RelPath → m (Materializer × List Record)
  | [] => return (materializer, [])
  | folder :: folders => do
      let (next, record) ← materializer.forward folder
      let (last, records) ← next.forwardAll folders
      return (last, record :: records)

/-- The records that a decided item brings about, and the state after it. -/
def place (materializer : Materializer) (item : Item) (verdict : Verdict) :
    m (Materializer × List Record) := do
  let own := Record.observed item.path item.isFolder verdict
  if !materializer.folderAware then
    return (materializer, [own])
  else if item.isFolder && materializer.emitted.contains item.path then
    MonadLog.debug .ancestor 2 ("folder '" ++ item.path.render ++ "' already forwarded")
    return (materializer, [])
  else if verdict.isAccepted then
    let (after, ancestors) ← materializer.forwardAll (materializer.missing item.path).reverse
    return (if item.isFolder then after.settle item.path else after, ancestors ++ [own])
  else if item.isFolder then
    MonadLog.debug .ancestor 2 ("holding rejected folder '" ++ item.path.render ++ "'")
    return (materializer.hold item.path verdict, [])
  else
    return (materializer, [own])

/-- Takes one decided item and gives out the records that are ready. -/
def observe (materializer : Materializer) (item : Item) (verdict : Verdict) :
    m (Except MaterializerError (List Record) × Materializer) :=
  match materializer.refusal? .observe with
  | some error => return (.error error, materializer)
  | none => do
      let (after, records) ← { materializer with stage := .accumulating }.place item verdict
      return (.ok records, after.count records)

@[simp]
theorem value_forwardAll_nil (materializer : Materializer) :
    (materializer.forwardAll []).value = (materializer, []) := rfl

@[simp]
theorem value_forwardAll_cons (materializer : Materializer) (folder : RelPath)
    (folders : List RelPath) :
    (materializer.forwardAll (folder :: folders)).value =
      (((materializer.settle folder).forwardAll folders).value.1,
        .ancestor folder (!materializer.pending.contains folder) ::
          ((materializer.settle folder).forwardAll folders).value.2) := rfl

/-- What placing yields, its notices aside, case by case. -/
theorem value_place (materializer : Materializer) (item : Item) (verdict : Verdict) :
    (materializer.place item verdict).value =
      let own := Record.observed item.path item.isFolder verdict
      let forwarded :=
        (materializer.forwardAll (materializer.missing item.path).reverse).value
      if !materializer.folderAware then (materializer, [own])
      else if item.isFolder && materializer.emitted.contains item.path then (materializer, [])
      else if verdict.isAccepted then
        (if item.isFolder then forwarded.1.settle item.path else forwarded.1,
          forwarded.2 ++ [own])
      else if item.isFolder then (materializer.hold item.path verdict, [])
      else (materializer, [own]) := by
  unfold place
  repeat' split
  all_goals rfl

end Winnow.Materializer
