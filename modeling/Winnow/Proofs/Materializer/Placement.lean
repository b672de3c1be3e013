import Mathlib.Data.List.Nodup
import Winnow.Materializer.Observe
import Winnow.Proofs.Materializer.History

/-!
# What observing does

`Placement` lists everything that a folder-aware materializer can do with one decided item: the
records that come out, and what becomes of the emitted and of the held folders. It is the only
description of a step that proofs about whole histories use; `placement_of_observe` derives it
from the definition.

Outside the two stores an observation counts its records and changes nothing else, whether or
not the materializer is folder-aware (`Frame`). One that is not leaves the stores alone as well.
-/

namespace Winnow.Materializer

variable {materializer before after : Materializer} {item : Item} {verdict : Verdict}
  {records : List Record} {folders : List RelPath} {path : RelPath}

/-- A materializer that has been neither finalized nor cancelled. -/
def IsOpen (materializer : Materializer) : Prop :=
  materializer.stage = .idle ∨ materializer.stage = .accumulating

/-- A fresh materializer is open. -/
theorem isOpen_fresh (folderAware : Bool) : IsOpen { folderAware } := .inl rfl

/-- An open materializer refuses nothing. -/
theorem refusal?_eq_none (isOpen : materializer.IsOpen) (request : Request) :
    materializer.refusal? request = none := by
  rcases isOpen with idle | accumulating
  · rw [refusal?, idle]
  · rw [refusal?, accumulating]

/-- Only an open materializer does not refuse. -/
theorem isOpen_of_refusal?_eq_none {request : Request}
    (allowed : materializer.refusal? request = none) : materializer.IsOpen := by
  unfold refusal? at allowed
  unfold IsOpen
  cases reached : materializer.stage <;> simp_all

/-- What an observation leaves alone, and the counts that it updates. -/
structure Frame (before : Materializer) (records : List Record) (after : Materializer) :
    Prop where
  stage : after.stage = .accumulating
  folderAware : after.folderAware = before.folderAware
  summary : after.summary = before.summary.addAll records

/-- Forwarding emits the forwarded folders and no others. -/
@[simp]
theorem mem_emitted_forwardAll :
    path ∈ (materializer.forwardAll folders).value.1.emitted ↔
      path ∈ folders ∨ path ∈ materializer.emitted := by
  induction folders generalizing materializer with
  | nil => simp
  | cons folder rest inductionHypothesis =>
      rw [value_forwardAll_cons, inductionHypothesis, mem_emitted_settle, List.mem_cons]
      exact or_left_comm.trans or_assoc.symm

/-- A settled folder is held no longer; the others stay as they are. -/
theorem getElem?_pending_settle (folder : RelPath) :
    (materializer.settle folder).pending[path]? =
      if path = folder then none else materializer.pending[path]? := by
  rw [settle, Std.ExtTreeMap.getElem?_erase]
  exact if_congr (Std.LawfulEqOrd.compare_eq_iff_eq.trans eq_comm) rfl rfl

/-- Forwarded folders are held no longer; the others stay as they are. -/
theorem getElem?_pending_forwardAll :
    (materializer.forwardAll folders).value.1.pending[path]? =
      if path ∈ folders then none else materializer.pending[path]? := by
  induction folders generalizing materializer with
  | nil => simp
  | cons folder rest inductionHypothesis =>
      rw [value_forwardAll_cons, inductionHypothesis, getElem?_pending_settle]
      by_cases later : path ∈ rest
      · simp [later]
      · by_cases here : path = folder <;> simp [later, here]

/-- An accepted folder is emitted besides what was. -/
theorem mem_emitted_settleOwn :
    path ∈ (if item.isFolder = true then materializer.settle item.path
      else materializer).emitted ↔
      item.isFolder = true ∧ path = item.path ∨ path ∈ materializer.emitted := by
  by_cases isFolder : item.isFolder = true <;> simp [isFolder]

/-- An accepted folder is held no longer; the others stay as they are. -/
theorem getElem?_pending_settleOwn :
    (if item.isFolder = true then materializer.settle item.path
      else materializer).pending[path]? =
      if item.isFolder = true ∧ path = item.path then none else materializer.pending[path]? := by
  by_cases isFolder : item.isFolder = true <;> simp [isFolder, getElem?_pending_settle]

/-- Distinct folders are forwarded in the given order, and a folder is synthesized exactly when
it was not held to begin with. -/
theorem records_forwardAll (distinct : folders.Nodup) :
    (materializer.forwardAll folders).value.2 =
      folders.map fun folder => .ancestor folder (!materializer.pending.contains folder) := by
  induction folders generalizing materializer with
  | nil => rfl
  | cons folder rest inductionHypothesis =>
      obtain ⟨absent, restDistinct⟩ := List.nodup_cons.1 distinct
      rw [value_forwardAll_cons, inductionHypothesis restDistinct, List.map_cons]
      refine congrArg _ (List.map_congr_left fun other listed => ?_)
      have different : other ≠ folder := fun same => absent (same ▸ listed)
      have unchanged : (materializer.settle folder).pending.contains other =
          materializer.pending.contains other := by
        rw [Bool.eq_iff_iff, Std.ExtTreeMap.contains_iff_mem, Std.ExtTreeMap.contains_iff_mem,
          mem_pending_settle]
        exact and_iff_right different
      rw [unchanged]

/-- Forwarding changes the stores alone. -/
theorem stores_forwardAll (materializer : Materializer) (folders : List RelPath) :
    (materializer.forwardAll folders).value.1 =
      { materializer with
        emitted := (materializer.forwardAll folders).value.1.emitted
        pending := (materializer.forwardAll folders).value.1.pending } := by
  induction folders generalizing materializer with
  | nil => rfl
  | cons folder rest inductionHypothesis =>
      rw [value_forwardAll_cons]
      exact inductionHypothesis (materializer.settle folder)

/-- Placing changes the stores alone. -/
theorem stores_place (materializer : Materializer) (item : Item) (verdict : Verdict) :
    (materializer.place item verdict).value.1 =
      { materializer with
        emitted := (materializer.place item verdict).value.1.emitted
        pending := (materializer.place item verdict).value.1.pending } := by
  have forwarded := stores_forwardAll materializer (materializer.missing item.path).reverse
  rw [value_place]
  dsimp only
  repeat' split
  · rfl
  · rfl
  · rw [forwarded]
    rfl
  · rw [forwarded]
  · rfl
  · rfl

/-- An open materializer takes every item. -/
theorem value_observe (isOpen : materializer.IsOpen) (item : Item) (verdict : Verdict) :
    (materializer.observe item verdict).value =
      let placed := ({ materializer with stage := .accumulating }.place item verdict).value
      (.ok placed.2, placed.1.count placed.2) := by
  rw [observe, refusal?_eq_none isOpen]
  rfl

/-- A materializer that takes an item is open. -/
theorem isOpen_of_observe
    (taken : (before.observe item verdict).value = (.ok records, after)) : before.IsOpen := by
  cases allowed : before.refusal? .observe with
  | none => exact isOpen_of_refusal?_eq_none allowed
  | some error =>
      rw [observe, allowed] at taken
      cases taken

/-- What comes out is what placing the item yields, and the counts follow. -/
private theorem placed_of_observe
    (taken : (before.observe item verdict).value = (.ok records, after)) :
    let placed := ({ before with stage := .accumulating }.place item verdict).value
    placed.2 = records ∧ placed.1.count records = after := by
  rw [value_observe (isOpen_of_observe taken)] at taken
  obtain ⟨sameRecords, sameState⟩ := Prod.mk.inj taken
  obtain rfl := Except.ok.inj sameRecords
  exact ⟨rfl, sameState⟩

/-- Outside the stores an observation counts its records and changes nothing else. -/
theorem frame_of_observe
    (taken : (before.observe item verdict).value = (.ok records, after)) :
    Frame before records after := by
  obtain ⟨_, rfl⟩ := placed_of_observe taken
  have stores := stores_place { before with stage := .accumulating } item verdict
  constructor
  · rw [stores]
    rfl
  · rw [stores]
    rfl
  · rw [stores]
    rfl

/-- An observation leaves the materializer open. -/
theorem isOpen_after_observe
    (taken : (before.observe item verdict).value = (.ok records, after)) : after.IsOpen :=
  .inr (frame_of_observe taken).stage

/-- A materializer that is not folder-aware reports every item as it is and stores nothing. -/
theorem flat_of_observe (flat : before.folderAware = false)
    (taken : (before.observe item verdict).value = (.ok records, after)) :
    records = [.observed item.path item.isFolder verdict] ∧ after.pending = before.pending := by
  obtain ⟨rfl, rfl⟩ := placed_of_observe taken
  have own : ({ before with stage := .accumulating }.place item verdict).value =
      ({ before with stage := .accumulating },
        [Record.observed item.path item.isFolder verdict]) := by
    rw [value_place]
    exact if_pos (by rw [flat]; rfl)
  rw [own]
  exact ⟨rfl, rfl⟩

/-- Everything that a folder-aware materializer can do with one decided item. -/
inductive Placement (before : Materializer) (item : Item) (verdict : Verdict)
    (records : List Record) (after : Materializer) : Prop where
  /-- A folder that has been emitted brings out nothing. -/
  | known (isFolder : item.isFolder = true) (emitted : item.path ∈ before.emitted)
      (recordsEq : records = []) (emittedEq : after.emitted = before.emitted)
      (pendingEq : after.pending = before.pending)
  /-- An accepted item brings out the missing folders above it, from the top down, and itself. -/
  | accepted (isAccepted : verdict.isAccepted = true)
      (fresh : item.isFolder = true → item.path ∉ before.emitted)
      (recordsEq : records =
        (before.missing item.path).reverse.map
          (fun folder => .ancestor folder (!before.pending.contains folder)) ++
        [.observed item.path item.isFolder verdict])
      (emittedIff : ∀ path, path ∈ after.emitted ↔
        (path ∈ before.missing item.path ∨ item.isFolder = true ∧ path = item.path) ∨
          path ∈ before.emitted)
      (pendingEq : ∀ path, after.pending[path]? =
        if path ∈ before.missing item.path ∨ item.isFolder = true ∧ path = item.path then none
        else before.pending[path]?)
  /-- A rejected folder is held back with the verdict on it. -/
  | held (isRejected : verdict.isAccepted = false) (isFolder : item.isFolder = true)
      (fresh : item.path ∉ before.emitted)
      (recordsEq : records = []) (emittedEq : after.emitted = before.emitted)
      (pendingEq : ∀ path, after.pending[path]? =
        if path = item.path then some verdict else before.pending[path]?)
  /-- A rejected file is reported at once. -/
  | reported (isRejected : verdict.isAccepted = false) (isFile : item.isFolder = false)
      (recordsEq : records = [.observed item.path false verdict])
      (emittedEq : after.emitted = before.emitted) (pendingEq : after.pending = before.pending)

/-- The folders above a place that are still missing are distinct. -/
theorem nodup_missing (materializer : Materializer) (path : RelPath) :
    (materializer.missing path).Nodup :=
  (RelPath.nodup_ancestors path).sublist (List.takeWhile_sublist _)

/-- A folder-aware materializer does nothing but what `Placement` lists. -/
theorem placement_of_observe (aware : before.folderAware = true)
    (taken : (before.observe item verdict).value = (.ok records, after)) :
    Placement before item verdict records after := by
  obtain ⟨rfl, rfl⟩ := placed_of_observe taken
  have distinct : (before.missing item.path).reverse.Nodup :=
    List.nodup_reverse.2 (nodup_missing before item.path)
  rw [value_place]
  dsimp only
  rw [if_neg (by simp [aware])]
  split
  case isTrue known =>
    obtain ⟨isFolder, emitted⟩ := Bool.and_eq_true_iff.1 known
    exact .known isFolder (Std.ExtTreeSet.contains_iff_mem.1 emitted) rfl rfl rfl
  case isFalse unknown =>
    have fresh : item.isFolder = true → item.path ∉ before.emitted := fun isFolder emitted =>
      unknown (Bool.and_eq_true_iff.2 ⟨isFolder, Std.ExtTreeSet.contains_iff_mem.2 emitted⟩)
    split
    case isTrue isAccepted =>
      refine .accepted isAccepted fresh ?_ (fun path => ?_) fun path => ?_
      · exact congrArg (· ++ _) (records_forwardAll distinct)
      · refine mem_emitted_settleOwn.trans ?_
        rw [mem_emitted_forwardAll, List.mem_reverse, ← or_assoc]
        exact or_congr or_comm Iff.rfl
      · refine getElem?_pending_settleOwn.trans ?_
        rw [getElem?_pending_forwardAll, ← ite_or]
        exact if_congr (or_comm.trans (or_congr List.mem_reverse Iff.rfl)) rfl rfl
    case isFalse isRejected =>
      rw [Bool.not_eq_true] at isRejected
      split
      case isTrue isFolder =>
        refine .held isRejected isFolder (fresh isFolder) rfl rfl fun path => ?_
        refine Std.ExtTreeMap.getElem?_insert.trans ?_
        exact if_congr (Std.LawfulEqOrd.compare_eq_iff_eq.trans eq_comm) rfl rfl
      case isFalse isFile =>
        rw [Bool.not_eq_true] at isFile
        exact .reported isRejected isFile (by rw [isFile]) rfl rfl

end Winnow.Materializer
