import Winnow.Proofs.Materializer.Placement

/-!
# Gapless stores

The stores of a materializer are gapless when everything above an emitted folder is emitted too and
no emitted folder is held. This is why the search for ancestors to forward may stop at the first
emitted one: there it has found all that are missing (`Gapless.missing_eq_filter`).

Each single change of the stores keeps them gapless. A folder is settled only once everything above
it is; the missing ancestors of an item are settled from the top down, so this holds of each of them
in turn (`settlesInTurn_missing`), and of the item after them.
-/

namespace Winnow.Materializer

variable {materializer before after : Materializer} {item : Item} {verdict : Verdict}
  {records : List Record} {folders : List RelPath} {path folder : RelPath}

/-- Whatever lies above an emitted folder is emitted, and no emitted folder is held. -/
structure Gapless (materializer : Materializer) : Prop where
  upward : ∀ folder ∈ materializer.emitted, ∀ ancestor ∈ folder.ancestors,
    ancestor ∈ materializer.emitted
  apart : ∀ folder ∈ materializer.emitted, folder ∉ materializer.pending

/-- The stores are empty at first. -/
theorem gapless_fresh (folderAware : Bool) : Gapless { folderAware } where
  upward folder emitted := absurd emitted (by simp)
  apart folder emitted := absurd emitted (by simp)

namespace Gapless

/-- The early stop overlooks no missing ancestor. -/
theorem missing_eq_filter (gapless : materializer.Gapless) (path : RelPath) :
    materializer.missing path =
      path.ancestors.filter fun ancestor => !materializer.emitted.contains ancestor := by
  refine RelPath.takeWhile_ancestors (fun nearer farther above absent => ?_) path
  rw [Bool.not_eq_true', ← Bool.not_eq_true, Std.ExtTreeSet.contains_iff_mem] at absent ⊢
  exact fun emitted => absent (gapless.upward nearer emitted farther above)

/-- The missing folders are the ancestors that have not been emitted. -/
theorem mem_missing_iff (gapless : materializer.Gapless) :
    folder ∈ materializer.missing path ↔
      folder ∈ path.ancestors ∧ folder ∉ materializer.emitted := by
  rw [gapless.missing_eq_filter, List.mem_filter, Bool.not_eq_true', ← Bool.not_eq_true,
    Std.ExtTreeSet.contains_iff_mem]

/-- A folder may be settled once everything above it is emitted. -/
theorem settle (gapless : materializer.Gapless)
    (ready : ∀ ancestor ∈ folder.ancestors, ancestor ∈ materializer.emitted) :
    (materializer.settle folder).Gapless where
  upward other emitted ancestor above := by
    rw [mem_emitted_settle] at emitted ⊢
    rcases emitted with rfl | earlier
    · exact .inr (ready ancestor above)
    · exact .inr (gapless.upward other earlier ancestor above)
  apart other emitted := by
    rw [mem_emitted_settle] at emitted
    rw [mem_pending_settle]
    rintro ⟨different, held⟩
    exact gapless.apart other (emitted.resolve_left different) held

/-- A folder that has not been emitted may be held. -/
theorem hold (gapless : materializer.Gapless) (fresh : folder ∉ materializer.emitted) :
    (materializer.hold folder verdict).Gapless where
  upward := gapless.upward
  apart other emitted := by
    rw [mem_pending_hold]
    rintro (rfl | held)
    · exact fresh emitted
    · exact gapless.apart other emitted held

end Gapless

/-- When its turn comes, everything above a folder is emitted or has had its turn. -/
def SettlesInTurn (materializer : Materializer) (folders : List RelPath) : Prop :=
  ∀ earlier folder later, folders = earlier ++ folder :: later →
    ∀ ancestor ∈ folder.ancestors, ancestor ∈ materializer.emitted ∨ ancestor ∈ earlier

/-- A first part of folders that settle in turn does so too. -/
theorem SettlesInTurn.of_append {others : List RelPath}
    (inTurn : materializer.SettlesInTurn (folders ++ others)) :
    materializer.SettlesInTurn folders := by
  rintro earlier folder later rfl
  exact inTurn earlier folder (later ++ others) (by simp)

/-- The rest of folders that settle in turn does so after the first. -/
theorem SettlesInTurn.tail (inTurn : materializer.SettlesInTurn (folder :: folders)) :
    (materializer.settle folder).SettlesInTurn folders := by
  rintro earlier lower later rfl ancestor above
  rw [mem_emitted_settle]
  rcases inTurn (folder :: earlier) lower later rfl ancestor above with emitted | listed
  · exact .inl (.inr emitted)
  · rcases List.mem_cons.1 listed with rfl | had
    · exact .inl (.inl rfl)
    · exact .inr had

/-- Folders that settle in turn may be forwarded. -/
theorem Gapless.forwardAll (gapless : materializer.Gapless)
    (inTurn : materializer.SettlesInTurn folders) :
    (materializer.forwardAll folders).value.1.Gapless := by
  induction folders generalizing materializer with
  | nil => exact gapless
  | cons folder rest inductionHypothesis =>
      have ready : ∀ ancestor ∈ folder.ancestors, ancestor ∈ materializer.emitted := by
        intro ancestor above
        exact (inTurn [] folder rest rfl ancestor above).resolve_right List.not_mem_nil
      exact inductionHypothesis (gapless.settle ready) inTurn.tail

/-- From the top down the missing ancestors of a place settle in turn. -/
theorem settlesInTurn_missing (gapless : materializer.Gapless) (path : RelPath) :
    materializer.SettlesInTurn (materializer.missing path).reverse := by
  intro earlier folder later split ancestor above
  have parts : materializer.missing path = later.reverse ++ folder :: earlier.reverse := by
    simpa using List.reverse_eq_iff.1 split
  have ordered : (later.reverse ++ folder :: earlier.reverse).Pairwise
      fun nearer farther => farther ∈ nearer.ancestors := by
    rw [← parts]
    exact (RelPath.pairwise_ancestors path).sublist (List.takeWhile_sublist _)
  have here : folder ∈ materializer.missing path := by simp [parts]
  by_cases emitted : ancestor ∈ materializer.emitted
  · exact .inl emitted
  · have higher := RelPath.mem_ancestors_trans above (gapless.mem_missing_iff.1 here).1
    have missing : ancestor ∈ materializer.missing path :=
      gapless.mem_missing_iff.2 ⟨higher, emitted⟩
    rw [parts] at missing
    rcases List.mem_append.1 missing with nearer | rest
    · -- A folder that is listed nearer lies below, so it cannot lie above as well.
      have below := (List.pairwise_append.1 ordered).2.2 ancestor nearer folder List.mem_cons_self
      exact absurd (RelPath.mem_ancestors_trans above below) (RelPath.not_mem_ancestors_self _)
    · rcases List.mem_cons.1 rest with rfl | had
      · exact absurd above (RelPath.not_mem_ancestors_self _)
      · exact .inr (List.mem_reverse.1 had)

/-- Placing an item keeps the stores gapless. -/
theorem Gapless.place (gapless : materializer.Gapless) (item : Item) (verdict : Verdict) :
    (materializer.place item verdict).value.1.Gapless := by
  rw [value_place]
  dsimp only
  split
  case isTrue flat => exact gapless
  case isFalse aware =>
    split
    case isTrue known => exact gapless
    case isFalse unknown =>
      split
      case isTrue isAccepted =>
        have forwarded := gapless.forwardAll (settlesInTurn_missing gapless item.path)
        split
        case isTrue isFolder =>
          refine forwarded.settle fun ancestor above => ?_
          rw [mem_emitted_forwardAll, List.mem_reverse, gapless.mem_missing_iff]
          exact (em (ancestor ∈ materializer.emitted)).symm.imp_left fun missing => ⟨above, missing⟩
        case isFalse isFile => exact forwarded
      case isFalse isRejected =>
        split
        case isTrue isFolder =>
          refine gapless.hold fun emitted => unknown ?_
          rw [isFolder, Bool.true_and, Std.ExtTreeSet.contains_iff_mem]
          exact emitted
        case isFalse isFile => exact gapless

/-- Taking an item keeps the stores gapless. -/
theorem Gapless.observe (gapless : before.Gapless)
    (taken : (before.observe item verdict).value = (.ok records, after)) : after.Gapless := by
  rw [value_observe (isOpen_of_observe taken)] at taken
  obtain ⟨_, rfl⟩ := Prod.mk.inj taken
  have accumulating : Gapless { before with stage := .accumulating } :=
    ⟨gapless.upward, gapless.apart⟩
  have placed := accumulating.place item verdict
  exact ⟨placed.upward, placed.apart⟩

end Winnow.Materializer
