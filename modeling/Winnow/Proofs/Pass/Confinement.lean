import Winnow.Proofs.FilterSet.Decision
import Winnow.Proofs.Materializer.Rearrangement
import Winnow.Proofs.Pass.Completion

/-!
# Removals keep to their scope

A removal acts on every accepted folder, so it must not accept a folder that merely contains its
scope. Three rules see to that together: the scope rejects what lies neither at its place nor, in a
recursive job, below it; the depth limit of jobs that are not recursive gives way to the scope; and
a removal never forwards folders, even if it is told to. `confined_run` puts them together: a
removal reports every item as it was decided, and accepts nothing outside its scope.
-/

namespace Winnow

namespace RelPath

variable {path other : RelPath}

/-- Places in the same folder are reached by equally many names. -/
theorem depth_eq_of_parent?_eq (siblings : path.parent? = other.parent?) :
    path.depth = other.depth := by
  have positive : ∀ place : RelPath, place.isRoot = false → 0 < place.segments.length := by
    intro place below
    rw [isRoot, List.isEmpty_eq_false_iff] at below
    exact List.length_pos_of_ne_nil below
  unfold parent? at siblings
  cases pathRoot : path.isRoot with
  | true =>
      cases otherRoot : other.isRoot with
      | true => rw [isRoot_iff.1 pathRoot, isRoot_iff.1 otherRoot]
      | false => simp [pathRoot, otherRoot] at siblings
  | false =>
      cases otherRoot : other.isRoot with
      | true => simp [pathRoot, otherRoot] at siblings
      | false =>
          rw [pathRoot, otherRoot] at siblings
          have sameDepth := congrArg depth (Option.some.inj siblings)
          have pathPositive := positive path pathRoot
          have otherPositive := positive other otherRoot
          simp only [depth, segments_take, List.length_take] at sameDepth ⊢
          omega

/-- A place at or below another one does not contain it. -/
theorem isDescendantOf_eq_false_of_prefix (starts : other.segments <+: path.segments) :
    other.isDescendantOf path = false := by
  rw [← Bool.not_eq_true, isDescendantOf_iff]
  rintro ⟨back, different⟩
  have sameLength := Nat.le_antisymm back.length_le starts.length_le
  exact different (RelPath.ext (back.eq_of_length sameLength))

/-- A place at or below another one is in the same folder only if it is that place. -/
theorem eq_of_prefix_of_parent?_eq (starts : other.segments <+: path.segments)
    (siblings : path.parent? = other.parent?) : path = other :=
  (RelPath.ext (starts.eq_of_length (depth_eq_of_parent?_eq siblings).symm)).symm

end RelPath

namespace FilterSet.Compiled

variable {options : Options} {set : FilterSet} {item : Item} {place : RelPath}

/-- A removal accepts nothing but the place that confines it and, if it is recursive, what lies
below that place. -/
theorem within_of_isAccepted (compiled : Compiled options set)
    (confined : options.confinement? = some place)
    (isAccepted : (set.decide item).isAccepted = true) :
    item.path = place ∨ options.recursive = true ∧ item.path.isDescendantOf place = true := by
  have unfailed := (compiled.isAccepted_decide_iff item).1 isAccepted (.filter .scope)
  by_contra outside
  rw [not_or] at outside
  exact unfailed ⟨place, confined, outside⟩

end FilterSet.Compiled

namespace Pass

open FilterSet

variable {options : Options} {set : FilterSet} {text : String}

/-- A pass that forwards no folders reports every item as it was decided and flushes nothing. -/
theorem completes_new_of_remove (removes : set.operation = .remove) (folderAware : Bool)
    (items : List Item) :
    let records := items.map fun item => Record.observed item.path item.isFolder (set.decide item)
    (new set folderAware).value.Completes items ⟨records, [], Summary.tally records⟩ := by
  have flat : (folderAware && Decidable.decide (set.operation ≠ .remove)) = false := by
    simp [removes]
  obtain ⟨batches, after, observes, completes⟩ := exists_completes_new set false items
  have asDecided := (Materializer.flat_of_observes rfl observes).1
  rw [Materializer.held_of_flat observes, List.append_nil, asDecided, History.ownRecords,
    FilterSet.decideAll, List.map_map] at completes
  rw [value_new, flat]
  exact completes

/-- A confined removal that nobody stops delivers one record for each item, in order, with the
verdict on the item, and flushes nothing. What it accepts is its scope or, if it is recursive, lies
below it; nothing above the scope is accepted, and nothing beside it. -/
theorem confined_run (compiles : outcome (compile options) = .ok set)
    (removes : options.operation = .remove) (source : options.relativeSourcePath = some text)
    (confined : RelPath.parse text ≠ .root) (folderAware : Bool) (items : List Item) :
    let scope := RelPath.parse text
    let records := items.map fun item => Record.observed item.path item.isFolder (set.decide item)
    (new set folderAware).value.Completes items ⟨records, [], Summary.tally records⟩ ∧
      ∀ record ∈ records, record.isAccepted = true →
        (record.path = scope ∨
          options.recursive = true ∧ record.path.isDescendantOf scope = true) ∧
        scope.isDescendantOf record.path = false ∧
        (record.path.parent? = scope.parent? → record.path = scope) := by
  intro scope records
  have compiled := compile_eq_ok_iff.1 compiles
  refine ⟨completes_new_of_remove (compiled.operation.trans removes) folderAware items, ?_⟩
  intro record delivered isAccepted
  obtain ⟨item, _, rfl⟩ := List.mem_map.1 delivered
  have confinement : options.confinement? = some scope := by
    have notRoot : scope.isRoot = false := by
      rw [← Bool.not_eq_true, RelPath.isRoot_iff]
      exact confined
    rw [Options.confinement?, if_pos removes, source, Option.map_some, Option.filter_some, notRoot]
    rfl
  have within := compiled.within_of_isAccepted confinement isAccepted
  have starts : scope.segments <+: item.path.segments := by
    rcases within with here | ⟨_, below⟩
    · exact here ▸ List.prefix_rfl
    · exact (RelPath.isDescendantOf_iff.1 below).1
  exact ⟨within, RelPath.isDescendantOf_eq_false_of_prefix starts,
    RelPath.eq_of_prefix_of_parent?_eq starts⟩

/-- A recursive removal that is told to forward folders meets its scope, a folder above it, a
sibling of it and a file inside it. -/
theorem confined_run_around_scope :
    let options : Options :=
      { operation := .remove, recursive := true, relativeSourcePath := some "a/./b" }
    let above : Item := ⟨.parse "a", .folder, ⟨0⟩⟩
    let inside : Item := ⟨.parse "a/b/c", .file 1, ⟨0⟩⟩
    let scope : Item := ⟨.parse "a/b", .folder, ⟨0⟩⟩
    let sibling : Item := ⟨.parse "a/bc", .folder, ⟨0⟩⟩
    let items := [above, inside, scope, sibling]
    RelPath.parse "a/./b" ≠ .root ∧ ∃ set, outcome (compile options) = .ok set ∧
      let records := items.map fun item =>
        Record.observed item.path item.isFolder (set.decide item)
      (new set true).value.Completes items ⟨records, [], Summary.tally records⟩ ∧
        ∀ record ∈ records, record.isAccepted = true →
          (record.path = .parse "a/./b" ∨
            options.recursive = true ∧ record.path.isDescendantOf (.parse "a/./b") = true) ∧
          (RelPath.parse "a/./b").isDescendantOf record.path = false ∧
          (record.path.parent? = (RelPath.parse "a/./b").parent? →
            record.path = .parse "a/./b") := by
  intro options above inside scope sibling items
  have confined : RelPath.parse "a/./b" ≠ .root := by decide
  have succeeds : (outcome (compile options)).isOk = true := by decide
  obtain ⟨set, compiles⟩ := isOk_iff.1 succeeds
  exact ⟨confined, set, compiles, confined_run compiles rfl rfl confined true items⟩

end Pass

end Winnow
