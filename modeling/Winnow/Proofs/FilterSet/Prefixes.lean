import Mathlib.Data.List.Infix
import Mathlib.Data.List.TFAE
import Mathlib.Order.Preorder.Chain
import Winnow.Proofs.FilterSet.Malformation
import Winnow.Proofs.RelPath.Ancestors
import Winnow.Scope

/-!
# Places at or above a place

A place is another one or lies above it when its names are the first names of the other
(`RelPath.IsAtOrAbove`). Wherever this has to be decided it is asked in a way of its own: names are
compared one by one or taken from the front of a path, depths are compared first, the scope of the
upper place or an entry for it is asked about the lower one, or the upper place is looked for among
the ancestors. `prefixTests_agree` says that these are one question.

Two of the tests look as if they asked for less. The scope of the root contains everything without a
further look, but then the root is above everything. An entry has to be read from a text, and a text
may be refused; but since this depends on the place alone, a place has an entry in every spelling or
in none (`PathEntry.exists_parse_eq_ok_iff`).
-/

namespace Winnow

/-- A place has an entry exactly if it is not the root and has neither the parent folder's name nor
a NUL in it. -/
theorem PathEntry.exists_parse_eq_ok_iff {kind : Kind} {place : RelPath} :
    (∃ text, PathEntry.parse kind text = .ok ⟨text, place⟩) ↔
      place ≠ .root ∧ ".." ∉ place.segments ∧
        ∀ name ∈ place.segments, '\x00' ∉ name.toList := by
  simp only [parse_eq_ok_iff]
  constructor
  · rintro ⟨-, -, named⟩
    exact named
  · intro named
    exact ⟨place.render, RelPath.parse_render place, named⟩

namespace RelPath

/-- A place is another one or lies above it: its names are the first names of the other. -/
def IsAtOrAbove (upper lower : RelPath) : Prop := upper.segments <+: lower.segments

variable {upper lower : RelPath}

/-- The root is at or above every place. -/
theorem isAtOrAbove_root (place : RelPath) : root.IsAtOrAbove place := List.nil_prefix

/-- The places at or above a place are the place itself, the root, and the ancestors. -/
theorem isAtOrAbove_iff_mem_ancestors :
    upper.IsAtOrAbove lower ↔ upper = lower ∨ upper = root ∨ upper ∈ lower.ancestors := by
  rw [mem_ancestors_iff]
  constructor
  · intro above
    by_cases same : upper = lower
    · exact Or.inl same
    · by_cases isRoot : upper = root
      · exact Or.inr (Or.inl isRoot)
      · exact Or.inr (Or.inr ⟨isRoot, same, above⟩)
  · rintro (rfl | rfl | ⟨-, -, above⟩)
    · exact List.prefix_refl _
    · exact isAtOrAbove_root lower
    · exact above

/-- The recursive scope of a place contains what the place is at or above. The scope of the root,
which contains everything without a further look, is no exception. -/
theorem contains_recursive_iff :
    Scope.contains ⟨upper, true⟩ lower = true ↔ upper.IsAtOrAbove lower := by
  rw [Scope.contains_iff, IsAtOrAbove, prefix_iff_eq_or_isDescendantOf]
  constructor
  · rintro (rfl | same | ⟨-, below⟩)
    · exact prefix_iff_eq_or_isDescendantOf.1 (isAtOrAbove_root lower)
    · exact Or.inl same
    · exact Or.inr below
  · rintro (same | below)
    · exact Or.inr (Or.inl same)
    · exact Or.inr (Or.inr ⟨rfl, below⟩)

/-- Every test of whether one place is at or above another tells just that. -/
theorem tfae_isAtOrAbove (upper lower : RelPath) (text : String) : List.TFAE
    [upper.IsAtOrAbove lower,
      namesCover upper.segments lower.segments = true,
      lower.startsWith upper = true,
      lower = upper ∨ lower.isDescendantOf upper = true,
      Scope.contains ⟨upper, true⟩ lower = true,
      PathEntry.covers ⟨text, upper⟩ lower = true,
      upper = lower ∨ upper = root ∨ upper ∈ lower.ancestors] := by
  apply List.tfae_of_forall (upper.IsAtOrAbove lower)
  simp only [List.forall_mem_cons, true_and]
  exact ⟨namesCover_iff, startsWith_iff, prefix_iff_eq_or_isDescendantOf.symm,
    contains_recursive_iff, namesCover_iff, isAtOrAbove_iff_mem_ancestors.symm,
    List.forall_mem_nil _⟩

/-- Being at or above is a partial order, since a place is nothing but its names. -/
theorem isPartialOrder_isAtOrAbove : IsPartialOrder RelPath IsAtOrAbove := by
  have injective : Function.Injective RelPath.segments := fun _ _ => RelPath.ext
  exact injective.isPartialOrder_onFun (r := (· <+: ·))

/-- Of two places at or above a third, one is at or above the other. -/
theorem isChain_isAtOrAbove (lower : RelPath) :
    IsChain IsAtOrAbove {upper | upper.IsAtOrAbove lower} :=
  fun _ firstAbove _ secondAbove _ => List.prefix_or_prefix_of_prefix firstAbove secondAbove

/-- All tests of whether one place is at or above another agree, for any two places: names are
compared one by one or taken from the front; the lower place is the upper one or lies below it, is
in its recursive scope, or is covered by an entry for it; the upper place is the lower one, the
root, or an ancestor. Entries exist for the places that are not the root and have neither the parent
folder's name nor a NUL in them. Being at or above is a partial order, in which the places at or
above any one place form a chain. -/
theorem prefixTests_agree :
    (∀ (upper lower : RelPath) (text : String), List.TFAE
      [upper.IsAtOrAbove lower,
        namesCover upper.segments lower.segments = true,
        lower.startsWith upper = true,
        lower = upper ∨ lower.isDescendantOf upper = true,
        Scope.contains ⟨upper, true⟩ lower = true,
        PathEntry.covers ⟨text, upper⟩ lower = true,
        upper = lower ∨ upper = root ∨ upper ∈ lower.ancestors]) ∧
      (∀ (kind : Kind) (place : RelPath),
        (∃ text, PathEntry.parse kind text = .ok ⟨text, place⟩) ↔
          place ≠ root ∧ ".." ∉ place.segments ∧
            ∀ name ∈ place.segments, '\x00' ∉ name.toList) ∧
      IsPartialOrder RelPath IsAtOrAbove ∧
      ∀ lower : RelPath, IsChain IsAtOrAbove {upper | upper.IsAtOrAbove lower} :=
  ⟨tfae_isAtOrAbove, fun _ _ => PathEntry.exists_parse_eq_ok_iff, isPartialOrder_isAtOrAbove,
    isChain_isAtOrAbove⟩

/-- A place whose name merely starts like that of another one does not lie below it. -/
example :
    let upper := parse "a/b"
    let lower := parse "a/bc"
    lower.startsWith upper = false ∧ Scope.contains ⟨upper, true⟩ lower = false ∧
      upper ∉ lower.ancestors := by
  decide

end RelPath

end Winnow
