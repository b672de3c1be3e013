import Winnow.RelPath.Lemmas

/-!
# Chains of ancestors

The ancestors of a place form a chain. They are listed nearest first, each one is an ancestor
of all those listed before it, and an ancestor of an ancestor is an ancestor.

`takeWhile_ancestors` is the reason why a search upwards may stop early: a property that passes
from a folder to the folders below it holds of a first part of the list and of nothing after it.
-/

namespace Winnow.RelPath

variable {path nearer farther ancestor : RelPath}

/-- An ancestor is reached by fewer names. -/
theorem depth_lt_of_mem_ancestors (above : ancestor ∈ path.ancestors) :
    ancestor.depth < path.depth := by
  obtain ⟨_, different, starts⟩ := mem_ancestors_iff.1 above
  refine Nat.lt_of_le_of_ne starts.length_le fun sameDepth => ?_
  exact different (RelPath.ext (starts.eq_of_length sameDepth))

/-- No place is its own ancestor. -/
theorem not_mem_ancestors_self (path : RelPath) : path ∉ path.ancestors := fun above =>
  Nat.lt_irrefl path.depth (depth_lt_of_mem_ancestors above)

/-- The ancestors of a place are the places that it lies below, other than the root. -/
theorem mem_ancestors_iff_isDescendantOf :
    ancestor ∈ path.ancestors ↔ ancestor ≠ root ∧ path.isDescendantOf ancestor = true := by
  rw [mem_ancestors_iff, isDescendantOf_iff]
  exact and_congr_right fun _ => and_comm

/-- An ancestor of an ancestor is an ancestor. -/
theorem mem_ancestors_trans (upper : farther ∈ nearer.ancestors)
    (lower : nearer ∈ path.ancestors) : farther ∈ path.ancestors := by
  obtain ⟨notRoot, _, upperStarts⟩ := mem_ancestors_iff.1 upper
  obtain ⟨_, _, lowerStarts⟩ := mem_ancestors_iff.1 lower
  refine mem_ancestors_iff.2 ⟨notRoot, ?_, upperStarts.trans lowerStarts⟩
  rintro rfl
  have first := depth_lt_of_mem_ancestors upper
  have second := depth_lt_of_mem_ancestors lower
  omega

/-- Of two ancestors of one place the shallower is an ancestor of the deeper. -/
theorem mem_ancestors_of_depth_lt (first : farther ∈ path.ancestors)
    (second : nearer ∈ path.ancestors) (shallower : farther.depth < nearer.depth) :
    farther ∈ nearer.ancestors := by
  obtain ⟨notRoot, _, firstStarts⟩ := mem_ancestors_iff.1 first
  obtain ⟨_, _, secondStarts⟩ := mem_ancestors_iff.1 second
  refine mem_ancestors_iff.2 ⟨notRoot, ?_, ?_⟩
  · rintro rfl
    exact Nat.lt_irrefl _ shallower
  · exact List.prefix_of_prefix_length_le firstStarts secondStarts (Nat.le_of_lt shallower)

/-- Ancestors are listed by falling depth. -/
theorem pairwise_depth_ancestors (path : RelPath) :
    path.ancestors.Pairwise fun nearer farther => farther.depth < nearer.depth := by
  rw [ancestors, List.pairwise_map, List.pairwise_reverse]
  refine List.Pairwise.imp_of_mem ?_ (List.pairwise_lt_range' 1)
  intro first second firstListed secondListed less
  obtain ⟨_, secondBound⟩ := List.mem_range'_1.1 secondListed
  have bound : second ≤ path.segments.length := by
    simp only [depth] at secondBound
    omega
  simp only [depth, segments_take, List.length_take]
  omega

/-- Every ancestor is listed before the ancestors of its own. -/
theorem pairwise_ancestors (path : RelPath) :
    path.ancestors.Pairwise fun nearer farther => farther ∈ nearer.ancestors :=
  (pairwise_depth_ancestors path).imp_of_mem fun nearerListed fartherListed shallower =>
    mem_ancestors_of_depth_lt fartherListed nearerListed shallower

/-- Every ancestor is listed once. -/
theorem nodup_ancestors (path : RelPath) : path.ancestors.Nodup :=
  (pairwise_depth_ancestors path).imp fun shallower same => by
    rw [same] at shallower
    exact Nat.lt_irrefl _ shallower

/-- On a chain, a property that passes from folders to those below them holds of a first part
and of nothing after it. -/
private theorem takeWhile_chain {holds : RelPath → Bool}
    (descends : ∀ nearer farther : RelPath, farther ∈ nearer.ancestors →
      holds farther = true → holds nearer = true)
    {chain : List RelPath}
    (ordered : chain.Pairwise fun nearer farther => farther ∈ nearer.ancestors) :
    chain.takeWhile holds = chain.filter holds := by
  induction chain with
  | nil => rfl
  | cons nearest rest inductionHypothesis =>
      obtain ⟨above, restOrdered⟩ := List.pairwise_cons.1 ordered
      by_cases held : holds nearest = true
      · rw [List.takeWhile_cons_of_pos held, List.filter_cons_of_pos held,
          inductionHypothesis restOrdered]
      · rw [List.takeWhile_cons_of_neg held, List.filter_cons_of_neg held]
        refine (List.filter_eq_nil_iff.2 fun farther listed heldAbove => held ?_).symm
        exact descends nearest farther (above farther listed) heldAbove

/-- Looking upwards for as long as a property holds finds every ancestor that has it, when the
property passes from folders to those below them. -/
theorem takeWhile_ancestors {holds : RelPath → Bool}
    (descends : ∀ nearer farther : RelPath, farther ∈ nearer.ancestors →
      holds farther = true → holds nearer = true) (path : RelPath) :
    path.ancestors.takeWhile holds = path.ancestors.filter holds :=
  takeWhile_chain descends (pairwise_ancestors path)

end Winnow.RelPath
