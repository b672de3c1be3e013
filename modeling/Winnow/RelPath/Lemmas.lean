import Winnow.RelPath.Basic

/-!
# Laws of paths

`parse_render` says that the written form of a path denotes it, so no two paths are written
alike. `startsWith_iff`, `isDescendantOf_iff` and `mem_ancestors_iff` describe the three ways
of saying that one place lies above another by the names that lead to them.
-/

namespace Winnow

/-- Texts contribute their names one after the other when a separator stands between each two of
them. -/
theorem segmentsOf_intercalate {separator : Char} (separates : isSeparator separator = true)
    (texts : List String) :
    segmentsOf ((String.ofList [separator]).intercalate texts) = texts.flatMap segmentsOf := by
  induction texts with
  | nil =>
      rw [String.intercalate_nil]
      rfl
  | cons text rest inductionHypothesis =>
      cases rest with
      | nil => simp
      | cons second rest =>
          rw [String.intercalate_cons_cons, segmentsOf_append_separator separates,
            inductionHypothesis]
          rfl

/-- Names that may stand in a path are contributed unchanged. -/
theorem flatMap_segmentsOf {names : List String} (segments : ∀ name ∈ names, IsSegment name) :
    names.flatMap segmentsOf = names := by
  induction names with
  | nil => rfl
  | cons name rest inductionHypothesis =>
      obtain ⟨first, others⟩ := List.forall_mem_cons.1 segments
      rw [List.flatMap_cons, segmentsOf_eq_singleton first, inductionHypothesis others]
      rfl

/-- A text holds a character that is neither a separator nor a dot exactly if one of the names that
it contributes does. -/
theorem exists_mem_segmentsOf_iff {text : String} {c : Char} (inName : isSeparator c = false)
    (notDot : c ≠ '.') : (∃ name ∈ segmentsOf text, c ∈ name.toList) ↔ c ∈ text.toList := by
  rw [← Text.exists_mem_pieces_iff inName text]
  constructor
  · rintro ⟨name, contributed, present⟩
    exact ⟨name, (List.mem_filter.1 contributed).1, present⟩
  · rintro ⟨piece, listed, present⟩
    refine ⟨piece, List.mem_filter.2 ⟨listed, ?_⟩, present⟩
    rw [Bool.and_eq_true, bne_iff_ne, bne_iff_ne]
    constructor
    · rintro rfl
      cases present
    · rintro rfl
      exact notDot (List.mem_singleton.1 present)

namespace RelPath

/-- The written form of a path denotes it. -/
@[simp]
theorem parse_render (path : RelPath) : parse path.render = path :=
  RelPath.ext <| (@segmentsOf_intercalate '/' (by decide) path.segments).trans
    (flatMap_segmentsOf path.isSegment)

/-- Paths with the same written form are equal. -/
theorem render_injective {left right : RelPath} (same : left.render = right.render) :
    left = right := by
  rw [← parse_render left, same, parse_render]

/-- A path starts with another one when its names start with the other's. -/
theorem startsWith_iff {path other : RelPath} :
    path.startsWith other = true ↔ other.segments <+: path.segments :=
  List.isPrefixOf_iff_prefix

/-- A place lies strictly below another one when it starts with it and is not it. -/
theorem isDescendantOf_iff {path other : RelPath} :
    path.isDescendantOf other = true ↔
      other.segments <+: path.segments ∧ other ≠ path := by
  rw [isDescendantOf, Bool.and_eq_true, decide_eq_true_eq, startsWith_iff]
  constructor
  · rintro ⟨shorter, starts⟩
    exact ⟨starts, fun same => by simp [same] at shorter⟩
  · rintro ⟨starts, different⟩
    refine ⟨Nat.lt_of_le_of_ne starts.length_le fun sameLength => ?_, starts⟩
    exact different (RelPath.ext (starts.eq_of_length sameLength))

/-- A place starts with another one when it is that place or lies below it. -/
theorem prefix_iff_eq_or_isDescendantOf {path other : RelPath} :
    other.segments <+: path.segments ↔ path = other ∨ path.isDescendantOf other = true := by
  rw [isDescendantOf_iff]
  constructor
  · intro starts
    by_cases same : other = path
    · exact Or.inl same.symm
    · exact Or.inr ⟨starts, same⟩
  · rintro (rfl | ⟨starts, -⟩)
    · exact List.prefix_refl _
    · exact starts

/-- Taking names from a path that starts with another one gives the other one back. -/
theorem take_depth {path other : RelPath} (starts : other.segments <+: path.segments) :
    path.take other.depth = other :=
  RelPath.ext (List.prefix_iff_eq_take.1 starts).symm

/-- The ancestors of a place are the places above it, other than the root and itself. -/
theorem mem_ancestors_iff {path ancestor : RelPath} :
    ancestor ∈ path.ancestors ↔
      ancestor ≠ root ∧ ancestor ≠ path ∧ ancestor.segments <+: path.segments := by
  simp only [ancestors, List.mem_map, List.mem_reverse, List.mem_range'_1]
  constructor
  · rintro ⟨count, ⟨positive, bounded⟩, rfl⟩
    have shorter : count < path.segments.length := by
      simp only [depth] at bounded
      omega
    have taken : (path.take count).segments.length = count := by
      simp only [segments_take, List.length_take]
      omega
    refine ⟨fun same => ?_, fun same => ?_, List.take_prefix ..⟩
    · rw [same] at taken
      simp only [segments_root, List.length_nil] at taken
      omega
    · rw [same] at taken
      omega
  · rintro ⟨notRoot, different, starts⟩
    refine ⟨ancestor.depth, ⟨?_, ?_⟩, take_depth starts⟩
    · refine Nat.pos_of_ne_zero fun empty => notRoot (RelPath.ext ?_)
      exact List.eq_nil_of_length_eq_zero empty
    · have shorter : ancestor.depth < path.depth :=
        Nat.lt_of_le_of_ne starts.length_le fun sameLength =>
          different (RelPath.ext (starts.eq_of_length sameLength))
      omega

end RelPath

end Winnow
