import Winnow.RelPath.Lemmas
import Winnow.RelPath.Native

/-!
# The normal form of paths

However a path has been put together, it holds names that have content, are not the current
folder's, and are free of both separators. Any such names make up a path that can be put together,
so `Obtainable` paths are all paths, and a path is nothing but its names.

Two laws tie the ways of putting paths together to reading one text. To join a text onto a path is
to read both with a slash between them, wherever the texts are cut, and a path made of several texts
is read from the texts with a slash between each two.
-/

namespace Winnow

/-- A name may stand in a path when it has content, is not the current folder's, and holds neither
separator. -/
theorem isSegment_iff {name : String} :
    IsSegment name ↔
      name ≠ "" ∧ name ≠ "." ∧ '/' ∉ name.toList ∧ '\\' ∉ name.toList := by
  simp only [IsSegment, isSeparator, Bool.or_eq_false_iff, beq_eq_false_iff_ne]
  refine and_congr_right fun _ => and_congr_right fun _ => ?_
  constructor
  · intro uncut
    exact ⟨fun slash => (uncut _ slash).1 rfl, fun backslash => (uncut _ backslash).2 rfl⟩
  · rintro ⟨noSlash, noBackslash⟩ c present
    exact ⟨fun slash => noSlash (slash ▸ present),
      fun backslash => noBackslash (backslash ▸ present)⟩

namespace RelPath

/-- The paths that can be put together: those read from a text, from several texts or from a path of
the host, and those reached from such a path by a text, to its containing folder, or to a folder
above it. -/
inductive Obtainable : RelPath → Prop where
  | parse (text : String) : Obtainable (parse text)
  | ofSegments (texts : List String) : Obtainable (ofSegments texts)
  | ofNative {bytes : List UInt8} {path : RelPath} (read : ofNative? bytes = some path) :
      Obtainable path
  | join {path : RelPath} (obtained : Obtainable path) (text : String) : Obtainable (path.join text)
  | parent {path folder : RelPath} (obtained : Obtainable path)
      (contains : path.parent? = some folder) : Obtainable folder
  | ancestor {path folder : RelPath} (obtained : Obtainable path)
      (above : folder ∈ path.ancestors) : Obtainable folder

/-- Every path can be read from a text, its written form. -/
theorem obtainable (path : RelPath) : Obtainable path :=
  parse_render path ▸ .parse path.render

/-- To join two texts onto a path one after the other is to join them with a slash between them. -/
theorem join_join (path : RelPath) (left right : String) :
    (path.join left).join right = path.join (left ++ "/" ++ right) := by
  have cut : segmentsOf (left ++ "/" ++ right) = segmentsOf left ++ segmentsOf right :=
    @segmentsOf_append_separator '/' (by decide) left right
  exact RelPath.ext (by simp [cut, List.append_assoc])

/-- A text is read by joining it onto the root. -/
theorem join_root (text : String) : root.join text = parse text :=
  RelPath.ext (List.nil_append _)

/-- A path made of several texts is read from the texts with slashes between them. -/
theorem parse_intercalate (texts : List String) :
    parse ("/".intercalate texts) = ofSegments texts := by
  have cut : segmentsOf ("/".intercalate texts) = texts.flatMap segmentsOf :=
    @segmentsOf_intercalate '/' (by decide) texts
  exact RelPath.ext (by rw [segments_parse, cut, segments_ofSegments])

/-- Paths have a normal form. The names of the paths that can be put together are the lists of names
with content that are not the current folder's and hold neither separator. Each such path is read
from its written form, so no two are written alike. To join a text is to read it after a slash, and
several texts make the path that is read from them with slashes between. -/
theorem normalForm_obtainable :
    (∀ names : List String, (∃ path, Obtainable path ∧ path.segments = names) ↔
        ∀ name ∈ names, name ≠ "" ∧ name ≠ "." ∧ '/' ∉ name.toList ∧ '\\' ∉ name.toList) ∧
      (∀ path, Obtainable path → parse path.render = path) ∧
      (∀ left right, Obtainable left → Obtainable right → left.render = right.render →
        left = right) ∧
      (∀ left right : String, (parse left).join right = parse (left ++ "/" ++ right)) ∧
      ∀ texts : List String, ofSegments texts = parse ("/".intercalate texts) := by
  refine ⟨fun names => ?_, fun path _ => parse_render path,
    fun left right _ _ => render_injective, fun left right => ?_,
    fun texts => (parse_intercalate texts).symm⟩
  · simp only [← isSegment_iff]
    constructor
    · rintro ⟨path, -, rfl⟩
      exact path.isSegment
    · intro segments
      exact ⟨⟨names, segments⟩, obtainable _, rfl⟩
  · rw [← join_root, join_join, join_root]

end RelPath

end Winnow
