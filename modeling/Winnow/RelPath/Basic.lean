import Winnow.Text.Pieces

/-!
# Paths below a source root

A `RelPath` is the list of names on the way from the source root to an item; the root itself
has no names. Both slashes separate names. Empty names and the name of the current folder
say nothing about the place and never occur in a path, so a place has one path however it is
written. The name of the parent folder is kept as an ordinary name: refusing it is the
business of whoever reads a path from a source that must not leave the root.
-/

namespace Winnow

/-- Both slashes end a name. -/
def isSeparator (c : Char) : Bool :=
  c == '/' || c == '\\'

/-- A name that a path may hold: it has content, is not the current folder's, and is free of
separators. -/
def IsSegment (name : String) : Prop :=
  name ≠ "" ∧ name ≠ "." ∧ ∀ c ∈ name.toList, isSeparator c = false

instance (name : String) : Decidable (IsSegment name) :=
  inferInstanceAs (Decidable (_ ∧ _))

/-- The names that a text contributes to a path, in order. -/
def segmentsOf (text : String) : List String :=
  (Text.pieces isSeparator text).filter fun name => name != "" && name != "."

/-- Every name that a text contributes may stand in a path. -/
theorem isSegment_of_mem_segmentsOf {text name : String} (member : name ∈ segmentsOf text) :
    IsSegment name := by
  obtain ⟨inPieces, kept⟩ := List.mem_filter.1 member
  simp only [bne_iff_ne, ne_eq, Bool.and_eq_true] at kept
  exact ⟨kept.1, kept.2, Text.eq_false_of_mem_pieces inPieces⟩

/-- A name that may stand in a path contributes itself. -/
theorem segmentsOf_eq_singleton {name : String} (segment : IsSegment name) :
    segmentsOf name = [name] := by
  simp [segmentsOf, Text.pieces_eq_singleton segment.2.2, segment.1, segment.2.1]

/-- Names separated by a separator are contributed one side after the other. -/
theorem segmentsOf_append_separator {separator : Char} (separates : isSeparator separator = true)
    (left right : String) :
    segmentsOf (left ++ String.ofList [separator] ++ right) =
      segmentsOf left ++ segmentsOf right := by
  rw [segmentsOf, Text.pieces_append_cut separates, List.filter_append]
  rfl

/-- A place below a source root, as the names that lead to it from the root. -/
structure RelPath where
  segments : List String
  isSegment : ∀ name ∈ segments, IsSegment name
deriving DecidableEq

namespace RelPath

@[ext]
theorem ext {left right : RelPath} (segments : left.segments = right.segments) :
    left = right := by
  cases left
  cases right
  cases segments
  rfl

/-- The source root. -/
def root : RelPath := ⟨[], by simp⟩

instance : Inhabited RelPath := ⟨root⟩

/-- The place that a text names. -/
def parse (text : String) : RelPath :=
  ⟨segmentsOf text, fun _ => isSegment_of_mem_segmentsOf⟩

/-- The place that `text` names when it is read from `path` onwards. -/
def join (path : RelPath) (text : String) : RelPath where
  segments := path.segments ++ segmentsOf text
  isSegment name member :=
    (List.mem_append.1 member).elim (path.isSegment name) isSegment_of_mem_segmentsOf

/-- The place reached from the root by reading several texts one after the other. -/
def ofSegments (texts : List String) : RelPath :=
  texts.foldl join root

/-- The first `count` names of a path. -/
def take (path : RelPath) (count : Nat) : RelPath :=
  ⟨path.segments.take count, fun name member => path.isSegment name (List.mem_of_mem_take member)⟩

/-- How many names lead to the place; the root has depth 0. -/
def depth (path : RelPath) : Nat := path.segments.length

/-- Whether the path is the source root. -/
def isRoot (path : RelPath) : Bool := path.segments.isEmpty

/-- The last name; the root has none. -/
def basename? (path : RelPath) : Option String := path.segments.getLast?

/-- The containing folder; the root has none. -/
def parent? (path : RelPath) : Option RelPath :=
  if path.isRoot then none else some (path.take (path.depth - 1))

/-- The folders strictly between the root and the place, nearest first. -/
def ancestors (path : RelPath) : List RelPath :=
  (List.range' 1 (path.depth - 1)).reverse.map path.take

/-- Whether `path` is `other` or lies below it. -/
def startsWith (path other : RelPath) : Bool :=
  other.segments.isPrefixOf path.segments

/-- Whether `path` lies strictly below `other`. -/
def isDescendantOf (path other : RelPath) : Bool :=
  decide (other.depth < path.depth) && path.startsWith other

/-- The written form: the names joined by slashes. -/
def render (path : RelPath) : String :=
  "/".intercalate path.segments

@[simp]
theorem segments_root : root.segments = [] := rfl

@[simp]
theorem segments_parse (text : String) : (parse text).segments = segmentsOf text := rfl

@[simp]
theorem segments_join (path : RelPath) (text : String) :
    (path.join text).segments = path.segments ++ segmentsOf text := rfl

@[simp]
theorem segments_take (path : RelPath) (count : Nat) :
    (path.take count).segments = path.segments.take count := rfl

@[simp]
theorem segments_ofSegments (texts : List String) :
    (ofSegments texts).segments = texts.flatMap segmentsOf := by
  suffices general : ∀ start : RelPath,
      (texts.foldl join start).segments = start.segments ++ texts.flatMap segmentsOf by
    simpa [ofSegments] using general root
  induction texts with
  | nil => simp
  | cons text rest inductionHypothesis =>
      intro start
      simp [inductionHypothesis, List.append_assoc]

theorem isRoot_iff {path : RelPath} : path.isRoot = true ↔ path = root := by
  constructor
  · intro isRoot
    exact RelPath.ext (by simpa [RelPath.isRoot] using isRoot)
  · rintro rfl
    rfl

end RelPath

end Winnow
