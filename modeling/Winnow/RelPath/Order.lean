import Winnow.RelPath.Basic
import Std.Data.ExtTreeSet

/-!
# The order of paths

Paths are ordered name by name, each name by its code points; a path comes before everything
below it. The order is total and identifies only equal paths, so sorted sets and maps may be
keyed by paths.
-/

namespace Winnow.RelPath

instance : Ord RelPath where
  compare left right := compare left.segments right.segments

/-- Paths compare as their lists of names do. -/
theorem compare_eq (left right : RelPath) :
    compare left right = compare left.segments right.segments := rfl

instance : Std.TransOrd RelPath where
  eq_swap {left right} := Std.OrientedOrd.eq_swap (a := left.segments) (b := right.segments)
  isLE_trans {left middle right} :=
    Std.TransOrd.isLE_trans (a := left.segments) (b := middle.segments) (c := right.segments)

instance : Std.LawfulEqOrd RelPath where
  eq_of_compare {left right} equal :=
    RelPath.ext (Std.LawfulEqOrd.eq_of_compare (a := left.segments) (b := right.segments) equal)

/-- The distinct paths of a list, in order. -/
def sortDistinct (paths : List RelPath) : List RelPath :=
  (Std.ExtTreeSet.ofList paths).toList

end Winnow.RelPath
