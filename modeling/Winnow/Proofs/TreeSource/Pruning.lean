import Winnow.FileTree.Build
import Winnow.Proofs.Pass.Confinement
import Winnow.Proofs.TreeSource.Feeding

/-!
# Pruned walks

A tree source walks below the direct children of its root only if the job is recursive or has a
scope. The filter set has a rule of its own for what is too deep, which looks at other things: at
the depth of each item, and at whether the scope is smaller than the whole source. `prunes_run`
shows that the two agree: the walk leaves out nothing that would have been accepted, and so the
accepted records are, in this order, those of a pass over everything below the root.

The walk also leaves out items that the materializer would have held or reported. They do not change
what is accepted: where a walk is pruned, nothing below the direct children of the root is accepted,
and above these there is no folder to be forwarded (`exists_records_of_shallow`).
-/

namespace Winnow

variable {tree : FileTree} {set : FilterSet} {options : Options} {item : Item} {root : Location}
  {node found : Node} {scope : Scope}

/-- Nothing lies between the root and its direct children. -/
theorem RelPath.ancestors_eq_nil {path : RelPath} (shallow : path.depth ≤ 1) :
    path.ancestors = [] := by
  refine List.eq_nil_iff_forall_not_mem.2 fun folder above => ?_
  have shallower := depth_lt_of_mem_ancestors above
  refine (mem_ancestors_iff.1 above).1 (RelPath.ext (List.length_eq_zero_iff.1 ?_))
  exact Nat.lt_one_iff.1 (Nat.lt_of_lt_of_le shallower shallow)

namespace FilterSet

/-- What is rejected has been rejected by a check that gives the reason. -/
theorem exists_rejects {reason : RejectReason} (decided : set.decide item = .rejected reason) :
    ∃ check : Check, check.Rejects set item ∧ check.reason = reason := by
  rw [FilterSet.decide, rejection?_eq_first?] at decided
  cases first : Check.first? (Check.Rejects set item) with
  | none => rw [first] at decided; cases decided
  | some check =>
      rw [first] at decided
      cases decided
      have rejects := List.find?_some first
      exact ⟨check, of_decide_eq_true rejects, rfl⟩

/-- A filter set that is neither recursive nor scoped accepts nothing below the direct children of
the root. -/
theorem depth_le_of_isAccepted (flat : set.recursive = false) (unscoped : set.scope = none)
    (isAccepted : (set.decide item).isAccepted = true) : item.path.depth ≤ 1 := by
  have within := (set.isAccepted_decide_iff item).1 isAccepted .recursion
  by_contra deep
  have tooDeep : 2 ≤ item.path.depth := by omega
  refine within (?_ : set.isBeyondRecursion item = true)
  simp [isBeyondRecursion, isConfined, flat, unscoped, tooDeep]

/-- The scope does not reject the item at its own place. -/
theorem not_rejects_scope (configured : set.scope = some scope) (here : item.path = scope.path) :
    ¬(Check.filter .scope).Rejects set item := by
  rintro ⟨category, held, rejected⟩
  rw [category?, configured] at held
  obtain rfl := Option.some.inj held
  have contained : scope.contains item.path = true := Scope.contains_iff.2 (.inr (.inl here))
  exact Bool.false_ne_true (rejected.symm.trans contained)

/-- The item at the place of a scope is not too deep. -/
theorem not_rejects_recursion (configured : set.scope = some scope)
    (here : item.path = scope.path) : ¬Check.recursion.Rejects set item := by
  intro beyond
  change set.isBeyondRecursion item = true at beyond
  obtain ⟨tooDeep, unconfined⟩ := Bool.and_eq_true_iff.1 beyond
  have deep := of_decide_eq_true (Bool.and_eq_true_iff.1 tooDeep).2
  have whole : scope.path = .root := by
    simpa [isConfined, configured, Scope.isWhole, RelPath.isRoot_iff] using unconfined
  rw [here, whole] at deep
  exact absurd deep (by decide)

/-- The item at the place of a scope is rejected neither as out of scope nor as too deep. -/
theorem decide_at_scope (configured : set.scope = some scope) (here : item.path = scope.path) :
    set.decide item ≠ .rejected .outOfScope ∧ set.decide item ≠ .rejected .beyondRecursion := by
  constructor
  · intro decided
    obtain ⟨check, rejects, reason⟩ := exists_rejects decided
    cases check with
    | recursion => cases reason
    | filter kind =>
        cases kind with
        | scope => exact not_rejects_scope configured here rejects
        | excludePath | excludePattern | includePath | includePattern | includeAfter => cases reason
  · intro decided
    obtain ⟨check, rejects, reason⟩ := exists_rejects decided
    cases check with
    | recursion => exact not_rejects_recursion configured here rejects
    | filter kind => cases kind <;> cases reason

end FilterSet

namespace Walker

/-- The listing of a walk that goes no deeper than the direct children of the root is the one of a
recursive walk, without the deeper places. -/
theorem listing_pruned (tree : FileTree) (root : Location) :
    listing tree { recursive := false } root =
      (listing tree {} root).filter fun location => location.length ≤ root.length + 1 := by
  refine (pairwise_listing ..).eq_of_mem_iff ((pairwise_listing ..).filter _) fun location => ?_
  rw [List.mem_filter, mem_listing, mem_listing, decide_eq_true_eq]
  constructor
  · rintro ⟨below, rfl, listed⟩
    split at listed
    case isTrue atRoot => exact ⟨⟨below, rfl, by rw [if_pos atRoot]⟩, by simp [atRoot]⟩
    case isFalse belowRoot =>
      have shallow := listed.2.resolve_left Bool.false_ne_true
      refine ⟨⟨below, rfl, ?_⟩, by rw [List.length_append]; omega⟩
      rw [if_neg belowRoot]
      exact ⟨listed.1, .inl rfl⟩
  · rintro ⟨⟨below, rfl, listed⟩, shallow⟩
    rw [List.length_append] at shallow
    refine ⟨below, rfl, ?_⟩
    split at listed
    case isTrue atRoot => rw [if_pos atRoot]
    case isFalse belowRoot =>
      rw [if_neg belowRoot]
      exact ⟨listed.1, .inr (by omega)⟩

end Walker

namespace TreeSource

open Materializer History Walker

variable {source : TreeSource} {walked : WalkSettings} {entries : List WalkEntry}

/-- Whether the source is walked below the direct children of its root: for a recursive job, and for
a removal with a scope. -/
def GoesDeep (source : TreeSource) : Prop :=
  source.options.recursive = true ∨
    source.options.operation = .remove ∧ source.options.relativeSourcePath.isSome = true

/-- If only shallow items are accepted, the accepted records of a pass over a listing are the items'
own. Every record stands for an entry of the listing. -/
theorem exists_records_of_shallow (listing : IsListing tree walked root entries)
    (flat : set.recursive = false) (unscoped : set.scope = none) (aware : Bool) :
    ∃ records,
      ((Pass.new set aware).value.run .patient (entries.map WalkEntry.item)).value =
        ⟨records, .ok (Summary.tally records)⟩ ∧
      records.filter (·.isAccepted) =
        (ownRecords (set.decideAll (entries.map (·.item)))).filter (·.isAccepted) ∧
      ∀ record ∈ records, ∃ entry ∈ entries, entry.item.path = record.path := by
  obtain ⟨batches, after, observes, ran⟩ := Pass.exists_run_new set aware (entries.map (·.item))
  have enumeration := listing.isEnumeration_decideAll set
  refine ⟨_, ran, filter_isAccepted_final observes enumeration ?_, ?_⟩
  · intro decided arrived isAccepted
    obtain ⟨item, -, rfl⟩ := List.mem_map.1 arrived
    exact RelPath.ancestors_eq_nil (FilterSet.depth_le_of_isAccepted flat unscoped isAccepted)
  · intro record delivered
    have subjects := perm_subjects_final observes enumeration
    rw [FilterSet.decideAll, List.map_map, List.map_map] at subjects
    have listed := subjects.subset (List.mem_map_of_mem (f := Record.subject) delivered)
    obtain ⟨entry, member, same⟩ := List.mem_map.1 listed
    exact ⟨entry, member, congrArg Prod.fst same⟩

/-- The own records of the items of a pruned walk that are accepted are those of the items of a
recursive one. -/
theorem filter_ownRecords_pruned (plain : tree.IsPlainBelow root) (path : HostPath)
    (flat : set.recursive = false) (unscoped : set.scope = none) :
    let items walked := ((listing tree walked root).map (entryAt tree path root)).map (·.item)
    (ownRecords (set.decideAll (items { recursive := false }))).filter (·.isAccepted) =
      (ownRecords (set.decideAll (items {}))).filter (·.isAccepted) := by
  intro items
  simp only [items, listing_pruned, ownRecords, FilterSet.decideAll, List.map_map, List.filter_map]
  rw [List.filter_filter]
  refine congrArg _ (List.filter_congr fun location listed => ?_)
  dsimp only [Function.comp_apply]
  refine Bool.and_eq_left_iff_imp.2 fun isAccepted => ?_
  obtain ⟨below, rfl, -⟩ := mem_listing.1 listed
  have shallow := FilterSet.depth_le_of_isAccepted flat unscoped isAccepted
  rw [RelPath.depth, segments_entryAt plain path listed] at shallow
  rw [decide_eq_true_eq, List.length_append]
  omega

/-- A source that is not walked recursively has neither a recursive job nor a scope. -/
theorem settings_eq (set : FilterSet) :
    settings set = {} ∨
      settings set = { recursive := false } ∧ set.recursive = false ∧ set.scope = none := by
  unfold settings
  cases set.recursive with
  | true => exact .inl rfl
  | false =>
      cases set.scope with
      | some scope => exact .inl rfl
      | none => exact .inr ⟨rfl, rfl, rfl⟩

/-- The walk of a source is recursive as far as its options ask for that. -/
theorem goesDeep_iff (compiles : FilterSet.outcome (FilterSet.compile source.options) = .ok set) :
    source.GoesDeep ↔ (settings set).recursive = true := by
  have compiled := FilterSet.compile_eq_ok_iff.1 compiles
  rw [settings, Bool.or_eq_true, compiled.recursive, compiled.scope_eq]
  refine or_congr_right ?_
  split
  case isTrue removes => simp [removes]
  case isFalse keeps => simp [keeps]

/-- A listing that is not recursive has nothing below the direct children of its root. -/
theorem depth_le_of_listed {entry : WalkEntry}
    (listing : IsListing tree { recursive := false } root entries) (listed : entry ∈ entries) :
    entry.item.path.depth ≤ 1 := by
  have shown := (listing.complete entry.item.path).1 ⟨entry, listed, rfl⟩
  split at shown
  case isTrue atRoot =>
    rw [RelPath.isRoot_iff.1 atRoot]
    decide
  case isFalse belowRoot => exact shown.2.resolve_left Bool.false_ne_true

/-- A pass over what the source walks accepts what one over everything below the root does. It is
the same pass if the walk is recursive, and otherwise reports nothing below the direct children of
the root. -/
theorem exists_same_accepted
    (lookedUp : source.tree.lookup false source.root.path = .ok (root, node))
    (plain : source.tree.IsPlainBelow root) (set : FilterSet) (aware : Bool) :
    ∃ entries all records others,
      collect source.tree source.root (settings set) = .ok entries ∧
      collect source.tree source.root {} = .ok all ∧
      ((Pass.new set aware).value.run .patient (entries.map WalkEntry.item)).value =
        ⟨records, .ok (Summary.tally records)⟩ ∧
      ((Pass.new set aware).value.run .patient (all.map WalkEntry.item)).value =
        ⟨others, .ok (Summary.tally others)⟩ ∧
      records.filter (·.isAccepted) = others.filter (·.isAccepted) ∧
      if (settings set).recursive then records = others
      else ∀ record ∈ records, record.path.depth ≤ 1 := by
  have whole := @collect_unfollowed _ {} _ _ _ rfl lookedUp
  rcases settings_eq set with same | ⟨pruned, flat, unscoped⟩
  · obtain ⟨batches, after, -, ran⟩ := Pass.exists_run_new set aware
      (((listing source.tree {} root).map (entryAt source.tree source.root.path root)).map (·.item))
    rw [same]
    exact ⟨_, _, _, _, whole, whole, ran, ran, rfl, rfl⟩
  · have walked := @collect_unfollowed _ { recursive := false } _ _ _ rfl lookedUp
    have rootFound := (FileTree.lookup_eq_ok_iff.1 lookedUp).2
    have listing := fun settings : WalkSettings =>
      @isListing_entries _ settings root node plain source.root.path rootFound
    obtain ⟨records, ran, accepted, stands⟩ :=
      exists_records_of_shallow (listing { recursive := false }) flat unscoped aware
    obtain ⟨others, ranAll, acceptedAll, -⟩ :=
      exists_records_of_shallow (listing {}) flat unscoped aware
    rw [pruned]
    refine ⟨_, _, records, others, walked, whole, ran, ranAll, ?_, ?_⟩
    · rw [accepted, acceptedAll]
      exact filter_ownRecords_pruned plain source.root.path flat unscoped
    · intro record delivered
      obtain ⟨entry, listed, here⟩ := stands record delivered
      exact here ▸ depth_le_of_listed (listing { recursive := false }) listed

/-- A scoped walk comes upon what is at the place of the scope. -/
theorem exists_entry_at_scope (listing : IsListing tree (settings set) root entries)
    (configured : set.scope = some scope)
    (present : tree.node? (root ++ scope.path.segments) = some found) :
    ∃ entry ∈ entries, entry.item = itemOf scope.path found found.isFolder := by
  have recursive : (settings set).recursive = true := by simp [settings, configured]
  obtain ⟨entry, listed, here⟩ := (listing.complete scope.path).2 (by
    split
    case isTrue => rfl
    case isFalse belowRoot =>
      refine ⟨(FileTree.mem_iff_exists_node? ?_).2 ⟨found, present⟩, .inl recursive⟩
      exact List.append_ne_nil_of_right_ne_nil root fun empty => belowRoot (by
        rw [RelPath.isRoot, empty]; rfl))
  obtain ⟨node, sameFound, item, -⟩ := listing.faithful entry listed
  rw [here, present] at sameFound
  obtain rfl := Option.some.inj sameFound
  exact ⟨entry, listed, here ▸ item⟩

/-- A run over a tree source that nobody stops accepts the same records, in the same order, as a
pass with the same set over everything below the root. If the source is walked deep, the run is that
pass; otherwise it reports nothing below the direct children of the root. The place to which a
removal is confined is reached, however deep it is, whether or not the removal is recursive. -/
theorem prunes_run (lookedUp : source.tree.lookup false source.root.path = .ok (root, node))
    (plain : source.tree.IsPlainBelow root) (quiet : source.token = false)
    (compiles : FilterSet.outcome (FilterSet.compile source.options) = .ok set) :
    ∃ all records others,
      collect source.tree source.root {} = .ok all ∧
      (source.run .patient).value = ⟨records, .ok (Summary.tally records)⟩ ∧
      ((Pass.new set source.folderAware).value.run .patient (all.map WalkEntry.item)).value =
        ⟨others, .ok (Summary.tally others)⟩ ∧
      records.filter (·.isAccepted) = others.filter (·.isAccepted) ∧
      (source.GoesDeep → records = others) ∧
      (¬source.GoesDeep → ∀ record ∈ records, record.path.depth ≤ 1) ∧
      (source.options.operation = .remove →
        ∀ text, source.options.relativeSourcePath = some text →
          let place := RelPath.parse text
          ∀ found, source.tree.node? (root ++ place.segments) = some found →
            ∃ record ∈ records, record.path = place ∧ record.isFolder = found.isFolder ∧
              record.verdict = set.decide (itemOf place found found.isFolder) ∧
              record.verdict ≠ .rejected .outOfScope ∧
              record.verdict ≠ .rejected .beyondRecursion) := by
  have compiled := FilterSet.compile_eq_ok_iff.1 compiles
  obtain ⟨entries, all, records, others, walked, whole, ran, ranAll, accepted, extent⟩ :=
    exists_same_accepted lookedUp plain set source.folderAware
  have ended := value_run compiles walked .patient
  rw [quiet, ran] at ended
  refine ⟨all, records, others, whole, ended, ranAll, accepted, ?_, ?_, ?_⟩
  · intro deep
    rwa [if_pos ((goesDeep_iff compiles).1 deep)] at extent
  · intro shallow
    rwa [if_neg (mt (goesDeep_iff compiles).2 shallow)] at extent
  intro removes text given place found present
  obtain ⟨listed, sameWalk, listing⟩ :=
    @exists_collect _ (settings set) _ _ _ lookedUp rfl plain
  obtain rfl := Except.ok.inj (walked.symm.trans sameWalk)
  have configured : set.scope = some ⟨place, source.options.recursive⟩ := by
    rw [compiled.scope_eq, if_pos removes, given]
    rfl
  obtain ⟨entry, entryListed, item⟩ := exists_entry_at_scope listing configured present
  -- A removal forwards nothing, so the item at the place of the scope has a record of its own.
  have reported := (Pass.completes_new_of_remove (compiled.operation.trans removes)
    source.folderAware (entries.map (·.item))).run
  obtain ⟨rfl, -⟩ := Outcome.mk.inj (ran.symm.trans reported)
  refine ⟨_, List.mem_append_left _ (List.mem_map_of_mem (List.mem_map_of_mem entryListed)), ?_⟩
  rw [item]
  exact ⟨rfl, isFolder_itemOf .., rfl, FilterSet.decide_at_scope configured rfl⟩

/-- A removal that is not recursive reaches its scope inside of a folder. -/
theorem prunes_run_nested_scope :
    let options : Options := { operation := .remove, relativeSourcePath := some "a/b" }
    ∃ tree set, FileTree.ofNodes? "/base"
        [("a/b", ⟨.file 1, ⟨0⟩⟩), ("a/c", ⟨.file 1, ⟨0⟩⟩)] = some tree ∧
      let source : TreeSource := { tree, root := .absolute ⟨[]⟩, options }
      FilterSet.outcome (FilterSet.compile options) = .ok set ∧
      ∃ all records others,
        collect tree source.root {} = .ok all ∧
        (source.run .patient).value = ⟨records, .ok (Summary.tally records)⟩ ∧
        ((Pass.new set source.folderAware).value.run .patient (all.map WalkEntry.item)).value =
          ⟨others, .ok (Summary.tally others)⟩ ∧
        records.filter (·.isAccepted) = others.filter (·.isAccepted) ∧
        (source.GoesDeep → records = others) ∧
        (¬source.GoesDeep → ∀ record ∈ records, record.path.depth ≤ 1) ∧
        (options.operation = .remove → ∀ text, options.relativeSourcePath = some text →
          let place := RelPath.parse text
          ∀ found, tree.node? ([] ++ place.segments) = some found →
            ∃ record ∈ records, record.path = place ∧ record.isFolder = found.isFolder ∧
              record.verdict = set.decide (itemOf place found found.isFolder) ∧
              record.verdict ≠ .rejected .outOfScope ∧
              record.verdict ≠ .rejected .beyondRecursion) := by
  intro options
  let nodes : List (String × Node) :=
    [("a/b", ⟨.file 1, ⟨0⟩⟩), ("a/c", ⟨.file 1, ⟨0⟩⟩)]
  have keys : (FileTree.ofNodes? "/base" nodes).map (·.nodes.keys) =
      some [["a"], ["a", "b"], ["a", "c"]] := by
    decide +kernel
  obtain ⟨tree, built, keys⟩ := Option.map_eq_some_iff.1 keys
  have plain : tree.IsPlainBelow [] := FileTree.isPlainBelow_of_keys keys (by decide)
  have succeeds : (FilterSet.outcome (FilterSet.compile options)).isOk = true := by decide
  obtain ⟨set, compiles⟩ := isOk_iff.1 succeeds
  exact ⟨tree, set, built, compiles,
    @prunes_run set [] _ { tree, root := .absolute ⟨[]⟩, options } (tree.lookup_base false) plain
      rfl compiles⟩

end TreeSource

end Winnow
