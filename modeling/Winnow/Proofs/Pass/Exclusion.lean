import Winnow.Proofs.FilterSet.Decision
import Winnow.Proofs.Materializer.Rearrangement
import Winnow.Proofs.Pass.Interruption

/-!
# Excluded places

A materializer forwards the folders above an accepted item without asking any filter about them,
even if they have been rejected themselves. Still no excluded folder is ever forwarded, because an
excluded folder excludes everything below it: every accepted record lies at or above an item that
has been accepted (`reaches_of_observes`), and an item that is accepted lies below nothing excluded.
-/

namespace Winnow

/-- Some item at a place or below it has been accepted. -/
def History.Reaches (history : History) (path : RelPath) : Prop :=
  ∃ entry ∈ history, entry.2.isAccepted = true ∧ path.segments <+: entry.1.path.segments

namespace Materializer

open History Record

variable {start before after : Materializer} {history : History} {batches : List (List Record)}
  {item : Item} {verdict : Verdict} {records : List Record} {record : Record} {folderAware : Bool}

/-- An accepted record that an item brings out lies at or above the item, which is accepted. -/
theorem isAccepted_of_observe
    (taken : (before.observe item verdict).value = (.ok records, after))
    (listed : record ∈ records) (isAccepted : record.isAccepted = true) :
    verdict.isAccepted = true ∧ record.path.segments <+: item.path.segments := by
  have own : record = .observed item.path item.isFolder verdict →
      verdict.isAccepted = true ∧ record.path.segments <+: item.path.segments := by
    rintro rfl
    exact ⟨isAccepted, List.prefix_rfl⟩
  cases aware : before.folderAware with
  | false =>
      obtain ⟨rfl, _⟩ := flat_of_observe aware taken
      exact own (List.mem_singleton.1 listed)
  | true =>
      cases placement_of_observe aware taken with
      | known _ _ recordsEq _ _ | held _ _ _ recordsEq _ _ =>
          rw [recordsEq] at listed
          exact absurd listed List.not_mem_nil
      | accepted itemAccepted _ recordsEq _ _ =>
          rw [recordsEq, List.mem_append, List.mem_map, List.mem_singleton] at listed
          rcases listed with ⟨folder, missing, rfl⟩ | observed
          · have above : folder ∈ item.path.ancestors :=
              (List.takeWhile_sublist _).subset (List.mem_reverse.1 missing)
            exact ⟨itemAccepted, (RelPath.mem_ancestors_iff.1 above).2.2⟩
          · exact own observed
      | reported _ isFile recordsEq _ _ =>
          rw [recordsEq, ← isFile] at listed
          exact own (List.mem_singleton.1 listed)

/-- Every accepted record that a history brings out lies at or above an accepted item. -/
theorem reaches_of_observes (observes : Observes start history batches after)
    (listed : record ∈ batches.flatten) (isAccepted : record.isAccepted = true) :
    history.Reaches record.path := by
  induction observes with
  | nothing => exact absurd listed List.not_mem_nil
  | newest _ taken inductionHypothesis =>
      rw [List.flatten_concat, List.mem_append] at listed
      rcases listed with earlier | latest
      · obtain ⟨entry, arrived, reached⟩ := inductionHypothesis earlier
        exact ⟨entry, List.mem_append_left _ arrived, reached⟩
      · have reached := isAccepted_of_observe taken latest isAccepted
        exact ⟨_, List.mem_append_right _ List.mem_cons_self, reached⟩

end Materializer

namespace Pass

open FilterSet EntryList

variable {pass : Pass} {options : Options} {set : FilterSet} {items : List Item} {record : Record}
  {ended : Outcome PassError} {folderAware : Bool}

/-- However a run of a fresh pass ends, its accepted records lie at or above items that it has
accepted. -/
theorem Ends.reaches (ends : Ends pass items ended)
    (fresh : pass.materializer = { folderAware }) (delivered : record ∈ ended.delivered)
    (isAccepted : record.isAccepted = true) :
    (pass.set.decideAll items).Reaches record.path := by
  cases ends with
  | completed observes =>
      rcases List.mem_append.1 delivered with immediate | flushed
      · exact Materializer.reaches_of_observes observes immediate isAccepted
      · rw [fresh] at observes
        have isRejected := Materializer.isRejected_of_mem_held observes flushed
        exact absurd (isRejected.symm.trans isAccepted) Bool.false_ne_true
  | stopped split observes =>
      obtain ⟨entry, arrived, reached⟩ :=
        Materializer.reaches_of_observes observes delivered isAccepted
      refine ⟨entry, ?_, reached⟩
      rw [← split, FilterSet.decideAll, List.map_append]
      exact List.mem_append_left _ arrived

/-- Every accepted record that a pass delivers, stopped or not, lies at or above an item that it has
accepted. -/
theorem reaches_of_run {token : Bool} {sink : Sink}
    (delivered : record ∈ ((new set folderAware token).value.run sink items).value.delivered)
    (isAccepted : record.isAccepted = true) : (set.decideAll items).Reaches record.path := by
  rw [value_new] at delivered
  generalize (folderAware && Decidable.decide (set.operation ≠ .remove)) = aware at delivered
  have ends := @run_ends { set, materializer := { folderAware := aware }, token }
    (Materializer.isOpen_fresh aware) sink items
  exact ends.reaches rfl delivered isAccepted

/-- An item at or below an excluded place is not accepted. -/
theorem covers_excludePath_of_isAccepted {item : Item} {list : PathList}
    (configured : list ∈ set.excludePath) (isAccepted : (set.decide item).isAccepted = true) :
    list.covers item.path = false := by
  have unrejected := (set.isAccepted_decide_iff item).1 isAccepted (.filter .excludePath)
  rw [← Bool.not_eq_true]
  intro covered
  refine unrejected ⟨.excludePath list, ?_, covered⟩
  rw [category?, Option.mem_def.1 configured]
  rfl

/-- Whatever a pass delivers, whether it is stopped or not and wherever folders are forwarded, no
accepted record lies at or below an excluded place. -/
theorem excludePath_run (compiles : outcome (compile options) = .ok set) (folderAware token : Bool)
    (sink : Sink) (items : List Item) :
    ∀ record ∈ ((new set folderAware token).value.run sink items).value.delivered,
      record.isAccepted = true →
        (∀ list ∈ set.excludePath, list.covers record.path = false) ∧
          ∀ text ∈ listed options.excludePath,
            ¬(RelPath.parse text).segments <+: record.path.segments := by
  intro record delivered isAccepted
  have compiled := compile_eq_ok_iff.1 compiles
  obtain ⟨entry, arrived, itemAccepted, above⟩ := reaches_of_run delivered isAccepted
  obtain ⟨item, _, rfl⟩ := List.mem_map.1 arrived
  constructor
  · intro list configured
    rw [← Bool.not_eq_true]
    intro covered
    have uncovered := covers_excludePath_of_isAccepted configured itemAccepted
    exact absurd (uncovered.symm.trans (PathList.covers_of_prefix above covered))
      Bool.false_ne_true
  · intro text given starts
    have unfailed := (compiled.isAccepted_decide_iff item).1 itemAccepted
    exact unfailed (.filter .excludePath) ⟨text, given, starts.trans above⟩

/-- The inclusion names the excluded folder as well, and the folder above it is forwarded for the
sake of a sibling. -/
theorem excludePath_run_beside_inclusion :
    let options : Options :=
      { recursive := true, excludePath := some "a/b;c", includePath := some "a/b;a/d" }
    let folder : Item := ⟨.parse "a", .folder, ⟨0⟩⟩
    let excluded : Item := ⟨.parse "a/b/x", .file 1, ⟨0⟩⟩
    let included : Item := ⟨.parse "a/d/x", .file 1, ⟨0⟩⟩
    ∃ set, outcome (compile options) = .ok set ∧
      ∀ record ∈ ((new set).value.run (.limited 3) [folder, excluded, included]).value.delivered,
        record.isAccepted = true →
          (∀ list ∈ set.excludePath, list.covers record.path = false) ∧
            ∀ text ∈ listed options.excludePath,
              ¬(RelPath.parse text).segments <+: record.path.segments := by
  intro options folder excluded included
  have succeeds : (outcome (compile options)).isOk = true := by decide
  obtain ⟨set, compiles⟩ := isOk_iff.1 succeeds
  exact ⟨set, compiles, excludePath_run compiles true false (.limited 3) _⟩

end Pass

end Winnow
