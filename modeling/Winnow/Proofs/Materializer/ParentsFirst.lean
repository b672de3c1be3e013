import Mathlib.Data.List.Forall2
import Winnow.Proofs.Materializer.Accounting

/-!
# Parents first

A job that works through its records in order never meets an accepted item before the folders that
lead to it. `ParentsFirst` says so of a list of records, and `parentsFirst_replies` proves it of
whatever a folder-aware materializer answers, for items that arrive in any order. Each single
answer lists the folders that it forwards from the top down and ends with the item itself.

The search for ancestors to forward stops at an emitted one, so the argument needs the closure of
the emitted folders under ancestors (`Tracks`) and a record for each of them (`Accounts`).
-/

namespace Winnow

namespace Record

variable {earlier later records : List Record} {record : Record} {folders : List RelPath}

/-- Every accepted record comes after an accepted folder record for each folder above it. -/
def ParentsFirst (records : List Record) : Prop :=
  ∀ before record after, records = before ++ record :: after → record.isAccepted = true →
    ∀ ancestor ∈ record.path.ancestors, Provides before ancestor

theorem parentsFirst_nil : ParentsFirst [] := by
  intro before record after split
  cases before <;> cases split

/-- A record may come next if it is rejected or everything above it is provided. -/
theorem ParentsFirst.concat (ordered : ParentsFirst earlier)
    (provided : record.isAccepted = true →
      ∀ ancestor ∈ record.path.ancestors, Provides earlier ancestor) :
    ParentsFirst (earlier ++ [record]) := by
  intro before current after split accepted ancestor above
  rcases List.eq_nil_or_concat after with rfl | ⟨rest, last, rfl⟩
  · obtain ⟨rfl, same⟩ := List.append_inj' split rfl
    cases same
    exact provided accepted ancestor above
  · rw [List.concat_eq_append, ← List.cons_append, ← List.append_assoc] at split
    obtain ⟨rfl, _⟩ := List.append_inj' split rfl
    exact ordered before current rest rfl accepted ancestor above

/-- Folders may come next if, whenever one has its turn, everything above it is provided or has had
its turn. -/
theorem ParentsFirst.forward (ordered : ParentsFirst earlier)
    (inTurn : ∀ before folder after, folders = before ++ folder :: after →
      ∀ ancestor ∈ folder.ancestors, Provides earlier ancestor ∨ ancestor ∈ before)
    (synthesized : RelPath → Bool) :
    ParentsFirst (earlier ++ folders.map fun folder => .ancestor folder (synthesized folder)) := by
  induction folders generalizing earlier with
  | nil => simpa using ordered
  | cons top rest inductionHypothesis =>
      have topProvided : ∀ ancestor ∈ top.ancestors, Provides earlier ancestor := by
        intro ancestor above
        exact (inTurn [] top rest rfl ancestor above).resolve_right List.not_mem_nil
      have restInTurn : ∀ before folder after, rest = before ++ folder :: after →
          ∀ ancestor ∈ folder.ancestors,
            Provides (earlier ++ [.ancestor top (synthesized top)]) ancestor ∨
              ancestor ∈ before := by
        rintro before folder after rfl ancestor above
        rcases inTurn (top :: before) folder after rfl ancestor above with present | had
        · exact .inl (present.append _)
        · rcases List.mem_cons.1 had with rfl | inBefore
          · exact .inl ⟨_, List.mem_append_right _ List.mem_cons_self, rfl, rfl, rfl⟩
          · exact .inr inBefore
      have extended := inductionHypothesis (ordered.concat fun _ => topProvided) restInTurn
      simpa using extended

end Record

namespace Materializer

open History Record

variable {before after : Materializer} {history : History} {batches : List (List Record)}
  {item : Item} {verdict : Verdict} {records : List Record}

/-- The missing folders above a place are forwarded from the top down. -/
theorem pairwise_depth_missing (materializer : Materializer) (path : RelPath) :
    (materializer.missing path).reverse.Pairwise fun upper lower => upper.depth < lower.depth :=
  List.pairwise_reverse.2
    ((RelPath.pairwise_depth_ancestors path).sublist (List.takeWhile_sublist _))

/-- The records of one call: ancestors of the item from the top down, and right after them the
item's own record; or no record at all. -/
def TopDownThenOwn (decided : Item × Verdict) (records : List Record) : Prop :=
  ∃ forwarded own, records = forwarded ++ own ∧
    (∀ record ∈ forwarded, record.path ∈ decided.1.path.ancestors ∧ record.isFolder = true ∧
      record.verdict = .accepted .ancestorOfMatch) ∧
    (forwarded.Pairwise fun upper lower => upper.path.depth < lower.path.depth) ∧
    (own = [.observed decided.1.path decided.1.isFolder decided.2] ∨ forwarded = [] ∧ own = [])

/-- One call hands out its records in that shape. -/
theorem Placement.topDownThenOwn (placement : Placement before item verdict records after) :
    TopDownThenOwn (item, verdict) records := by
  cases placement with
  | known _ _ recordsEq _ _ | held _ _ _ recordsEq _ _ =>
      exact ⟨[], [], recordsEq, by simp, .nil, .inr ⟨rfl, rfl⟩⟩
  | accepted _ _ recordsEq _ _ =>
      refine ⟨_, _, recordsEq, ?_, ?_, .inl rfl⟩
      · intro record listed
        obtain ⟨folder, missing, rfl⟩ := List.mem_map.1 listed
        exact ⟨(List.takeWhile_sublist _).subset (List.mem_reverse.1 missing), rfl, rfl⟩
      · exact List.pairwise_map.2 (pairwise_depth_missing before item.path)
  | reported _ isFile recordsEq _ _ =>
      refine ⟨[], _, recordsEq, by simp, .nil, .inl ?_⟩
      rw [isFile]

/-- One call keeps the parents first. -/
theorem Placement.parentsFirst {earlier : List Record}
    (placement : Placement before item verdict records after) (tracks : Tracks history before)
    (accounts : Accounts history earlier before) (ordered : ParentsFirst earlier) :
    ParentsFirst (earlier ++ records) := by
  -- What has been emitted is provided already, so a folder above the item is provided or missing.
  have reached : ∀ ancestor ∈ item.path.ancestors,
      Provides earlier ancestor ∨ ancestor ∈ before.missing item.path := by
    intro ancestor above
    by_cases emitted : ancestor ∈ before.emitted
    · exact .inl (accounts.provides_iff.2 emitted)
    · exact .inr (tracks.gapless.mem_missing_iff.2 ⟨above, emitted⟩)
  cases placement with
  | known _ _ recordsEq _ _ | held _ _ _ recordsEq _ _ =>
      rw [recordsEq, List.append_nil]
      exact ordered
  | accepted _ _ recordsEq _ _ =>
      rw [recordsEq, ← List.append_assoc]
      refine ParentsFirst.concat (ordered.forward ?_ _) ?_
      · have inTurn := settlesInTurn_missing tracks.gapless item.path
        intro earlier folder later split ancestor above
        rw [accounts.provides_iff]
        exact inTurn earlier folder later split ancestor above
      · intro _ ancestor above
        rcases reached ancestor above with present | missing
        · exact present.append _
        · have listed := List.mem_map_of_mem
            (f := fun folder => Record.ancestor folder (!before.pending.contains folder))
            (List.mem_reverse.2 missing)
          exact ⟨_, List.mem_append_right _ listed, rfl, rfl, rfl⟩
  | reported isRejected _ recordsEq _ _ =>
      rw [recordsEq]
      exact ordered.concat fun accepted =>
        absurd (isRejected.symm.trans accepted) Bool.false_ne_true

/-- Whatever a history brings out has the parents first. -/
theorem parentsFirst_of_observes (observes : Observes {} history batches after) :
    ParentsFirst batches.flatten := by
  induction observes with
  | nothing => exact parentsFirst_nil
  | newest prior taken inductionHypothesis =>
      rw [List.flatten_concat]
      exact (placement_of_observe prior.folderAware taken).parentsFirst
        (tracks_of_observes prior) (accounts_of_observes prior) inductionHypothesis

/-- Each item of a history brings out its records in the same shape. -/
theorem topDownThenOwn_of_observes (observes : Observes {} history batches after) :
    List.Forall₂ TopDownThenOwn history batches := by
  induction observes with
  | nothing => exact .nil
  | newest prior taken inductionHypothesis =>
      have placement := placement_of_observe prior.folderAware taken
      exact List.rel_append inductionHypothesis (.cons placement.topDownThenOwn .nil)

/-- Whatever arrives, and in whatever order: an accepted record comes after accepted records for
all folders above it, and every call forwards folders from the top down, right before the item
that needs them. -/
theorem parentsFirst_replies (history : History) :
    let replies := ({ folderAware := true } : Materializer).replies (history.map Call.ofDecided)
    ParentsFirst (replies.flatMap Reply.delivered) ∧
      List.Forall₂
        (fun decided reply => ∃ records, reply = .records records ∧ TopDownThenOwn decided records)
        history replies := by
  obtain ⟨batches, after, observes, answered⟩ :=
    replies_observations (isOpen_fresh true) history []
  rw [List.append_nil, replies_nil, List.append_nil] at answered
  dsimp only
  rw [answered]
  constructor
  · rw [delivered_records]
    exact parentsFirst_of_observes observes
  · refine List.forall₂_map_right_iff.2 ((topDownThenOwn_of_observes observes).imp ?_)
    intro decided records shape
    exact ⟨records, rfl, shape⟩

end Materializer

end Winnow
