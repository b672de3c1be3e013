import Winnow.Proofs.Materializer.Enumeration

/-!
# Which folders are synthesized

A record is marked as synthesized when it stands for a folder that no earlier item has reported.
The mark is set by looking at the held folders alone, so it would be wrong for a folder that has
been reported and is neither held nor emitted. There is no such folder (`Tracks`).

`synthesized_replies` says so of every record of every answer. Seen over a whole history, a folder
has a synthesized record exactly when it was needed before it was reported: at some time an accepted
item lay below it and the folder itself had not arrived.
-/

namespace Winnow.Materializer

open History Record

variable {start before after : Materializer} {history first second earlier later : History}
  {batches : List (List Record)} {item : Item} {verdict : Verdict} {records : List Record}
  {record : Record} {folder : RelPath}

/-- A history that is observed in two parts is observed part by part. -/
theorem Observes.of_append (observes : Observes start (first ++ second) batches after) :
    ∃ firstBatches middle secondBatches, Observes start first firstBatches middle ∧
      Observes middle second secondBatches after ∧ batches = firstBatches ++ secondBatches := by
  induction first generalizing start batches with
  | nil => exact ⟨[], start, batches, .nothing, observes, rfl⟩
  | cons decided first inductionHypothesis =>
      obtain ⟨records, next, rest, taken, others, rfl⟩ := observes.of_cons
      obtain ⟨firstBatches, middle, secondBatches, initial, final, rfl⟩ :=
        inductionHypothesis others
      exact ⟨records :: firstBatches, middle, secondBatches, .oldest taken initial, final, rfl⟩

/-- An item that arrives after others brings out some records. -/
def Brings (start : Materializer) (earlier : History) (item : Item) (verdict : Verdict)
    (records : List Record) : Prop :=
  ∃ batches current next, Observes start earlier batches current ∧
    (current.observe item verdict).value = (.ok records, next)

/-- The item at a place in a history brings out the batch at that place. -/
theorem Observes.brings_of_split
    (observes : Observes start (earlier ++ (item, verdict) :: later) batches after) :
    ∃ records, batches[earlier.length]? = some records ∧
      Brings start earlier item verdict records := by
  obtain ⟨earlierBatches, current, laterBatches, initial, final, rfl⟩ := observes.of_append
  obtain ⟨records, next, rest, taken, -, rfl⟩ := final.of_cons
  refine ⟨records, ?_, earlierBatches, current, next, initial, taken⟩
  rw [← initial.length_batches, List.getElem?_append_right (Nat.le_refl _), Nat.sub_self]
  rfl

/-- Every record that is handed out has been brought out by some item. -/
theorem Observes.exists_brings (observes : Observes start history batches after)
    (listed : record ∈ batches.flatten) :
    ∃ earlier item verdict later records, history = earlier ++ (item, verdict) :: later ∧
      Brings start earlier item verdict records ∧ record ∈ records := by
  induction observes with
  | nothing => exact absurd listed List.not_mem_nil
  | @newest history batches current item verdict records after prior taken inductionHypothesis =>
      rw [List.flatten_concat, List.mem_append] at listed
      rcases listed with old | new
      · obtain ⟨earlier, oldItem, oldVerdict, later, oldRecords, rfl, brings⟩ :=
          inductionHypothesis old
        refine ⟨earlier, oldItem, oldVerdict, later ++ [(item, verdict)], oldRecords, ?_, brings⟩
        rw [List.append_assoc, List.cons_append]
      · have brings : Brings start history item verdict records :=
          ⟨batches, current, after, prior, taken⟩
        exact ⟨history, item, verdict, [], records, rfl, brings, new⟩

/-- A record stands for a folder above the item, which is then accepted, or for the item. -/
theorem Placement.forwarded_or_own (placement : Placement before item verdict records after)
    (listed : record ∈ records) :
    (verdict.isAccepted = true ∧ record.path ∈ item.path.ancestors ∧ record.isFolder = true ∧
        record.verdict = .accepted .ancestorOfMatch) ∨
      record = .observed item.path item.isFolder verdict := by
  cases placement with
  | known _ _ recordsEq _ _ | held _ _ _ recordsEq _ _ =>
      rw [recordsEq] at listed
      exact absurd listed List.not_mem_nil
  | accepted isAccepted _ recordsEq _ _ =>
      rw [recordsEq, List.mem_append, List.mem_map, List.mem_singleton] at listed
      rcases listed with ⟨folder, missing, rfl⟩ | own
      · have above := (List.takeWhile_sublist _).subset (List.mem_reverse.1 missing)
        exact .inl ⟨isAccepted, above, rfl, rfl⟩
      · exact .inr own
  | reported _ isFile recordsEq _ _ =>
      rw [recordsEq, ← isFile, List.mem_singleton] at listed
      exact .inr listed

/-- What an item brings out of a fresh materializer depends on what the earlier ones say. -/
theorem Brings.exists_placement (brings : Brings {} earlier item verdict records) :
    ∃ before after, Tracks earlier before ∧ Placement before item verdict records after := by
  obtain ⟨batches, current, next, observes, taken⟩ := brings
  exact ⟨current, next, tracks_of_observes observes,
    placement_of_observe observes.folderAware taken⟩

/-- A record is synthesized exactly when it forwards a folder above the item that no earlier item
has reported. -/
theorem Brings.synthesized_iff (brings : Brings {} earlier item verdict records)
    (listed : record ∈ records) :
    record.synthesized = true ↔
      (record.verdict = .accepted .ancestorOfMatch ∧ record.isFolder = true ∧
          record.path ∈ item.path.ancestors) ∧
        reports earlier record.path = [] := by
  obtain ⟨before, after, tracks, placement⟩ := brings.exists_placement
  rw [placement.synthesized_iff tracks listed]
  refine and_congr_left fun _ => ⟨fun above => ?_, fun forwarded => forwarded.2.2⟩
  rcases placement.forwarded_or_own listed with ⟨-, -, isFolder, reason⟩ | rfl
  · exact ⟨reason, isFolder, above⟩
  · exact absurd above (RelPath.not_mem_ancestors_self item.path)

/-- A folder is synthesized exactly when it was needed before it was reported. -/
theorem exists_synthesized_iff (observes : Observes {} history batches after) :
    (∃ record ∈ batches.flatten, record.synthesized = true ∧ record.path = folder) ↔
      ∃ earlier, earlier <+: history ∧ LeadsDown earlier folder ∧ reports earlier folder = [] := by
  constructor
  · rintro ⟨record, listed, synthesized, rfl⟩
    obtain ⟨earlier, item, verdict, later, records, rfl, brings, among⟩ :=
      observes.exists_brings listed
    obtain ⟨⟨-, -, above⟩, unreported⟩ := (brings.synthesized_iff among).1 synthesized
    obtain ⟨before, after, -, placement⟩ := brings.exists_placement
    have elsewhere : item.path ≠ record.path := fun here =>
      RelPath.not_mem_ancestors_self _ (here ▸ above)
    refine ⟨earlier ++ [(item, verdict)], ⟨later, List.append_cons .. |>.symm⟩,
      leadsDown_concat.2 (.inr ⟨?_, above⟩), ?_⟩
    · rcases placement.forwarded_or_own among with ⟨isAccepted, -⟩ | rfl
      · exact isAccepted
      · exact absurd rfl elsewhere
    · rw [reports_append, unreported, reports_singleton, if_neg fun own => elsewhere own.2]
      rfl
  · rintro ⟨needed, ⟨rest, rfl⟩, leads, unreported⟩
    obtain ⟨neededBatches, middle, restBatches, initial, -, rfl⟩ := observes.of_append
    have emitted := ((tracks_of_observes initial).emitted folder).2 (.inr leads)
    obtain ⟨record, listed, isFolder, rfl⟩ :=
      Record.mem_folderPaths_iff.1 (((accounts_of_observes initial).emitted folder).2 emitted)
    obtain ⟨earlier, item, verdict, later, records, rfl, brings, among⟩ :=
      initial.exists_brings listed
    obtain ⟨before, after, tracks, placement⟩ := brings.exists_placement
    refine ⟨record, by simp [listed], ?_, rfl⟩
    rw [placement.synthesized_iff tracks among]
    rw [reports_append, List.append_eq_nil_iff] at unreported
    refine ⟨?_, unreported.1⟩
    -- The folder has not arrived, so its record is not that of an item.
    rcases placement.forwarded_or_own among with ⟨-, above, -, -⟩ | rfl
    · exact above
    · exact absurd unreported.2 (reports_ne_nil_iff.2 ⟨_, List.mem_cons_self, isFolder, rfl⟩)

/-- Every answer to an item marks as synthesized those of its records that forward a folder above
the item which no earlier item has reported, whatever the verdict on it was. Over a whole history
these are the folders that were needed before they were reported. The flush marks nothing. -/
theorem synthesized_replies (history : History) :
    ∃ (batches : List (List Record)) (flushed : List Record) (summary : Summary),
      ({ folderAware := true } : Materializer).replies
          (history.map Call.ofDecided ++ [.finalize]) =
        batches.map Reply.records ++ [.totals flushed summary] ∧
      (∀ earlier item verdict later, history = earlier ++ (item, verdict) :: later →
        ∃ records, batches[earlier.length]? = some records ∧ ∀ record ∈ records,
          (record.synthesized = true ↔
            (record.verdict = .accepted .ancestorOfMatch ∧ record.isFolder = true ∧
                record.path ∈ item.path.ancestors) ∧
              reports earlier record.path = [])) ∧
      (∀ folder,
        (∃ record ∈ batches.flatten, record.synthesized = true ∧ record.path = folder) ↔
          ∃ earlier, earlier <+: history ∧ LeadsDown earlier folder ∧
            reports earlier folder = []) ∧
      ∀ record ∈ flushed, record.synthesized = false := by
  obtain ⟨batches, after, observes, answered⟩ :=
    replies_observations (isOpen_fresh true) history [.finalize]
  rw [replies_finalize (observes.isOpen (isOpen_fresh true))] at answered
  refine ⟨batches, _, _, answered, ?_, fun folder => exists_synthesized_iff observes, ?_⟩
  · rintro earlier item verdict later rfl
    obtain ⟨records, here, brings⟩ := observes.brings_of_split
    exact ⟨records, here, fun record listed => brings.synthesized_iff listed⟩
  · intro record flushed
    exact synthesized_of_mem_held flushed

end Winnow.Materializer
