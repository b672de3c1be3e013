import Winnow.FileTree.Build
import Winnow.Proofs.Walk.Exploration

/-!
# Ends of walks

A walk may be asked for its next entry any number of times. `Ends` says what it answers: some
entries, at most one error after them, and nothing from then on (`Ends.answer`). Every walk that has
started ends in this way, however its links are placed (`Explored.exists_ends`). The paths on the
way do not bound it, since links may lead around in a circle; what does is that a folder is entered
once, so that each node of the tree is listed at most once.

`ends_start` adds what the walk has listed by then: exactly what the entered folders contain, unless
an error has cut the listing short.
-/

namespace Winnow.Walker

variable {tree : FileTree} {settings : WalkSettings} {source : WalkRoot}
  {walker after last : Walker} {root entry : WalkEntry} {entries later : List WalkEntry}
  {error : WalkError} {error? : Option WalkError} {openings : List Opening}

/-- A walk that has been asked for its next entry some times. -/
def afterCalls (walker : Walker) : Nat → Walker
  | 0 => walker
  | calls + 1 => walker.next.value.2.afterCalls calls

/-- What a walk answers to a call for its next entry; calls are counted from 0. -/
def answer (walker : Walker) (call : Nat) : Option (Except WalkError WalkEntry) :=
  (walker.afterCalls call).next.value.1

/-- What a walk answers that lists some entries and meets at most one error. -/
def answers (entries : List WalkEntry) (error? : Option WalkError) :
    List (Except WalkError WalkEntry) :=
  entries.map .ok ++ (error?.map .error).toList

/-- A walk that has met an error lists nothing more. -/
theorem value_next_of_finished (finished : walker.finished = true) :
    walker.next.value = (none, walker) := by
  simp only [next, finished, if_true, Noted.value_pure]

/-- A walk that has ended stays so. -/
theorem ended_next (ended : walker.next.value.1 = none) :
    walker.next.value.2.next.value.1 = none := by
  cases finished : walker.finished with
  | true => rw [value_next_of_finished finished, value_next_of_finished finished]
  | false =>
      obtain ⟨noRootEntry, nothing⟩ := (value_next_eq_none_iff finished).1 ended
      have exhausted := nextName?_eq_none_iff.2 nothing
      have step : walker.next.value = (none, { walker with stack := [] }) := by
        simp only [next, finished, noRootEntry, exhausted]
        rfl
      rw [step]
      exact (@value_next_eq_none_iff { walker with stack := [] } finished).2 ⟨noRootEntry, rfl⟩

/-- An error ends a walk, and enters nothing. -/
theorem ended_of_failed (failed : walker.next.value.1 = some (.error error)) :
    walker.next.value.2.next.value.1 = none ∧ walker.next.value.2.visited = walker.visited := by
  cases finished : walker.finished with
  | true => rw [value_next_of_finished finished] at failed; cases failed
  | false =>
      cases held : walker.rootEntry with
      | some rootEntry => rw [value_next_of_rootEntry finished held] at failed; cases failed
      | none =>
          cases first : nextName? walker.stack with
          | none =>
              simp only [next, finished, held, first] at failed
              cases failed
          | some named =>
              obtain ⟨path, place, frames⟩ := named
              cases inspected : { walker with stack := frames }.inspect path with
              | ok found =>
                  rw [value_next_of_visit finished held first (value_visit inspected place)]
                    at failed
                  cases failed
              | error error =>
                  rw [value_next_of_visit finished held first (value_visit_of_error inspected)]
                  exact ⟨congrArg Prod.fst (value_next_of_finished rfl), rfl⟩

/-- A walk that has ended answers nothing. -/
theorem answer_of_ended (ended : walker.next.value.1 = none) (call : Nat) :
    walker.answer call = none := by
  induction call generalizing walker with
  | zero => exact ended
  | succ call inductionHypothesis => exact inductionHypothesis (ended_next ended)

namespace Ends

/-- A walk answers its entries, then its error if there is one, and then nothing. -/
theorem answer (ends : Ends walker entries error? last) (call : Nat) :
    walker.answer call = (answers entries error?)[call]? := by
  induction ends generalizing call with
  | exhausted ended => rw [answer_of_ended ended]; rfl
  | failed failed =>
      cases call with
      | zero => exact failed
      | succ call => exact answer_of_ended (ended_of_failed failed).1 call
  | @cons walker after last entry later error? step rest inductionHypothesis =>
      cases call with
      | zero => exact congrArg Prod.fst step
      | succ call =>
          have moved : walker.answer (call + 1) = after.answer call := by
            rw [Walker.answer, afterCalls, step]
            rfl
          rw [moved, inductionHypothesis]
          rfl

/-- The call that ends a walk enters nothing. -/
theorem visited (ends : Ends walker entries error? last) :
    (walker.afterCalls (answers entries error?).length).visited = last.visited := by
  induction ends with
  | exhausted ended => rfl
  | failed failed => exact (ended_of_failed failed).2
  | @cons walker after last entry later error? step rest inductionHypothesis =>
      rw [← inductionHypothesis, answers, answers, List.map_cons, List.cons_append,
        List.length_cons, afterCalls, step]

end Ends

/-- Where the entries below the root of a walk stand. -/
def standings (tree : FileTree) (entries : List WalkEntry) : List (Option Location) :=
  (entries.filter (!·.isRoot)).map fun entry => tree.standing? entry.spot

/-- The locations of what some folders contain. -/
def contents (tree : FileTree) (folders : List Location) : List Location :=
  folders.flatMap fun folder => (tree.names folder).map fun name => folder ++ [name]

/-- A walk has listed things inside of the folders that it has entered, each of them at most once.
The root's folder has been entered, and, in a recursive walk, each folder to which an entry leads;
none has been entered twice. -/
structure ListsOnce (tree : FileTree) (settings : WalkSettings) (source : WalkRoot)
    (entries : List WalkEntry) (entered : List Location) : Prop where
  enteredOnce : entered.Nodup
  isFolder : ∀ folder ∈ entered, tree.isFolder folder = true
  rootEntered : ∀ opening, opening? tree settings (source.path, .root) = some opening →
    opening.location ∈ entered
  deeperEntered : settings.recursive = true → ∀ entry ∈ entries, entry.isRoot = false →
    ∀ opening, opening? tree settings entry.spot = some opening → opening.location ∈ entered
  rootListed : ∃ root : WalkEntry, root.spot = (source.path, .root) ∧
    entries.filter (·.isRoot) = if settings.includeRoot then [root] else []
  listed : standings tree entries ⊆ (contents tree entered).map some
  listedOnce : (standings tree entries).Nodup

namespace Explored

/-- The entries below the root and what is at hand stand where the entered folders have something
in them. -/
theorem standings_append (explored : Explored tree settings root openings entries walker) :
    (standings tree entries ++ (walker.stack.flatMap Frame.spots).map tree.standing?).Perm
      ((contents tree walker.visited).map some) := by
  have placed := explored.spots.map tree.standing?
  rw [List.map_append, List.map_map] at placed
  refine placed.trans (.of_eq ?_)
  rw [explored.visited, contents, List.flatMap_map, List.map_flatMap, List.map_flatMap]
  exact List.flatMap_congr fun opening entered =>
    (explored.leads opening entered).map_standing_spots

/-- What entered folders contain is at different locations. -/
theorem nodup_contents (explored : Explored tree settings root openings entries walker) :
    (contents tree walker.visited).Nodup := by
  rw [explored.visited, contents, List.flatMap_map]
  exact nodup_locations explored.distinct

/-- Every walk comes to its end, because no more can be listed than its steps allow. -/
theorem exists_ends {limit : Nat}
    (explored : Explored tree settings root openings entries walker)
    (enough : stepLimit tree ≤ entries.length + limit) :
    ∃ later error? last, Ends walker later error? last := by
  induction limit generalizing openings entries walker with
  | zero => exact ⟨[], none, walker, .exhausted (explored.next_eq_none enough)⟩
  | succ limit inductionHypothesis =>
      obtain ⟨⟨result?, after⟩, step⟩ : ∃ taken, walker.next.value = taken := ⟨_, rfl⟩
      rcases result? with _ | error | entry
      · exact ⟨[], none, walker, .exhausted (by rw [step])⟩
      · exact ⟨[], some error, walker, .failed (by rw [step])⟩
      · obtain ⟨others, -, explored⟩ := explored.next (step_of_next explored.unfinished step)
        obtain ⟨later, error?, last, rest⟩ := inductionHypothesis explored
          (by rw [List.length_append, List.length_singleton]; omega)
        exact ⟨entry :: later, error?, last, .cons step rest⟩

/-- A walk that has come to its end has listed its root if it was asked for. -/
theorem roots_of_ends (explored : Explored tree settings root openings entries last)
    (answer : last.next.value.1 = error?.map .error) :
    entries.filter (·.isRoot) = if settings.includeRoot then [root] else [] := by
  have roots := explored.roots
  cases held : last.rootEntry with
  | none => rwa [held, Option.toList_none, List.append_nil] at roots
  | some entry =>
      rw [value_next_of_rootEntry explored.unfinished held] at answer
      cases error? <;> cases answer

/-- A walk gives no more answers than its steps allow. -/
theorem length_answers_le (explored : Explored tree settings root openings entries last)
    (answer : last.next.value.1 = error?.map .error) :
    (answers entries error?).length ≤ stepLimit tree := by
  rw [answers, List.length_append, List.length_map]
  cases error? with
  | none =>
      have bound := explored.length_le
      exact Nat.le_trans (Nat.le_add_right ..) (Nat.le_trans (Nat.le_add_right ..) bound)
  | some error =>
      -- An error needs one more step than the entries, and a walk out of steps has none left.
      have notEnded : last.next.value.1 ≠ none := by
        rw [answer]
        exact nofun
      exact Nat.lt_of_not_le fun exhausted => notEnded (explored.next_eq_none exhausted)

/-- What a walk that has come to its end has listed. -/
theorem listsOnce (explored : Explored tree settings root openings entries last)
    (answer : last.next.value.1 = error?.map .error)
    (rootSpot : root.spot = (source.path, .root))
    (rootEntered : ∀ opening, opening? tree settings (source.path, .root) = some opening →
      opening.location ∈ last.visited) :
    ListsOnce tree settings source entries last.visited where
  enteredOnce := explored.visited ▸ explored.distinct
  isFolder folder entered := by
    rw [explored.visited] at entered
    obtain ⟨opening, listed, rfl⟩ := List.mem_map.1 entered
    exact (explored.leads opening listed).isFolder
  rootEntered := rootEntered
  deeperEntered recursive entry listed below opening opens := by
    rw [explored.visited]
    rcases explored.hasEntered recursive entry listed below opening opens with
      itself | ⟨known, entered, same, -⟩
    · exact List.mem_map_of_mem itself
    · exact same ▸ List.mem_map_of_mem entered
  rootListed := ⟨root, rootSpot, explored.roots_of_ends answer⟩
  listed _ member := explored.standings_append.subset (List.mem_append_left _ member)
  listedOnce := by
    have distinct := explored.nodup_contents.map (Option.some_injective Location)
    exact (List.nodup_append.1 (explored.standings_append.nodup_iff.2 distinct)).1

end Explored

/-- A walk that has started comes to its end, whatever links there are. It answers some entries and
at most one error, no more than its steps allow, and then nothing however often it is asked. By then
it has listed nothing twice, and without an error it has listed exactly what the folders contain
that it has entered. -/
theorem ends_start (started : (start tree source settings).value = .ok walker) :
    ∃ entries error?,
      (∀ call, walker.answer call = (answers entries error?)[call]?) ∧
      (answers entries error?).length ≤ stepLimit tree ∧
      let entered := (walker.afterCalls (answers entries error?).length).visited
      ListsOnce tree settings source entries entered ∧
        (error? = none → (standings tree entries).Perm ((contents tree entered).map some)) := by
  obtain ⟨node, folder?, inspected, explored⟩ := explored_start started
  obtain ⟨entries, error?, last, ends⟩ := explored.exists_ends (Nat.le_add_left ..)
  obtain ⟨openings, kept, explored⟩ := explored.of_ends ends
  rw [List.nil_append] at explored
  refine ⟨entries, error?, ends.answer, explored.length_answers_le ends.answer_last, ?_⟩
  rw [ends.visited]
  refine ⟨explored.listsOnce ends.answer_last rfl ?_, ?_⟩
  · intro opening opens
    rw [opening?_of_inspect inspected] at opens
    obtain ⟨folder, found, rfl⟩ := Option.map_eq_some_iff.1 opens
    rw [explored.visited]
    have entered := kept (List.mem_map_of_mem (Option.mem_toList.2 found))
    exact List.mem_map.2 ⟨_, entered, rfl⟩
  · rintro rfl
    have nothing := ((value_next_eq_none_iff explored.unfinished).1 ends.answer_last).2
    simpa only [nothing, List.map_nil, List.append_nil] using explored.standings_append

/-- The base of a tree is there, so a walk can start at it. -/
theorem exists_start_base (tree : FileTree) (settings : WalkSettings) :
    ∃ walker, (start tree (.absolute ⟨[]⟩) settings).value = .ok walker := by
  have inspected : ({ tree, settings } : Walker).inspect ⟨[]⟩ =
      .ok (FileTree.baseNode, some []) := by
    rw [inspect, tree.lookup_base]
    rfl
  simp only [start, WalkRoot.path, tree.lookup_base, inspected, Noted.value_bind]
  exact ⟨_, rfl⟩

/-- A walk through two folders with links to each other and up to the base of the tree, and past a
link to itself. -/
theorem ends_start_around_links :
    ∃ tree walker,
      FileTree.ofNodes? "/base" [("a/b", ⟨.link "../c", ⟨0⟩⟩), ("a/x", ⟨.file 1, ⟨0⟩⟩),
        ("c/d", ⟨.link "../a", ⟨0⟩⟩), ("c/up", ⟨.link "..", ⟨0⟩⟩), ("z", ⟨.link "z", ⟨0⟩⟩)] =
          some tree ∧
      (start tree (.absolute ⟨[]⟩) { followLinks := true }).value = .ok walker ∧
      ∃ entries error?,
        (∀ call, walker.answer call = (answers entries error?)[call]?) ∧
        (answers entries error?).length ≤ stepLimit tree ∧
        let entered := (walker.afterCalls (answers entries error?).length).visited
        ListsOnce tree { followLinks := true } (.absolute ⟨[]⟩) entries entered ∧
          (error? = none → (standings tree entries).Perm ((contents tree entered).map some)) := by
  have present : (FileTree.ofNodes? "/base" [("a/b", ⟨.link "../c", ⟨0⟩⟩),
      ("a/x", ⟨.file 1, ⟨0⟩⟩), ("c/d", ⟨.link "../a", ⟨0⟩⟩), ("c/up", ⟨.link "..", ⟨0⟩⟩),
      ("z", ⟨.link "z", ⟨0⟩⟩)]).isSome = true := by
    decide +kernel
  obtain ⟨tree, built⟩ := Option.isSome_iff_exists.1 present
  obtain ⟨walker, started⟩ := exists_start_base tree { followLinks := true }
  exact ⟨tree, walker, built, started, ends_start started⟩

end Winnow.Walker
