import Winnow.Glob.Token

/-!
# Fronts

Tokens are tried on all places of a name at once. A front marks the places up to which the
tokens so far can have come, from the start of the name to its end; a place for which it has
no mark counts as unmarked. What follows a marked place is a rest of the name. `rests` lists
them, and the `mem_rests_…` laws say for every operation which rests it leaves. None of the
laws asks for a front of the right length.
-/

namespace Winnow.Glob

/-- What may be left of a name, as bytes. -/
abbrev Rest := List UInt8

/-- The marks of the places of a name. -/
abbrev Front := List Bool

namespace Front

/-- Whether the first place is marked. -/
def here : Front → Bool
  | [] => false
  | mark :: _ => mark

/-- What follows the marked places of a name, longest first. -/
def rests : List UInt8 → Front → List Rest
  | [], front => if front.here then [[]] else []
  | byte :: bytes, front =>
      (if front.here then [byte :: bytes] else []) ++ rests bytes front.tail

/-- The front that marks no place. -/
def nowhere : Front := []

/-- The front that marks the start of a name only. -/
def start : Front := [true]

/-- Goes on by one byte that satisfies `holds`. -/
def step (holds : UInt8 → Bool) (name : List UInt8) (front : Front) : Front :=
  false :: List.zipWith (fun byte mark => mark && holds byte) name front

/-- Goes on by the given bytes. -/
def stepOver (bytes name : List UInt8) (front : Front) : Front :=
  bytes.foldl (fun current byte => step (· == byte) name current) front

/-- Goes on by any run of bytes that satisfy `holds`; `carry` says whether a run that started
earlier comes up to the first place. -/
def spreadFrom (holds : UInt8 → Bool) (carry : Bool) : List UInt8 → Front → Front
  | [], front => [carry || front.here]
  | byte :: bytes, front =>
      (carry || front.here) ::
        spreadFrom holds ((carry || front.here) && holds byte) bytes front.tail

/-- Goes on by any run of bytes that satisfy `holds`. -/
def spread (holds : UInt8 → Bool) (name : List UInt8) (front : Front) : Front :=
  spreadFrom holds false name front

/-- Marks what either of two fronts marks. -/
def union : Front → Front → Front
  | [], right => right
  | left, [] => left
  | first :: left, second :: right => (first || second) :: union left right

/-- Whether the end of a name is marked. -/
def reachesEnd : List UInt8 → Front → Bool
  | [], front => front.here
  | _ :: bytes, front => reachesEnd bytes front.tail

theorem mem_rests_nil {front : Front} {left : Rest} :
    left ∈ rests [] front ↔ front.here = true ∧ left = [] := by
  cases marked : front.here <;> simp [rests, marked]

theorem mem_rests_cons {byte : UInt8} {bytes : List UInt8} {front : Front} {left : Rest} :
    left ∈ rests (byte :: bytes) front ↔
      front.here = true ∧ left = byte :: bytes ∨ left ∈ rests bytes front.tail := by
  cases marked : front.here <;> simp [rests, marked]

@[simp]
theorem rests_nowhere (name : List UInt8) : rests name nowhere = [] := by
  induction name with
  | nil => rfl
  | cons byte bytes inductionHypothesis => exact inductionHypothesis

/-- Marking the first place adds the whole name to the rests. -/
theorem mem_rests_mark {name : List UInt8} {mark : Bool} {front : Front} {left : Rest} :
    left ∈ rests name (mark :: front) ↔
      mark = true ∧ left = name ∨ left ∈ rests name (false :: front) := by
  cases name with
  | nil => simp [mem_rests_nil, here]
  | cons byte bytes => simp [mem_rests_cons, here]

@[simp]
theorem mem_rests_start {name : List UInt8} {left : Rest} :
    left ∈ rests name start ↔ left = name := by
  have unmarked : rests name [false] = [] := by
    cases name with
    | nil => rfl
    | cons byte bytes => exact rests_nowhere bytes
  rw [start, mem_rests_mark, unmarked]
  simp

/-- Going on by a byte leaves what follows it. -/
theorem mem_rests_step {holds : UInt8 → Bool} {name : List UInt8} {front : Front} {left : Rest} :
    left ∈ rests name (step holds name front) ↔
      ∃ byte, holds byte = true ∧ byte :: left ∈ rests name front := by
  induction name generalizing front with
  | nil => simp [step, mem_rests_nil, here]
  | cons first bytes inductionHypothesis =>
      cases front with
      | nil =>
          have rest := rests_nowhere (first :: bytes)
          have shifted := rests_nowhere bytes
          rw [nowhere] at rest shifted
          rw [step, List.zipWith_nil_right, mem_rests_cons, List.tail_cons, rest, shifted]
          simp [here]
      | cons mark front =>
          have later := @inductionHypothesis front
          rw [step] at later
          rw [step, List.zipWith_cons_cons, mem_rests_cons, List.tail_cons, mem_rests_mark, later]
          simp only [mem_rests_cons, here, List.tail_cons, Bool.false_eq_true, false_and,
            false_or, Bool.and_eq_true, List.cons_eq_cons]
          constructor
          · rintro (⟨⟨marked, held⟩, rfl⟩ | ⟨byte, held, member⟩)
            · exact ⟨first, held, Or.inl ⟨marked, rfl, rfl⟩⟩
            · exact ⟨byte, held, Or.inr member⟩
          · rintro ⟨byte, held, ⟨marked, rfl, rfl⟩ | member⟩
            · exact Or.inl ⟨⟨marked, held⟩, rfl⟩
            · exact Or.inr ⟨byte, held, member⟩

/-- Going on by several bytes leaves what follows them. -/
theorem mem_rests_stepOver {bytes name : List UInt8} {front : Front} {left : Rest} :
    left ∈ rests name (stepOver bytes name front) ↔ bytes ++ left ∈ rests name front := by
  induction bytes generalizing front with
  | nil => rfl
  | cons byte bytes inductionHypothesis =>
      rw [stepOver, List.foldl_cons, ← stepOver, inductionHypothesis, mem_rests_step]
      simp

/-- What a carried run and the marks of a front leave together. -/
theorem mem_rests_spreadFrom {holds : UInt8 → Bool} {carry : Bool} {name : List UInt8}
    {front : Front} {left : Rest} :
    left ∈ rests name (spreadFrom holds carry name front) ↔
      ∃ run, (∀ byte ∈ run, holds byte = true) ∧
        (carry = true ∧ run ++ left = name ∨ run ++ left ∈ rests name front) := by
  induction name generalizing carry front with
  | nil =>
      simp only [spreadFrom, mem_rests_nil, here, Bool.or_eq_true, List.append_eq_nil_iff]
      constructor
      · rintro ⟨carried | marked, rfl⟩
        · exact ⟨[], by simp, Or.inl ⟨carried, rfl, rfl⟩⟩
        · exact ⟨[], by simp, Or.inr ⟨marked, rfl, rfl⟩⟩
      · rintro ⟨run, _, ⟨carried, _, rfl⟩ | ⟨marked, _, rfl⟩⟩
        · exact ⟨Or.inl carried, rfl⟩
        · exact ⟨Or.inr marked, rfl⟩
  | cons first bytes inductionHypothesis =>
      simp only [spreadFrom, mem_rests_cons, here, List.tail_cons, inductionHypothesis,
        Bool.and_eq_true, Bool.or_eq_true]
      constructor
      · rintro (⟨carried | marked, rfl⟩ | ⟨run, all, ⟨⟨carried | marked, held⟩, rfl⟩ | member⟩)
        · exact ⟨[], by simp, Or.inl ⟨carried, rfl⟩⟩
        · exact ⟨[], by simp, Or.inr (Or.inl ⟨marked, rfl⟩)⟩
        · exact ⟨first :: run, by simpa [held] using all, Or.inl ⟨carried, rfl⟩⟩
        · exact ⟨first :: run, by simpa [held] using all, Or.inr (Or.inl ⟨marked, rfl⟩)⟩
        · exact ⟨run, all, Or.inr (Or.inr member)⟩
      · rintro ⟨run, all, come⟩
        have come : (carry = true ∨ front.here = true) ∧ run ++ left = first :: bytes ∨
            run ++ left ∈ rests bytes front.tail := by
          rcases come with ⟨carried, whole⟩ | ⟨marked, whole⟩ | member
          · exact Or.inl ⟨Or.inl carried, whole⟩
          · exact Or.inl ⟨Or.inr marked, whole⟩
          · exact Or.inr member
        rcases come with ⟨marked, whole⟩ | member
        · cases run with
          | nil => exact Or.inl ⟨marked, whole⟩
          | cons byte run =>
              obtain ⟨rfl, rest⟩ := List.cons_eq_cons.1 whole
              have held := all byte List.mem_cons_self
              exact Or.inr ⟨run, fun other member => all other (List.mem_cons_of_mem _ member),
                Or.inl ⟨⟨marked, held⟩, rest⟩⟩
        · exact Or.inr ⟨run, all, Or.inr member⟩

/-- Going on by a run leaves what follows it. -/
theorem mem_rests_spread {holds : UInt8 → Bool} {name : List UInt8} {front : Front} {left : Rest} :
    left ∈ rests name (spread holds name front) ↔
      ∃ run, (∀ byte ∈ run, holds byte = true) ∧ run ++ left ∈ rests name front := by
  simp [spread, mem_rests_spreadFrom]

/-- Joined fronts leave what either of them leaves. -/
theorem mem_rests_union {name : List UInt8} {left right : Front} {rest : Rest} :
    rest ∈ rests name (left.union right) ↔ rest ∈ rests name left ∨ rest ∈ rests name right := by
  induction name generalizing left right with
  | nil => cases left <;> cases right <;> simp [union, mem_rests_nil, here, or_and_right]
  | cons byte bytes inductionHypothesis =>
      have tails : (left.union right).tail = union left.tail right.tail := by
        cases left with
        | nil => cases right <;> rfl
        | cons first left => cases right <;> cases left <;> rfl
      have marks : (left.union right).here = true ↔ left.here = true ∨ right.here = true := by
        cases left <;> cases right <;> simp [union, here]
      rw [mem_rests_cons, mem_rests_cons, mem_rests_cons, tails, marks, inductionHypothesis,
        or_and_right, or_or_or_comm]

/-- The end of a name is marked when nothing may be left. -/
theorem reachesEnd_iff {name : List UInt8} {front : Front} :
    reachesEnd name front = true ↔ [] ∈ rests name front := by
  induction name generalizing front with
  | nil => simp [reachesEnd, mem_rests_nil]
  | cons byte bytes inductionHypothesis =>
      rw [reachesEnd, inductionHypothesis, mem_rests_cons]
      simp

end Front

end Winnow.Glob
