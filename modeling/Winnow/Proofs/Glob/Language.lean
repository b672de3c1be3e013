import Winnow.Glob.Match
import Winnow.Proofs.Text.Utf8

/-!
# What globs stand for

`Token.StandsFor` says which bytes a token stands for, and `AllStandFor` says it of tokens one after
the other, without a word on how a name is gone through. `matchesTokens_iff` shows that the matcher
accepts exactly the names whose bytes the tokens stand for. The step is `Token.mem_rests_advance`:
going on by a token leaves of a name what follows some bytes that the token stands for.
-/

namespace Winnow.Glob

mutual

/-- A token stands for some bytes. -/
def Token.StandsFor : Token → List UInt8 → Prop
  | .literal c, bytes => bytes = bytesOf c
  | .any, bytes => ∃ byte, byte ≠ slash ∧ bytes = [byte]
  | .run, bytes => slash ∉ bytes
  | .everything, _ => True
  | .slashEverything, bytes => ∃ rest, bytes = slash :: rest
  | .oneOf byteClass, bytes => ∃ byte, byteClass.holds byte = true ∧ bytes = [byte]
  | .group branches, bytes =>
      if areAllVoid branches = true then bytes = [] else AnyStandsFor branches bytes

/-- Tokens one after the other stand for some bytes. -/
def AllStandFor : List Token → List UInt8 → Prop
  | [], bytes => bytes = []
  | token :: tokens, bytes =>
      ∃ lead rest, bytes = lead ++ rest ∧ token.StandsFor lead ∧ AllStandFor tokens rest

/-- One of the branches of a group, among those that stand for anything, stands for some bytes. -/
def AnyStandsFor : List (List Token) → List UInt8 → Prop
  | [], _ => False
  | branch :: branches, bytes =>
      isVoidBranch branch = false ∧ AllStandFor branch bytes ∨ AnyStandsFor branches bytes

end

open Front

section Rests

variable {name : List UInt8}

/-- Going on by a byte leaves what follows a single byte that satisfies the condition. -/
theorem mem_rests_step_iff_exists_lead {holds : UInt8 → Bool} {front : Front} {left : Rest} :
    left ∈ rests name (front.step holds name) ↔
      ∃ lead, (∃ byte, holds byte = true ∧ lead = [byte]) ∧ lead ++ left ∈ rests name front := by
  rw [mem_rests_step]
  constructor
  · rintro ⟨byte, held, member⟩
    exact ⟨[byte], ⟨byte, held, rfl⟩, member⟩
  · rintro ⟨_, ⟨byte, held, rfl⟩, member⟩
    exact ⟨byte, held, member⟩

mutual

/-- Going on by a token leaves what follows bytes that the token stands for. -/
theorem Token.mem_rests_advance : ∀ (token : Token) (front : Front) (left : Rest),
    left ∈ rests name (token.advance name front) ↔
      ∃ lead, token.StandsFor lead ∧ lead ++ left ∈ rests name front
  | .literal c, front, left => by
      rw [Token.advance, mem_rests_stepOver]
      simp [Token.StandsFor]
  | .any, front, left => by
      rw [Token.advance, mem_rests_step_iff_exists_lead]
      simp [Token.StandsFor]
  | .run, front, left => by
      rw [Token.advance, mem_rests_spread]
      simp only [Token.StandsFor, bne_iff_ne, List.forall_mem_ne']
  | .everything, front, left => by
      rw [Token.advance, mem_rests_spread]
      simp [Token.StandsFor]
  | .slashEverything, front, left => by
      rw [Token.advance, mem_rests_spread]
      simp only [Token.StandsFor, mem_rests_stepOver, implies_true, true_and]
      constructor
      · rintro ⟨rest, member⟩
        exact ⟨slash :: rest, ⟨rest, rfl⟩, member⟩
      · rintro ⟨_, ⟨rest, rfl⟩, member⟩
        exact ⟨rest, member⟩
  | .oneOf byteClass, front, left => by
      rw [Token.advance, mem_rests_step_iff_exists_lead]
      simp [Token.StandsFor]
  | .group branches, front, left => by
      rw [Token.advance]
      simp only [Token.StandsFor]
      split
      · simp
      · exact mem_rests_advanceAny branches front left

/-- Going on by tokens one after the other leaves what follows bytes that they stand for. -/
theorem mem_rests_advanceAll : ∀ (tokens : List Token) (front : Front) (left : Rest),
    left ∈ rests name (advanceAll name tokens front) ↔
      ∃ lead, AllStandFor tokens lead ∧ lead ++ left ∈ rests name front
  | [], front, left => by simp [advanceAll, AllStandFor]
  | token :: tokens, front, left => by
      rw [advanceAll, mem_rests_advanceAll tokens]
      simp only [Token.mem_rests_advance token, AllStandFor]
      constructor
      · rintro ⟨rest, stood, lead, first, member⟩
        exact ⟨lead ++ rest, ⟨lead, rest, rfl, first, stood⟩, by rwa [List.append_assoc]⟩
      · rintro ⟨_, ⟨lead, rest, rfl, first, stood⟩, member⟩
        exact ⟨rest, stood, lead, first, by rwa [List.append_assoc] at member⟩

/-- Going on by one of several branches leaves what follows bytes that one of them stands for. -/
theorem mem_rests_advanceAny : ∀ (branches : List (List Token)) (front : Front) (left : Rest),
    left ∈ rests name (advanceAny name branches front) ↔
      ∃ lead, AnyStandsFor branches lead ∧ lead ++ left ∈ rests name front
  | [], front, left => by simp [advanceAny, AnyStandsFor]
  | branch :: branches, front, left => by
      rw [advanceAny, mem_rests_union, mem_rests_advanceAny branches]
      simp only [AnyStandsFor, or_and_right, exists_or]
      refine or_congr ?_ Iff.rfl
      split
      · rename_i isVoid
        simp [isVoid]
      · rename_i notVoid
        simp [notVoid, mem_rests_advanceAll branch]

end

end Rests

section Names

open Text

variable {tokens : List Token} {name : String}

/-- Tokens match the names whose bytes they stand for. -/
theorem matchesTokens_iff :
    matchesTokens tokens name = true ↔ AllStandFor tokens (Utf8.encode name) := by
  rw [matchesTokens, reachesEnd_iff, mem_rests_advanceAll]
  simp

/-- The bytes of a name hold the byte of the slash when the name holds a slash. -/
theorem slash_mem_encode_iff : slash ∈ Utf8.encode name ↔ '/' ∈ name.toList :=
  Utf8.mem_encode_iff (by decide) (by decide)

/-- A character stands for itself at the start of a name. -/
theorem allStandFor_literal_iff {c : Char} :
    AllStandFor (.literal c :: tokens) (Utf8.encode name) ↔
      ∃ after, name = String.ofList [c] ++ after ∧ AllStandFor tokens (Utf8.encode after) := by
  have single : Utf8.encode (String.ofList [c]) = bytesOf c := by simp [Utf8.encode, bytesOf]
  constructor
  · rintro ⟨lead, rest, cut, rfl, stood⟩
    rw [← single] at cut
    obtain ⟨after, rfl, rfl⟩ := Utf8.exists_text_of_encode_eq cut
    exact ⟨after, rfl, stood⟩
  · rintro ⟨after, rfl, stood⟩
    exact ⟨bytesOf c, Utf8.encode after, by rw [Utf8.encode_append, single], rfl, stood⟩

end Names

end Winnow.Glob
