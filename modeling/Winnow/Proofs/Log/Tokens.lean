import Mathlib.Data.List.TakeWhile
import Winnow.Log.Token

/-!
# What flag tokens say

A token is the name of a flag, or the one name for all of them, and the digits of a level after it.
`FlagToken.Spells` says so without a reader, and `FlagToken.read_eq_ok_iff` ties the reader to it. A
token `Gives` a level to the flags of its family that it names.

Tokens of both families adjust a verbosity one after the other, and one that cannot be read adjusts
nothing. `lastWins_adjustAll` is what comes of it: every flag has the level that the last token for
it gives, and a flag that no token is for stays as it was.
-/

namespace Winnow

namespace FlagToken

/-- Digits stand for a level, which is 1 if there are none. -/
def Writes (digits : List Char) (level : UInt8) : Prop :=
  digits = [] ∧ level = 1 ∨
    digits ≠ [] ∧ (∀ c ∈ digits, c.isDigit = true) ∧ Nat.ofDigitChars 10 digits 0 = level.toNat

/-- A token is a name and the digits of a level after it. -/
def Spells (token name : String) (level : UInt8) : Prop :=
  ∃ digits, token.toList = name.toList ++ digits ∧ Writes digits level

/-- A name that can be told from the digits after it. -/
structure IsName (name : String) : Prop where
  ne_empty : name ≠ ""
  undigited : ∀ c ∈ name.toList, c.isDigit = false

/-- The names that tokens of a family may have. -/
def names (family : Family) : List String := everyFlag :: (Flag.ofFamily family).map Flag.token

/-- A token gives a level to a flag of its family, by the flag's name or by that for all flags. -/
def Gives (family : Family) (token : String) (flag : Flag) (level : UInt8) : Prop :=
  flag.family = family ∧ (Spells token flag.token level ∨ Spells token everyFlag level)

variable {token name found : String} {digits : List Char} {level : UInt8} {family : Family}
  {flag : Flag}

/-- Digits have their decimal value. -/
theorem numberOf_eq (digits : List Char) : numberOf digits = Nat.ofDigitChars 10 digits 0 := by
  simp only [numberOf, Nat.ofDigitChars, Nat.mul_comm]

/-- A level is read from nothing but digits, and only if it fits into a byte. -/
theorem level?_eq_some_iff :
    level? digits = some level ↔
      (∀ c ∈ digits, c.isDigit = true) ∧ Nat.ofDigitChars 10 digits 0 = level.toNat := by
  have small : level.toNat < 256 := level.toNat_lt
  simp only [level?, numberOf_eq, Option.ite_none_right_eq_some, Option.some.injEq,
    Bool.and_eq_true, List.all_eq_true, decide_eq_true_eq, and_assoc]
  refine and_congr_right fun _ => ?_
  rw [← UInt8.toNat_inj, UInt8.toNat_ofNat']
  omega

/-- Some level is written by nothing but digits with a value of at most 255. -/
theorem exists_writes_iff :
    (∃ level, Writes digits level) ↔
      (∀ c ∈ digits, c.isDigit = true) ∧ Nat.ofDigitChars 10 digits 0 ≤ 255 := by
  constructor
  · rintro ⟨level, ⟨rfl, _⟩ | ⟨_, all, value⟩⟩
    · exact ⟨List.forall_mem_nil _, Nat.zero_le 255⟩
    · exact ⟨all, value ▸ Nat.le_of_lt_succ level.toNat_lt⟩
  · rintro ⟨all, bound⟩
    by_cases none : digits = []
    · exact ⟨1, .inl ⟨none, rfl⟩⟩
    · refine ⟨.ofNat (Nat.ofDigitChars 10 digits 0), .inr ⟨none, all, ?_⟩⟩
      rw [UInt8.toNat_ofNat', Nat.mod_eq_of_lt (Nat.lt_succ_of_le bound)]

/-- Digits that write a level are digits. -/
theorem Writes.isDigit (writes : Writes digits level) : ∀ c ∈ digits, c.isDigit = true := by
  rcases writes with ⟨rfl, _⟩ | ⟨_, all, _⟩
  · exact List.forall_mem_nil _
  · exact all

/-- From a name and whatever comes after it, starting with a digit, the name is read and the level
that is written there. -/
theorem read_of_cut (isName : IsName name) (starts : ∀ c ∈ digits.head?, c.isDigit = true)
    (whole : token.toList = name.toList ++ digits) :
    read token = .ok (found, level) ↔ found = name ∧ Writes digits level := by
  have undigited : ∀ c ∈ name.toList, (!c.isDigit) = true := by
    intro c listed
    rw [isName.undigited c listed, Bool.not_false]
  have cutName : token.toList.takeWhile (!·.isDigit) = name.toList := by
    rw [whole, List.takeWhile_append_of_pos undigited]
    cases digits with
    | nil => simp
    | cons first rest => simp [starts first rfl]
  have cutDigits : token.toList.dropWhile (!·.isDigit) = digits := by
    rw [whole, List.dropWhile_append_of_pos undigited]
    cases digits with
    | nil => rfl
    | cons first rest => simp [starts first rfl]
  have named : name.toList ≠ [] := mt String.toList_eq_nil_iff.1 isName.ne_empty
  have present : token ≠ "" := by
    rintro rfl
    exact named (List.append_eq_nil_iff.1 whole.symm).1
  simp only [read, if_neg present, cutName, cutDigits, List.isEmpty_iff, if_neg named,
    String.ofList_toList, Writes, ← level?_eq_some_iff]
  by_cases bare : digits = []
  · have same : token = name := String.toList_inj.1 (by rw [whole, bare, List.append_nil])
    simp [bare, same, eq_comm]
  · cases level? digits with
    | none => simp [bare]
    | some value => simp [bare, eq_comm]

/-- Every token that is not refused at once has a name before its first digit. -/
theorem exists_cut (readOk : read token = .ok (name, level)) :
    ∃ found digits, IsName found ∧ (∀ c ∈ digits.head?, c.isDigit = true) ∧
      token.toList = found.toList ++ digits := by
  refine ⟨.ofList (token.toList.takeWhile (!·.isDigit)), token.toList.dropWhile (!·.isDigit),
    ⟨?_, ?_⟩, ?_, ?_⟩
  · intro nameless
    have blank : token.toList.takeWhile (!·.isDigit) = [] := by simpa using nameless
    rw [read, blank] at readOk
    split at readOk
    · cases readOk
    · cases readOk
  · intro c listed
    rw [String.toList_ofList] at listed
    simpa using List.mem_takeWhile_imp listed
  · intro c first
    have stops := List.head?_dropWhile_not (!·.isDigit) token.toList
    rw [first] at stops
    simpa using stops
  · rw [String.toList_ofList, List.takeWhile_append_dropWhile]

/-- A token is read as what it spells. -/
theorem read_eq_ok_iff :
    read token = .ok (name, level) ↔ IsName name ∧ Spells token name level := by
  constructor
  · intro readOk
    obtain ⟨found, digits, isName, starts, whole⟩ := exists_cut readOk
    obtain ⟨rfl, writes⟩ := (read_of_cut isName starts whole).1 readOk
    exact ⟨isName, digits, whole, writes⟩
  · rintro ⟨isName, digits, whole, writes⟩
    have starts : ∀ c ∈ digits.head?, c.isDigit = true := fun c first =>
      writes.isDigit c (List.mem_of_head? first)
    exact (read_of_cut isName starts whole).2 ⟨rfl, writes⟩

/-- The name for all flags can be told from digits. -/
theorem isName_everyFlag : IsName everyFlag := by
  constructor <;> simp [everyFlag]

/-- The name of a flag can be told from digits. -/
theorem isName_token (flag : Flag) : IsName flag.token := by
  rcases flag with flag | flag
  · cases flag <;> constructor <;> simp [Flag.token, InfoFlag.token]
  · cases flag <;> constructor <;> simp [Flag.token, DebugFlag.token]

/-- No flag has the name for all flags. -/
theorem token_ne_everyFlag (flag : Flag) : flag.token ≠ everyFlag := by
  rcases flag with flag | flag
  · cases flag <;> decide
  · cases flag <;> decide

/-- A flag is found by its family and its name. -/
theorem ofToken?_eq_some_iff :
    Flag.ofToken? family name = some flag ↔ flag.family = family ∧ flag.token = name := by
  constructor
  · intro found
    have named := List.find?_some found
    exact ⟨Flag.mem_ofFamily.1 (List.mem_of_find?_eq_some found), by simpa using named⟩
  · rintro ⟨rfl, rfl⟩
    rcases flag with flag | flag
    · cases flag <;> decide
    · cases flag <;> decide

end FlagToken

namespace Verbosity

open FlagToken

variable {verbosity adjusted : Verbosity} {tokens : List (Family × String)} {family : Family}
  {token : String} {flag : Flag} {level : UInt8}

/-- With the name for all flags a token adjusts its whole family. -/
theorem apply_everyFlag (spells : Spells token everyFlag level) :
    verbosity.apply family token = .ok (verbosity.setAll family level) := by
  rw [apply, read_eq_ok_iff.2 ⟨isName_everyFlag, spells⟩]
  exact if_pos rfl

/-- With the name of a flag a token adjusts that flag. -/
theorem apply_token (spells : Spells token flag.token level) :
    verbosity.apply flag.family token = .ok (verbosity.set flag level) := by
  have found : Flag.ofToken? flag.family flag.token = some flag :=
    ofToken?_eq_some_iff.2 ⟨rfl, rfl⟩
  rw [apply, read_eq_ok_iff.2 ⟨isName_token flag, spells⟩]
  simp only [if_neg (token_ne_everyFlag flag), found]

/-- There is nothing else that a token can do. -/
theorem cases_apply (applied : verbosity.apply family token = .ok adjusted) :
    (∃ level, Spells token everyFlag level ∧ adjusted = verbosity.setAll family level) ∨
      ∃ flag level, flag.family = family ∧ Spells token flag.token level ∧
        adjusted = verbosity.set flag level := by
  rw [apply] at applied
  split at applied
  case h_1 => cases applied
  case h_2 name level readOk =>
    obtain ⟨_, spells⟩ := read_eq_ok_iff.1 readOk
    split at applied
    case isTrue every =>
      cases applied
      exact .inl ⟨level, every ▸ spells, rfl⟩
    case isFalse single =>
      split at applied
      case h_1 => cases applied
      case h_2 flag found =>
        cases applied
        obtain ⟨ofFamily, rfl⟩ := ofToken?_eq_some_iff.1 found
        exact .inr ⟨flag, level, ofFamily, spells, rfl⟩

/-- A token is accepted exactly if it is one of the names of its family with nothing but digits
after it, of a value of at most 255. -/
theorem exists_apply_iff :
    (∃ adjusted, verbosity.apply family token = .ok adjusted) ↔
      ∃ name ∈ names family, ∃ digits, token.toList = name.toList ++ digits ∧
        (∀ c ∈ digits, c.isDigit = true) ∧ Nat.ofDigitChars 10 digits 0 ≤ 255 := by
  constructor
  · rintro ⟨adjusted, applied⟩
    rcases cases_apply applied with ⟨level, spells, _⟩ | ⟨flag, level, ofFamily, spells, _⟩
    · obtain ⟨digits, whole, writes⟩ := spells
      exact ⟨everyFlag, List.mem_cons_self, digits, whole, exists_writes_iff.1 ⟨level, writes⟩⟩
    · obtain ⟨digits, whole, writes⟩ := spells
      have listed := List.mem_map_of_mem (f := Flag.token) (Flag.mem_ofFamily.2 ofFamily)
      exact ⟨flag.token, List.mem_cons_of_mem _ listed, digits, whole,
        exists_writes_iff.1 ⟨level, writes⟩⟩
  · rintro ⟨name, listed, digits, whole, fits⟩
    obtain ⟨level, writes⟩ := exists_writes_iff.2 fits
    have spells : Spells token name level := ⟨digits, whole, writes⟩
    rcases List.mem_cons.1 listed with rfl | named
    · exact ⟨_, apply_everyFlag spells⟩
    · obtain ⟨flag, ofFamily, rfl⟩ := List.mem_map.1 named
      obtain rfl := Flag.mem_ofFamily.1 ofFamily
      exact ⟨_, apply_token spells⟩

/-- The verbosity after a token; one that cannot be read leaves it as it is. -/
def adjust (verbosity : Verbosity) (family : Family) (token : String) : Verbosity :=
  match verbosity.apply family token with
  | .error _ => verbosity
  | .ok adjusted => adjusted

/-- The verbosity after tokens of both families, one after the other. -/
def adjustAll (verbosity : Verbosity) (tokens : List (Family × String)) : Verbosity :=
  tokens.foldl (fun current (family, token) => current.adjust family token) verbosity

/-- After a token that gives a flag a level, the flag has that level. -/
theorem level_adjust_of_gives (gives : Gives family token flag level) :
    (verbosity.adjust family token).level flag = level := by
  obtain ⟨rfl, own | every⟩ := gives
  · simp only [adjust, apply_token own, level_set, if_pos]
  · simp only [adjust, apply_everyFlag every, level_setAll, if_pos]

/-- A token that gives a flag no level leaves it as it is. -/
theorem level_adjust_of_not_gives (silent : ∀ level, ¬Gives family token flag level) :
    (verbosity.adjust family token).level flag = verbosity.level flag := by
  rw [adjust]
  split
  case h_1 => rfl
  case h_2 adjusted applied =>
    rcases cases_apply applied with ⟨level, spells, rfl⟩ | ⟨named, level, ofFamily, spells, rfl⟩
    · rw [level_setAll, if_neg]
      exact fun ofFamily => silent level ⟨ofFamily, .inr spells⟩
    · rw [level_set, if_neg]
      rintro rfl
      exact silent level ⟨ofFamily, .inl spells⟩

/-- None of some tokens gives a flag a level. -/
def NoneGives (tokens : List (Family × String)) (flag : Flag) : Prop :=
  ∀ entry ∈ tokens, ∀ level, ¬Gives entry.1 entry.2 flag level

/-- The last of some tokens that gives a flag a level gives it this one. -/
def LastGives (tokens : List (Family × String)) (flag : Flag) (level : UInt8) : Prop :=
  ∃ earlier family token later, tokens = earlier ++ (family, token) :: later ∧
    Gives family token flag level ∧ NoneGives later flag

/-- There is a last token for a flag unless there is none. -/
theorem lastGives_or_noneGives (tokens : List (Family × String)) (flag : Flag) :
    (∃ level, LastGives tokens flag level) ∨ NoneGives tokens flag := by
  induction tokens with
  | nil => exact .inr (List.forall_mem_nil _)
  | cons first rest inductionHypothesis =>
      rcases inductionHypothesis with
        ⟨level, earlier, family, token, later, rfl, gives, none⟩ | none
      · exact .inl ⟨level, first :: earlier, family, token, later, rfl, gives, none⟩
      · by_cases given : ∃ level, Gives first.1 first.2 flag level
        · obtain ⟨level, gives⟩ := given
          exact .inl ⟨level, [], first.1, first.2, rest, rfl, gives, none⟩
        · exact .inr (List.forall_mem_cons.2 ⟨not_exists.1 given, none⟩)

/-- Tokens that are not for a flag leave it as it is. -/
theorem level_adjustAll_of_noneGives (none : NoneGives tokens flag) :
    (verbosity.adjustAll tokens).level flag = verbosity.level flag := by
  induction tokens generalizing verbosity with
  | nil => rfl
  | cons first rest inductionHypothesis =>
      obtain ⟨silent, others⟩ := List.forall_mem_cons.1 none
      exact (inductionHypothesis others).trans (level_adjust_of_not_gives silent)

/-- After some tokens a flag has the level that the last of them for it gives. -/
theorem level_adjustAll_of_lastGives (last : LastGives tokens flag level) :
    (verbosity.adjustAll tokens).level flag = level := by
  obtain ⟨earlier, family, token, later, rfl, gives, none⟩ := last
  have parts : verbosity.adjustAll (earlier ++ (family, token) :: later) =
      ((verbosity.adjustAll earlier).adjust family token).adjustAll later := List.foldl_append
  rw [parts, level_adjustAll_of_noneGives none, level_adjust_of_gives gives]

/-- Tokens of both families, whatever they are and in whatever order. A token is accepted exactly if
it is one of the names of its family with nothing but digits after it, of a value of at most 255.
One that is not leaves everything as it is, and none changes a flag of the other family. Every flag
ends up with the level that the last token for it gives, or with its own if there is none. -/
theorem lastWins_adjustAll (start : Verbosity) (tokens : List (Family × String)) :
    let reached := start.adjustAll tokens
    (∀ family token, (∃ adjusted, reached.apply family token = .ok adjusted) ↔
        ∃ name ∈ names family, ∃ digits, token.toList = name.toList ++ digits ∧
          (∀ c ∈ digits, c.isDigit = true) ∧ Nat.ofDigitChars 10 digits 0 ≤ 255) ∧
      (∀ family token error, reached.apply family token = .error error →
        reached.adjust family token = reached) ∧
      (∀ family token flag, flag.family ≠ family →
        (reached.adjust family token).level flag = reached.level flag) ∧
      ∀ flag level, reached.level flag = level ↔
        LastGives tokens flag level ∨ NoneGives tokens flag ∧ start.level flag = level := by
  intro reached
  refine ⟨fun family token => exists_apply_iff, ?_, ?_, ?_⟩
  · intro family token error refused
    rw [adjust, refused]
  · intro family token flag other
    exact level_adjust_of_not_gives fun level gives => other gives.1
  · intro flag level
    constructor
    · rintro rfl
      rcases lastGives_or_noneGives tokens flag with ⟨level, last⟩ | none
      · rw [level_adjustAll_of_lastGives last]
        exact .inl last
      · exact .inr ⟨none, (level_adjustAll_of_noneGives none).symm⟩
    · rintro (last | ⟨none, rfl⟩)
      · exact level_adjustAll_of_lastGives last
      · exact level_adjustAll_of_noneGives none

end Verbosity

end Winnow
