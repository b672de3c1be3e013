import Winnow.Glob.Token

/-!
# Reading globs

A glob is read from left to right; the first fault met is the one reported. Braces open
groups, which nest; a comma separates branches inside of a group and stands for itself
outside. A backslash takes the next character literally. Inside brackets only the closing
bracket and the hyphen have a meaning, and neither has one in first place.

A pair of stars means what one star means, with two exceptions: as the whole glob it matches
everything, and after a raw comma or brace that the branch already holds as a token it
replaces that token by a slash with everything after it, provided that the branch ends there.
-/

namespace Winnow.Glob

/-- What can be wrong with the text of a glob. -/
inductive Fault where
  | unclosedClass
  | invalidRange (first last : Char)
  | unopenedGroup
  | unclosedGroup
  | danglingEscape
deriving DecidableEq

/-- The wording of a fault. -/
def Fault.message : Fault → String
  | .unclosedClass => "unclosed character class; missing ']'"
  | .invalidRange first last =>
      "invalid range; '" ++ first.toString ++ "' > '" ++ last.toString ++ "'"
  | .unopenedGroup =>
      "unopened alternate group; missing '\x7b' (maybe escape '\x7d' with '[\x7d]'?)"
  | .unclosedGroup =>
      "unclosed alternate group; missing '\x7d' (maybe escape '\x7b' with '[\x7b]'?)"
  | .danglingEscape => "dangling '\\'"

/-- Reads the members of a class up to its closing bracket and returns what follows it. The
members so far are newest first; `ranging` says that a hyphen after the newest one has opened
a range. A range moves the end of the newest member, so ends follow one another. -/
def readMembers (members : List (Char × Char)) (ranging : Bool) :
    List Char → Except Fault (List (Char × Char) × List Char)
  | [] => .error .unclosedClass
  | c :: rest =>
      match members with
      | [] => readMembers [(c, c)] false rest
      | (first, last) :: older =>
          if c = ']' then
            .ok ((if ranging then ('-', '-') :: members else members).reverse, rest)
          else if ranging then
            if c < first then .error (.invalidRange first c)
            else readMembers ((first, c) :: older) false rest
          else if c = '-' then readMembers ((first, last) :: older) true rest
          else readMembers ((c, c) :: members) false rest

/-- Reading members uses up at least the closing bracket. -/
theorem length_lt_of_readMembers {members : List (Char × Char)} {ranging : Bool}
    {chars : List Char} {read : List (Char × Char)} {rest : List Char}
    (ok : readMembers members ranging chars = .ok (read, rest)) :
    rest.length < chars.length := by
  fun_induction readMembers members ranging chars <;> grind

/-- Reads a class after its opening bracket; a leading exclamation mark or caret negates. -/
def readClass (chars : List Char) : Except Fault (ByteClass × List Char) :=
  let negated := chars.head? == some '!' || chars.head? == some '^'
  match readMembers [] false (if negated then chars.tail else chars) with
  | .error fault => .error fault
  | .ok (ranges, rest) => .ok (⟨negated, ranges⟩, rest)

/-- Reading a class uses up at least its closing bracket. -/
theorem length_lt_of_readClass {chars rest : List Char} {byteClass : ByteClass}
    (ok : readClass chars = .ok (byteClass, rest)) : rest.length < chars.length := by
  simp only [readClass] at ok
  split at ok
  · contradiction
  · rename_i read
    have shorter := length_lt_of_readMembers read
    simp only [Except.ok.injEq, Prod.mk.injEq] at ok
    obtain ⟨-, rfl⟩ := ok
    split at shorter
    · have : chars.tail.length ≤ chars.length := by simp
      omega
    · exact shorter

/-- A group whose closing brace has not been read: the tokens before it and the branches that
a comma has ended, both newest first. -/
structure OpenGroup where
  before : List Token
  branches : List (List Token)

/-- The tokens of a branch, newest first, after a pair of stars. -/
def addStarPair (previous : Option Char) (groups : List OpenGroup) (branch : List Token)
    (rest : List Char) : List Token :=
  match branch with
  | [] => if rest.isEmpty then [.everything] else [.run, .run]
  | _ :: older =>
      if !groups.isEmpty && (previous == some ',' || previous == some '\x7b')
          && (rest.head? == none || rest.head? == some ',' || rest.head? == some '\x7d')
      then .slashEverything :: older
      else .run :: .run :: branch

/-- Reads the rest of a glob, given the character just read, the open groups, innermost
first, and the tokens of the current branch, newest first. -/
def readTokens (previous : Option Char) (groups : List OpenGroup) (branch : List Token)
    (chars : List Char) : Except Fault (List Token) :=
  match chars with
  | [] => if groups.isEmpty then .ok branch.reverse else .error .unclosedGroup
  | '?' :: rest => readTokens (some '?') groups (.any :: branch) rest
  | '*' :: '*' :: rest =>
      readTokens (some '*') groups (addStarPair previous groups branch rest) rest
  | '*' :: rest => readTokens (some '*') groups (.run :: branch) rest
  | '[' :: rest =>
      match read : readClass rest with
      | .error fault => .error fault
      | .ok (byteClass, after) =>
          have := length_lt_of_readClass read
          readTokens (some ']') groups (.oneOf byteClass :: branch) after
  | '\x7b' :: rest => readTokens (some '\x7b') (⟨branch, []⟩ :: groups) [] rest
  | '\x7d' :: rest =>
      match groups with
      | [] => .error .unopenedGroup
      | group :: outer =>
          readTokens (some '\x7d') outer
            (.group (branch.reverse :: group.branches).reverse :: group.before) rest
  | ',' :: rest =>
      match groups with
      | [] => readTokens (some ',') [] (.literal ',' :: branch) rest
      | group :: outer =>
          readTokens (some ',') (⟨group.before, branch.reverse :: group.branches⟩ :: outer) [] rest
  | ['\\'] => .error .danglingEscape
  | '\\' :: c :: rest => readTokens (some c) groups (.literal c :: branch) rest
  | c :: rest => readTokens (some c) groups (.literal c :: branch) rest
termination_by chars.length

/-- The tokens of a whole glob. -/
def tokensOf (text : String) : Except Fault (List Token) :=
  readTokens none [] [] text.toList

end Winnow.Glob
