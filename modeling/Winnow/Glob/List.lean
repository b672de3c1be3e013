import Winnow.EntryList
import Winnow.Glob.Match

/-!
# Globs and lists of globs

A glob matches one name as a whole. It must not contain a slash, although a name may.

A list tries its globs in order. It knows names by their extension and tries a glob that ends
in a literal extension only on names that have one; the name of the parent folder is the one
name that contains a dot and has none.
-/

namespace Winnow

/-- A glob, with the text it was read from. -/
structure Glob where
  text : String
  tokens : List Glob.Token

namespace Glob

/-- Reads a glob. A slash is refused before anything else is looked at. -/
def parse (kind : Kind) (text : String) : Except FilterError Glob :=
  if '/' ∈ text.toList then .error ⟨kind, text, .globSeparator⟩
  else
    match tokensOf text with
    | .error fault => .error ⟨kind, text, .glob fault⟩
    | .ok tokens => .ok ⟨text, tokens⟩

/-- The characters that have a meaning in a glob. -/
def specialCharacters : List Char := ['*', '?', '[', ']', '\x7b', '\x7d', '\\']

/-- Whether a glob is written without any character that has a meaning. -/
def isLiteral (glob : Glob) : Bool :=
  glob.text.toList.all fun c => !specialCharacters.contains c

/-- Whether a glob matches a name. -/
def matchesName (glob : Glob) (name : String) : Bool :=
  matchesTokens glob.tokens name

/-- Whether a token stands for a dot. -/
def Token.isDot : Token → Bool
  | .literal c => c == '.'
  | _ => false

/-- Whether a glob is more than a literal name and ends in a literal extension. -/
def requiresExtension (glob : Glob) : Bool :=
  glob.tokens.any (!·.isLiteral) && (glob.tokens.reverse.takeWhile Token.isLiteral).any Token.isDot

/-- Whether the last part of a name is the name of the parent folder. -/
def endsInParentName (name : String) : Bool :=
  (Text.pieces (· == '/') name).getLast? == some ".."

/-- Whether a glob matches a name when it is tried as an entry of a list. -/
def matchesInList (glob : Glob) (name : String) : Bool :=
  glob.matchesName name && !(glob.requiresExtension && endsInParentName name)

end Glob

/-- A configured list of globs. -/
abbrev GlobList := EntryList Glob

namespace GlobList

/-- Reads a list of globs. -/
def parse (kind : Kind) (text : String) : Except FilterError (Option GlobList) :=
  EntryList.parse (Glob.parse kind) text

/-- The first glob of a list that matches a name. -/
def matching? (list : GlobList) (name : String) : Option Glob :=
  list.entries.find? (·.matchesInList name)

/-- Whether some glob of a list matches a name. -/
def matchesName (list : GlobList) (name : String) : Bool :=
  (list.matching? name).isSome

end GlobList

end Winnow
