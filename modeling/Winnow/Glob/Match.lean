import Winnow.Glob.Front

/-!
# Matching names

Each token moves the front of a name from the places where it may start to those where it may
end. A glob matches a name when its tokens move the start of the name to its end. The effort
is one pass over the name for each token, whatever the name and the tokens are.

A branch that stands for nothing, because it holds no token or only groups of such branches,
takes no part in its group; a group without any other branch leaves the front where it is.
-/

namespace Winnow.Glob

mutual

/-- Whether a token stands for nothing. -/
def Token.isVoid : Token → Bool
  | .group branches => areAllVoid branches
  | .literal _ | .any | .run | .everything | .slashEverything | .oneOf _ => false

/-- Whether a branch stands for nothing. -/
def isVoidBranch : List Token → Bool
  | [] => true
  | token :: tokens => token.isVoid && isVoidBranch tokens

/-- Whether no branch stands for anything. -/
def areAllVoid : List (List Token) → Bool
  | [] => true
  | branch :: branches => isVoidBranch branch && areAllVoid branches

end

mutual

/-- Moves a front of a name over what a token stands for. -/
def Token.advance (name : List UInt8) : Token → Front → Front
  | .literal c, front => front.stepOver (bytesOf c) name
  | .any, front => front.step (· != slash) name
  | .run, front => front.spread (· != slash) name
  | .everything, front => front.spread (fun _ => true) name
  | .slashEverything, front => (front.stepOver [slash] name).spread (fun _ => true) name
  | .oneOf byteClass, front => front.step byteClass.holds name
  | .group branches, front =>
      if areAllVoid branches then front else advanceAny name branches front

/-- Moves a front over a sequence of tokens. -/
def advanceAll (name : List UInt8) : List Token → Front → Front
  | [], front => front
  | token :: tokens, front => advanceAll name tokens (token.advance name front)

/-- Moves a front over any one of the branches of a group. -/
def advanceAny (name : List UInt8) : List (List Token) → Front → Front
  | [], _ => .nowhere
  | branch :: branches, front =>
      (if isVoidBranch branch then .nowhere else advanceAll name branch front).union
        (advanceAny name branches front)

end

/-- Whether a sequence of tokens matches the whole of a name. -/
def matchesTokens (tokens : List Token) (name : String) : Bool :=
  let bytes := Text.Utf8.encode name
  (advanceAll bytes tokens .start).reachesEnd bytes

end Winnow.Glob
