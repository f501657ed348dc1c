import Phrasebook.Glob.Pattern

/-!
# Glob — Basic

A glob is matched against the bytes of a whole name.  What a part of a pattern can take is said by
marks on the places between the bytes: from the marked places the part leads to others, which are
marked behind it.  The name matches if its end is marked behind the last token.
-/

namespace Phrasebook

namespace Glob

/-- The bytes of a character. -/
def bytes (c : Char) : List UInt8 :=
  String.utf8EncodeChar c

/-- A byte belongs to a range; of characters with several bytes the inner ends are joined. -/
def inRange (b : UInt8) (range : Char × Char) : Bool :=
  let low := bytes range.1
  let high := bytes range.2
  if range.1 = range.2 then low.contains b
  else
    low.dropLast.contains b || high.tail.contains b ||
      (match low.getLast?, high.head? with
       | some l, some h => l ≤ b && b ≤ h
       | _, _ => false)

/-- The byte of the path separator. -/
def separator : UInt8 := 47

/-- Marks on the places of a name: before its first byte, behind it, and so on. -/
abbrev Marks : Type :=
  List Bool

namespace Marks

/-- Only the place before the first byte is marked. -/
def start (name : List UInt8) : Marks :=
  true :: name.map fun _ => false

/-- The places behind one byte of some kind. -/
def step (kind : UInt8 → Bool) (name : List UInt8) (marks : Marks) : Marks :=
  false :: List.zipWith (fun b marked => marked && kind b) name marks

/-- The marked places and all behind them. -/
def onward (seen : Bool) : Marks → Marks
  | [] => []
  | marked :: marks => (seen || marked) :: onward (seen || marked) marks

/-- The places that either marks. -/
def union (marks others : Marks) : Marks :=
  List.zipWith (fun marked other => marked || other) marks others

/-- The places behind a separator. -/
def behindSeparator (name : List UInt8) (marks : Marks) : Marks :=
  step (fun b => b == separator) name marks

/-- The marked places, and those behind a separator after them. -/
def behindDirs (name : List UInt8) (marks : Marks) : Marks :=
  marks.union (behindSeparator name (marks.onward false))

/-- The places behind given bytes. -/
def behindBytes (name : List UInt8) : List UInt8 → Marks → Marks
  | [], marks => marks
  | b :: bs, marks => behindBytes name bs (step (fun c => c == b) name marks)

end Marks

mutual

/-- Takes nothing whatever the name is, having no branch that could. -/
def Token.isVacuous : Token → Bool
  | .choice branches => allVacuous branches
  | _ => false

/-- All tokens are vacuous. -/
def isVacuousAll : List Token → Bool
  | [] => true
  | t :: ts => t.isVacuous && isVacuousAll ts

/-- All branches hold vacuous tokens only. -/
def allVacuous : List (List Token) → Bool
  | [] => true
  | b :: bs => isVacuousAll b && allVacuous bs

end

mutual

/-- The places behind a token. -/
def Token.behind (name : List UInt8) : Token → Marks → Marks
  | .literal c, marks => marks.behindBytes name (bytes c)
  | .anyByte, marks => marks.step (fun _ => true) name
  | .anyBytes, marks => marks.onward false
  | .leadingDirs, marks => marks.behindDirs name
  | .innerDirs, marks => (marks.behindSeparator name).behindDirs name
  | .trailingDirs, marks => (marks.behindSeparator name).onward false
  | .oneOf negated ranges, marks => marks.step (fun b => ranges.any (inRange b) != negated) name
  | .choice branches, marks =>
      if allVacuous branches then marks else behindSome name branches marks

/-- The places behind a sequence of tokens. -/
def behindAll (name : List UInt8) : List Token → Marks → Marks
  | [], marks => marks
  | t :: ts, marks => behindAll name ts (t.behind name marks)

/-- The places behind one of several sequences; empty sequences are no alternative. -/
def behindSome (name : List UInt8) : List (List Token) → Marks → Marks
  | [], marks => marks.map fun _ => false
  | b :: bs, marks =>
      if isVacuousAll b then behindSome name bs marks
      else (behindAll name b marks).union (behindSome name bs marks)

end

end Glob

/-- A pattern that has been read. -/
structure Glob where
  pattern : String
  tokens : List Glob.Token

/-- A text that is no pattern, and why. -/
structure GlobError where
  pattern : String
  fault : Glob.PatternFault
  deriving DecidableEq

/-- The text of an error. -/
def GlobError.message (e : GlobError) : String :=
  "error parsing glob '" ++ e.pattern ++ "': " ++ e.fault.message

namespace Glob

/-- Reads a pattern. -/
def ofPattern? (pattern : String) : Except GlobError Glob :=
  match tokensOf? pattern with
  | .ok tokens => .ok ⟨pattern, tokens⟩
  | .error fault => .error ⟨pattern, fault⟩

/-- A whole name matches. -/
def isMatch (glob : Glob) (name : String) : Bool :=
  let bytes := name.toList.flatMap bytes
  match glob.tokens with
  | [.leadingDirs] => true
  | tokens => (behindAll bytes tokens (Marks.start bytes)).getLast?.getD false

end Phrasebook.Glob
