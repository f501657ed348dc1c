/-!
# Glob — Pattern

The patterns that pick translation files by name.  A pattern is read character by character:
`?` and `*` are wildcards, `**` beside path separators stands for whole directories, `[…]` is a
class of bytes, `{…,…}` offers alternatives and a backslash takes the meaning from the character
behind it.
-/

namespace Phrasebook.Glob

/-- A part of a pattern. -/
inductive Token where
  | literal (c : Char)
  /-- Any one byte. -/
  | anyByte
  /-- Any bytes. -/
  | anyBytes
  /-- Any directories at the start of a path, or a separator, or nothing. -/
  | leadingDirs
  /-- A separator, with any directories and a separator behind it or not. -/
  | innerDirs
  /-- A separator and anything behind it. -/
  | trailingDirs
  /-- One byte of the characters in the ranges, or one that is not. -/
  | oneOf (negated : Bool) (ranges : List (Char × Char))
  /-- One of several sequences. -/
  | choice (branches : List (List Token))

/-- Why a text is no pattern. -/
inductive PatternFault where
  | unclosedClass
  | invertedRange (first last : Char)
  | unopenedGroup
  | unclosedGroup
  | danglingEscape
  deriving DecidableEq

/-- The text of a fault. -/
def PatternFault.message : PatternFault → String
  | .unclosedClass => "unclosed character class; missing ']'"
  | .invertedRange first last =>
      "invalid range; '" ++ first.toString ++ "' > '" ++ last.toString ++ "'"
  | .unopenedGroup =>
      "unopened alternate group; missing '\x7b' (maybe escape '\x7d' with '[\x7d]'?)"
  | .unclosedGroup =>
      "unclosed alternate group; missing '\x7d' (maybe escape '\x7b' with '[\x7b]'?)"
  | .danglingEscape => "dangling '\\'"

/-- A class that is being read. -/
structure Class where
  negated : Bool
  ranges : List (Char × Char)
  /-- No member has been read yet. -/
  first : Bool
  /-- A dash has been read that may join the last member to the next. -/
  inRange : Bool

/-- What the next character means. -/
inductive Mode where
  /-- A part of the pattern; `before` is the character before it. -/
  | plain (before : Option Char)
  /-- It follows one star, before which stands `before`. -/
  | star (before : Option Char)
  /-- It follows two stars, before which stands `before`. -/
  | stars (before : Option Char)
  /-- It follows a backslash. -/
  | escaped
  /-- It follows the bracket that opens a class. -/
  | classStart
  /-- It belongs to a class. -/
  | inClass (cls : Class)

/-- A group that has been opened: the tokens before it and its finished branches. -/
structure Group where
  before : List Token
  branches : List (List Token)

/-- A pattern that is being read: the tokens of the current branch and the open groups, innermost
first. -/
structure Reading where
  mode : Mode
  tokens : List Token
  groups : List Group

namespace Reading

/-- Before the first character. -/
def start : Reading :=
  ⟨.plain none, [], []⟩

def push (r : Reading) (token : Token) : Reading :=
  { r with tokens := r.tokens ++ [token] }

/-- Goes on after a character of its own. -/
def after (r : Reading) (c : Char) : Reading :=
  { r with mode := .plain (some c) }

/-- Two stars that mean no more than one. -/
def pushStars (r : Reading) : Reading :=
  (r.push .anyBytes).push .anyBytes

/-- Replaces the separator before two stars by directories; two such parts in a row are one. -/
def replaceLast (r : Reading) (token : Token) : Reading :=
  match r.tokens.getLast? with
  | some .leadingDirs => r
  | some .trailingDirs => r
  | _ => { r with tokens := r.tokens.dropLast ++ [token] }

/-- Two stars between two characters; also whether the second one is part of them. -/
def directories (r : Reading) (before next : Option Char) : Reading × Bool :=
  if r.tokens.isEmpty then
    match next with
    | none => (r.push .leadingDirs, false)
    | some c => if c = '/' then (r.push .leadingDirs, true) else (r.pushStars, false)
  else if before ≠ some '/' ∧
      (r.groups.isEmpty ∨ (before ≠ some ',' ∧ before ≠ some '\x7b')) then
    (r.pushStars, false)
  else
    match next with
    | none => (r.replaceLast .trailingDirs, false)
    | some c =>
        if c = '/' then (r.replaceLast .innerDirs, true)
        else if (c = ',' ∨ c = '\x7d') ∧ r.groups.isEmpty = false then
          (r.replaceLast .trailingDirs, false)
        else (r.pushStars, false)

/-- Opens a group. -/
def openGroup (r : Reading) : Reading :=
  { r with tokens := [], groups := ⟨r.tokens, []⟩ :: r.groups }

/-- Closes the innermost group. -/
def closeGroup (r : Reading) : Except PatternFault Reading :=
  match r.groups with
  | [] => .error .unopenedGroup
  | g :: gs =>
      .ok { r with
        tokens := g.before ++ [.choice (g.branches ++ [r.tokens])]
        groups := gs }

/-- Starts the next branch of a group; outside of groups a comma is itself. -/
def nextBranch (r : Reading) : Reading :=
  match r.groups with
  | [] => r.push (.literal ',')
  | g :: gs => { r with tokens := [], groups := { g with branches := g.branches ++ [r.tokens] } :: gs }

/-- Reads a character that starts a part of the pattern. -/
def plain (r : Reading) (before : Option Char) (c : Char) : Except PatternFault Reading :=
  if c = '?' then .ok ((r.push .anyByte).after c)
  else if c = '*' then .ok { r with mode := .star before }
  else if c = '[' then .ok { r with mode := .classStart }
  else if c = '\x7b' then .ok (r.openGroup.after c)
  else if c = '\x7d' then (r.after c).closeGroup
  else if c = ',' then .ok (r.nextBranch.after c)
  else if c = '\\' then .ok { r with mode := .escaped }
  else .ok ((r.push (.literal c)).after c)

end Reading

namespace Class

/-- The class after one of its characters, the closing bracket apart. -/
def add (cls : Class) (c : Char) : Except PatternFault Class :=
  if cls.inRange then
    match cls.ranges.getLast? with
    | some (low, _) =>
        if c < low then .error (.invertedRange low c)
        else .ok { cls with
          ranges := cls.ranges.dropLast ++ [(low, c)], first := false, inRange := false }
    | none => .ok { cls with ranges := [(c, c)], first := false, inRange := false }
  else if c = '-' ∧ cls.first = false then .ok { cls with inRange := true }
  else .ok { cls with ranges := cls.ranges ++ [(c, c)], first := false }

/-- The class once it is closed; a dash before the bracket is a member. -/
def token (cls : Class) : Token :=
  .oneOf cls.negated (if cls.inRange then cls.ranges ++ [('-', '-')] else cls.ranges)

end Class

namespace Reading

/-- Reads a character of a class. -/
def inClass (r : Reading) (cls : Class) (c : Char) : Except PatternFault Reading :=
  if c = ']' ∧ cls.first = false then .ok ((r.push cls.token).after c)
  else (cls.add c).map fun cls => { r with mode := .inClass cls }

/-- Reads one character. -/
def step (r : Reading) (c : Char) : Except PatternFault Reading :=
  match r.mode with
  | .plain before => r.plain before c
  | .star before =>
      if c = '*' then .ok { r with mode := .stars before }
      else (r.push .anyBytes).plain (some '*') c
  | .stars before =>
      match r.directories before (some c) with
      | (r, true) => .ok (r.after c)
      | (r, false) => r.plain (some '*') c
  | .escaped => .ok ((r.push (.literal c)).after c)
  | .classStart =>
      if c = '!' ∨ c = '^' then .ok { r with mode := .inClass ⟨true, [], true, false⟩ }
      else r.inClass ⟨false, [], true, false⟩ c
  | .inClass cls => r.inClass cls c

/-- Reads characters one after the other. -/
def steps (r : Reading) : List Char → Except PatternFault Reading
  | [] => .ok r
  | c :: cs =>
      match r.step c with
      | .error e => .error e
      | .ok r => r.steps cs

/-- The tokens once all groups are closed. -/
def closed (r : Reading) : Except PatternFault (List Token) :=
  if r.groups.isEmpty then .ok r.tokens else .error .unclosedGroup

/-- The tokens of a pattern that has been read to its end. -/
def finish (r : Reading) : Except PatternFault (List Token) :=
  match r.mode with
  | .plain _ => r.closed
  | .star _ => (r.push .anyBytes).closed
  | .stars before => (r.directories before none).1.closed
  | .escaped => .error .danglingEscape
  | .classStart => .error .unclosedClass
  | .inClass _ => .error .unclosedClass

end Reading

/-- The tokens of a pattern. -/
def tokensOf? (pattern : String) : Except PatternFault (List Token) :=
  match Reading.start.steps pattern.toList with
  | .error e => .error e
  | .ok r => r.finish

end Phrasebook.Glob
