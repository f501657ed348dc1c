import Phrasebook.Syntax.Template

/-!
# Syntax — Tree

The syntax of a section: the entries of its payload, once all of its templates are known to be
sound.  `Tree.ofPayload?` stops at the first template that is not, in document order.
-/

namespace Phrasebook.Syntax

/-- One entry of a section. -/
inductive Entry where
  /-- A plain text. -/
  | literal (name text : String)
  /-- A function of its parameters that puts them into the text. -/
  | callable (name text : String) (params : List String)
  /-- An object of entries. -/
  | block (name : String) (entries : List Entry)

/-- The entries of a section. -/
abbrev Tree : Type :=
  List Entry

/-- The name of an entry. -/
def Entry.name : Entry → String
  | .literal name _ => name
  | .callable name _ _ => name
  | .block name _ => name

mutual

/-- The entry of a translation under its name. -/
def Entry.ofTranslation? (path : EntryPath) (name : String) :
    Translation → Except TemplateFault Entry
  | .literal text => .ok (.literal name text)
  | .template text params =>
      match templateProblem? text params with
      | some problem => .error ⟨path, problem⟩
      | none => .ok (.callable name text params)
  | .node entries => (treeOf? path entries).map (.block name)

/-- The entries of named translations at a place of the section. -/
def treeOf? (path : EntryPath) : List (String × Translation) → Except TemplateFault (List Entry)
  | [] => .ok []
  | (name, t) :: rest =>
      match Entry.ofTranslation? (path ++ [name]) name t with
      | .error e => .error e
      | .ok entry => (treeOf? path rest).map (entry :: ·)

end

namespace Tree

/-- The syntax of a payload. -/
def ofPayload? (payload : Payload) : Except TemplateFault Tree :=
  treeOf? [] payload

end Tree

mutual

/-- Is or holds a callable. -/
def Entry.interpolates : Entry → Bool
  | .literal _ _ => false
  | .callable _ _ _ => true
  | .block _ entries => anyInterpolates entries

/-- One of the entries is or holds a callable. -/
def anyInterpolates : List Entry → Bool
  | [] => false
  | e :: es => e.interpolates || anyInterpolates es

end

/-- Holds a callable at some depth. -/
def Tree.interpolates (tree : Tree) : Bool :=
  anyInterpolates tree

end Phrasebook.Syntax
