import Phrasebook.Proofs.Module.Parts
import Phrasebook.Proofs.Settings.Shortcode
import Phrasebook.Proofs.Text.Calls

/-!
# Proofs — Module — Lines

What statements spell, line by line.  A statement starts with a line that says what it exports or
imports (`Statement.firstLine`); if it goes on, there are indented lines, one for each field of a
record (`Statement.block`), and a brace that closes it.  A text is read back without knowing where
it has come from: `statementsIn` finds the lines that start a statement, and takes the indented
lines behind each.  From a file that has the texts of some statements it reads just what these
statements spell (`LaidOut.spells`).
-/

namespace Phrasebook

open Text

/-! ### Lines of written texts -/

namespace Text

theorem IsWritten.lines_append {P : Line → Prop} {a : String} (h : IsWritten P a) (rest : String) :
    lines (a ++ rest) = lines a ++ lines rest := by
  obtain ⟨source, rfl, hsource⟩ := h
  have honeline : ∀ line ∈ source, IsOneLine line.content := fun line hline =>
    (hsource line hline).1
  rw [lines_text_append honeline, lines_text honeline]

end Text

namespace Module

theorem ofList_chars (depth : Nat) (content : String) :
    String.ofList (Line.chars ⟨depth, content⟩) =
      String.ofList (List.replicate (2 * depth) ' ') ++ content := by
  rw [Line.chars, String.ofList_append, String.ofList_toList]

theorem ofList_chars_zero (content : String) :
    String.ofList (Line.chars ⟨0, content⟩) = content :=
  String.ofList_toList

/-- A line at the top of a text. -/
theorem lines_line_append {content : String} (h : IsOneLine content) (rest : String) :
    lines (line 0 content ++ rest) = content :: lines rest := by
  have hline := lines_text_append (List.forall_mem_singleton.mpr h :
    ∀ l ∈ [(⟨0, content⟩ : Line)], IsOneLine l.content) rest
  have htext : Source.text [(⟨0, content⟩ : Line)] = line 0 content := String.append_empty
  rw [htext] at hline
  rw [hline, List.map_singleton, ofList_chars_zero]
  rfl

/-- A line, a text of lines, and a line that closes it. -/
theorem lines_block_append {first body last : String} {P : Line → Prop} (hfirst : IsOneLine first)
    (hbody : IsWritten P body) (hlast : IsOneLine last) (rest : String) :
    lines (line 0 first ++ body ++ line 0 last ++ rest) =
      first :: (lines body ++ [last] ++ lines rest) := by
  rw [String.append_assoc, String.append_assoc, lines_line_append hfirst, hbody.lines_append,
    lines_line_append hlast, List.append_assoc]
  rfl

/-! ### What statements spell -/

/-- What stands before the body of a section. -/
def sectionHeader (constant interface : String) : String :=
  "export const " ++ constant ++ ": " ++ sectionType interface ++ " = \x7b"

/-- The line of a field: its key in a literal, and behind a colon what it has. -/
def fieldLine (separator : String) (field : String × String) : String :=
  "  " ++ (Text.quote field.1 ++ ": " ++ field.2 ++ separator)

namespace Statement

/-- The line that a statement starts with. -/
def firstLine : Statement → String
  | .importName name source => importLine name source
  | .importAll name source => "import * as " ++ name ++ " from " ++ Text.quote source ++ ";"
  | .sectionValue constant interface _ => sectionHeader constant interface
  | .sectionAlias constant interface parent =>
      "export const " ++ constant ++ ": " ++ sectionType interface ++ " = " ++ parent ++ "." ++
        constant ++ ";"
  | .record name _ _ _ => "export const " ++ name ++ ": ILanguage = \x7b"
  | .exportDefault name => "export default " ++ name ++ ";"
  | .sectionInterface name _ => "export interface " ++ name ++ " \x7b"
  | .recordInterface name _ _ => "export interface " ++ name ++ " \x7b"

/-- The lines inside of a statement: those of a body, or the metadata and the fields of a record. -/
def block : Statement → List String
  | .sectionValue _ _ body => lines body
  | .record _ shortcode title fields =>
      ["  metadata: \x7b", "    " ++ ("shortcode: " ++ Text.quote shortcode ++ ","),
        "    " ++ ("name: " ++ Text.quote title ++ ","), "  \x7d,"] ++ fields.map (fieldLine ",")
  | .sectionInterface _ body => lines body
  | .recordInterface _ metadata fields =>
      ("  " ++ ("metadata: " ++ metadata ++ ";")) :: fields.map (fieldLine ";")
  | _ => []

/-- The line that closes a statement with lines inside. -/
def lastLine : Statement → List String
  | .sectionValue _ _ _ => ["\x7d;"]
  | .record _ _ _ _ => ["\x7d;"]
  | .sectionInterface _ _ => ["\x7d"]
  | .recordInterface _ _ _ => ["\x7d"]
  | _ => []

/-- What stands bare in a statement is on one line, and bodies are written in indented lines. -/
abbrev HasLines (s : Statement) : Prop :=
  s.PartsAre IsOneLine IsOneLine (IsWritten fun line => 0 < line.depth)

end Statement

theorem isOfNames_isOneLine : IsOfNames IsOneLine where
  name := not_mem_of_isIdentifier (by decide)
  reference ha hb := (ha.append (by decide)).append hb

theorem isOneLine_moduleIdentifier {shortcode : String} (h : isValidShortcode shortcode = true) :
    IsOneLine (moduleIdentifier shortcode) :=
  not_mem_moduleIdentifier h (by decide)

/-- The constant of a section with its type. -/
theorem isOneLine_typedConstant {constant interface : String} (hconstant : IsOneLine constant)
    (hinterface : IsOneLine interface) :
    IsOneLine ("export const " ++ constant ++ ": " ++ sectionType interface) := by
  have hexport : IsOneLine "export const " := by decide
  exact ((hexport.append hconstant).append (by decide)).append
    (isOfNames_isOneLine.sectionType hinterface)

/-- The lines of the metadata in the record of a language. -/
def metadataSource (shortcode title : String) : Source :=
  [⟨1, "metadata: \x7b"⟩, ⟨2, "shortcode: " ++ Text.quote shortcode ++ ","⟩,
    ⟨2, "name: " ++ Text.quote title ++ ","⟩, ⟨1, "\x7d,"⟩]

theorem isOneLine_of_mem_metadataSource (shortcode title : String) :
    ∀ line ∈ metadataSource shortcode title, IsOneLine line.content := by
  have hshortcode : IsOneLine ("shortcode: " ++ Text.quote shortcode ++ ",") :=
    (IsOneLine.append (by decide) (isOneLine_quote shortcode)).append (by decide)
  have htitle : IsOneLine ("name: " ++ Text.quote title ++ ",") :=
    (IsOneLine.append (by decide) (isOneLine_quote title)).append (by decide)
  intro line hline
  rcases List.mem_cons.mp hline with rfl | hline
  · exact show IsOneLine "metadata: \x7b" by decide
  · rcases List.mem_cons.mp hline with rfl | hline
    · exact hshortcode
    · rcases List.mem_cons.mp hline with rfl | hline
      · exact htitle
      · rw [List.mem_singleton.mp hline]
        exact show IsOneLine "\x7d," by decide

/-- The lines of fields. -/
def fieldSource (separator : String) (fields : List (String × String)) : Source :=
  fields.map fun f => ⟨1, Text.quote f.1 ++ ": " ++ f.2 ++ separator⟩

theorem isOneLine_of_mem_fieldSource {separator : String} {fields : List (String × String)}
    (h : ∀ f ∈ fields, IsOneLine f.2) (hseparator : IsOneLine separator) :
    ∀ line ∈ fieldSource separator fields, IsOneLine line.content := by
  intro line hline
  obtain ⟨f, hf, rfl⟩ := List.mem_map.mp hline
  exact (((isOneLine_quote f.1).append (by decide)).append (h f hf)).append hseparator

/-- The lines of a record: its head, and one for each field. -/
theorem lines_record_append {first last separator : String} {head : Source}
    {fields : List (String × String)} (hfirst : IsOneLine first)
    (hhead : ∀ line ∈ head, IsOneLine line.content) (hfields : ∀ f ∈ fields, IsOneLine f.2)
    (hseparator : IsOneLine separator) (hlast : IsOneLine last) (rest : String) :
    lines (line 0 first ++ Source.text (head ++ fieldSource separator fields) ++ line 0 last ++
        rest) =
      first :: ((head.map fun line => String.ofList line.chars) ++
        fields.map (fieldLine separator) ++ [last] ++ lines rest) := by
  have hsource : ∀ line ∈ head ++ fieldSource separator fields, IsOneLine line.content :=
    List.forall_mem_append.mpr ⟨hhead, isOneLine_of_mem_fieldSource hfields hseparator⟩
  have hlines : (fieldSource separator fields).map (fun line => String.ofList line.chars) =
      fields.map (fieldLine separator) := by
    rw [fieldSource, List.map_map]
    exact List.map_congr_left fun f _ => ofList_chars 1 _
  rw [lines_block_append (P := fun _ => True) hfirst
    ⟨_, rfl, fun line hline => ⟨hsource line hline, trivial⟩⟩ hlast, lines_text hsource,
    List.map_append, hlines]

namespace Statement

/-- The record of a language as lines. -/
theorem text_record (name shortcode title : String) (fields : List (String × String)) :
    (record name shortcode title fields).text =
      line 0 ("export const " ++ name ++ ": ILanguage = \x7b") ++
        Source.text (metadataSource shortcode title ++ fieldSource "," fields) ++
          line 0 "\x7d;" := by
  rw [text_append]
  simp only [text, metadataSource, Source.text, fieldSource, List.map_cons, List.map_nil,
    List.map_map, concat, String.append_empty, String.append_assoc]
  rfl

/-- The interface of the language records as lines. -/
theorem text_recordInterface (name metadata : String) (fields : List (String × String)) :
    (recordInterface name metadata fields).text =
      line 0 ("export interface " ++ name ++ " \x7b") ++
        Source.text ([⟨1, "metadata: " ++ metadata ++ ";"⟩] ++ fieldSource ";" fields) ++
          line 0 "\x7d" := by
  rw [text_append]
  simp only [text, Source.text, fieldSource, List.map_cons, List.map_nil, List.map_map, concat,
    String.append_empty, String.append_assoc]
  rfl

/-- **What a statement spells**: its first line, the lines inside, and the line that closes it. -/
theorem lines_text_append {s : Statement} (h : s.HasLines) (rest : String) :
    lines (s.text ++ rest) = s.firstLine :: (s.block ++ s.lastLine ++ lines rest) := by
  have hexport : IsOneLine "export const " := by decide
  have hinterface : IsOneLine "export interface " := by decide
  have hbrace : IsOneLine " \x7b" := by decide
  cases s with
  | importName name source =>
      have himport : IsOneLine "import \x7b " := by decide
      exact lines_line_append ((((himport.append h).append (by decide)).append
        (isOneLine_quote source)).append (by decide)) rest
  | importAll name source =>
      have himport : IsOneLine "import * as " := by decide
      exact lines_line_append ((((himport.append h).append (by decide)).append
        (isOneLine_quote source)).append (by decide)) rest
  | sectionValue constant interface body =>
      obtain ⟨hconstant, hname, hbody⟩ := h
      exact lines_block_append ((isOneLine_typedConstant hconstant hname).append (by decide)) hbody
        (by decide) rest
  | sectionAlias constant interface parent =>
      obtain ⟨hconstant, hname, hparent⟩ := h
      have htyped := isOneLine_typedConstant hconstant hname
      exact lines_line_append (((((htyped.append (by decide)).append hparent).append
        (by decide)).append hconstant).append (by decide)) rest
  | record name shortcode title fields =>
      obtain ⟨hname, hfields⟩ := h
      have hheader : IsOneLine ("export const " ++ name ++ ": ILanguage = \x7b") :=
        (hexport.append hname).append (by decide)
      rw [text_record, lines_record_append hheader (isOneLine_of_mem_metadataSource shortcode title)
        hfields (by decide) (by decide)]
      simp only [metadataSource, List.map_cons, List.map_nil, ofList_chars]
      rfl
  | exportDefault name =>
      have hdefault : IsOneLine "export default " := by decide
      exact lines_line_append ((hdefault.append h).append (by decide)) rest
  | sectionInterface name body =>
      obtain ⟨hname, hbody⟩ := h
      exact lines_block_append ((hinterface.append hname).append hbrace) hbody (by decide) rest
  | recordInterface name metadata fields =>
      obtain ⟨hname, hmetadata, hfields⟩ := h
      have hfield : IsOneLine ("metadata: " ++ metadata ++ ";") :=
        (IsOneLine.append (by decide) hmetadata).append (by decide)
      rw [text_recordInterface, lines_record_append ((hinterface.append hname).append hbrace)
        (List.forall_mem_singleton.mpr hfield) hfields (by decide) (by decide)]
      simp only [List.map_cons, List.map_nil, ofList_chars]
      rfl

end Statement

/-! ### Reading statements -/

/-- A line with a blank at its start. -/
def isIndented (l : String) : Bool :=
  l.toList.head? == some ' '

/-- A line with one of the words that statements start with. -/
def startsStatement (l : String) : Bool :=
  "import ".toList.isPrefixOf l.toList || "export ".toList.isPrefixOf l.toList

/-- The statements in a text of some lines: the lines that start one, each with the indented lines
behind it. -/
def statementsIn : List String → List (String × List String)
  | [] => []
  | l :: ls =>
      if startsStatement l then (l, ls.takeWhile isIndented) :: statementsIn ls
      else statementsIn ls

/-- Of the text is read what the statements spell. -/
def Spells (statements : List Statement) (text : String) : Prop :=
  statementsIn (lines text) = statements.map fun s => (s.firstLine, s.block)

theorem startsStatement_append {l : String} (h : startsStatement l = true) (rest : String) :
    startsStatement (l ++ rest) = true := by
  have hlonger : ∀ word : List Char, word.isPrefixOf l.toList = true →
      word.isPrefixOf (l.toList ++ rest.toList) = true := fun word hword =>
    List.isPrefixOf_iff_prefix.mpr
      ((List.isPrefixOf_iff_prefix.mp hword).trans (List.prefix_append _ _))
  rw [startsStatement, Bool.or_eq_true] at h ⊢
  rw [String.toList_append]
  exact h.imp (hlonger _) (hlonger _)

theorem startsStatement_eq_false {l : String} (h : isIndented l = true) :
    startsStatement l = false := by
  have hhead : l.toList.head? = some ' ' := beq_iff_eq.mp h
  unfold startsStatement
  cases hchars : l.toList with
  | nil => rfl
  | cons c cs =>
      obtain rfl : c = ' ' := by simpa [hchars] using hhead
      rfl

/-- A line at the top of a text is not indented. -/
theorem isIndented_eq_false {l : String} (h : startsStatement l = true) : isIndented l = false :=
  Bool.eq_false_iff.mpr fun hindented => by
    rw [startsStatement_eq_false hindented] at h
    cases h

theorem isIndented_append {l : String} (h : isIndented l = true) (rest : String) :
    isIndented (l ++ rest) = true := by
  have hhead : l.toList.head? = some ' ' := beq_iff_eq.mp h
  rw [isIndented, String.toList_append, List.head?_append, hhead]
  rfl

/-- A line inside of something is indented. -/
theorem isIndented_chars {line : Line} (h : 0 < line.depth) :
    isIndented (String.ofList line.chars) = true := by
  obtain ⟨depth, content⟩ := line
  cases depth with
  | zero => exact absurd h (Nat.lt_irrefl 0)
  | succ n => simp [isIndented, Line.chars, Nat.mul_succ, List.replicate_succ]

/-- Lines that start no statement are passed over. -/
theorem statementsIn_append {first : List String} (h : ∀ l ∈ first, startsStatement l = false)
    (rest : List String) : statementsIn (first ++ rest) = statementsIn rest := by
  induction first with
  | nil => rfl
  | cons l first ih =>
      obtain ⟨hl, hfirst⟩ := List.forall_mem_cons.mp h
      rw [List.cons_append, statementsIn, if_neg (by simp [hl]), ih hfirst]

/-- **A statement is read**, with the lines in it, if no indented line follows. -/
theorem statementsIn_statement {first : String} {block last rest : List String}
    (hfirst : startsStatement first = true) (hblock : ∀ l ∈ block, isIndented l = true)
    (hlast : ∀ l ∈ last, startsStatement l = false)
    (hend : ∀ l ∈ (last ++ rest).head?, isIndented l = false) :
    statementsIn (first :: (block ++ last ++ rest)) = (first, block) :: statementsIn rest := by
  have hinside : (block ++ (last ++ rest)).takeWhile isIndented = block := by
    rw [List.takeWhile_append_of_pos hblock]
    cases hrest : last ++ rest with
    | nil => simp
    | cons l ls => simp [hend l (by simp [hrest])]
  rw [statementsIn, if_pos hfirst, List.append_assoc, hinside,
    statementsIn_append fun l hl => startsStatement_eq_false (hblock l hl),
    statementsIn_append hlast]

namespace Statement

/-- A statement starts with one of the words for it. -/
theorem startsStatement_firstLine (s : Statement) : startsStatement s.firstLine = true := by
  have hexport : startsStatement "export const " = true := by decide
  have hinterface : startsStatement "export interface " = true := by decide
  cases s with
  | importName name source =>
      have himport : startsStatement "import \x7b " = true := by decide
      exact startsStatement_append (startsStatement_append (startsStatement_append
        (startsStatement_append himport _) _) _) _
  | importAll name source =>
      have himport : startsStatement "import * as " = true := by decide
      exact startsStatement_append (startsStatement_append (startsStatement_append
        (startsStatement_append himport _) _) _) _
  | sectionValue constant interface body =>
      exact startsStatement_append (startsStatement_append (startsStatement_append
        (startsStatement_append hexport _) _) _) _
  | sectionAlias constant interface parent =>
      exact startsStatement_append (startsStatement_append (startsStatement_append
        (startsStatement_append (startsStatement_append (startsStatement_append
          (startsStatement_append (startsStatement_append hexport _) _) _) _) _) _) _) _
  | record name shortcode title fields =>
      exact startsStatement_append (startsStatement_append hexport _) _
  | exportDefault name =>
      have hdefault : startsStatement "export default " = true := by decide
      exact startsStatement_append (startsStatement_append hdefault _) _
  | sectionInterface name body =>
      exact startsStatement_append (startsStatement_append hinterface _) _
  | recordInterface name metadata fields =>
      exact startsStatement_append (startsStatement_append hinterface _) _

theorem isIndented_fieldLine (separator : String) (field : String × String) :
    isIndented (fieldLine separator field) = true :=
  isIndented_append (by decide) _

/-- The lines inside of a statement are indented. -/
theorem isIndented_of_mem_block {s : Statement} (h : s.HasLines) :
    ∀ l ∈ s.block, isIndented l = true := by
  have hbody : ∀ {body : String}, (IsWritten fun line => 0 < line.depth) body →
      ∀ l ∈ lines body, isIndented l = true := fun hwritten l hl => by
    obtain ⟨line, hdepth, rfl⟩ := hwritten.exists_of_mem_lines hl
    exact isIndented_chars hdepth
  have hfields : ∀ (separator : String) (fields : List (String × String)),
      ∀ l ∈ fields.map (fieldLine separator), isIndented l = true := fun separator _ =>
    List.forall_mem_map.mpr fun field _ => isIndented_fieldLine separator field
  cases s with
  | sectionValue constant interface body => exact hbody h.2.2
  | record name shortcode title fields =>
      refine List.forall_mem_append.mpr ⟨?_, hfields "," fields⟩
      simp only [List.forall_mem_cons, List.not_mem_nil, false_implies, implies_true, and_true]
      exact ⟨by decide, isIndented_append (by decide) _, isIndented_append (by decide) _, by decide⟩
  | sectionInterface name body => exact hbody h.2
  | recordInterface name metadata fields =>
      exact List.forall_mem_cons.mpr ⟨isIndented_append (by decide) _, hfields ";" fields⟩
  | _ => exact nofun

/-- The line that closes a statement neither starts one nor stands inside of it. -/
theorem startsStatement_of_mem_lastLine (s : Statement) :
    ∀ l ∈ s.lastLine, startsStatement l = false ∧ isIndented l = false := by
  have hbrace : startsStatement "\x7d" = false ∧ isIndented "\x7d" = false := by decide
  have hend : startsStatement "\x7d;" = false ∧ isIndented "\x7d;" = false := by decide
  cases s with
  | sectionValue => exact List.forall_mem_singleton.mpr hend
  | record => exact List.forall_mem_singleton.mpr hend
  | sectionInterface => exact List.forall_mem_singleton.mpr hbrace
  | recordInterface => exact List.forall_mem_singleton.mpr hbrace
  | _ => exact nofun

end Statement

/-! ### Files -/

theorem IsFiller.exists_line {filler : String} (h : IsFiller filler) :
    ∃ content, filler = line 0 content ∧ IsOneLine content ∧ startsStatement content = false ∧
      isIndented content = false := by
  obtain rfl | ⟨comment, hcomment, rfl⟩ := h
  · exact ⟨"", rfl, by decide, by decide, by decide⟩
  · have hchars : ("//" ++ comment).toList = '/' :: '/' :: comment.toList := String.toList_append
    refine ⟨"//" ++ comment, rfl, IsOneLine.append (by decide) hcomment, ?_, ?_⟩
    · rw [startsStatement, hchars]
      rfl
    · rw [isIndented, hchars]
      rfl

/-- **From a file is read what its statements spell.** -/
theorem LaidOut.spells {statements : List Statement} {text : String}
    (h : LaidOut statements text) (hlines : ∀ s ∈ statements, s.HasLines) :
    Spells statements text := by
  suffices hall : Spells statements text ∧ ∀ l ∈ (lines text).head?, isIndented l = false from
    hall.1
  induction h with
  | nil => exact ⟨rfl, nofun⟩
  | filler hfiller _ ih =>
      obtain ⟨content, rfl, honeline, hstart, hindented⟩ := hfiller.exists_line
      obtain ⟨hspells, -⟩ := ih hlines
      rw [Spells, lines_line_append honeline]
      refine ⟨?_, by simpa using hindented⟩
      rw [statementsIn, if_neg (by simp [hstart])]
      exact hspells
  | @statement text statements s _ ih =>
      obtain ⟨hs, hstatements⟩ := List.forall_mem_cons.mp hlines
      obtain ⟨hspells, hhead⟩ := ih hstatements
      have hlast := s.startsStatement_of_mem_lastLine
      have hstart := s.startsStatement_firstLine
      rw [Spells, Statement.lines_text_append hs]
      refine ⟨?_, by simpa using isIndented_eq_false hstart⟩
      rw [statementsIn_statement hstart (Statement.isIndented_of_mem_block hs)
        (fun l hl => (hlast l hl).1) ?_, hspells, List.map_cons]
      intro l hl
      rw [List.head?_append] at hl
      cases hclosing : s.lastLine.head? with
      | none => exact hhead l (by simpa [hclosing] using hl)
      | some l' =>
          obtain rfl : l' = l := by simpa [hclosing] using hl
          exact (hlast l' (List.mem_of_mem_head? hclosing)).2

end Module

end Phrasebook
