import Phrasebook.Proofs.Module.Lines

/-!
# Proofs — Module — Helper

The statements of generated modules that have nothing to do with the function `interpolate`.  A line
is helperless if it neither calls anything nor imports that name, and a statement is written in such
lines if what stands bare in it is (`Statement.isWritten_text`); for the names and paths that stand
in literals make no calls.
-/

namespace Phrasebook

open Text

namespace Module

/-! ### Lines without the helper -/

/-- A line that neither calls anything nor imports `interpolate`. -/
structure IsHelperless (line : Line) : Prop where
  isQuiet : IsQuiet line.content
  ne_importLine : ∀ source, String.ofList line.chars ≠ importLine "interpolate" source

theorem IsHelperless.of_head {depth : Nat} {content : String} (h : IsQuiet content)
    (hhead : (Line.chars ⟨depth, content⟩).head? ≠ some 'i') : IsHelperless ⟨depth, content⟩ where
  isQuiet := h
  ne_importLine source heq := by
    have hchars := congrArg (fun l => l.toList.head?) heq
    rw [String.toList_ofList] at hchars
    exact hhead (hchars.trans (by simp [importLine]))

/-- An indented line does not import anything. -/
theorem IsHelperless.of_depth {line : Line} (h : IsQuiet line.content) (hdepth : 0 < line.depth) :
    IsHelperless line := by
  obtain ⟨depth, content⟩ := line
  cases depth with
  | zero => exact absurd hdepth (Nat.lt_irrefl 0)
  | succ n => exact .of_head h (by simp [Line.chars, Nat.mul_succ, List.replicate_succ])

/-- A line at the top of a module that does not start with the letter of imports. -/
theorem isWritten_top {content : String} (h : IsTame content)
    (hhead : content.toList.head? ≠ some 'i') : IsWritten IsHelperless (line 0 content) :=
  .line h.isOneLine (.of_head h.isQuiet (by simpa [Line.chars] using hhead))

theorem isWritten_indented {depth : Nat} {content : String} (h : IsTame content) :
    IsWritten IsHelperless (line (depth + 1) content) :=
  .line h.isOneLine (.of_depth h.isQuiet (Nat.succ_pos depth))

/-! ### Statements -/

theorem isOfNames_isTame : IsOfNames IsTame where
  name := isTame_of_isIdentifier
  reference ha hb := (ha.append (isTame_of_plain (by decide))).append hb

theorem isTame_moduleIdentifier {shortcode : String} (h : isValidShortcode shortcode = true) :
    IsTame (moduleIdentifier shortcode) :=
  ⟨not_mem_moduleIdentifier h (by decide),
    isQuiet_of_plain (not_mem_moduleIdentifier h (by decide))
      (not_mem_moduleIdentifier h (by decide))⟩

/-- Another identifier than that of the function. -/
def IsOtherName (name : String) : Prop :=
  isIdentifier name = true ∧ name ≠ "interpolate"

/-- What stands bare in a statement is tame. -/
abbrev Statement.HasTameParts (s : Statement) : Prop :=
  s.PartsAre IsOtherName IsTame (IsWritten IsHelperless)

/-- The constant of a section with its type. -/
theorem isTame_typedConstant {constant interface : String} (hconstant : IsTame constant)
    (hinterface : IsTame interface) :
    IsTame ("export const " ++ constant ++ ": " ++ sectionType interface) := by
  have hexport : IsTame "export const " := isTame_of_plain (by decide)
  have hcolon : IsTame ": " := isTame_of_plain (by decide)
  exact ((hexport.append hconstant).append hcolon).append
    (isOfNames_isTame.sectionType hinterface)

/-- The fields of a record, each on a line, with its key in a literal. -/
theorem isWritten_fieldLines {fields : List (String × String)} {separator : String}
    (h : ∀ f ∈ fields, IsTame f.2) (hseparator : IsTame separator) :
    IsWritten IsHelperless
      (concat (fields.map fun f => line 1 (Text.quote f.1 ++ ": " ++ f.2 ++ separator))) := by
  have hcolon : IsTame ": " := isTame_of_plain (by decide)
  refine .concat fun t ht => ?_
  obtain ⟨f, hf, rfl⟩ := List.mem_map.mp ht
  exact isWritten_indented ((((isTame_quote f.1).append hcolon).append (h f hf)).append hseparator)

/-- **A statement is written in lines without the helper**, if what stands bare in it is tame. -/
theorem Statement.isWritten_text {s : Statement} (h : s.HasTameParts) :
    IsWritten IsHelperless s.text := by
  have hsemicolon : IsTame ";" := isTame_of_plain (by decide)
  have hexport : IsTame "export const " := isTame_of_plain (by decide)
  have hinterface : IsTame "export interface " := isTame_of_plain (by decide)
  have hopening : IsTame " \x7b" := isTame_of_plain (by decide)
  have hclosing : IsWritten IsHelperless (line 0 "\x7d") :=
    isWritten_top (isTame_of_plain (by decide)) (by decide)
  have hend : IsWritten IsHelperless (line 0 "\x7d;") :=
    isWritten_top (isTame_of_plain (by decide)) (by decide)
  cases s with
  | importName name source =>
      obtain ⟨hname, hne⟩ := h
      have htame := isTame_importLine (isTame_of_isIdentifier hname) source
      refine .line htame.isOneLine ⟨htame.isQuiet, fun source' heq => hne ?_⟩
      rw [ofList_chars_zero] at heq
      exact importLine_inj hname (by decide) heq
  | importAll name source =>
      have himport : IsTame "import * as " := isTame_of_plain (by decide)
      have hfrom : IsTame " from " := isTame_of_plain (by decide)
      have htame := (((himport.append h).append hfrom).append (isTame_quote source)).append
        hsemicolon
      refine .line htame.isOneLine ⟨htame.isQuiet, fun source' heq => ?_⟩
      -- a star stands where the brace would
      have hchars := congrArg (fun l => l.toList[7]?) heq
      rw [ofList_chars_zero] at hchars
      simp [importLine] at hchars
  | sectionValue constant interface body =>
      obtain ⟨hconstant, hinterface, hbody⟩ := h
      have hbrace : IsTame " = \x7b" := isTame_of_plain (by decide)
      exact ((isWritten_top ((isTame_typedConstant hconstant hinterface).append hbrace)
        (by simp)).append hbody).append hend
  | sectionAlias constant interface parent =>
      obtain ⟨hconstant, hinterface, hparent⟩ := h
      have hequals : IsTame " = " := isTame_of_plain (by decide)
      have hdot : IsTame "." := isTame_of_plain (by decide)
      exact isWritten_top ((((((isTame_typedConstant hconstant hinterface).append hequals).append
        hparent).append hdot).append hconstant).append hsemicolon) (by simp)
  | record name shortcode title fields =>
      obtain ⟨hname, hfields⟩ := h
      have htype : IsTame ": ILanguage = \x7b" := isTame_of_plain (by decide)
      have hmetadata : IsTame "metadata: \x7b" := isTame_of_plain (by decide)
      have hshortcode : IsTame "shortcode: " := isTame_of_plain (by decide)
      have htitle : IsTame "name: " := isTame_of_plain (by decide)
      have hcomma : IsTame "," := isTame_of_plain (by decide)
      have hclose : IsTame "\x7d," := isTame_of_plain (by decide)
      have hheader : IsWritten IsHelperless
          (line 0 ("export const " ++ name ++ ": ILanguage = \x7b")) :=
        isWritten_top ((hexport.append hname).append htype) (by simp)
      exact (((((hheader.append (isWritten_indented hmetadata)).append
        (isWritten_indented ((hshortcode.append (isTame_quote shortcode)).append hcomma))).append
        (isWritten_indented ((htitle.append (isTame_quote title)).append hcomma))).append
        (isWritten_indented hclose)).append (isWritten_fieldLines hfields hcomma)).append hend
  | exportDefault name =>
      have hdefault : IsTame "export default " := isTame_of_plain (by decide)
      exact isWritten_top ((hdefault.append h).append hsemicolon) (by simp)
  | sectionInterface name body =>
      obtain ⟨hname, hbody⟩ := h
      exact ((isWritten_top ((hinterface.append hname).append hopening) (by simp)).append
        hbody).append hclosing
  | recordInterface name metadata fields =>
      obtain ⟨hname, hmetadata, hfields⟩ := h
      have hfield : IsTame "metadata: " := isTame_of_plain (by decide)
      exact (((isWritten_top ((hinterface.append hname).append hopening) (by simp)).append
        (isWritten_indented ((hfield.append hmetadata).append hsemicolon))).append
        (isWritten_fieldLines hfields hsemicolon)).append hclosing

theorem isWritten_statementsText {statements : List Statement}
    (h : ∀ s ∈ statements, s.HasTameParts) :
    IsWritten IsHelperless (statementsText statements) := by
  refine .concat fun t ht => ?_
  obtain ⟨s, hs, rfl⟩ := List.mem_map.mp ht
  exact Statement.isWritten_text (h s hs)

theorem isWritten_blank : IsWritten IsHelperless "\n" :=
  show IsWritten IsHelperless (line 0 "") from
    isWritten_top (isTame_of_plain (by decide)) (by decide)

theorem isWritten_comment (comment : String) (h : IsTame comment) :
    IsWritten IsHelperless (line 0 ("//" ++ comment)) := by
  have hslashes : IsTame "//" := isTame_of_plain (by decide)
  exact isWritten_top (hslashes.append h) (by simp)

theorem isWritten_spacedText {statements : List Statement}
    (h : ∀ s ∈ statements, s.HasTameParts) :
    IsWritten IsHelperless (spacedText statements) := by
  refine .concat fun t ht => ?_
  obtain ⟨s, hs, rfl⟩ := List.mem_map.mp ht
  exact isWritten_blank.append (Statement.isWritten_text (h s hs))

theorem isWritten_banner : IsWritten IsHelperless banner :=
  ((isWritten_comment " ********************************" (isTame_of_plain (by decide))).append
    (isWritten_comment " This file is generated by a tool" (isTame_of_plain (by decide)))).append
      (isWritten_comment " ********************************" (isTame_of_plain (by decide)))

/-- The heading of a part of a file. -/
theorem isWritten_heading (comment : String) (h : IsTame comment) :
    IsWritten IsHelperless ("\n" ++ line 0 ("//" ++ comment)) :=
  isWritten_blank.append (isWritten_comment comment h)

end Module

end Phrasebook
