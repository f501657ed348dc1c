import Phrasebook.Proofs.Module.Lines
import Phrasebook.Proofs.Syntax.Nesting

/-!
# Proofs — Module — Nesting

The statements of generated modules are balanced if what stands bare in them is: names, references
and the bodies of sections (`Statement.isBalanced_text`).  Everything else that is put into a
statement, such as the name of a language or the path of an import, stands in a literal.  So the
files that all languages share are balanced, and in any text the constant of a section is closed by
the brace that is written behind its body (`stands_append`).
-/

namespace Phrasebook.Module

open Text

/-! ### Names -/

theorem isOfNames_isBalanced : IsOfNames IsBalanced where
  name := isBalanced_of_isIdentifier
  reference ha hb := (ha.append (by decide)).append hb

theorem isBalanced_moduleIdentifier {shortcode : String} (h : isValidShortcode shortcode = true) :
    IsBalanced (moduleIdentifier shortcode) := by
  obtain ⟨-, -, -, -, hall⟩ := exists_cons_of_isValidShortcode h
  refine isBalanced_of_all (p := fun c => c.isAlphanum || c == '-') (by decide) fun c hc => ?_
  rw [moduleIdentifier, String.toList_ofList] at hc
  exact hall c (List.mem_filter.mp hc).1

/-! ### Statements -/

/-- What stands bare in a statement is balanced. -/
abbrev Statement.HasBalancedParts (s : Statement) : Prop :=
  s.PartsAre IsBalanced IsBalanced IsBalanced

/-- The constant of a section with its type. -/
theorem isBalanced_typedConstant {constant interface : String} (hconstant : IsBalanced constant)
    (hinterface : IsBalanced interface) :
    IsBalanced ("export const " ++ constant ++ ": " ++ sectionType interface) := by
  have hname : IsBalanced ("export const " ++ constant) := IsBalanced.append (by decide) hconstant
  exact (hname.append (by decide)).append (isOfNames_isBalanced.sectionType hinterface)

theorem passes_sectionHeader {constant interface : String} (hconstant : IsBalanced constant)
    (hinterface : IsBalanced interface) :
    Passes (.code []) (sectionHeader constant interface) (.code [.brace]) :=
  Passes.append (isBalanced_typedConstant hconstant hinterface) (by decide)

theorem passes_interfaceHeader {name : String} (hname : IsBalanced name) :
    Passes (.code []) ("export interface " ++ name ++ " \x7b") (.code [.brace]) := by
  have hnamed : IsBalanced ("export interface " ++ name) := IsBalanced.append (by decide) hname
  exact Passes.append hnamed (by decide)

/-- The fields of a record, each on a line, with its key in a literal. -/
theorem isBalanced_fieldLines {fields : List (String × String)} {separator : String}
    (h : ∀ f ∈ fields, IsBalanced f.2) (hseparator : IsBalanced separator) :
    IsBalanced
      (concat (fields.map fun f => line 1 (Text.quote f.1 ++ ": " ++ f.2 ++ separator))) := by
  refine isBalanced_concat fun t ht => ?_
  obtain ⟨f, hf, rfl⟩ := List.mem_map.mp ht
  exact isBalanced_line
    ((((isBalanced_quote f.1).append (by decide)).append (h f hf)).append hseparator) 1

/-- **A statement is balanced** if what stands bare in it is. -/
theorem Statement.isBalanced_text {s : Statement} (h : s.HasBalancedParts) : IsBalanced s.text := by
  cases s with
  | importName name source =>
      have hopen : Passes (.code []) "import \x7b " (.code [.brace]) := by decide
      have hclose : Passes (.code [.brace]) " \x7d from " (.code []) := by decide
      have hnames : IsBalanced ("import \x7b " ++ name ++ " \x7d from ") :=
        (hopen.append (IsBalanced.passes h _)).append hclose
      exact isBalanced_line ((hnames.append (isBalanced_quote source)).append (by decide)) 0
  | importAll name source =>
      have hname : IsBalanced ("import * as " ++ name ++ " from ") :=
        IsBalanced.append (IsBalanced.append (by decide) h) (by decide)
      exact isBalanced_line ((hname.append (isBalanced_quote source)).append (by decide)) 0
  | sectionValue constant interface body =>
      obtain ⟨hconstant, hinterface, hbody⟩ := h
      have hend : Passes (.code [.brace]) (line 0 "\x7d;") (.code []) := by decide
      exact (((passes_sectionHeader hconstant hinterface).line 0).append (hbody.passes _)).append
        hend
  | sectionAlias constant interface parent =>
      obtain ⟨hconstant, hinterface, hparent⟩ := h
      have htyped := isBalanced_typedConstant hconstant hinterface
      exact isBalanced_line (((((htyped.append (by decide)).append hparent).append
        (by decide)).append hconstant).append (by decide)) 0
  | record name shortcode title fields =>
      obtain ⟨hname, hfields⟩ := h
      have hheader : Passes (.code []) ("export const " ++ name ++ ": ILanguage = \x7b")
          (.code [.brace]) :=
        Passes.append (show IsBalanced ("export const " ++ name) from
          IsBalanced.append (by decide) hname) (by decide)
      have hopen : Passes (.code [.brace]) (line 1 "metadata: \x7b") (.code [.brace, .brace]) := by
        decide
      have hshortcode : IsBalanced (line 2 ("shortcode: " ++ Text.quote shortcode ++ ",")) :=
        isBalanced_line
          (IsBalanced.append (IsBalanced.append (by decide) (isBalanced_quote _)) (by decide)) 2
      have htitle : IsBalanced (line 2 ("name: " ++ Text.quote title ++ ",")) :=
        isBalanced_line
          (IsBalanced.append (IsBalanced.append (by decide) (isBalanced_quote _)) (by decide)) 2
      have hclose : Passes (.code [.brace, .brace]) (line 1 "\x7d,") (.code [.brace]) := by decide
      have hend : Passes (.code [.brace]) (line 0 "\x7d;") (.code []) := by decide
      have hmetadata := ((((hheader.line 0).append hopen).append (hshortcode.passes _)).append
        (htitle.passes _)).append hclose
      exact (hmetadata.append ((isBalanced_fieldLines hfields (by decide)).passes _)).append hend
  | exportDefault name =>
      exact isBalanced_line (IsBalanced.append (IsBalanced.append (by decide) h) (by decide)) 0
  | sectionInterface name body =>
      obtain ⟨hname, hbody⟩ := h
      have hend : Passes (.code [.brace]) (line 0 "\x7d") (.code []) := by decide
      exact (((passes_interfaceHeader hname).line 0).append (hbody.passes _)).append hend
  | recordInterface name metadata fields =>
      obtain ⟨hname, hmetadata, hfields⟩ := h
      have hline : IsBalanced (line 1 ("metadata: " ++ metadata ++ ";")) :=
        isBalanced_line (IsBalanced.append (IsBalanced.append (by decide) hmetadata) (by decide)) 1
      have hend : Passes (.code [.brace]) (line 0 "\x7d") (.code []) := by decide
      exact ((((passes_interfaceHeader hname).line 0).append (hline.passes _)).append
        ((isBalanced_fieldLines hfields (by decide)).passes _)).append hend

theorem isBalanced_statementsText {statements : List Statement}
    (h : ∀ s ∈ statements, s.HasBalancedParts) : IsBalanced (statementsText statements) := by
  refine isBalanced_concat fun t ht => ?_
  obtain ⟨s, hs, rfl⟩ := List.mem_map.mp ht
  exact Statement.isBalanced_text (h s hs)

theorem isBalanced_spacedText {statements : List Statement}
    (h : ∀ s ∈ statements, s.HasBalancedParts) : IsBalanced (spacedText statements) := by
  refine isBalanced_concat fun t ht => ?_
  obtain ⟨s, hs, rfl⟩ := List.mem_map.mp ht
  exact Passes.append (by decide) (Statement.isBalanced_text (h s hs))

/-! ### The shared files -/

theorem isBalanced_banner : IsBalanced banner := by
  decide +kernel

variable {sections : List CanonicalSection}

theorem isBalanced_sectionsInterface (h : ∀ s ∈ sections, IsBalanced s.interface) :
    IsBalanced (sectionsInterface sections) := by
  have hinterfaces : IsBalanced (spacedText (sectionInterfaces sections)) :=
    isBalanced_spacedText (partsAre_sectionInterfaces isOfNames_isBalanced h)
  have hheading : IsBalanced "\n// Sections\n" := by decide
  exact (isBalanced_banner.append hheading).append hinterfaces

theorem isBalanced_languageInterface (runtime : Runtime) (sections : List CanonicalSection) :
    IsBalanced (languageInterface runtime sections) := by
  have himports : IsBalanced (statementsText (languageImports runtime)) :=
    isBalanced_statementsText (partsAre_languageImports isOfNames_isBalanced (by decide))
  have hrecord : IsBalanced (languageRecord sections).text :=
    Statement.isBalanced_text (partsAre_languageRecord isOfNames_isBalanced)
  have hblank : IsBalanced "\n" := by decide
  have hheading : IsBalanced "\n// Language\n\n" := by decide
  exact (((isBalanced_banner.append hblank).append himports).append hheading).append hrecord

/-! ### The constant of a section -/

theorem line_zero (content : String) : line 0 content = content ++ "\n" :=
  congrArg (· ++ "\n") String.empty_append

/-- The constant of a section stands in a text between two others: its brace is opened outside of
all literals and brackets, and it is closed behind the body. -/
structure Stands (constant interface body before after text : String) : Prop where
  text_eq : text =
    before ++ sectionHeader constant interface ++ ("\n" ++ body ++ "\x7d;\n" ++ after)
  opened : Passes (.code []) (before ++ sectionHeader constant interface) (.code [.brace])
  closed : block? ("\n" ++ body ++ "\x7d;\n" ++ after).toList =
    some (("\n" ++ body).toList, (";\n" ++ after).toList)

/-- **The brace behind the body of a section closes its constant.** -/
theorem stands_append {constant interface body before : String} (hconstant : IsBalanced constant)
    (hinterface : IsBalanced interface) (hbody : IsBalanced body) (hbefore : IsBalanced before)
    (after : String) :
    Stands constant interface body before after
      (before ++ (Statement.sectionValue constant interface body).text ++ after) where
  text_eq := by
    have hend : line 0 "\x7d;" = "\x7d;\n" := by decide
    have htext : (Statement.sectionValue constant interface body).text =
        line 0 (sectionHeader constant interface) ++ body ++ line 0 "\x7d;" := rfl
    simp only [htext, hend, line_zero, String.append_assoc]
  opened := Passes.append hbefore (passes_sectionHeader hconstant hinterface)
  closed := by
    have hinside : IsBalanced ("\n" ++ body) := Passes.append (by decide) hbody
    have hchars : ("\n" ++ body ++ "\x7d;\n" ++ after).toList =
        ("\n" ++ body).toList ++ '\x7d' :: (";\n" ++ after).toList := by
      have hend : "\x7d;\n".toList = '\x7d' :: ";\n".toList := by decide
      simp only [String.toList_append, hend, List.append_assoc, List.cons_append]
    rw [hchars]
    exact block?_of_isBalanced hinside _

end Phrasebook.Module
