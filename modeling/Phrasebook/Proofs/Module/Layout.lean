import Phrasebook.Module.Language

/-!
# Proofs — Module — Layout

The text of a generated module is the texts of its statements in order, with nothing but blank
lines and comments between them (`LaidOut`).  So what is known of the statements is known of the
file: `laidOut_text` says it for the module of a language, `laidOut_sectionsInterface` and
`laidOut_languageInterface` for the two files that all languages share.
-/

namespace Phrasebook.Module

/-- A line that says nothing: it is blank or a comment. -/
def IsFiller (text : String) : Prop :=
  text = "\n" ∨ ∃ comment, '\n' ∉ comment.toList ∧ text = line 0 ("//" ++ comment)

/-- A text has the texts of statements in order, with fillers between them. -/
inductive LaidOut : List Statement → String → Prop where
  | nil : LaidOut [] ""
  | filler {filler text : String} {statements : List Statement}
      (h : IsFiller filler) (t : LaidOut statements text) : LaidOut statements (filler ++ text)
  | statement {text : String} {statements : List Statement}
      (s : Statement) (t : LaidOut statements text) : LaidOut (s :: statements) (s.text ++ text)

namespace LaidOut

theorem append {first second : List Statement} {text text' : String} (h : LaidOut first text)
    (h' : LaidOut second text') : LaidOut (first ++ second) (text ++ text') := by
  induction h with
  | nil => simpa using h'
  | filler hfiller _ ih =>
      rw [String.append_assoc]
      exact .filler hfiller ih
  | statement s _ ih =>
      rw [String.append_assoc]
      exact .statement s ih

/-- Fillers alone. -/
theorem of_isFiller {filler : String} (h : IsFiller filler) : LaidOut [] filler :=
  String.append_empty (s := filler) ▸ .filler h .nil

theorem blank : LaidOut [] "\n" :=
  of_isFiller (.inl rfl)

theorem comment (text : String) (h : '\n' ∉ text.toList) : LaidOut [] (line 0 ("//" ++ text)) :=
  of_isFiller (.inr ⟨text, h, rfl⟩)

theorem single (s : Statement) : LaidOut [s] s.text :=
  String.append_empty (s := s.text) ▸ .statement s .nil

theorem statementsText : ∀ statements : List Statement,
    LaidOut statements (statementsText statements)
  | [] => .nil
  | s :: rest => .statement s (statementsText rest)

theorem spacedText : ∀ statements : List Statement, LaidOut statements (spacedText statements)
  | [] => .nil
  | s :: rest => (blank.append (single s)).append (spacedText rest)

theorem banner : LaidOut [] banner :=
  ((comment " ********************************" (by decide)).append
    (comment " This file is generated by a tool" (by decide))).append
      (comment " ********************************" (by decide))

/-- The heading of a part of a file. -/
theorem heading (text : String) (h : '\n' ∉ text.toList) :
    LaidOut [] ("\n" ++ line 0 ("//" ++ text)) :=
  blank.append (comment text h)

theorem languageHeading : LaidOut [] "\n// Language\n\n" :=
  (heading " Language" (by decide)).append blank

end LaidOut

/-- The imports of the file with the interface of the language records. -/
def languageImports (runtime : Runtime) : List Statement :=
  [.importName "ILanguageMetadata" runtime.metadataModule,
   .importAll "Sections" (sibling sectionsModule)]

/-- The interface of the language records. -/
def languageRecord (sections : List CanonicalSection) : Statement :=
  .recordInterface "ILanguage" "ILanguageMetadata" (interfaceFields sections)

/-- The file with the interface of the language records has it behind some imports. -/
theorem laidOut_languageInterface (runtime : Runtime) (sections : List CanonicalSection) :
    LaidOut (languageImports runtime ++ [languageRecord sections])
      (languageInterface runtime sections) := by
  have himports : LaidOut (languageImports runtime)
      (banner ++ "\n" ++ statementsText (languageImports runtime)) :=
    (LaidOut.banner.append .blank).append (.statementsText _)
  have hrecord : LaidOut [languageRecord sections]
      ("\n// Language\n\n" ++ (languageRecord sections).text) :=
    LaidOut.languageHeading.append (.single _)
  have hall := himports.append hrecord
  rw [← String.append_assoc] at hall
  exact hall

namespace LanguageModule

theorem laidOut_aliasesText (m : LanguageModule) : LaidOut m.aliases m.aliasesText := by
  unfold aliasesText
  split
  · next hnone =>
      rw [List.isEmpty_iff.mp hnone]
      exact .nil
  · exact ((LaidOut.heading " Inherited sections" (by decide)).append .blank).append
      (.statementsText _)

/-- The beginning of a module, up to some of the values of its sections. -/
def beginning (m : LanguageModule) (runtime : Runtime) (values : List Statement) : String :=
  banner ++ "\n" ++ statementsText (m.imports runtime) ++ "\n// Sections\n" ++ spacedText values

/-- What follows the values of a module's sections. -/
def ending (m : LanguageModule) : String :=
  m.aliasesText ++ "\n// Language\n\n" ++ m.record.text ++ "\n" ++
    (Statement.exportDefault m.identifier).text

theorem text_eq (m : LanguageModule) (runtime : Runtime) :
    m.text runtime = m.beginning runtime m.values ++ m.ending := by
  simp only [text, beginning, ending, String.append_assoc]

theorem laidOut_beginning (m : LanguageModule) (runtime : Runtime) (values : List Statement) :
    LaidOut (m.imports runtime ++ values) (m.beginning runtime values) := by
  have himports : LaidOut (m.imports runtime)
      (Module.banner ++ "\n" ++ Module.statementsText (m.imports runtime)) :=
    (LaidOut.banner.append .blank).append (.statementsText _)
  have hvalues : LaidOut values ("\n// Sections\n" ++ spacedText values) :=
    (LaidOut.heading " Sections" (by decide)).append (.spacedText _)
  have hall := himports.append hvalues
  simpa only [beginning, String.append_assoc] using hall

theorem laidOut_ending (m : LanguageModule) :
    LaidOut (m.aliases ++ [m.record, .exportDefault m.identifier]) m.ending := by
  have hrecord : LaidOut [m.record, .exportDefault m.identifier]
      ("\n// Language\n\n" ++ m.record.text ++ "\n" ++
        (Statement.exportDefault m.identifier).text) :=
    ((LaidOut.languageHeading.append (.single m.record)).append .blank).append (.single _)
  have hall := m.laidOut_aliasesText.append hrecord
  simpa only [ending, String.append_assoc] using hall

/-- **The file of a language's module has the module's statements, in order.** -/
theorem laidOut_text (m : LanguageModule) (runtime : Runtime) :
    LaidOut (m.statements runtime) (m.text runtime) := by
  have hall := (m.laidOut_beginning runtime m.values).append m.laidOut_ending
  rw [text_eq, statements]
  simpa only [List.append_assoc] using hall

end LanguageModule

end Phrasebook.Module
