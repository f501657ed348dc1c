import Phrasebook.Proofs.Module.Layout
import Phrasebook.Proofs.Section.Name

/-!
# Proofs — Module — Parts

What stands bare in statements.  A statement has names, references to names, and the bodies of
sections as they are; everything else that is put into it stands in string literals.  So what is to
be known of these parts is known of all statements of a module, if it is known of identifiers and of
references to them (`IsOfNames`), of the identifiers of the module and its parent, and of the values
of its sections (`LanguageModule.PartsAre.statements`).
-/

namespace Phrasebook.Module
open Text

/-- The parts of a statement that stand bare: names that are imported one by one, all other names
and references, and the bodies of sections. -/
def Statement.PartsAre (imported bare body : String → Prop) : Statement → Prop
  | .importName name _ => imported name
  | .importAll name _ => bare name
  | .sectionValue constant interface text => bare constant ∧ bare interface ∧ body text
  | .sectionAlias constant interface parent => bare constant ∧ bare interface ∧ bare parent
  | .record name _ _ fields => bare name ∧ ∀ f ∈ fields, bare f.2
  | .exportDefault name => bare name
  | .sectionInterface name text => bare name ∧ body text
  | .recordInterface name metadata fields => bare name ∧ bare metadata ∧ ∀ f ∈ fields, bare f.2

/-- Holds of identifiers, and of references to what a module exports. -/
structure IsOfNames (bare : String → Prop) : Prop where
  name : ∀ {name : String}, isIdentifier name = true → bare name
  reference : ∀ {a b : String}, bare a → bare b → bare (a ++ "." ++ b)

variable {imported bare body : String → Prop}

/-- The name under which modules import the interfaces of sections. -/
theorem IsOfNames.sections (h : IsOfNames bare) : bare "Sections" :=
  h.name (by decide)

/-- The type of a section refers to its interface. -/
theorem IsOfNames.sectionType (h : IsOfNames bare) {interface : String} (hname : bare interface) :
    bare (sectionType interface) :=
  h.reference h.sections hname

/-! ### The statements of a module -/

namespace LanguageModule

variable {m : LanguageModule}

/-- The statements of a module are its imports, the constants for its own sections and for those
that it inherits, its record, and the export of the record. -/
theorem forall_mem_statements {runtime : Runtime} {P : Statement → Prop} :
    (∀ s ∈ m.statements runtime, P s) ↔
      (∀ s ∈ m.imports runtime, P s) ∧ (∀ s ∈ m.values, P s) ∧ (∀ s ∈ m.aliases, P s) ∧
        P m.record ∧ P (.exportDefault m.identifier) := by
  simp only [statements, List.forall_mem_append, List.forall_mem_cons, List.not_mem_nil,
    false_implies, implies_true, and_true, and_assoc]

/-- What stands bare in a module. -/
structure PartsAre (imported bare body : String → Prop) (m : LanguageModule) : Prop where
  helper : m.interpolates = true → imported "interpolate"
  interface : imported "ILanguage"
  identifier : bare m.identifier
  parent : ∀ parent, m.parent = some parent → bare (moduleIdentifier parent)
  value : ∀ s ∈ m.own, body s.value

namespace PartsAre

variable (h : m.PartsAre imported bare body) (hnames : IsOfNames bare)
include h hnames

theorem imports (runtime : Runtime) : ∀ s ∈ m.imports runtime, s.PartsAre imported bare body := by
  have hhelper : ∀ s ∈ (if m.interpolates then
      [Statement.importName "interpolate" runtime.interpolateModule] else []),
      s.PartsAre imported bare body := by
    split
    · next hinterpolates => exact List.forall_mem_singleton.mpr (h.helper hinterpolates)
    · exact List.forall_mem_nil _
  have hshared : ∀ s ∈ [Statement.importName "ILanguage" (sibling languageModule),
      .importAll "Sections" (sibling sectionsModule)], s.PartsAre imported bare body :=
    List.forall_mem_cons.mpr ⟨h.interface, List.forall_mem_singleton.mpr hnames.sections⟩
  rw [LanguageModule.imports, List.forall_mem_append, List.forall_mem_append]
  refine ⟨⟨hhelper, hshared⟩, ?_⟩
  split
  · next parent hparent => exact List.forall_mem_singleton.mpr (h.parent parent hparent)
  · exact List.forall_mem_nil _

theorem values : ∀ s ∈ m.values, s.PartsAre imported bare body := by
  intro s hs
  obtain ⟨o, ho, rfl⟩ := List.mem_map.mp hs
  exact ⟨hnames.name o.identity.isIdentifier_variableName,
    hnames.name o.identity.isIdentifier_interfaceName, h.value o ho⟩

theorem aliases : ∀ s ∈ m.aliases, s.PartsAre imported bare body := by
  unfold LanguageModule.aliases
  split
  · exact List.forall_mem_nil _
  · next parent hparent =>
      intro s hs
      obtain ⟨f, -, rfl⟩ := List.mem_map.mp hs
      exact ⟨hnames.name f.identity.isIdentifier_variableName,
        hnames.name f.identity.isIdentifier_interfaceName, h.parent parent hparent⟩

theorem record : m.record.PartsAre imported bare body := by
  refine ⟨h.identifier, ?_⟩
  intro f hf
  obtain ⟨field, -, rfl⟩ := List.mem_map.mp hf
  have hvariable := hnames.name field.identity.isIdentifier_variableName
  change bare (m.reference field)
  unfold reference
  split
  · next parent _ hparent => exact hnames.reference (h.parent parent hparent) hvariable
  · exact hvariable

/-- **What is known of the parts of a module is known of all its statements.** -/
theorem statements (runtime : Runtime) :
    ∀ s ∈ m.statements runtime, s.PartsAre imported bare body :=
  forall_mem_statements.mpr
    ⟨h.imports hnames runtime, h.values hnames, h.aliases hnames, h.record hnames, h.identifier⟩

end PartsAre

end LanguageModule

/-! ### The statements of the shared files -/

variable (hnames : IsOfNames bare)
include hnames

theorem partsAre_sectionInterfaces {sections : List CanonicalSection}
    (h : ∀ s ∈ sections, body s.interface) :
    ∀ s ∈ sectionInterfaces sections, s.PartsAre imported bare body := by
  intro s hs
  obtain ⟨c, hc, rfl⟩ := List.mem_map.mp hs
  exact ⟨hnames.name c.identity.isIdentifier_interfaceName, h c hc⟩

theorem partsAre_languageImports (himport : imported "ILanguageMetadata") {runtime : Runtime} :
    ∀ s ∈ languageImports runtime, s.PartsAre imported bare body :=
  List.forall_mem_cons.mpr
    ⟨himport, List.forall_mem_singleton.mpr hnames.sections⟩

theorem partsAre_languageRecord {sections : List CanonicalSection} :
    (languageRecord sections).PartsAre imported bare body := by
  refine ⟨hnames.name (by decide), hnames.name (by decide), ?_⟩
  intro f hf
  obtain ⟨s, -, rfl⟩ := List.mem_map.mp hf
  exact hnames.sectionType (hnames.name s.identity.isIdentifier_interfaceName)

end Phrasebook.Module
