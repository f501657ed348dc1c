import Phrasebook.Proofs.FirstFault
import Phrasebook.Syntax.Tree

/-!
# Proofs — Syntax — Templates

Which templates have no problem (`templateProblem?_eq_none_iff`), and the templates of a payload, in
document order, and each with the names that lead to it (`Payload.templates`).  The syntax of a
payload is built unless one of them is unsound, and then the first that is unsound is reported, at
its place (`Tree.reports_ofPayload?`).
-/

namespace Phrasebook

/-! ### Sound templates -/

/-- Parameters are in order if each is a parameter name, none is repeated, and none has come before.
-/
theorem paramProblem?_eq_none_iff {before params : List String} :
    paramProblem? before params = none ↔
      (∀ p ∈ params, Text.isParameterName p = true) ∧ params.Nodup ∧ ∀ p ∈ params, p ∉ before := by
  induction params generalizing before with
  | nil => simp [paramProblem?]
  | cons p ps ih =>
      rw [paramProblem?, List.forall_mem_cons, List.nodup_cons, List.forall_mem_cons]
      by_cases hname : Text.isParameterName p = true
      · by_cases hbefore : p ∈ before
        · simp [hname, hbefore]
        · have hapart : (∀ q ∈ ps, q ∉ before ++ [p]) ↔ p ∉ ps ∧ ∀ q ∈ ps, q ∉ before := by
            simp only [List.mem_append, List.mem_singleton, not_or]
            exact ⟨fun h => ⟨fun hp => (h p hp).2 rfl, fun q hq => (h q hq).1⟩,
              fun h q hq => ⟨h.2 q hq, fun heq => h.1 (heq ▸ hq)⟩⟩
          simp only [hname, hbefore, List.contains_eq_mem, Bool.true_eq_false, Bool.false_eq_true,
            if_false, decide_false, ih, hapart, not_false_eq_true, true_and]
          tauto
      · simp [hname]

/-- **A template has no problem** if its parameters are distinct parameter names, and each
placeholder of its text is one of them. -/
theorem templateProblem?_eq_none_iff {text : String} {params : List String} :
    templateProblem? text params = none ↔
      (∀ p ∈ params, Text.isParameterName p = true) ∧ params.Nodup ∧
        ∀ name ∈ Text.placeholders text, name ∈ params := by
  have hparams : paramProblem? [] params = none ↔
      (∀ p ∈ params, Text.isParameterName p = true) ∧ params.Nodup := by
    simp [paramProblem?_eq_none_iff]
  rw [← and_assoc, ← hparams, templateProblem?]
  cases paramProblem? [] params with
  | some problem => simp
  | none => simp

/-! ### The templates of a payload -/

/-- A template, and the names that lead to it. -/
structure PlacedTemplate where
  path : EntryPath
  text : String
  params : List String

/-- What is wrong with the template, where it is. -/
def PlacedTemplate.fault? (t : PlacedTemplate) : Option TemplateFault :=
  (templateProblem? t.text t.params).map fun problem => ⟨t.path, problem⟩

mutual

/-- The templates of a translation that stands at some place. -/
def Translation.templates (path : EntryPath) : Translation → List PlacedTemplate
  | .literal _ => []
  | .template text params => [⟨path, text, params⟩]
  | .node entries => templatesOf path entries

/-- The templates of named translations at some place. -/
def templatesOf (path : EntryPath) : List (String × Translation) → List PlacedTemplate
  | [] => []
  | (name, t) :: rest => t.templates (path ++ [name]) ++ templatesOf path rest

end

namespace Payload

/-- All templates of a payload, in document order. -/
def templates (payload : Payload) : List PlacedTemplate :=
  templatesOf [] payload

/-- What is wrong with the templates of a payload, in document order. -/
def templateFaults (payload : Payload) : List TemplateFault :=
  payload.templates.filterMap PlacedTemplate.fault?

theorem templateFaults_eq_nil_iff {payload : Payload} :
    payload.templateFaults = [] ↔
      ∀ t ∈ payload.templates, templateProblem? t.text t.params = none := by
  simp [templateFaults, PlacedTemplate.fault?]

end Payload

namespace Syntax

mutual

/-- The entry of a translation, unless one of its templates is unsound. -/
theorem reports_ofTranslation? (path : EntryPath) (name : String) :
    ∀ t : Translation, Reports ((t.templates path).filterMap PlacedTemplate.fault?)
      (Entry.ofTranslation? path name t)
  | .literal text => rfl
  | .template text params => by
      cases hproblem : templateProblem? text params <;>
        simp [Translation.templates, Entry.ofTranslation?, PlacedTemplate.fault?, hproblem, Reports]
  | .node entries => by
      rw [Translation.templates, Entry.ofTranslation?]
      exact (reports_treeOf? path entries).map

/-- The entries of translations, unless one of their templates is unsound. -/
theorem reports_treeOf? (path : EntryPath) :
    ∀ entries : List (String × Translation),
      Reports ((templatesOf path entries).filterMap PlacedTemplate.fault?) (treeOf? path entries)
  | [] => rfl
  | (name, t) :: rest => by
      rw [templatesOf, treeOf?, List.filterMap_append]
      refine (reports_ofTranslation? (path ++ [name]) name t).andThen (fun fault h => ?_)
        fun entry h => ?_
      · rw [h]
      · rw [h]
        exact (reports_treeOf? path rest).map

end

/-- **The first unsound template is reported.** -/
theorem Tree.reports_ofPayload? (payload : Payload) :
    Reports payload.templateFaults (Tree.ofPayload? payload) :=
  reports_treeOf? [] payload

end Syntax

end Phrasebook
