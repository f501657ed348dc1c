import Mathlib.Data.List.Nodup
import Phrasebook.Proofs.Payload.Places
import Phrasebook.Proofs.Syntax.Payload

/-!
# Proofs — Syntax — Contract

What a template has to keep, and what is said of one that does not.  A template is sound if its
parameters are distinct identifiers and no reserved words, and each placeholder of its text is one
of them (`PlacedTemplate.IsSound`).  `PlacedTemplate.Offends` says, in terms of the text and the
parameters alone, which problem one that is not sound has: the first parameter that spoils the
parameters before it, and if there is none, the first placeholder that is not declared.  The check
of a template finds this problem (`PlacedTemplate.fault?_eq_some_iff`), and the syntax of a payload
is built if all of its templates are sound, or else the first that is not is reported
(`Syntax.Tree.ofPayload?_verdict`).
-/

namespace Phrasebook

/-- Distinct identifiers, none of them reserved. -/
structure ParamsSound (params : List String) : Prop where
  names : ∀ p ∈ params, Text.isIdentifier p = true ∧ p ∉ Text.reservedWords
  distinct : params.Nodup

namespace PlacedTemplate

/-- The parameters are sound, and each placeholder of the text is one of them. -/
structure IsSound (t : PlacedTemplate) : Prop where
  params : ParamsSound t.params
  declared : ∀ name ∈ Text.placeholders t.text, name ∈ t.params

/-- What is wrong with a template: a parameter behind sound ones that is no parameter name, or that
is one of them; or if the parameters are sound, a placeholder behind declared ones that is not
declared. -/
inductive Offends (t : PlacedTemplate) : TemplateProblem → Prop where
  | invalid {before after : List String} {p : String} (hparams : t.params = before ++ p :: after)
      (hbefore : ParamsSound before)
      (hp : ¬ (Text.isIdentifier p = true ∧ p ∉ Text.reservedWords)) :
      Offends t (.invalidParameter p)
  | duplicate {before after : List String} {p : String}
      (hparams : t.params = before ++ p :: after) (hbefore : ParamsSound before)
      (hp : p ∈ before) : Offends t (.duplicateParameter p)
  | undeclared {before after : List String} {name : String} (hparams : ParamsSound t.params)
      (htext : Text.placeholders t.text = before ++ name :: after)
      (hbefore : ∀ b ∈ before, b ∈ t.params) (hname : name ∉ t.params) :
      Offends t (.undeclaredPlaceholder t.text name)

end PlacedTemplate

/-! ### Parameters -/

theorem isParameterName_iff {p : String} :
    Text.isParameterName p = true ↔ Text.isIdentifier p = true ∧ p ∉ Text.reservedWords := by
  simp [Text.isParameterName]

theorem paramsSound_iff {params : List String} :
    ParamsSound params ↔ paramProblem? [] params = none := by
  have hnames : (∀ p ∈ params, Text.isIdentifier p = true ∧ p ∉ Text.reservedWords) ↔
      ∀ p ∈ params, Text.isParameterName p = true :=
    forall₂_congr fun _ _ => isParameterName_iff.symm
  rw [paramProblem?_eq_none_iff, ← hnames]
  exact ⟨fun h => ⟨h.names, h.distinct, by simp⟩, fun h => ⟨h.1, h.2.1⟩⟩

namespace ParamsSound

variable {before sound after : List String} {p : String}

theorem concat (h : ParamsSound before) (hp : Text.isIdentifier p = true ∧ p ∉ Text.reservedWords)
    (hfree : p ∉ before) : ParamsSound (before ++ [p]) where
  names := by
    intro q hq
    rcases List.mem_append.mp hq with hq | hq
    · exact h.names q hq
    · exact List.mem_singleton.mp hq ▸ hp
  distinct := List.nodup_append.mpr ⟨h.distinct, List.nodup_singleton p,
    fun q hq r hr heq => hfree (List.mem_singleton.mp hr ▸ heq ▸ hq)⟩

theorem of_append_cons (h : ParamsSound (before ++ p :: after)) :
    (Text.isIdentifier p = true ∧ p ∉ Text.reservedWords) ∧ p ∉ before := by
  obtain ⟨-, -, hapart⟩ := List.nodup_append.mp h.distinct
  exact ⟨h.names p (by simp), fun hmem => hapart p hmem p List.mem_cons_self rfl⟩

/-- Sound parameters are passed over. -/
theorem paramProblem?_append (h : ParamsSound (before ++ sound)) :
    paramProblem? before (sound ++ after) = paramProblem? (before ++ sound) after := by
  induction sound generalizing before with
  | nil => rw [List.nil_append, List.append_nil]
  | cons p sound ih =>
      obtain ⟨hname, hfree⟩ := h.of_append_cons
      have hname' := isParameterName_iff.mpr hname
      rw [← List.singleton_append, ← List.append_assoc] at h
      rw [List.cons_append, paramProblem?, if_neg (by simp [hname']), if_neg (by simpa using hfree),
        ih h, List.append_assoc, List.singleton_append]

end ParamsSound

/-- A problem is that of a parameter behind sound ones: it is no parameter name, or one of them. -/
theorem exists_split_of_paramProblem? {before params : List String} {problem : TemplateProblem}
    (hbefore : ParamsSound before) (h : paramProblem? before params = some problem) :
    ∃ sound p after, params = sound ++ p :: after ∧ ParamsSound (before ++ sound) ∧
      (¬ (Text.isIdentifier p = true ∧ p ∉ Text.reservedWords) ∧ problem = .invalidParameter p ∨
        p ∈ before ++ sound ∧ problem = .duplicateParameter p) := by
  have hnone : ParamsSound (before ++ []) := by rwa [List.append_nil]
  induction params generalizing before with
  | nil => cases h
  | cons p ps ih =>
      rw [paramProblem?] at h
      split_ifs at h with hname hmem
      · rw [← Bool.not_eq_true, isParameterName_iff] at hname
        exact ⟨[], p, ps, rfl, hnone, .inl ⟨hname, (Option.some.inj h).symm⟩⟩
      · exact ⟨[], p, ps, rfl, hnone, .inr ⟨by simpa using hmem, (Option.some.inj h).symm⟩⟩
      · rw [Bool.not_eq_false, isParameterName_iff] at hname
        have hnext := hbefore.concat hname (by simpa using hmem)
        obtain ⟨sound, q, after, rfl, hsound, hq⟩ := ih hnext h (by rwa [List.append_nil])
        rw [List.append_assoc, List.singleton_append] at hsound hq
        exact ⟨p :: sound, q, after, rfl, hsound, hq⟩

/-! ### Templates -/

namespace PlacedTemplate

variable {t : PlacedTemplate} {problem : TemplateProblem}

theorem isSound_iff : t.IsSound ↔ templateProblem? t.text t.params = none := by
  rw [templateProblem?_eq_none_iff, ← and_assoc]
  have hparams : ParamsSound t.params ↔
      (∀ p ∈ t.params, Text.isParameterName p = true) ∧ t.params.Nodup := by
    simp only [isParameterName_iff]
    exact ⟨fun h => ⟨h.names, h.distinct⟩, fun h => ⟨h.1, h.2⟩⟩
  rw [← hparams]
  exact ⟨fun h => ⟨h.params, h.declared⟩, fun h => ⟨h.1, h.2⟩⟩

/-- What is wrong with a template is found. -/
theorem problem_of_offends (h : t.Offends problem) :
    templateProblem? t.text t.params = some problem := by
  rw [templateProblem?]
  cases h with
  | @invalid before after p hparams hbefore hp =>
      have hname : Text.isParameterName p = false :=
        Bool.eq_false_iff.mpr fun h => hp (isParameterName_iff.mp h)
      have hskip := @ParamsSound.paramProblem?_append [] before (p :: after) hbefore
      rw [hparams, hskip, List.nil_append, paramProblem?, if_pos hname]
  | @duplicate before after p hparams hbefore hp =>
      have hname := isParameterName_iff.mpr (hbefore.names p hp)
      have hskip := @ParamsSound.paramProblem?_append [] before (p :: after) hbefore
      rw [hparams, hskip, List.nil_append, paramProblem?, if_neg (by simp [hname]),
        if_pos (by simpa using hp)]
  | @undeclared before after name hparams htext hbefore hname =>
      have hnone := paramsSound_iff.mp hparams
      have hfirst : (Text.placeholders t.text).find? (fun name => !t.params.contains name) =
          some name :=
        List.find?_eq_some_iff_append.mpr
          ⟨by simpa using hname, before, after, htext, by simpa using hbefore⟩
      rw [hnone, hfirst]
      rfl

/-- What is found is wrong with the template. -/
theorem offends_of_problem (h : templateProblem? t.text t.params = some problem) :
    t.Offends problem := by
  have hempty : ParamsSound [] := ⟨by simp, List.nodup_nil⟩
  rw [templateProblem?] at h
  cases hparams : paramProblem? [] t.params with
  | some found =>
      rw [hparams] at h
      obtain rfl := Option.some.inj h
      obtain ⟨sound, p, after, hsplit, hsound, ⟨hp, rfl⟩ | ⟨hp, rfl⟩⟩ :=
        exists_split_of_paramProblem? hempty hparams
      · exact .invalid hsplit hsound hp
      · exact .duplicate hsplit hsound hp
  | none =>
      rw [hparams] at h
      obtain ⟨name, hfirst, rfl⟩ := Option.map_eq_some_iff.mp h
      obtain ⟨hname, before, after, htext, hbefore⟩ := List.find?_eq_some_iff_append.mp hfirst
      exact .undeclared (paramsSound_iff.mpr hparams) htext (by simpa using hbefore)
        (by simpa using hname)

/-- **What is said of a template** is what is wrong with it, where it is. -/
theorem fault?_eq_some_iff {fault : TemplateFault} :
    t.fault? = some fault ↔ fault.path = t.path ∧ t.Offends fault.problem := by
  rw [fault?, Option.map_eq_some_iff]
  constructor
  · rintro ⟨problem, hproblem, rfl⟩
    exact ⟨rfl, offends_of_problem hproblem⟩
  · rintro ⟨hpath, hoffends⟩
    exact ⟨fault.problem, problem_of_offends hoffends, by rw [← hpath]⟩

theorem fault?_eq_none_iff : t.fault? = none ↔ t.IsSound := by
  rw [fault?, Option.map_eq_none_iff, isSound_iff]

end PlacedTemplate

/-! ### Payloads -/

namespace Syntax.Tree

/-- **When the syntax of a payload is built, and what is said otherwise.**  It is built if every
template is sound, at whatever depth; then it says the same as the payload, entry for entry.
Otherwise the first template that is not sound is reported, where it is, with what is wrong with it.
-/
theorem ofPayload?_verdict (payload : Payload) :
    ((∃ tree, ofPayload? payload = .ok tree) ↔ ∀ path text params,
        EntryAt Translation.node? payload path (.template text params) →
          (⟨path, text, params⟩ : PlacedTemplate).IsSound) ∧
      (∀ tree, ofPayload? payload = .ok tree → payloadOf tree = payload) ∧
      ∀ fault, ofPayload? payload = .error fault ↔ ∃ before t after,
        payload.templates = before ++ t :: after ∧ (∀ b ∈ before, b.IsSound) ∧
          fault.path = t.path ∧ t.Offends fault.problem := by
  have hreports := reports_ofPayload? payload
  refine ⟨?_, fun tree h => payload_of_ofPayload? h, fun fault => ?_⟩
  · rw [hreports.exists_ok_iff, Payload.templateFaults_eq_nil_iff]
    constructor
    · intro hnone path text params hplace
      exact PlacedTemplate.isSound_iff.mpr (hnone _ (Payload.mem_templates_iff.mpr hplace))
    · intro hsound t ht
      exact PlacedTemplate.isSound_iff.mp (hsound _ _ _ (Payload.mem_templates_iff.mp ht))
  · rw [hreports.eq_error_iff_first]
    simp only [PlacedTemplate.fault?_eq_none_iff, PlacedTemplate.fault?_eq_some_iff]

/-- Of three templates the second is the first that is not sound.  A parameter of it is repeated, so
that the placeholder that it does not declare makes no difference. -/
theorem sample_ofPayload?_verdict :
    let payload : Payload :=
      [("menu", .node [("a", .template "\x7b\x7bn\x7d\x7d" ["n"]),
          ("b", .template "\x7b\x7bm\x7d\x7d" ["n", "n"])]),
        ("c", .template "C" ["class"])]
    ∃ fault before t after, ofPayload? payload = .error fault ∧
      fault.message = "Invalid template at 'menu.b': Argument 'n' is declared more than once" ∧
      payload.templates = before ++ t :: after ∧ (∀ b ∈ before, b.IsSound) ∧
        fault.path = t.path ∧ t.Offends fault.problem := by
  intro payload
  have hfault : ofPayload? payload = .error ⟨["menu", "b"], .duplicateParameter "n"⟩ := rfl
  obtain ⟨before, t, after, hsplit, hbefore, hpath, hoffends⟩ :=
    ((ofPayload?_verdict payload).2.2 _).mp hfault
  exact ⟨_, before, t, after, hfault, by decide, hsplit, hbefore, hpath, hoffends⟩

end Syntax.Tree

end Phrasebook
