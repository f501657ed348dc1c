import Mathlib.Data.List.Perm.Basic
import Phrasebook.Proofs.Catalog.Constants

/-!
# Proofs — Catalog — Attempts

An assembly under any calls.  A call that is refused leaves the assembly as it is, so that trying
calls one after the other comes to adding those that are accepted (`addAll_acceptedCalls`), and what
is known of added files (`Holds`) is known of them.  Whatever has been tried, the language has one
field for each published section, in the published order, and has or inherits each of them, but not
both (`attemptAll_fills`).

Adding files asks that they are apart from each other and that each of them fits in, in whatever
order they come (`addAll_eq_ok_iff`); so accepted calls can be made in any order, and only the values
of the module come in that order (`Module.LanguageModule.Reorders`).
-/

namespace Phrasebook

theorem Section.Identity.Apart.symm {a b : Section.Identity} (h : a.Apart b) : b.Apart a := by
  obtain ⟨hkey, hvariable, hinterface⟩ := h
  simp only [hasName, Bool.or_eq_false_iff, beq_eq_false_iff_ne] at hvariable hinterface
  refine ⟨hkey.symm, ?_, ?_⟩
  · simp [hasName, hvariable.1.symm, hinterface.1.symm]
  · simp [hasName, hvariable.2.symm, hinterface.2.symm]

/-- Another module of a language, with the values of its sections in another order. -/
structure Module.LanguageModule.Reorders (m m' : Module.LanguageModule) : Prop where
  own : m'.own.Perm m.own
  values : m'.values.Perm m.values
  fields : m'.fields = m.fields
  aliases : m'.aliases = m.aliases
  record : m'.record = m.record
  text : ∀ runtime, ∃ before after,
    m.text runtime = before ++ Module.spacedText m.values ++ after ∧
      m'.text runtime = before ++ Module.spacedText m'.values ++ after

/-- The text of a module is otherwise the same if its own sections come in another order. -/
theorem Module.LanguageModule.reorders_of_perm {m m' : Module.LanguageModule}
    (hown : m'.own.Perm m.own) (hrest : { m with own := m'.own } = m') : m.Reorders m' := by
  have hinterpolates : m'.interpolates = m.interpolates := hown.any_eq
  rw [← hrest] at hinterpolates ⊢
  refine ⟨hown, hown.map _, rfl, rfl, rfl, fun runtime => ⟨banner ++ "\n" ++
    statementsText (m.imports runtime) ++ "\n// Sections\n", m.ending, m.text_eq runtime, ?_⟩⟩
  have himports : ({ m with own := m'.own } : LanguageModule).imports runtime =
      m.imports runtime := by
    simp only [imports, hinterpolates]
  rw [text_eq, beginning, himports]
  rfl

namespace Assembly

/-! ### Calls -/

/-- Tries to add a section; one that cannot be added leaves the assembly as it is. -/
def attempt (a : Assembly) (call : SectionFile) : Assembly :=
  match a.add call with
  | .ok next => next
  | .error _ => a

/-- Tries to add sections one after the other. -/
def attemptAll (a : Assembly) (calls : List SectionFile) : Assembly :=
  calls.foldl attempt a

/-- Of some calls, those that are accepted. -/
def acceptedCalls (a : Assembly) : List SectionFile → List SectionFile
  | [] => []
  | call :: calls =>
      match a.add call with
      | .ok next => call :: next.acceptedCalls calls
      | .error _ => a.acceptedCalls calls

theorem attempt_of_ok {a next : Assembly} {call : SectionFile} (h : a.add call = .ok next) :
    a.attempt call = next := by
  simp only [attempt, h]

theorem attempt_of_error {a : Assembly} {call : SectionFile} {fault : CatalogFault}
    (h : a.add call = .error fault) : a.attempt call = a := by
  simp only [attempt, h]

theorem attemptAll_cons (a : Assembly) (call : SectionFile) (calls : List SectionFile) :
    a.attemptAll (call :: calls) = (a.attempt call).attemptAll calls :=
  rfl

/-- **Trying calls comes to adding those that are accepted.** -/
theorem addAll_acceptedCalls (a : Assembly) (calls : List SectionFile) :
    a.addAll (a.acceptedCalls calls) = .ok (a.attemptAll calls) := by
  induction calls generalizing a with
  | nil => rfl
  | cons call calls ih =>
      rw [attemptAll_cons, acceptedCalls]
      cases hadd : a.add call with
      | ok next =>
          rw [attempt_of_ok hadd]
          simp only [addAll, hadd, ih]
      | error fault =>
          rw [attempt_of_error hadd]
          exact ih a

/-- What can all be added is all accepted. -/
theorem acceptedCalls_of_addAll {a b : Assembly} {files : List SectionFile}
    (h : a.addAll files = .ok b) : a.acceptedCalls files = files ∧ a.attemptAll files = b := by
  induction files generalizing a with
  | nil =>
      cases h
      exact ⟨rfl, rfl⟩
  | cons file files ih =>
      rw [addAll] at h
      split at h
      · cases h
      next next hadd =>
        obtain ⟨haccepted, hattempted⟩ := ih h
        rw [attemptAll_cons, attempt_of_ok hadd, acceptedCalls, hadd]
        exact ⟨congrArg (file :: ·) haccepted, hattempted⟩

/-- **A call is accepted** if it can be added behind the calls before it. -/
theorem mem_acceptedCalls_iff {a : Assembly} {calls : List SectionFile} {call : SectionFile} :
    call ∈ a.acceptedCalls calls ↔
      ∃ before after next, calls = before ++ call :: after ∧
        (a.attemptAll before).add call = .ok next := by
  induction calls generalizing a with
  | nil => simp [acceptedCalls]
  | cons first calls ih =>
      have hstep : (∃ before after next, first :: calls = before ++ call :: after ∧
          (a.attemptAll before).add call = .ok next) ↔
            (first = call ∧ ∃ next, a.add call = .ok next) ∨
              ∃ before after next, calls = before ++ call :: after ∧
                ((a.attempt first).attemptAll before).add call = .ok next := by
        constructor
        · rintro ⟨before, after, next, hcalls, hadd⟩
          cases before with
          | nil => exact .inl ⟨(List.cons.inj hcalls).1, next, hadd⟩
          | cons b before =>
              obtain ⟨rfl, hrest⟩ := List.cons.inj hcalls
              exact .inr ⟨before, after, next, hrest, hadd⟩
        · rintro (⟨rfl, next, hadd⟩ | ⟨before, after, next, rfl, hadd⟩)
          · exact ⟨[], calls, next, rfl, hadd⟩
          · exact ⟨first :: before, after, next, rfl, hadd⟩
      rw [hstep, acceptedCalls]
      cases hadd : a.add first with
      | ok next =>
          rw [attempt_of_ok hadd, List.mem_cons, ih]
          refine or_congr_left ⟨?_, fun h => h.1.symm⟩
          rintro rfl
          exact ⟨rfl, next, hadd⟩
      | error fault =>
          rw [attempt_of_error hadd, ih]
          refine (or_iff_right ?_).symm
          rintro ⟨rfl, next, hnext⟩
          cases hadd.symm.trans hnext

/-- One of some calls has a key, and is accepted behind the calls before it. -/
def AcceptsKey (a : Assembly) (calls : List SectionFile) (key : String) : Prop :=
  ∃ before call after next, calls = before ++ call :: after ∧
    (a.attemptAll before).add call = .ok next ∧ call.identity.key = key

theorem acceptsKey_iff {a : Assembly} {calls : List SectionFile} {key : String} :
    a.AcceptsKey calls key ↔ ∃ call ∈ a.acceptedCalls calls, call.identity.key = key := by
  constructor
  · rintro ⟨before, call, after, next, hcalls, hadd, hkey⟩
    exact ⟨call, mem_acceptedCalls_iff.mpr ⟨before, after, next, hcalls, hadd⟩, hkey⟩
  · rintro ⟨call, hcall, hkey⟩
    obtain ⟨before, after, next, hcalls, hadd⟩ := mem_acceptedCalls_iff.mp hcall
    exact ⟨before, call, after, next, hcalls, hadd, hkey⟩

/-! ### What is accepted, in any order -/

/-- Files are added if their templates are sound, what they give fits in, and it is apart from each
other and from what the assembly has. -/
theorem addAll_of_gives {a : Assembly} {files : List SectionFile} {sections : List AcceptedSection}
    (hgives : List.Forall₂ SectionFile.Gives files sections)
    (hapart : (a.accepted ++ sections).Pairwise fun s t => s.own.identity.Apart t.own.identity)
    (hfits : ∀ s ∈ sections, a.baseFault? s.own.identity.key s.own.interface = none) :
    a.addAll files = .ok { a with accepted := a.accepted ++ sections } := by
  induction hgives generalizing a with
  | nil =>
      rw [List.append_nil]
      rfl
  | @cons file s files sections hs _ ih =>
      have hidentity : s.own.identity = file.identity := by
        obtain ⟨tree, -, rfl⟩ := hs
        rfl
      have hfree : ∀ t ∈ a.taken, t.1.Apart file.identity := by
        intro t ht
        obtain ⟨accepted, haccepted, rfl⟩ := List.mem_map.mp ht
        exact hidentity ▸ (List.pairwise_append.mp hapart).2.2 accepted haccepted s
          List.mem_cons_self
      have hadd : a.add file = .ok { a with accepted := a.accepted ++ [s] } :=
        add_eq_ok_iff.mpr ⟨hfree, s, hs, hfits s List.mem_cons_self, rfl⟩
      rw [List.append_cons] at hapart
      have hrest := ih (a := { a with accepted := a.accepted ++ [s] }) hapart
        fun t ht => hfits t (List.mem_cons_of_mem _ ht)
      rw [addAll, hadd]
      simp only [hrest, List.append_assoc, List.cons_append, List.nil_append]

/-- **Accepted calls can be made in any order**, and give the same sections. -/
theorem addAll_of_perm {start a : Assembly} {files permuted : List SectionFile}
    (hstart : start.Holds []) (h : start.addAll files = .ok a) (hperm : permuted.Perm files) :
    ∃ sections, sections.Perm a.accepted ∧
      start.addAll permuted = .ok { a with accepted := sections } := by
  obtain ⟨hholds, hlanguage, hbase⟩ := hstart.addAll h
  have hempty : start.accepted = [] := List.forall₂_nil_left_iff.mp hstart.gives
  obtain ⟨sections, hgives, hsections⟩ := List.perm_comp_forall₂ hperm hholds.gives
  have hapart : sections.Pairwise fun s t => s.own.identity.Apart t.own.identity :=
    (hsections.pairwise_iff Section.Identity.Apart.symm).mpr hholds.apart
  have hfits : ∀ s ∈ sections, start.baseFault? s.own.identity.key s.own.interface = none := by
    intro s hs
    have hfault := hholds.fits s (hsections.mem_iff.mp hs)
    unfold baseFault? at hfault ⊢
    rwa [hbase, hlanguage] at hfault
  have hadded := addAll_of_gives hgives (by rwa [hempty]) hfits
  refine ⟨sections, hsections, hadded.trans ?_⟩
  rw [hempty, List.nil_append, ← hlanguage, ← hbase]

/-- The module of a language that has the same sections, added in another order. -/
theorem reorders {a : Assembly} {base : BaseCatalog} (hbase : a.base = some base)
    {sections : List AcceptedSection} (hsections : sections.Perm a.accepted) :
    a.languageModule.Reorders ({ a with accepted := sections } : Assembly).languageModule := by
  obtain ⟨language, published, accepted⟩ := a
  obtain rfl : published = some base := hbase
  have hkey : ∀ key, (⟨language, some base, sections⟩ : Assembly).hasKey key =
      (⟨language, some base, accepted⟩ : Assembly).hasKey key :=
    fun key => hsections.any_eq
  refine Module.LanguageModule.reorders_of_perm (hsections.map _) ?_
  simp only [languageModule, fields, canonical, hkey]

/-! ### A language after any calls -/

/-- The published sections are apart from each other. -/
theorem Holds.apart_published {a : Assembly} {files : List SectionFile} (h : a.Holds files)
    {base : BaseCatalog} (hpublished : a.published? = some base) :
    base.sections.Pairwise fun s t => s.identity.Apart t.identity := by
  unfold published? at hpublished
  split at hpublished
  · cases hpublished
  · obtain rfl := Option.some.inj hpublished
    exact List.pairwise_map.mpr h.apart_own

/-- What a language has itself and what it inherits are together the sections of its record. -/
theorem Holds.ownCount_add_inheritedCount {a : Assembly} {files : List SectionFile}
    (h : a.Holds files) (hapart : a.canonical.Pairwise fun s t => s.identity.Apart t.identity) :
    a.ownCount + a.inheritedCount = a.canonical.length := by
  have hcanonical : (a.canonical.map Module.CanonicalSection.identity).Nodup :=
    List.pairwise_map.mpr (hapart.imp Section.Identity.Apart.ne)
  have hperm : a.identities.Perm (a.canonical.map Module.CanonicalSection.identity) :=
    (List.perm_ext_iff_of_nodup (h.nodup_identities hapart) hcanonical).mpr fun _ =>
      h.mem_identities_iff
  have hlength := hperm.length_eq
  rwa [identities, List.length_append, List.length_map, List.length_map, List.length_map] at hlength

/-- Where a field comes from: a language has it itself if one of its files has the key. -/
theorem Holds.origin_eq {a : Assembly} {files : List SectionFile} (h : a.Holds files)
    {f : Module.Field} (hf : f ∈ a.languageModule.fields) :
    (f.origin = .own ∧ ∃ file ∈ files, file.identity.key = f.identity.key) ∨
      (f.origin = .inherited ∧ ¬ ∃ file ∈ files, file.identity.key = f.identity.key) := by
  obtain ⟨s, -, rfl⟩ := List.mem_map.mp hf
  have hfiles : a.hasKey s.identity.key = true ↔
      ∃ file ∈ files, file.identity.key = s.identity.key := by
    rw [hasKey_iff, h.map_identity_own, List.mem_map]
    exact exists_congr fun file => and_congr_right fun _ =>
      ⟨congrArg Section.Identity.key, Section.Identity.key_inj⟩
  cases hkey : a.hasKey s.identity.key with
  | true => exact .inl ⟨rfl, hfiles.mp hkey⟩
  | false =>
      refine .inr ⟨rfl, fun hfile => ?_⟩
      rw [hfiles.mpr hfile] at hkey
      cases hkey

/-- **A language after any calls**, against what a base language has published after any calls.  It
has one field for each published section, in the published order, which it has itself just if a call
with the key of the section has been accepted, and inherits otherwise; what it has and inherits is
as much as has been published.  If the accepted calls are made in any other order, they are all
accepted again, and only the values of the sections come in another order. -/
theorem attemptAll_fills {b : Language} {baseCalls : List SectionFile} {base : BaseCatalog}
    (hbase : ((forBase b).attemptAll baseCalls).published? = some base) (l : Language)
    (calls : List SectionFile) :
    let start := forDerived l base
    let a := start.attemptAll calls
    (base.sections.map fun s => s.identity.key).Nodup ∧
      a.languageModule.fields.map Module.Field.identity =
        base.sections.map Module.CanonicalSection.identity ∧
      (∀ f ∈ a.languageModule.fields,
        (f.origin = .own ∧ start.AcceptsKey calls f.identity.key) ∨
          (f.origin = .inherited ∧ ¬ start.AcceptsKey calls f.identity.key)) ∧
      a.ownCount + a.inheritedCount = base.sections.length ∧
      a.own.map Module.OwnSection.identity =
        (start.acceptedCalls calls).map SectionFile.identity ∧
      ∀ permuted, permuted.Perm (start.acceptedCalls calls) →
        let a' := start.attemptAll permuted
        start.acceptedCalls permuted = permuted ∧
          a.languageModule.Reorders a'.languageModule ∧
          a'.ownCount = a.ownCount ∧ a'.inheritedCount = a.inheritedCount := by
  intro start a
  have hpublished := ((holds_forBase b).addAll (addAll_acceptedCalls _ baseCalls)).1
  have hapart := hpublished.apart_published hbase
  have hadded : start.addAll (start.acceptedCalls calls) = .ok a := addAll_acceptedCalls start calls
  obtain ⟨hholds, -, hsome⟩ := (holds_forDerived l base).addAll hadded
  have hcanonical : a.canonical = base.sections := by simp only [canonical, hsome, forDerived]
  refine ⟨nodup_keys hapart, ?_, fun f hf => ?_, ?_, hholds.map_identity_own, ?_⟩
  · rw [← hcanonical]
    exact List.map_map
  · simp only [acceptsKey_iff]
    exact hholds.origin_eq hf
  · rw [← hcanonical]
    exact hholds.ownCount_add_inheritedCount (hcanonical ▸ hapart)
  · intro permuted hperm a'
    obtain ⟨sections, hsections, hagain⟩ := addAll_of_perm (holds_forDerived l base) hadded hperm
    obtain ⟨haccepted, ha'⟩ := acceptedCalls_of_addAll hagain
    have hreorders : a.languageModule.Reorders a'.languageModule := by
      rw [show a' = _ from ha']
      exact reorders hsome hsections
    have hinherited : a'.languageModule.inheritedFields = a.languageModule.inheritedFields := by
      rw [Module.LanguageModule.inheritedFields, hreorders.fields]
      rfl
    exact ⟨haccepted, hreorders, hreorders.own.length_eq, congrArg List.length hinherited⟩

/-- A file with one text. -/
def single (name text : String) : SectionFile :=
  ⟨⟨Section.wordsOf name⟩, ⟨name⟩, [("k", .literal text)]⟩

/-- Of three calls one is accepted: the second has an unknown section, and the third one again. -/
theorem sample_attemptAll :
    ∃ base, ((forBase ⟨"en", "E", none⟩).attemptAll
        [single "a" "A", single "b" "B", single "a" "C"]).published? = some base ∧
      ∃ a, a = (forDerived ⟨"fr", "F", some "en"⟩ base).attemptAll
          [single "b" "X", single "c" "Y", single "b" "Z"] ∧
        base.sections.length = 2 ∧ a.ownCount = 1 ∧ a.inheritedCount = 1 := by
  obtain ⟨base, hbase, hlength, hown⟩ : ∃ base, ((forBase ⟨"en", "E", none⟩).attemptAll
      [single "a" "A", single "b" "B", single "a" "C"]).published? = some base ∧
        base.sections.length = 2 ∧
        ((forDerived ⟨"fr", "F", some "en"⟩ base).attemptAll
          [single "b" "X", single "c" "Y", single "b" "Z"]).ownCount = 1 :=
    ⟨_, rfl, by decide +kernel, by decide +kernel⟩
  obtain ⟨-, -, -, hcounts, -⟩ := attemptAll_fills hbase ⟨"fr", "F", some "en"⟩
    [single "b" "X", single "c" "Y", single "b" "Z"]
  rw [hown, hlength] at hcounts
  exact ⟨base, hbase, _, rfl, hlength, hown, by omega⟩

end Assembly

end Phrasebook
