import Phrasebook.Proofs.Catalog.Compile
import Phrasebook.Proofs.Catalog.Faults
import Phrasebook.Proofs.Catalog.Taken
import Phrasebook.Proofs.Language.Least

/-!
# Proofs — Catalog — Sequence

The sequence in which languages are compiled.  It is the least that puts each language behind the
one that it extends (`Language.place_least`), and so it starts with the base language.  Hence every
language that extends another finds the base catalog published: the fault for a language without
one is never met.  This shows in what a job can end with (`Job.FailsOnly`): once the languages fit
together, no fault of a compilation is about the languages as such (`failsOnly_assemblies`).
-/

namespace Phrasebook

/-- Concerns a pattern, a storage, a file or a section, and not the configured languages. -/
def CatalogFault.SparesLanguages : CatalogFault → Prop
  | .language _ => False
  | _ => True

open CatalogFault (SparesLanguages)

/-- A fault of what is read is none of a language. -/
theorem sparesLanguages_of_isOfReading {fault : CatalogFault} (h : fault.IsOfReading) :
    fault.SparesLanguages := by
  cases fault with
  | language => cases h
  | _ => trivial

/-- An identity is refused for another section, and not for a language. -/
theorem sparesLanguages_of_identityFault? {shortcode : String}
    {taken : List (Section.Identity × Path)} {id : Section.Identity} {path : Path}
    {fault : CatalogFault} (h : identityFault? shortcode taken id path = some fault) :
    fault.SparesLanguages := by
  unfold identityFault? at h
  split at h
  · obtain rfl := Option.some.inj h
    trivial
  · split at h
    · obtain rfl := Option.some.inj h
      trivial
    · obtain ⟨first, -, rfl⟩ := Option.map_eq_some_iff.mp h
      trivial

/-! ### Loading -/

namespace Walk

variable {oracle : (r : Request) → r.Answer} (w : Walk)

theorem sparesLanguages_of_duplicate? {files : List SectionFile} {fault : CatalogFault}
    (h : w.duplicate? files = some fault) : fault.SparesLanguages := by
  rw [duplicate?_eq] at h
  obtain ⟨earlier, f, later, -, -, hidentity⟩ := firstIdentityFault?_eq_some h
  exact sparesLanguages_of_identityFault? hidentity

theorem sparesLanguages_load (limit : Nat) (root : Path) (start : Section.Identity) :
    Job.FailsOnly oracle SparesLanguages (w.load limit root start) := by
  refine (w.failsOnly_load limit root start).mono fun fault hfault => ?_
  rcases hfault with hread | ⟨files, -, hduplicate⟩
  · exact sparesLanguages_of_isOfReading hread
  · exact w.sparesLanguages_of_duplicate? hduplicate

end Walk

/-! ### Compiling -/

namespace Assembly

variable {a : Assembly} {fault : CatalogFault}

theorem sparesLanguages_of_add {file : SectionFile} (h : a.add file = .error fault) :
    fault.SparesLanguages := by
  rcases add_eq_error h with hidentity | ⟨problem, rfl⟩ | rfl | rfl
  · exact sparesLanguages_of_identityFault? hidentity
  · trivial
  · trivial
  · trivial

theorem sparesLanguages_of_addAll {files : List SectionFile} (h : a.addAll files = .error fault) :
    fault.SparesLanguages := by
  induction files generalizing a with
  | nil => cases h
  | cons file files ih =>
      rw [addAll] at h
      split at h
      · next hadd =>
          obtain rfl := Except.error.inj h
          exact sparesLanguages_of_add hadd
      · exact ih h

end Assembly

namespace Generator

variable {g : Generator} {oracle : (r : Request) → r.Answer} {limit : Nat}

theorem failsOnly_sections (l : Language) :
    Job.FailsOnly oracle SparesLanguages (g.sections limit l) := by
  refine (Job.failsOnly_directoryExists _).bind fun found _ => ?_
  split
  · exact Walk.sparesLanguages_load _ limit _ .root
  · split
    · exact Job.failsOnly_fail trivial
    · exact (Job.failsOnly_tell _ _).bind fun _ _ => Job.failsOnly_pure _

/-- **The base catalog is there** for a language that extends another, so that starting it cannot
fail. -/
theorem failsOnly_assembly {base : Option BaseCatalog} {l : Language}
    (hbase : l.parent ≠ none → base ≠ none) :
    Job.FailsOnly oracle SparesLanguages (g.assembly limit base l) := by
  refine (Job.failsOnly_tell _ _).bind fun _ _ => ?_
  refine (failsOnly_sections l).bind fun files _ => ?_
  have hstart : ∃ a, g.start base l = .ok a := by
    unfold Generator.start
    cases hparent : l.parent with
    | none => exact ⟨_, rfl⟩
    | some parent =>
        obtain ⟨published, rfl⟩ := Option.ne_none_iff_exists'.mp (hbase (by simp [hparent]))
        exact ⟨_, rfl⟩
  obtain ⟨start, hstart⟩ := hstart
  rw [hstart]
  refine (Job.failsOnly_ofExcept nofun).bind fun a _ fault hfault => ?_
  rw [Assembly.eval_addEach] at hfault
  exact Assembly.sparesLanguages_of_addAll hfault

theorem failsOnly_assemblies {base : Option BaseCatalog} {ls : List Language}
    (hbase : ∀ l ∈ ls.head?, l.parent ≠ none → base ≠ none) :
    Job.FailsOnly oracle SparesLanguages (g.assemblies limit base ls) := by
  induction ls generalizing base with
  | nil => exact Job.failsOnly_pure []
  | cons l ls ih =>
      have hl : l.parent ≠ none → base ≠ none := hbase l rfl
      refine (failsOnly_assembly hl).bind fun a ha => ?_
      -- a language that is started without a base catalog publishes one for the others
      have hpublished : a.published?.or base ≠ none := by
        obtain ⟨-, -, hnone, hsome⟩ := holds_of_assembly ha
        cases hparent : l.parent with
        | none =>
            obtain ⟨published, hpublished⟩ := exists_published (hnone hparent)
            simp [hpublished]
        | some parent => simp [hl (by simp [hparent])]
      exact (ih fun _ _ _ => hpublished).bind fun _ _ => Job.failsOnly_pure _

/-- **Once the languages fit together**, a compilation never ends with a fault of theirs. -/
theorem failsOnly_compile {set : LanguageSet}
    (hset : LanguageSet.ofEntries? g.settings.languages g.settings.baseLanguage = .ok set) :
    Job.FailsOnly oracle SparesLanguages (g.compile limit) := by
  obtain ⟨first, rest, hcons, -, hfirst, -⟩ :=
    (LanguageSet.ordered_of_ofEntries? hset).exists_cons
  have hbase : ∀ l ∈ set.languages.head?, l.parent ≠ none → (none : Option BaseCatalog) ≠ none := by
    intro l hl hparent
    rw [hcons] at hl
    obtain rfl := Option.some.inj hl
    exact absurd hfirst hparent
  refine Job.FailsOnly.bind (Job.failsOnly_ofExcept fun fault hfault => ?_) fun found hfound => ?_
  · rw [hset] at hfault
    cases hfault
  · obtain rfl := Except.ok.inj ((eval_set_eq_ok.mp hfound).symm.trans hset)
    exact (failsOnly_assemblies hbase).bind fun _ _ => Job.failsOnly_pure _

end Generator

/-! ### The least order -/

namespace Generator

/-- **Languages are compiled in the least order** that puts each behind the one that it extends.
They are those that are configured; the base language is the first, and the only one that extends
none; and of all orders in which every language comes behind the one that it extends, none has,
where it first differs, a language that is configured earlier.  So no compilation ever gets to a
language that extends another before the base catalog is there, which would end it with a fault of
the languages. -/
theorem compile_in_least_order {entries : List LanguageEntry} {base : String} {set : LanguageSet}
    (h : LanguageSet.ofEntries? entries base = .ok set) :
    ∃ configured, List.Forall₂ LanguageEntry.Configures entries configured ∧
      set.languages.Perm configured ∧
      (∃ first rest, set.languages = first :: rest ∧ first.shortcode = base ∧
        first.parent = none ∧ ∀ l ∈ rest, l.parent ≠ none) ∧
      Language.BehindParents set.languages ∧
      (∀ order, order.Perm configured → Language.BehindParents order →
        order = set.languages ∨
          List.Lex (· < ·) (set.languages.map configured.idxOf) (order.map configured.idxOf)) ∧
      ∀ g : Generator, g.settings.languages = entries → g.settings.baseLanguage = base →
        ∀ (σ κ : Type) (S : Storage σ κ) (s : σ) (limit : Nat) (fault : LanguageFault),
          (S.run (g.compile limit).run s).value ≠ .error (.language fault) := by
  have hordered := LanguageSet.ordered_of_ofEntries? h
  obtain ⟨configured, hentries, -, -, hplace⟩ := LanguageSet.ofEntries?_eq_ok_iff.mp h
  have hconfigured := (Language.Configured.nil base).addAll hentries
  obtain ⟨hperm, -⟩ := Language.place_spec [] configured trivial
  rw [hplace, List.append_nil, List.nil_append] at hperm
  refine ⟨configured, LanguageEntry.forall₂_configures hconfigured.named, hperm,
    hordered.exists_cons, Language.parentsFirst_iff.mp hordered.parentsFirst,
    fun order hother hbehind => ?_, ?_⟩
  · exact Language.place_least (Language.pairwise_idxOf hconfigured.distinct.of_map) hplace hother
      (Language.parentsFirst_iff.mpr hbehind)
  · rintro g rfl rfl σ κ S s limit fault hfault
    rw [(S.run_of_reads (g.reads_compile limit) s).2] at hfault
    exact failsOnly_compile h _ hfault

/-- Two languages that extend the base language, and one that extends the second of them but is
configured first.  It could be compiled right behind the language that it extends; in the least
order the other one comes before. -/
theorem sample_least_order :
    ∃ set configured, LanguageSet.ofEntries? [⟨"ca", some "C", some "fr"⟩,
        ⟨"de", some " D ", some "en"⟩, ⟨"fr", some "F", some "en"⟩, ⟨"en", some "E", none⟩] "en" =
          .ok set ∧
      set.languages.map Language.shortcode = ["en", "de", "fr", "ca"] ∧
      set.languages.Perm configured ∧
      (∀ order, order.Perm configured → Language.BehindParents order →
        order = set.languages ∨
          List.Lex (· < ·) (set.languages.map configured.idxOf) (order.map configured.idxOf)) := by
  have hcodes : (LanguageSet.ofEntries? [⟨"ca", some "C", some "fr"⟩,
      ⟨"de", some " D ", some "en"⟩, ⟨"fr", some "F", some "en"⟩, ⟨"en", some "E", none⟩]
      "en").toOption.map (fun set => set.languages.map Language.shortcode) =
        some ["en", "de", "fr", "ca"] := by
    decide +kernel
  obtain ⟨set, hset, hcodes⟩ := exists_of_map_toOption hcodes
  obtain ⟨configured, -, hperm, -, -, hleast, -⟩ := compile_in_least_order hset
  exact ⟨set, configured, hset, hcodes, hperm, hleast⟩

end Generator

end Phrasebook
