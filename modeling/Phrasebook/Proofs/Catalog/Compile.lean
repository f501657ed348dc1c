import Phrasebook.Proofs.Catalog.Assembly
import Phrasebook.Proofs.Catalog.Effects
import Phrasebook.Proofs.Language.Order

/-!
# Proofs — Catalog — Compile

What a catalog has come from.  A `Compilation` of a catalog has the languages in order, and an
assembly for each of them that holds the files of the language and fits in with the one base
catalog.  Every catalog that compiling gives has one (`exists_compilation`): the base language comes
first and publishes, and all others, which extend some language, are started with what it has
published.
-/

namespace Phrasebook

/-- The files that a storage holds for the language that an entry configures. -/
def Generator.Loads {σ κ : Type} (g : Generator) (S : Storage σ κ) (limit : Nat) (s : σ)
    (entry : LanguageEntry) (files : List SectionFile) : Prop :=
  ∃ l, Language.named? entry = some l ∧ (S.run (g.sections limit l).run s).value = .ok files

/-- What a catalog has come from: languages in order, an assembly for each, and the base catalog
that all of them share. -/
structure Compilation (g : Generator) (oracle : (r : Request) → r.Answer) (limit : Nat)
    (catalog : Catalog) where
  assemblies : List Assembly
  base : BaseCatalog
  ordered : LanguageSet.Ordered g.settings.baseLanguage g.settings.languages
    (assemblies.map Assembly.language)
  catalog_eq : catalog = ⟨assemblies.flatMap g.files, assemblies.map Generator.report⟩
  holds : ∀ a ∈ assemblies, ∃ files,
    (g.sections limit a.language).eval oracle = .ok files ∧ a.Holds files
  publishes : ∀ a ∈ assemblies, a.language.parent = none →
    a.base = none ∧ a.published? = some base
  fitsIn : ∀ a ∈ assemblies, a.language.parent ≠ none → a.base = some base

/-- **Every configured language has been compiled**, from the files that its directory gives. -/
theorem Compilation.exists_assembly {g : Generator} {oracle : (r : Request) → r.Answer} {limit : Nat}
    {catalog : Catalog} (c : Compilation g oracle limit catalog) {entry : LanguageEntry}
    (hentry : entry ∈ g.settings.languages) :
    ∃ a ∈ c.assemblies, Language.named? entry = some a.language ∧
      ∃ files, (g.sections limit a.language).eval oracle = .ok files ∧ a.Holds files := by
  obtain ⟨l, hl, hnamed⟩ := c.ordered.exists_of_mem_entries hentry
  obtain ⟨a, ha, rfl⟩ := List.mem_map.mp hl
  exact ⟨a, ha, hnamed, c.holds a ha⟩

namespace Generator

variable {g : Generator} {oracle : (r : Request) → r.Answer} {limit : Nat}

/-- A language that compiles: its files are loaded and held, and only the base language is started
without a base catalog. -/
theorem holds_of_assembly {base : Option BaseCatalog} {l : Language} {a : Assembly}
    (h : (g.assembly limit base l).eval oracle = .ok a) :
    a.language = l ∧ (∃ files, (g.sections limit l).eval oracle = .ok files ∧ a.Holds files) ∧
      (l.parent = none → a.base = none) ∧ (l.parent ≠ none → a.base = base ∧ base ≠ none) := by
  unfold assembly at h
  obtain ⟨-, -, hrest⟩ := Job.eval_bind_eq_ok.mp h
  obtain ⟨files, hfiles, hadded⟩ := Job.eval_bind_eq_ok.mp hrest
  obtain ⟨first, hfirst, hadd⟩ := Job.eval_bind_eq_ok.mp hadded
  clear h hrest hadded
  rw [Job.eval_ofExcept] at hfirst
  rw [Assembly.eval_addEach] at hadd
  unfold Generator.start at hfirst
  cases hparent : l.parent with
  | none =>
      simp only [hparent, Except.ok.injEq] at hfirst
      subst hfirst
      obtain ⟨hholds, hlanguage, hbase⟩ := (Assembly.holds_forBase l).addAll hadd
      exact ⟨hlanguage, ⟨files, hfiles, hholds⟩, fun _ => hbase, fun hne => absurd rfl hne⟩
  | some parent =>
      cases base with
      | none =>
          simp only [hparent] at hfirst
          cases hfirst
      | some published =>
          simp only [hparent, Except.ok.injEq] at hfirst
          subst hfirst
          obtain ⟨hholds, hlanguage, hbase⟩ := (Assembly.holds_forDerived l published).addAll hadd
          exact ⟨hlanguage, ⟨files, hfiles, hholds⟩, nofun, fun _ => ⟨hbase, nofun⟩⟩

/-- A language that is started without a base catalog publishes one. -/
theorem exists_published {a : Assembly} (h : a.base = none) : ∃ base, a.published? = some base := by
  simp only [Assembly.published?, h]
  exact ⟨_, rfl⟩

/-- Languages that all extend some language are compiled one by one, as they leave the base catalog
as it is. -/
theorem assemblies_eq_ok_iff {base : BaseCatalog} {ls : List Language} {as : List Assembly}
    (hparent : ∀ l ∈ ls, l.parent ≠ none) :
    (g.assemblies limit (some base) ls).eval oracle = .ok as ↔
      List.Forall₂ (fun l a => (g.assembly limit (some base) l).eval oracle = .ok a) ls as := by
  induction ls generalizing as with
  | nil =>
      rw [List.forall₂_nil_left_iff]
      exact ⟨fun h => by cases h; rfl, fun h => by rw [h]; rfl⟩
  | cons l ls ih =>
      have hothers := fun m hm => hparent m (List.mem_cons_of_mem _ hm)
      -- a language that extends another publishes nothing, so the next has the same base
      have hbase : ∀ a, (g.assembly limit (some base) l).eval oracle = .ok a →
          a.published?.or (some base) = some base := fun a ha => by
        obtain ⟨-, -, -, hbase⟩ := holds_of_assembly ha
        simp only [Assembly.published?, (hbase (hparent l List.mem_cons_self)).1, Option.none_or]
      rw [assemblies, Job.eval_bind_eq_ok]
      constructor
      · rintro ⟨a, ha, hrests⟩
        obtain ⟨rest, hrest, hall⟩ := Job.eval_bind_eq_ok.mp hrests
        cases hall
        rw [hbase a ha] at hrest
        exact .cons ha ((ih hothers).mp hrest)
      · intro h
        cases h with
        | @cons _ a _ rest ha hrest =>
            refine ⟨a, ha, Job.eval_bind_eq_ok.mpr ⟨rest, ?_, rfl⟩⟩
            rw [hbase a ha]
            exact (ih hothers).mpr hrest

/-- The base language is compiled first, and then each of the others with what it has published. -/
theorem assemblies_cons_eq_ok_iff {first : Language} {rest : List Language} {as : List Assembly}
    (hfirst : first.parent = none) (hrest : ∀ l ∈ rest, l.parent ≠ none) :
    (g.assemblies limit none (first :: rest)).eval oracle = .ok as ↔
      ∃ a base others, as = a :: others ∧
        (g.assembly limit none first).eval oracle = .ok a ∧ a.published? = some base ∧
        List.Forall₂ (fun l a => (g.assembly limit (some base) l).eval oracle = .ok a) rest
          others := by
  rw [assemblies, Job.eval_bind_eq_ok]
  constructor
  · rintro ⟨a, ha, hrests⟩
    obtain ⟨others, hothers, hall⟩ := Job.eval_bind_eq_ok.mp hrests
    cases hall
    obtain ⟨-, -, hnone, -⟩ := holds_of_assembly ha
    obtain ⟨base, hpublished⟩ := exists_published (hnone hfirst)
    rw [hpublished, Option.some_or] at hothers
    exact ⟨a, base, others, rfl, ha, hpublished, (assemblies_eq_ok_iff hrest).mp hothers⟩
  · rintro ⟨a, base, others, rfl, ha, hpublished, hothers⟩
    refine ⟨a, ha, Job.eval_bind_eq_ok.mpr ⟨others, ?_, rfl⟩⟩
    rw [hpublished, Option.some_or]
    exact (assemblies_eq_ok_iff hrest).mpr hothers

/-- What is known of languages that have been compiled one by one. -/
theorem holds_of_forall₂ {base : BaseCatalog} {ls : List Language} {as : List Assembly}
    (hparent : ∀ l ∈ ls, l.parent ≠ none)
    (h : List.Forall₂ (fun l a => (g.assembly limit (some base) l).eval oracle = .ok a) ls as) :
    as.map Assembly.language = ls ∧ ∀ a ∈ as,
      (∃ files, (g.sections limit a.language).eval oracle = .ok files ∧ a.Holds files) ∧
        a.base = some base := by
  induction h with
  | nil => exact ⟨rfl, nofun⟩
  | cons ha _ ih =>
      obtain ⟨rfl, hholds, -, hbase⟩ := holds_of_assembly ha
      obtain ⟨hlanguages, hall⟩ := ih fun m hm => hparent m (List.mem_cons_of_mem _ hm)
      refine ⟨congrArg (_ :: ·) hlanguages, fun b hb => ?_⟩
      rcases List.mem_cons.mp hb with rfl | hb
      · exact ⟨hholds, (hbase (hparent _ List.mem_cons_self)).1⟩
      · exact hall b hb

/-- Whether languages fit together is asked of no storage. -/
theorem eval_set_eq_ok {set : LanguageSet} :
    (Job.ofExcept ((LanguageSet.ofEntries? g.settings.languages
      g.settings.baseLanguage).mapError .language)).eval oracle = .ok set ↔
    LanguageSet.ofEntries? g.settings.languages g.settings.baseLanguage = .ok set :=
  Job.mapError_eq_ok

/-- A project compiles if its languages fit together and have all been compiled. -/
theorem compile_eq_ok_iff {catalog : Catalog} :
    (g.compile limit).eval oracle = .ok catalog ↔
      ∃ set as, LanguageSet.ofEntries? g.settings.languages g.settings.baseLanguage = .ok set ∧
        (g.assemblies limit none set.languages).eval oracle = .ok as ∧
        catalog = ⟨as.flatMap g.files, as.map report⟩ := by
  rw [compile, Job.eval_bind_eq_ok]
  constructor
  · rintro ⟨set, hset, hcompiled⟩
    obtain ⟨as, has, hcatalog⟩ := Job.eval_bind_eq_ok.mp hcompiled
    cases hcatalog
    exact ⟨set, as, eval_set_eq_ok.mp hset, has, rfl⟩
  · rintro ⟨set, as, hset, has, rfl⟩
    exact ⟨set, eval_set_eq_ok.mpr hset, Job.eval_bind_eq_ok.mpr ⟨as, has, rfl⟩⟩

/-- **Every catalog has come from a compilation.** -/
theorem exists_compilation {catalog : Catalog}
    (h : (g.compile limit).eval oracle = .ok catalog) :
    Nonempty (Compilation g oracle limit catalog) := by
  obtain ⟨set, as, hset, has, rfl⟩ := compile_eq_ok_iff.mp h
  have hordered := LanguageSet.ordered_of_ofEntries? hset
  obtain ⟨first, rest, hcons, -, hfirst, hothers⟩ := hordered.exists_cons
  rw [hcons] at has
  obtain ⟨a, base, others, rfl, ha, hpublished, hrest⟩ :=
    (assemblies_cons_eq_ok_iff hfirst hothers).mp has
  obtain ⟨rfl, hholds, hnone, -⟩ := holds_of_assembly ha
  obtain ⟨hlanguages, hall⟩ := holds_of_forall₂ hothers hrest
  refine ⟨a :: others, base, ?_, rfl, ?_, ?_, ?_⟩
  · rw [List.map_cons, hlanguages, ← hcons]
    exact hordered
  · intro b hb
    rcases List.mem_cons.mp hb with rfl | hb
    · exact hholds
    · exact (hall b hb).1
  · intro b hb hparent
    rcases List.mem_cons.mp hb with rfl | hb
    · exact ⟨hnone hfirst, hpublished⟩
    · exact absurd hparent (hothers _ (hlanguages ▸ List.mem_map_of_mem hb))
  · intro b hb hparent
    rcases List.mem_cons.mp hb with rfl | hb
    · exact absurd hfirst hparent
    · exact (hall b hb).2

/-- A run that has a catalog has it from a compilation. -/
theorem exists_compilation_of_run {σ κ : Type} {S : Storage σ κ} {s : σ} {catalog : Catalog}
    (h : (S.run (g.compile limit).run s).value = .ok catalog) :
    Nonempty (Compilation g (S.oracle s) limit catalog) := by
  rw [(S.run_of_reads (g.reads_compile limit) s).2] at h
  exact exists_compilation h

end Generator

/-! ### A small project -/

theorem exists_of_isOk {ε α : Type} {x : Except ε α} (h : x.isOk = true) : ∃ a, x = .ok a := by
  cases x with
  | ok a => exact ⟨a, rfl⟩
  | error e => cases h

/-- A result that is known through a view. -/
theorem exists_of_map_toOption {ε α β : Type} {x : Except ε α} {view : α → β} {b : β}
    (h : x.toOption.map view = some b) : ∃ a, x = .ok a ∧ view a = b := by
  cases x with
  | ok a => exact ⟨a, rfl, Option.some.inj h⟩
  | error e => cases h

namespace Sample

/-- A base language, a language that extends it, and one that extends this. -/
def settings : Settings :=
  { Settings.default with
    translationsDir := "t"
    outputDir := "o"
    baseLanguage := "en"
    languages :=
      [⟨"ca", some "C", some "fr"⟩, ⟨"fr", some "F", some "en"⟩, ⟨"en", some "E", none⟩] }

def generator : Generator where
  settings := settings
  glob := ⟨"*.json",
    [.anyBytes, .literal '.', .literal 'j', .literal 's', .literal 'o', .literal 'n']⟩
  runtime := .default
  translationsDir := ⟨"t"⟩
  outputDir := ⟨"o"⟩

/-- The base language has two sections, the second language one of them, the third none. -/
def memory : Memory where
  directories := [⟨"t/en"⟩, ⟨"t/en/x"⟩, ⟨"t/fr"⟩]
  files :=
    [(⟨"t/en/x/b.json"⟩,
      "\x7b\"translations\":\x7b\"c\":\x7b\"value\":\"\x7b\x7bn\x7d\x7d\",\"args\":[\"n\"]\x7d\x7d\x7d"),
     (⟨"t/en/a.json"⟩, "\x7b\"translations\":\x7b\"k\":\"K\"\x7d\x7d"),
     (⟨"t/fr/a.json"⟩, "\x7b\"translations\":\x7b\"k\":\"Y\"\x7d\x7d")]
  refusals := []

theorem settings_isValid : generator.settings.IsValid := by
  decide +kernel

/-- The project compiles. -/
theorem exists_catalog :
    ∃ catalog, (Memory.storage.run (generator.compile 3).run memory).value = .ok catalog :=
  exists_of_isOk (by decide +kernel)

end Sample

end Phrasebook
