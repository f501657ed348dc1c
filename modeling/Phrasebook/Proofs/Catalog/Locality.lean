import Phrasebook.Proofs.Catalog.Constants
import Phrasebook.Proofs.Catalog.Walk
import Phrasebook.Proofs.Syntax.Interface

/-!
# Proofs — Catalog — Locality

What the module of a language depends on.  Two projects are compiled, each on a storage of its own,
with the same runtime and the same file pattern, and their base languages have the same *outline*:
sections of the same identities and shapes, in the same order.

**Locality** (`modules_local`).  The two shared files have the same texts in both catalogs.  So has
the module of every language that is configured alike, if what can be read below its directory is
the same (`SameTranslations`).  The base language may have other texts, and the other languages may
be any.

The two walks of a language read the same, directory by directory (`alike_directory`), so that they
find files with the same contents.  An assembly keeps of these what the files give, and of the base
language only what has been published, which is said by its outline.
-/

namespace Phrasebook

/-- What a file says, wherever it is. -/
def SectionFile.content (file : SectionFile) : Section.Identity × Payload :=
  (file.identity, file.payload)

/-- The identity and the shape of a section. -/
abbrev Outline := Section.Identity × List (String × Shape)

/-- What a file says without its texts. -/
def SectionFile.outline (file : SectionFile) : Outline :=
  (file.identity, file.payload.shape)

/-- Files that say the same, one by one. -/
def SameContents (files files' : List SectionFile) : Prop :=
  files.map SectionFile.content = files'.map SectionFile.content

theorem SameContents.append {files files' more more' : List SectionFile}
    (h : SameContents files files') (hmore : SameContents more more') :
    SameContents (files ++ more) (files' ++ more') := by
  rw [SameContents, List.map_append, List.map_append, h, hmore]

/-! ### Two jobs -/

/-- Two jobs, each answered in its own way: whatever values they have are related. -/
def Job.Alike {α β : Type} (oracle oracle' : (r : Request) → r.Answer) (R : α → β → Prop)
    (job : Job α) (job' : Job β) : Prop :=
  ∀ a b, job.eval oracle = .ok a → job'.eval oracle' = .ok b → R a b

namespace Job

variable {α β γ δ : Type} {oracle oracle' : (r : Request) → r.Answer} {R : α → β → Prop}

theorem alike_pure {a : α} {b : β} (h : R a b) : Alike oracle oracle' R (pure a) (pure b) := by
  intro _ _ ha hb
  cases ha
  cases hb
  exact h

theorem Alike.bind {Q : γ → δ → Prop} {job : Job α} {job' : Job β} {f : α → Job γ} {f' : β → Job δ}
    (h : Alike oracle oracle' R job job')
    (hf : ∀ a b, R a b → Alike oracle oracle' Q (f a) (f' b)) :
    Alike oracle oracle' Q (job >>= f) (job' >>= f') := by
  intro c d hc hd
  obtain ⟨a, ha, hc⟩ := eval_bind_eq_ok.mp hc
  obtain ⟨b, hb, hd⟩ := eval_bind_eq_ok.mp hd
  exact hf a b (h a b ha hb) c d hc hd

theorem Alike.collect {ι : Type} {job job' : ι → Job (List SectionFile)} {is : List ι}
    (h : ∀ i ∈ is, Alike oracle oracle' SameContents (job i) (job' i)) :
    Alike oracle oracle' SameContents (collect job is) (collect job' is) := by
  induction is with
  | nil => exact alike_pure rfl
  | cons i is ih =>
      refine (h i List.mem_cons_self).bind fun fs fs' hfirst => ?_
      refine (ih fun j hj => h j (List.mem_cons_of_mem _ hj)).bind fun gs gs' hrest => ?_
      exact alike_pure (hfirst.append hrest)

theorem alike_listDirectories {p p' : Path} {names : List String}
    (h : oracle (.listDirectories p) = .ok names) (h' : oracle' (.listDirectories p') = .ok names) :
    Alike oracle oracle' (fun ns ns' => ns = names ∧ ns' = names) (listDirectories p)
      (listDirectories p') := fun _ _ hns hns' =>
  ⟨Except.ok.inj ((eval_listDirectories_eq_ok.mp hns).symm.trans h),
    Except.ok.inj ((eval_listDirectories_eq_ok.mp hns').symm.trans h')⟩

theorem alike_listFiles {p p' : Path} {names : List String}
    (h : oracle (.listFiles p) = .ok names) (h' : oracle' (.listFiles p') = .ok names) :
    Alike oracle oracle' (fun ns ns' => ns = names ∧ ns' = names) (listFiles p) (listFiles p') :=
  fun _ _ hns hns' =>
    ⟨Except.ok.inj ((eval_listFiles_eq_ok.mp hns).symm.trans h),
      Except.ok.inj ((eval_listFiles_eq_ok.mp hns').symm.trans h')⟩

end Job

/-! ### Trees that read the same -/

section Trees

variable (oracle oracle' : (r : Request) → r.Answer)

/-- Two directories have the same entries, and below each of them the same is read. -/
inductive SameTree : Path → Path → Prop where
  | directory {p p' : Path} {directories files : List String}
      (listed : oracle (.listDirectories p) = .ok directories)
      (listed' : oracle' (.listDirectories p') = .ok directories)
      (listedFiles : oracle (.listFiles p) = .ok files)
      (listedFiles' : oracle' (.listFiles p') = .ok files)
      (texts : ∀ name ∈ files, ∀ text, oracle (.readText (p.join name)) = .ok text ↔
        oracle' (.readText (p'.join name)) = .ok text)
      (below : ∀ name ∈ directories, SameTree (p.join name) (p'.join name)) :
      SameTree p p'

/-- Nothing can be found at a path: no directory is there, or one without entries. -/
def Bare (p : Path) : Prop :=
  oracle (.directoryExists p) = false ∨
    oracle (.listDirectories p) = .ok [] ∧ oracle (.listFiles p) = .ok []

/-- The same translations are at two paths. -/
inductive SameTranslations (p p' : Path) : Prop where
  | tree (there : oracle (.directoryExists p) = true) (there' : oracle' (.directoryExists p') = true)
      (same : SameTree oracle oracle' p p')
  | bare (h : Bare oracle p) (h' : Bare oracle' p')

end Trees

namespace Walk

variable {w w' : Walk} {oracle oracle' : (r : Request) → r.Answer} {p p' : Path}

/-- Identities are extended alike in all walks. -/
theorem alike_extend (id : Section.Identity) (segment : String) (path path' : Path) :
    Job.Alike oracle oracle' Eq (Job.ofExcept (w.extend id segment path))
      (Job.ofExcept (w'.extend id segment path')) :=
  fun _ _ h h' => Except.ok.inj ((extend_eq_ok.mp h).symm.trans (extend_eq_ok.mp h'))

theorem alike_file (hglob : w.glob = w'.glob) {name : String}
    (htext : ∀ text, oracle (.readText (p.join name)) = .ok text ↔
      oracle' (.readText (p'.join name)) = .ok text) (id : Section.Identity) :
    Job.Alike oracle oracle' SameContents (w.file p id name) (w'.file p' id name) := by
  have hread : Job.Alike oracle oracle' Eq (Job.readText (p.join name))
      (Job.readText (p'.join name)) := fun text text' h h' =>
    Except.ok.inj (((htext text).mp (Job.eval_readText_eq_ok.mp h)).symm.trans
      (Job.eval_readText_eq_ok.mp h'))
  unfold file
  rw [hglob]
  split
  · refine (alike_extend id _ _ _).bind ?_
    rintro extended _ rfl
    refine hread.bind ?_
    rintro content _ rfl
    have hpayload : Job.Alike oracle oracle' Eq (Job.ofExcept (w.payload (p.join name) content))
        (Job.ofExcept (w'.payload (p'.join name) content)) :=
      fun _ _ h h' => Except.ok.inj ((payload_eq_ok.mp h).symm.trans (payload_eq_ok.mp h'))
    refine hpayload.bind ?_
    rintro payload _ rfl
    exact Job.alike_pure rfl
  · exact Job.Alike.bind (fun _ _ _ _ => trivial) fun _ _ _ => Job.alike_pure rfl

/-- **Walks of trees that read the same** find the same contents. -/
theorem alike_directory (hglob : w.glob = w'.glob) (h : SameTree oracle oracle' p p')
    (limit limit' : Nat) (id : Section.Identity) :
    Job.Alike oracle oracle' SameContents (w.directory limit p id) (w'.directory limit' p' id) := by
  -- the trees say which names are met; the limits only have to be large enough for both walks
  induction h generalizing limit limit' id with
  | directory listed listed' listedFiles listedFiles' texts below ih =>
      match limit, limit' with
      | 0, _ => exact nofun
      | _ + 1, 0 => exact fun _ _ _ => nofun
      | limit + 1, limit' + 1 =>
          refine (Job.alike_listDirectories listed listed').bind ?_
          rintro _ _ ⟨rfl, rfl⟩
          refine (Job.Alike.collect fun name hname => ?_).bind fun _ _ hbelow => ?_
          · refine (alike_extend id name _ _).bind ?_
            rintro extended _ rfl
            exact ih name hname limit limit' extended
          refine (Job.alike_listFiles listedFiles listedFiles').bind ?_
          rintro _ _ ⟨rfl, rfl⟩
          refine (Job.Alike.collect fun name hname =>
            alike_file hglob (texts name hname) id).bind fun _ _ hhere => ?_
          exact Job.alike_pure (hbelow.append hhere)

end Walk

namespace Generator

variable {g g' : Generator} {oracle oracle' : (r : Request) → r.Answer} {limit limit' : Nat}
  {l : Language} {files files' : List SectionFile}

theorem sections_eq_nil (hbare : Bare oracle (g.translationsDir.join l.shortcode))
    (h : (g.sections limit l).eval oracle = .ok files) : files = [] := by
  have hsections := sections_eq_ok h
  split at hsections
  · next hthere =>
      rcases hbare with hnone | ⟨hdirectories, hfiles⟩
      · cases hthere.symm.trans hnone
      · exact Walk.eq_nil_of_directory hdirectories hfiles hsections
  · exact hsections

/-- **A language whose translations are the same** has files with the same contents. -/
theorem sameContents_sections (hglob : g.glob = g'.glob)
    (hsame : SameTranslations oracle oracle' (g.translationsDir.join l.shortcode)
      (g'.translationsDir.join l.shortcode))
    (h : (g.sections limit l).eval oracle = .ok files)
    (h' : (g'.sections limit' l).eval oracle' = .ok files') :
    SameContents files files' := by
  cases hsame with
  | tree there there' same =>
      have hsections := sections_eq_ok h
      have hsections' := sections_eq_ok h'
      rw [if_pos there] at hsections
      rw [if_pos there'] at hsections'
      exact Walk.alike_directory hglob same limit limit' _ _ _ hsections hsections'
  | bare hbare hbare' =>
      rw [sections_eq_nil hbare h, sections_eq_nil hbare' h']
      rfl

end Generator

/-! ### What is kept of the files -/

/-- Lists that are related to others of one view have one view, if their members have. -/
theorem map_eq_of_forall₂ {α β γ δ : Type} {R : α → β → Prop} {view : α → γ} {result : β → δ}
    (hresult : ∀ a a' b b', R a b → R a' b' → view a = view a' → result b = result b')
    {as as' : List α} {bs bs' : List β} (h : List.Forall₂ R as bs) (h' : List.Forall₂ R as' bs')
    (hview : as.map view = as'.map view) : bs.map result = bs'.map result := by
  induction h generalizing as' bs' with
  | nil =>
      cases h' with
      | nil => rfl
      | cons => cases hview
  | cons hr _ ih =>
      cases h' with
      | nil => cases hview
      | cons hr' hrest =>
          obtain ⟨hfirst, hothers⟩ := List.cons.inj hview
          exact congrArg₂ List.cons (hresult _ _ _ _ hr hr' hfirst) (ih hrest hothers)

namespace Assembly

variable {a b : Assembly} {files files' : List SectionFile}

/-- Files that say the same give the same sections. -/
theorem Holds.own_eq (ha : a.Holds files) (hb : b.Holds files') (h : SameContents files files') :
    a.own = b.own := by
  refine map_eq_of_forall₂ ?_ ha.gives hb.gives h
  rintro file file' _ _ ⟨tree, htree, rfl⟩ ⟨tree', htree', rfl⟩ hcontent
  obtain ⟨hidentity, hpayload⟩ := Prod.ext_iff.mp hcontent
  rw [show file.payload = file'.payload from hpayload] at htree
  obtain rfl := Except.ok.inj (htree.symm.trans htree')
  simp only [show file.identity = file'.identity from hidentity]

/-- Files of one outline give sections of the same interfaces. -/
theorem Holds.published_eq (ha : a.Holds files) (hb : b.Holds files')
    (h : files.map SectionFile.outline = files'.map SectionFile.outline) :
    (a.own.map fun s => (⟨s.identity, s.interface⟩ : Module.CanonicalSection)) =
      b.own.map fun s => ⟨s.identity, s.interface⟩ := by
  rw [own, own, List.map_map, List.map_map]
  refine map_eq_of_forall₂ ?_ ha.gives hb.gives h
  rintro file file' _ _ ⟨tree, htree, rfl⟩ ⟨tree', htree', rfl⟩ houtline
  obtain ⟨hidentity, hshape⟩ := Prod.ext_iff.mp houtline
  have hinterface := (Syntax.Tree.interface_eq_iff_shape_eq htree htree').mpr hshape
  simp only [Function.comp_apply, show file.identity = file'.identity from hidentity, hinterface]

/-- The module of a language depends on its own sections and on the published ones. -/
theorem languageModule_eq (hlanguage : a.language = b.language) (hown : a.own = b.own)
    (hcanonical : a.canonical = b.canonical) : a.languageModule = b.languageModule := by
  have hkey : ∀ key, a.hasKey key = a.own.any fun s => s.identity.key == key := fun key => by
    rw [own, List.any_map]
    rfl
  have hkey' : ∀ key, b.hasKey key = b.own.any fun s => s.identity.key == key := fun key => by
    rw [own, List.any_map]
    rfl
  have hfields : a.fields = b.fields := by
    simp only [fields, hcanonical, hkey, hkey', hown]
  simp only [languageModule, hlanguage, hown, hfields]

end Assembly

/-! ### Two catalogs -/

namespace Generator

variable {σ κ : Type}

/-- What the base language of a project publishes, without its texts. -/
def Outlines (g : Generator) (S : Storage σ κ) (limit : Nat) (s : σ)
    (outline : List Outline) : Prop :=
  ∃ entry ∈ g.settings.languages, entry.shortcode = g.settings.baseLanguage ∧
    ∃ files, g.Loads S limit s entry files ∧ files.map SectionFile.outline = outline

/-- The file of a module of which the name and the text are known. -/
def file (g : Generator) (named : String × String) : OutputFile :=
  ⟨g.outputPath named.1, named.2⟩

/-- What a catalog consists of: one module for each of its languages, the base language first and no
two of one shortcode, and the two shared files. -/
structure Comprises (g : Generator) (catalog : Catalog) (modules : List (String × String))
    (sections language : String) : Prop where
  languages : catalog.languages.map LanguageReport.shortcode = modules.map Prod.fst
  distinct : (modules.map Prod.fst).Nodup
  files : ∃ first rest, modules = first :: rest ∧ first.1 = g.settings.baseLanguage ∧
    catalog.files = g.file first :: g.file (Module.sectionsModule, sections) ::
      g.file (Module.languageModule, language) :: rest.map g.file

variable {g : Generator} {S : Storage σ κ} {limit : Nat} {s : σ} {catalog : Catalog}

/-- The base language is one of those that have been compiled. -/
theorem Outlines.exists_assembly {outline : List Outline}
    (h : g.Outlines S limit s outline) (c : Compilation g (S.oracle s) limit catalog) :
    ∃ (a : Assembly) (files : List SectionFile), a.Holds files ∧ files.map SectionFile.outline = outline ∧
      c.base.sections = a.own.map fun s => ⟨s.identity, s.interface⟩ := by
  obtain ⟨entry, hentry, hbase, files, hloads, houtline⟩ := h
  obtain ⟨a, ha, hnamed, files', hsections, hholds⟩ := c.exists_assembly hentry
  obtain rfl := hloads.unique (loads_of_eval hnamed hsections)
  have hparent : a.language.parent = none :=
    (c.ordered.parent_eq_none_iff (List.mem_map_of_mem ha)).mpr
      ((Language.shortcode_of_named? hnamed).trans hbase)
  refine ⟨a, files, hholds, houtline, ?_⟩
  rw [← c.canonical_eq ha, Assembly.canonical, (c.publishes a ha hparent).1]

end Generator

namespace Compilation

variable {g : Generator} {oracle : (r : Request) → r.Answer} {limit : Nat} {catalog : Catalog}
  (c : Compilation g oracle limit catalog)
include c

/-- The modules of a catalog, by their names. -/
def modules (c : Compilation g oracle limit catalog) : List (String × String) :=
  c.assemblies.map fun a => (a.language.shortcode, a.languageModule.text g.runtime)

theorem comprises : g.Comprises catalog c.modules (Module.sectionsInterface c.base.sections)
    (Module.languageInterface g.runtime c.base.sections) := by
  obtain ⟨first, rest, hcons, hfirst, hrest⟩ := c.exists_cons
  have hlanguages : catalog.languages = c.assemblies.map Generator.report :=
    congrArg Catalog.languages c.catalog_eq
  have hshortcodes : c.modules.map Prod.fst = (c.assemblies.map Assembly.language).map
      Language.shortcode := by
    rw [modules, List.map_map, List.map_map]
    rfl
  refine ⟨?_, hshortcodes ▸ c.ordered.nodup, _, _, by rw [modules, hcons, List.map_cons], ?_, ?_⟩
  · rw [hlanguages, hshortcodes, List.map_map, List.map_map]
    rfl
  · have hmem : first ∈ c.assemblies := hcons ▸ List.mem_cons_self
    exact (c.ordered.parent_eq_none_iff (List.mem_map_of_mem hmem)).mp hfirst
  · rw [c.files_eq hcons hfirst hrest, List.map_map]
    rfl

end Compilation

namespace Generator

variable {σ κ σ' κ' : Type} {g g' : Generator} {S : Storage σ κ} {S' : Storage σ' κ'}
  {limit limit' : Nat} {s : σ} {s' : σ'} {catalog catalog' : Catalog}
  {outline : List Outline}

/-- **A module depends on nothing but its own inputs**: the outline of the base language, the
language itself and what can be read below its directory.  Whatever else is different in another
project that compiles, the shared files and the module have the same texts in both. -/
theorem modules_local (h : (S.run (g.compile limit).run s).value = .ok catalog)
    (h' : (S'.run (g'.compile limit').run s').value = .ok catalog')
    (hruntime : g.runtime = g'.runtime) (hglob : g.glob = g'.glob)
    (hbase : g.Outlines S limit s outline) (hbase' : g'.Outlines S' limit' s' outline) :
    ∃ modules modules' sections language,
      g.Comprises catalog modules sections language ∧
      g'.Comprises catalog' modules' sections language ∧
      ∀ entry ∈ g.settings.languages, ∀ entry' ∈ g'.settings.languages, ∀ l : Language,
        Language.named? entry = some l → Language.named? entry' = some l →
        SameTranslations (S.oracle s) (S'.oracle s') (g.translationsDir.join l.shortcode)
          (g'.translationsDir.join l.shortcode) →
        ∃ text, (l.shortcode, text) ∈ modules ∧ (l.shortcode, text) ∈ modules' := by
  obtain ⟨c⟩ := exists_compilation_of_run h
  obtain ⟨c'⟩ := exists_compilation_of_run h'
  have hsections : c.base.sections = c'.base.sections := by
    obtain ⟨b, files, hholds, houtline, hpublished⟩ := hbase.exists_assembly c
    obtain ⟨b', files', hholds', houtline', hpublished'⟩ := hbase'.exists_assembly c'
    rw [hpublished, hpublished', hholds.published_eq hholds' (houtline.trans houtline'.symm)]
  refine ⟨c.modules, c'.modules, _, _, c.comprises, ?_, ?_⟩
  · rw [hruntime, hsections]
    exact c'.comprises
  intro entry hentry entry' hentry' l hl hl' hsame
  obtain ⟨a, ha, hnamed, files, hfiles, hholds⟩ := c.exists_assembly hentry
  obtain ⟨a', ha', hnamed', files', hfiles', hholds'⟩ := c'.exists_assembly hentry'
  obtain rfl := Option.some.inj (hl.symm.trans hnamed)
  have hlanguage := Option.some.inj (hl'.symm.trans hnamed')
  rw [← hlanguage] at hfiles'
  have hown := hholds.own_eq hholds' (sameContents_sections hglob hsame hfiles hfiles')
  have hcanonical := (c.canonical_eq ha).trans (hsections.trans (c'.canonical_eq ha').symm)
  have hmodule := Assembly.languageModule_eq hlanguage hown hcanonical
  refine ⟨a.languageModule.text g.runtime, List.mem_map_of_mem ha, ?_⟩
  rw [hmodule, hruntime, hlanguage]
  exact List.mem_map_of_mem ha'

end Generator

/-! ### A project that differs from the small one -/

namespace Sample

/-- A project elsewhere, with the same base language under another name, and one of the languages
that extend it. -/
def moved : Generator :=
  { generator with
    settings := { settings with
      translationsDir := "u"
      outputDir := "p"
      languages := [⟨"en", some "English", none⟩, ⟨"fr", some " F ", some "en"⟩] }
    translationsDir := ⟨"u"⟩
    outputDir := ⟨"p"⟩ }

/-- The base language has other texts, and there is old output. -/
def movedMemory : Memory where
  directories := [⟨"u/en"⟩, ⟨"u/en/x"⟩, ⟨"u/fr"⟩, ⟨"p"⟩]
  files :=
    [(⟨"u/fr/a.json"⟩, "\x7b\"translations\":\x7b\"k\":\"Y\"\x7d\x7d"),
     (⟨"u/en/a.json"⟩, "\x7b\"translations\":\x7b\"k\":\"Other\"\x7d\x7d"),
     (⟨"u/en/x/b.json"⟩,
      "\x7b\"translations\":\x7b\"c\":\x7b\"value\":\"(\x7b\x7bn\x7d\x7d)\",\"args\":[\"n\"]\x7d\x7d\x7d"),
     (⟨"p/old.ts"⟩, "old")]
  refusals := []

theorem exists_moved_catalog :
    ∃ catalog, (Memory.storage.run (moved.compile 3).run movedMemory).value = .ok catalog :=
  exists_of_isOk (by decide +kernel)

/-- What both base languages publish. -/
def outline : List Outline :=
  [(⟨Section.wordsOf "x" ++ Section.wordsOf "b"⟩, [("c", .function ["n"])]),
   (⟨Section.wordsOf "a"⟩, [("k", .text)])]

theorem outlines : generator.Outlines Memory.storage 3 memory outline := by
  have houtline : ((Memory.storage.run (generator.sections 3 ⟨"en", "E", none⟩).run
      memory).value.toOption.map (·.map SectionFile.outline)) = some outline := by
    decide +kernel
  obtain ⟨files, hfiles, heq⟩ := exists_of_map_toOption houtline
  exact ⟨⟨"en", some "E", none⟩, by decide, rfl, files, ⟨_, by decide +kernel, hfiles⟩, heq⟩

theorem moved_outlines : moved.Outlines Memory.storage 3 movedMemory outline := by
  have houtline : ((Memory.storage.run (moved.sections 3 ⟨"en", "English", none⟩).run
      movedMemory).value.toOption.map (·.map SectionFile.outline)) = some outline := by
    decide +kernel
  obtain ⟨files, hfiles, heq⟩ := exists_of_map_toOption houtline
  exact ⟨⟨"en", some "English", none⟩, by decide, rfl, files, ⟨_, by decide +kernel, hfiles⟩, heq⟩

/-- The language that both projects have is translated alike. -/
theorem sameTranslations : SameTranslations (Memory.storage.oracle memory)
    (Memory.storage.oracle movedMemory) (generator.translationsDir.join "fr")
    (moved.translationsDir.join "fr") := by
  have hdirectories : Memory.storage.oracle memory (.listDirectories ⟨"t/fr"⟩) = .ok [] ∧
      Memory.storage.oracle movedMemory (.listDirectories ⟨"u/fr"⟩) = .ok [] := by
    decide +kernel
  have hfiles : Memory.storage.oracle memory (.listFiles ⟨"t/fr"⟩) = .ok ["a.json"] ∧
      Memory.storage.oracle movedMemory (.listFiles ⟨"u/fr"⟩) = .ok ["a.json"] := by
    decide +kernel
  have htext : Memory.storage.oracle memory (.readText ⟨"t/fr/a.json"⟩) =
      Memory.storage.oracle movedMemory (.readText ⟨"u/fr/a.json"⟩) := by
    decide +kernel
  refine .tree (by decide +kernel) (by decide +kernel)
    (.directory hdirectories.1 hdirectories.2 hfiles.1 hfiles.2 (fun name hname text => ?_) nofun)
  obtain rfl := List.mem_singleton.mp hname
  exact Eq.congr_left htext

end Sample

/-- The two projects have one module and the shared files in common. -/
theorem Generator.sample_modules_local :
    ∃ (catalog catalog' : Catalog) (modules modules' : List (String × String))
      (sections language text : String),
      (Memory.storage.run (Sample.generator.compile 3).run Sample.memory).value = .ok catalog ∧
      (Memory.storage.run (Sample.moved.compile 3).run Sample.movedMemory).value = .ok catalog' ∧
      Sample.generator.Comprises catalog modules sections language ∧
      Sample.moved.Comprises catalog' modules' sections language ∧
      ("fr", text) ∈ modules ∧ ("fr", text) ∈ modules' := by
  obtain ⟨catalog, hcatalog⟩ := Sample.exists_catalog
  obtain ⟨catalog', hcatalog'⟩ := Sample.exists_moved_catalog
  obtain ⟨modules, modules', sections, language, hcomprises, hcomprises', hmodules⟩ :=
    modules_local hcatalog hcatalog' rfl rfl Sample.outlines Sample.moved_outlines
  obtain ⟨text, htext, htext'⟩ := hmodules ⟨"fr", some "F", some "en"⟩ (by decide)
    ⟨"fr", some " F ", some "en"⟩ (by decide) ⟨"fr", "F", some "en"⟩ (by decide +kernel)
    (by decide +kernel) Sample.sameTranslations
  exact ⟨catalog, catalog', modules, modules', sections, language, text, hcatalog, hcatalog',
    hcomprises, hcomprises', htext, htext'⟩

end Phrasebook
