import Phrasebook.Proofs.Catalog.Idempotence
import Phrasebook.Proofs.Catalog.Walk

/-!
# Proofs — Catalog — Survival

What becomes of the translation files that a run has read.  A run replaces its output directory,
wherever this is, and nothing keeps the translations out of it.  A file that has been read is
outside of the output directory and stays as it is, or it is below and is lost: a generated file
that takes its place starts with a comment, so that its text is none of a translation file
(`input_survives_iff`).
-/

namespace Phrasebook

/-! ### Texts of translation files and of generated files -/

/-- No document starts with a slash. -/
theorem Json.read_ne_ok_of_slash {text : String} (h : text.toList.head? = some '/')
    (v : Json.Value) : Json.read text ≠ .ok v := by
  obtain ⟨cs, hcs⟩ : ∃ cs, text.toList = '/' :: cs := by
    cases htext : text.toList with
    | nil => rw [htext] at h; cases h
    | cons c cs =>
        rw [htext] at h
        cases h
        exact ⟨cs, rfl⟩
  have hvalue : Json.value Json.depthLimit ('/' :: cs) = .error (.atNext .noValue ('/' :: cs)) := by
    rw [Json.value]
    rfl
  rw [Json.read, Json.readWith, hcs, hvalue]
  nofun

theorem Payload.head?_ne_slash {text : String} {payload : Payload}
    (h : Payload.ofFile? text = .ok payload) : text.toList.head? ≠ some '/' := by
  intro hslash
  unfold Payload.ofFile? at h
  split at h
  · cases h
  · next document hdocument => exact Json.read_ne_ok_of_slash hslash document hdocument

/-- A text with the banner at its top starts with a slash. -/
theorem Module.head?_banner (text : String) : (banner ++ text).toList.head? = some '/' := by
  rw [String.toList_append, List.head?_append]
  rfl

/-- Every generated file starts with the banner. -/
theorem Generator.head?_contents {g : Generator} {a : Assembly} {f : OutputFile}
    (hf : f ∈ g.files a) : f.contents.toList.head? = some '/' := by
  unfold Generator.files at hf
  rcases List.mem_cons.mp hf with rfl | hf
  · simp only [Module.LanguageModule.text, String.append_assoc, Module.head?_banner]
  · split at hf
    · cases hf
    · rcases List.mem_cons.mp hf with rfl | hf
      · simp only [Module.sectionsInterface, String.append_assoc, Module.head?_banner]
      · obtain rfl := List.mem_singleton.mp hf
        simp only [Module.languageInterface, String.append_assoc, Module.head?_banner]

/-! ### Files that have been read -/

namespace Memory

variable {m : Memory}

/-- A text that has been read is there. -/
theorem text?_of_readText {path : Path} {text : String}
    (h : storage.oracle m (.readText path) = .ok text) : m.text? path = some text := by
  have hrefusal : m.refusal? (.readText path) = none := by
    refine refusal?_eq_none fun reason heq => ?_
    cases heq.symm.trans h
  have hanswer : (m.perform (.readText path)).1 = .ok text := by
    rw [← answer_of_refusal? hrefusal]
    exact h
  rw [perform] at hanswer
  split at hanswer
  · next found htext =>
      rw [htext, Except.ok.inj hanswer]
  · cases hanswer

end Memory

namespace Generator

variable {g : Generator} {m : Memory} {limit : Nat}

/-- The sections of a language have been read below its directory. -/
theorem isRead_of_sections {l : Language} {files : List SectionFile}
    (h : (g.sections limit l).eval (Memory.storage.oracle m) = .ok files) :
    ∀ f ∈ files, f.path.startsWith (g.translationsDir.join l.shortcode) = true ∧
      f.IsRead (Memory.storage.oracle m) := by
  have hsections := sections_eq_ok h
  split at hsections
  · refine Walk.isRead_of_directory
      (fun p => p.startsWith (g.translationsDir.join l.shortcode) = true)
      (fun p names hp hnames name hname => ?_) (fun p names hp hnames name hname => ?_)
      (Path.startsWith_of_same (Path.same_iff.mpr rfl)) hsections
    · obtain ⟨-, rfl⟩ := Memory.eq_of_listDirectories (Job.eval_listDirectories_eq_ok.mpr hnames)
      exact Memory.startsWith_join_of_mem hp hname
    · obtain ⟨-, rfl⟩ := Memory.eq_of_listFiles (Job.eval_listFiles_eq_ok.mpr hnames)
      exact Memory.startsWith_join_of_mem hp hname
  · rw [hsections]
    nofun

/-- **A translation file survives a run if it is not below the output directory**, and only then.
Every configured language of a run that succeeds has been loaded, from files below its directory,
and each of these is there with the same text as before just if the output directory does not hold
it. -/
theorem input_survives_iff {report : Report} (hvalid : g.settings.IsValid)
    (h : (Memory.storage.run (g.run limit false).run m).value = .ok report) :
    let after := (Memory.storage.run (g.run limit false).run m).storage
    ∀ entry ∈ g.settings.languages, ∃ files, g.Loads Memory.storage limit m entry files ∧
      ∀ file ∈ files,
        file.path.startsWith (g.translationsDir.join entry.shortcode) = true ∧
        ∃ text, m.text? file.path = some text ∧ Payload.ofFile? text = .ok file.payload ∧
          (after.text? file.path = some text ↔ file.path.startsWith g.outputDir = false) := by
  intro after entry hentry
  obtain ⟨catalog, hcatalog, hadmits⟩ := exists_catalog_of_run hvalid h
  obtain ⟨-, hstorage⟩ := run_of_admits hvalid hcatalog hadmits
  obtain ⟨c⟩ := exists_compilation_of_run hcatalog
  obtain ⟨a, -, hnamed, files, hsections, -⟩ := c.exists_assembly hentry
  have hbelow : ∀ e ∈ catalog.files.map OutputFile.entry, e.1.startsWith g.outputDir = true := by
    intro e he
    obtain ⟨f, hf, rfl⟩ := List.mem_map.mp he
    exact Path.startsWith_of_isChildOf (c.isChildOf_of_mem_files hvalid f hf)
  refine ⟨files, ⟨a.language, hnamed, ?_⟩, fun file hfile => ?_⟩
  · rwa [(Memory.storage.run_of_reads (g.reads_sections limit a.language) m).2]
  obtain ⟨hplace, text, hread, hpayload⟩ := isRead_of_sections hsections file hfile
  have htext := Memory.text?_of_readText hread
  rw [Language.shortcode_of_named? hnamed] at hplace
  refine ⟨hplace, text, htext, hpayload, ?_⟩
  rw [show after = _ from hstorage, Memory.text?_replace hbelow]
  split
  · next hlost =>
      -- what is there now is a generated file, if anything
      refine ⟨fun hfound => ?_, fun hkept => by rw [hlost] at hkept; cases hkept⟩
      obtain ⟨e, he, rfl⟩ := Option.map_eq_some_iff.mp hfound
      obtain ⟨f, hf, rfl⟩ := List.mem_map.mp (List.mem_of_find?_eq_some he)
      rw [c.catalog_eq] at hf
      obtain ⟨b, -, hb⟩ := List.mem_flatMap.mp hf
      exact absurd (head?_contents hb) (Payload.head?_ne_slash hpayload)
  · next hkept => exact ⟨fun _ => Bool.eq_false_iff.mpr hkept, fun _ => htext⟩

/-- In the small project the output directory is apart from the translations, and each file that is
loaded stays as it is. -/
theorem sample_input_survives :
    let after := (Memory.storage.run (Sample.generator.run 5 false).run Sample.used).storage
    ∀ entry ∈ Sample.settings.languages, ∃ files,
      Sample.generator.Loads Memory.storage 5 Sample.used entry files ∧
        ∀ file ∈ files, ∃ text, Sample.used.text? file.path = some text ∧
          after.text? file.path = some text := by
  intro after entry hentry
  obtain ⟨report, hreport⟩ := Sample.exists_report
  obtain ⟨files, hfiles, hsurvives⟩ :=
    input_survives_iff Sample.settings_isValid hreport entry hentry
  refine ⟨files, hfiles, fun file hfile => ?_⟩
  obtain ⟨hplace, text, htext, -, hiff⟩ := hsurvives file hfile
  have hapart : ∀ entry ∈ Sample.settings.languages,
      ((⟨"t"⟩ : Path).join entry.shortcode).Apart ⟨"o"⟩ := fun entry hentry =>
    ⟨by revert entry; decide, by revert entry; decide⟩
  exact ⟨text, htext, hiff.mpr ((hapart entry hentry).not_startsWith hplace)⟩

end Generator

/-! ### A project that loses its translations -/

namespace Sample

/-- The small project, with its translations directory for the output. -/
def overwriting : Generator :=
  { generator with settings := { settings with outputDir := "t" }, outputDir := ⟨"t"⟩ }

/-- The language that has one of the two sections itself. -/
def french : Language :=
  ⟨"fr", "F", some "en"⟩

end Sample

/-- A run that succeeds has destroyed a file that it has loaded. -/
theorem Generator.sample_input_destroyed :
    let after := (Memory.storage.run (Sample.overwriting.run 5 false).run Sample.memory).storage
    Sample.overwriting.settings.IsValid ∧
      (∃ report, (Memory.storage.run (Sample.overwriting.run 5 false).run Sample.memory).value =
        .ok report) ∧
      ∃ entry ∈ Sample.overwriting.settings.languages, ∃ files,
        Sample.overwriting.Loads Memory.storage 5 Sample.memory entry files ∧
          ∃ file ∈ files, (∃ text, Sample.memory.text? file.path = some text) ∧
            after.text? file.path = none := by
  intro after
  have hloaded : ((Memory.storage.run (Sample.overwriting.sections 5 Sample.french).run
      Sample.memory).value.toOption.map (·.map SectionFile.path)) = some [⟨"t/fr/a.json"⟩] := by
    decide +kernel
  obtain ⟨files, hfiles, hpaths⟩ := exists_of_map_toOption hloaded
  obtain ⟨file, hfile, hpath⟩ := List.mem_map.mp (hpaths ▸ List.mem_singleton_self _)
  have hlost : after.text? ⟨"t/fr/a.json"⟩ = none := by decide +kernel
  refine ⟨by decide +kernel, exists_of_isOk (by decide +kernel), ⟨"fr", some "F", some "en"⟩,
    by decide, files, ⟨Sample.french, by decide +kernel, hfiles⟩, file, hfile, ?_, hpath ▸ hlost⟩
  rw [hpath]
  exact ⟨_, rfl⟩

end Phrasebook
