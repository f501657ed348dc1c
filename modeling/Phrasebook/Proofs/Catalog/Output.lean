import Mathlib.Data.List.Find
import Phrasebook.Proofs.Catalog.Files
import Phrasebook.Proofs.Storage.Replacement

/-!
# Proofs — Catalog — Output

What a successful run leaves in memory.  The replacement of the output directory succeeds if the
directory has a path and no request is refused (`Memory.Admits`), and then it is the replacement of
one directory by one with the files of the catalog (`run_write`, `admits_of_write`).

The files can be written in any order.  Whether they can be written has nothing to do with the
order, and since their paths are pairwise distinct none is written over another, so that behind the
last there is each of them (`run_leaves_catalog`).
-/

namespace Phrasebook

/-- A file, as memory holds it. -/
def OutputFile.entry (f : OutputFile) : Path × String :=
  (f.path, f.contents)

/-- What a memory is like when a directory of it has been replaced by one with some files: below
the directory there are these files and no others, and all others are as they were. -/
structure Memory.Replaced (before after : Memory) (directory : Path) (files : List OutputFile) :
    Prop where
  below : (after.filesBelow directory).Perm (files.map OutputFile.entry)
  outside : (after.files.filter fun f => !f.1.startsWith directory) =
    before.files.filter fun f => !f.1.startsWith directory
  text : ∀ path, after.text? path =
    if path.startsWith directory = true then
      (files.find? fun f => f.path.same path).map OutputFile.contents
    else before.text? path

namespace Memory

variable {m : Memory} {directory : Path}

/-! ### Writing files -/

/-- A file that is not there yet is put behind the others. -/
theorem putFile_of_new {path : Path} {contents : String} {entries : List (Path × String)}
    (h : ∀ e ∈ entries, e.1.same path = false) :
    putFile path contents entries = entries ++ [(path, contents)] := by
  induction entries with
  | nil => rfl
  | cons e es ih =>
      have he := Bool.eq_false_iff.mp (h e List.mem_cons_self)
      rw [putFile, if_neg he, ih fun e' he' => h e' (List.mem_cons_of_mem _ he'), List.cons_append]

theorem run_removeAll {path : Path} (h : m.refusal? (.removeAll path) = none) :
    Memory.storage.run (Job.removeAll path).run m =
      ⟨.ok (), m.remove path, [.removeAll path], []⟩ := by
  rw [Job.run_removeAll, show Memory.storage.answer _ m = _ from answer_of_refusal? h]
  rfl

theorem of_removeAll {path : Path}
    (h : (Memory.storage.run (Job.removeAll path).run m).value = .ok ()) :
    m.refusal? (.removeAll path) = none := by
  refine refusal?_eq_none fun reason heq => ?_
  rw [Job.run_removeAll, show (Memory.storage.answer _ m).1 = _ from heq] at h
  cases h

theorem run_createAll {path : Path} (h : m.refusal? (.createAll path) = none) :
    Memory.storage.run (Job.createAll path).run m =
      ⟨.ok (), m.addDirectories path, [.createAll path], []⟩ := by
  rw [Job.run_createAll, show Memory.storage.answer _ m = _ from answer_of_refusal? h]
  rfl

theorem of_createAll {path : Path}
    (h : (Memory.storage.run (Job.createAll path).run m).value = .ok ()) :
    m.refusal? (.createAll path) = none := by
  refine refusal?_eq_none fun reason heq => ?_
  rw [Job.run_createAll, show (Memory.storage.answer _ m).1 = _ from heq] at h
  cases h

/-- What writing an entry of a directory does if nothing refuses it. -/
theorem perform_writeText {f : OutputFile} (hchild : f.path.isChildOf directory = true) :
    ∃ parent, m.perform f.request =
      if m.hasDirectory directory = true then
        (.ok (), { m with files := putFile f.path f.contents m.files })
      else (.error (.missing parent), m) := by
  unfold Path.isChildOf at hchild
  split at hchild
  · cases hchild
  · next parent hparent =>
      rw [← hasDirectory_congr hchild]
      exact ⟨parent, by simp only [OutputFile.request, perform, hparent]⟩

/-- An entry of a directory is written if the directory is there and nothing refuses it. -/
theorem run_writeText {f : OutputFile} (hchild : f.path.isChildOf directory = true)
    (hdirectory : m.hasDirectory directory = true) (hrefusal : m.refusal? f.request = none) :
    Memory.storage.run (Job.writeText f.path f.contents).run m =
      ⟨.ok (), { m with files := putFile f.path f.contents m.files }, [f.request], []⟩ := by
  obtain ⟨parent, hperform⟩ := perform_writeText (m := m) hchild
  rw [if_pos hdirectory, ← answer_of_refusal? hrefusal] at hperform
  rw [Job.run_writeText, show Memory.storage.answer (.writeText _ _) m = _ from hperform]
  rfl

/-- An entry of a directory is written only then. -/
theorem of_writeText {f : OutputFile} (hchild : f.path.isChildOf directory = true)
    (h : (Memory.storage.run (Job.writeText f.path f.contents).run m).value = .ok ()) :
    m.hasDirectory directory = true ∧ m.refusal? f.request = none := by
  have hrefusal : m.refusal? f.request = none := by
    refine refusal?_eq_none fun reason heq => ?_
    rw [Job.run_writeText, show (Memory.storage.answer (.writeText _ _) m).1 = _ from heq] at h
    cases h
  obtain ⟨parent, hperform⟩ := perform_writeText (m := m) hchild
  rw [← answer_of_refusal? hrefusal] at hperform
  rw [Job.run_writeText, show Memory.storage.answer (.writeText _ _) m = _ from hperform] at h
  split at h
  · next hdirectory => exact ⟨hdirectory, hrefusal⟩
  · cases h

variable {files : List OutputFile}

/-- When a file has been written, files with other paths are still new. -/
theorem same_eq_false_of_mem_append {f : OutputFile}
    (hf : f.path.components ∉ files.map fun f' => f'.path.components)
    (hnew : ∀ f' ∈ f :: files, ∀ e ∈ m.files, e.1.same f'.path = false) :
    ∀ f' ∈ files, ∀ e ∈ m.files ++ [(f.path, f.contents)], e.1.same f'.path = false := by
  intro f' hf' e he
  rcases List.mem_append.mp he with he | he
  · exact hnew f' (List.mem_cons_of_mem _ hf') e he
  · rw [List.mem_singleton.mp he, Bool.eq_false_iff]
    exact fun hsame => hf (List.mem_map.mpr ⟨f', hf', (Path.same_iff.mp hsame).symm⟩)

/-- **New files are written one behind the other.** -/
theorem run_writeFiles (hchild : ∀ f ∈ files, f.path.isChildOf directory = true)
    (hdistinct : (files.map fun f => f.path.components).Nodup)
    (hnew : ∀ f ∈ files, ∀ e ∈ m.files, e.1.same f.path = false)
    (hdirectory : m.hasDirectory directory = true)
    (hrefusals : ∀ f ∈ files, m.refusal? f.request = none) :
    Memory.storage.run (Generator.writeFiles files).run m =
      ⟨.ok (), { m with files := m.files ++ files.map OutputFile.entry },
        files.map OutputFile.request, []⟩ := by
  induction files generalizing m with
  | nil =>
      rw [List.map_nil, List.append_nil]
      rfl
  | cons f fs ih =>
      obtain ⟨hf, hfs⟩ := List.nodup_cons.mp hdistinct
      have hwrite := run_writeText (hchild f List.mem_cons_self) hdirectory
        (hrefusals f List.mem_cons_self)
      rw [putFile_of_new (hnew f List.mem_cons_self)] at hwrite
      have hrest := ih (m := { m with files := m.files ++ [(f.path, f.contents)] })
        (fun f' hf' => hchild f' (List.mem_cons_of_mem _ hf')) hfs
        (same_eq_false_of_mem_append hf hnew) hdirectory
        (fun f' hf' => hrefusals f' (List.mem_cons_of_mem _ hf'))
      rw [Generator.writeFiles, Job.run_bind, hwrite]
      simp only [hrest, Run.followedBy, List.map_cons, List.append_assoc, List.singleton_append,
        OutputFile.entry, List.nil_append]

/-- Files that have been written have not been refused. -/
theorem of_writeFiles (hchild : ∀ f ∈ files, f.path.isChildOf directory = true)
    (h : (Memory.storage.run (Generator.writeFiles files).run m).value = .ok ()) :
    ∀ f ∈ files, m.hasDirectory directory = true ∧ m.refusal? f.request = none := by
  induction files generalizing m with
  | nil => exact fun f hf => by cases hf
  | cons f fs ih =>
      rw [Generator.writeFiles] at h
      obtain ⟨done, hfirst, hrest⟩ := Job.value_bind_eq_ok.mp h
      obtain ⟨hdirectory, hrefusal⟩ := of_writeText (hchild f List.mem_cons_self) hfirst
      rw [run_writeText (hchild f List.mem_cons_self) hdirectory hrefusal] at hrest
      have hothers := ih (fun f' hf' => hchild f' (List.mem_cons_of_mem _ hf')) hrest
      intro f' hf'
      rcases List.mem_cons.mp hf' with rfl | hf'
      · exact ⟨hdirectory, hrefusal⟩
      · exact hothers f' hf'

/-! ### Replacing the output directory -/

/-- What it takes to replace a directory by one with some files: it has a path, and no request is
refused. -/
structure Admits (m : Memory) (directory : Path) (files : List OutputFile) : Prop where
  text_ne : directory.text ≠ ""
  removeAll : m.refusal? (.removeAll directory) = none
  createAll : m.refusal? (.createAll directory) = none
  writeText : ∀ f ∈ files, m.refusal? f.request = none

/-- In what order the files are written does not matter. -/
theorem Admits.perm {order : List OutputFile} (h : m.Admits directory files)
    (horder : order.Perm files) : m.Admits directory order :=
  ⟨h.text_ne, h.removeAll, h.createAll, fun f hf => h.writeText f (horder.mem_iff.mp hf)⟩

/-- A directory that has been replaced holds the files, whatever order they are in. -/
theorem replaced_replace {order : List OutputFile} (horder : order.Perm files)
    (hbelow : ∀ f ∈ files, f.path.startsWith directory = true)
    (hdistinct : (files.map fun f => f.path.components).Nodup) :
    m.Replaced (m.replace directory (order.map OutputFile.entry)) directory files := by
  have hentries : ∀ e ∈ order.map OutputFile.entry, e.1.startsWith directory = true := by
    intro e he
    obtain ⟨f, hf, rfl⟩ := List.mem_map.mp he
    exact hbelow f (horder.mem_iff.mp hf)
  refine ⟨?_, files_outside_replace hentries, fun path => ?_⟩
  · rw [filesBelow_replace hentries]
    exact horder.map _
  · -- there is at most one file at the path, so the order does not decide which is found
    have hone : {f ∈ order | f.path.same path = true}.Subsingleton := by
      rintro f ⟨hf, hsame⟩ f' ⟨hf', hsame'⟩
      have hsteps := (Path.same_iff.mp hsame).trans (Path.same_iff.mp hsame').symm
      exact List.inj_on_of_nodup_map hdistinct (horder.mem_iff.mp hf) (horder.mem_iff.mp hf')
        hsteps
    rw [text?_replace hentries, List.find?_map, Option.map_map,
      ← List.find?_eq_find?_of_perm horder hone]
    rfl

/-- What is put below a directory that has been removed is new. -/
theorem same_eq_false_of_mem_remove {path : Path} (hpath : path.startsWith directory = true)
    {e : Path × String} (he : e ∈ (m.remove directory).files) : e.1.same path = false := by
  have hkept := (List.mem_filter.mp he).2
  rw [Bool.eq_false_iff]
  intro hsame
  rw [Path.startsWith_trans (Path.startsWith_of_same hsame) hpath] at hkept
  cases hkept

end Memory

namespace Generator

variable {g : Generator} {m : Memory} {files : List OutputFile}

/-- Noting what is about to be done changes nothing. -/
theorem storage_tell (level : Level) (text : String) (m : Memory) :
    (Memory.storage.run (Job.tell level text).run m).storage = m :=
  rfl

/-- **The output directory is replaced** by one with the files, in the order in which they have
been written. -/
theorem run_write (hchild : ∀ f ∈ files, f.path.isChildOf g.outputDir = true)
    (hdistinct : (files.map fun f => f.path.components).Nodup)
    (h : m.Admits g.outputDir files) :
    Memory.storage.run (g.write files).run m =
      ⟨.ok (), m.replace g.outputDir (files.map OutputFile.entry),
        .removeAll g.outputDir :: .createAll g.outputDir :: files.map OutputFile.request,
        [⟨.debug, "Resetting " ++ g.outputDir.text⟩]⟩ := by
  have hdirectory := (m.hasDirectory_recreated g.outputDir).mpr h.text_ne
  have hcreate : (m.remove g.outputDir).refusal? (.createAll g.outputDir) = none := h.createAll
  have hcreated := Memory.run_createAll hcreate
  rw [Memory.addDirectories_eq] at hdirectory hcreated
  have hwritten := Memory.run_writeFiles (m := { m.remove g.outputDir with
      directories := ((m.remove g.outputDir).addDirectories g.outputDir).directories })
    hchild hdistinct
    (fun f hf e he => Memory.same_eq_false_of_mem_remove
      (Path.startsWith_of_isChildOf (hchild f hf)) he)
    hdirectory h.writeText
  have htold : Memory.storage.run
      (Job.tell .debug ("Resetting " ++ g.outputDir.text)).run m =
        ⟨.ok (), m, [], [⟨.debug, "Resetting " ++ g.outputDir.text⟩]⟩ := rfl
  rw [write, Job.run_bind, htold]
  simp only [Job.run_bind, Memory.run_removeAll h.removeAll, hcreated, hwritten]
  rfl

/-- What has been written has been admitted. -/
theorem admits_of_write (hne : files ≠ [])
    (hchild : ∀ f ∈ files, f.path.isChildOf g.outputDir = true)
    (h : (Memory.storage.run (g.write files).run m).value = .ok ()) :
    m.Admits g.outputDir files := by
  rw [write] at h
  obtain ⟨_, _, htold⟩ := Job.value_bind_eq_ok.mp h
  rw [storage_tell] at htold
  obtain ⟨_, hremoved, hrest⟩ := Job.value_bind_eq_ok.mp htold
  have hremove := Memory.of_removeAll hremoved
  rw [Memory.run_removeAll hremove] at hrest
  obtain ⟨_, hcreated, hwritten⟩ := Job.value_bind_eq_ok.mp hrest
  have hcreate := Memory.of_createAll hcreated
  rw [Memory.run_createAll hcreate] at hwritten
  have hfiles := Memory.of_writeFiles hchild hwritten
  obtain ⟨f, hf⟩ := List.exists_mem_of_ne_nil files hne
  rw [Memory.addDirectories_eq] at hfiles
  refine ⟨?_, hremove, hcreate, fun f hf => (hfiles f hf).2⟩
  exact (m.hasDirectory_recreated g.outputDir).mp (hfiles f hf).1

end Generator

namespace Compilation

variable {g : Generator} {oracle : (r : Request) → r.Answer} {limit : Nat} {catalog : Catalog}
  (c : Compilation g oracle limit catalog)
include c

/-- The files are entries of the output directory. -/
theorem isChildOf_of_mem_files (hvalid : g.settings.IsValid) :
    ∀ f ∈ catalog.files, f.path.isChildOf g.outputDir = true := by
  intro f hf
  obtain ⟨name, hname, hpath⟩ := List.mem_map.mp
    (c.perm_paths.mem_iff.mp (List.mem_map_of_mem hf))
  rw [← hpath]
  exact Path.isChildOf_join g.outputDir (isPlain_fileName (c.slash_not_mem_names hvalid name hname))

theorem length_files : catalog.files.length = g.settings.languages.length + 2 := by
  have hlength := c.perm_paths.length_eq
  simpa [names] using hlength

theorem files_ne_nil : catalog.files ≠ [] := by
  intro hnil
  have hlength := c.length_files
  rw [hnil] at hlength
  cases hlength

end Compilation

namespace Generator

variable {g : Generator} {m : Memory} {limit : Nat} {report : Report}

/-- Compiling leaves the storage as it is. -/
theorem storage_compile (g : Generator) (limit : Nat) (m : Memory) :
    (Memory.storage.run (g.compile limit).run m).storage = m :=
  (Memory.storage.run_of_reads (g.reads_compile limit) m).1

/-- A run that can write its catalog succeeds. -/
theorem run_of_admits (hvalid : g.settings.IsValid) {catalog : Catalog}
    (hcatalog : (Memory.storage.run (g.compile limit).run m).value = .ok catalog)
    (hadmits : m.Admits g.outputDir catalog.files) :
    let running := Memory.storage.run (g.run limit false).run m
    running.value = .ok ⟨catalog.languages, catalog.files.map OutputFile.path, true⟩ ∧
      running.storage = m.replace g.outputDir (catalog.files.map OutputFile.entry) := by
  intro running
  obtain ⟨c⟩ := exists_compilation_of_run hcatalog
  have hwrite := run_write (c.isChildOf_of_mem_files hvalid) (c.nodup_paths hvalid) hadmits
  have hconclude : Memory.storage.run (g.conclude false catalog).run m = _ :=
    Job.run_bind Memory.storage (g.write catalog.files) _ m
  have hrun : running = _ := g.run_of_compile_ok Memory.storage hcatalog false
  rw [storage_compile, hconclude, hwrite] at hrun
  rw [hrun]
  exact ⟨rfl, rfl⟩

/-- **A run that succeeds** has compiled a catalog and could write it. -/
theorem exists_catalog_of_run (hvalid : g.settings.IsValid)
    (h : (Memory.storage.run (g.run limit false).run m).value = .ok report) :
    ∃ catalog, (Memory.storage.run (g.compile limit).run m).value = .ok catalog ∧
      m.Admits g.outputDir catalog.files := by
  rw [run_eq] at h
  obtain ⟨catalog, hcatalog, hconcluded⟩ := Job.value_bind_eq_ok.mp h
  rw [storage_compile] at hconcluded
  obtain ⟨c⟩ := exists_compilation_of_run hcatalog
  obtain ⟨_, hwritten, -⟩ := Job.value_bind_eq_ok.mp
    (show (Memory.storage.run (g.write catalog.files >>= fun _ => _).run m).value = .ok report from
      hconcluded)
  exact ⟨catalog, hcatalog,
    admits_of_write c.files_ne_nil (c.isChildOf_of_mem_files hvalid) hwritten⟩

/-- **A successful run leaves the catalog that it has compiled**, whatever order the files are
written in.  The catalog has a file for each language and two that they share, under pairwise
distinct paths right in the output directory, and the run reports these.  In any order the files can
be written, and then they are what is below the output directory, while all other files are as they
were. -/
theorem run_leaves_catalog (hvalid : g.settings.IsValid)
    (h : (Memory.storage.run (g.run limit false).run m).value = .ok report) :
    let compiling := Memory.storage.run (g.compile limit).run m
    ∃ catalog, compiling.value = .ok catalog ∧
      catalog.files.length = g.settings.languages.length + 2 ∧
      (catalog.files.map OutputFile.path).Perm
        ((g.settings.languages.map LanguageEntry.shortcode ++
          [Module.sectionsModule, Module.languageModule]).map g.outputPath) ∧
      (catalog.files.map fun f => f.path.components).Nodup ∧
      (∀ f ∈ catalog.files, f.path.isChildOf g.outputDir = true) ∧
      report = ⟨catalog.languages, catalog.files.map OutputFile.path, true⟩ ∧
      (Memory.storage.run (g.run limit false).run m).storage =
        (Memory.storage.run (g.write catalog.files).run compiling.storage).storage ∧
      ∀ order : List OutputFile, order.Perm catalog.files →
        let writing := Memory.storage.run (g.write order).run compiling.storage
        writing.value = .ok () ∧ m.Replaced writing.storage g.outputDir catalog.files := by
  intro compiling
  obtain ⟨catalog, hcatalog, hadmits⟩ := exists_catalog_of_run hvalid h
  obtain ⟨hreport, hstorage⟩ := run_of_admits hvalid hcatalog hadmits
  obtain ⟨c⟩ := exists_compilation_of_run hcatalog
  have hkept : compiling.storage = m := storage_compile g limit m
  have hchild := c.isChildOf_of_mem_files hvalid
  have hdistinct := c.nodup_paths hvalid
  refine ⟨catalog, hcatalog, c.length_files, c.perm_paths, hdistinct, hchild,
    Except.ok.inj (h.symm.trans hreport), ?_, ?_⟩
  · rw [hstorage, hkept, run_write hchild hdistinct hadmits]
  · intro order horder
    have hwrite := run_write (fun f hf => hchild f (horder.mem_iff.mp hf))
      ((horder.map _).nodup_iff.mpr hdistinct) (hadmits.perm horder)
    rw [hkept, hwrite]
    exact ⟨rfl, Memory.replaced_replace horder
      (fun f hf => Path.startsWith_of_isChildOf (hchild f hf)) hdistinct⟩

end Generator

namespace Sample

/-- The storage of the small project with old output, some of it in a directory of its own. -/
def used : Memory where
  directories := memory.directories ++ [⟨"o"⟩, ⟨"o/old"⟩]
  files := memory.files ++ [(⟨"o/en.ts"⟩, "old"), (⟨"o/old/gone.ts"⟩, "old")]
  refusals := []

theorem exists_report :
    ∃ report, (Memory.storage.run (generator.run 5 false).run used).value = .ok report :=
  exists_of_isOk (by decide +kernel)

end Sample

/-- The small project replaces its old output, in any order. -/
theorem Generator.sample_leaves_catalog :
    ∃ (catalog : Catalog) (report : Report),
      (Memory.storage.run (Sample.generator.run 5 false).run Sample.used).value = .ok report ∧
      catalog.files.length = 5 ∧
      report.files = catalog.files.map OutputFile.path ∧
      ∀ order : List OutputFile, order.Perm catalog.files →
        Sample.used.Replaced (Memory.storage.run (Sample.generator.write order).run
          (Memory.storage.run (Sample.generator.compile 5).run Sample.used).storage).storage
          ⟨"o"⟩ catalog.files := by
  obtain ⟨report, hreport⟩ := Sample.exists_report
  obtain ⟨catalog, -, hlength, -, -, -, rfl, -, horders⟩ :=
    run_leaves_catalog Sample.settings_isValid hreport
  exact ⟨catalog, _, hreport, hlength, rfl, fun order horder => (horders order horder).2⟩

end Phrasebook
