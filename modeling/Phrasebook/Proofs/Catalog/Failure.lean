import Phrasebook.Proofs.Catalog.Output

/-!
# Proofs — Catalog — Failure

What a failing run leaves in memory.  As long as the output directory has not been removed, nothing
has changed: compiling only reads, and a removal that is refused removes nothing.  From then on the
previous output is gone.  Creating the directory and each of the writes can still fail, and then
the directory holds the files that have been written so far and no others (`Memory.BrokenOff`);
`run_failure` says which of the two it is.
-/

namespace Phrasebook

/-- What a memory is like when a directory of it was to be replaced by one with some files, and this
has ended with a fault behind the removal.  The fault is about one of the files, or about the
directory itself before the first; below the directory there are just the files before that one,
and all other files are as they were. -/
structure Memory.BrokenOff (before after : Memory) (directory : Path) (files : List OutputFile)
    (e : CatalogFault) : Prop where
  below : ∃ written f rest error, files = written ++ f :: rest ∧
    (e = .storage f.path error ∨ written = [] ∧ e = .storage directory error) ∧
    after.filesBelow directory = written.map OutputFile.entry
  outside : (after.files.filter fun f => !f.1.startsWith directory) =
    before.files.filter fun f => !f.1.startsWith directory

namespace Memory

variable {m : Memory} {directory : Path} {files : List OutputFile} {e : CatalogFault}

/-- A replacement that ends when some files have been written. -/
theorem brokenOff_of_files {after : Memory} {written rest : List OutputFile} {f : OutputFile}
    {error : StorageError} (hfiles : files = written ++ f :: rest)
    (he : e = .storage f.path error ∨ written = [] ∧ e = .storage directory error)
    (hbelow : ∀ f ∈ files, f.path.startsWith directory = true)
    (hafter : after.files = (m.remove directory).files ++ written.map OutputFile.entry) :
    m.BrokenOff after directory files e := by
  have hentries : ∀ e ∈ written.map OutputFile.entry, e.1.startsWith directory = true := by
    intro e he
    obtain ⟨f, hf, rfl⟩ := List.mem_map.mp he
    exact hbelow f (hfiles ▸ List.mem_append_left _ hf)
  -- the files are those of a memory in which the directory is replaced by the written ones
  have hreplace : after.files = (m.replace directory (written.map OutputFile.entry)).files := hafter
  refine ⟨⟨written, f, rest, error, hfiles, he, ?_⟩, ?_⟩
  · rw [← filesBelow_replace (m := m) hentries, filesBelow, filesBelow, hreplace]
  · rw [hreplace, files_outside_replace hentries]

/-! ### Requests that fail -/

/-- A request that is refused changes nothing. -/
theorem answer_of_refused {r : Request} {reason : String} (h : m.refusal? r = some reason) :
    answer r m = (r.fail (.refused reason), m) := by
  simp only [answer, h]

theorem run_removeAll_refused {path : Path} {reason : String}
    (h : m.refusal? (.removeAll path) = some reason) :
    storage.run (Job.removeAll path).run m =
      ⟨.error (.storage path (.refused reason)), m, [.removeAll path], []⟩ := by
  rw [Job.run_removeAll, show storage.answer _ m = _ from answer_of_refused h]
  rfl

theorem run_createAll_refused {path : Path} {reason : String}
    (h : m.refusal? (.createAll path) = some reason) :
    storage.run (Job.createAll path).run m =
      ⟨.error (.storage path (.refused reason)), m, [.createAll path], []⟩ := by
  rw [Job.run_createAll, show storage.answer _ m = _ from answer_of_refused h]
  rfl

/-- A write that fails, fails for its file and changes nothing. -/
theorem run_writeText_error {f : OutputFile} (hchild : f.path.isChildOf directory = true)
    (h : (storage.run (Job.writeText f.path f.contents).run m).value = .error e) :
    (∃ error, e = .storage f.path error) ∧
      (storage.run (Job.writeText f.path f.contents).run m).storage = m := by
  cases hrefusal : m.refusal? f.request with
  | some reason =>
      rw [Job.run_writeText,
        show storage.answer (.writeText _ _) m = _ from answer_of_refused hrefusal] at h ⊢
      cases h
      exact ⟨⟨_, rfl⟩, rfl⟩
  | none =>
      obtain ⟨parent, hperform⟩ := perform_writeText (m := m) hchild
      rw [← answer_of_refusal? hrefusal] at hperform
      rw [Job.run_writeText, show storage.answer (.writeText _ _) m = _ from hperform] at h ⊢
      split at h
      · cases h
      · next hdirectory =>
          cases h
          rw [if_neg hdirectory]
          exact ⟨⟨_, rfl⟩, rfl⟩

/-- **New files are written up to the first that fails.** -/
theorem of_writeFiles_error (hchild : ∀ f ∈ files, f.path.isChildOf directory = true)
    (hdistinct : (files.map fun f => f.path.components).Nodup)
    (hnew : ∀ f ∈ files, ∀ e ∈ m.files, e.1.same f.path = false)
    (h : (storage.run (Generator.writeFiles files).run m).value = .error e) :
    ∃ written f rest error, files = written ++ f :: rest ∧ e = .storage f.path error ∧
      (storage.run (Generator.writeFiles files).run m).storage.files =
        m.files ++ written.map OutputFile.entry := by
  induction files generalizing m with
  | nil => cases h
  | cons f fs ih =>
      obtain ⟨hf, hfs⟩ := List.nodup_cons.mp hdistinct
      have hfirst := hchild f List.mem_cons_self
      rw [Generator.writeFiles, Job.run_bind] at h ⊢
      cases hwrite : (storage.run (Job.writeText f.path f.contents).run m).value with
      | error e' =>
          rw [hwrite] at h
          cases h
          obtain ⟨⟨error, he⟩, hstorage⟩ := run_writeText_error hfirst hwrite
          refine ⟨[], f, fs, error, rfl, he, ?_⟩
          simp only [Job.failed, hstorage, List.map_nil, List.append_nil]
      | ok done =>
          obtain ⟨hdirectory, hrefusal⟩ := of_writeText hfirst hwrite
          have hrun := run_writeText hfirst hdirectory hrefusal
          rw [putFile_of_new (hnew f List.mem_cons_self)] at hrun
          rw [hrun] at h ⊢
          obtain ⟨written, f', rest, error, rfl, he, hfiles⟩ := ih
            (fun f' hf' => hchild f' (List.mem_cons_of_mem _ hf')) hfs
            (same_eq_false_of_mem_append hf hnew) h
          refine ⟨f :: written, f', rest, error, rfl, he, hfiles.trans ?_⟩
          rw [List.append_assoc, List.map_cons]
          rfl

end Memory

namespace Generator

variable {g : Generator} {m : Memory} {files : List OutputFile} {limit : Nat} {e : CatalogFault}

/-- What is known of a replacement does not depend on the note that it is about to begin. -/
theorem run_write_followed (g : Generator) (files : List OutputFile) (m : Memory) :
    Memory.storage.run (g.write files).run m =
      (⟨(), m, [], [⟨.debug, "Resetting " ++ g.outputDir.text⟩]⟩ : Run Memory Unit).followedBy
        (Memory.storage.run (Job.removeAll g.outputDir >>= fun _ =>
          Job.createAll g.outputDir >>= fun _ => writeFiles files).run m) :=
  rfl

/-- **Where a replacement of the output directory can fail.**  If it is the removal, nothing has
changed; if it is any step behind that, the previous output is gone. -/
theorem write_failure (hne : files ≠ [])
    (hchild : ∀ f ∈ files, f.path.isChildOf g.outputDir = true)
    (hdistinct : (files.map fun f => f.path.components).Nodup)
    (h : (Memory.storage.run (g.write files).run m).value = .error e) :
    let after := (Memory.storage.run (g.write files).run m).storage
    match m.refusal? (.removeAll g.outputDir) with
    | some reason => e = .storage g.outputDir (.refused reason) ∧ after = m
    | none => m.BrokenOff after g.outputDir files e := by
  have hbelow : ∀ f ∈ files, f.path.startsWith g.outputDir = true := fun f hf =>
    Path.startsWith_of_isChildOf (hchild f hf)
  rw [run_write_followed] at h ⊢
  simp only [Run.followedBy, Job.run_bind] at h ⊢
  cases hremove : m.refusal? (.removeAll g.outputDir) with
  | some reason =>
      simp only [Memory.run_removeAll_refused hremove, Job.failed] at h ⊢
      exact ⟨(Except.error.inj h).symm, trivial⟩
  | none =>
      simp only [Memory.run_removeAll hremove] at h ⊢
      cases hcreate : (m.remove g.outputDir).refusal? (.createAll g.outputDir) with
      | some reason =>
          simp only [Memory.run_createAll_refused hcreate, Job.failed] at h ⊢
          obtain ⟨f, rest, hfiles⟩ := List.exists_cons_of_ne_nil hne
          have hnone : files = [] ++ f :: rest := hfiles
          refine Memory.brokenOff_of_files hnone (.inr ⟨rfl, (Except.error.inj h).symm⟩) hbelow ?_
          rw [List.map_nil, List.append_nil]
      | none =>
          simp only [Memory.run_createAll hcreate] at h ⊢
          have hkept : ((m.remove g.outputDir).addDirectories g.outputDir).files =
              (m.remove g.outputDir).files := by rw [Memory.addDirectories_eq]
          obtain ⟨written, f, rest, error, heq, he, hfiles⟩ :=
            Memory.of_writeFiles_error hchild hdistinct
              (fun f hf e he => Memory.same_eq_false_of_mem_remove (hbelow f hf) (hkept ▸ he)) h
          exact Memory.brokenOff_of_files heq (.inl he) hbelow (hkept ▸ hfiles)

/-- **A failing run leaves either everything as it was or nothing of the previous output.**  A run
that fails before the output directory has been removed, as it does not compile or as the removal
is refused, has changed nothing.  One that fails behind that has removed the previous output, and
below the output directory it leaves the files of the catalog that it has written by then. -/
theorem run_failure (hvalid : g.settings.IsValid)
    (h : (Memory.storage.run (g.run limit false).run m).value = .error e) :
    let after := (Memory.storage.run (g.run limit false).run m).storage
    match (Memory.storage.run (g.compile limit).run m).value,
      m.refusal? (.removeAll g.outputDir) with
    | .error e', _ => e = e' ∧ after = m
    | .ok _, some reason => e = .storage g.outputDir (.refused reason) ∧ after = m
    | .ok catalog, none => m.BrokenOff after g.outputDir catalog.files e := by
  intro after
  cases hcompile : (Memory.storage.run (g.compile limit).run m).value with
  | error e' =>
      have hrun := g.run_of_compile_error Memory.storage hcompile false
      rw [hrun] at h
      exact ⟨(Except.error.inj h).symm,
        (congrArg Run.storage hrun).trans (storage_compile g limit m)⟩
  | ok catalog =>
      obtain ⟨c⟩ := exists_compilation_of_run hcompile
      have hrun := g.run_of_compile_ok Memory.storage hcompile false
      have hconclude : Memory.storage.run (g.conclude false catalog).run m = _ :=
        Job.run_bind Memory.storage (g.write catalog.files) _ m
      rw [storage_compile, hconclude] at hrun
      cases hwrite : (Memory.storage.run (g.write catalog.files).run m).value with
      | ok done =>
          -- what follows the last write cannot fail
          rw [hrun, hwrite] at h
          cases h
      | error e' =>
          rw [hwrite] at hrun
          have hafter : after = (Memory.storage.run (g.write catalog.files).run m).storage :=
            congrArg Run.storage hrun
          rw [hrun] at h
          obtain rfl : e' = e := Except.error.inj h
          have hfailed := write_failure c.files_ne_nil (c.isChildOf_of_mem_files hvalid)
            (c.nodup_paths hvalid) hwrite
          rw [hafter]
          cases hremove : m.refusal? (.removeAll g.outputDir) <;>
            simpa only [hremove] using hfailed

end Generator

/-! ### A run that cannot write all of its files -/

theorem exists_of_isOk_eq_false {ε α : Type} {x : Except ε α} (h : x.isOk = false) :
    ∃ e, x = .error e := by
  cases x with
  | ok a => cases h
  | error e => exact ⟨e, rfl⟩

namespace Sample

/-- The storage of the small project with old output, which refuses to write one of the modules. -/
def full : Memory :=
  { used with refusals := [⟨.writeText, ⟨"o/fr.ts"⟩, "no space left"⟩] }

theorem exists_fault :
    ∃ e, (Memory.storage.run (generator.run 5 false).run full).value = .error e :=
  exists_of_isOk_eq_false (by decide +kernel)

theorem exists_full_catalog :
    ∃ catalog, (Memory.storage.run (generator.compile 5).run full).value = .ok catalog :=
  exists_of_isOk (by decide +kernel)

end Sample

/-- The small project has compiled, but of its output only the files before the refused one are
there. -/
theorem Generator.sample_failure :
    ∃ (catalog : Catalog) (e : CatalogFault),
      (Memory.storage.run (Sample.generator.run 5 false).run Sample.full).value = .error e ∧
      (Memory.storage.run (Sample.generator.compile 5).run Sample.full).value = .ok catalog ∧
      Sample.full.BrokenOff
        (Memory.storage.run (Sample.generator.run 5 false).run Sample.full).storage ⟨"o"⟩
        catalog.files e := by
  obtain ⟨e, he⟩ := Sample.exists_fault
  obtain ⟨catalog, hcatalog⟩ := Sample.exists_full_catalog
  have hfailure := run_failure Sample.settings_isValid he
  rw [hcatalog, show Sample.full.refusal? _ = none from rfl] at hfailure
  exact ⟨catalog, e, he, hcatalog, hfailure⟩

/-- A run that fails has destroyed the previous output. -/
theorem Generator.sample_failure_loses_output :
    Sample.generator.settings.IsValid ∧
      (∃ e, (Memory.storage.run (Sample.generator.run 5 false).run Sample.full).value = .error e) ∧
      (Memory.storage.run (Sample.generator.run 5 false).run Sample.full).storage.filesBelow
          Sample.generator.outputDir ≠
        Sample.full.filesBelow Sample.generator.outputDir :=
  ⟨Sample.settings_isValid, Sample.exists_fault, by decide +kernel⟩

end Phrasebook
