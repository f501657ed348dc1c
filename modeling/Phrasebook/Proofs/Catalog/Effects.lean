import Phrasebook.Proofs.Catalog.Job

/-!
# Proofs — Catalog — Effects

What a run does to the storage.  Compiling only reads (`reads_compile`), so that a run that does
not get beyond it has changed nothing; a run that does replaces the output directory, step by step,
and each step is asked for only if those before it have succeeded (`Replaces`).  `run_effects` puts
the two together and compares a dry run with one that writes.
-/

namespace Phrasebook

variable {σ κ : Type}

/-- The request that writes a file. -/
def OutputFile.request (f : OutputFile) : Request :=
  .writeText f.path f.contents

/-- The requests, from a state of the storage on, that replace a directory by one with some files:
it is removed, then created anew, then the files are written in order.  They end at the first that
does not succeed. -/
def Replaces (S : Storage σ κ) (directory : Path) (files : List OutputFile) (s : σ)
    (requests : List Request) : Prop :=
  match S.answer (.removeAll directory) s with
  | (.error _, _) => requests = [.removeAll directory]
  | (.ok _, removed) =>
      match S.answer (.createAll directory) removed with
      | (.error _, _) => requests = [.removeAll directory, .createAll directory]
      | (.ok _, _) =>
          ∃ written, written <+: files ∧
            requests = .removeAll directory :: .createAll directory ::
              written.map OutputFile.request

/-! ### Compiling reads -/

namespace Walk

variable (w : Walk)

theorem reads_file (directory : Path) (id : Section.Identity) (name : String) :
    (w.file directory id name).Reads := by
  unfold file
  split
  · exact Job.reads_bind (Job.reads_ofExcept _) fun _ =>
      Job.reads_bind (Job.reads_readText _) fun _ =>
        Job.reads_bind (Job.reads_ofExcept _) fun _ => Job.reads_pure _
  · exact Job.reads_bind (Job.reads_tell _ _) fun _ => Job.reads_pure _

theorem reads_directory :
    ∀ (limit : Nat) (path : Path) (id : Section.Identity), (w.directory limit path id).Reads
  | 0, _, _ => Job.reads_fail _
  | limit + 1, path, id =>
      Job.reads_bind (Job.reads_listDirectories path) fun _ =>
        Job.reads_bind
          (Job.reads_collect (fun _ => Job.reads_bind (Job.reads_ofExcept _) fun _ =>
            reads_directory limit _ _) _) fun _ =>
          Job.reads_bind (Job.reads_listFiles path) fun _ =>
            Job.reads_bind (Job.reads_collect (w.reads_file path id) _) fun _ => Job.reads_pure _

theorem reads_load (limit : Nat) (root : Path) (start : Section.Identity) :
    (w.load limit root start).Reads :=
  Job.reads_bind (Job.reads_tell _ _) fun _ =>
    Job.reads_bind (w.reads_directory limit root start) fun files => by
      cases w.duplicate? files with
      | some fault => exact Job.reads_fail fault
      | none => exact Job.reads_bind (Job.reads_tell _ _) fun _ => Job.reads_pure files

end Walk

namespace Generator

variable (g : Generator)

theorem reads_sections (limit : Nat) (l : Language) : (g.sections limit l).Reads := by
  refine Job.reads_bind (Job.reads_directoryExists _) fun found => ?_
  split
  · exact Walk.reads_load _ limit _ _
  · split
    · exact Job.reads_fail _
    · exact Job.reads_bind (Job.reads_tell _ _) fun _ => Job.reads_pure _

theorem reads_assembly (limit : Nat) (base : Option BaseCatalog) (l : Language) :
    (g.assembly limit base l).Reads :=
  Job.reads_bind (Job.reads_tell _ _) fun _ =>
    Job.reads_bind (g.reads_sections limit l) fun _ =>
      Job.reads_bind (Job.reads_ofExcept _) fun start => start.asks_addEach _ _

theorem reads_assemblies (limit : Nat) :
    ∀ (base : Option BaseCatalog) (ls : List Language), (g.assemblies limit base ls).Reads
  | _, [] => Job.reads_pure []
  | base, l :: ls =>
      Job.reads_bind (g.reads_assembly limit base l) fun _ =>
        Job.reads_bind (reads_assemblies limit _ ls) fun _ => Job.reads_pure _

/-- **Compiling reads.**  Whatever it is answered, it asks for nothing that changes the storage. -/
theorem reads_compile (limit : Nat) : (g.compile limit).Reads :=
  Job.reads_bind (Job.reads_ofExcept _) fun _ =>
    Job.reads_bind (g.reads_assemblies limit _ _) fun _ => Job.reads_pure _

/-! ### Replacing the output directory -/

/-- Files are written in order up to the first that the storage refuses. -/
theorem requests_writeFiles (S : Storage σ κ) (files : List OutputFile) (s : σ) :
    ∃ written, written <+: files ∧
      (S.run (writeFiles files).run s).requests = written.map OutputFile.request := by
  induction files generalizing s with
  | nil => exact ⟨[], List.nil_prefix, rfl⟩
  | cons f fs ih =>
      obtain ⟨written, hprefix, hrequests⟩ := ih (S.answer f.request s).2
      have hrun := Job.requests_bind S (Job.writeText f.path f.contents) (fun _ => writeFiles fs) s
      rw [Job.run_writeText] at hrun
      cases hanswer : (S.answer f.request s).1 with
      | error e =>
          -- a file that is refused is the last one that has been asked for
          refine ⟨[f], by simp, hrun.trans ?_⟩
          simp only [OutputFile.request] at hanswer
          rw [hanswer]
          rfl
      | ok done =>
          refine ⟨f :: written, List.cons_prefix_cons.mpr ⟨rfl, hprefix⟩, hrun.trans ?_⟩
          simp only [OutputFile.request] at hanswer hrequests
          rw [hanswer]
          exact congrArg (f.request :: ·) hrequests

/-- **Replacing the output directory**, one step after the other. -/
theorem replaces_write (S : Storage σ κ) (files : List OutputFile) (s : σ) :
    Replaces S g.outputDir files s (S.run (g.write files).run s).requests := by
  have hwrite : (S.run (g.write files).run s).requests = _ :=
    Job.requests_bind S (Job.removeAll g.outputDir)
      (fun _ => Job.createAll g.outputDir >>= fun _ => writeFiles files) s
  rw [Job.run_removeAll] at hwrite
  unfold Replaces
  cases hanswer : S.answer (.removeAll g.outputDir) s with
  | mk reply removed =>
      rw [hanswer] at hwrite
      cases reply with
      | error e => exact hwrite
      | ok _ =>
          have hcreate := Job.requests_bind S (Job.createAll g.outputDir)
            (fun _ => writeFiles files) removed
          rw [Job.run_createAll] at hcreate
          have hremoved : (S.run (g.write files).run s).requests = .removeAll g.outputDir ::
              (S.run (Job.createAll g.outputDir >>= fun _ => writeFiles files).run
                removed).requests := hwrite
          simp only [hremoved]
          cases hanswer' : S.answer (.createAll g.outputDir) removed with
          | mk reply created =>
              rw [hanswer'] at hcreate
              cases reply with
              | error e => exact congrArg (Request.removeAll g.outputDir :: ·) hcreate
              | ok _ =>
                  obtain ⟨written, hprefix, hrequests⟩ := requests_writeFiles S files created
                  refine ⟨written, hprefix, congrArg (Request.removeAll g.outputDir :: ·) ?_⟩
                  rw [← hrequests]
                  exact hcreate

/-! ### Whole runs -/

/-- What a run does with the catalog that it has compiled. -/
def conclude (dryRun : Bool) (catalog : Catalog) : Job Report := do
  if dryRun then
    Job.tell .info "Dry run, nothing written"
  else
    g.write catalog.files
    Job.tell .info ("Catalog generated in " ++ g.outputDir.text)
  return ⟨catalog.languages, catalog.files.map OutputFile.path, !dryRun⟩

theorem run_eq (limit : Nat) (dryRun : Bool) :
    g.run limit dryRun = g.compile limit >>= g.conclude dryRun :=
  rfl

/-- **A run that cannot compile** ends with the same fault, and has asked for nothing else. -/
theorem run_of_compile_error (S : Storage σ κ) {limit : Nat} {s : σ} {e : CatalogFault}
    (h : (S.run (g.compile limit).run s).value = .error e) (dryRun : Bool) :
    S.run (g.run limit dryRun).run s = Job.failed (S.run (g.compile limit).run s) e := by
  rw [run_eq, Job.run_bind, h]

theorem run_of_compile_ok (S : Storage σ κ) {limit : Nat} {s : σ} {catalog : Catalog}
    (h : (S.run (g.compile limit).run s).value = .ok catalog) (dryRun : Bool) :
    S.run (g.run limit dryRun).run s =
      (S.run (g.compile limit).run s).followedBy
        (S.run (g.conclude dryRun catalog).run (S.run (g.compile limit).run s).storage) := by
  rw [run_eq, Job.run_bind, h]

/-- A dry run asks for nothing when it has compiled, and always has a report. -/
theorem run_conclude_dry (S : Storage σ κ) (catalog : Catalog) (s : σ) :
    S.run (g.conclude true catalog).run s =
      ⟨.ok ⟨catalog.languages, catalog.files.map OutputFile.path, false⟩, s, [],
        [⟨.info, "Dry run, nothing written"⟩]⟩ :=
  rfl

/-- Behind the requests that write the catalog there are no others. -/
theorem requests_conclude_write (S : Storage σ κ) (catalog : Catalog) (s : σ) :
    (S.run (g.conclude false catalog).run s).requests =
      (S.run (g.write catalog.files).run s).requests := by
  refine (Job.requests_bind S (g.write catalog.files) _ s).trans ?_
  cases (S.run (g.write catalog.files).run s).value <;> exact List.append_nil _

theorem value_conclude_write (S : Storage σ κ) {catalog : Catalog} {s : σ} {report : Report}
    (h : (S.run (g.conclude false catalog).run s).value = .ok report) :
    report = ⟨catalog.languages, catalog.files.map OutputFile.path, true⟩ := by
  rw [show (S.run (g.conclude false catalog).run s).value = _ from
    Job.value_bind S (g.write catalog.files) _ s] at h
  cases hvalue : (S.run (g.write catalog.files).run s).value with
  | error e => rw [hvalue] at h; cases h
  | ok _ => rw [hvalue] at h; exact (Except.ok.inj h).symm

/-- **Nothing changes unless all languages compile, and a dry run predicts the real one.**
Compiling only reads, and a dry run asks for just what compiling asks for.  If compiling fails, so
do both runs, with the same fault, no further request and the contents as they were.  If it
succeeds, the dry run reports what a run that writes reports; that run asks for the replacement of
the output directory and nothing else. -/
theorem run_effects (S : Storage σ κ) (limit : Nat) (s : σ) :
    let compiling := S.run (g.compile limit).run s
    let dry := S.run (g.run limit true).run s
    let writing := S.run (g.run limit false).run s
    (∀ r ∈ compiling.requests, r.isRead = true) ∧
      dry.requests = compiling.requests ∧
      S.contents dry.storage = S.contents s ∧
      match compiling.value with
      | .error e =>
          dry.value = .error e ∧ writing.value = .error e ∧
            writing.requests = compiling.requests ∧ S.contents writing.storage = S.contents s
      | .ok catalog =>
          ∃ report, dry.value = .ok report ∧
            (∀ report', writing.value = .ok report' →
              report'.languages = report.languages ∧ report'.files = report.files) ∧
            ∃ after, writing.requests = compiling.requests ++ after ∧
              Replaces S g.outputDir catalog.files compiling.storage after := by
  intro compiling dry writing
  obtain ⟨hcontents, -⟩ := S.run_of_reads (g.reads_compile limit) s
  refine ⟨(g.reads_compile limit).mem_requests s, ?_⟩
  cases hvalue : compiling.value with
  | error e =>
      have hdry : dry = Job.failed compiling e := g.run_of_compile_error S hvalue true
      have hwriting : writing = Job.failed compiling e := g.run_of_compile_error S hvalue false
      rw [hdry, hwriting]
      exact ⟨rfl, hcontents, rfl, rfl, rfl, hcontents⟩
  | ok catalog =>
      have hdry := g.run_of_compile_ok S hvalue true
      have hwriting : writing = _ := g.run_of_compile_ok S hvalue false
      rw [run_conclude_dry] at hdry
      rw [show dry = _ from hdry, hwriting]
      refine ⟨List.append_nil _, hcontents, _, rfl, fun report' hreport => ?_, _, rfl, ?_⟩
      · rw [g.value_conclude_write S hreport]
        exact ⟨rfl, rfl⟩
      · rw [requests_conclude_write]
        exact g.replaces_write S catalog.files _

end Generator

end Phrasebook
