import Phrasebook.Proofs.Catalog.Collisions
import Phrasebook.Proofs.Catalog.Sequence
import Phrasebook.Proofs.Catalog.Shapes
import Phrasebook.Proofs.Catalog.Tables

/-!
# Proofs — Catalog — Duplicates

Duplicates are looked for twice: in a whole tree when it is loaded, and behind what a language has
when a section is added.  Both find the first section that is refused behind those before it
(`Walk.duplicate?_eq`, `Assembly.reports_addAll`); so they find the same, if there is nothing else
to refuse.  What has been loaded is apart, and so no section of it is refused as a duplicate when
it is added (`Assembly.not_isDuplicate_of_addAll`): a compilation that ends with a duplicate has
ended when it loaded a tree (`Generator.exists_sections_of_compile`).
-/

namespace Phrasebook

/-- Says that a key or a name is taken. -/
def CatalogFault.IsDuplicate : CatalogFault → Prop
  | .duplicateSection _ _ _ _ | .duplicateIdentifier _ _ _ _ => True
  | _ => False

/-- What is wrong with the first section that has its key, or its names, in common with one before
it; all sections before it are apart. -/
inductive FirstDuplicate (shortcode : String) (files : List SectionFile) : CatalogFault → Prop where
  | ofKey {earlier later : List SectionFile} {first second : SectionFile}
      (hfiles : files = earlier ++ second :: later)
      (hapart : earlier.Pairwise fun f g => f.identity.Apart g.identity) (hfirst : first ∈ earlier)
      (hkey : first.identity.key = second.identity.key) :
      FirstDuplicate shortcode files
        (.duplicateSection shortcode second.identity.key first.path second.path)
  | ofName {earlier later : List SectionFile} {first second : SectionFile}
      (hfiles : files = earlier ++ second :: later)
      (hapart : earlier.Pairwise fun f g => f.identity.Apart g.identity) (hfirst : first ∈ earlier)
      (hkeys : ∀ f ∈ earlier, f.identity.key ≠ second.identity.key)
      (hname : first.identity.variableName = second.identity.variableName) :
      FirstDuplicate shortcode files
        (.duplicateIdentifier shortcode second.identity.variableName first.path second.path)

/-- The first fault of sections is that of the first duplicate. -/
theorem firstDuplicate_of_firstIdentityFault? {shortcode : String} {files : List SectionFile}
    {fault : CatalogFault} (h : firstIdentityFault? shortcode [] files = some fault) :
    FirstDuplicate shortcode files fault := by
  obtain ⟨earlier, second, later, hfiles, hearlier, hfault⟩ := firstIdentityFault?_eq_some h
  have hapart := (firstIdentityFault?_eq_none.mp hearlier).2
  rw [List.nil_append] at hfault
  have hall := hfault
  unfold identityFault? at hfault
  cases hkey : (earlier.map fun g => (g.identity, g.path)).find? fun s =>
      s.1.key == second.identity.key with
  | some found =>
      obtain ⟨first, hfirst, rfl⟩ := List.mem_map.mp (List.mem_of_find?_eq_some hkey)
      have hsame : first.identity.key = second.identity.key :=
        beq_iff_eq.mp (List.find?_some hkey :)
      rw [hkey] at hfault
      obtain rfl := Option.some.inj hfault
      exact .ofKey hfiles hapart hfirst hsame
  | none =>
      have hkeys : ∀ f ∈ earlier, f.identity.key ≠ second.identity.key := fun f hf heq =>
        List.find?_eq_none.mp hkey _ (List.mem_map_of_mem hf) (beq_iff_eq.mpr heq)
      obtain ⟨name, place, rfl⟩ : ∃ name place,
          fault = .duplicateIdentifier shortcode name place second.path := by
        simp only [hkey] at hfault
        split at hfault
        · exact ⟨_, _, (Option.some.inj hfault).symm⟩
        · obtain ⟨found, -, rfl⟩ := Option.map_eq_some_iff.mp hfault
          exact ⟨_, _, rfl⟩
      obtain ⟨rfl, -, found, hfound, rfl, hname⟩ := eq_of_identityFault? hall
      obtain ⟨first, hfirst, rfl⟩ := List.mem_map.mp hfound
      exact .ofName hfiles hapart hfirst hkeys hname.symm

/-! ### Adding -/

namespace Assembly

/-- Where there is nothing to fit in with, sections of sound templates are added unless one of them
is refused behind those before it. -/
theorem reports_addAll {a : Assembly} (hbase : a.base = none) {files : List SectionFile}
    (hsound : ∀ f ∈ files, ∃ tree, Syntax.Tree.ofPayload? f.payload = .ok tree) :
    Reports (firstIdentityFault? a.language.shortcode a.taken files).toList (a.addAll files) := by
  induction files generalizing a with
  | nil => exact rfl
  | cons f fs ih =>
      obtain ⟨⟨tree, htree⟩, hrest⟩ := List.forall_mem_cons.mp hsound
      rw [firstIdentityFault?, addAll]
      cases hfault : identityFault? a.language.shortcode a.taken f.identity f.path with
      | some found =>
          have hadd : a.add f = .error found := by simp only [add, hfault]
          rw [hadd]
          exact rfl
      | none =>
          have hfits : a.baseFault? f.identity.key tree.interface = none := by
            simp only [baseFault?, hbase]
          rw [add_eq hfault htree, hfits]
          have hnext := ih (a := { a with accepted := a.accepted ++
            [⟨⟨f.identity, tree.value, tree.interface, tree.interpolates⟩, f.path⟩] }) hbase hrest
          rwa [taken_concat] at hnext

/-- **What is apart is not refused as a duplicate.** -/
theorem not_isDuplicate_of_addAll {a : Assembly} {files : List SectionFile} {fault : CatalogFault}
    (hbehind : ∀ t ∈ a.taken, ∀ f ∈ files, t.1.Apart f.identity)
    (hapart : files.Pairwise fun f g => f.identity.Apart g.identity)
    (h : a.addAll files = .error fault) : ¬ fault.IsDuplicate := by
  induction files generalizing a with
  | nil => cases h
  | cons f fs ih =>
      obtain ⟨hfirst, hrest⟩ := List.pairwise_cons.mp hapart
      rw [addAll] at h
      split at h
      · next found hadd =>
          obtain rfl := Except.error.inj h
          rcases add_eq_error hadd with hidentity | ⟨problem, rfl⟩ | rfl | rfl
          · have hfree := fun t ht => hbehind t ht f List.mem_cons_self
            rw [identityFault?_eq_none.mpr hfree] at hidentity
            cases hidentity
          · exact id
          · exact id
          · exact id
      · next next hadd =>
          obtain ⟨-, s, ⟨tree, -, rfl⟩, -, rfl⟩ := add_eq_ok_iff.mp hadd
          refine ih ?_ hrest h
          rw [taken_concat, List.forall_mem_append, List.forall_mem_singleton]
          exact ⟨fun t ht g hg => hbehind t ht g (List.mem_cons_of_mem _ hg), hfirst⟩

end Assembly

/-! ### Compiling -/

namespace Generator

variable {g : Generator} {oracle : (r : Request) → r.Answer} {limit : Nat} {l : Language}
  {files : List SectionFile}

/-- The sections of a language are apart. -/
theorem pairwise_apart_of_sections (h : (g.sections limit l).eval oracle = .ok files) :
    files.Pairwise fun f g => f.identity.Apart g.identity := by
  obtain ⟨found, -, hrest⟩ := Job.eval_bind_eq_ok.mp h
  split at hrest
  · have hnone := (Walk.load_eq_ok.mp hrest).2
    rw [Walk.duplicate?_eq] at hnone
    exact (firstIdentityFault?_eq_none.mp hnone).2
  · split at hrest
    · cases hrest
    · obtain ⟨-, -, hnone⟩ := Job.eval_bind_eq_ok.mp hrest
      cases hnone
      exact .nil

theorem taken_of_start {base : Option BaseCatalog} {start : Assembly}
    (h : g.start base l = .ok start) : start.taken = [] := by
  unfold Generator.start at h
  split at h <;> cases h <;> rfl

/-- **No section that has been loaded is refused as a duplicate** when it is added. -/
theorem not_isDuplicate_of_addAll {base : Option BaseCatalog} {start : Assembly}
    (hfiles : (g.sections limit l).eval oracle = .ok files) (hstart : g.start base l = .ok start)
    {fault : CatalogFault} (h : start.addAll files = .error fault) : ¬ fault.IsDuplicate :=
  Assembly.not_isDuplicate_of_addAll (by rw [taken_of_start hstart]; nofun)
    (pairwise_apart_of_sections hfiles) h

/-- If the fault is a duplicate, it comes from the loading of one of some languages. -/
def FromLoading (g : Generator) (limit : Nat) (oracle : (r : Request) → r.Answer)
    (ls : List Language) (fault : CatalogFault) : Prop :=
  fault.IsDuplicate → ∃ l ∈ ls, (g.sections limit l).eval oracle = .error fault

theorem fromLoading_of_not {ls : List Language} {fault : CatalogFault} (h : ¬ fault.IsDuplicate) :
    g.FromLoading limit oracle ls fault :=
  fun hduplicate => absurd hduplicate h

theorem failsOnly_duplicates_assembly (base : Option BaseCatalog) (l : Language) :
    Job.FailsOnly oracle (g.FromLoading limit oracle [l]) (g.assembly limit base l) := by
  refine (Job.failsOnly_tell _ _).bind fun _ _ => ?_
  refine Job.FailsOnly.bind (fun fault hfault _ => ⟨l, List.mem_singleton_self l, hfault⟩)
    fun files hfiles => ?_
  refine (Job.failsOnly_ofExcept fun fault hfault => ?_).bind fun start hstart => ?_
  · unfold Generator.start at hfault
    split at hfault
    · cases hfault
    · cases hfault
    · obtain rfl := Except.error.inj hfault
      exact fromLoading_of_not id
  · intro fault hfault
    rw [Assembly.eval_addEach] at hfault
    exact fromLoading_of_not (not_isDuplicate_of_addAll hfiles hstart hfault)

theorem failsOnly_duplicates_assemblies (base : Option BaseCatalog) (ls : List Language) :
    Job.FailsOnly oracle (g.FromLoading limit oracle ls) (g.assemblies limit base ls) := by
  induction ls generalizing base with
  | nil => exact Job.failsOnly_pure []
  | cons l ls ih =>
      refine Job.FailsOnly.bind ((failsOnly_duplicates_assembly base l).mono
        fun fault h hduplicate => ?_) fun a _ => ?_
      · obtain ⟨l', hl', hfault⟩ := h hduplicate
        exact ⟨l', List.mem_cons.mpr (.inl (List.mem_singleton.mp hl')), hfault⟩
      · refine Job.FailsOnly.bind ((ih _).mono fun fault h hduplicate => ?_)
          fun _ _ => Job.failsOnly_pure _
        obtain ⟨l', hl', hfault⟩ := h hduplicate
        exact ⟨l', List.mem_cons_of_mem _ hl', hfault⟩

/-- **A compilation that ends with a duplicate** has ended when it loaded the tree of one of its
languages. -/
theorem exists_sections_of_compile {fault : CatalogFault}
    (h : (g.compile limit).eval oracle = .error fault) (hduplicate : fault.IsDuplicate) :
    ∃ entry ∈ g.settings.languages, ∃ l, Language.named? entry = some l ∧
      (g.sections limit l).eval oracle = .error fault := by
  rw [compile, Job.eval_bind] at h
  cases hset : LanguageSet.ofEntries? g.settings.languages g.settings.baseLanguage with
  | error problem =>
      have hfailed : (Job.ofExcept ((LanguageSet.ofEntries? g.settings.languages
          g.settings.baseLanguage).mapError .language)).eval oracle =
            .error (.language problem) := by
        rw [hset]
        rfl
      rw [hfailed] at h
      obtain rfl := Except.error.inj h
      exact absurd hduplicate id
  | ok set =>
      rw [eval_set_eq_ok.mpr hset] at h
      have hassemblies : Job.FailsOnly oracle (g.FromLoading limit oracle set.languages)
          (g.assemblies limit none set.languages) :=
        failsOnly_duplicates_assemblies none set.languages
      have hcatalog := hassemblies.bind fun as _ =>
        Job.failsOnly_pure (⟨as.flatMap g.files, as.map report⟩ : Catalog)
      obtain ⟨l, hl, hfault⟩ := hcatalog fault h hduplicate
      obtain ⟨entry, hentry, hnamed⟩ :=
        (LanguageSet.ordered_of_ofEntries? hset).exists_entry_of_mem hl
      exact ⟨entry, hentry, l, hnamed, hfault⟩

end Generator

/-! ### Agreement -/

namespace Walk

/-- **The two checks for duplicates agree.**  If the templates of some files are sound, the check of
the loaded tree passes just if a base language of the same shortcode can add all of them in order,
and it finds a fault just if adding them ends with this fault; and the fault is that of the first
file that has its key, or its names, in common with one before it.  Files that have been loaded for
a language can thus end with any fault but a duplicate when they are added, whether the language is
the base or fits in with it; and if a compilation ends with a duplicate, the loading of a configured
language has ended with it. -/
theorem duplicate?_iff_addAll (glob : Glob) (l : Language) {files : List SectionFile}
    (hsound : ∀ f ∈ files, ∀ t ∈ f.payload.templates, templateProblem? t.text t.params = none) :
    ((⟨glob, l.shortcode⟩ : Walk).duplicate? files = none ↔
        ∃ a, (Assembly.forBase l).addAll files = .ok a) ∧
      (∀ fault, (⟨glob, l.shortcode⟩ : Walk).duplicate? files = some fault ↔
        (Assembly.forBase l).addAll files = .error fault) ∧
      (∀ fault, (Assembly.forBase l).addAll files = .error fault →
        FirstDuplicate l.shortcode files fault) ∧
      ∀ (g : Generator) (σ κ : Type) (S : Storage σ κ) (s : σ) (limit : Nat) (fault : CatalogFault),
        (∀ (language : Language) (base : Option BaseCatalog) (start : Assembly)
            (loaded : List SectionFile),
          (S.run (g.sections limit language).run s).value = .ok loaded →
            g.start base language = .ok start → start.addAll loaded = .error fault →
              ¬ fault.IsDuplicate) ∧
          ((S.run (g.compile limit).run s).value = .error fault → fault.IsDuplicate →
            ∃ entry ∈ g.settings.languages, ∃ language, Language.named? entry = some language ∧
              (S.run (g.sections limit language).run s).value = .error fault) := by
  have htrees : ∀ f ∈ files, ∃ tree, Syntax.Tree.ofPayload? f.payload = .ok tree := fun f hf =>
    (Syntax.Tree.reports_ofPayload? f.payload).exists_ok_iff.mpr
      (Payload.templateFaults_eq_nil_iff.mpr (hsound f hf))
  have hreports : Reports ((⟨glob, l.shortcode⟩ : Walk).duplicate? files).toList
      ((Assembly.forBase l).addAll files) := by
    rw [duplicate?_eq]
    exact Assembly.reports_addAll rfl htrees
  have hfault : ∀ fault, (⟨glob, l.shortcode⟩ : Walk).duplicate? files = some fault ↔
      (Assembly.forBase l).addAll files = .error fault := fun fault => by
    rw [hreports.eq_error_iff, Option.head?_toList]
  refine ⟨?_, hfault, fun fault h => ?_, ?_⟩
  · rw [hreports.exists_ok_iff, Option.toList_eq_nil_iff]
  · have hfirst := (hfault fault).mpr h
    rw [duplicate?_eq] at hfirst
    exact firstDuplicate_of_firstIdentityFault? hfirst
  · intro g σ κ S s limit fault
    refine ⟨fun language base start loaded hloaded hstart hfault => ?_, fun hfault hduplicate => ?_⟩
    · rw [(S.run_of_reads (g.reads_sections limit language) s).2] at hloaded
      exact Generator.not_isDuplicate_of_addAll hloaded hstart hfault
    · rw [(S.run_of_reads (g.reads_compile limit) s).2] at hfault
      obtain ⟨entry, hentry, language, hnamed, hsections⟩ :=
        Generator.exists_sections_of_compile hfault hduplicate
      exact ⟨entry, hentry, language, hnamed,
        (S.run_of_reads (g.reads_sections limit language) s).2.trans hsections⟩

/-- A file whose key is new, and whose variable is that of a file before it. -/
def gluedFiles : List SectionFile :=
  [⟨⟨Section.wordsOf "a" ++ Section.wordsOf "1b"⟩, ⟨"a/1b.json"⟩,
     [("k", .template "\x7b\x7bn\x7d\x7d" ["n"])]⟩,
   ⟨⟨Section.wordsOf "a1b"⟩, ⟨"a1b.json"⟩, [("k", .literal "K")]⟩]

/-- The second file is refused when a tree with both is loaded, and so it is when it is added. -/
theorem sample_duplicate :
    (gluedFiles.map fun f => Except.ok f.identity) =
        [["a", "1b"], ["a1b"]].map Section.Identity.root.extendAll ∧
      (∀ f ∈ gluedFiles, ∀ t ∈ f.payload.templates, templateProblem? t.text t.params = none) ∧
      ∃ fault : CatalogFault,
        fault = .duplicateIdentifier "en" "_a1b" ⟨"a/1b.json"⟩ ⟨"a1b.json"⟩ ∧
          (⟨Sample.generator.glob, "en"⟩ : Walk).duplicate? gluedFiles = some fault ∧
          (Assembly.forBase ⟨"en", "E", none⟩).addAll gluedFiles = .error fault ∧
          FirstDuplicate "en" gluedFiles fault := by
  have hsound : ∀ f ∈ gluedFiles, ∀ t ∈ f.payload.templates,
      templateProblem? t.text t.params = none := by
    decide
  have hfound : (⟨Sample.generator.glob, "en"⟩ : Walk).duplicate? gluedFiles =
      some (.duplicateIdentifier "en" "_a1b" ⟨"a/1b.json"⟩ ⟨"a1b.json"⟩) := by
    decide
  obtain ⟨-, hsame, hfirst, -⟩ :=
    duplicate?_iff_addAll Sample.generator.glob ⟨"en", "E", none⟩ hsound
  have hadded := (hsame _).mp hfound
  exact ⟨rfl, hsound, _, rfl, hfound, hadded, hfirst _ hadded⟩

end Walk

end Phrasebook
