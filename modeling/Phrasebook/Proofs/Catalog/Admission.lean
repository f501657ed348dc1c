import Phrasebook.Proofs.Catalog.Shapes
import Phrasebook.Proofs.Catalog.Tables
import Phrasebook.Proofs.Syntax.Templates

/-!
# Proofs — Catalog — Admission

Which sections a language admits, and why it refuses the others.  What counts is known from the
sections that it has accepted so far and, if it has to fit in, from those of the base language, all
of them as they were given: keys and names (`SectionFile.identityFaults`), templates, and the shape
of the base language's section (`SectionFile.baseFaults`).  The first thing that is wrong by this
list is reported (`Assembly.reports_add`).

Nothing of a call that is refused is left behind, in the assembly or in the tables that are kept in
place (`Tables.Keeps`); so a language is the same after any calls as after those that it has
accepted, and accepts all of them again (`Assembly.add_verdict`).
-/

namespace Phrasebook

/-! ### What may be wrong -/

namespace SectionFile

/-- The sections before it whose key a section has, and those that have one of its names: the name of
its variable first, and then that of its interface. -/
def identityFaults (file : SectionFile) (shortcode : String) (accepted : List SectionFile) :
    List CatalogFault :=
  (accepted.filter fun first => first.identity.key = file.identity.key).map
      (fun first => .duplicateSection shortcode file.identity.key first.path file.path) ++
    [file.identity.variableName, file.identity.interfaceName].flatMap fun name =>
      (accepted.filter fun first => first.identity.variableName = name ∨
        first.identity.interfaceName = name).map fun first =>
          .duplicateIdentifier shortcode name first.path file.path

/-- What keeps a section from fitting in with those of the base language, if there are any to fit in
with: none of them has its key, or the one that has it is of another shape. -/
def baseFaults (file : SectionFile) (shortcode : String) :
    Option (List SectionFile) → List CatalogFault
  | none => []
  | some canonical =>
      match canonical.find? fun c => c.identity.key = file.identity.key with
      | none => [.unknownSection shortcode file.identity.key]
      | some c =>
          if c.payload.shape = file.payload.shape then []
          else [.shapeMismatch shortcode file.identity.key]

/-- All that is wrong with a section behind others, in the order in which it counts. -/
def faults (file : SectionFile) (shortcode : String) (accepted : List SectionFile)
    (canonical : Option (List SectionFile)) : List CatalogFault :=
  file.identityFaults shortcode accepted ++
    (file.payload.templateFaults.map (.template shortcode file.identity.key) ++
      file.baseFaults shortcode canonical)

end SectionFile

theorem identityFault?_eq_head? (shortcode : String) (accepted : List SectionFile)
    (file : SectionFile) :
    identityFault? shortcode (accepted.map fun f => (f.identity, f.path)) file.identity file.path =
      (file.identityFaults shortcode accepted).head? := by
  have hkey (f : SectionFile) : (f.identity.key == file.identity.key) =
      decide (f.identity.key = file.identity.key) := rfl
  have hname (f : SectionFile) (name : String) : f.identity.hasName name =
      decide (f.identity.variableName = name ∨ f.identity.interfaceName = name) :=
    (Bool.decide_or _ _).symm
  simp only [identityFault?, SectionFile.identityFaults, List.find?_map, Function.comp_def, hkey,
    hname, List.flatMap_cons, List.flatMap_nil, List.append_nil, List.head?_append, List.head?_map,
    List.head?_filter]
  cases accepted.find? fun f => decide (f.identity.key = file.identity.key) with
  | some first => rfl
  | none =>
      cases accepted.find? fun f => decide (f.identity.variableName = file.identity.variableName ∨
          f.identity.interfaceName = file.identity.variableName) with
      | some first => rfl
      | none =>
          cases accepted.find? fun f =>
            decide (f.identity.variableName = file.identity.interfaceName ∨
              f.identity.interfaceName = file.identity.interfaceName) <;> rfl

namespace Assembly

variable {a : Assembly} {files : List SectionFile}

/-- The identities that are taken are those of the files. -/
theorem Holds.taken_eq (h : a.Holds files) :
    a.taken = files.map fun file => (file.identity, file.path) := by
  obtain ⟨hgives, -, -⟩ := h
  unfold taken
  generalize a.accepted = accepted at hgives
  induction hgives with
  | nil => rfl
  | cons hs _ ih =>
      obtain ⟨tree, -, rfl⟩ := hs
      exact congrArg (_ :: ·) ih

/-- Nothing is published under a key that no file has. -/
theorem Holds.get?_published_eq_none (h : a.Holds files) {base : BaseCatalog}
    (hbase : a.published? = some base) {key : String}
    (hkey : ∀ file ∈ files, file.identity.key ≠ key) : base.get? key = none := by
  have hsections : base.sections.map (fun s => s.identity) = files.map SectionFile.identity := by
    rw [← h.map_identity_own]
    unfold published? at hbase
    split at hbase
    · cases hbase
    · obtain rfl := Option.some.inj hbase
      exact List.map_map
  refine List.find?_eq_none.mpr fun s hs heq => ?_
  have hmem : s.identity ∈ files.map SectionFile.identity :=
    hsections ▸ List.mem_map_of_mem hs
  obtain ⟨file, hfile, hidentity⟩ := List.mem_map.mp hmem
  exact hkey file hfile (hidentity ▸ beq_iff_eq.mp heq)

/-! ### What is admitted -/

/-- An assembly before any section: of a base language, or of a language that has to fit in with what
a base language has published after any calls, and then with the sections that these have added. -/
inductive Starts : Assembly → Option (List SectionFile) → Prop
  | base (l : Language) : Starts (forBase l) none
  | derived (l : Language) {b : Language} {calls : List SectionFile} {base : BaseCatalog}
      (hbase : ((forBase b).attemptAll calls).published? = some base) :
      Starts (forDerived l base) (some ((forBase b).acceptedCalls calls))

/-- The first thing that keeps a section from fitting in is found by comparing interfaces. -/
theorem Starts.baseFault?_eq_head? {start : Assembly} {canonical : Option (List SectionFile)}
    (h : start.Starts canonical) (hbase : a.base = start.base) {file : SectionFile}
    {tree : Syntax.Tree} (htree : Syntax.Tree.ofPayload? file.payload = .ok tree) :
    a.baseFault? file.identity.key tree.interface =
      (file.baseFaults a.language.shortcode canonical).head? := by
  cases h with
  | base l => simp only [baseFault?, hbase, forBase, SectionFile.baseFaults, List.head?_nil]
  | @derived l b calls base hpublished =>
      obtain ⟨hholds, -, -⟩ := (holds_forBase b).addAll (addAll_acceptedCalls _ calls)
      rw [List.nil_append] at hholds
      simp only [baseFault?, hbase, forDerived, SectionFile.baseFaults]
      cases hfound : ((forBase b).acceptedCalls calls).find?
          fun c => c.identity.key = file.identity.key with
      | none =>
          have hnone := hholds.get?_published_eq_none hpublished fun c hc heq =>
            List.find?_eq_none.mp hfound c hc (decide_eq_true heq)
          simp only [hnone, List.head?_cons]
      | some c =>
          have hc := List.mem_of_find?_eq_some hfound
          have hkey : c.identity.key = file.identity.key := by simpa using List.find?_some hfound
          obtain ⟨s, -, tree', htree', -⟩ := hholds.exists_accepted_of_mem hc
          have hget := hholds.get?_published hpublished hc htree'
          rw [hkey] at hget
          simp only [hget, Syntax.Tree.interface_eq_iff_shape_eq htree' htree]
          split <;> rfl

/-- **A section is refused for the first thing that is wrong with it.** -/
theorem Starts.reports_add {start : Assembly} {canonical : Option (List SectionFile)}
    (h : start.Starts canonical) (hholds : a.Holds files) (hbase : a.base = start.base)
    (file : SectionFile) :
    Reports (file.faults a.language.shortcode files canonical) (a.add file) := by
  have hidentity := identityFault?_eq_head? a.language.shortcode files file
  rw [← hholds.taken_eq] at hidentity
  unfold add
  refine Reports.orElse hidentity.symm (fun fault hfault => ?_) fun hfree => ?_
  · rw [hfault]
  rw [hfree]
  have htemplates := (Syntax.Tree.reports_ofPayload? file.payload).mapError
    (f := CatalogFault.template a.language.shortcode file.identity.key)
  cases htree : Syntax.Tree.ofPayload? file.payload with
  | error fault =>
      rw [htree] at htemplates
      exact htemplates.append_of_error
  | ok tree =>
      rw [htree] at htemplates
      have hfits := h.baseFault?_eq_head? hbase htree
      rw [show file.payload.templateFaults.map _ = [] from htemplates, List.nil_append,
        ← List.append_nil (file.baseFaults _ _)]
      refine Reports.orElse hfits.symm (fun fault hfault => ?_) fun hnone => ?_
      · simp only [hfault]
      · simp only [hnone]
        rfl

/-- What it takes for a section to be admitted behind others: none of them has its key or one of its
names, its templates are sound, and the section of the base language with its key, if there are
sections to fit in with, is there and has its shape. -/
structure Admits (accepted : List SectionFile) (canonical : Option (List SectionFile))
    (file : SectionFile) : Prop where
  key_free : ∀ first ∈ accepted, first.identity.key ≠ file.identity.key
  names_free : ∀ first ∈ accepted,
    ∀ name ∈ [file.identity.variableName, file.identity.interfaceName],
      first.identity.variableName ≠ name ∧ first.identity.interfaceName ≠ name
  templates : ∀ t ∈ file.payload.templates, templateProblem? t.text t.params = none
  fits : ∀ published, canonical = some published →
    ∃ c ∈ published, c.identity.key = file.identity.key ∧ c.payload.shape = file.payload.shape

/-- The sections of the base language have distinct keys. -/
theorem Starts.nodup_keys {start : Assembly} {published : List SectionFile}
    (h : start.Starts (some published)) : (published.map fun c => c.identity.key).Nodup := by
  cases h with
  | @derived l b calls base hpublished =>
      obtain ⟨hholds, -, -⟩ := (holds_forBase b).addAll (addAll_acceptedCalls _ calls)
      rw [List.nil_append] at hholds
      have hkeys := congrArg (List.map Section.Identity.key) hholds.map_identity_own
      rw [List.map_map, List.map_map] at hkeys
      exact hkeys ▸ List.pairwise_map.mpr (hholds.apart_own.imp Section.Identity.Apart.key_ne)

/-- A section fits in if the section with its key has its shape. -/
theorem Starts.baseFaults_eq_nil_iff {start : Assembly} {canonical : Option (List SectionFile)}
    (h : start.Starts canonical) {file : SectionFile} {shortcode : String} :
    file.baseFaults shortcode canonical = [] ↔ ∀ published, canonical = some published →
      ∃ c ∈ published, c.identity.key = file.identity.key ∧
        c.payload.shape = file.payload.shape := by
  cases canonical with
  | none => exact ⟨fun _ => nofun, fun _ => rfl⟩
  | some published =>
      simp only [SectionFile.baseFaults, Option.some.injEq, forall_eq']
      cases hfound : published.find? fun c => c.identity.key = file.identity.key with
      | none =>
          refine ⟨nofun, ?_⟩
          rintro ⟨c, hc, hkey, -⟩
          exact absurd (decide_eq_true hkey) (List.find?_eq_none.mp hfound c hc)
      | some c =>
          have hc := List.mem_of_find?_eq_some hfound
          have hkey : c.identity.key = file.identity.key := by simpa using List.find?_some hfound
          constructor
          · intro hnone
            by_cases hshape : c.payload.shape = file.payload.shape
            · exact ⟨c, hc, hkey, hshape⟩
            · simp [hshape] at hnone
          · rintro ⟨d, hd, hkey', hshape⟩
            -- no other section has the key
            obtain rfl : c = d :=
              List.inj_on_of_nodup_map h.nodup_keys hc hd (hkey.trans hkey'.symm)
            simp [hshape]

theorem Starts.admits_iff {start : Assembly} {canonical : Option (List SectionFile)}
    (h : start.Starts canonical) {file : SectionFile} {shortcode : String} :
    Admits files canonical file ↔ file.faults shortcode files canonical = [] := by
  rw [SectionFile.faults, List.append_eq_nil_iff, List.append_eq_nil_iff, List.map_eq_nil_iff,
    Payload.templateFaults_eq_nil_iff, h.baseFaults_eq_nil_iff]
  have hidentity : file.identityFaults shortcode files = [] ↔
      (∀ first ∈ files, first.identity.key ≠ file.identity.key) ∧
        ∀ first ∈ files, ∀ name ∈ [file.identity.variableName, file.identity.interfaceName],
          first.identity.variableName ≠ name ∧ first.identity.interfaceName ≠ name := by
    simp only [SectionFile.identityFaults, List.append_eq_nil_iff, List.flatMap_eq_nil_iff,
      List.map_eq_nil_iff, List.filter_eq_nil_iff, decide_eq_true_eq, not_or]
    exact and_congr_right fun _ =>
      ⟨fun hnames first hfirst name hname => hnames name hname first hfirst,
        fun hnames name hname first hfirst => hnames first hfirst name hname⟩
  rw [hidentity]
  constructor
  · rintro ⟨hkey, hnames, htemplates, hfits⟩
    exact ⟨⟨hkey, hnames⟩, htemplates, hfits⟩
  · rintro ⟨⟨hkey, hnames⟩, htemplates, hfits⟩
    exact ⟨hkey, hnames, htemplates, hfits⟩

/-- **A section is admitted, or refused for the first thing that is wrong with it**, and nothing of a
section that is refused is left behind.  After any calls, a language admits a section if none of the
sections that it has accepted has its key or one of its names, all of its templates are sound, and
it fits in; and else it says which of these fails first.  The sections, the keys and the names that
are kept in place go the same way: they are those of the accepted calls, and a refused call changes
none of them.  All is the same as after the accepted calls alone, which are all accepted again. -/
theorem add_verdict {start : Assembly} {canonical : Option (List SectionFile)}
    (h : start.Starts canonical) (calls : List SectionFile) (file : SectionFile) :
    let a := start.attemptAll calls
    let accepted := start.acceptedCalls calls
    let tables := Tables.empty.afterCalls start calls
    ((∃ next, a.add file = .ok next) ↔ Admits accepted canonical file) ∧
      (∀ fault, a.add file = .error fault ↔
        (file.faults start.language.shortcode accepted canonical).head? = some fault) ∧
      a.own.map Module.OwnSection.identity = accepted.map SectionFile.identity ∧
      a.taken = accepted.map (fun call => (call.identity, call.path)) ∧
      (tables.Keeps a ∧ tables.languageModule start = a.languageModule) ∧
      (∀ next, a.add file = .ok next →
        ∃ after, (Tables.add start file).run tables = (.ok (), after) ∧ after.Keeps next) ∧
      (∀ fault, a.add file = .error fault →
        (Tables.add start file).run tables = (.error fault, tables)) ∧
      start.acceptedCalls accepted = accepted ∧ start.attemptAll accepted = a ∧
      Tables.empty.afterCalls start accepted = tables := by
  intro a accepted tables
  obtain ⟨hstart, hempty⟩ : start.Holds [] ∧ Tables.empty.Keeps start := by
    cases h with
    | base l => exact ⟨holds_forBase l, .empty rfl⟩
    | derived l => exact ⟨holds_forDerived l _, .empty rfl⟩
  have hadded := addAll_acceptedCalls start calls
  obtain ⟨hholds, hlanguage, hbase⟩ := hstart.addAll hadded
  obtain ⟨hagain, hsame⟩ := acceptedCalls_of_addAll hadded
  have hkeeps : tables.Keeps a := hempty.afterCalls rfl rfl calls
  have hreports := h.reports_add hholds hbase file
  rw [hlanguage] at hreports
  refine ⟨hreports.exists_ok_iff.trans h.admits_iff.symm, fun fault => hreports.eq_error_iff,
    hholds.map_identity_own, hholds.taken_eq,
    ⟨hkeeps, hkeeps.languageModule_eq hlanguage hbase⟩,
    fun next => hkeeps.run_add_of_ok hlanguage hbase,
    fun fault => hkeeps.run_add_of_error hlanguage hbase, hagain, hsame,
    hempty.afterCalls_acceptedCalls rfl rfl calls⟩

/-- A language with one section refuses the section a second time, for its key, and is as it was. -/
theorem sample_add_verdict :
    ∃ (start : Assembly) (canonical : Option (List SectionFile)), start.Starts canonical ∧
      ∃ (a : Assembly) (t : Tables), a = start.attemptAll [single "b" "X", single "c" "Y"] ∧
        t = Tables.empty.afterCalls start [single "b" "X", single "c" "Y"] ∧
        a.add (single "b" "Z") = .error (.duplicateSection "fr" "b" ⟨"b"⟩ ⟨"b"⟩) ∧
        (Tables.add start (single "b" "Z")).run t =
          (.error (.duplicateSection "fr" "b" ⟨"b"⟩ ⟨"b"⟩), t) ∧
        start.attemptAll (start.acceptedCalls [single "b" "X", single "c" "Y"]) = a := by
  obtain ⟨base, hbase, hfirst⟩ : ∃ base, ((forBase ⟨"en", "E", none⟩).attemptAll
      [single "a" "A", single "b" "B"]).published? = some base ∧
        ((single "b" "Z").faults "fr"
          ((forDerived ⟨"fr", "F", some "en"⟩ base).acceptedCalls [single "b" "X", single "c" "Y"])
          (some ((forBase ⟨"en", "E", none⟩).acceptedCalls
            [single "a" "A", single "b" "B"]))).head? =
          some (.duplicateSection "fr" "b" ⟨"b"⟩ ⟨"b"⟩) :=
    ⟨_, rfl, by decide +kernel⟩
  have hstarts := Starts.derived ⟨"fr", "F", some "en"⟩ hbase
  obtain ⟨-, hrefuses, -, -, -, -, hsame, -, hagain, -⟩ :=
    add_verdict hstarts [single "b" "X", single "c" "Y"] (single "b" "Z")
  have hrefused := (hrefuses _).mpr hfirst
  exact ⟨_, _, hstarts, _, _, rfl, rfl, hrefused, hsame _ hrefused, hagain⟩

end Assembly

end Phrasebook
