import Phrasebook.Proofs.Catalog.Output
import Phrasebook.Proofs.Storage.Agreement

/-!
# Proofs — Catalog — Idempotence

A second run does what the first has done.  Compiling reads below the translations directory and
nowhere else, so that a catalog which compiles on one memory compiles on every other that agrees
with it there (`follows_compile`).  A run that succeeds replaces the output directory; if this is
apart from the translations directory, the memory that it leaves agrees with the one before below
the translations directory, and the second run replaces the directory by the same files once more
(`run_idempotent`).

How deep directories may be nested has no part in this as long as it is no less than what the
storage holds: the directories below one that is listed are always fewer (`follows_directory`).
-/

namespace Phrasebook

/-- Whatever value a job has, another that is answered differently has as well. -/
def Job.Follows {α : Type} (oracle oracle' : (r : Request) → r.Answer) (job job' : Job α) : Prop :=
  ∀ a, job.eval oracle = .ok a → job'.eval oracle' = .ok a

namespace Job

variable {α β : Type} {oracle oracle' : (r : Request) → r.Answer}

/-- A job that meets the same answers. -/
theorem follows_of_asks {p : Request → Prop} (hp : ∀ r, p r → oracle r = oracle' r) {job : Job α}
    (h : job.run.Asks p) : Follows oracle oracle' job job :=
  fun _ ha => (h.eval_congr hp).symm.trans ha

/-- A job that asks nothing. -/
theorem follows_ofExcept (value : Except CatalogFault α) :
    Follows oracle oracle' (ofExcept value) (ofExcept value) :=
  fun _ ha => ha

theorem follows_pure (a : α) : Follows oracle oracle' (pure a) (pure a) :=
  fun _ ha => ha

theorem follows_tell (level : Level) (text : String) :
    Follows oracle oracle' (tell level text) (tell level text) :=
  fun _ ha => ha

theorem Follows.bind {job job' : Job α} {f f' : α → Job β} (h : Follows oracle oracle' job job')
    (hf : ∀ a, job.eval oracle = .ok a → Follows oracle oracle' (f a) (f' a)) :
    Follows oracle oracle' (job >>= f) (job' >>= f') := by
  intro b hb
  obtain ⟨a, ha, hrest⟩ := eval_bind_eq_ok.mp hb
  exact eval_bind_eq_ok.mpr ⟨a, h a ha, hf a ha b hrest⟩

theorem Follows.collect {ι : Type} {job job' : ι → Job (List α)} {is : List ι}
    (h : ∀ i ∈ is, Follows oracle oracle' (job i) (job' i)) :
    Follows oracle oracle' (collect job is) (collect job' is) := by
  induction is with
  | nil => exact follows_pure []
  | cons i is ih =>
      exact (h i List.mem_cons_self).bind fun _ _ =>
        (ih fun j hj => h j (List.mem_cons_of_mem _ hj)).bind fun _ _ => follows_pure _

end Job

namespace Memory

variable {m m' : Memory} {place : Path}

/-- A job that asks one thing below a path on which memories agree. -/
theorem Agree.follows (hagree : Agree place m m') {α : Type} {job : Job α} {r : Request}
    (hr : r.isRead = true) (hpath : r.path.startsWith place = true)
    (hasks : job.run.Asks fun q => q = r) :
    Job.Follows (storage.oracle m) (storage.oracle m') job job :=
  Job.follows_of_asks (fun _ hq => hq ▸ hagree.answer hr hpath) hasks

/-- What has been listed is what the directory holds. -/
theorem eq_of_listDirectories {path : Path} {names : List String}
    (h : (Job.listDirectories path).eval (storage.oracle m) = .ok names) :
    m.hasDirectory path = true ∧ names = childNames path m.directories :=
  eq_of_listing ((answer_listDirectories m path).symm.trans
    (Job.eval_listDirectories_eq_ok.mp h))

theorem eq_of_listFiles {path : Path} {names : List String}
    (h : (Job.listFiles path).eval (storage.oracle m) = .ok names) :
    m.hasDirectory path = true ∧ names = childNames path (m.files.map Prod.fst) :=
  eq_of_listing ((answer_listFiles m path).symm.trans (Job.eval_listFiles_eq_ok.mp h))

/-- Entries of a directory below a path are below it too. -/
theorem startsWith_join_of_mem {path : Path} {paths : List Path} {name : String}
    (hpath : path.startsWith place = true) (hname : name ∈ childNames path paths) :
    (path.join name).startsWith place = true :=
  Path.startsWith_trans
    (Path.startsWith_of_isChildOf (Path.isChildOf_join path (isPlain_of_mem_childNames hname))) hpath

end Memory

/-! ### Compiling -/

/-- A well-formed shortcode names a directory of its own. -/
theorem isPlain_of_isValidShortcode {shortcode : String} (h : isValidShortcode shortcode = true) :
    Path.IsPlain shortcode := by
  obtain ⟨c, cs, hcs, -, -⟩ := exists_cons_of_isValidShortcode h
  have hdot : '.' ∉ shortcode.toList := not_mem_of_isValidShortcode h (by decide)
  have hone : shortcode ≠ "." := by
    rintro rfl
    exact hdot (by decide)
  have htwo : shortcode ≠ ".." := by
    rintro rfl
    exact hdot (by decide)
  have hempty : shortcode ≠ "" := by
    rintro rfl
    cases hcs
  refine ⟨not_mem_of_isValidShortcode h (by decide), ?_, hone⟩
  rw [Path.component?, if_neg (not_or.mpr ⟨hempty, hone⟩), if_neg htwo]

namespace Walk

variable {m m' : Memory} {place : Path} (hagree : Memory.Agree place m m')
include hagree

theorem follows_file (w : Walk) {path : Path} {name : String}
    (hpath : (path.join name).startsWith place = true) (id : Section.Identity) :
    Job.Follows (Memory.storage.oracle m) (Memory.storage.oracle m') (w.file path id name)
      (w.file path id name) := by
  have hread : Job.Follows (Memory.storage.oracle m) (Memory.storage.oracle m')
      (Job.readText (path.join name)) (Job.readText (path.join name)) :=
    hagree.follows (r := .readText (path.join name)) rfl hpath ⟨rfl, fun _ => trivial⟩
  unfold file
  split
  · exact (Job.follows_ofExcept _).bind fun _ _ => hread.bind fun _ _ =>
      (Job.follows_ofExcept _).bind fun _ _ => Job.follows_pure _
  · exact (Job.follows_tell _ _).bind fun _ _ => Job.follows_pure _

/-- **A directory is walked alike** if directories may be nested as deep as they are. -/
theorem follows_directory (w : Walk) {limit limit' : Nat} {path : Path} {id : Section.Identity}
    (hpath : path.startsWith place = true) (hlimit : m'.countBelow path < limit') :
    Job.Follows (Memory.storage.oracle m) (Memory.storage.oracle m') (w.directory limit path id)
      (w.directory limit' path id) := by
  induction limit generalizing limit' path id with
  | zero => exact nofun
  | succ limit ih =>
      obtain ⟨limit', rfl⟩ := Nat.exists_eq_succ_of_ne_zero (Nat.ne_of_gt (Nat.zero_lt_of_lt hlimit))
      have hdirectories : Job.Follows (Memory.storage.oracle m) (Memory.storage.oracle m')
          (Job.listDirectories path) (Job.listDirectories path) :=
        hagree.follows (r := .listDirectories path) rfl hpath ⟨rfl, fun _ => trivial⟩
      have hfiles : Job.Follows (Memory.storage.oracle m) (Memory.storage.oracle m')
          (Job.listFiles path) (Job.listFiles path) :=
        hagree.follows (r := .listFiles path) rfl hpath ⟨rfl, fun _ => trivial⟩
      refine hdirectories.bind fun directories hlisted => ?_
      refine Job.Follows.bind (Job.Follows.collect fun name hname => ?_) fun below _ => ?_
      · obtain ⟨hthere, rfl⟩ := Memory.eq_of_listDirectories (hdirectories _ hlisted)
        have hchild := Memory.countBelow_join_lt hthere hname
        exact (Job.follows_ofExcept _).bind fun extended _ =>
          ih (Memory.startsWith_join_of_mem hpath hname) (by omega)
      · refine hfiles.bind fun names hlisted' => ?_
        refine Job.Follows.bind (Job.Follows.collect fun name hname => ?_) fun here _ =>
          Job.follows_pure _
        obtain ⟨-, rfl⟩ := Memory.eq_of_listFiles hlisted'
        exact follows_file hagree w (Memory.startsWith_join_of_mem hpath hname) id

theorem follows_load (w : Walk) {limit limit' : Nat} {root : Path} {start : Section.Identity}
    (hroot : root.startsWith place = true) (hlimit : m'.countBelow root < limit') :
    Job.Follows (Memory.storage.oracle m) (Memory.storage.oracle m') (w.load limit root start)
      (w.load limit' root start) := by
  refine (Job.follows_tell _ _).bind fun _ _ => ?_
  refine (follows_directory hagree w hroot hlimit).bind fun files _ => ?_
  cases w.duplicate? files with
  | some fault => exact nofun
  | none => exact (Job.follows_tell _ _).bind fun _ _ => Job.follows_pure files

end Walk

namespace Generator

variable {g : Generator} {m m' : Memory} (hagree : Memory.Agree g.translationsDir m m')
  {limit limit' : Nat} (hlimit : m'.depth ≤ limit')
include hagree hlimit

theorem follows_sections {l : Language} (hplain : Path.IsPlain l.shortcode) :
    Job.Follows (Memory.storage.oracle m) (Memory.storage.oracle m') (g.sections limit l)
      (g.sections limit' l) := by
  have hroot := Path.startsWith_of_isChildOf (Path.isChildOf_join g.translationsDir hplain)
  have hexists : Job.Follows (Memory.storage.oracle m) (Memory.storage.oracle m')
      (Job.directoryExists (g.translationsDir.join l.shortcode))
      (Job.directoryExists (g.translationsDir.join l.shortcode)) :=
    hagree.follows (r := .directoryExists _) rfl hroot ⟨rfl, fun _ => trivial⟩
  refine hexists.bind fun found _ => ?_
  split
  · exact Walk.follows_load hagree _ hroot
      (Nat.lt_of_lt_of_le (m'.countBelow_lt_depth _) hlimit)
  · split
    · exact nofun
    · exact (Job.follows_tell _ _).bind fun _ _ => Job.follows_pure _

theorem follows_assembly {l : Language} (hplain : Path.IsPlain l.shortcode)
    (base : Option BaseCatalog) :
    Job.Follows (Memory.storage.oracle m) (Memory.storage.oracle m') (g.assembly limit base l)
      (g.assembly limit' base l) :=
  (Job.follows_tell _ _).bind fun _ _ =>
    (follows_sections hagree hlimit hplain).bind fun _ _ =>
      (Job.follows_ofExcept _).bind fun start _ =>
        Job.follows_of_asks (fun _ => False.elim) (start.asks_addEach _ _)

theorem follows_assemblies {ls : List Language} (hplain : ∀ l ∈ ls, Path.IsPlain l.shortcode)
    (base : Option BaseCatalog) :
    Job.Follows (Memory.storage.oracle m) (Memory.storage.oracle m') (g.assemblies limit base ls)
      (g.assemblies limit' base ls) := by
  induction ls generalizing base with
  | nil => exact Job.follows_pure []
  | cons l ls ih =>
      refine (follows_assembly hagree hlimit (hplain l List.mem_cons_self) base).bind
        fun a _ => ?_
      exact (ih (fun l' hl' => hplain l' (List.mem_cons_of_mem _ hl')) _).bind
        fun _ _ => Job.follows_pure _

/-- **A catalog depends on nothing but what is below the translations directory.** -/
theorem follows_compile (hvalid : g.settings.IsValid) :
    Job.Follows (Memory.storage.oracle m) (Memory.storage.oracle m') (g.compile limit)
      (g.compile limit') := by
  refine (Job.follows_ofExcept _).bind fun set hset => ?_
  have hplain : ∀ l ∈ set.languages, Path.IsPlain l.shortcode := fun l hl =>
    isPlain_of_isValidShortcode ((LanguageSet.ordered_of_ofEntries?
      (eval_set_eq_ok.mp hset)).isValidShortcode hvalid l hl)
  exact (follows_assemblies hagree hlimit hplain none).bind fun _ _ => Job.follows_pure _

end Generator

/-! ### Running twice -/

namespace Generator

variable {g : Generator} {m : Memory} {limit limit' : Nat} {report : Report}

/-- **A second run does what the first has done**, and changes nothing. -/
theorem run_idempotent (hvalid : g.settings.IsValid)
    (happart : g.translationsDir.Apart g.outputDir)
    (h : (Memory.storage.run (g.run limit false).run m).value = .ok report)
    (hlimit : (Memory.storage.run (g.run limit false).run m).storage.depth ≤ limit') :
    let first := Memory.storage.run (g.run limit false).run m
    let second := Memory.storage.run (g.run limit' false).run first.storage
    second.value = .ok report ∧ second.storage.Same first.storage := by
  intro first second
  obtain ⟨catalog, hcatalog, hadmits⟩ := exists_catalog_of_run hvalid h
  obtain ⟨hreport, hstorage⟩ := run_of_admits hvalid hcatalog hadmits
  obtain ⟨c⟩ := exists_compilation_of_run hcatalog
  have hbelow : ∀ e ∈ catalog.files.map OutputFile.entry, e.1.startsWith g.outputDir = true := by
    intro e he
    obtain ⟨f, hf, rfl⟩ := List.mem_map.mp he
    exact Path.startsWith_of_isChildOf (c.isChildOf_of_mem_files hvalid f hf)
  have hfirst : first.storage = m.replace g.outputDir (catalog.files.map OutputFile.entry) :=
    hstorage
  have hagree : Memory.Agree g.translationsDir m first.storage :=
    hfirst ▸ Memory.agree_replace happart hadmits.text_ne hbelow
  -- the second run compiles the same catalog, and can write it as the first could
  have hagain : (Memory.storage.run (g.compile limit').run first.storage).value = .ok catalog := by
    rw [(Memory.storage.run_of_reads (g.reads_compile limit) m).2] at hcatalog
    rw [(Memory.storage.run_of_reads (g.reads_compile limit') first.storage).2]
    exact follows_compile hagree hlimit hvalid catalog hcatalog
  have hadmits' : first.storage.Admits g.outputDir catalog.files := by
    rw [hfirst]
    exact ⟨hadmits.text_ne, hadmits.removeAll, hadmits.createAll, hadmits.writeText⟩
  obtain ⟨hreport', hstorage'⟩ := run_of_admits hvalid hagain hadmits'
  refine ⟨hreport'.trans (hreport.symm.trans h), ?_⟩
  rw [show second.storage = _ from hstorage', hfirst]
  exact Memory.same_replace_replace hadmits.text_ne hbelow

/-- The small project, run on its old output and then once more. -/
theorem sample_idempotent :
    ∃ report,
      let first := Memory.storage.run (Sample.generator.run 5 false).run Sample.used
      let second := Memory.storage.run (Sample.generator.run 5 false).run first.storage
      first.value = .ok report ∧ second.value = .ok report ∧
        second.storage.Same first.storage := by
  obtain ⟨report, hreport⟩ := Sample.exists_report
  have hapart : Sample.generator.translationsDir.Apart Sample.generator.outputDir :=
    ⟨by decide, by decide⟩
  have hdepth : (Memory.storage.run (Sample.generator.run 5 false).run Sample.used).storage.depth ≤
      5 := by decide +kernel
  obtain ⟨hsecond, hsame⟩ := run_idempotent Sample.settings_isValid hapart hreport hdepth
  exact ⟨report, hreport, hsecond, hsame⟩

end Generator

end Phrasebook
