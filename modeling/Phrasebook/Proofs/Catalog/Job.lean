import Phrasebook.Catalog.Generator
import Phrasebook.Proofs.Storage.Reading

/-!
# Proofs — Catalog — Job

Jobs, which are scripts that may end with a fault.  `run_bind` says what a run of one job and then
another is.  A job that only reads is known by its value alone (`eval`); there the parts of a job
are the parts of a computation that may fail, and `eval_bind_eq_ok` takes them apart.  The files that
it reads are those that its parts read (`readPaths_bind`).  The notes that a job makes change nothing
of this: sections are added with a note on each as they are added without (`Assembly.eval_addEach`).
-/

namespace Phrasebook

/-- The path of a file that is to be read. -/
def Request.readPath? : Request → Option Path
  | .readText path => some path
  | _ => none

namespace Job

variable {α β σ κ : Type}

/-! ### Runs -/

/-- The run of a job that has failed, as the run of all that was to follow it. -/
def failed (first : Run σ (Except CatalogFault α)) (e : CatalogFault) :
    Run σ (Except CatalogFault β) :=
  { first with value := .error e }

/-- **Runs of jobs compose.**  The second job runs only if the first has a value. -/
theorem run_bind (S : Storage σ κ) (job : Job α) (f : α → Job β) (s : σ) :
    S.run (job >>= f).run s =
      match (S.run job.run s).value with
      | .error e => failed (S.run job.run s) e
      | .ok a => (S.run job.run s).followedBy (S.run (f a).run (S.run job.run s).storage) := by
  have hbind : S.run (job >>= f).run s =
      (S.run job.run s).followedBy
        (S.run (ExceptT.bindCont f (S.run job.run s).value) (S.run job.run s).storage) :=
    Script.run_bind S.answer (ExceptT.bindCont f) job.run s
  rw [hbind]
  cases (S.run job.run s).value with
  | error e =>
      simp [Run.followedBy, failed, Storage.run, ExceptT.bindCont, Pure.pure, Script.run]
  | ok a => rfl

theorem value_bind (S : Storage σ κ) (job : Job α) (f : α → Job β) (s : σ) :
    (S.run (job >>= f).run s).value =
      match (S.run job.run s).value with
      | .error e => .error e
      | .ok a => (S.run (f a).run (S.run job.run s).storage).value := by
  rw [run_bind]
  cases (S.run job.run s).value <;> rfl

/-- A job and then another succeed if the first does, and the second where the first has ended. -/
theorem value_bind_eq_ok {S : Storage σ κ} {job : Job α} {f : α → Job β} {s : σ} {b : β} :
    (S.run (job >>= f).run s).value = .ok b ↔
      ∃ a, (S.run job.run s).value = .ok a ∧
        (S.run (f a).run (S.run job.run s).storage).value = .ok b := by
  rw [value_bind]
  cases (S.run job.run s).value <;> simp

theorem requests_bind (S : Storage σ κ) (job : Job α) (f : α → Job β) (s : σ) :
    (S.run (job >>= f).run s).requests =
      (S.run job.run s).requests ++
        match (S.run job.run s).value with
        | .error _ => []
        | .ok a => (S.run (f a).run (S.run job.run s).storage).requests := by
  rw [run_bind]
  cases (S.run job.run s).value with
  | error e => simp [failed]
  | ok a => rfl

theorem run_writeText (S : Storage σ κ) (path : Path) (contents : String) (s : σ) :
    S.run (writeText path contents).run s =
      ⟨(S.answer (.writeText path contents) s).1.mapError (.storage path),
        (S.answer (.writeText path contents) s).2, [.writeText path contents], []⟩ :=
  rfl

theorem run_removeAll (S : Storage σ κ) (path : Path) (s : σ) :
    S.run (removeAll path).run s =
      ⟨(S.answer (.removeAll path) s).1.mapError (.storage path),
        (S.answer (.removeAll path) s).2, [.removeAll path], []⟩ :=
  rfl

theorem run_createAll (S : Storage σ κ) (path : Path) (s : σ) :
    S.run (createAll path).run s =
      ⟨(S.answer (.createAll path) s).1.mapError (.storage path),
        (S.answer (.createAll path) s).2, [.createAll path], []⟩ :=
  rfl

/-! ### The requests that a job can ask -/

/-- The job asks only what changes nothing. -/
abbrev Reads (job : Job α) : Prop :=
  job.run.Reads

theorem reads_pure (a : α) : (pure a : Job α).Reads :=
  trivial

theorem reads_fail (fault : CatalogFault) : (fail fault : Job α).Reads :=
  trivial

theorem reads_ofExcept (value : Except CatalogFault α) : (ofExcept value).Reads :=
  trivial

theorem reads_tell (level : Level) (text : String) : (tell level text).Reads :=
  trivial

theorem reads_bind {job : Job α} {f : α → Job β} (h : job.Reads) (hf : ∀ a, (f a).Reads) :
    (job >>= f).Reads :=
  Script.Asks.bind h fun value =>
    match value with
    | .ok a => hf a
    | .error _ => trivial

theorem reads_directoryExists (path : Path) : (directoryExists path).Reads :=
  ⟨rfl, fun _ => trivial⟩

theorem reads_listDirectories (path : Path) : (listDirectories path).Reads :=
  ⟨rfl, fun _ => trivial⟩

theorem reads_listFiles (path : Path) : (listFiles path).Reads :=
  ⟨rfl, fun _ => trivial⟩

theorem reads_readText (path : Path) : (readText path).Reads :=
  ⟨rfl, fun _ => trivial⟩

theorem reads_collect {ι : Type} {job : ι → Job (List α)} (h : ∀ i, (job i).Reads) :
    ∀ is, (collect job is).Reads
  | [] => reads_pure []
  | i :: is => reads_bind (h i) fun _ => reads_bind (reads_collect h is) fun _ => reads_pure _

/-! ### Values -/

/-- The value of a job that is always answered alike. -/
def eval (oracle : (r : Request) → r.Answer) (job : Job α) : Except CatalogFault α :=
  job.run.eval oracle

variable {oracle : (r : Request) → r.Answer}

@[simp] theorem eval_ofExcept (value : Except CatalogFault α) :
    (ofExcept value).eval oracle = value :=
  rfl

theorem eval_bind (job : Job α) (f : α → Job β) :
    (job >>= f).eval oracle =
      match job.eval oracle with
      | .error e => .error e
      | .ok a => (f a).eval oracle := by
  have hbind : (job >>= f).eval oracle =
      Script.eval oracle (ExceptT.bindCont f (job.eval oracle)) :=
    Script.eval_bind oracle (ExceptT.bindCont f) job.run
  rw [hbind]
  cases job.eval oracle <;> rfl

/-- A job and then another have a value if the first has one on which the second has it. -/
theorem eval_bind_eq_ok {job : Job α} {f : α → Job β} {b : β} :
    (job >>= f).eval oracle = .ok b ↔
      ∃ a, job.eval oracle = .ok a ∧ (f a).eval oracle = .ok b := by
  rw [eval_bind]
  cases job.eval oracle <;> simp

/-- A fault is made of an error only. -/
theorem mapError_eq_ok {ε ε' : Type} {f : ε → ε'} {reply : Except ε α} {a : α} :
    reply.mapError f = .ok a ↔ reply = .ok a := by
  cases reply with
  | error e => exact ⟨nofun, nofun⟩
  | ok b =>
      exact ⟨fun h => congrArg Except.ok (Except.ok.inj h),
        fun h => congrArg Except.ok (Except.ok.inj h)⟩

theorem eval_listDirectories_eq_ok {path : Path} {names : List String} :
    (listDirectories path).eval oracle = .ok names ↔ oracle (.listDirectories path) = .ok names :=
  mapError_eq_ok

theorem eval_listFiles_eq_ok {path : Path} {names : List String} :
    (listFiles path).eval oracle = .ok names ↔ oracle (.listFiles path) = .ok names :=
  mapError_eq_ok

theorem eval_readText_eq_ok {path : Path} {text : String} :
    (readText path).eval oracle = .ok text ↔ oracle (.readText path) = .ok text :=
  mapError_eq_ok

/-- Items are collected if the first gives something, and the others. -/
theorem eval_collect_cons_eq_ok {ι : Type} {job : ι → Job (List α)} {i : ι} {is : List ι}
    {as : List α} :
    (collect job (i :: is)).eval oracle = .ok as ↔
      ∃ first rest, (job i).eval oracle = .ok first ∧
        (collect job is).eval oracle = .ok rest ∧ as = first ++ rest := by
  constructor
  · intro h
    obtain ⟨first, hfirst, hothers⟩ := eval_bind_eq_ok.mp h
    obtain ⟨rest, hrest, hall⟩ := eval_bind_eq_ok.mp hothers
    cases hall
    exact ⟨first, rest, hfirst, hrest, rfl⟩
  · rintro ⟨first, rest, hfirst, hrest, rfl⟩
    exact eval_bind_eq_ok.mpr ⟨first, hfirst, eval_bind_eq_ok.mpr ⟨rest, hrest, rfl⟩⟩

/-- What is collected has been given for one of the items. -/
theorem exists_of_mem_collect {ι : Type} {job : ι → Job (List α)} {is : List ι} {as : List α}
    (h : (collect job is).eval oracle = .ok as) {a : α} (ha : a ∈ as) :
    ∃ i ∈ is, ∃ found, (job i).eval oracle = .ok found ∧ a ∈ found := by
  induction is generalizing as with
  | nil =>
      cases h
      cases ha
  | cons i is ih =>
      obtain ⟨first, rest, hfirst, hrest, rfl⟩ := eval_collect_cons_eq_ok.mp h
      rcases List.mem_append.mp ha with ha | ha
      · exact ⟨i, List.mem_cons_self, first, hfirst, ha⟩
      · obtain ⟨j, hj, found, hfound, ha⟩ := ih hrest ha
        exact ⟨j, List.mem_cons_of_mem _ hj, found, hfound, ha⟩

/-! ### Requests -/

/-- The requests of a job that is always answered alike. -/
def asked (oracle : (r : Request) → r.Answer) (job : Job α) : List Request :=
  job.run.asked oracle

theorem asked_bind_of_ok {job : Job α} {f : α → Job β} {a : α} (h : job.eval oracle = .ok a) :
    (job >>= f).asked oracle = job.asked oracle ++ (f a).asked oracle := by
  have hbind : (job >>= f).asked oracle =
      job.asked oracle ++ Script.asked oracle (ExceptT.bindCont f (job.eval oracle)) :=
    Script.asked_bind oracle (ExceptT.bindCont f) job.run
  rw [hbind, h]
  rfl

/-- The paths of the files that a job reads. -/
def readPaths (oracle : (r : Request) → r.Answer) (job : Job α) : List Path :=
  (job.asked oracle).filterMap Request.readPath?

theorem readPaths_bind {job : Job α} {f : α → Job β} {a : α} (h : job.eval oracle = .ok a) :
    (job >>= f).readPaths oracle = job.readPaths oracle ++ (f a).readPaths oracle := by
  rw [readPaths, asked_bind_of_ok h, List.filterMap_append, readPaths, readPaths]

@[simp] theorem readPaths_pure (a : α) : (pure a : Job α).readPaths oracle = [] :=
  rfl

theorem readPaths_ofExcept_bind {value : Except CatalogFault α} {f : α → Job β} {a : α}
    (h : value = .ok a) : (ofExcept value >>= f).readPaths oracle = (f a).readPaths oracle := by
  rw [h]
  rfl

@[simp] theorem readPaths_tell_bind (level : Level) (text : String) (f : Unit → Job α) :
    (tell level text >>= f).readPaths oracle = (f ()).readPaths oracle :=
  rfl

@[simp] theorem readPaths_listDirectories (path : Path) :
    (listDirectories path).readPaths oracle = [] :=
  rfl

@[simp] theorem readPaths_listFiles (path : Path) : (listFiles path).readPaths oracle = [] :=
  rfl

@[simp] theorem readPaths_readText (path : Path) : (readText path).readPaths oracle = [path] :=
  rfl

end Job

/-! ### Adding sections -/

namespace Assembly

/-- Sections are added without a request. -/
theorem asks_addEach (p : Request → Prop) (a : Assembly) (files : List SectionFile) :
    (a.addEach files).run.Asks p := by
  induction files generalizing a with
  | nil => trivial
  | cons file files ih =>
      refine Script.Asks.bind (f := ExceptT.bindCont _) trivial fun value => ?_
      cases value with
      | error fault => trivial
      | ok next => exact ih next

/-- **Sections are added** with their notes just as they are without. -/
theorem eval_addEach (oracle : (r : Request) → r.Answer) (a : Assembly) (files : List SectionFile) :
    (a.addEach files).eval oracle = a.addAll files := by
  induction files generalizing a with
  | nil => rfl
  | cons file files ih =>
      rw [Assembly.addEach, Assembly.addAll, Job.eval_bind, Job.eval_ofExcept]
      cases a.add file with
      | error fault => rfl
      | ok next => exact ih next

end Assembly

end Phrasebook
