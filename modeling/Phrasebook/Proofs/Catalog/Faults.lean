import Phrasebook.Proofs.Catalog.Walk

/-!
# Proofs — Catalog — Faults

What a job can end with, if it does not end well (`Job.FailsOnly`).  A job that is made of others
can end with what these can end with.  The walk of a directory only ends with a fault of what it
reads: a refused request, a name without a letter or digit, or a file that holds no payload; and the
loading of a tree with such a fault, or with the first duplicate among the sections that it has
found (`Walk.failsOnly_load`).  What a section that is not added is refused for is listed by
`Assembly.add_eq_error`.
-/

namespace Phrasebook

/-- Concerns something that has been read: a storage, a path segment or a translation file. -/
def CatalogFault.IsOfReading : CatalogFault → Prop
  | .storage _ _ | .invalidSegment _ _ _ | .file _ _ _ => True
  | _ => False

namespace Job

variable {α β : Type} {oracle : (r : Request) → r.Answer} {p q : CatalogFault → Prop}

/-- If the job ends with a fault, the fault satisfies `p`. -/
def FailsOnly (oracle : (r : Request) → r.Answer) (p : CatalogFault → Prop) (job : Job α) : Prop :=
  ∀ fault, job.eval oracle = .error fault → p fault

theorem FailsOnly.mono {job : Job α} (h : FailsOnly oracle p job)
    (hpq : ∀ fault, p fault → q fault) :
    FailsOnly oracle q job :=
  fun fault hfault => hpq fault (h fault hfault)

theorem failsOnly_pure (a : α) : FailsOnly oracle p (pure a) :=
  nofun

theorem failsOnly_fail {fault : CatalogFault} (h : p fault) :
    FailsOnly oracle p (fail fault : Job α) := by
  rintro _ ⟨⟩
  exact h

theorem failsOnly_ofExcept {value : Except CatalogFault α}
    (h : ∀ fault, value = .error fault → p fault) : FailsOnly oracle p (ofExcept value) :=
  h

theorem failsOnly_tell (level : Level) (text : String) : FailsOnly oracle p (tell level text) :=
  nofun

theorem failsOnly_directoryExists (path : Path) : FailsOnly oracle p (directoryExists path) :=
  nofun

/-- A job and then another, which runs only if the first has a value. -/
theorem FailsOnly.bind {job : Job α} {f : α → Job β} (h : FailsOnly oracle p job)
    (hf : ∀ a, job.eval oracle = .ok a → FailsOnly oracle p (f a)) :
    FailsOnly oracle p (job >>= f) := by
  intro fault hfault
  rw [eval_bind] at hfault
  cases hjob : job.eval oracle with
  | error e =>
      rw [hjob] at hfault
      obtain rfl := Except.error.inj hfault
      exact h e hjob
  | ok a =>
      rw [hjob] at hfault
      exact hf a hjob fault hfault

theorem FailsOnly.collect {ι : Type} {job : ι → Job (List α)}
    (h : ∀ i, FailsOnly oracle p (job i)) (is : List ι) :
    FailsOnly oracle p (collect job is) := by
  induction is with
  | nil => exact failsOnly_pure []
  | cons i is ih => exact (h i).bind fun _ _ => ih.bind fun _ _ => failsOnly_pure _

/-- A storage that refuses a request. -/
theorem failsOnly_answered {path : Path} {script : Script (Except StorageError α)} :
    FailsOnly oracle CatalogFault.IsOfReading (answered path script) := by
  intro fault hfault
  have heval : (answered path script).eval oracle =
      (script.eval oracle).mapError (.storage path) :=
    Script.eval_bind oracle _ script
  rw [heval] at hfault
  cases hreply : script.eval oracle with
  | ok a =>
      rw [hreply] at hfault
      cases hfault
  | error e =>
      rw [hreply] at hfault
      obtain rfl := Except.error.inj hfault
      trivial

end Job

open CatalogFault (IsOfReading)

namespace Walk

variable {oracle : (r : Request) → r.Answer} (w : Walk)

theorem failsOnly_extend (id : Section.Identity) (segment : String) (path : Path) :
    Job.FailsOnly oracle IsOfReading (Job.ofExcept (w.extend id segment path)) := by
  refine Job.failsOnly_ofExcept fun fault hfault => ?_
  unfold Walk.extend at hfault
  split at hfault
  · cases hfault
  · obtain rfl := Except.error.inj hfault
    trivial

theorem failsOnly_payload (path : Path) (content : String) :
    Job.FailsOnly oracle IsOfReading (Job.ofExcept (w.payload path content)) := by
  refine Job.failsOnly_ofExcept fun fault hfault => ?_
  unfold Walk.payload at hfault
  split at hfault
  · cases hfault
  · obtain rfl := Except.error.inj hfault
    trivial

theorem failsOnly_file (path : Path) (id : Section.Identity) (name : String) :
    Job.FailsOnly oracle IsOfReading (w.file path id name) := by
  unfold file
  split
  · exact (w.failsOnly_extend _ _ _).bind fun _ _ => Job.failsOnly_answered.bind fun _ _ =>
      (w.failsOnly_payload _ _).bind fun _ _ => Job.failsOnly_pure _
  · exact (Job.failsOnly_tell _ _).bind fun _ _ => Job.failsOnly_pure _

/-- **The walk of a directory** ends with a fault of what it reads, if it does not end well. -/
theorem failsOnly_directory (limit : Nat) (path : Path) (id : Section.Identity) :
    Job.FailsOnly oracle IsOfReading (w.directory limit path id) := by
  induction limit generalizing path id with
  | zero => exact Job.failsOnly_fail trivial
  | succ limit ih =>
      rw [directory_succ]
      refine Job.failsOnly_answered.bind fun directories _ => ?_
      have hbelow : Job.FailsOnly oracle IsOfReading
          (Job.collect (w.child limit path id) directories) :=
        .collect (fun name => (w.failsOnly_extend _ _ _).bind fun _ _ => ih _ _) directories
      refine hbelow.bind fun _ _ => Job.failsOnly_answered.bind fun names _ => ?_
      exact (Job.FailsOnly.collect (w.failsOnly_file path id) names).bind
        fun _ _ => Job.failsOnly_pure _

/-- Is a fault of what is read in a tree, or the first duplicate among the sections in it. -/
def LoadingFault (oracle : (r : Request) → r.Answer) (limit : Nat) (root : Path)
    (start : Section.Identity) (fault : CatalogFault) : Prop :=
  fault.IsOfReading ∨ ∃ files, (w.directory limit root start).eval oracle = .ok files ∧
    w.duplicate? files = some fault

/-- **Loading a tree** ends with a fault of what is read, or with the first duplicate. -/
theorem failsOnly_load (limit : Nat) (root : Path) (start : Section.Identity) :
    Job.FailsOnly oracle (w.LoadingFault oracle limit root start) (w.load limit root start) := by
  refine (Job.failsOnly_tell _ _).bind fun _ _ => ?_
  have hread : Job.FailsOnly oracle (w.LoadingFault oracle limit root start)
      (w.directory limit root start) :=
    (w.failsOnly_directory limit root start).mono fun _ => .inl
  refine hread.bind fun files hfiles => ?_
  cases hduplicate : w.duplicate? files with
  | none => exact (Job.failsOnly_tell _ _).bind fun _ _ => Job.failsOnly_pure files
  | some fault => exact Job.failsOnly_fail (.inr ⟨files, hfiles, hduplicate⟩)

end Walk

/-- **What keeps a section from being added**: one of its names, a template, or the base language.
-/
theorem Assembly.add_eq_error {a : Assembly} {file : SectionFile} {fault : CatalogFault}
    (h : a.add file = .error fault) :
    identityFault? a.language.shortcode a.taken file.identity file.path = some fault ∨
      (∃ problem, fault = .template a.language.shortcode file.identity.key problem) ∨
      fault = .unknownSection a.language.shortcode file.identity.key ∨
      fault = .shapeMismatch a.language.shortcode file.identity.key := by
  unfold add at h
  split at h
  · next hidentity =>
      cases h
      exact .inl hidentity
  · split at h
    · next problem _ =>
        cases h
        exact .inr (.inl ⟨problem, rfl⟩)
    · split at h
      · next hbase =>
          cases h
          unfold baseFault? at hbase
          split at hbase
          · cases hbase
          · split at hbase
            · cases hbase
              exact .inr (.inr (.inl rfl))
            · split at hbase
              · cases hbase
              · cases hbase
                exact .inr (.inr (.inr rfl))
      · cases h

end Phrasebook
