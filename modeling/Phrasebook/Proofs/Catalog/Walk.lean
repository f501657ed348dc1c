import Phrasebook.Proofs.Catalog.Job

/-!
# Proofs — Catalog — Walk

Where the sections of a walk come from.  A walk that has ended well has listed each directory that it
has met, walked what is in it and read its files (`directory_eq_ok`).  Each section has been read:
its payload is the one that the text at its path holds (`SectionFile.IsRead`).  Its path is reached
from the directory that is walked by names that have been listed, so that it has every property that
is passed on from a directory to its entries (`isRead_of_directory`).
-/

namespace Phrasebook

/-- The text at the path of a section holds its payload. -/
def SectionFile.IsRead (oracle : (r : Request) → r.Answer) (file : SectionFile) : Prop :=
  ∃ text, oracle (.readText file.path) = .ok text ∧ Payload.ofFile? text = .ok file.payload

namespace Walk

variable {w : Walk} {oracle : (r : Request) → r.Answer} {limit : Nat} {path : Path}
  {id : Section.Identity} {files : List SectionFile}

theorem extend_eq_ok {extended : Section.Identity} {segment : String} :
    w.extend id segment path = .ok extended ↔ id.extend segment = .ok extended := by
  unfold Walk.extend
  cases id.extend segment <;> simp

theorem payload_eq_ok {content : String} {payload : Payload} :
    w.payload path content = .ok payload ↔ Payload.ofFile? content = .ok payload := by
  unfold Walk.payload
  cases Payload.ofFile? content <;> simp

/-- A file is a section if the glob picks it: the section that its name says, with what it holds. -/
theorem file_eq_ok {name : String} :
    (w.file path id name).eval oracle = .ok files ↔
      if w.glob.isMatch name = true then
        ∃ f : SectionFile, files = [f] ∧ f.path = path.join name ∧
          id.extend (fileStem name) = .ok f.identity ∧ f.IsRead oracle
      else files = [] := by
  unfold file
  split
  · constructor
    · intro h
      obtain ⟨extended, hextended, hread⟩ := Job.eval_bind_eq_ok.mp h
      obtain ⟨content, hcontent, hpayloads⟩ := Job.eval_bind_eq_ok.mp hread
      obtain ⟨payload, hpayload, hfile⟩ := Job.eval_bind_eq_ok.mp hpayloads
      cases hfile
      exact ⟨_, rfl, rfl, extend_eq_ok.mp hextended, content,
        Job.eval_readText_eq_ok.mp hcontent, payload_eq_ok.mp hpayload⟩
    · rintro ⟨⟨extended, _, payload⟩, rfl, rfl, hextended, content, hcontent, hpayload⟩
      exact Job.eval_bind_eq_ok.mpr ⟨extended, extend_eq_ok.mpr hextended,
        Job.eval_bind_eq_ok.mpr ⟨content, Job.eval_readText_eq_ok.mpr hcontent,
          Job.eval_bind_eq_ok.mpr ⟨payload, payload_eq_ok.mpr hpayload, rfl⟩⟩⟩
  · constructor
    · intro h
      obtain ⟨-, -, hnone⟩ := Job.eval_bind_eq_ok.mp h
      cases hnone
      rfl
    · rintro rfl
      exact Job.eval_bind_eq_ok.mpr ⟨(), rfl, rfl⟩

theorem isRead_of_file {name : String} (h : (w.file path id name).eval oracle = .ok files) :
    ∀ f ∈ files, f.path = path.join name ∧ f.IsRead oracle := by
  have hfile := file_eq_ok.mp h
  split at hfile
  · obtain ⟨found, rfl, hpath, -, hread⟩ := hfile
    intro f hf
    obtain rfl := List.mem_singleton.mp hf
    exact ⟨hpath, hread⟩
  · subst hfile
    nofun

/-- The walk of a directory in another, one level less deep. -/
def child (w : Walk) (limit : Nat) (path : Path) (id : Section.Identity) (name : String) :
    Job (List SectionFile) :=
  Job.ofExcept (w.extend id name (path.join name)) >>= fun extended =>
    w.directory limit (path.join name) extended

/-- A directory in another is walked if its name can be a segment. -/
theorem child_eq_ok {name : String} :
    (w.child limit path id name).eval oracle = .ok files ↔
      ∃ extended, id.extend name = .ok extended ∧
        (w.directory limit (path.join name) extended).eval oracle = .ok files := by
  rw [child, Job.eval_bind_eq_ok]
  simp only [Job.eval_ofExcept, extend_eq_ok]

theorem directory_succ : w.directory (limit + 1) path id =
    Job.listDirectories path >>= fun directories =>
      Job.collect (w.child limit path id) directories >>= fun below =>
        Job.listFiles path >>= fun names =>
          Job.collect (w.file path id) names >>= fun here => pure (below ++ here) :=
  rfl

/-- What a walk of a directory has done: listed it, walked the directories in it one level less deep,
and read the files in it. -/
theorem directory_eq_ok :
    (w.directory (limit + 1) path id).eval oracle = .ok files ↔
      ∃ directories names below here,
        oracle (.listDirectories path) = .ok directories ∧ oracle (.listFiles path) = .ok names ∧
        (Job.collect (w.child limit path id) directories).eval oracle = .ok below ∧
        (Job.collect (w.file path id) names).eval oracle = .ok here ∧ files = below ++ here := by
  rw [directory_succ]
  constructor
  · intro h
    obtain ⟨directories, hdirectories, hrest⟩ := Job.eval_bind_eq_ok.mp h
    obtain ⟨below, hbelow, hrest⟩ := Job.eval_bind_eq_ok.mp hrest
    obtain ⟨names, hnames, hrest⟩ := Job.eval_bind_eq_ok.mp hrest
    obtain ⟨here, hhere, hall⟩ := Job.eval_bind_eq_ok.mp hrest
    cases hall
    exact ⟨directories, names, below, here, Job.eval_listDirectories_eq_ok.mp hdirectories,
      Job.eval_listFiles_eq_ok.mp hnames, hbelow, hhere, rfl⟩
  · rintro ⟨directories, names, below, here, hdirectories, hnames, hbelow, hhere, rfl⟩
    exact Job.eval_bind_eq_ok.mpr ⟨directories, Job.eval_listDirectories_eq_ok.mpr hdirectories,
      Job.eval_bind_eq_ok.mpr ⟨below, hbelow, Job.eval_bind_eq_ok.mpr
        ⟨names, Job.eval_listFiles_eq_ok.mpr hnames, Job.eval_bind_eq_ok.mpr ⟨here, hhere, rfl⟩⟩⟩⟩

/-- **Every section of a walk has been read**, at a path that is reached by listed names. -/
theorem isRead_of_directory (P : Path → Prop)
    (hdirectories : ∀ p names, P p → oracle (.listDirectories p) = .ok names →
      ∀ name ∈ names, P (p.join name))
    (hfiles : ∀ p names, P p → oracle (.listFiles p) = .ok names →
      ∀ name ∈ names, P (p.join name))
    (hpath : P path) (h : (w.directory limit path id).eval oracle = .ok files) :
    ∀ f ∈ files, P f.path ∧ f.IsRead oracle := by
  induction limit generalizing path id files with
  | zero => cases h
  | succ limit ih =>
      obtain ⟨directories, names, below, here, hlisted, hlisted', hbelow, hhere, rfl⟩ :=
        directory_eq_ok.mp h
      intro f hf
      rcases List.mem_append.mp hf with hf | hf
      · obtain ⟨name, hname, found, hfound, hf⟩ := Job.exists_of_mem_collect hbelow hf
        obtain ⟨extended, -, hfound⟩ := child_eq_ok.mp hfound
        exact ih (hdirectories path directories hpath hlisted name hname) hfound f hf
      · obtain ⟨name, hname, found, hfound, hf⟩ := Job.exists_of_mem_collect hhere hf
        obtain ⟨hpathname, hread⟩ := isRead_of_file hfound f hf
        rw [hpathname]
        exact ⟨hfiles path names hpath hlisted' name hname, hread⟩

/-- In a directory without entries there are no sections. -/
theorem eq_nil_of_directory (hdirectories : oracle (.listDirectories path) = .ok [])
    (hfiles : oracle (.listFiles path) = .ok [])
    (h : (w.directory limit path id).eval oracle = .ok files) : files = [] := by
  cases limit with
  | zero => cases h
  | succ limit =>
      obtain ⟨directories, names, below, here, hlisted, hlisted', hbelow, hhere, rfl⟩ :=
        directory_eq_ok.mp h
      obtain rfl := Except.ok.inj (hlisted.symm.trans hdirectories)
      obtain rfl := Except.ok.inj (hlisted'.symm.trans hfiles)
      cases hbelow
      cases hhere
      rfl

/-- The sections of a tree are those of its directory, if none is a duplicate. -/
theorem load_eq_ok {start : Section.Identity} :
    (w.load limit path start).eval oracle = .ok files ↔
      (w.directory limit path start).eval oracle = .ok files ∧ w.duplicate? files = none := by
  constructor
  · intro h
    obtain ⟨-, -, hloaded⟩ := Job.eval_bind_eq_ok.mp h
    obtain ⟨found, hfound, hchecked⟩ := Job.eval_bind_eq_ok.mp hloaded
    split at hchecked
    · cases hchecked
    · next hnone =>
        cases hchecked
        exact ⟨hfound, hnone⟩
  · rintro ⟨hfound, hnone⟩
    refine Job.eval_bind_eq_ok.mpr ⟨(), rfl, Job.eval_bind_eq_ok.mpr ⟨files, hfound, ?_⟩⟩
    rw [hnone]
    rfl

end Walk

/-- The sections of a language are those of its directory, if there is one. -/
theorem Generator.sections_eq_ok {g : Generator} {limit : Nat} {l : Language}
    {oracle : (r : Request) → r.Answer} {files : List SectionFile}
    (h : (g.sections limit l).eval oracle = .ok files) :
    if oracle (.directoryExists (g.translationsDir.join l.shortcode)) = true then
      ((⟨g.glob, l.shortcode⟩ : Walk).directory limit (g.translationsDir.join l.shortcode)
        .root).eval oracle = .ok files
    else files = [] := by
  obtain ⟨found, hfound, hrest⟩ := Job.eval_bind_eq_ok.mp h
  obtain rfl : oracle (.directoryExists (g.translationsDir.join l.shortcode)) = found :=
    Except.ok.inj hfound
  split at hrest
  · next hthere =>
      rw [if_pos hthere]
      exact (Walk.load_eq_ok.mp hrest).1
  · next hthere =>
      rw [if_neg hthere]
      split at hrest
      · cases hrest
      · obtain ⟨-, -, hnone⟩ := Job.eval_bind_eq_ok.mp hrest
        cases hnone
        rfl

end Phrasebook
