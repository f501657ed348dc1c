import Mathlib.Data.List.Nodup
import Mathlib.Data.List.Pairwise
import Phrasebook.Proofs.Catalog.Constants
import Phrasebook.Proofs.Catalog.Taken
import Phrasebook.Proofs.Catalog.Walk
import Phrasebook.Proofs.Section.Name
import Phrasebook.Proofs.Section.Segment
import Phrasebook.Proofs.Storage.Shown

/-!
# Proofs — Catalog — Tree

What a walk makes of a directory that is known as a tree (`Folder.ShownAt`).  Each file that the
glob picks becomes one section: at its path, under the identity that the directories and its own
stem give, with the payload that its text holds (`Folder.File.ReadsAs`).

* `directory_eq_ok_iff`: a directory is walked if the names of all directories in it, at any depth,
  can be segments, and each of the files is read as a section; these are what is found, in order.
* `duplicate?_eq_none`: the check behind the walk fails for sections that share a key or a name.
* `readsFound_load`: the files of the sections are read, one after the other, and no others.

Together they say when a tree is loaded, and as what (`run_load`).  A memory has such a tree at each
of its directories, for a walk as deep as it allows (`Memory.Intact.exists_folder`), so that the
same is known of a memory whatever has been put into it (`load_of_filled`).
-/

namespace Phrasebook

/-- Sections are apart if neither their keys nor their variables are the same. -/
theorem Section.Identity.apart_iff {a b : Section.Identity} :
    a.Apart b ↔ a.key ≠ b.key ∧ a.variableName ≠ b.variableName := by
  constructor
  · intro h
    exact ⟨h.key_ne, h.variableName_ne⟩
  · rintro ⟨hkey, hvariable⟩
    have hinterface : a.interfaceName ≠ b.interfaceName := fun h =>
      hvariable (variableName_eq_iff.mpr h)
    -- a variable starts with another character than an interface
    have hhead : ∀ c d : Section.Identity, c.interfaceName ≠ d.variableName := fun c d =>
      ne_variableName (by simp [interfaceName_eq]) d
    refine ⟨hkey, ?_, ?_⟩
    · simp [hasName, hvariable, hhead a b]
    · simp [hasName, hinterface, (hhead b a).symm]

/-- What is related to two lists, one behind the other, is in two parts as well. -/
theorem forall₂_append_left_iff {α β : Type} {R : α → β → Prop} {as bs : List α} {cs : List β} :
    List.Forall₂ R (as ++ bs) cs ↔
      ∃ first rest, List.Forall₂ R as first ∧ List.Forall₂ R bs rest ∧ cs = first ++ rest := by
  constructor
  · intro h
    exact ⟨_, _, List.forall₂_take_append cs as bs h.flip |>.flip,
      List.forall₂_drop_append cs as bs h.flip |>.flip, (List.take_append_drop _ _).symm⟩
  · rintro ⟨first, rest, hfirst, hrest, rfl⟩
    exact List.rel_append hfirst hrest

/-- Lists are related to others if each of their members is to something. -/
theorem exists_forall₂_iff {α β : Type} {R : α → β → Prop} {as : List α} :
    (∃ bs, List.Forall₂ R as bs) ↔ ∀ a ∈ as, ∃ b, R a b := by
  induction as with
  | nil => simp
  | cons a as ih =>
      simp only [List.forall₂_cons_left_iff, List.forall_mem_cons, ← ih]
      constructor
      · rintro ⟨_, b, bs, hb, hbs, rfl⟩
        exact ⟨⟨b, hb⟩, bs, hbs⟩
      · rintro ⟨⟨b, hb⟩, bs, hbs⟩
        exact ⟨_, b, bs, hb, hbs, rfl⟩

/-- Related lists are alike in what holds between any two of their members. -/
theorem pairwise_iff_of_forall₂ {α β : Type} {R : α → β → Prop} {P : α → α → Prop}
    {Q : β → β → Prop} (hR : ∀ a b a' b', R a b → R a' b' → (P a a' ↔ Q b b')) {as : List α}
    {bs : List β} (h : List.Forall₂ R as bs) : as.Pairwise P ↔ bs.Pairwise Q := by
  induction h with
  | nil => simp
  | cons hab hrest ih =>
      rw [List.pairwise_cons, List.pairwise_cons, ih]
      refine and_congr_left fun _ => ⟨fun hall b' hb' => ?_, fun hall a' ha' => ?_⟩
      · obtain ⟨a', ha', hab'⟩ := exists_of_forall₂ hrest.flip hb'
        exact (hR _ _ _ _ hab hab').mp (hall a' ha')
      · obtain ⟨b', hb', hab'⟩ := exists_of_forall₂ hrest ha'
        exact (hR _ _ _ _ hab hab').mpr (hall b' hb')

/-! ### Sections of files -/

namespace Folder

/-- What a walk makes of a file, if it starts at a root under some identity. -/
structure File.ReadsAs (root : Path) (start : Section.Identity) (f : File) (s : SectionFile) :
    Prop where
  path : s.path = f.path root
  identity : start.extendAll f.segments = .ok s.identity
  payload : Payload.ofFile? f.text = .ok s.payload

namespace File

variable {root : Path} {start extended : Section.Identity} {name : String} {f : File}
  {s : SectionFile}

/-- Whether a walk starts at a directory or the one above makes no difference. -/
theorem readsAs_below_iff (h : start.extend name = .ok extended) :
    (f.below name).ReadsAs root start s ↔ f.ReadsAs (root.join name) extended s := by
  have hsegments : start.extendAll (f.below name).segments = extended.extendAll f.segments := by
    rw [show (f.below name).segments = name :: f.segments from rfl, Section.Identity.extendAll, h]
  constructor
  · rintro ⟨hpath, hidentity, hpayload⟩
    exact ⟨hpath, hsegments ▸ hidentity, hpayload⟩
  · rintro ⟨hpath, hidentity, hpayload⟩
    exact ⟨hpath, hsegments ▸ hidentity, hpayload⟩

/-- A file of the directory where the walk starts is read under its own name. -/
theorem readsAs_here_iff {oracle : (r : Request) → r.Answer} {text : String}
    (htext : oracle (.readText (root.join name)) = .ok text) :
    (⟨[], name, text⟩ : File).ReadsAs root start s ↔
      s.path = root.join name ∧ start.extend (fileStem name) = .ok s.identity ∧
        s.IsRead oracle := by
  have hsegments : start.extendAll (⟨[], name, text⟩ : File).segments =
      start.extend (fileStem name) :=
    Section.Identity.extendAll_singleton
  constructor
  · rintro ⟨hpath, hidentity, hpayload⟩
    refine ⟨hpath, hsegments ▸ hidentity, text, ?_, hpayload⟩
    rwa [show s.path = root.join name from hpath]
  · rintro ⟨hpath, hidentity, content, hcontent, hpayload⟩
    rw [hpath, htext] at hcontent
    obtain rfl := Except.ok.inj hcontent
    exact ⟨hpath, hsegments ▸ hidentity, hpayload⟩

/-- A file is read if its directories and its stem can be segments, and it parses. -/
theorem exists_readsAs_iff :
    (∃ s, f.ReadsAs root start s) ↔
      (∀ segment ∈ f.segments, Section.HasAlphanum segment) ∧
        ∃ payload, Payload.ofFile? f.text = .ok payload := by
  have hextends : (∃ extended, start.extendAll f.segments = .ok extended) ↔
      ∀ segment ∈ f.segments, Section.HasAlphanum segment := Section.Identity.exists_extendAll_iff
  rw [← hextends]
  constructor
  · rintro ⟨s, h⟩
    exact ⟨⟨s.identity, h.identity⟩, s.payload, h.payload⟩
  · rintro ⟨⟨identity, hidentity⟩, payload, hpayload⟩
    exact ⟨⟨identity, f.path root, payload⟩, rfl, hidentity, hpayload⟩

end File

/-- The sections of two files share neither their key nor their variable. -/
def File.NamedApart (start : Section.Identity) (f g : File) : Prop :=
  ∀ a b, start.extendAll f.segments = .ok a → start.extendAll g.segments = .ok b →
    a.key ≠ b.key ∧ a.variableName ≠ b.variableName

instance (start : Section.Identity) : Std.Symm (File.NamedApart start) where
  symm f g h a b ha hb := by
    obtain ⟨hkey, hvariable⟩ := h b a hb ha
    exact ⟨hkey.symm, hvariable.symm⟩

/-- Files are named apart if the sections that are read from them are apart. -/
theorem File.ReadsAs.namedApart_iff {root : Path} {start : Section.Identity} {f g : File}
    {s t : SectionFile} (hs : f.ReadsAs root start s) (ht : g.ReadsAs root start t) :
    f.NamedApart start g ↔ s.identity.Apart t.identity := by
  rw [Section.Identity.apart_iff]
  constructor
  · intro h
    exact h _ _ hs.identity ht.identity
  · intro h a b ha hb
    obtain rfl := Except.ok.inj (hs.identity.symm.trans ha)
    obtain rfl := Except.ok.inj (ht.identity.symm.trans hb)
    exact h

theorem map_path_of_forall₂ {root : Path} {start : Section.Identity} {files : List File}
    {found : List SectionFile} (h : List.Forall₂ (File.ReadsAs root start) files found) :
    found.map SectionFile.path = files.map (File.path root) := by
  induction h with
  | nil => rfl
  | cons hs _ ih => rw [List.map_cons, List.map_cons, hs.path, ih]

/-- The files that a glob picks, in the order of a walk. -/
def matching (folder : Folder) (glob : Glob) : List File :=
  folder.allFiles.filter fun f => glob.isMatch f.name

/-- A file of the folder is picked by a glob. -/
def Picks (folder : Folder) (glob : Glob) (f : File) : Prop :=
  folder.Holds f ∧ glob.isMatch f.name = true

theorem mem_matching_iff {folder : Folder} {glob : Glob} {f : File} :
    f ∈ folder.matching glob ↔ folder.Picks glob f := by
  rw [matching, List.mem_filter, mem_allFiles_iff, Picks]

/-- In a sorted folder no file is picked twice, so that any two are compared. -/
theorem pairwise_matching_iff {folder : Folder} (h : folder.IsSorted) {glob : Glob}
    {start : Section.Identity} :
    (folder.matching glob).Pairwise (File.NamedApart start) ↔
      ∀ f g, folder.Picks glob f → folder.Picks glob g → f ≠ g → f.NamedApart start g := by
  have hnodup : (folder.matching glob).Nodup := (nodup_allFiles h).filter _
  constructor
  · intro hpairwise f g hf hg hne
    exact hpairwise.forall (mem_matching_iff.mpr hf) (mem_matching_iff.mpr hg) hne
  · intro hall
    exact hnodup.pairwise_of_forall_ne fun f hf g hg =>
      hall f g (mem_matching_iff.mp hf) (mem_matching_iff.mp hg)

/-- A folder can be loaded: the names of all directories and the stems of the files that are picked
can be segments, these files parse, and no two of their sections share a key or a variable. -/
structure IsLoadable (folder : Folder) (glob : Glob) (start : Section.Identity) : Prop where
  directories : ∀ d ∈ folder.directoryNames, Section.HasAlphanum d
  stems : ∀ f, folder.Picks glob f → Section.HasAlphanum (fileStem f.name)
  parses : ∀ f, folder.Picks glob f → ∃ payload, Payload.ofFile? f.text = .ok payload
  apart : ∀ f g, folder.Picks glob f → folder.Picks glob g → f ≠ g → f.NamedApart start g

/-- Each file that is picked can be read as a section if its stem is a segment and it parses. -/
theorem exists_forall₂_readsAs_iff {folder : Folder} {glob : Glob} {root : Path}
    {start : Section.Identity}
    (hdirectories : ∀ d ∈ folder.directoryNames, Section.HasAlphanum d) :
    (∃ found, List.Forall₂ (File.ReadsAs root start) (folder.matching glob) found) ↔
      ∀ f, folder.Picks glob f → Section.HasAlphanum (fileStem f.name) ∧
        ∃ payload, Payload.ofFile? f.text = .ok payload := by
  rw [exists_forall₂_iff]
  simp only [mem_matching_iff, File.exists_readsAs_iff, File.segments, List.forall_mem_append,
    List.forall_mem_singleton]
  constructor
  · intro h f hf
    obtain ⟨⟨-, hstem⟩, hparses⟩ := h f hf
    exact ⟨hstem, hparses⟩
  · intro h f hf
    obtain ⟨hstem, hparses⟩ := h f hf
    exact ⟨⟨fun d hd => hdirectories d (hf.1.mem_directoryNames d hd), hstem⟩, hparses⟩

end Folder

/-! ### The walk -/

namespace Walk

open Folder (ShownAt ShownIn)

variable {w : Walk} {oracle : (r : Request) → r.Answer}

/-- The files in a directory are read one after the other. -/
theorem collect_file_eq_ok_iff {path : Path} {id : Section.Identity}
    {files : List (String × String)}
    (htexts : ∀ f ∈ files, oracle (.readText (path.join f.1)) = .ok f.2)
    {found : List SectionFile} :
    (Job.collect (w.file path id) (files.map Prod.fst)).eval oracle = .ok found ↔
      List.Forall₂ (Folder.File.ReadsAs path id)
        ((files.map fun f => (⟨[], f.1, f.2⟩ : Folder.File)).filter fun f =>
          w.glob.isMatch f.name) found := by
  induction files generalizing found with
  | nil =>
      rw [List.map_nil, List.map_nil, List.filter_nil, List.forall₂_nil_left_iff]
      constructor
      · intro h
        cases h
        rfl
      · rintro rfl
        rfl
  | cons f files ih =>
      obtain ⟨name, text⟩ := f
      obtain ⟨htext, hothers⟩ := List.forall_mem_cons.mp htexts
      rw [List.map_cons, List.map_cons, Job.eval_collect_cons_eq_ok]
      simp only [file_eq_ok, ih hothers]
      by_cases hmatch : w.glob.isMatch name = true
      · rw [List.filter_cons_of_pos (by exact hmatch), List.forall₂_cons_left_iff]
        simp only [hmatch, if_true, Folder.File.readsAs_here_iff htext]
        constructor
        · rintro ⟨_, rest, ⟨s, rfl, hs⟩, hrest, rfl⟩
          exact ⟨s, rest, hs, hrest, rfl⟩
        · rintro ⟨s, rest, hs, hrest, rfl⟩
          exact ⟨[s], rest, ⟨s, rfl, hs⟩, hrest, rfl⟩
      · rw [List.filter_cons_of_neg (by exact hmatch)]
        simp [hmatch]

/-- What is found below a directory is found in it under the identity with its name. -/
theorem forall₂_below_iff {path : Path} {id extended : Section.Identity} {name : String}
    (h : id.extend name = .ok extended) {files : List Folder.File} {found : List SectionFile} :
    List.Forall₂ (Folder.File.ReadsAs path id)
        ((files.map (Folder.File.below name)).filter fun f => w.glob.isMatch f.name) found ↔
      List.Forall₂ (Folder.File.ReadsAs (path.join name) extended)
        (files.filter fun f => w.glob.isMatch f.name) found := by
  have hname : (fun f => w.glob.isMatch f.name) ∘ Folder.File.below name =
      fun f => w.glob.isMatch f.name := rfl
  rw [List.filter_map, hname, List.forall₂_map_left_iff]
  simp only [Folder.File.readsAs_below_iff h]

mutual

/-- **A directory is walked** if the names of all directories in it can be segments and each file
that is picked is read as a section; these sections are found. -/
theorem directory_eq_ok_iff {limit : Nat} {path : Path} {id : Section.Identity}
    {found : List SectionFile} :
    ∀ {folder : Folder}, folder.ShownAt oracle path → folder.height < limit →
      ((w.directory limit path id).eval oracle = .ok found ↔
        (∀ d ∈ folder.directoryNames, Section.HasAlphanum d) ∧
          List.Forall₂ (Folder.File.ReadsAs path id) (folder.matching w.glob) found)
  | .mk folders files, ⟨hdirectories, hfiles, htexts, hfolders⟩, hheight => by
      -- the tree is higher than each folder in it, so that what is left of the limit is enough there
      obtain ⟨limit, rfl⟩ := Nat.exists_eq_succ_of_ne_zero (Nat.ne_zero_of_lt hheight)
      rw [directory_eq_ok, Folder.directoryNames, Folder.matching, Folder.allFiles,
        List.filter_append, forall₂_append_left_iff]
      constructor
      · rintro ⟨directories, names, below, here, hlisted, hlisted', hbelow, hhere, rfl⟩
        obtain rfl := Except.ok.inj (hlisted.symm.trans hdirectories)
        obtain rfl := Except.ok.inj (hlisted'.symm.trans hfiles)
        obtain ⟨hnames, hbelow⟩ :=
          (collect_child_eq_ok_iff hfolders (Nat.le_of_lt_succ hheight)).mp hbelow
        exact ⟨hnames, below, here, hbelow, (collect_file_eq_ok_iff htexts).mp hhere, rfl⟩
      · rintro ⟨hnames, below, here, hbelow, hhere, rfl⟩
        exact ⟨_, _, below, here, hdirectories, hfiles,
          (collect_child_eq_ok_iff hfolders (Nat.le_of_lt_succ hheight)).mpr ⟨hnames, hbelow⟩,
          (collect_file_eq_ok_iff htexts).mpr hhere, rfl⟩

/-- The directories in a directory are walked one after the other. -/
theorem collect_child_eq_ok_iff {limit : Nat} {path : Path} {id : Section.Identity}
    {found : List SectionFile} :
    ∀ {folders : List (String × Folder)}, ShownIn oracle path folders →
      Folder.heightIn folders ≤ limit →
      ((Job.collect (w.child limit path id) (folders.map Prod.fst)).eval oracle = .ok found ↔
        (∀ d ∈ Folder.namesIn folders, Section.HasAlphanum d) ∧
          List.Forall₂ (Folder.File.ReadsAs path id)
            ((Folder.filesIn folders).filter fun f => w.glob.isMatch f.name) found)
  | [], _, _ => by
      rw [List.map_nil, Folder.filesIn, List.filter_nil, List.forall₂_nil_left_iff]
      constructor
      · intro h
        cases h
        exact ⟨nofun, rfl⟩
      · rintro ⟨-, rfl⟩
        rfl
  | (name, folder) :: rest, ⟨hfolder, hothers⟩, hheight => by
      obtain ⟨hfirst, hrest⟩ := Nat.max_le.mp hheight
      rw [List.map_cons, Job.eval_collect_cons_eq_ok, Folder.namesIn, Folder.filesIn,
        List.filter_append, forall₂_append_left_iff, List.forall_mem_cons, List.forall_mem_append]
      constructor
      · rintro ⟨found, others, hchild, hcollect, rfl⟩
        obtain ⟨extended, hextended, hwalk⟩ := child_eq_ok.mp hchild
        obtain ⟨hbelow, hfound⟩ := (directory_eq_ok_iff hfolder hfirst).mp hwalk
        obtain ⟨hnames, hothersFound⟩ := (collect_child_eq_ok_iff hothers hrest).mp hcollect
        exact ⟨⟨Section.Identity.exists_extend_iff.mp ⟨extended, hextended⟩, hbelow, hnames⟩,
          found, others, (forall₂_below_iff hextended).mpr hfound, hothersFound, rfl⟩
      · rintro ⟨⟨hname, hbelow, hnames⟩, found, others, hfound, hothersFound, rfl⟩
        obtain ⟨extended, hextended⟩ := Section.Identity.exists_extend_iff.mpr hname
        have hwalk := (directory_eq_ok_iff hfolder hfirst).mpr
          ⟨hbelow, (forall₂_below_iff hextended).mp hfound⟩
        exact ⟨found, others, child_eq_ok.mpr ⟨extended, hextended, hwalk⟩,
          (collect_child_eq_ok_iff hothers hrest).mpr ⟨hnames, hothersFound⟩, rfl⟩

end

end Walk

/-! ### What is read -/

namespace Job

variable {oracle : (r : Request) → r.Answer}

/-- If the job finds sections, it has read their files, one after the other, and no others. -/
def ReadsFound (oracle : (r : Request) → r.Answer) (job : Job (List SectionFile)) : Prop :=
  ∀ files, job.eval oracle = .ok files → job.readPaths oracle = files.map SectionFile.path

theorem ReadsFound.collect {ι : Type} {job : ι → Job (List SectionFile)}
    (h : ∀ i, (job i).ReadsFound oracle) (is : List ι) : (collect job is).ReadsFound oracle := by
  induction is with
  | nil =>
      intro files hfiles
      cases hfiles
      rfl
  | cons i is ih =>
      intro files hfiles
      obtain ⟨first, rest, hfirst, hrest, rfl⟩ := eval_collect_cons_eq_ok.mp hfiles
      rw [Job.collect, readPaths_bind hfirst, readPaths_bind hrest, h i first hfirst,
        ih rest hrest]
      simp

end Job

namespace Walk

variable {w : Walk} {oracle : (r : Request) → r.Answer}

theorem readsFound_file (path : Path) (id : Section.Identity) (name : String) :
    (w.file path id name).ReadsFound oracle := by
  intro files h
  have hfile := file_eq_ok.mp h
  rw [file]
  split at hfile
  · next hmatch =>
      obtain ⟨f, rfl, hpath, hextended, content, hcontent, hpayload⟩ := hfile
      rw [hpath] at hcontent
      rw [if_pos hmatch, Job.readPaths_ofExcept_bind (extend_eq_ok.mpr hextended),
        Job.readPaths_bind (Job.eval_readText_eq_ok.mpr hcontent),
        Job.readPaths_ofExcept_bind (payload_eq_ok.mpr hpayload)]
      simp [hpath]
  · next hmatch =>
      rw [if_neg hmatch, hfile]
      simp

theorem readsFound_directory (limit : Nat) (path : Path) (id : Section.Identity) :
    (w.directory limit path id).ReadsFound oracle := by
  induction limit generalizing path id with
  | zero => exact nofun
  | succ limit ih =>
      have hchild : ∀ name, (w.child limit path id name).ReadsFound oracle := by
        intro name files h
        obtain ⟨extended, hextended, hfiles⟩ := child_eq_ok.mp h
        rw [child, Job.readPaths_ofExcept_bind (extend_eq_ok.mpr hextended), ih _ _ files hfiles]
      intro files h
      obtain ⟨directories, names, below, here, hdirectories, hnames, hbelow, hhere, rfl⟩ :=
        directory_eq_ok.mp h
      rw [directory_succ, Job.readPaths_bind (Job.eval_listDirectories_eq_ok.mpr hdirectories),
        Job.readPaths_bind hbelow, Job.readPaths_bind (Job.eval_listFiles_eq_ok.mpr hnames),
        Job.readPaths_bind hhere, Job.ReadsFound.collect hchild directories below hbelow,
        Job.ReadsFound.collect (readsFound_file path id) names here hhere]
      simp

/-- **A tree is loaded** by reading the files of its sections, each of them once. -/
theorem readsFound_load (limit : Nat) (root : Path) (start : Section.Identity) :
    (w.load limit root start).ReadsFound oracle := by
  intro files h
  obtain ⟨hfiles, hnone⟩ := load_eq_ok.mp h
  rw [load, Job.readPaths_tell_bind, Job.readPaths_bind hfiles,
    readsFound_directory limit root start files hfiles, hnone]
  simp

/-! ### Loading -/

variable {folder : Folder} {root : Path} {start : Section.Identity} {limit : Nat}

/-- What is loaded of a tree. -/
theorem load_eq_ok_iff (hshown : folder.ShownAt oracle root) (hlimit : folder.height < limit)
    {found : List SectionFile} :
    (w.load limit root start).eval oracle = .ok found ↔
      (∀ d ∈ folder.directoryNames, Section.HasAlphanum d) ∧
        List.Forall₂ (Folder.File.ReadsAs root start) (folder.matching w.glob) found ∧
          (folder.matching w.glob).Pairwise (Folder.File.NamedApart start) := by
  have hduplicates : w.duplicate? found = none ↔
      found.Pairwise fun f g => f.identity.Apart g.identity := by
    simp [duplicate?_eq, firstIdentityFault?_eq_none]
  rw [load_eq_ok, directory_eq_ok_iff hshown hlimit, hduplicates, and_assoc]
  refine and_congr_right fun _ => and_congr_right fun hfound => ?_
  exact (pairwise_iff_of_forall₂ (fun _ _ _ _ hs ht => hs.namedApart_iff ht) hfound).symm

theorem exists_load_iff (hshown : folder.ShownAt oracle root) (hsorted : folder.IsSorted)
    (hlimit : folder.height < limit) :
    (∃ found, (w.load limit root start).eval oracle = .ok found) ↔
      folder.IsLoadable w.glob start := by
  simp only [load_eq_ok_iff hshown hlimit]
  constructor
  · rintro ⟨found, hdirectories, hfound, hapart⟩
    have hfiles := (Folder.exists_forall₂_readsAs_iff hdirectories).mp ⟨found, hfound⟩
    exact ⟨hdirectories, fun f hf => (hfiles f hf).1, fun f hf => (hfiles f hf).2,
      (Folder.pairwise_matching_iff hsorted).mp hapart⟩
  · intro h
    obtain ⟨found, hfound⟩ := (Folder.exists_forall₂_readsAs_iff h.directories).mpr fun f hf =>
      ⟨h.stems f hf, h.parses f hf⟩
    exact ⟨found, h.directories, hfound, (Folder.pairwise_matching_iff hsorted).mpr h.apart⟩

/-- **Loading a tree.**  It succeeds if the tree can be loaded.  Then each file that the glob picks,
at any depth, is a section, and nothing else is: the sections come in the order of a walk, each at
its path, with its identity and its payload; and these files are read, each of them once. -/
theorem run_load {σ κ : Type} (S : Storage σ κ) {s : σ} (w : Walk)
    (hshown : folder.ShownAt (S.oracle s) root) (hsorted : folder.IsSorted)
    (hlimit : folder.height < limit) (start : Section.Identity) :
    let run := S.run (w.load limit root start).run s
    ((∃ found, run.value = .ok found) ↔ folder.IsLoadable w.glob start) ∧
      ∀ found, run.value = .ok found →
        ∃ files : List Folder.File,
          (∀ f, f ∈ files ↔ folder.Picks w.glob f) ∧ files.Pairwise Folder.File.Before ∧
            List.Forall₂ (Folder.File.ReadsAs root start) files found ∧
            run.requests.filterMap Request.readPath? =
              files.map (Folder.File.path root) := by
  intro run
  have hreads := w.reads_load limit root start
  have hvalue : run.value = (w.load limit root start).eval (S.oracle s) :=
    (S.run_of_reads hreads s).2
  have hrequests : run.requests = (w.load limit root start).asked (S.oracle s) :=
    S.requests_of_reads hreads s
  rw [hvalue]
  refine ⟨exists_load_iff hshown hsorted hlimit, ?_⟩
  intro found hfound
  obtain ⟨-, hsections, -⟩ := (load_eq_ok_iff hshown hlimit).mp hfound
  refine ⟨folder.matching w.glob, fun f => Folder.mem_matching_iff,
    (Folder.pairwise_before hsorted).filter _, hsections, ?_⟩
  rw [hrequests, ← Folder.map_path_of_forall₂ hsections]
  exact readsFound_load limit root start found hfound

/-- **Loading a directory of a memory** that refuses nothing and has no entry twice.  There is a
tree to be loaded, and if it can be, its files are the sections. -/
theorem load_of_intact {m : Memory} (hm : m.Intact) (hroot : m.hasDirectory root = true)
    (hlimit : m.depth ≤ limit) (w : Walk) (start : Section.Identity) :
    let value := (Memory.storage.run (w.load limit root start).run m).value
    ∃ folder : Folder, folder.ShownAt (Memory.storage.oracle m) root ∧
      ((∃ found, value = .ok found) ↔ folder.IsLoadable w.glob start) ∧
        ∀ found, value = .ok found →
          List.Forall₂ (Folder.File.ReadsAs root start) (folder.matching w.glob) found := by
  intro value
  obtain ⟨folder, hshown, hsorted, hheight⟩ := hm.exists_folder hroot
  have hdeep := Nat.lt_of_lt_of_le hheight hlimit
  have hvalue : value = (w.load limit root start).eval (Memory.storage.oracle m) :=
    (Memory.storage.run_of_reads (w.reads_load limit root start) m).2
  rw [hvalue]
  refine ⟨folder, hshown, exists_load_iff hshown hsorted hdeep, ?_⟩
  intro found hfound
  exact ((load_eq_ok_iff hshown hdeep).mp hfound).2.1

/-- **Whatever has filled a memory**, its directories are loaded so. -/
theorem load_of_filled {α : Type} (script : Script α) (w : Walk) (start : Section.Identity) :
    let m := (Memory.storage.run script .empty).storage
    ∀ root : Path, m.hasDirectory root = true →
      ∃ folder : Folder, folder.ShownAt (Memory.storage.oracle m) root ∧
        ((∃ found, (Memory.storage.run (w.load m.depth root start).run m).value = .ok found) ↔
          folder.IsLoadable w.glob start) := by
  intro m root hroot
  obtain ⟨folder, hshown, hloaded, -⟩ :=
    load_of_intact (Memory.intact_empty.run script) hroot le_rfl w start
  exact ⟨folder, hshown, hloaded⟩

end Walk

/-! ### A tree in the small project -/

namespace Sample

/-- What the base language of the small project has. -/
def english : Folder :=
  .mk
    [("x", .mk [] [("b.json",
      "\x7b\"translations\":\x7b\"c\":\x7b\"value\":\"\x7b\x7bn\x7d\x7d\",\"args\":[\"n\"]\x7d\x7d\x7d")])]
    [("a.json", "\x7b\"translations\":\x7b\"k\":\"K\"\x7d\x7d")]

theorem english_shownAt : english.ShownAt (Memory.storage.oracle memory) ⟨"t/en"⟩ := by
  refine ⟨?_, ?_, ?_, ⟨?_, ?_, ?_, trivial⟩, trivial⟩
  · decide +kernel
  · decide +kernel
  · decide +kernel
  · decide +kernel
  · decide +kernel
  · decide +kernel

theorem english_isSorted : english.IsSorted := by
  refine ⟨?_, ?_, ⟨?_, ?_, trivial⟩, trivial⟩
  · decide
  · decide
  · decide
  · decide

end Sample

/-- The base language of the small project is loaded. -/
theorem Walk.sample_run_load :
    let w : Walk := ⟨Sample.generator.glob, "en"⟩
    let run := Memory.storage.run (w.load 2 ⟨"t/en"⟩ .root).run Sample.memory
    ∃ found files, run.value = .ok found ∧ Sample.english.IsLoadable w.glob .root ∧
      (∀ f, f ∈ files ↔ Sample.english.Picks w.glob f) ∧ files.Pairwise Folder.File.Before ∧
        List.Forall₂ (Folder.File.ReadsAs ⟨"t/en"⟩ .root) files found ∧
        run.requests.filterMap Request.readPath? =
          files.map (Folder.File.path ⟨"t/en"⟩) := by
  intro w run
  have hheight : Sample.english.height < 2 := by decide
  have hok : ∃ found, run.value = .ok found := exists_of_isOk (by decide +kernel)
  obtain ⟨hloadable, hloaded⟩ := run_load Memory.storage w Sample.english_shownAt
    Sample.english_isSorted hheight .root
  obtain ⟨found, hfound⟩ := hok
  obtain ⟨files, hfiles⟩ := hloaded found hfound
  exact ⟨found, files, hfound, hloadable.mp ⟨found, hfound⟩, hfiles⟩

end Phrasebook
