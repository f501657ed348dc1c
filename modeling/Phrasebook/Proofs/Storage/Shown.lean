import Phrasebook.Proofs.Storage.Agreement
import Phrasebook.Proofs.Storage.Folder
import Phrasebook.Proofs.Storage.Reading

/-!
# Proofs — Storage — Shown

A memory shows its directories as trees.  Nothing keeps a memory from refusing requests or from
having an entry twice; one that does neither is *intact*, which no request changes (`Intact.run`).
To whoever asks, an intact memory shows at each of its directories a tree in which names are in
order, and which is less high than there are directories (`Intact.exists_shownAt`).
-/

namespace Phrasebook

/-- An entry of a directory is named by the directory and its own name. -/
theorem Path.same_join_of_isChildOf {p directory : Path} {name : String}
    (h : p.isChildOf directory = true) (hname : p.fileName? = some name) :
    p.same (directory.join name) = true := by
  obtain ⟨step, -, hsteps⟩ := isChildOf_iff.mp h
  obtain rfl : step = .name name := by
    unfold fileName? at hname
    rw [hsteps, List.getLast?_concat] at hname
    split at hname
    · next heq => rw [Option.some.inj heq, Option.some.inj hname]
    · cases hname
  rw [same_iff, hsteps, components_join directory (isPlain_of_fileName? hname)]

namespace Memory

/-- Paths of which no two name the same entry. -/
def Distinct (paths : List Path) : Prop :=
  paths.Pairwise fun p q => p.same q = false

/-- Entries of a directory have names of their own. -/
theorem pairwise_lt_childNames {paths : List Path} (h : Distinct paths) (directory : Path) :
    (childNames directory paths).Pairwise (· < ·) := by
  rw [childNames]
  refine pairwise_lt_sorted ?_
  rw [List.Nodup, List.pairwise_filterMap]
  have hchildren : Distinct (paths.filter fun p => p.isChildOf directory) := h.filter _
  refine hchildren.imp_of_mem fun {p q} hp hq hdistinct name hname name' hname' heq => ?_
  subst heq
  have hsame := Path.same_join_of_isChildOf (List.mem_filter.mp hp).2 hname
  have hsame' := Path.same_join_of_isChildOf (List.mem_filter.mp hq).2 hname'
  have hboth : p.same q = true :=
    Path.same_iff.mpr ((Path.same_iff.mp hsame).trans (Path.same_iff.mp hsame').symm)
  rw [hboth] at hdistinct
  cases hdistinct

/-- A memory that refuses nothing and has no entry twice. -/
structure Intact (m : Memory) : Prop where
  refusals : m.refusals = []
  directories : Distinct m.directories
  files : Distinct (m.files.map Prod.fst)

variable {m : Memory}

theorem intact_empty : empty.Intact :=
  ⟨rfl, .nil, .nil⟩

/-! ### What keeps a memory intact -/

theorem Intact.addDirectory (h : m.Intact) (path : Path) : (m.addDirectory path).Intact := by
  unfold Memory.addDirectory
  split
  · exact h
  · next hnew =>
      refine ⟨h.refusals, List.pairwise_append.mpr ⟨h.directories, List.pairwise_singleton _ _, ?_⟩,
        h.files⟩
      intro d hd q hq
      obtain rfl := List.mem_singleton.mp hq
      rw [Bool.eq_false_iff]
      intro hsame
      exact hnew (.inr (hasDirectory_iff.mpr ⟨d, hd, hsame⟩))

theorem Intact.addDirectories (h : m.Intact) (path : Path) : (m.addDirectories path).Intact := by
  unfold Memory.addDirectories
  induction path.ancestors generalizing m with
  | nil => exact h
  | cons p ps ih => exact ih (h.addDirectory p)

theorem map_fst_putFile (path : Path) (contents : String) (files : List (Path × String)) :
    (putFile path contents files).map Prod.fst =
      if files.any (fun f => f.1.same path) then files.map Prod.fst
      else files.map Prod.fst ++ [path] := by
  induction files with
  | nil => rfl
  | cons f fs ih =>
      rw [putFile]
      by_cases hsame : f.1.same path = true
      · simp [hsame]
      · rw [if_neg hsame, List.map_cons, ih]
        simp only [hsame, List.any_cons, Bool.false_or]
        split <;> rfl

theorem Intact.putFile (h : m.Intact) (path : Path) (contents : String) :
    ({ m with files := putFile path contents m.files } : Memory).Intact := by
  refine ⟨h.refusals, h.directories, ?_⟩
  rw [map_fst_putFile]
  split
  · exact h.files
  · next hnew =>
      refine List.pairwise_append.mpr ⟨h.files, List.pairwise_singleton _ _, ?_⟩
      intro p hp q hq
      obtain rfl := List.mem_singleton.mp hq
      obtain ⟨f, hf, rfl⟩ := List.mem_map.mp hp
      rw [Bool.eq_false_iff]
      intro hsame
      exact hnew (List.any_eq_true.mpr ⟨f, hf, hsame⟩)

theorem Intact.remove (h : m.Intact) (path : Path) : (m.remove path).Intact :=
  ⟨h.refusals, h.directories.filter _, h.files.sublist (List.filter_sublist.map _)⟩

/-- **No request makes a memory anything but intact.** -/
theorem Intact.answer (h : m.Intact) (r : Request) : (answer r m).2.Intact := by
  unfold Memory.answer
  split
  · exact h
  · cases r with
    | directoryExists path => exact h
    | listDirectories path => exact h
    | listFiles path => exact h
    | readText path => exact h
    | writeText path contents =>
        simp only [perform]
        split
        · exact h.putFile path contents
        · split
          · exact h.putFile path contents
          · exact h
    | removeAll path => exact h.remove path
    | createAll path => exact h.addDirectories path

theorem Intact.run {α : Type} (script : Script α) (h : m.Intact) :
    (storage.run script m).storage.Intact := by
  induction script generalizing m with
  | done a => exact h
  | ask r next ih => exact ih _ (h.answer r)
  | note n next ih => exact ih h

/-! ### What an intact memory shows -/

section Shown

variable (h : m.Intact) {path : Path} (hpath : m.hasDirectory path = true)
include h

theorem Intact.oracle_eq (r : Request) : storage.oracle m r = (m.perform r).1 := by
  have hrefusal : m.refusal? r = none := by
    rw [refusal?, h.refusals]
    rfl
  exact congrArg Prod.fst (answer_of_refusal? hrefusal)

include hpath

theorem Intact.oracle_listDirectories :
    storage.oracle m (.listDirectories path) = .ok (childNames path m.directories) := by
  rw [h.oracle_eq, perform, if_pos hpath]

theorem Intact.oracle_listFiles :
    storage.oracle m (.listFiles path) = .ok (childNames path (m.files.map Prod.fst)) := by
  rw [h.oracle_eq, perform, if_pos hpath]

end Shown

/-- A file that is listed can be read. -/
theorem Intact.exists_oracle_readText (h : m.Intact) {path : Path} {name : String}
    (hname : name ∈ childNames path (m.files.map Prod.fst)) :
    ∃ text, storage.oracle m (.readText (path.join name)) = .ok text := by
  obtain ⟨p, hp, hchild, hfile⟩ := mem_childNames.mp hname
  obtain ⟨f, hf, rfl⟩ := List.mem_map.mp hp
  have hsome : (m.files.find? fun f => f.1.same (path.join name)).isSome = true :=
    List.find?_isSome.mpr ⟨f, hf, Path.same_join_of_isChildOf hchild hfile⟩
  obtain ⟨found, hfound⟩ := Option.isSome_iff_exists.mp hsome
  refine ⟨found.2, ?_⟩
  rw [h.oracle_eq, perform, text?, hfound]
  rfl

/-- A directory that is listed is there. -/
theorem hasDirectory_join {path : Path} {name : String}
    (hname : name ∈ childNames path m.directories) : m.hasDirectory (path.join name) = true := by
  obtain ⟨p, hp, hchild, hfile⟩ := mem_childNames.mp hname
  exact hasDirectory_iff.mpr ⟨p, hp, Path.same_join_of_isChildOf hchild hfile⟩

/-- Something for each of some names. -/
theorem exists_named {α : Type} {P : String → α → Prop} {names : List String}
    (h : ∀ name ∈ names, ∃ a, P name a) :
    ∃ entries : List (String × α), entries.map Prod.fst = names ∧ ∀ e ∈ entries, P e.1 e.2 := by
  induction names with
  | nil => exact ⟨[], rfl, nofun⟩
  | cons name names ih =>
      obtain ⟨⟨a, ha⟩, hothers⟩ := List.forall_mem_cons.mp h
      obtain ⟨entries, hnames, hentries⟩ := ih hothers
      exact ⟨(name, a) :: entries, by rw [List.map_cons, hnames],
        List.forall_mem_cons.mpr ⟨ha, hentries⟩⟩

/-- **An intact memory shows a tree** at each of its directories: with names in order, and less high
than there are directories. -/
theorem Intact.exists_shownAt (h : m.Intact) (path : Path) (hpath : m.hasDirectory path = true) :
    ∃ folder : Folder, folder.ShownAt (storage.oracle m) path ∧ folder.IsSorted ∧
      folder.height < m.countBelow path := by
  -- each directory that is listed has fewer directories below it
  have hfolder : ∀ name ∈ childNames path m.directories, ∃ folder : Folder,
      folder.ShownAt (storage.oracle m) (path.join name) ∧ folder.IsSorted ∧
        folder.height + 1 < m.countBelow path := by
    intro name hname
    have hfewer := countBelow_join_lt hpath hname
    obtain ⟨folder, hshown, hsorted, hheight⟩ :=
      h.exists_shownAt (path.join name) (hasDirectory_join hname)
    exact ⟨folder, hshown, hsorted, Nat.lt_of_le_of_lt hheight hfewer⟩
  obtain ⟨folders, hnames, hfolders⟩ := exists_named hfolder
  have hfile : ∀ name ∈ childNames path (m.files.map Prod.fst),
      ∃ text, storage.oracle m (.readText (path.join name)) = .ok text :=
    fun _ hname => h.exists_oracle_readText hname
  obtain ⟨files, hfiles, htexts⟩ := exists_named hfile
  obtain ⟨d, hd, hsame⟩ := hasDirectory_iff.mp hpath
  have hpositive : 0 < m.countBelow path :=
    List.length_pos_of_mem (List.mem_filter.mpr ⟨hd, Path.startsWith_of_same hsame⟩)
  refine ⟨.mk folders files, ⟨?_, ?_, htexts, ?_⟩, ⟨?_, ?_, ?_⟩, ?_⟩
  · rw [hnames]
    exact h.oracle_listDirectories hpath
  · rw [hfiles]
    exact h.oracle_listFiles hpath
  · exact Folder.shownIn_iff.mpr fun f hf => (hfolders f hf).1
  · rw [hnames]
    exact pairwise_lt_childNames h.directories path
  · rw [hfiles]
    exact pairwise_lt_childNames h.files path
  · exact Folder.allSorted_iff.mpr fun f hf => (hfolders f hf).2.1
  · exact Folder.heightIn_lt_of_forall hpositive fun f hf => (hfolders f hf).2.2
termination_by m.countBelow path

/-- So high a tree is walked if directories may be nested as deep as the memory allows. -/
theorem Intact.exists_folder (h : m.Intact) {path : Path} (hpath : m.hasDirectory path = true) :
    ∃ folder : Folder, folder.ShownAt (storage.oracle m) path ∧ folder.IsSorted ∧
      folder.height < m.depth := by
  obtain ⟨folder, hshown, hsorted, hheight⟩ := h.exists_shownAt path hpath
  exact ⟨folder, hshown, hsorted, hheight.trans (m.countBelow_lt_depth path)⟩

end Memory

end Phrasebook
