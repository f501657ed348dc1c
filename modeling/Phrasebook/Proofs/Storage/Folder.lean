import Phrasebook.Storage.Script

/-!
# Proofs — Storage — Folder

A directory with everything in it, as a tree.  `ShownAt` says that whoever asks for what is at a path
and below it is shown the tree: each directory is listed and each file can be read.  The files of a
tree are taken in the order of a walk, first those in its directories and then its own
(`Folder.allFiles`); if the names in each directory are in order, so are the files, and no two of them
are in one place (`Folder.pairwise_before`).
-/

namespace Phrasebook

/-- A directory: the directories in it, and its files with their texts, under their names. -/
inductive Folder where
  | mk (folders : List (String × Folder)) (files : List (String × String))

namespace Folder

/-- A file at some depth: the directories that lead to it, outermost first, its name and its text. -/
structure File where
  directories : List String
  name : String
  text : String

namespace File

/-- The file, seen from the directory that holds its folder under a name. -/
def below (directory : String) (f : File) : File :=
  { f with directories := directory :: f.directories }

/-- The path of the file, from the path of the folder. -/
def path (root : Path) (f : File) : Path :=
  (f.directories.foldl Path.join root).join f.name

/-- The segments of a section in the file. -/
def segments (f : File) : List String :=
  f.directories ++ [fileStem f.name]

/-- The place of one file comes before the place of another: directories before files, and both in
the order of their names. -/
def precedes : List String → String → List String → String → Prop
  | [], name, [], name' => name < name'
  | [], _, _ :: _, _ => False
  | _ :: _, _, [], _ => True
  | d :: ds, name, e :: es, name' => d < e ∨ d = e ∧ precedes ds name es name'

/-- A file comes before another. -/
def Before (f g : File) : Prop :=
  precedes f.directories f.name g.directories g.name

theorem not_precedes_self (directories : List String) (name : String) :
    ¬ precedes directories name directories name := by
  induction directories with
  | nil => exact String.lt_irrefl name
  | cons d ds ih =>
      rintro (h | ⟨-, h⟩)
      · exact String.lt_irrefl d h
      · exact ih h

theorem not_before_self (f : File) : ¬ f.Before f :=
  not_precedes_self f.directories f.name

end File

/-! ### What is in a folder -/

mutual

/-- The files at any depth, in the order of a walk. -/
def allFiles : Folder → List File
  | .mk folders files => filesIn folders ++ files.map fun f => ⟨[], f.1, f.2⟩

/-- The files in directories, one directory after the other. -/
def filesIn : List (String × Folder) → List File
  | [] => []
  | (name, folder) :: rest => folder.allFiles.map (File.below name) ++ filesIn rest

end

mutual

/-- The names of the directories at any depth. -/
def directoryNames : Folder → List String
  | .mk folders _ => namesIn folders

/-- The names of directories and of all directories in them. -/
def namesIn : List (String × Folder) → List String
  | [] => []
  | (name, folder) :: rest => name :: (folder.directoryNames ++ namesIn rest)

end

mutual

/-- How deep directories are nested. -/
def height : Folder → Nat
  | .mk folders _ => heightIn folders

/-- How deep directories are nested, with those in the list. -/
def heightIn : List (String × Folder) → Nat
  | [] => 0
  | (_, folder) :: rest => max (folder.height + 1) (heightIn rest)

end

mutual

/-- At a path, the folder is shown: directories are listed, and files can be read. -/
def ShownAt (oracle : (r : Request) → r.Answer) (path : Path) : Folder → Prop
  | .mk folders files =>
      oracle (.listDirectories path) = .ok (folders.map Prod.fst) ∧
        oracle (.listFiles path) = .ok (files.map Prod.fst) ∧
        (∀ f ∈ files, oracle (.readText (path.join f.1)) = .ok f.2) ∧
        ShownIn oracle path folders

/-- Under their names, folders are shown in a directory. -/
def ShownIn (oracle : (r : Request) → r.Answer) (path : Path) : List (String × Folder) → Prop
  | [] => True
  | (name, folder) :: rest => folder.ShownAt oracle (path.join name) ∧ ShownIn oracle path rest

end

mutual

/-- In each directory, the names of directories are in order, and those of files. -/
def IsSorted : Folder → Prop
  | .mk folders files =>
      (folders.map Prod.fst).Pairwise (· < ·) ∧ (files.map Prod.fst).Pairwise (· < ·) ∧
        AllSorted folders

/-- The folders are all sorted. -/
def AllSorted : List (String × Folder) → Prop
  | [] => True
  | (_, folder) :: rest => folder.IsSorted ∧ AllSorted rest

end

/-- A file is in the folder, at some depth. -/
inductive Holds : Folder → File → Prop where
  | here {folders : List (String × Folder)} {files : List (String × String)} {name text : String}
      (h : (name, text) ∈ files) : Holds (.mk folders files) ⟨[], name, text⟩
  | inside {folders : List (String × Folder)} {files : List (String × String)} {name : String}
      {folder : Folder} {f : File} (h : (name, folder) ∈ folders) (hf : Holds folder f) :
      Holds (.mk folders files) (f.below name)

/-! ### Folders in a directory -/

theorem shownIn_iff {oracle : (r : Request) → r.Answer} {path : Path}
    {folders : List (String × Folder)} :
    ShownIn oracle path folders ↔ ∀ f ∈ folders, f.2.ShownAt oracle (path.join f.1) := by
  induction folders with
  | nil => simp [ShownIn]
  | cons f rest ih => rw [ShownIn, ih, List.forall_mem_cons]

theorem allSorted_iff {folders : List (String × Folder)} :
    AllSorted folders ↔ ∀ f ∈ folders, f.2.IsSorted := by
  induction folders with
  | nil => simp [AllSorted]
  | cons f rest ih => rw [AllSorted, ih, List.forall_mem_cons]

theorem heightIn_lt_of_forall {n : Nat} (hn : 0 < n) {folders : List (String × Folder)}
    (h : ∀ f ∈ folders, f.2.height + 1 < n) : heightIn folders < n := by
  induction folders with
  | nil => exact hn
  | cons f rest ih =>
      obtain ⟨hfirst, hrest⟩ := List.forall_mem_cons.mp h
      exact Nat.max_lt.mpr ⟨hfirst, ih hrest⟩

/-! ### The files of a folder -/

mutual

/-- All files are found in the order of a walk. -/
theorem mem_allFiles_iff {f : File} : ∀ {folder : Folder}, f ∈ folder.allFiles ↔ folder.Holds f
  | .mk folders files => by
      rw [allFiles, List.mem_append, mem_filesIn_iff, List.mem_map]
      constructor
      · rintro (⟨name, folder, hfolder, g, hg, rfl⟩ | ⟨⟨name, text⟩, hfile, rfl⟩)
        · exact .inside hfolder hg
        · exact .here hfile
      · intro h
        cases h with
        | here h => exact .inr ⟨_, h, rfl⟩
        | inside h hf => exact .inl ⟨_, _, h, _, hf, rfl⟩

theorem mem_filesIn_iff {f : File} : ∀ {folders : List (String × Folder)},
    f ∈ filesIn folders ↔
      ∃ name folder, (name, folder) ∈ folders ∧ ∃ g, folder.Holds g ∧ g.below name = f
  | [] => by simp [filesIn]
  | (name, folder) :: rest => by
      have hfirst : ∀ g, g ∈ folder.allFiles ↔ folder.Holds g := fun _ => mem_allFiles_iff
      have hrest : f ∈ filesIn rest ↔
          ∃ name folder, (name, folder) ∈ rest ∧ ∃ g, folder.Holds g ∧ g.below name = f :=
        mem_filesIn_iff
      rw [filesIn, List.mem_append, List.mem_map, hrest]
      simp only [hfirst, List.mem_cons, Prod.mk.injEq]
      constructor
      · rintro (hg | ⟨name', folder', hmem, hg⟩)
        · exact ⟨name, folder, .inl ⟨rfl, rfl⟩, hg⟩
        · exact ⟨name', folder', .inr hmem, hg⟩
      · rintro ⟨name', folder', ⟨rfl, rfl⟩ | hmem, hg⟩
        · exact .inl hg
        · exact .inr ⟨name', folder', hmem, hg⟩

end

theorem mem_namesIn_iff {d : String} {folders : List (String × Folder)} :
    d ∈ namesIn folders ↔
      ∃ name folder, (name, folder) ∈ folders ∧ (d = name ∨ d ∈ folder.directoryNames) := by
  induction folders with
  | nil => simp [namesIn]
  | cons first rest ih =>
      obtain ⟨name, folder⟩ := first
      rw [namesIn, List.mem_cons, List.mem_append, ih, ← or_assoc]
      simp only [List.mem_cons, Prod.mk.injEq]
      constructor
      · rintro (hd | ⟨name', folder', hmem, hd⟩)
        · exact ⟨name, folder, .inl ⟨rfl, rfl⟩, hd⟩
        · exact ⟨name', folder', .inr hmem, hd⟩
      · rintro ⟨name', folder', ⟨rfl, rfl⟩ | hmem, hd⟩
        · exact .inl hd
        · exact .inr ⟨name', folder', hmem, hd⟩

/-- The directories that lead to a file are among those of the folder. -/
theorem Holds.mem_directoryNames {folder : Folder} {f : File} (h : folder.Holds f) :
    ∀ d ∈ f.directories, d ∈ folder.directoryNames := by
  induction h with
  | here h => nofun
  | inside h _ ih =>
      intro d hd
      rw [directoryNames, mem_namesIn_iff]
      rcases List.mem_cons.mp hd with rfl | hd
      · exact ⟨_, _, h, .inl rfl⟩
      · exact ⟨_, _, h, .inr (ih d hd)⟩

mutual

/-- **The files of a sorted folder are in order.** -/
theorem pairwise_before :
    ∀ {folder : Folder}, folder.IsSorted → folder.allFiles.Pairwise File.Before
  | .mk folders files, ⟨hfolders, hfiles, hall⟩ => by
      refine List.pairwise_append.mpr ⟨pairwise_before_filesIn hfolders hall, ?_, ?_⟩
      · have hnames := List.pairwise_map.mp hfiles
        exact List.pairwise_map.mpr (hnames.imp fun h => h)
      · intro f hf g hg
        obtain ⟨name, folder, -, f, -, rfl⟩ := mem_filesIn_iff.mp hf
        obtain ⟨g, -, rfl⟩ := List.mem_map.mp hg
        trivial

theorem pairwise_before_filesIn :
    ∀ {folders : List (String × Folder)}, (folders.map Prod.fst).Pairwise (· < ·) →
      AllSorted folders → (filesIn folders).Pairwise File.Before
  | [], _, _ => .nil
  | (name, folder) :: rest, hnames, ⟨hfolder, hrest⟩ => by
      obtain ⟨hfirst, hothers⟩ := List.pairwise_cons.mp hnames
      refine List.pairwise_append.mpr ⟨?_, pairwise_before_filesIn hothers hrest, ?_⟩
      · exact List.pairwise_map.mpr ((pairwise_before hfolder).imp fun h => .inr ⟨rfl, h⟩)
      · intro f hf g hg
        obtain ⟨f, -, rfl⟩ := List.mem_map.mp hf
        obtain ⟨name', folder', hmem, g, -, rfl⟩ := mem_filesIn_iff.mp hg
        exact .inl (hfirst name' (List.mem_map_of_mem hmem))

end

/-- No file of a sorted folder is met twice. -/
theorem nodup_allFiles {folder : Folder} (h : folder.IsSorted) : folder.allFiles.Nodup := by
  refine (pairwise_before h).imp ?_
  rintro f _ hbefore rfl
  exact f.not_before_self hbefore

end Folder

end Phrasebook
