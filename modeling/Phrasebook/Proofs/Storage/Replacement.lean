import Phrasebook.Proofs.Storage.Parent
import Phrasebook.Storage.Script

/-!
# Proofs — Storage — Replacement

A memory in which a directory is replaced: everything below it is removed, the directory and those
above it are created, and files are put there (`Memory.replace`).

* `filesBelow_replace`, `files_outside_replace`, `text?_replace`: below the directory there are just
  these files, and all others are as they were.
* `same_replace_replace`: to replace it once more by the same files changes nothing.
-/

namespace Phrasebook

namespace Path

variable {p q r : Path}

theorem startsWith_trans (h : p.startsWith q = true) (h' : q.startsWith r = true) :
    p.startsWith r = true :=
  startsWith_iff.mpr ((startsWith_iff.mp h').trans (startsWith_iff.mp h))

theorem startsWith_of_same (h : p.same q = true) : p.startsWith q = true :=
  startsWith_iff.mpr (same_iff.mp h ▸ List.prefix_rfl)

theorem same_comm : p.same q = q.same p :=
  Bool.beq_comm

/-- Two directories of which neither holds the other or is the other. -/
structure Apart (p q : Path) : Prop where
  left : p.startsWith q = false
  right : q.startsWith p = false

/-- Nothing is in both of two directories that are apart. -/
theorem Apart.not_startsWith (h : p.Apart q) (hr : r.startsWith p = true) :
    r.startsWith q = false := by
  rw [Bool.eq_false_iff]
  intro hq
  rcases List.prefix_or_prefix_of_prefix (startsWith_iff.mp hr) (startsWith_iff.mp hq) with
    hle | hle
  · exact Bool.eq_false_iff.mp h.right (startsWith_iff.mpr hle)
  · exact Bool.eq_false_iff.mp h.left (startsWith_iff.mpr hle)

end Path

namespace Memory

/-! ### Directories -/

theorem hasDirectory_iff {m : Memory} {path : Path} :
    m.hasDirectory path = true ↔ ∃ d ∈ m.directories, d.same path = true :=
  List.any_eq_true

theorem hasDirectory_congr {m : Memory} {p q : Path} (h : p.same q = true) :
    m.hasDirectory p = m.hasDirectory q := by
  have hsteps := Path.same_iff.mp h
  simp only [hasDirectory, Path.same, hsteps]

theorem hasDirectory_append (m : Memory) (new : List Path) (path : Path) :
    ({ m with directories := m.directories ++ new } : Memory).hasDirectory path =
      (m.hasDirectory path || new.any fun d => d.same path) :=
  List.any_append

/-- A directory that has been put behind the others is there. -/
theorem hasDirectory_append_cons (m : Memory) (path : Path) (new : List Path) :
    ({ m with directories := m.directories ++ path :: new } : Memory).hasDirectory path = true :=
  hasDirectory_iff.mpr ⟨path, List.mem_append_right _ List.mem_cons_self, Path.same_iff.mpr rfl⟩

/-- Directories are added behind those that are there, and only if they are not there yet. -/
theorem exists_foldl_addDirectory (paths : List Path) (m : Memory) :
    ∃ new, paths.foldl addDirectory m = { m with directories := m.directories ++ new } ∧
      (∀ d ∈ new, d ∈ paths ∧ d.text ≠ "" ∧ m.hasDirectory d = false) ∧
      ∀ p ∈ paths, p.text ≠ "" →
        ({ m with directories := m.directories ++ new } : Memory).hasDirectory p = true := by
  induction paths generalizing m with
  | nil => exact ⟨[], by simp, nofun, nofun⟩
  | cons path paths ih =>
      rw [List.foldl_cons]
      by_cases hskip : path.text = "" ∨ m.hasDirectory path = true
      · obtain ⟨new, hfold, hnew, hall⟩ := ih m
        rw [addDirectory, if_pos hskip]
        refine ⟨new, hfold, fun d hd => ?_, fun p hp htext => ?_⟩
        · obtain ⟨hmem, hmissing⟩ := hnew d hd
          exact ⟨List.mem_cons_of_mem _ hmem, hmissing⟩
        · rcases List.mem_cons.mp hp with rfl | hp
          · rw [hasDirectory_append, hskip.resolve_left htext, Bool.true_or]
          · exact hall p hp htext
      · obtain ⟨new, hfold, hnew, hall⟩ := ih { m with directories := m.directories ++ [path] }
        obtain ⟨htext, hmissing⟩ := not_or.mp hskip
        rw [addDirectory, if_neg hskip, hfold]
        simp only [List.append_assoc, List.singleton_append] at hall ⊢
        refine ⟨path :: new, rfl, fun d hd => ?_, fun p hp hptext => ?_⟩
        · rcases List.mem_cons.mp hd with rfl | hd
          · exact ⟨List.mem_cons_self, htext, Bool.eq_false_iff.mpr hmissing⟩
          · obtain ⟨hmem, hdtext, hnone⟩ := hnew d hd
            rw [hasDirectory_append, Bool.or_eq_false_iff] at hnone
            exact ⟨List.mem_cons_of_mem _ hmem, hdtext, hnone.1⟩
        · rcases List.mem_cons.mp hp with rfl | hp
          · exact m.hasDirectory_append_cons p new
          · exact hall p hp hptext

/-- Creating directories leaves everything else as it is. -/
theorem addDirectories_eq (m : Memory) (path : Path) :
    m.addDirectories path = { m with directories := (m.addDirectories path).directories } := by
  obtain ⟨new, hfold, -⟩ := exists_foldl_addDirectory path.ancestors m
  rw [addDirectories, hfold]

/-- What stands behind the directories that are left when one is removed and created anew: it, and
those above it that have been missing. -/
structure Recreates (m : Memory) (directory : Path) (new : List Path) : Prop where
  created_eq : (m.remove directory).addDirectories directory =
    { m.remove directory with
      directories := (m.remove directory).directories ++ directory :: new }
  above : ∀ d ∈ new, d.components <+: directory.components ∧ d.startsWith directory = false
  missing : ∀ d ∈ new, d ∈ directory.ancestors ∧ d.text ≠ "" ∧
    (m.remove directory).hasDirectory d = false
  there : ∀ p ∈ directory.ancestors, p.text ≠ "" →
    ((m.remove directory).addDirectories directory).hasDirectory p = true

theorem exists_recreates (m : Memory) {directory : Path} (htext : directory.text ≠ "") :
    ∃ new, m.Recreates directory new := by
  obtain ⟨above, habove, hall⟩ := directory.exists_ancestors_eq_cons
  have hgone : ¬ (m.remove directory).hasDirectory directory = true := fun h => by
    obtain ⟨d, hd, hsame⟩ := hasDirectory_iff.mp h
    have hkept := (List.mem_filter.mp hd).2
    rw [Path.startsWith_of_same hsame] at hkept
    cases hkept
  -- the directory itself comes first, then those above it
  have hfirst : (m.remove directory).addDirectory directory = { m.remove directory with
      directories := (m.remove directory).directories ++ [directory] } := by
    rw [addDirectory, if_neg (not_or.mpr ⟨htext, hgone⟩)]
  obtain ⟨new, hfold, hnew, hthere⟩ :=
    exists_foldl_addDirectory above ((m.remove directory).addDirectory directory)
  simp only [hfirst, List.append_assoc, List.singleton_append] at hfold hnew hthere
  have hcreated : (m.remove directory).addDirectories directory =
      { m.remove directory with
        directories := (m.remove directory).directories ++ directory :: new } := by
    rw [addDirectories, habove, List.foldl_cons, hfirst, hfold]
  refine ⟨new, hcreated, fun d hd => hall d (hnew d hd).1, fun d hd => ?_, fun p hp hptext => ?_⟩
  · obtain ⟨hmem, hdtext, hnone⟩ := hnew d hd
    rw [hasDirectory_append, Bool.or_eq_false_iff] at hnone
    exact ⟨habove ▸ List.mem_cons_of_mem _ hmem, hdtext, hnone.1⟩
  · rw [hcreated]
    rcases List.mem_cons.mp (habove ▸ hp) with rfl | hp
    · exact (m.remove p).hasDirectory_append_cons p new
    · exact hthere p hp hptext

/-- Every directory can be created anew but the one without a path. -/
theorem hasDirectory_recreated (m : Memory) (directory : Path) :
    ((m.remove directory).addDirectories directory).hasDirectory directory = true ↔
      directory.text ≠ "" := by
  constructor
  · rintro hhas htext
    obtain rfl : directory = ⟨""⟩ := congrArg Path.mk htext
    have hall : ∀ p : Path, p.startsWith ⟨""⟩ = true := fun p =>
      Path.startsWith_iff.mpr List.nil_prefix
    have hcreated : (m.remove ⟨""⟩).addDirectories ⟨""⟩ = m.remove ⟨""⟩ := rfl
    rw [hcreated] at hhas
    obtain ⟨d, hd, -⟩ := hasDirectory_iff.mp hhas
    have hkept := (List.mem_filter.mp hd).2
    rw [hall d] at hkept
    cases hkept
  · intro htext
    obtain ⟨new, hnew⟩ := m.exists_recreates htext
    obtain ⟨above, habove, -⟩ := directory.exists_ancestors_eq_cons
    exact hnew.there directory (habove ▸ List.mem_cons_self) htext

/-! ### Replacing a directory -/

/-- The storage with a directory replaced by one with the given files. -/
def replace (m : Memory) (directory : Path) (entries : List (Path × String)) : Memory where
  directories := ((m.remove directory).addDirectories directory).directories
  files := (m.remove directory).files ++ entries
  refusals := m.refusals

variable {m : Memory} {directory : Path} {entries : List (Path × String)}

/-- **Below the directory there are just the new files.** -/
theorem filesBelow_replace (h : ∀ e ∈ entries, e.1.startsWith directory = true) :
    (m.replace directory entries).filesBelow directory = entries := by
  have hgone : (m.remove directory).files.filter (fun f => f.1.startsWith directory) = [] := by
    refine List.filter_eq_nil_iff.mpr fun f hf => ?_
    have hkept := (List.mem_filter.mp hf).2
    simpa using hkept
  rw [filesBelow, replace, List.filter_append, hgone, List.nil_append, List.filter_eq_self.mpr h]

/-- **All other files are as they were.** -/
theorem files_outside_replace (h : ∀ e ∈ entries, e.1.startsWith directory = true) :
    (m.replace directory entries).files.filter (fun f => !f.1.startsWith directory) =
      m.files.filter fun f => !f.1.startsWith directory := by
  have hnone : entries.filter (fun f => !f.1.startsWith directory) = [] := by
    refine List.filter_eq_nil_iff.mpr fun e he => ?_
    simp [h e he]
  rw [replace, List.filter_append, hnone, List.append_nil, remove, List.filter_filter]
  simp

/-- **What each path then names.** -/
theorem text?_replace (h : ∀ e ∈ entries, e.1.startsWith directory = true) (path : Path) :
    (m.replace directory entries).text? path =
      if path.startsWith directory = true then
        (entries.find? fun e => e.1.same path).map Prod.snd
      else m.text? path := by
  have hbelow : ∀ p : Path, p.same path = true → p.startsWith directory = path.startsWith directory :=
    fun p hsame => by rw [Path.startsWith, Path.startsWith, Path.same_iff.mp hsame]
  rw [text?, replace, List.find?_append, remove, List.find?_filter]
  split
  · next hpath =>
      have hnone : m.files.find? (fun f => decide ((!f.1.startsWith directory) = true ∧
          f.1.same path = true)) = none := by
        refine List.find?_eq_none.mpr fun f _ hf => ?_
        obtain ⟨hkept, hsame⟩ := of_decide_eq_true hf
        rw [hbelow f.1 hsame, hpath] at hkept
        cases hkept
      rw [hnone, Option.none_or]
  · next hpath =>
      have hnone : entries.find? (fun e => e.1.same path) = none := by
        refine List.find?_eq_none.mpr fun e he hsame => hpath ?_
        rw [← hbelow e.1 hsame]
        exact h e he
      have hfound : (fun f : Path × String => decide ((!f.1.startsWith directory) = true ∧
          f.1.same path = true)) = fun f => f.1.same path := by
        funext f
        rw [Bool.eq_iff_iff, decide_eq_true_iff]
        refine ⟨And.right, fun hsame => ⟨?_, hsame⟩⟩
        rw [hbelow f.1 hsame, Bool.not_eq_true', Bool.eq_false_iff]
        exact hpath
      rw [hnone, Option.or_none, hfound, text?]

/-! ### Replacing it once more -/

/-- The same directories, files and refusals.  Directories have no order. -/
structure Same (m m' : Memory) : Prop where
  directories : m.directories.Perm m'.directories
  files : m.files = m'.files
  refusals : m.refusals = m'.refusals

/-- The directories of a storage in which one has been replaced. -/
theorem Recreates.directories_replace {new : List Path} (h : m.Recreates directory new) :
    (m.replace directory entries).directories =
      (m.remove directory).directories ++ directory :: new :=
  congrArg Memory.directories h.created_eq

/-- Those above it outlast the directory that has been replaced. -/
theorem Recreates.directories_remove_replace {new : List Path} (h : m.Recreates directory new) :
    ((m.replace directory entries).remove directory).directories =
      (m.remove directory).directories ++ new := by
  have hself : directory.startsWith directory = true := Path.startsWith_iff.mpr List.prefix_rfl
  have hkept : (m.remove directory).directories.filter (fun d => !d.startsWith directory) =
      (m.remove directory).directories :=
    List.filter_eq_self.mpr fun d hd => (List.mem_filter.mp hd).2
  have habove : new.filter (fun d => !d.startsWith directory) = new :=
    List.filter_eq_self.mpr fun d hd => by rw [(h.above d hd).2]; rfl
  rw [remove, h.directories_replace, List.filter_append, hkept,
    List.filter_cons_of_neg (by simp [hself]), habove]

/-- The second time nothing above the directory is missing. -/
theorem Recreates.eq_nil {new again : List Path} (h : m.Recreates directory new)
    (hagain : (m.replace directory entries).Recreates directory again) : again = [] := by
  refine List.eq_nil_iff_forall_not_mem.mpr fun p hp => ?_
  obtain ⟨hancestor, htext, hmissing⟩ := hagain.missing p hp
  obtain ⟨d, hd, hsame⟩ := hasDirectory_iff.mp (h.there p hancestor htext)
  rw [h.created_eq] at hd
  have hthere : d ∈ (m.remove directory).directories ++ new := by
    rcases List.mem_append.mp hd with hd | hd
    · exact List.mem_append_left _ hd
    · rcases List.mem_cons.mp hd with rfl | hd
      · have hbelow := Path.startsWith_of_same (Path.same_comm ▸ hsame)
        rw [(hagain.above p hp).2] at hbelow
        cases hbelow
      · exact List.mem_append_right _ hd
  rw [Bool.eq_false_iff] at hmissing
  exact hmissing (hasDirectory_iff.mpr ⟨d, h.directories_remove_replace ▸ hthere, hsame⟩)

/-- **To replace a directory by the same files once more changes nothing.** -/
theorem same_replace_replace (htext : directory.text ≠ "")
    (h : ∀ e ∈ entries, e.1.startsWith directory = true) :
    ((m.replace directory entries).replace directory entries).Same
      (m.replace directory entries) := by
  obtain ⟨new, hnew⟩ := m.exists_recreates htext
  obtain ⟨again, hagain⟩ := (m.replace directory entries).exists_recreates htext
  obtain rfl := hnew.eq_nil hagain
  refine ⟨?_, ?_, rfl⟩
  · -- the directory itself now stands behind those above it
    rw [hagain.directories_replace, hnew.directories_remove_replace, hnew.directories_replace,
      List.append_assoc]
    exact (List.perm_append_singleton directory new).append_left _
  · have hgone : ((m.replace directory entries).remove directory).files =
        (m.remove directory).files := files_outside_replace h
    rw [replace, hgone]
    rfl

end Memory

end Phrasebook
