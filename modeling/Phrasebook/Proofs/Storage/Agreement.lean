import Phrasebook.Proofs.Storage.Replacement
import Phrasebook.Proofs.Text.Order

/-!
# Proofs — Storage — Agreement

What a reader can see of a memory.  Memories that agree below a path answer every question about
what is below it alike (`Agree.answer`), and a memory in which some directory has been replaced
agrees with the one before below every path that is apart from this directory (`agree_replace`).

From directory to directory a reader comes to an end: each directory that is listed has fewer
directories below it than the one that lists it (`countBelow_join_lt`).
-/

namespace Phrasebook

namespace Memory

theorem mem_childNames {directory : Path} {paths : List Path} {name : String} :
    name ∈ childNames directory paths ↔
      ∃ p ∈ paths, p.isChildOf directory = true ∧ p.fileName? = some name := by
  rw [childNames, (perm_sorted _).mem_iff, List.mem_filterMap]
  simp only [List.mem_filter, and_assoc]

/-- The names that are listed are plain. -/
theorem isPlain_of_mem_childNames {directory : Path} {paths : List Path} {name : String}
    (h : name ∈ childNames directory paths) : Path.IsPlain name := by
  obtain ⟨p, -, -, hname⟩ := mem_childNames.mp h
  exact Path.isPlain_of_fileName? hname

/-! ### Agreement below a path -/

/-- Memories that have the same below a path, and refuse the same. -/
structure Agree (place : Path) (m m' : Memory) : Prop where
  directories : (m.directories.filter fun d => d.startsWith place) =
    m'.directories.filter fun d => d.startsWith place
  files : m.filesBelow place = m'.filesBelow place
  refusals : m.refusals = m'.refusals

/-- A filter that lets through only what another does can as well come behind it. -/
theorem filter_of_filter_eq {α : Type} {as bs : List α} {p q : α → Bool}
    (h : as.filter p = bs.filter p) (hq : ∀ a, q a = true → p a = true) :
    as.filter q = bs.filter q := by
  have hbehind : ∀ cs : List α, (cs.filter p).filter q = cs.filter q := fun cs => by
    rw [List.filter_filter]
    refine List.filter_congr fun c _ => ?_
    cases hc : q c with
    | false => rfl
    | true => rw [hq c hc]; rfl
  rw [← hbehind as, ← hbehind bs, h]

namespace Agree

variable {place : Path} {m m' : Memory} (h : Agree place m m')
include h

theorem hasDirectory {path : Path} (hpath : path.startsWith place = true) :
    m.hasDirectory path = m'.hasDirectory path := by
  have hsame : ∀ d : Path, d.same path = true → d.startsWith place = true := fun d hd =>
    Path.startsWith_trans (Path.startsWith_of_same hd) hpath
  have hany : ∀ ds : List Path, ds.any (fun d => d.same path) =
      (ds.filter fun d => d.same path).any fun _ => true := fun ds => by
    rw [List.any_filter]
    simp
  rw [Memory.hasDirectory, Memory.hasDirectory, hany, hany,
    filter_of_filter_eq h.directories hsame]

theorem text? {path : Path} (hpath : path.startsWith place = true) :
    m.text? path = m'.text? path := by
  have hsame : ∀ f : Path × String, f.1.same path = true → f.1.startsWith place = true :=
    fun f hf => Path.startsWith_trans (Path.startsWith_of_same hf) hpath
  rw [Memory.text?, Memory.text?, ← List.head?_filter, ← List.head?_filter,
    filter_of_filter_eq h.files hsame]

theorem childNames_directories {path : Path} (hpath : path.startsWith place = true) :
    childNames path m.directories = childNames path m'.directories := by
  have hchild : ∀ d : Path, d.isChildOf path = true → d.startsWith place = true := fun d hd =>
    Path.startsWith_trans (Path.startsWith_of_isChildOf hd) hpath
  rw [childNames, childNames, filter_of_filter_eq h.directories hchild]

theorem childNames_files {path : Path} (hpath : path.startsWith place = true) :
    childNames path (m.files.map Prod.fst) = childNames path (m'.files.map Prod.fst) := by
  have hchild : ∀ f : Path × String, f.1.isChildOf path = true → f.1.startsWith place = true :=
    fun f hf => Path.startsWith_trans (Path.startsWith_of_isChildOf hf) hpath
  rw [childNames, childNames, List.filter_map, List.filter_map]
  simp only [Function.comp_def, filter_of_filter_eq h.files hchild]

/-- **Who reads below the path cannot tell the memories apart.** -/
theorem answer {r : Request} (hr : r.isRead = true) (hpath : r.path.startsWith place = true) :
    (answer r m).1 = (answer r m').1 := by
  have hrefusal : m.refusal? r = m'.refusal? r := by rw [refusal?, refusal?, h.refusals]
  unfold Memory.answer
  rw [hrefusal]
  cases m'.refusal? r with
  | some reason => rfl
  | none =>
      cases r with
      | directoryExists path => exact h.hasDirectory hpath
      | listDirectories path =>
          have hbelow : path.startsWith place = true := hpath
          rw [perform, perform, h.hasDirectory hbelow, h.childNames_directories hbelow]
      | listFiles path =>
          have hbelow : path.startsWith place = true := hpath
          rw [perform, perform, h.hasDirectory hbelow, h.childNames_files hbelow]
      | readText path =>
          have hbelow : path.startsWith place = true := hpath
          rw [perform, perform, h.text? hbelow]
      | writeText | removeAll | createAll => cases hr

end Agree

/-- **A directory that is replaced is not seen from a path apart from it.** -/
theorem agree_replace {m : Memory} {place directory : Path} {entries : List (Path × String)}
    (happart : place.Apart directory) (htext : directory.text ≠ "")
    (h : ∀ e ∈ entries, e.1.startsWith directory = true) :
    Agree place m (m.replace directory entries) := by
  obtain ⟨new, hnew⟩ := m.exists_recreates htext
  refine ⟨?_, ?_, rfl⟩
  · have habove : (directory :: new).filter (fun d => d.startsWith place) = [] := by
      refine List.filter_eq_nil_iff.mpr fun d hd hplace => ?_
      have hprefix : d.components <+: directory.components := by
        rcases List.mem_cons.mp hd with rfl | hd
        · exact List.prefix_rfl
        · exact (hnew.above d hd).1
      exact Bool.eq_false_iff.mp happart.right
        (Path.startsWith_trans (Path.startsWith_iff.mpr hprefix) hplace)
    rw [hnew.directories_replace, List.filter_append, habove, List.append_nil, remove,
      List.filter_filter]
    refine List.filter_congr fun d _ => ?_
    cases hplace : d.startsWith place with
    | false => rfl
    | true => rw [happart.not_startsWith hplace]; rfl
  · have hoff : ∀ f : Path × String, f.1.startsWith place = true →
        (!f.1.startsWith directory) = true := fun f hf => by
      rw [happart.not_startsWith hf]
      rfl
    exact filter_of_filter_eq (files_outside_replace h).symm hoff

/-! ### How deep directories are nested -/

/-- The number of directories at a path and below it. -/
def countBelow (m : Memory) (path : Path) : Nat :=
  (m.directories.filter fun d => d.startsWith path).length

theorem countBelow_lt_depth (m : Memory) (path : Path) : m.countBelow path < m.depth :=
  Nat.lt_succ_of_le (List.length_filter_le _ _)

/-- **A directory in a directory has fewer below it.** -/
theorem countBelow_join_lt {m : Memory} {path : Path} {name : String}
    (hpath : m.hasDirectory path = true) (hname : name ∈ childNames path m.directories) :
    m.countBelow (path.join name) < m.countBelow path := by
  have hsteps := Path.components_join path (isPlain_of_mem_childNames hname)
  have hchild : ∀ d : Path, d.startsWith (path.join name) = true → d.startsWith path = true :=
    fun d hd => Path.startsWith_trans hd (Path.startsWith_iff.mpr ⟨_, hsteps.symm⟩)
  have hbehind : (m.directories.filter fun d => d.startsWith (path.join name)) =
      (m.directories.filter fun d => d.startsWith path).filter
        fun d => d.startsWith (path.join name) := by
    rw [List.filter_filter]
    refine List.filter_congr fun d _ => ?_
    cases hd : d.startsWith (path.join name) with
    | false => rfl
    | true => rw [hchild d hd]; rfl
  rw [countBelow, countBelow, hbehind, List.length_filter_lt_length_iff_exists]
  -- the directory itself is not below the one in it
  obtain ⟨d, hd, hsame⟩ := hasDirectory_iff.mp hpath
  refine ⟨d, List.mem_filter.mpr ⟨hd, Path.startsWith_of_same hsame⟩, fun hbelow => ?_⟩
  have hlength := (Path.startsWith_iff.mp hbelow).length_le
  rw [hsteps, Path.same_iff.mp hsame, List.length_append, List.length_singleton] at hlength
  omega

/-! ### Listings -/

/-- What a directory lists of some paths, unless it is refused. -/
def listing (m : Memory) (refusal : Option String) (path : Path) (paths : List Path) :
    Except StorageError (List String) :=
  match refusal with
  | some reason => .error (.refused reason)
  | none => if m.hasDirectory path then .ok (childNames path paths) else .error (.missing path)

theorem answer_listDirectories (m : Memory) (path : Path) :
    (answer (.listDirectories path) m).1 =
      m.listing (m.refusal? (.listDirectories path)) path m.directories := by
  unfold answer listing
  cases m.refusal? (.listDirectories path) <;> rfl

theorem answer_listFiles (m : Memory) (path : Path) :
    (answer (.listFiles path) m).1 =
      m.listing (m.refusal? (.listFiles path)) path (m.files.map Prod.fst) := by
  unfold answer listing
  cases m.refusal? (.listFiles path) <;> rfl

/-- Only a directory that is there lists something. -/
theorem eq_of_listing {m : Memory} {refusal : Option String} {path : Path} {paths : List Path}
    {names : List String} (h : m.listing refusal path paths = .ok names) :
    m.hasDirectory path = true ∧ names = childNames path paths := by
  unfold listing at h
  split at h
  · cases h
  · split at h
    · next hpath =>
        cases h
        exact ⟨hpath, rfl⟩
    · cases h

end Memory

end Phrasebook
