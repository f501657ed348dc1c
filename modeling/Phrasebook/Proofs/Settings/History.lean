import Phrasebook.Catalog.Generator
import Phrasebook.Proofs.Storage.Reading
import Phrasebook.Settings.Lookup

/-!
# Proofs — Settings — History

The settings of a project after any calls.  A call offers settings, which are given or found in a
storage, or it fails to find any; what it offers depends on the root of the project alone
(`Call.offer`).  An offer is taken just if it has no problems, and a project whose call fails stays
as it is (`answer_eq_ok_iff`, `answer_eq_error_iff`).  So a project holds the last settings that have
been taken, or the defaults (`settings_calls`), and these have no problems.  In particular their file
pattern is one, so that there is a generator for them.
-/

namespace Phrasebook

/-- The file pattern of valid settings can be read. -/
theorem Settings.IsValid.exists_glob {settings : Settings} (h : settings.IsValid) :
    ∃ glob, Glob.ofPattern? settings.filePattern = .ok glob := by
  have hpattern : patternProblem? settings.filePattern = none := by
    simp only [IsValid, problems, List.append_eq_nil_iff, Option.toList_eq_nil_iff] at h
    exact h.1.1.2
  unfold patternProblem? at hpattern
  split at hpattern
  · cases hpattern
  · split at hpattern
    next glob hglob => exact ⟨glob, hglob⟩
    next => cases hpattern

/-- The settings that are found: the defaults if there are none. -/
def SettingsSource.settings? : SettingsSource → Except ConfigError Settings
  | .absent => .ok .default
  | .unreadable reason => .error (.unreadable reason)
  | .content text => (Settings.ofText? text).mapError .malformed

namespace Project

variable {σ κ : Type}

/-- What can be done to the settings of a project. -/
inductive Call (σ : Type) where
  /-- Gives other settings. -/
  | update (settings : Settings)
  /-- Loads the settings that a storage holds by then, from the file that is named, if one is. -/
  | load (s : σ) (file : Option String)

/-- The project that a call gives, or why it fails. -/
def answer (S : Storage σ κ) (p : Project) : Call σ → Except ConfigError Project
  | .update settings => p.update settings
  | .load s file => (S.run (p.loadFrom file) s).value

/-- The project behind a call; one that fails leaves it as it is. -/
def call (S : Storage σ κ) (p : Project) (c : Call σ) : Project :=
  match p.answer S c with
  | .ok next => next
  | .error _ => p

/-- The project behind calls one after the other. -/
def calls (S : Storage σ κ) (p : Project) (cs : List (Call σ)) : Project :=
  cs.foldl (call S) p

/-- The settings that a call offers to a project with some root, or why there are none. -/
def Call.offer (S : Storage σ κ) (root : Path) : Call σ → Except ConfigError Settings
  | .update settings => .ok settings
  | .load s file => (S.run ((Project.new root).lookup file) s).value.settings?

/-- The settings that a call offers, if they have no problems. -/
def Call.taken? (S : Storage σ κ) (root : Path) (c : Call σ) : Option Settings :=
  match c.offer S root with
  | .ok settings => if settings.problems = [] then some settings else none
  | .error _ => none

variable {S : Storage σ κ} {p : Project} {c : Call σ}

/-! ### One call -/

theorem load_eq (p : Project) (source : SettingsSource) :
    p.load source = source.settings?.bind p.update := by
  cases source with
  | absent => rfl
  | unreadable reason => rfl
  | content text =>
      simp only [load, SettingsSource.settings?]
      cases Settings.ofText? text <;> rfl

/-- A project is asked for its root alone. -/
theorem lookup_eq (p : Project) (file : Option String) :
    p.lookup file = (Project.new p.root).lookup file := by
  cases file with
  | none => rfl
  | some file => rfl

theorem value_take (S : Storage σ κ) (p : Project) (source : SettingsSource) (s : σ) :
    (S.run (p.take source) s).value = p.load source := by
  unfold take
  cases p.load source with
  | ok loaded => rfl
  | error e => rfl

/-- **A call updates a project with what it offers.** -/
theorem answer_eq (S : Storage σ κ) (p : Project) (c : Call σ) :
    p.answer S c = (c.offer S p.root).bind p.update := by
  cases c with
  | update settings => rfl
  | load s file =>
      have hvalue : (S.run (p.loadFrom file) s).value =
          p.load (S.run (p.lookup file) s).value := by
        have hrun := Script.run_bind S.answer p.take (p.lookup file) s
        exact (congrArg Run.value hrun).trans (value_take S p _ _)
      rw [answer, hvalue, load_eq, lookup_eq, Call.offer]

/-- **A call is taken** if what it offers has no problems; only the settings change. -/
theorem answer_eq_ok_iff {next : Project} :
    p.answer S c = .ok next ↔
      c.offer S p.root = .ok next.settings ∧ next.settings.problems = [] ∧ next.root = p.root := by
  rw [answer_eq]
  cases c.offer S p.root with
  | error e => simp [Except.bind]
  | ok settings =>
      simp only [Except.bind, update, Except.ok.injEq]
      constructor
      · intro h
        split at h
        next hvalid =>
          cases h
          exact ⟨rfl, hvalid, rfl⟩
        next => cases h
      · rintro ⟨rfl, hvalid, hroot⟩
        rw [dif_pos (show next.settings.IsValid from hvalid), ← hroot]

/-- **A call fails** if it offers nothing, for the same reason, or else for the problems of what it
offers. -/
theorem answer_eq_error_iff {e : ConfigError} :
    p.answer S c = .error e ↔
      c.offer S p.root = .error e ∨ ∃ settings, c.offer S p.root = .ok settings ∧
        settings.problems ≠ [] ∧ e = .invalid settings.problems := by
  rw [answer_eq]
  cases c.offer S p.root with
  | error e' => simp [Except.bind]
  | ok settings =>
      simp only [Except.bind, update]
      constructor
      · intro h
        split at h
        next => cases h
        next hinvalid =>
          cases h
          exact .inr ⟨settings, rfl, hinvalid, rfl⟩
      · rintro (h | ⟨_, h, hinvalid, rfl⟩)
        · cases h
        · cases h
          rw [dif_neg (show ¬ settings.IsValid from hinvalid)]

theorem call_of_ok {next : Project} (h : p.answer S c = .ok next) : p.call S c = next := by
  simp only [call, h]

theorem call_of_error {e : ConfigError} (h : p.answer S c = .error e) : p.call S c = p := by
  simp only [call, h]

/-- A project behind a call: what has been taken, or what it had. -/
theorem settings_call (S : Storage σ κ) (p : Project) (c : Call σ) :
    (p.call S c).root = p.root ∧
      (p.call S c).settings = (c.taken? S p.root).getD p.settings := by
  cases hanswer : p.answer S c with
  | ok next =>
      obtain ⟨hoffer, hvalid, hroot⟩ := answer_eq_ok_iff.mp hanswer
      rw [call_of_ok hanswer, Call.taken?, hoffer]
      simp only [hvalid, if_true, Option.getD_some, hroot, and_self]
  | error e =>
      have hnone : c.taken? S p.root = none := by
        rcases answer_eq_error_iff.mp hanswer with hoffer | ⟨settings, hoffer, hinvalid, -⟩
        · rw [Call.taken?, hoffer]
        · rw [Call.taken?, hoffer]
          exact if_neg hinvalid
      rw [call_of_error hanswer, hnone]
      exact ⟨rfl, rfl⟩

/-! ### Any calls -/

/-- **A project holds the last settings that have been taken**, or those that it had. -/
theorem settings_calls (S : Storage σ κ) (p : Project) (cs : List (Call σ)) :
    (p.calls S cs).root = p.root ∧
      (p.calls S cs).settings = (cs.filterMap (Call.taken? S p.root)).getLast?.getD p.settings := by
  induction cs generalizing p with
  | nil => exact ⟨rfl, rfl⟩
  | cons c cs ih =>
      obtain ⟨hroot, hsettings⟩ := p.settings_call S c
      obtain ⟨hroots, hall⟩ := ih (p.call S c)
      rw [hroot] at hroots hall
      refine ⟨hroots, hall.trans ?_⟩
      rw [hsettings, List.filterMap_cons]
      cases c.taken? S p.root with
      | none => rfl
      | some settings => rw [List.getLast?_cons, Option.getD_some, Option.getD_some]

/-- **A project never holds invalid settings.**  After any calls on a new project, it holds the last
settings that have been taken, or else the defaults; they have no problems, and there is a generator
for them.  One more call either gives the project with the settings that it offers, which have no
problems, or fails and leaves the project as it is. -/
theorem calls_new (S : Storage σ κ) (root : Path) (cs : List (Call σ)) :
    let p := (Project.new root).calls S cs
    p.root = root ∧
      p.settings = (cs.filterMap (Call.taken? S root)).getLast?.getD .default ∧
      p.settings.problems = [] ∧
      (∃ glob, Glob.ofPattern? p.settings.filePattern = .ok glob ∧
        Generator.ofProject? p =
          .ok ⟨p.settings, glob, p.settings.runtime, p.translationsDir, p.outputDir⟩) ∧
      ∀ c, (∃ settings, c.offer S root = .ok settings ∧ settings.problems = [] ∧
          p.answer S c = .ok (p.call S c) ∧ (p.call S c).root = root ∧
            (p.call S c).settings = settings) ∨
        (∃ e, p.answer S c = .error e ∧ p.call S c = p ∧
          (c.offer S root = .error e ∨ ∃ settings, c.offer S root = .ok settings ∧
            settings.problems ≠ [] ∧ e = .invalid settings.problems)) := by
  intro p
  obtain ⟨hroot, hsettings⟩ := (Project.new root).settings_calls S cs
  obtain ⟨glob, hglob⟩ := p.settings_isValid.exists_glob
  have hroot' : p.root = root := hroot
  refine ⟨hroot, hsettings, p.settings_isValid, ⟨glob, hglob, ?_⟩, fun c => ?_⟩
  · simp only [Generator.ofProject?, Generator.ofSettings?, hglob]
  · cases hanswer : p.answer S c with
    | ok next =>
        obtain ⟨hoffer, hvalid, hnext⟩ := answer_eq_ok_iff.mp hanswer
        rw [hroot'] at hoffer hnext
        rw [call_of_ok hanswer]
        exact .inl ⟨next.settings, hoffer, hvalid, rfl, hnext, rfl⟩
    | error e =>
        have hfailed := answer_eq_error_iff.mp hanswer
        rw [hroot'] at hfailed
        exact .inr ⟨e, rfl, call_of_error hanswer, hfailed⟩

end Project

end Phrasebook
