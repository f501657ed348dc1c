import Phrasebook.Language.Basic

/-!
# Language — Order

The order in which languages are compiled: parents before the languages that extend them, and
otherwise as they are configured.  Again and again the first language whose parent has its place is
put next; the languages that never get a place do not reach the base language.
-/

namespace Phrasebook

/-- Languages in the order in which they are compiled. -/
structure LanguageSet where
  languages : List Language
  deriving DecidableEq

namespace Language

/-- Extends no language, or one that has its place already. -/
def isReady (placed : List Language) (l : Language) : Bool :=
  match l.parent with
  | none => true
  | some parent => placed.any fun p => p.shortcode == parent

/-- The first language that is ready, and the others. -/
def takeReady? (placed : List Language) : List Language → Option (Language × List Language)
  | [] => none
  | l :: ls =>
      if l.isReady placed then some (l, ls)
      else (takeReady? placed ls).map fun taken => (taken.1, l :: taken.2)

theorem length_takeReady? {placed pending rest : List Language} {l : Language}
    (h : takeReady? placed pending = some (l, rest)) : rest.length + 1 = pending.length := by
  induction pending generalizing rest l with
  | nil => simp [takeReady?] at h
  | cons p ps ih =>
      simp only [takeReady?] at h
      split at h
      · obtain ⟨rfl, rfl⟩ := by simpa using h
        rfl
      · obtain ⟨⟨m, ms⟩, hm, heq⟩ := Option.map_eq_some_iff.mp h
        obtain ⟨rfl, rfl⟩ := by simpa using heq
        simp [← ih hm]

/-- Places languages as long as one is ready; also those that never are. -/
def place (placed pending : List Language) : List Language × List Language :=
  match h : takeReady? placed pending with
  | none => (placed, pending)
  | some (l, rest) =>
      have := length_takeReady? h
      place (placed ++ [l]) rest
termination_by pending.length

/-- The first language whose parent is not configured. -/
def unknownParent? (all : List Language) : List Language → Option LanguageFault
  | [] => none
  | l :: ls =>
      match l.parent with
      | none => unknownParent? all ls
      | some parent =>
          if all.any fun p => p.shortcode == parent then unknownParent? all ls
          else some (.unknownParent l.shortcode parent)

end Language

namespace LanguageSet

/-- The languages in order, if all have their place. -/
def ofLanguages? (languages : List Language) : Except LanguageFault LanguageSet :=
  match Language.place [] languages with
  | (placed, []) => .ok ⟨placed⟩
  | (_, stuck) => .error (.inheritanceCycle (stuck.map Language.shortcode))

/-- The languages of a configuration in order. -/
def ofEntries? (entries : List LanguageEntry) (base : String) :
    Except LanguageFault LanguageSet :=
  match Language.ofEntries? base [] entries with
  | .error e => .error e
  | .ok languages =>
      if languages.any fun l => l.shortcode == base then
        match Language.unknownParent? languages languages with
        | some e => .error e
        | none => ofLanguages? languages
      else .error (.missingBaseLanguage base)

/-- The language with a shortcode. -/
def get? (set : LanguageSet) (shortcode : String) : Option Language :=
  set.languages.find? fun l => l.shortcode == shortcode

end LanguageSet

end Phrasebook
