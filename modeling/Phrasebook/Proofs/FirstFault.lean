import Mathlib.Data.List.Basic

/-!
# Proofs — First fault

Checks that end with the first fault that they meet, against the list of all faults, in the order in
which they count.  A result *reports* such a list if it is a fault just if the list is not empty,
and then the first of it (`Reports`).  A check and then another report the faults of the one and
then those of the other (`Reports.andThen`, `Reports.orElse`), so that what a long check decides is
known from lists that say nothing of when it stops.
-/

namespace Phrasebook

variable {ε α β : Type}

theorem map_eq_ok_iff {f : α → β} {result : Except ε α} {b : β} :
    result.map f = .ok b ↔ ∃ a, result = .ok a ∧ f a = b := by
  cases result <;> simp [Except.map]

/-- Has a value if there are no faults, and is else the first of them. -/
def Reports (faults : List ε) : Except ε α → Prop
  | .ok _ => faults = []
  | .error fault => faults.head? = some fault

namespace Reports

variable {faults more : List ε} {result : Except ε α}

theorem eq_error_iff (h : Reports faults result) {fault : ε} :
    result = .error fault ↔ faults.head? = some fault := by
  cases result with
  | ok a =>
      have hnone : faults = [] := h
      simp [hnone]
  | error e =>
      have hfirst : faults.head? = some e := h
      simp [hfirst]

theorem exists_ok_iff (h : Reports faults result) : (∃ a, result = .ok a) ↔ faults = [] := by
  cases result with
  | ok a => exact ⟨fun _ => h, fun _ => ⟨a, rfl⟩⟩
  | error e =>
      have hfirst : faults.head? = some e := h
      exact ⟨nofun, fun hnone => by simp [hnone] at hfirst⟩

/-- **The first thing with a fault**, where the faults are those of the things in a list: nothing
before it has one. -/
theorem eq_error_iff_first {γ : Type} {things : List γ} {fault? : γ → Option ε}
    (h : Reports (things.filterMap fault?) result) {fault : ε} :
    result = .error fault ↔ ∃ before thing after, things = before ++ thing :: after ∧
      (∀ b ∈ before, fault? b = none) ∧ fault? thing = some fault := by
  rw [h.eq_error_iff, List.head?_filterMap, List.findSome?_eq_some_iff]
  constructor
  · rintro ⟨before, thing, after, hsplit, hfault, hbefore⟩
    exact ⟨before, thing, after, hsplit, hbefore, hfault⟩
  · rintro ⟨before, thing, after, hsplit, hbefore, hfault⟩
    exact ⟨before, thing, after, hsplit, hfault, hbefore⟩

/-- What has been found first is found first of more. -/
theorem append_of_error {fault : ε} (h : Reports faults (.error fault : Except ε α)) :
    Reports (faults ++ more) (.error fault : Except ε β) := by
  have hfirst : faults.head? = some fault := h
  simp [Reports, hfirst]

/-- What a value is used for makes no difference. -/
theorem map {f : α → β} (h : Reports faults result) : Reports faults (result.map f) := by
  cases result <;> exact h

/-- A fault that is put in other words. -/
theorem mapError {ε' : Type} {f : ε → ε'} (h : Reports faults result) :
    Reports (faults.map f) (result.mapError f) := by
  cases result with
  | ok a =>
      have hnone : faults = [] := h
      rw [hnone]
      rfl
  | error e =>
      have hfirst : faults.head? = some e := h
      simp [Reports, Except.mapError, hfirst]

/-- **A check and then another**, which goes on if the first has a value. -/
theorem andThen {next : Except ε β} (h : Reports faults result)
    (herror : ∀ fault, result = .error fault → next = .error fault)
    (hok : ∀ a, result = .ok a → Reports more next) : Reports (faults ++ more) next := by
  cases result with
  | error e =>
      rw [herror e rfl]
      exact h.append_of_error
  | ok a =>
      have hnone : faults = [] := h
      rw [hnone]
      exact hok a rfl

/-- A search for a fault, and then a check, which goes on if none has been found. -/
theorem orElse {found : Option ε} (hfound : faults.head? = found)
    (hsome : ∀ fault, found = some fault → result = .error fault)
    (hnone : found = none → Reports more result) : Reports (faults ++ more) result := by
  cases found with
  | some fault =>
      have hfirst : Reports faults (.error fault : Except ε α) := hfound
      rw [hsome fault rfl]
      exact hfirst.append_of_error
  | none =>
      rw [List.head?_eq_none_iff.mp hfound]
      exact hnone rfl

end Reports

end Phrasebook
