import Phrasebook.Settings.Basic

/-!
# Proofs — Settings — Shortcode

The shortcodes of valid settings.  They hold letters, digits and dashes only, so that none of them
leads into another directory or is the name of a file with an extension; and they start with a
letter, as does what is left of them without dashes.
-/

namespace Phrasebook

/-- No entry of a list without problems has a malformed shortcode. -/
theorem isValidShortcode_of_shortcodeProblems {i : Nat} {entries : List LanguageEntry}
    (h : shortcodeProblems i entries = []) :
    ∀ entry ∈ entries, isValidShortcode entry.shortcode = true := by
  induction entries generalizing i with
  | nil => intro entry hentry; cases hentry
  | cons first rest ih =>
      intro entry hentry
      rw [shortcodeProblems] at h
      split at h
      · next hfirst =>
          rcases List.mem_cons.mp hentry with rfl | hentry
          · exact hfirst
          · exact ih h entry hentry
      · cases h

/-- **The languages of valid settings have well-formed shortcodes.** -/
theorem Settings.IsValid.isValidShortcode {settings : Settings} (h : settings.IsValid) :
    ∀ entry ∈ settings.languages, isValidShortcode entry.shortcode = true :=
  isValidShortcode_of_shortcodeProblems (List.append_eq_nil_iff.mp h).2

variable {shortcode : String}

/-- A well-formed shortcode starts with a letter, and holds letters, digits and dashes. -/
theorem exists_cons_of_isValidShortcode (h : isValidShortcode shortcode = true) :
    ∃ c cs, shortcode.toList = c :: cs ∧ c.isAlpha = true ∧
      ∀ d ∈ shortcode.toList, (d.isAlphanum || d == '-') = true := by
  unfold isValidShortcode at h
  split at h
  · cases h
  next c cs hcs =>
    obtain ⟨⟨hc, hall⟩, -⟩ := by simpa only [Bool.and_eq_true] using h
    exact ⟨c, cs, hcs, hc, hcs ▸ List.all_eq_true.mp hall⟩

/-- What stands in no well-formed shortcode. -/
theorem not_mem_of_isValidShortcode (h : isValidShortcode shortcode = true) {d : Char}
    (hd : (d.isAlphanum || d == '-') = false) : d ∉ shortcode.toList := fun hmem => by
  obtain ⟨c, cs, -, -, hall⟩ := exists_cons_of_isValidShortcode h
  rw [hall d hmem] at hd
  cases hd

/-- What stands in no well-formed shortcode stands in no identifier of a module. -/
theorem not_mem_moduleIdentifier (h : isValidShortcode shortcode = true) {d : Char}
    (hd : (d.isAlphanum || d == '-') = false) :
    d ∉ (Module.moduleIdentifier shortcode).toList := fun hmem => by
  rw [Module.moduleIdentifier, String.toList_ofList] at hmem
  exact not_mem_of_isValidShortcode h hd (List.mem_filter.mp hmem).1

/-- The identifier of a module starts with a letter. -/
theorem exists_toList_moduleIdentifier (h : isValidShortcode shortcode = true) :
    ∃ c cs, (Module.moduleIdentifier shortcode).toList = c :: cs ∧ c.isAlpha = true := by
  obtain ⟨c, cs, hcs, hc, -⟩ := exists_cons_of_isValidShortcode h
  have hdash : c ≠ '-' := fun heq => by rw [heq] at hc; cases hc
  exact ⟨c, cs.filter (· != '-'), by simp [Module.moduleIdentifier, hcs, hdash], hc⟩

end Phrasebook
