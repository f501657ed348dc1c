import Phrasebook.Proofs.Catalog.Clashes
import Phrasebook.Proofs.Section.Name

/-!
# Proofs — Catalog — Reserved

Reserved words among the names that modules bind.  A shortcode is read as a word with dashes between
its characters (`Dashed`): the well-formed shortcodes of a word are these, if the word starts with a
letter and holds letters and digits only, and then the word is the identifier of the module
(`wellFormed_iff_dashed`).  So the identifier is always a bare identifier.  But the reserved words
are such words, and a shortcode is well formed if it is one of them, with dashes or without; this is
the only way to an identifier that cannot be bound (`Module.moduleIdentifier_usable_iff`).  The
other names of a module can all be bound (`Module.LanguageModule.usable_names_iff`).
-/

namespace Phrasebook
open Phrasebook.Module (moduleIdentifier)
open Text (isIdentifier isParameterName reservedWords)

/-! ### Words with dashes -/

/-- The second text is the first with any number of dashes between its characters. -/
inductive Dashed : List Char → List Char → Prop where
  | last (c : Char) : Dashed [c] [c]
  | next {word chars : List Char} (c : Char) (dashes : Nat) (h : Dashed word chars) :
      Dashed (c :: word) (c :: (List.replicate dashes '-' ++ chars))

namespace Dashed

variable {word chars : List Char}

/-- Without its dashes it is the word. -/
theorem filter_eq (h : Dashed word chars) (hword : '-' ∉ word) :
    chars.filter (· != '-') = word := by
  induction h with
  | last c =>
      have hc : c ≠ '-' := fun heq => hword (by simp [heq])
      simp [hc]
  | next c dashes _ ih =>
      have hc : c ≠ '-' := fun heq => hword (by simp [heq])
      have hrest := ih fun hmem => hword (List.mem_cons_of_mem _ hmem)
      simp [hc, hrest]

/-- It holds nothing else. -/
theorem mem_or_eq (h : Dashed word chars) : ∀ d ∈ chars, d ∈ word ∨ d = '-' := by
  induction h with
  | last c => exact fun d hd => .inl hd
  | next c dashes _ ih =>
      intro d hd
      rcases List.mem_cons.mp hd with rfl | hd
      · exact .inl List.mem_cons_self
      rcases List.mem_append.mp hd with hdash | hd
      · exact .inr (List.eq_of_mem_replicate hdash)
      · exact (ih d hd).imp_left (List.mem_cons_of_mem c)

/-- It starts as the word does, and ends as the word does. -/
theorem ends_eq (h : Dashed word chars) :
    chars.head? = word.head? ∧ chars.getLast? = word.getLast? := by
  induction h with
  | last c => exact ⟨rfl, rfl⟩
  | next c dashes h ih =>
      refine ⟨rfl, ?_⟩
      rw [List.getLast?_cons, List.getLast?_cons, List.getLast?_append, ih.2]
      cases h <;> simp [List.getLast?_cons]

end Dashed

/-- What does not end with a dash is a word with dashes, behind some more dashes. -/
theorem exists_dashed {chars : List Char} (hne : chars ≠ [])
    (hlast : chars.getLast? ≠ some '-') :
    ∃ dashes rest, chars = List.replicate dashes '-' ++ rest ∧
      Dashed (chars.filter (· != '-')) rest := by
  induction chars with
  | nil => exact absurd rfl hne
  | cons c cs ih =>
      cases hcs : cs with
      | nil =>
          have hc : c ≠ '-' := fun heq => hlast (by rw [heq, hcs]; rfl)
          exact ⟨0, [c], rfl, by simpa [hc] using Dashed.last c⟩
      | cons d ds =>
          rw [← hcs]
          have hcs' : cs ≠ [] := by simp [hcs]
          have hlast' : cs.getLast? ≠ some '-' := by rwa [hcs, ← List.getLast?_cons_cons, ← hcs]
          obtain ⟨dashes, rest, hrest, hdashed⟩ := ih hcs' hlast'
          by_cases hc : c = '-'
          · refine ⟨dashes + 1, rest, ?_, ?_⟩
            · rw [hrest, hc, List.replicate_succ, List.cons_append]
            · rwa [List.filter_cons_of_neg (by simp [hc])]
          · refine ⟨0, c :: cs, rfl, ?_⟩
            rw [List.filter_cons_of_pos (by simp [hc])]
            have hnext := hdashed.next c dashes
            rwa [← hrest] at hnext

/-! ### The identifiers of modules -/

/-- A letter, followed by letters and digits only. -/
def isWord (word : String) : Bool :=
  match word.toList with
  | [] => false
  | c :: cs => c.isAlpha && cs.all Char.isAlphanum

theorem isWord_iff {word : String} :
    isWord word = true ↔
      (∃ c, word.toList.head? = some c ∧ c.isAlpha = true) ∧
        ∀ d ∈ word.toList, d.isAlphanum = true := by
  unfold isWord
  cases word.toList with
  | nil => simp
  | cons c cs =>
      have hfirst : c.isAlpha = true → c.isAlphanum = true := fun h => by
        rw [Char.isAlphanum, h, Bool.true_or]
      simp only [Bool.and_eq_true, List.all_eq_true, List.head?_cons, Option.some.injEq,
        exists_eq_left', List.forall_mem_cons]
      tauto

theorem isValidShortcode_iff {shortcode : String} :
    isValidShortcode shortcode = true ↔
      (∃ c, shortcode.toList.head? = some c ∧ c.isAlpha = true) ∧
        (∀ d ∈ shortcode.toList, d.isAlphanum = true ∨ d = '-') ∧
        shortcode.toList.getLast? ≠ some '-' := by
  unfold isValidShortcode
  cases shortcode.toList with
  | nil => simp
  | cons c cs => simp [and_assoc]

/-- A word with dashes is a well-formed shortcode, and the word is its identifier; and there are no
other well-formed shortcodes. -/
theorem wellFormed_iff_dashed {shortcode word : String} :
    isValidShortcode shortcode = true ∧ moduleIdentifier shortcode = word ↔
      isWord word = true ∧ Dashed word.toList shortcode.toList := by
  rw [isValidShortcode_iff, isWord_iff]
  constructor
  · rintro ⟨⟨⟨c, hfirst, hc⟩, hall, hlast⟩, rfl⟩
    have hdash : c ≠ '-' := fun heq => by rw [heq] at hc; cases hc
    have hne : shortcode.toList ≠ [] := fun heq => by rw [heq] at hfirst; cases hfirst
    obtain ⟨dashes, rest, hrest, hdashed⟩ := exists_dashed hne hlast
    -- the shortcode starts with a letter, so that there are no dashes in front
    cases dashes with
    | succ n =>
        rw [hrest] at hfirst
        exact absurd (Option.some.inj hfirst).symm hdash
    | zero =>
        rw [List.replicate_zero, List.nil_append] at hrest
        rw [← hrest] at hdashed
        rw [moduleIdentifier, String.toList_ofList]
        refine ⟨⟨⟨c, hdashed.ends_eq.1 ▸ hfirst, hc⟩, fun d hd => ?_⟩, hdashed⟩
        obtain ⟨hmem, hd⟩ := List.mem_filter.mp hd
        exact (hall d hmem).resolve_right (bne_iff_ne.mp hd)
  · rintro ⟨⟨⟨c, hfirst, hc⟩, hall⟩, hdashed⟩
    have hword : '-' ∉ word.toList := fun hmem => absurd (hall '-' hmem) (by decide)
    obtain ⟨hhead, hlast⟩ := hdashed.ends_eq
    refine ⟨⟨⟨c, hhead.trans hfirst, hc⟩,
      fun d hd => (hdashed.mem_or_eq d hd).imp_left (hall d), fun hdash => ?_⟩, ?_⟩
    · exact hword (List.mem_of_getLast? (hlast.symm.trans hdash))
    · rw [moduleIdentifier, hdashed.filter_eq hword, String.ofList_toList]

theorem isIdentifier_of_isWord {word : String} (h : isWord word = true) :
    isIdentifier word = true := by
  unfold isWord at h
  unfold isIdentifier
  cases hword : word.toList with
  | nil => simp [hword] at h
  | cons c cs =>
      simp only [hword, Bool.and_eq_true, List.all_eq_true] at h
      simp only [Bool.and_eq_true, List.all_eq_true]
      exact ⟨by simp [Text.isIdentifierStart, h.1],
        fun d hd => by simp [Text.isIdentifierPart, h.2 d hd]⟩

/-- The reserved words are letters. -/
theorem isWord_of_mem_reservedWords : ∀ word ∈ reservedWords, isWord word = true := by
  decide

namespace Module

/-- **When the identifier of a module can be bound.**  What a well-formed shortcode gives is always
a bare identifier.  It is a reserved word just if the shortcode is one with dashes between its
letters, or with none; and all of these are well-formed shortcodes. -/
theorem moduleIdentifier_usable_iff {shortcode : String}
    (h : isValidShortcode shortcode = true) :
    isIdentifier (moduleIdentifier shortcode) = true ∧
      (isParameterName (moduleIdentifier shortcode) = true ↔
        ∀ word ∈ reservedWords, ¬ Dashed word.toList shortcode.toList) ∧
      ∀ word ∈ reservedWords, ∀ other : String, Dashed word.toList other.toList →
        isValidShortcode other = true ∧ moduleIdentifier other = word := by
  obtain ⟨hword, hdashed⟩ := wellFormed_iff_dashed.mp ⟨h, rfl⟩
  have hidentifier := isIdentifier_of_isWord hword
  have hreserved : ∀ word ∈ reservedWords, ∀ other : String, Dashed word.toList other.toList →
      isValidShortcode other = true ∧ moduleIdentifier other = word :=
    fun word hmem other hother =>
      wellFormed_iff_dashed.mpr ⟨isWord_of_mem_reservedWords word hmem, hother⟩
  refine ⟨hidentifier, ?_, hreserved⟩
  rw [isParameterName, hidentifier, Bool.true_and, Bool.not_eq_true', List.contains_eq_mem,
    decide_eq_false_iff_not]
  constructor
  · intro hfree word hmem hother
    exact hfree ((hreserved word hmem shortcode hother).2 ▸ hmem)
  · intro hnone hmem
    exact hnone _ hmem hdashed

/-- No reserved word is a dashed form of this shortcode. -/
theorem sample_moduleIdentifier_usable :
    isValidShortcode "en-gb" = true ∧ isIdentifier (moduleIdentifier "en-gb") = true ∧
      ∀ word ∈ reservedWords, ¬ Dashed word.toList "en-gb".toList := by
  have hvalid : isValidShortcode "en-gb" = true := by decide
  obtain ⟨hidentifier, husable, -⟩ := moduleIdentifier_usable_iff hvalid
  exact ⟨by decide, hidentifier, husable.mp (by decide)⟩

/-! ### The names of a module -/

theorem isParameterName_variableName (id : Section.Identity) :
    isParameterName id.variableName = true := by
  have hstart : ∀ word ∈ reservedWords, word.toList.head? ≠ some '_' := by decide
  rw [isParameterName, id.isIdentifier_variableName, Bool.true_and, Bool.not_eq_true',
    List.contains_eq_mem, decide_eq_false_iff_not]
  exact fun hmem => hstart _ hmem id.head?_variableName

namespace LanguageModule

variable {m : LanguageModule}

/-- The constants of a module are named for sections. -/
theorem exists_variableName {name : String}
    (h : name ∈ m.constants.filterMap Statement.binds?) :
    ∃ id : Section.Identity, id.variableName = name := by
  obtain ⟨statement, hmem, hbinds⟩ := List.mem_filterMap.mp h
  rcases List.mem_append.mp hmem with hvalue | halias
  · obtain ⟨s, -, rfl⟩ := List.mem_map.mp hvalue
    exact ⟨s.identity, Option.some.inj hbinds⟩
  · unfold aliases at halias
    split at halias
    · cases halias
    · obtain ⟨f, -, rfl⟩ := List.mem_map.mp halias
      exact ⟨f.identity, Option.some.inj hbinds⟩

/-- **Which names of a module cannot be bound.**  They are identifiers of languages, its own or that
of its parent; all other names are parameter names. -/
theorem usable_names_iff (m : LanguageModule) (runtime : Runtime) :
    (∀ name ∈ boundNames (m.statements runtime), isParameterName name = true) ↔
      ∀ shortcode ∈ m.shortcode :: m.parent.toList,
        isParameterName (moduleIdentifier shortcode) = true := by
  have hshared : ∀ name ∈ m.sharedNames, isParameterName name = true := fun name hname =>
    (by decide : ∀ name ∈ ["interpolate", "ILanguage", "Sections"], isParameterName name = true)
      name (m.sharedNames_subset hname)
  have hconstants : ∀ name ∈ m.constants.filterMap Statement.binds?,
      isParameterName name = true := fun name hname => by
    obtain ⟨id, rfl⟩ := exists_variableName hname
    exact isParameterName_variableName id
  have hparent : (∀ name ∈ m.parentNames, isParameterName name = true) ↔
      ∀ parent ∈ m.parent.toList, isParameterName (moduleIdentifier parent) = true := by
    rw [parentNames, Option.toList_map]
    exact List.forall_mem_map
  simp only [boundNames_statements, List.forall_mem_append, List.forall_mem_cons, hparent]
  constructor
  · rintro ⟨⟨⟨-, hparents⟩, -⟩, hown, -⟩
    exact ⟨hown, hparents⟩
  · rintro ⟨hown, hparents⟩
    exact ⟨⟨⟨hshared, hparents⟩, hconstants⟩, hown, by simp⟩

end LanguageModule

end Module

/-! ### A language under a reserved word -/

namespace Sample

/-- A base language whose shortcode is a reserved word. -/
def reserved : Generator :=
  { generator with
    settings := { settings with
      baseLanguage := "in"
      languages := [⟨"in", some "I", none⟩] } }

def reservedMemory : Memory where
  directories := [⟨"t/in"⟩]
  files := [(⟨"t/in/title.json"⟩, "\x7b\"translations\":\x7b\"k\":\"K\"\x7d\x7d")]
  refusals := []

theorem reserved_isValid : reserved.settings.IsValid := by
  decide +kernel

theorem exists_reserved_catalog :
    ∃ catalog, (Memory.storage.run (reserved.compile 3).run reservedMemory).value = .ok catalog :=
  exists_of_isOk (by decide +kernel)

end Sample

/-- A reserved word is a well-formed shortcode, so that a project of valid settings compiles to a
module that binds it. -/
theorem Generator.sample_reserved_word_bound :
    (isValidShortcode "in" = true ∧ isParameterName (moduleIdentifier "in") = false) ∧
      Sample.reserved.settings.IsValid ∧ ∃ (catalog : Catalog) (m : Module.LanguageModule),
        (Memory.storage.run (Sample.reserved.compile 3).run Sample.reservedMemory).value =
            .ok catalog ∧
          m.shortcode = "in" ∧
          catalog.Has (Sample.reserved.outputPath m.shortcode) (m.text Sample.reserved.runtime)
            (m.statements Sample.reserved.runtime) ∧
          ¬ ∀ name ∈ Module.boundNames (m.statements Sample.reserved.runtime),
            isParameterName name = true := by
  obtain ⟨catalog, hcatalog⟩ := Sample.exists_reserved_catalog
  obtain ⟨c⟩ := exists_compilation_of_run hcatalog
  have hentry : (⟨"in", some "I", none⟩ : LanguageEntry) ∈ Sample.reserved.settings.languages :=
    List.mem_cons_self
  obtain ⟨a, ha, files, -, -, hshortcode, -⟩ :=
    exists_of_mem_languages c Sample.reserved_isValid hentry
  refine ⟨⟨by decide, by decide⟩, Sample.reserved_isValid, catalog, a.languageModule, hcatalog,
    hshortcode, c.has_languageModule Sample.reserved_isValid ha, fun hall => ?_⟩
  have hown := (a.languageModule.usable_names_iff _).mp hall _ List.mem_cons_self
  rw [show a.languageModule.shortcode = "in" from hshortcode] at hown
  exact absurd hown (by decide)

end Phrasebook
