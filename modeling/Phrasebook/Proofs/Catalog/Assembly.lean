import Mathlib.Data.List.Forall2
import Phrasebook.Catalog.Assembly
import Phrasebook.Proofs.Section.Key

/-!
# Proofs — Catalog — Assembly

What is known of an assembly to which files have been added.  `Assembly.Holds` is the invariant:
the assembly has what each file gives, in order; no two of its sections share a key or a name; and
each fits in with the published sections.  A language that has been started holds nothing, one file
more is held after `add` (`Holds.add`), and so all files after `addAll` (`Holds.addAll`).

As a key is a whole identity, a section that fits in *is* one of the published ones, with the same
variable, the same interface and the same interface body (`Holds.mem_canonical`).
-/

namespace Phrasebook

namespace Section.Identity

/-- Identities that share neither their key nor a name. -/
structure Apart (a b : Identity) : Prop where
  key_ne : a.key ≠ b.key
  variable_free : a.hasName b.variableName = false
  interface_free : a.hasName b.interfaceName = false

variable {a b : Identity}

theorem Apart.ne (h : a.Apart b) : a ≠ b :=
  fun heq => h.key_ne (congrArg key heq)

theorem Apart.variableName_ne (h : a.Apart b) : a.variableName ≠ b.variableName := fun heq => by
  have hfree := h.variable_free
  simp [hasName, heq] at hfree

end Section.Identity

/-- An identity is not refused if it is apart from all that are taken. -/
theorem identityFault?_eq_none {shortcode : String} {taken : List (Section.Identity × Path)}
    {id : Section.Identity} {path : Path} :
    identityFault? shortcode taken id path = none ↔ ∀ t ∈ taken, t.1.Apart id := by
  constructor
  · intro h t ht
    unfold identityFault? at h
    split at h
    · cases h
    next hkey =>
      split at h
      · cases h
      next hvariable =>
        have hinterface := Option.map_eq_none_iff.mp h
        exact ⟨fun heq => List.find?_eq_none.mp hkey t ht (beq_iff_eq.mpr heq),
          (Bool.not_eq_true _).mp (List.find?_eq_none.mp hvariable t ht),
          (Bool.not_eq_true _).mp (List.find?_eq_none.mp hinterface t ht)⟩
  · intro h
    have hkey : taken.find? (fun t => t.1.key == id.key) = none :=
      List.find?_eq_none.mpr fun t ht heq => (h t ht).key_ne (beq_iff_eq.mp heq)
    have hvariable : taken.find? (fun t => t.1.hasName id.variableName) = none :=
      List.find?_eq_none.mpr fun t ht => by simp [(h t ht).variable_free]
    have hinterface : taken.find? (fun t => t.1.hasName id.interfaceName) = none :=
      List.find?_eq_none.mpr fun t ht => by simp [(h t ht).interface_free]
    simp only [identityFault?, hkey, hvariable, hinterface, Option.map_none]

/-- Each member of a list has a counterpart in a list that is related to it. -/
theorem exists_of_forall₂ {α β : Type} {R : α → β → Prop} {as : List α} {bs : List β}
    (h : List.Forall₂ R as bs) {a : α} (ha : a ∈ as) : ∃ b ∈ bs, R a b := by
  induction h with
  | nil => cases ha
  | cons hr _ ih =>
      rcases List.mem_cons.mp ha with rfl | ha
      · exact ⟨_, List.mem_cons_self, hr⟩
      · obtain ⟨b, hb, hrb⟩ := ih ha
        exact ⟨b, List.mem_cons_of_mem _ hb, hrb⟩

/-- A section is what a file gives. -/
def SectionFile.Gives (file : SectionFile) (s : AcceptedSection) : Prop :=
  ∃ tree, Syntax.Tree.ofPayload? file.payload = .ok tree ∧
    s = ⟨⟨file.identity, tree.value, tree.interface, tree.interpolates⟩, file.path⟩

namespace Assembly

/-- The assembly has what some files give, each section apart from the others, and each fitting in
with the published ones. -/
structure Holds (a : Assembly) (files : List SectionFile) : Prop where
  gives : List.Forall₂ SectionFile.Gives files a.accepted
  apart : a.accepted.Pairwise fun s t => s.own.identity.Apart t.own.identity
  fits : ∀ s ∈ a.accepted, a.baseFault? s.own.identity.key s.own.interface = none

theorem holds_forBase (l : Language) : (forBase l).Holds [] :=
  ⟨.nil, .nil, fun s hs => by cases hs⟩

theorem holds_forDerived (l : Language) (base : BaseCatalog) : (forDerived l base).Holds [] :=
  ⟨.nil, .nil, fun s hs => by cases hs⟩

/-- **A file is added** if its identity is free, its templates are sound, and it fits in; then the
assembly has what it gives, and is otherwise the same. -/
theorem add_eq_ok_iff {a b : Assembly} {file : SectionFile} :
    a.add file = .ok b ↔
      (∀ t ∈ a.taken, t.1.Apart file.identity) ∧
        ∃ s, file.Gives s ∧ a.baseFault? s.own.identity.key s.own.interface = none ∧
          b = { a with accepted := a.accepted ++ [s] } := by
  unfold add
  constructor
  · intro h
    split at h
    · cases h
    next hidentity =>
      split at h
      · cases h
      next tree htree =>
        split at h
        · cases h
        next hbase =>
          cases h
          exact ⟨identityFault?_eq_none.mp hidentity, _, ⟨tree, htree, rfl⟩, hbase, rfl⟩
  · rintro ⟨hapart, s, ⟨tree, htree, rfl⟩, hbase, rfl⟩
    simp only [identityFault?_eq_none.mpr hapart, htree]
    simp only [hbase]

theorem Holds.add {a b : Assembly} {files : List SectionFile} {file : SectionFile}
    (h : a.Holds files) (hb : a.add file = .ok b) :
    b.Holds (files ++ [file]) ∧ b.language = a.language ∧ b.base = a.base := by
  obtain ⟨hapart, s, hs, hbase, rfl⟩ := add_eq_ok_iff.mp hb
  have hidentity : s.own.identity = file.identity := by
    obtain ⟨tree, -, rfl⟩ := hs
    rfl
  refine ⟨⟨List.rel_append h.gives (.cons hs .nil), ?_, fun t ht => ?_⟩, rfl, rfl⟩
  · refine List.pairwise_append.mpr ⟨h.apart, List.pairwise_singleton _ _, fun t ht t' ht' => ?_⟩
    rw [List.mem_singleton.mp ht', hidentity]
    exact hapart _ (List.mem_map_of_mem ht)
  · rcases List.mem_append.mp ht with ht | ht
    · exact h.fits t ht
    · rw [List.mem_singleton.mp ht]
      exact hbase

theorem Holds.addAll {a b : Assembly} {files more : List SectionFile} (h : a.Holds files)
    (hb : a.addAll more = .ok b) :
    b.Holds (files ++ more) ∧ b.language = a.language ∧ b.base = a.base := by
  induction more generalizing a files with
  | nil =>
      cases hb
      rw [List.append_nil]
      exact ⟨h, rfl, rfl⟩
  | cons file more ih =>
      rw [Assembly.addAll] at hb
      split at hb
      · cases hb
      next next hnext =>
        obtain ⟨hholds, hlanguage, hbase⟩ := h.add hnext
        obtain ⟨hall, hlanguage', hbase'⟩ := ih hholds hb
        rw [List.append_cons]
        exact ⟨hall, hlanguage'.trans hlanguage, hbase'.trans hbase⟩

/-! ### The published sections -/

variable {a : Assembly} {files : List SectionFile}

/-- The sections that a language has itself are those of its files, in order. -/
theorem Holds.map_identity_own (h : a.Holds files) :
    a.own.map Module.OwnSection.identity = files.map SectionFile.identity := by
  obtain ⟨hgives, -, -⟩ := h
  simp only [own, List.map_map]
  generalize a.accepted = accepted at hgives
  induction hgives with
  | nil => rfl
  | cons hs _ ih =>
      obtain ⟨tree, -, rfl⟩ := hs
      exact congrArg (_ :: ·) ih

/-- Each file has become a section of the language. -/
theorem Holds.exists_accepted_of_mem (h : a.Holds files) {file : SectionFile}
    (hfile : file ∈ files) : ∃ s ∈ a.accepted, file.Gives s :=
  exists_of_forall₂ h.gives hfile

/-- Each section of the language comes from a file. -/
theorem Holds.exists_file_of_mem (h : a.Holds files) {s : AcceptedSection}
    (hs : s ∈ a.accepted) : ∃ file ∈ files, file.Gives s :=
  exists_of_forall₂ h.gives.flip hs

/-- What is known of all that files give is known of the sections that a language has itself. -/
theorem Holds.forall_own (h : a.Holds files) {P : Module.OwnSection → Prop}
    (hgives : ∀ (file : SectionFile) (s : AcceptedSection), file.Gives s → P s.own) :
    ∀ o ∈ a.own, P o := by
  intro o ho
  obtain ⟨s, hs, rfl⟩ := List.mem_map.mp ho
  obtain ⟨file, -, hfile⟩ := h.exists_file_of_mem hs
  exact hgives file s hfile

/-- It is also known of the sections that a language publishes. -/
theorem Holds.forall_published (h : a.Holds files) {base : BaseCatalog}
    (hpublished : a.published? = some base) {P : Module.CanonicalSection → Prop}
    (hgives : ∀ (file : SectionFile) (s : AcceptedSection), file.Gives s →
      P ⟨s.own.identity, s.own.interface⟩) : ∀ c ∈ base.sections, P c := by
  unfold published? at hpublished
  split at hpublished
  · cases hpublished
  · obtain rfl := Option.some.inj hpublished
    exact List.forall_mem_map.mpr
      (h.forall_own (P := fun o => P ⟨o.identity, o.interface⟩) hgives)

theorem Holds.apart_own (h : a.Holds files) :
    a.own.Pairwise fun s t => s.identity.Apart t.identity :=
  List.pairwise_map.mpr h.apart

/-- **A section that fits in is one of the published ones**, with the same interface. -/
theorem Holds.mem_canonical (h : a.Holds files) {s : AcceptedSection} (hs : s ∈ a.accepted) :
    ⟨s.own.identity, s.own.interface⟩ ∈ a.canonical := by
  have hfits := h.fits s hs
  unfold baseFault? at hfits
  unfold canonical
  cases hbase : a.base with
  | none => exact List.mem_map_of_mem (List.mem_map_of_mem hs)
  | some base =>
      simp only [hbase] at hfits
      split at hfits
      · cases hfits
      next c hc =>
        split at hfits
        next hinterface =>
          -- found by its key, and a key names one identity
          have hkey := List.find?_some hc
          have hidentity := Section.Identity.key_inj (beq_iff_eq.mp hkey)
          rw [← hidentity, ← hinterface]
          exact List.mem_of_find?_eq_some hc
        next => cases hfits

/-- A language has a key itself if one of its sections has it. -/
theorem hasKey_iff {id : Section.Identity} :
    a.hasKey id.key = true ↔ id ∈ a.own.map Module.OwnSection.identity := by
  simp only [hasKey, own, List.any_eq_true, beq_iff_eq, List.map_map, List.mem_map,
    Function.comp_apply]
  constructor
  · rintro ⟨s, hs, hkey⟩
    exact ⟨s, hs, Section.Identity.key_inj hkey⟩
  · rintro ⟨s, hs, rfl⟩
    exact ⟨s, hs, rfl⟩

end Assembly

end Phrasebook
