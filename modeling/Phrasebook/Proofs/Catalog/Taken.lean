import Phrasebook.Catalog.Walk
import Phrasebook.Proofs.Catalog.Assembly
import Phrasebook.Proofs.Entries
import Phrasebook.Proofs.Section.Glue

/-!
# Proofs — Catalog — Taken

The check for duplicates of a walk.  It takes the key of a section, and then its two names, into
tables; so a name is looked up when the ones before it have been taken already, those of the same
section among them.  This makes no difference, as no variable is ever an interface: the tables
record what the sections before have (`Taken.Records`), and a section is refused for what it is
refused for behind them (`Taken.Records.take_of_some`).  So the check finds the first section with
such a fault (`duplicate?_eq`).
-/

namespace Phrasebook

/-- The first fault of sections, each of which stands behind those before it. -/
def firstIdentityFault? (shortcode : String) (before : List (Section.Identity × Path)) :
    List SectionFile → Option CatalogFault
  | [] => none
  | f :: fs =>
      match identityFault? shortcode before f.identity f.path with
      | some fault => some fault
      | none => firstIdentityFault? shortcode (before ++ [(f.identity, f.path)]) fs

/-- Sections have no fault if they are apart from those before them, and from each other. -/
theorem firstIdentityFault?_eq_none {shortcode : String}
    {before : List (Section.Identity × Path)} {files : List SectionFile} :
    firstIdentityFault? shortcode before files = none ↔
      (∀ t ∈ before, ∀ f ∈ files, t.1.Apart f.identity) ∧
        files.Pairwise fun f g => f.identity.Apart g.identity := by
  induction files generalizing before with
  | nil => simp [firstIdentityFault?]
  | cons f files ih =>
      rw [firstIdentityFault?, List.pairwise_cons]
      cases hfault : identityFault? shortcode before f.identity f.path with
      | some fault =>
          have hclash : ¬ ∀ t ∈ before, t.1.Apart f.identity := fun hall => by
            rw [identityFault?_eq_none.mpr hall] at hfault
            cases hfault
          constructor
          · intro h
            cases h
          · rintro ⟨hbefore, -⟩
            exact absurd (fun t ht => hbefore t ht f List.mem_cons_self) hclash
      | none =>
          have hfree := identityFault?_eq_none.mp hfault
          rw [ih, List.forall_mem_append, List.forall_mem_singleton]
          simp only [List.forall_mem_cons]
          constructor
          · rintro ⟨⟨hbefore, hfirst⟩, hrest⟩
            exact ⟨fun t ht => ⟨hfree t ht, hbefore t ht⟩, hfirst, hrest⟩
          · rintro ⟨hbefore, hfirst, hrest⟩
            exact ⟨⟨fun t ht => (hbefore t ht).2, hfirst⟩, hrest⟩

/-- **The first fault** is that of a section behind others, among which there is none. -/
theorem firstIdentityFault?_eq_some {shortcode : String}
    {before : List (Section.Identity × Path)} {files : List SectionFile} {fault : CatalogFault}
    (h : firstIdentityFault? shortcode before files = some fault) :
    ∃ earlier f later, files = earlier ++ f :: later ∧
      firstIdentityFault? shortcode before earlier = none ∧
      identityFault? shortcode (before ++ earlier.map fun g => (g.identity, g.path)) f.identity
        f.path = some fault := by
  induction files generalizing before with
  | nil => cases h
  | cons f fs ih =>
      rw [firstIdentityFault?] at h
      split at h
      · next hfault =>
          cases h
          exact ⟨[], f, fs, rfl, rfl, by rw [List.map_nil, List.append_nil]; exact hfault⟩
      · next hnone =>
          obtain ⟨earlier, g, later, rfl, hearlier, hfault⟩ := ih h
          refine ⟨f :: earlier, g, later, rfl, ?_, ?_⟩
          · rw [firstIdentityFault?, hnone]
            exact hearlier
          · rwa [List.append_assoc, List.singleton_append] at hfault

/-- The file that has something, after one more: if it is new to the others, the last one. -/
theorem map_find?_concat {taken : List (Section.Identity × Path)} {id : Section.Identity}
    {path : Path} (p : Section.Identity → Bool)
    (hnew : p id = true → (taken.find? fun s => p s.1) = none) :
    ((taken ++ [(id, path)]).find? fun s => p s.1).map Prod.snd =
      if p id then some path else (taken.find? fun s => p s.1).map Prod.snd := by
  rw [List.find?_append]
  by_cases hp : p id = true
  · simp [hp, hnew hp]
  · simp [hp]

namespace Walk

/-- Tables have, for a key or a name, the first section with it. -/
structure Taken.Records (t : Taken) (before : List (Section.Identity × Path)) : Prop where
  keys : ∀ key, t.keys.get? key = (before.find? fun s => s.1.key == key).map Prod.snd
  names : ∀ name, t.names.get? name = (before.find? fun s => s.1.hasName name).map Prod.snd

namespace Taken.Records

variable {w : Walk} {t : Taken} {before : List (Section.Identity × Path)} {f : SectionFile}
  {fault : CatalogFault} (h : t.Records before)
include h

/-- **A section is refused** by the tables as it is behind those that they record. -/
theorem take_of_some (hfault : identityFault? w.shortcode before f.identity f.path = some fault) :
    w.take t f = .error fault := by
  have hne := Section.Identity.variableName_ne_interfaceName f.identity f.identity
  unfold identityFault? at hfault
  cases hkey : before.find? fun s => s.1.key == f.identity.key with
  | some first =>
      simp only [hkey, Option.some.injEq] at hfault
      simp [take, h.keys, hkey, hfault]
  | none =>
      cases hvariable : before.find? fun s => s.1.hasName f.identity.variableName with
      | some first =>
          simp only [hkey, hvariable, Option.some.injEq] at hfault
          simp [take, takeNames, h.keys, hkey, h.names, hvariable, hfault, Except.map]
      | none =>
          simp only [hkey, hvariable, Option.map_eq_some_iff] at hfault
          obtain ⟨first, hinterface, rfl⟩ := hfault
          simp [take, takeNames, h.keys, hkey, h.names, hvariable, Entries.get?_insert, hne,
            hinterface, Except.map]

/-- **A section that is not refused** is recorded by the tables behind the others. -/
theorem take_of_none (hfault : identityFault? w.shortcode before f.identity f.path = none) :
    ∃ next, w.take t f = .ok next ∧ next.Records (before ++ [(f.identity, f.path)]) := by
  have hne := Section.Identity.variableName_ne_interfaceName f.identity f.identity
  have hfree := identityFault?_eq_none.mp hfault
  have hkey : (before.find? fun s => s.1.key == f.identity.key) = none :=
    List.find?_eq_none.mpr fun s hs heq => (hfree s hs).key_ne (beq_iff_eq.mp heq)
  have hname : ∀ name, f.identity.hasName name = true →
      (before.find? fun s => s.1.hasName name) = none := by
    intro name hname
    refine List.find?_eq_none.mpr fun s hs => Bool.eq_false_iff.mp ?_
    rcases Bool.or_eq_true_iff.mp hname with heq | heq
    · exact beq_iff_eq.mp heq ▸ (hfree s hs).variable_free
    · exact beq_iff_eq.mp heq ▸ (hfree s hs).interface_free
  have hvariable := hname f.identity.variableName (by simp [Section.Identity.hasName])
  have hinterface := hname f.identity.interfaceName (by simp [Section.Identity.hasName])
  refine ⟨⟨t.keys.insert f.identity.key f.path,
    (t.names.insert f.identity.variableName f.path).insert f.identity.interfaceName f.path⟩,
    ?_, fun key => ?_, fun name => ?_⟩
  · simp [take, takeNames, h.keys, hkey, h.names, hvariable, Entries.get?_insert, hne, hinterface,
      Except.map]
  · rw [Entries.get?_insert, h.keys key, map_find?_concat (fun id => id.key == key) fun heq => ?_]
    · simp
    · exact beq_iff_eq.mp heq ▸ hkey
  · rw [Entries.get?_insert, Entries.get?_insert, h.names name,
      map_find?_concat (fun id => id.hasName name) (hname name), Section.Identity.hasName]
    by_cases heq : f.identity.interfaceName = name <;> simp [heq]

/-- The tables refuse what is refused behind the sections that they record. -/
theorem takeAll (files : List SectionFile) :
    (∀ fault, firstIdentityFault? w.shortcode before files = some fault →
        w.takeAll t files = .error fault) ∧
      (firstIdentityFault? w.shortcode before files = none →
        ∃ next, w.takeAll t files = .ok next) := by
  induction files generalizing t before with
  | nil => exact ⟨nofun, fun _ => ⟨t, rfl⟩⟩
  | cons f fs ih =>
      rw [firstIdentityFault?, Walk.takeAll]
      cases hfault : identityFault? w.shortcode before f.identity f.path with
      | some found =>
          rw [h.take_of_some hfault]
          exact ⟨fun fault heq => congrArg _ (Option.some.inj heq), nofun⟩
      | none =>
          obtain ⟨next, htake, hnext⟩ := h.take_of_none hfault
          rw [htake]
          exact ih hnext

end Taken.Records

/-- Before any section the tables are empty. -/
theorem Taken.records_nil : Taken.Records ⟨[], []⟩ [] :=
  ⟨fun _ => rfl, fun _ => rfl⟩

/-- **The check for duplicates** finds the first section that is refused behind those before it. -/
theorem duplicate?_eq (w : Walk) (files : List SectionFile) :
    w.duplicate? files = firstIdentityFault? w.shortcode [] files := by
  obtain ⟨hsome, hnone⟩ := Taken.records_nil.takeAll (w := w) files
  rw [duplicate?]
  cases hfirst : firstIdentityFault? w.shortcode [] files with
  | some fault => rw [hsome fault hfirst]
  | none =>
      obtain ⟨next, hnext⟩ := hnone hfirst
      rw [hnext]

end Walk

end Phrasebook
