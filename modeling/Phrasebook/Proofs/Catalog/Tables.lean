import Phrasebook.Proofs.Catalog.Attempts
import Phrasebook.Proofs.Catalog.Taken

/-!
# Proofs — Catalog — Tables

An assembly that is changed in place.  The sections of a language, the keys and the names that are
taken are kept apart, each in a table of its own, and are looked up there (`Tables.add`).  Changes
that come before a fault stay, so that all that may be refused has to be found before the first
change: a section that is refused leaves every table as it is (`Keeps.run_add_of_error`), and one
that is added goes to all of them (`Keeps.run_add_of_ok`).  So the tables hold, after any calls,
what the assembly has (`Keeps.afterCalls`), and give the same module (`Keeps.languageModule_eq`).
-/

namespace Phrasebook

namespace Assembly

theorem taken_concat (a : Assembly) (s : AcceptedSection) :
    ({ a with accepted := a.accepted ++ [s] } : Assembly).taken =
      a.taken ++ [(s.own.identity, s.path)] :=
  List.map_append

theorem hasKey_eq_isSome (a : Assembly) (key : String) :
    a.hasKey key = (a.taken.find? fun s => s.1.key == key).isSome := by
  rw [List.isSome_find?, taken, List.any_map]
  rfl

/-- A call, whether it is accepted or not, leaves the language and what it has to fit in with. -/
theorem attempt_spares (a : Assembly) (call : SectionFile) :
    (a.attempt call).language = a.language ∧ (a.attempt call).base = a.base := by
  cases hadd : a.add call with
  | ok next =>
      obtain ⟨-, s, -, -, rfl⟩ := add_eq_ok_iff.mp hadd
      rw [attempt_of_ok hadd]
      exact ⟨rfl, rfl⟩
  | error fault =>
      rw [attempt_of_error hadd]
      exact ⟨rfl, rfl⟩

end Assembly

/-- The sections of a language so far, the keys and the names that are taken, and by which files. -/
structure Tables where
  own : List Module.OwnSection
  keys : Std.HashMap String Path
  names : Std.HashMap String Path

namespace Tables

def empty : Tables :=
  ⟨[], ∅, ∅⟩

/-- Changes tables, which stay as they are by then if it ends with a fault. -/
abbrev Change := ExceptT CatalogFault (StateM Tables)

/-- What a change ends with, and the tables after it. -/
def Change.run {α : Type} (change : Change α) (t : Tables) : Except CatalogFault α × Tables :=
  StateT.run (ExceptT.run change) t

namespace Change

variable {α β : Type} (t : Tables)

@[simp] theorem run_throw (fault : CatalogFault) :
    run (throw fault : Change α) t = (.error fault, t) :=
  rfl

@[simp] theorem run_modify (f : Tables → Tables) : run (modify f) t = (.ok (), f t) :=
  rfl

@[simp] theorem run_get_bind (f : Tables → Change α) : run (get >>= f) t = run (f t) t :=
  rfl

@[simp] theorem run_modify_bind (f : Tables → Tables) (g : Unit → Change α) :
    run (modify f >>= g) t = run (g ()) (f t) :=
  rfl

end Change

/-- Adds a section in place.  The language and the sections to fit in with are those of an assembly
at its start. -/
def add (start : Assembly) (file : SectionFile) : Change Unit := do
  let shortcode := start.language.shortcode
  let key := file.identity.key
  let names := [file.identity.variableName, file.identity.interfaceName]
  if let some first := (← get).keys[key]? then
    throw (.duplicateSection shortcode key first file.path)
  for name in names do
    if let some first := (← get).names[name]? then
      throw (.duplicateIdentifier shortcode name first file.path)
  let tree ← match Syntax.Tree.ofPayload? file.payload with
    | .ok tree => pure tree
    | .error fault => throw (.template shortcode key fault)
  if let some fault := start.baseFault? key tree.interface then
    throw fault
  modify fun t => { t with keys := t.keys.insert key file.path }
  for name in names do
    modify fun t => { t with names := t.names.insert name file.path }
  modify fun t =>
    { t with own := t.own ++ [⟨file.identity, tree.value, tree.interface, tree.interpolates⟩] }

/-- Tables after some calls, each of which may be refused. -/
def afterCalls (start : Assembly) (t : Tables) (calls : List SectionFile) : Tables :=
  calls.foldl (fun t call => ((add start call).run t).2) t

/-- The sections that the record of the language has, by the tables. -/
def canonical (start : Assembly) (t : Tables) : List Module.CanonicalSection :=
  match start.base with
  | some base => base.sections
  | none => t.own.map fun s => ⟨s.identity, s.interface⟩

/-- The module of the language, by the tables. -/
def languageModule (start : Assembly) (t : Tables) : Module.LanguageModule where
  shortcode := start.language.shortcode
  name := start.language.name
  parent := start.language.parent
  own := t.own
  fields := (t.canonical start).map fun s =>
    ⟨s.identity, if t.keys.contains s.identity.key then .own else .inherited⟩

/-- Tables hold what an assembly has: its sections, and for a key or a name the file that has it. -/
structure Keeps (t : Tables) (a : Assembly) : Prop where
  own : t.own = a.own
  keys : ∀ key, t.keys[key]? = (a.taken.find? fun s => s.1.key == key).map Prod.snd
  names : ∀ name, t.names[name]? = (a.taken.find? fun s => s.1.hasName name).map Prod.snd

namespace Keeps

variable {t : Tables} {start a next : Assembly} {file : SectionFile}

/-- **A section that is refused** leaves the tables as they are. -/
theorem run_add_of_error {fault : CatalogFault} (h : t.Keeps a)
    (hlanguage : a.language = start.language) (hbase : a.base = start.base)
    (hadd : a.add file = .error fault) : (add start file).run t = (.error fault, t) := by
  have hfits (key interface) : start.baseFault? key interface = a.baseFault? key interface := by
    simp only [Assembly.baseFault?, hlanguage, hbase]
  have hkey := h.keys file.identity.key
  have hvariable := h.names file.identity.variableName
  have hinterface := h.names file.identity.interfaceName
  unfold Assembly.add identityFault? at hadd
  -- one case for each check: it is made in the tables as it is made in the assembly
  cases hk : a.taken.find? fun s => s.1.key == file.identity.key with
  | some first =>
      simp only [hk, Except.error.injEq] at hadd
      simp [add, hkey, hk, ← hadd, hlanguage]
  | none =>
      cases hv : a.taken.find? fun s => s.1.hasName file.identity.variableName with
      | some first =>
          simp only [hk, hv, Except.error.injEq] at hadd
          simp [add, hkey, hk, hvariable, hv, ← hadd, hlanguage]
      | none =>
          cases hi : a.taken.find? fun s => s.1.hasName file.identity.interfaceName with
          | some first =>
              simp only [hk, hv, hi, Option.map_some, Except.error.injEq] at hadd
              simp [add, hkey, hk, hvariable, hv, hinterface, hi, ← hadd, hlanguage]
          | none =>
              simp only [hk, hv, hi, Option.map_none] at hadd
              cases htree : Syntax.Tree.ofPayload? file.payload with
              | error problem =>
                  simp only [htree, Except.error.injEq] at hadd
                  simp [add, hkey, hk, hvariable, hv, hinterface, hi, htree, ← hadd, hlanguage]
              | ok tree =>
                  cases hfault : a.baseFault? file.identity.key tree.interface with
                  | none => simp [htree, hfault] at hadd
                  | some fault =>
                      simp only [htree, hfault, Except.error.injEq] at hadd
                      simp [add, hkey, hk, hvariable, hv, hinterface, hi, htree, hfits, hfault,
                        hadd]

/-- A section that is apart from those in the tables, put into all of them. -/
theorem enter (h : t.Keeps a) (hfree : ∀ s ∈ a.taken, s.1.Apart file.identity)
    (tree : Syntax.Tree) :
    Keeps ⟨t.own ++ [⟨file.identity, tree.value, tree.interface, tree.interpolates⟩],
        t.keys.insert file.identity.key file.path,
        (t.names.insert file.identity.variableName file.path).insert file.identity.interfaceName
          file.path⟩
      { a with accepted := a.accepted ++
          [⟨⟨file.identity, tree.value, tree.interface, tree.interpolates⟩, file.path⟩] } where
  own := by simp [h.own, Assembly.own]
  keys key := by
    rw [Std.HashMap.getElem?_insert, h.keys key, Assembly.taken_concat]
    refine (map_find?_concat (fun id => id.key == key) fun hkey => ?_).symm
    exact List.find?_eq_none.mpr fun s hs heq =>
      (hfree s hs).key_ne ((beq_iff_eq.mp heq).trans (beq_iff_eq.mp hkey).symm)
  names name := by
    have hnew : file.identity.hasName name = true →
        (a.taken.find? fun s => s.1.hasName name) = none := by
      intro hname
      refine List.find?_eq_none.mpr fun s hs => Bool.eq_false_iff.mp ?_
      rcases Bool.or_eq_true_iff.mp hname with heq | heq
      · exact beq_iff_eq.mp heq ▸ (hfree s hs).variable_free
      · exact beq_iff_eq.mp heq ▸ (hfree s hs).interface_free
    rw [Assembly.taken_concat, map_find?_concat (fun id => id.hasName name) hnew,
      Std.HashMap.getElem?_insert, Std.HashMap.getElem?_insert, h.names name,
      Section.Identity.hasName]
    cases file.identity.interfaceName == name <;> simp

/-- **A section that is added** goes to all tables. -/
theorem run_add_of_ok (h : t.Keeps a) (hlanguage : a.language = start.language)
    (hbase : a.base = start.base) (hadd : a.add file = .ok next) :
    ∃ after, (add start file).run t = (.ok (), after) ∧ after.Keeps next := by
  obtain ⟨hfree, s, ⟨tree, htree, rfl⟩, hfits, rfl⟩ := Assembly.add_eq_ok_iff.mp hadd
  refine ⟨_, ?_, h.enter hfree tree⟩
  have hfits' : start.baseFault? file.identity.key tree.interface = none := by
    simpa only [Assembly.baseFault?, hlanguage, hbase] using hfits
  have hkey : (a.taken.find? fun s => s.1.key == file.identity.key) = none :=
    List.find?_eq_none.mpr fun s hs heq => (hfree s hs).key_ne (beq_iff_eq.mp heq)
  have hvariable : (a.taken.find? fun s => s.1.hasName file.identity.variableName) = none :=
    List.find?_eq_none.mpr fun s hs => Bool.eq_false_iff.mp (hfree s hs).variable_free
  have hinterface : (a.taken.find? fun s => s.1.hasName file.identity.interfaceName) = none :=
    List.find?_eq_none.mpr fun s hs => Bool.eq_false_iff.mp (hfree s hs).interface_free
  simp [add, h.keys, h.names, hkey, hvariable, hinterface, htree, hfits']

/-- Tables and the assembly go the same way under any call. -/
theorem run_add (h : t.Keeps a) (hlanguage : a.language = start.language)
    (hbase : a.base = start.base) (call : SectionFile) :
    ((add start call).run t).1 = (a.add call).map (fun _ => ()) ∧
      ((add start call).run t).2.Keeps (a.attempt call) := by
  cases hadd : a.add call with
  | ok next =>
      obtain ⟨after, hrun, hkeeps⟩ := h.run_add_of_ok hlanguage hbase hadd
      rw [hrun, Assembly.attempt_of_ok hadd]
      exact ⟨rfl, hkeeps⟩
  | error fault =>
      rw [h.run_add_of_error hlanguage hbase hadd, Assembly.attempt_of_error hadd]
      exact ⟨rfl, h⟩

/-- Before any section the tables are empty. -/
protected theorem empty (h : start.accepted = []) : empty.Keeps start where
  own := by simp [empty, Assembly.own, h]
  keys _ := by simp [empty, Assembly.taken, h]
  names _ := by simp [empty, Assembly.taken, h]

/-- **The tables hold what the assembly has**, after any calls. -/
theorem afterCalls (h : t.Keeps a) (hlanguage : a.language = start.language)
    (hbase : a.base = start.base) (calls : List SectionFile) :
    (t.afterCalls start calls).Keeps (a.attemptAll calls) := by
  induction calls generalizing t a with
  | nil => exact h
  | cons call calls ih =>
      obtain ⟨-, hnext⟩ := h.run_add hlanguage hbase call
      obtain ⟨hlanguage', hbase'⟩ := a.attempt_spares call
      exact ih hnext (hlanguage'.trans hlanguage) (hbase'.trans hbase)

/-- Calls that are refused make no difference to the tables. -/
theorem afterCalls_acceptedCalls (h : t.Keeps a) (hlanguage : a.language = start.language)
    (hbase : a.base = start.base) (calls : List SectionFile) :
    t.afterCalls start (a.acceptedCalls calls) = t.afterCalls start calls := by
  induction calls generalizing t a with
  | nil => rfl
  | cons call calls ih =>
      obtain ⟨-, hnext⟩ := h.run_add hlanguage hbase call
      obtain ⟨hlanguage', hbase'⟩ := a.attempt_spares call
      have hrest := ih hnext (hlanguage'.trans hlanguage) (hbase'.trans hbase)
      rw [Assembly.acceptedCalls]
      cases hadd : a.add call with
      | ok next =>
          rw [Assembly.attempt_of_ok hadd] at hrest
          exact hrest
      | error fault =>
          have hrun := h.run_add_of_error hlanguage hbase hadd
          rw [Assembly.attempt_of_error hadd, hrun] at hrest
          refine hrest.trans ?_
          rw [Tables.afterCalls, Tables.afterCalls, List.foldl_cons, hrun]

/-- Tables that hold what an assembly has give its module. -/
theorem languageModule_eq (h : t.Keeps a) (hlanguage : a.language = start.language)
    (hbase : a.base = start.base) : t.languageModule start = a.languageModule := by
  have hcanonical : t.canonical start = a.canonical := by
    unfold canonical Assembly.canonical
    cases hpublished : start.base with
    | none => simp only [hbase, hpublished, h.own]
    | some base => simp only [hbase, hpublished]
  have hkeys (key : String) : t.keys.contains key = a.hasKey key := by
    rw [Std.HashMap.contains_eq_isSome_getElem?, h.keys, Option.isSome_map, a.hasKey_eq_isSome]
  simp only [languageModule, Assembly.languageModule, Assembly.fields, hcanonical, hkeys, h.own,
    hlanguage]

end Keeps

end Tables

end Phrasebook
