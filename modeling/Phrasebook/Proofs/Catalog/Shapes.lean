import Mathlib.Data.List.Nodup
import Phrasebook.Proofs.Catalog.Assembly
import Phrasebook.Proofs.Syntax.Interface

/-!
# Proofs — Catalog — Shapes

What the comparison of interface texts decides.  Two sections have the same text if they have the
same shape (`Syntax.Tree.interface_eq_iff_shape_eq`), and the text that is compared is that of the
file from which the base language has the section; so a section fits in if it has the shape of that
file, and is else refused for this reason.
-/

namespace Phrasebook

namespace Assembly

/-- What the base language has published under a key is what its file gives. -/
theorem Holds.get?_published {published : Assembly} {files : List SectionFile}
    (h : published.Holds files) {base : BaseCatalog} (hbase : published.published? = some base)
    {file : SectionFile} (hfile : file ∈ files) {tree : Syntax.Tree}
    (htree : Syntax.Tree.ofPayload? file.payload = .ok tree) :
    base.get? file.identity.key = some ⟨file.identity, tree.interface⟩ := by
  obtain ⟨accepted, haccepted, tree', htree', rfl⟩ := h.exists_accepted_of_mem hfile
  obtain rfl := Except.ok.inj (htree.symm.trans htree')
  have hsections : base.sections = published.own.map fun s => ⟨s.identity, s.interface⟩ := by
    unfold published? at hbase
    split at hbase
    · cases hbase
    · cases hbase
      rfl
  have hmem : ⟨file.identity, tree.interface⟩ ∈ base.sections := by
    rw [hsections]
    exact List.mem_map_of_mem (f := fun s : Module.OwnSection =>
      (⟨s.identity, s.interface⟩ : Module.CanonicalSection)) (List.mem_map_of_mem haccepted)
  -- something is found under the key, and it can only be this, as identities are distinct
  cases hfound : base.get? file.identity.key with
  | none =>
      have hnone := List.find?_eq_none.mp hfound _ hmem
      exact absurd (beq_self_eq_true _) hnone
  | some found =>
      have hkey := List.find?_some hfound
      have hidentity := Section.Identity.key_inj (beq_iff_eq.mp hkey)
      have hapart : base.sections.Pairwise fun s t => s.identity.Apart t.identity := by
        rw [hsections]
        exact List.pairwise_map.mpr h.apart_own
      have hdistinct : (base.sections.map Module.CanonicalSection.identity).Nodup :=
        List.pairwise_map.mpr (hapart.imp Section.Identity.Apart.ne)
      rw [List.inj_on_of_nodup_map hdistinct (List.mem_of_find?_eq_some hfound) hmem hidentity]

/-- A section whose identity is free and whose templates are sound is added unless it does not fit
in. -/
theorem add_eq {a : Assembly} {file : SectionFile} {tree : Syntax.Tree}
    (hfree : identityFault? a.language.shortcode a.taken file.identity file.path = none)
    (htree : Syntax.Tree.ofPayload? file.payload = .ok tree) :
    a.add file =
      match a.baseFault? file.identity.key tree.interface with
      | some fault => .error fault
      | none => .ok { a with
          accepted := a.accepted ++
            [⟨⟨file.identity, tree.value, tree.interface, tree.interpolates⟩, file.path⟩] } := by
  cases hfault : a.baseFault? file.identity.key tree.interface <;>
    simp only [add, hfree, htree, hfault]

/-- **The text of an interface decides whether shapes are equal, and with them whether a section
fits in.**  A file of another language whose section the base language has, and whose identity is
still free, is added if its payload has the shape of the base language's file, and is else refused
for its shape. -/
theorem interface_decides_shape {p q : Payload} {tree tree' : Syntax.Tree}
    (hp : Syntax.Tree.ofPayload? p = .ok tree) (hq : Syntax.Tree.ofPayload? q = .ok tree') :
    (tree.interface = tree'.interface ↔ p.shape = q.shape) ∧
      ∀ (l : Language) (files : List SectionFile) (published : Assembly) (base : BaseCatalog)
        (canonical : SectionFile) (a : Assembly) (file : SectionFile),
        (forBase l).addAll files = .ok published → published.published? = some base →
        canonical ∈ files → canonical.payload = p →
        a.base = some base → file.payload = q → file.identity.key = canonical.identity.key →
        identityFault? a.language.shortcode a.taken file.identity file.path = none →
          ((∃ next, a.add file = .ok next) ↔ p.shape = q.shape) ∧
            (a.add file = .error (.shapeMismatch a.language.shortcode file.identity.key) ↔
              p.shape ≠ q.shape) := by
  have hshape := Syntax.Tree.interface_eq_iff_shape_eq hp hq
  refine ⟨hshape, ?_⟩
  rintro l files published base canonical a file hadded hbase hcanonical rfl ha rfl hkey hfree
  obtain ⟨hholds, -, -⟩ := (holds_forBase l).addAll hadded
  rw [List.nil_append] at hholds
  have hget := hholds.get?_published hbase hcanonical hp
  have hfault : a.baseFault? file.identity.key tree'.interface =
      if tree.interface = tree'.interface then none
      else some (.shapeMismatch a.language.shortcode file.identity.key) := by
    simp only [baseFault?, ha, hkey, hget]
  rw [add_eq hfree hq, hfault, ne_eq, ← hshape]
  by_cases heq : tree.interface = tree'.interface
  · rw [if_pos heq]
    exact ⟨⟨fun _ => heq, fun _ => ⟨_, rfl⟩⟩, ⟨nofun, fun hne => absurd heq hne⟩⟩
  · rw [if_neg heq]
    exact ⟨⟨nofun, fun h => absurd h heq⟩, ⟨fun _ => heq, fun _ => rfl⟩⟩

/-- A file that greets someone by name. -/
def greeting (text : String) : SectionFile :=
  ⟨⟨Section.wordsOf "greeting"⟩, ⟨"greeting.json"⟩, [("hello", .template text ["name"])]⟩

/-- Two greetings have one shape, so that a language can have its own. -/
theorem sample_interface_decides_shape :
    ∃ published base next,
      (forBase ⟨"en", "E", none⟩).addAll [greeting "Hello \x7b\x7bname\x7d\x7d"] = .ok published ∧
        published.published? = some base ∧
        (forDerived ⟨"fr", "F", some "en"⟩ base).add (greeting "Salut") = .ok next := by
  have hp : Syntax.Tree.ofPayload? (greeting "Hello \x7b\x7bname\x7d\x7d").payload =
      .ok [.callable "hello" "Hello \x7b\x7bname\x7d\x7d" ["name"]] := rfl
  have hq : Syntax.Tree.ofPayload? (greeting "Salut").payload =
      .ok [.callable "hello" "Salut" ["name"]] := rfl
  obtain ⟨published, hpublished⟩ : ∃ published,
      (forBase ⟨"en", "E", none⟩).addAll [greeting "Hello \x7b\x7bname\x7d\x7d"] =
        .ok published := ⟨_, rfl⟩
  obtain ⟨base, hbase⟩ : ∃ base, published.published? = some base := by
    cases hpublished
    exact ⟨_, rfl⟩
  obtain ⟨-, hdecides⟩ := interface_decides_shape hp hq
  obtain ⟨hadds, -⟩ := hdecides _ _ published base _ (forDerived ⟨"fr", "F", some "en"⟩ base)
    (greeting "Salut") hpublished hbase List.mem_cons_self rfl rfl rfl rfl rfl
  obtain ⟨next, hnext⟩ := hadds.mpr rfl
  exact ⟨published, base, next, hpublished, hbase, hnext⟩

end Assembly

end Phrasebook
