import Mathlib.Data.List.Nodup
import Phrasebook.Language.Order

/-!
# Proofs — Language — Order

What is known of languages once they have been put in order.  They are the configured ones, each
with a shortcode of its own (`Configured`); the base language comes first, is the only one that
extends none, and every other language comes behind the one that it extends (`ParentsFirst`).
`LanguageSet.ordered_of_ofEntries?` is the outcome.
-/

namespace Phrasebook

namespace Language

/-- The language that an entry configures, if it has a name. -/
def named? (entry : LanguageEntry) : Option Language :=
  (nameOf? entry).map fun name => ⟨entry.shortcode, name, entry.parent⟩

theorem shortcode_of_named? {entry : LanguageEntry} {l : Language} (h : named? entry = some l) :
    l.shortcode = entry.shortcode := by
  obtain ⟨name, -, rfl⟩ := Option.map_eq_some_iff.mp h
  rfl

theorem parent_of_named? {entry : LanguageEntry} {l : Language} (h : named? entry = some l) :
    l.parent = entry.parent := by
  obtain ⟨name, -, rfl⟩ := Option.map_eq_some_iff.mp h
  rfl

theorem map_shortcode_of_named? {entries : List LanguageEntry} {ls : List Language}
    (h : entries.map named? = ls.map some) :
    entries.map LanguageEntry.shortcode = ls.map Language.shortcode := by
  induction entries generalizing ls with
  | nil =>
      cases ls with
      | nil => rfl
      | cons l ls => cases h
  | cons entry entries ih =>
      cases ls with
      | nil => cases h
      | cons l ls =>
          obtain ⟨hl, hls⟩ := List.cons.inj h
          rw [List.map_cons, List.map_cons, shortcode_of_named? hl, ih hls]

end Language

/-- An entry configures a language: the one with its shortcode and its parent, and with its name
but for the blanks around it. -/
structure LanguageEntry.Configures (entry : LanguageEntry) (l : Language) : Prop where
  shortcode : l.shortcode = entry.shortcode
  parent : l.parent = entry.parent
  name : entry.name.map Text.trim = some l.name

theorem LanguageEntry.configures_of_named? {entry : LanguageEntry} {l : Language}
    (h : Language.named? entry = some l) : entry.Configures l := by
  obtain ⟨name, hname, rfl⟩ := Option.map_eq_some_iff.mp h
  refine ⟨rfl, rfl, ?_⟩
  unfold Language.nameOf? at hname
  split at hname
  · cases hname
  next trimmed htrimmed =>
    split at hname
    · cases hname
    · rw [htrimmed, hname]

theorem LanguageEntry.forall₂_configures {entries : List LanguageEntry} {ls : List Language}
    (h : entries.map Language.named? = ls.map some) : List.Forall₂ Configures entries ls := by
  induction entries generalizing ls with
  | nil =>
      obtain rfl := List.map_eq_nil_iff.mp h.symm
      exact .nil
  | cons entry entries ih =>
      obtain ⟨l, ls, rfl, hl, hls⟩ := List.map_eq_cons_iff.mp h.symm
      exact .cons (configures_of_named? hl.symm) (ih hls.symm)

namespace Language

/-- Each language comes behind the one that it extends; `before` holds what has been placed. -/
def ParentsFirst : List Language → List Language → Prop
  | _, [] => True
  | before, l :: ls => l.isReady before = true ∧ ParentsFirst (before ++ [l]) ls

theorem parentsFirst_append {before ls ms : List Language} :
    ParentsFirst before (ls ++ ms) ↔ ParentsFirst before ls ∧ ParentsFirst (before ++ ls) ms := by
  induction ls generalizing before with
  | nil => simp [ParentsFirst]
  | cons l ls ih => simp [ParentsFirst, ih, and_assoc]

/-- Each language of an order comes behind the one that it extends. -/
def BehindParents (order : List Language) : Prop :=
  ∀ before l after, order = before ++ l :: after →
    ∀ parent, l.parent = some parent → ∃ p ∈ before, p.shortcode = parent

theorem isReady_iff {before : List Language} {l : Language} : l.isReady before = true ↔
    ∀ parent, l.parent = some parent → ∃ p ∈ before, p.shortcode = parent := by
  unfold isReady
  cases l.parent with
  | none => exact ⟨fun _ => nofun, fun _ => rfl⟩
  | some parent => simp

theorem parentsFirst_iff {order : List Language} : ParentsFirst [] order ↔ BehindParents order := by
  constructor
  · rintro h before l after rfl
    exact isReady_iff.mp (parentsFirst_append.mp h).2.1
  · intro h
    -- what is placed first is in order, as long as all of the order is
    suffices hall : ∀ before rest, order = before ++ rest → ParentsFirst before rest from
      hall [] order rfl
    intro before rest horder
    induction rest generalizing before with
    | nil => trivial
    | cons l rest ih =>
        refine ⟨isReady_iff.mpr (h before l rest horder), ih (before ++ [l]) ?_⟩
        rw [horder, List.append_cons]

/-- Languages that come behind the ones that they extend can be numbered so that the number falls
from each language to its parent. -/
theorem ParentsFirst.exists_rank {ls : List Language} (h : ParentsFirst [] ls) :
    ∃ rank : Language → Nat, ∀ l ∈ ls, rank l < ls.length ∧
      ∀ parent, l.parent = some parent → ∃ p ∈ ls, p.shortcode = parent ∧ rank p < rank l := by
  refine ⟨fun l => ls.idxOf l, fun l hl => ⟨List.idxOf_lt_length_of_mem hl, ?_⟩⟩
  intro parent hparent
  -- all that stands before the first place of `l` has a smaller number
  obtain ⟨before, after, rfl, hnew⟩ := List.eq_append_cons_of_mem hl
  obtain ⟨hready, -⟩ := (parentsFirst_append.mp h).2
  rw [List.nil_append, isReady, hparent] at hready
  obtain ⟨p, hp, hshortcode⟩ := List.any_eq_true.mp hready
  refine ⟨p, List.mem_append_left _ hp, beq_iff_eq.mp hshortcode, ?_⟩
  have hnumber : before.idxOf p < before.length := List.idxOf_lt_length_of_mem hp
  simpa [List.idxOf_append, hp, hnew] using hnumber

/-! ### Checked entries -/

/-- Languages that entries configure one by one, no two with one shortcode, the base language alone
extending none. -/
structure Configured (base : String) (entries : List LanguageEntry) (ls : List Language) :
    Prop where
  named : entries.map named? = ls.map some
  distinct : (ls.map Language.shortcode).Nodup
  parent_eq_none : ∀ l ∈ ls, l.parent = none ↔ l.shortcode = base

/-- **An entry passes its check** if it configures a language whose shortcode and name are new, and
which extends another unless it is the base language. -/
theorem ofEntry?_eq_ok_iff {base : String} {before : List Language} {entry : LanguageEntry}
    {l : Language} : ofEntry? base before entry = .ok l ↔
      named? entry = some l ∧
        (∀ m ∈ before, m.shortcode ≠ l.shortcode ∧ m.name ≠ l.name) ∧
        (l.parent = none ↔ l.shortcode = base) := by
  constructor
  · intro h
    unfold ofEntry? at h
    split at h
    · cases h
    next hshortcode =>
      split at h
      · cases h
      next name hname =>
        split at h
        · cases h
        next hfree =>
          have hnew : ∀ m ∈ before, m.shortcode ≠ entry.shortcode ∧ m.name ≠ name := fun m hm =>
            ⟨fun heq => hshortcode (List.any_eq_true.mpr ⟨m, hm, beq_iff_eq.mpr heq⟩),
              fun heq => List.find?_eq_none.mp hfree m hm (beq_iff_eq.mpr heq)⟩
          split at h
          · next parent hparent =>
              split at h
              · cases h
              · next hbase =>
                  cases h
                  exact ⟨by simp [named?, hname, hparent], hnew, by simpa using hbase⟩
          · next hparent =>
              split at h
              · next hbase =>
                  cases h
                  exact ⟨by simp [named?, hname, hparent], hnew, by simpa using hbase⟩
              · cases h
  · rintro ⟨hnamed, hnew, hparent⟩
    obtain ⟨name, hname, rfl⟩ := Option.map_eq_some_iff.mp hnamed
    have hshortcode : (before.any fun m => m.shortcode == entry.shortcode) = false :=
      List.any_eq_false.mpr fun m hm heq => (hnew m hm).1 (beq_iff_eq.mp heq)
    have hfree : (before.find? fun m => m.name == name) = none :=
      List.find?_eq_none.mpr fun m hm heq => (hnew m hm).2 (beq_iff_eq.mp heq)
    unfold ofEntry?
    simp only [hshortcode, hname, hfree]
    cases hextends : entry.parent with
    | none =>
        have hbase : entry.shortcode = base := hparent.mp hextends
        simp [hbase]
    | some parent =>
        have hbase : entry.shortcode ≠ base := fun heq => by
          cases hextends.symm.trans (hparent.mpr heq)
        simp [hbase]

/-- Every entry configures a language. -/
theorem Configured.exists_of_mem_entries {base : String} {entries : List LanguageEntry}
    {ls : List Language} (h : Configured base entries ls) {entry : LanguageEntry}
    (hentry : entry ∈ entries) : ∃ l ∈ ls, named? entry = some l := by
  have hmem : named? entry ∈ ls.map some := h.named ▸ List.mem_map_of_mem hentry
  obtain ⟨l, hl, heq⟩ := List.mem_map.mp hmem
  exact ⟨l, hl, heq.symm⟩

/-- Every language is configured by an entry. -/
theorem Configured.exists_entry_of_mem {base : String} {entries : List LanguageEntry}
    {ls : List Language} (h : Configured base entries ls) {l : Language} (hl : l ∈ ls) :
    ∃ entry ∈ entries, named? entry = some l := by
  have hmem : some l ∈ entries.map named? := h.named ▸ List.mem_map_of_mem hl
  exact List.mem_map.mp hmem

theorem Configured.nil (base : String) : Configured base [] [] :=
  ⟨rfl, .nil, fun l hl => by cases hl⟩

/-- One more entry. -/
theorem Configured.add {base : String} {entries : List LanguageEntry} {ls : List Language}
    {entry : LanguageEntry} {l : Language} (h : Configured base entries ls)
    (hl : ofEntry? base ls entry = .ok l) : Configured base (entries ++ [entry]) (ls ++ [l]) := by
  obtain ⟨hnamed, hnew, hparent⟩ := ofEntry?_eq_ok_iff.mp hl
  refine ⟨by simp [h.named, hnamed], ?_, fun m hm => ?_⟩
  · rw [List.map_append, List.nodup_append]
    refine ⟨h.distinct, by simp, fun a ha b hb => ?_⟩
    obtain ⟨m, hm, rfl⟩ := List.mem_map.mp ha
    obtain rfl : b = l.shortcode := by simpa using hb
    exact (hnew m hm).1
  · rcases List.mem_append.mp hm with hm | hm
    · exact h.parent_eq_none m hm
    · rw [List.mem_singleton.mp hm]
      exact hparent

/-- Entries that all pass. -/
theorem Configured.addAll {base : String} {entries rest : List LanguageEntry}
    {ls ms : List Language} (h : Configured base entries ls)
    (hms : ofEntries? base ls rest = .ok ms) : Configured base (entries ++ rest) ms := by
  induction rest generalizing entries ls with
  | nil =>
      cases hms
      rwa [List.append_nil]
  | cons entry rest ih =>
      rw [ofEntries?] at hms
      split at hms
      · cases hms
      · next l hl =>
          rw [List.append_cons]
          exact ih (h.add hl) hms

/-! ### Placing languages -/

/-- **The language that is taken** is the first that is ready; those before it are not, and they and
those behind it stay as they are. -/
theorem exists_split_of_takeReady? {placed pending rest : List Language} {l : Language}
    (h : takeReady? placed pending = some (l, rest)) :
    l.isReady placed = true ∧ ∃ before after, pending = before ++ l :: after ∧
      rest = before ++ after ∧ ∀ m ∈ before, m.isReady placed = false := by
  induction pending generalizing rest l with
  | nil => cases h
  | cons p ps ih =>
      rw [takeReady?] at h
      split at h
      · next hready =>
          cases h
          exact ⟨hready, [], ps, rfl, rfl, List.forall_mem_nil _⟩
      · next hwaits =>
          obtain ⟨⟨m, ms⟩, hm, heq⟩ := Option.map_eq_some_iff.mp h
          cases heq
          obtain ⟨hready, before, after, rfl, rfl, hbefore⟩ := ih hm
          exact ⟨hready, p :: before, after, rfl, rfl,
            List.forall_mem_cons.mpr ⟨Bool.eq_false_iff.mpr hwaits, hbefore⟩⟩

/-- The language that is taken was waiting and is ready. -/
theorem perm_of_takeReady? {placed pending rest : List Language} {l : Language}
    (h : takeReady? placed pending = some (l, rest)) :
    l.isReady placed = true ∧ (l :: rest).Perm pending := by
  obtain ⟨hready, before, after, rfl, rfl, -⟩ := exists_split_of_takeReady? h
  exact ⟨hready, List.perm_middle.symm⟩

/-- Placing loses no language, and puts each behind the one that it extends. -/
theorem place_spec (placed pending : List Language) (h : ParentsFirst [] placed) :
    ((place placed pending).1 ++ (place placed pending).2).Perm (placed ++ pending) ∧
      ParentsFirst [] (place placed pending).1 := by
  -- the invariant is the order of what has been placed; each step moves one language there
  fun_induction place placed pending with
  | case1 placed pending hnone => exact ⟨.refl _, h⟩
  | case2 placed pending l rest htake hlength ih =>
      obtain ⟨hready, hperm⟩ := perm_of_takeReady? htake
      obtain ⟨hplaced, hfirst⟩ := ih (parentsFirst_append.mpr ⟨h, hready, trivial⟩)
      refine ⟨hplaced.trans ?_, hfirst⟩
      rw [List.append_assoc]
      exact hperm.append_left placed

end Language

namespace LanguageSet
open Phrasebook.Language

/-- Languages in order: the configured ones, the base language among them, and each behind the one
that it extends. -/
structure Ordered (base : String) (entries : List LanguageEntry) (ls : List Language) : Prop where
  perm : ∃ ms, Configured base entries ms ∧ ls.Perm ms
  exists_base : ∃ l ∈ ls, l.shortcode = base
  parentsFirst : ParentsFirst [] ls

/-- Languages fit together if all entries pass, the base language and all parents are there, and
every language gets its place. -/
theorem ofEntries?_eq_ok_iff {base : String} {entries : List LanguageEntry} {set : LanguageSet} :
    ofEntries? entries base = .ok set ↔
      ∃ ls, Language.ofEntries? base [] entries = .ok ls ∧
        (ls.any fun l => l.shortcode == base) = true ∧ unknownParent? ls ls = none ∧
        place [] ls = (set.languages, []) := by
  constructor
  · intro h
    unfold ofEntries? at h
    split at h
    · cases h
    next ls hls =>
      split at h
      · next hbase =>
          split at h
          · cases h
          · next hparents =>
              unfold ofLanguages? at h
              split at h
              · next placed hplace =>
                  cases h
                  exact ⟨ls, hls, hbase, hparents, hplace⟩
              · cases h
      · cases h
  · rintro ⟨ls, hls, hbase, hparents, hplace⟩
    simp only [ofEntries?, hls, hbase, hparents, ofLanguages?, hplace, if_true]

/-- **Languages that fit together are in order.** -/
theorem ordered_of_ofEntries? {base : String} {entries : List LanguageEntry} {set : LanguageSet}
    (h : ofEntries? entries base = .ok set) : Ordered base entries set.languages := by
  obtain ⟨ms, hms, hbase, -, hplace⟩ := ofEntries?_eq_ok_iff.mp h
  obtain ⟨hperm, hfirst⟩ := place_spec [] ms trivial
  rw [hplace, List.append_nil, List.nil_append] at hperm
  rw [hplace] at hfirst
  obtain ⟨l, hl, hshortcode⟩ := List.any_eq_true.mp hbase
  exact ⟨⟨ms, (Configured.nil base).addAll hms, hperm⟩,
    ⟨l, hperm.mem_iff.mpr hl, beq_iff_eq.mp hshortcode⟩, hfirst⟩

namespace Ordered

variable {base : String} {entries : List LanguageEntry} {ls : List Language}

theorem nodup (h : Ordered base entries ls) : (ls.map Language.shortcode).Nodup := by
  obtain ⟨ms, hms, hperm⟩ := h.perm
  exact (hperm.map Language.shortcode).nodup_iff.mpr hms.distinct

theorem parent_eq_none_iff (h : Ordered base entries ls) {l : Language} (hl : l ∈ ls) :
    l.parent = none ↔ l.shortcode = base := by
  obtain ⟨ms, hms, hperm⟩ := h.perm
  exact hms.parent_eq_none l (hperm.mem_iff.mp hl)

theorem length_eq (h : Ordered base entries ls) : ls.length = entries.length := by
  obtain ⟨ms, hms, hperm⟩ := h.perm
  have hlength := congrArg List.length hms.named
  simp only [List.length_map] at hlength
  rw [hperm.length_eq, hlength]

/-- The shortcodes are those that are configured. -/
theorem perm_shortcodes (h : Ordered base entries ls) :
    (ls.map Language.shortcode).Perm (entries.map LanguageEntry.shortcode) := by
  obtain ⟨ms, hms, hperm⟩ := h.perm
  rw [map_shortcode_of_named? hms.named]
  exact hperm.map Language.shortcode

/-- Every configured language is in its place. -/
theorem exists_of_mem_entries (h : Ordered base entries ls) {entry : LanguageEntry}
    (hentry : entry ∈ entries) : ∃ l ∈ ls, named? entry = some l := by
  obtain ⟨ms, hms, hperm⟩ := h.perm
  obtain ⟨l, hl, hnamed⟩ := hms.exists_of_mem_entries hentry
  exact ⟨l, hperm.mem_iff.mpr hl, hnamed⟩

/-- No other languages are there. -/
theorem exists_entry_of_mem (h : Ordered base entries ls) {l : Language} (hl : l ∈ ls) :
    ∃ entry ∈ entries, named? entry = some l := by
  obtain ⟨ms, hms, hperm⟩ := h.perm
  exact hms.exists_entry_of_mem (hperm.mem_iff.mp hl)

/-- The base language comes first, and all others extend some language. -/
theorem exists_cons (h : Ordered base entries ls) :
    ∃ first rest, ls = first :: rest ∧ first.shortcode = base ∧ first.parent = none ∧
      ∀ l ∈ rest, l.parent ≠ none := by
  obtain ⟨l, hl, -⟩ := h.exists_base
  cases ls with
  | nil => cases hl
  | cons first rest =>
      -- nothing has been placed before the first language, so it cannot extend another
      have hready := h.parentsFirst.1
      have hparent : first.parent = none := by
        unfold isReady at hready
        split at hready
        · assumption
        · cases hready
      have hbase := (h.parent_eq_none_iff List.mem_cons_self).mp hparent
      refine ⟨first, rest, rfl, hbase, hparent, fun m hm hnone => ?_⟩
      have hm' := (h.parent_eq_none_iff (List.mem_cons_of_mem _ hm)).mp hnone
      have hnodup := h.nodup
      rw [List.map_cons, List.nodup_cons] at hnodup
      exact hnodup.1 (hbase.trans hm'.symm ▸ List.mem_map_of_mem hm)

end Ordered

end LanguageSet

end Phrasebook
