import Phrasebook.Proofs.FirstFault
import Phrasebook.Proofs.Language.Permutation

/-!
# Proofs — Language — Verdict

Which of a configuration's faults is reported.  All of them can be listed without putting the
languages in order: the rules that each entry breaks (`ruleFaults`), the base language if it is
missing, the parents that are not configured (`orphanFaults`), and the languages that never reach
the base language (`ReachesBase`).  What is reported is the first of this list
(`LanguageSet.reports_ofEntries?`).

That languages are left over just if they do not reach the base language is an induction on each
side: along the order in which languages are placed, and along the way to the base language
(`mem_place_iff`).
-/

namespace Phrasebook

namespace Language

/-! ### The rules for entries -/

/-- The name of an entry but for the blanks around it, if anything is left of it. -/
def displayName? (entry : LanguageEntry) : Option String :=
  (entry.name.map Text.trim).filter fun name => name ≠ ""

theorem nameOf?_eq_displayName? (entry : LanguageEntry) : nameOf? entry = displayName? entry := by
  unfold nameOf? displayName?
  cases entry.name.map Text.trim with
  | none => rfl
  | some name => by_cases h : name = "" <;> simp [h, Option.filter]

/-- The faults of an entry behind others, one for each rule that it breaks, in the order of the
rules.  Its shortcode is new, it has a name, the name is new, the base language extends no other,
and every other language does. -/
def ruleFaults (base : String) (before : List LanguageEntry) (entry : LanguageEntry) :
    List LanguageFault :=
  (if entry.shortcode ∈ before.map LanguageEntry.shortcode then
    [.duplicateShortcode entry.shortcode] else []) ++
  (match displayName? entry with
    | none => [.missingName entry.shortcode]
    | some name => (before.filter fun first => displayName? first = some name).map fun first =>
        .duplicateName entry.shortcode name first.shortcode) ++
  (match entry.parent with
    | some parent =>
        if entry.shortcode = base then [.illegalParent entry.shortcode parent] else []
    | none => if entry.shortcode = base then [] else [.missingParent entry.shortcode base])

/-- The faults of entries one after the other, given those before them. -/
def allRuleFaults (base : String) (before : List LanguageEntry) :
    List LanguageEntry → List LanguageFault
  | [] => []
  | entry :: rest => ruleFaults base before entry ++ allRuleFaults base (before ++ [entry]) rest

variable {base : String} {earlier entries : List LanguageEntry} {before ls : List Language}

/-- A shortcode has been used before by the entries just if it has been by their languages. -/
theorem any_shortcode_iff (h : earlier.map named? = before.map some) {shortcode : String} :
    (before.any fun l => l.shortcode == shortcode) = true ↔
      shortcode ∈ earlier.map LanguageEntry.shortcode := by
  rw [map_shortcode_of_named? h]
  simp

/-- The first language with a name is that of the first entry with the name. -/
theorem find?_name_eq (h : earlier.map named? = before.map some) (name : String) :
    (before.find? fun l => l.name == name).map Language.shortcode =
      (earlier.filter fun entry => displayName? entry = some name).head?.map
        LanguageEntry.shortcode := by
  induction earlier generalizing before with
  | nil =>
      obtain rfl := List.map_eq_nil_iff.mp h.symm
      rfl
  | cons entry earlier ih =>
      obtain ⟨l, ls, rfl, hl, hls⟩ := List.map_eq_cons_iff.mp h.symm
      obtain ⟨given, hgiven, rfl⟩ := Option.map_eq_some_iff.mp hl.symm
      rw [nameOf?_eq_displayName?] at hgiven
      by_cases heq : given = name
      · simp [hgiven, heq]
      · simpa [hgiven, heq] using ih hls.symm

/-- **An entry is refused for the first rule that it breaks.** -/
theorem reports_ofEntry (h : earlier.map named? = before.map some) (entry : LanguageEntry) :
    Reports (ruleFaults base earlier entry) <| ofEntry? base before entry := by
  unfold ofEntry? ruleFaults
  by_cases hshortcode : entry.shortcode ∈ earlier.map LanguageEntry.shortcode
  · rw [if_pos ((any_shortcode_iff h).mpr hshortcode), if_pos hshortcode]
    rfl
  rw [if_neg fun heq => hshortcode ((any_shortcode_iff h).mp heq), if_neg hshortcode]
  rw [nameOf?_eq_displayName?]
  cases hname : displayName? entry with
  | none => rfl
  | some name =>
      have hfirst := find?_name_eq h name
      cases hfound : before.find? fun l => l.name == name with
      | some first =>
          rw [hfound] at hfirst
          obtain ⟨user, huser, hcode⟩ := Option.map_eq_some_iff.mp hfirst.symm
          simp [hfound, Reports, huser, hcode]
      | none =>
          rw [hfound, Option.map_none, eq_comm, Option.map_eq_none_iff,
            List.head?_eq_none_iff] at hfirst
          simp only [hfound, hfirst]
          cases entry.parent <;> by_cases hbase : entry.shortcode = base <;>
            simp [Reports, hbase]

/-- **Entries are refused for the first fault of the first of them that has one.** -/
theorem reports_ofEntries? (h : earlier.map named? = before.map some) :
    Reports (allRuleFaults base earlier entries) (ofEntries? base before entries) := by
  induction entries generalizing earlier before with
  | nil => rfl
  | cons entry entries ih =>
      rw [allRuleFaults, ofEntries?]
      refine (reports_ofEntry h entry).andThen (fun fault hfault => ?_) fun l hl => ?_
      · rw [hfault]
      · rw [hl]
        exact ih (by simp [h, (ofEntry?_eq_ok_iff.mp hl).1])

/-! ### Languages as a whole -/

/-- The faults of entries whose parents are not among all entries. -/
def orphanFaults (all : List LanguageEntry) (entries : List LanguageEntry) : List LanguageFault :=
  entries.filterMap fun entry => entry.parent.bind fun parent =>
    if parent ∈ all.map LanguageEntry.shortcode then none
    else some (.unknownParent entry.shortcode parent)

theorem unknownParent?_eq_head? {all : List LanguageEntry} {languages : List Language}
    (hall : all.map named? = languages.map some) (h : entries.map named? = ls.map some) :
    unknownParent? languages ls = (orphanFaults all entries).head? := by
  induction entries generalizing ls with
  | nil =>
      obtain rfl := List.map_eq_nil_iff.mp h.symm
      rfl
  | cons entry entries ih =>
      obtain ⟨l, ls, rfl, hl, hls⟩ := List.map_eq_cons_iff.mp h.symm
      have hrest := ih hls.symm
      unfold orphanFaults at hrest ⊢
      rw [unknownParent?, parent_of_named? hl.symm, shortcode_of_named? hl.symm]
      rw [List.filterMap_cons]
      cases entry.parent with
      | none => exact hrest
      | some parent =>
          rw [Option.bind_some]
          by_cases hthere : parent ∈ all.map LanguageEntry.shortcode
          · rw [if_pos hthere]
            exact (if_pos ((any_shortcode_iff hall).mpr hthere)).trans hrest
          · rw [if_neg hthere]
            exact if_neg fun heq => hthere ((any_shortcode_iff hall).mp heq)

/-- Following what entries extend leads from a shortcode to the base language. -/
inductive ReachesBase (base : String) (entries : List LanguageEntry) : String → Prop
  | base : ReachesBase base entries base
  | step {entry : LanguageEntry} {parent : String} (hentry : entry ∈ entries)
      (hparent : entry.parent = some parent) (h : ReachesBase base entries parent) :
      ReachesBase base entries entry.shortcode

/-- Languages that are left over stay in their order. -/
theorem sublist_place (placed pending : List Language) :
    (place placed pending).2.Sublist pending := by
  fun_induction place placed pending with
  | case1 placed pending hnone => exact List.Sublist.refl pending
  | case2 placed pending l rest htake hlength ih =>
      obtain ⟨-, before, after, rfl, rfl, -⟩ := exists_split_of_takeReady? htake
      exact ih.trans ((List.sublist_cons_self l after).append_left before)

/-- Languages that come behind the ones that they extend reach the base language. -/
theorem Configured.reachesBase (h : Configured base entries ls) {order : List Language}
    (horder : ParentsFirst before order) (hmem : order ⊆ ls)
    (hbefore : ∀ l ∈ before, ReachesBase base entries l.shortcode) :
    ∀ l ∈ order, ReachesBase base entries l.shortcode := by
  induction order generalizing before with
  | nil => nofun
  | cons l order ih =>
      obtain ⟨hready, hothers⟩ := horder
      obtain ⟨hl, horderls⟩ := List.cons_subset.mp hmem
      have hreaches : ReachesBase base entries l.shortcode := by
        unfold isReady at hready
        split at hready
        · next hparent =>
            rw [(h.parent_eq_none l hl).mp hparent]
            exact .base
        · next parent hparent =>
            obtain ⟨p, hp, hshortcode⟩ := List.any_eq_true.mp hready
            obtain ⟨entry, hentry, hnamed⟩ := h.exists_entry_of_mem hl
            rw [shortcode_of_named? hnamed]
            refine .step hentry ((parent_of_named? hnamed).symm.trans hparent) ?_
            rw [← beq_iff_eq.mp hshortcode]
            exact hbefore p hp
      refine List.forall_mem_cons.mpr ⟨hreaches, ih hothers horderls fun m hm => ?_⟩
      rcases List.mem_append.mp hm with hm | hm
      · exact hbefore m hm
      · rw [List.mem_singleton.mp hm]
        exact hreaches

/-- A language that reaches the base language gets its place. -/
theorem Configured.not_mem_place (h : Configured base entries ls)
    (hparents : ∀ l ∈ ls, ∀ parent, l.parent = some parent → ∃ p ∈ ls, p.shortcode = parent)
    {shortcode : String} (hreaches : ReachesBase base entries shortcode) :
    ∀ l ∈ ls, l.shortcode = shortcode → l ∉ (place [] ls).2 := by
  obtain ⟨hplaced, -⟩ := place_spec [] ls trivial
  -- what is left over is not ready, although all that it extends has its place
  induction hreaches with
  | base =>
      intro l hl hshortcode hleft
      have hwaits := not_isReady_of_place [] ls l hleft
      rw [isReady, (h.parent_eq_none l hl).mpr hshortcode] at hwaits
      cases hwaits
  | @step entry parent hentry hparent _ ih =>
      intro l hl hshortcode hleft
      obtain ⟨m, hm, hnamed⟩ := h.exists_of_mem_entries hentry
      obtain rfl : l = m := List.inj_on_of_nodup_map h.distinct hl hm
        (hshortcode.trans (shortcode_of_named? hnamed).symm)
      have hextends := (parent_of_named? hnamed).trans hparent
      obtain ⟨p, hp, hpshortcode⟩ := hparents l hl parent hextends
      have hthere : p ∈ (place [] ls).1 := by
        rcases List.mem_append.mp (hplaced.mem_iff.mpr hp) with hthere | hp'
        · exact hthere
        · exact absurd hp' (ih p hp hpshortcode)
      have hwaits := not_isReady_of_place [] ls l hleft
      rw [isReady, hextends] at hwaits
      exact Bool.eq_false_iff.mp hwaits
        (List.any_eq_true.mpr ⟨p, hthere, beq_iff_eq.mpr hpshortcode⟩)

/-- **Languages are left over** if they do not reach the base language, and only these are. -/
theorem Configured.mem_place_iff (h : Configured base entries ls)
    (hparents : ∀ l ∈ ls, ∀ parent, l.parent = some parent → ∃ p ∈ ls, p.shortcode = parent)
    {l : Language} (hl : l ∈ ls) :
    l ∈ (place [] ls).2 ↔ ¬ ReachesBase base entries l.shortcode := by
  obtain ⟨hplaced, hfirst⟩ := place_spec [] ls trivial
  constructor
  · exact fun hleft hreaches => h.not_mem_place hparents hreaches l hl rfl hleft
  · intro hlost
    rcases List.mem_append.mp (hplaced.mem_iff.mpr hl) with hthere | hleft
    · have hsubset : (place [] ls).1 ⊆ ls :=
        fun m hm => hplaced.mem_iff.mp (List.mem_append_left _ hm)
      exact absurd (h.reachesBase hfirst hsubset nofun l hthere) hlost
    · exact hleft

end Language

namespace LanguageSet
open Phrasebook.Language

/-- All faults of a configuration but for the languages that never reach the base language, in the
order in which they count. -/
def faults (base : String) (entries : List LanguageEntry) : List LanguageFault :=
  allRuleFaults base [] entries ++
    (if base ∈ entries.map LanguageEntry.shortcode then [] else [.missingBaseLanguage base]) ++
    orphanFaults entries entries

/-- The languages of a configuration that never reach the base language, in the order in which they
are configured. -/
structure Lost (base : String) (entries : List LanguageEntry) (shortcodes : List String) :
    Prop where
  sublist : shortcodes.Sublist (entries.map LanguageEntry.shortcode)
  mem_iff : ∀ s ∈ entries.map LanguageEntry.shortcode,
    s ∈ shortcodes ↔ ¬ ReachesBase base entries s

/-- The fault of languages that never reach the base language. -/
def lostFaults : List String → List LanguageFault
  | [] => []
  | lost => [.inheritanceCycle lost]

theorem lostFaults_eq_nil_iff {lost : List String} : lostFaults lost = [] ↔ lost = [] := by
  cases lost <;> simp [lostFaults]

theorem exists_lost (base : String) (entries : List LanguageEntry) :
    ∃ shortcodes, Lost base entries shortcodes := by
  classical
  refine ⟨(entries.map LanguageEntry.shortcode).filter fun s => ¬ ReachesBase base entries s,
    List.filter_sublist, fun s hs => ?_⟩
  rw [List.mem_filter, decide_eq_true_iff]
  exact and_iff_right hs

/-- A fault that counts before is reported, whichever languages never reach the base language. -/
theorem exists_lost_of_error {base : String} {entries : List LanguageEntry}
    {first : List LanguageFault} {fault : LanguageFault}
    (h : Reports first (.error fault : Except LanguageFault LanguageSet)) :
    ∃ lost, Lost base entries lost ∧
      Reports (first ++ lostFaults lost) (.error fault : Except LanguageFault LanguageSet) := by
  obtain ⟨lost, hlost⟩ := exists_lost base entries
  exact ⟨lost, hlost, h.append_of_error⟩

/-- Languages that are all known, with the base language among them, are put in order unless some of
them never reach it. -/
theorem reports_ofLanguages? {base : String} {entries : List LanguageEntry} {ls : List Language}
    (h : Configured base entries ls)
    (hparents : ∀ l ∈ ls, ∀ parent, l.parent = some parent → ∃ p ∈ ls, p.shortcode = parent) :
    ∃ lost, Lost base entries lost ∧ Reports (lostFaults lost) (ofLanguages? ls) := by
  have hshortcodes := map_shortcode_of_named? h.named
  refine ⟨(place [] ls).2.map Language.shortcode, ⟨?_, fun s hs => ?_⟩, ?_⟩
  · rw [hshortcodes]
    exact (sublist_place [] ls).map Language.shortcode
  · rw [hshortcodes] at hs
    obtain ⟨l, hl, rfl⟩ := List.mem_map.mp hs
    constructor
    · intro hleft
      obtain ⟨m, hm, hshortcode⟩ := List.mem_map.mp hleft
      rw [← hshortcode]
      exact (h.mem_place_iff hparents ((sublist_place [] ls).subset hm)).mp hm
    · intro hlost
      exact List.mem_map_of_mem ((h.mem_place_iff hparents hl).mpr hlost)
  · unfold ofLanguages?
    rcases hplace : place [] ls with ⟨placed, stuck⟩
    cases stuck <;> rfl

/-- The faults of a configuration are reported in the order in which they count. -/
theorem reports_ofEntries? (base : String) (entries : List LanguageEntry) :
    ∃ lost, Lost base entries lost ∧
      Reports (faults base entries ++ lostFaults lost) (ofEntries? entries base) := by
  have hchecked : Reports (allRuleFaults base [] entries) (Language.ofEntries? base [] entries) :=
    Language.reports_ofEntries? rfl
  unfold ofEntries? faults
  rw [List.append_assoc (allRuleFaults base [] entries)]
  cases hls : Language.ofEntries? base [] entries with
  | error fault =>
      rw [hls] at hchecked
      exact exists_lost_of_error hchecked.append_of_error
  | ok ls =>
      rw [hls] at hchecked
      have hconfigured := (Configured.nil base).addAll hls
      rw [List.nil_append] at hconfigured
      rw [show allRuleFaults base [] entries = [] from hchecked, List.nil_append]
      by_cases hbase : base ∈ entries.map LanguageEntry.shortcode
      · have hthere := (any_shortcode_iff hconfigured.named).mpr hbase
        have hknown := unknownParent?_eq_head? hconfigured.named hconfigured.named
        simp only [hthere, if_true, if_pos hbase, List.nil_append]
        cases hunknown : unknownParent? ls ls with
        | some fault =>
            rw [hunknown] at hknown
            exact exists_lost_of_error hknown.symm
        | none =>
            rw [hunknown] at hknown
            rw [List.head?_eq_none_iff.mp hknown.symm]
            exact reports_ofLanguages? hconfigured (unknownParent?_eq_none_iff.mp hunknown)
      · have hmissing := fun h => hbase ((any_shortcode_iff hconfigured.named).mp h)
        simp only [if_neg hmissing, if_neg hbase]
        exact exists_lost_of_error rfl

/-- **Which fault of a configuration is reported.**  Of the faults of single languages it is the
first one of the first language that has any, by the order of the rules.  If there are none, it is
the missing base language, or else the first parent that is not configured, or else all languages
that never reach the base language; and the languages fit together if there is nothing of all
this. -/
theorem ofEntries?_verdict (base : String) (entries : List LanguageEntry) :
    ∃ lost, Lost base entries lost ∧
      (∀ fault, ofEntries? entries base = .error fault ↔
        (faults base entries ++ lostFaults lost).head? = some fault) ∧
      ((∃ set, ofEntries? entries base = .ok set) ↔ faults base entries = [] ∧ lost = []) := by
  obtain ⟨lost, hlost, hreports⟩ := reports_ofEntries? base entries
  refine ⟨lost, hlost, fun fault => hreports.eq_error_iff, hreports.exists_ok_iff.trans ?_⟩
  rw [List.append_eq_nil_iff, lostFaults_eq_nil_iff]

/-- Two languages that extend each other, and one that extends one of them. -/
example : ofEntries? [⟨"c", some "C", some "a"⟩, ⟨"en", some "E", none⟩, ⟨"a", some "A", some "b"⟩,
    ⟨"d", some "D", some "en"⟩, ⟨"b", some "B", some "a"⟩] "en" =
      .error (.inheritanceCycle ["c", "a", "b"]) := by
  decide +kernel

end LanguageSet

end Phrasebook
