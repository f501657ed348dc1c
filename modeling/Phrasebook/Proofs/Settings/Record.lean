import Mathlib.Data.List.Count
import Mathlib.Data.List.Forall2
import Mathlib.Data.List.Nodup
import Phrasebook.Proofs.Json.Reading
import Phrasebook.Proofs.Json.Skipping
import Phrasebook.Settings.Document

/-!
# Proofs — Settings — Record

What the readers of settings make of a value (`Takes`): always the same, whatever way the value is
spelled.  A record is read member by member into a draft.  The draft depends on the fields that have
been named so far and on nothing else (`Tracks`): not on their order, and not on members that are no
fields.  So the record is known from the names of the members (`Tracks.takes_record`), provided that
they are a choice among the fields (`Picks`).
-/

namespace Phrasebook.Json

open Text (outcome SpellsChars)

variable {α δ σ : Type} {first : Bool} {s t u after rest : List Char}

/-- The reader takes the value for `a`, whatever way it is spelled. -/
def Takes (reader : Reader α) (v : Value) (a : α) : Prop :=
  ∀ s rest, Spells v s rest → outcome (reader s) = some (a, rest)

/-! ### Texts -/

theorem takes_textValue (t : String) : Takes textValue (.text t) t := by
  intro s rest h
  cases h with
  | text h hcs =>
      have hs := h.skipBlank_eq rfl
      obtain ⟨_, hread⟩ := outcome_eq_some_iff.mp hcs.outcome_text
      unfold textValue
      split
      · next heq => cases hs.symm.trans heq
      · next heq =>
          cases hs.symm.trans heq
          rw [if_pos rfl, hread]
          rfl

theorem takes_optionalText (t : Option String) :
    Takes optionalText (Settings.optionalToJson t) t := by
  intro s rest h
  cases t with
  | none =>
      cases h with
      | null h =>
          have hs := h.skipBlank_eq rfl
          unfold optionalText
          split
          · next heq =>
              cases hs.symm.trans heq
              rfl
          · next heq => exact absurd hs (heq _)
  | some t =>
      obtain ⟨_, hread⟩ := outcome_eq_some_iff.mp (takes_textValue t s rest h)
      cases h with
      | text h hcs =>
          have hs := h.skipBlank_eq rfl
          unfold optionalText
          split
          · next heq => cases hs.symm.trans heq
          · rw [hread]
            rfl

/-! ### Lists -/

theorem outcome_items {item : Reader α} {vs : List Value} {as : List α}
    (h : List.Forall₂ (Takes item) vs as) :
    ∀ {first : Bool} {s rest : List Char}, SpellsItems first vs s rest →
      outcome (items item first s) = some (as, rest) := by
  induction h with
  | nil =>
      intro first s rest h
      cases h with
      | close h => exact outcome_items_of_close h
  | cons hitem _ ih =>
      intro first s rest h
      cases h with
      | cons h hv hitems =>
          obtain ⟨c, cs, ht, hc, hv⟩ := hv.exists_skipBlank
          rw [outcome_items_of_cons h ht hc (hitem _ _ hv), ih hitems]
          rfl

theorem takes_listOf {item : Reader α} {vs : List Value} {as : List α}
    (h : List.Forall₂ (Takes item) vs as) : Takes (listOf item) (.list vs) as := by
  intro s rest hspells
  cases hspells with
  | list hlist hitems =>
      have hs := hlist.skipBlank_eq rfl
      obtain ⟨_, hread⟩ := outcome_eq_some_iff.mp (outcome_items h hitems)
      unfold listOf
      split
      · next heq => cases hs.symm.trans heq
      · next heq =>
          cases hs.symm.trans heq
          rw [if_pos rfl, hread]
          rfl

/-! ### Members -/

theorem outcome_fieldOf_slot {slots : List (Slot δ)} {key : String} {slot : Slot δ}
    {draft next : δ} (hslot : (slots.find? fun slot => slot.name == key) = some slot)
    (hempty : slot.filled draft = false) (hcolon : IsBlankUpTo s (':' :: t))
    (hread : outcome (slot.read draft t) = some (next, rest)) :
    outcome (fieldOf slots key draft s) = some (next, rest) := by
  obtain ⟨_, hcolon⟩ := colon_eq hcolon
  obtain ⟨_, hread⟩ := outcome_eq_some_iff.mp hread
  rw [fieldOf, hslot]
  simp only [hempty, hcolon, hread]
  rfl

theorem outcome_fieldOf_none {slots : List (Slot δ)} {key : String} {draft : δ} {v : Value}
    (hslot : (slots.find? fun slot => slot.name == key) = none)
    (hcolon : IsBlankUpTo s (':' :: t)) (hv : Spells v t rest) :
    outcome (fieldOf slots key draft s) = some (draft, rest) := by
  obtain ⟨_, hcolon⟩ := colon_eq hcolon
  obtain ⟨_, hskip⟩ := outcome_eq_some_iff.mp hv.outcome_skip
  rw [fieldOf, hslot]
  simp only [hcolon, hskip]
  rfl

/-! ### Fields that have been named -/

/-- What a member says if it is there, or else the default. -/
def overlaid (names : List String) (name : String) (value default : α) : α :=
  if name ∈ names then value else default

section

variable {names : List String} {name other : String} {value default : α}

theorem overlaid_of_mem (h : name ∈ names) : overlaid names name value default = value :=
  if_pos h

theorem overlaid_of_not_mem (h : name ∉ names) : overlaid names name value default = default :=
  if_neg h

@[simp] theorem overlaid_append_self :
    overlaid (names ++ [name]) name value default = value :=
  overlaid_of_mem (by simp)

@[simp] theorem overlaid_append_of_ne (h : name ≠ other) :
    overlaid (names ++ [other]) name value default = overlaid names name value default := by
  simp [overlaid, h]

/-- A draft without a field gets its default in the end. -/
@[simp] theorem getD_overlaid :
    (overlaid names name (some value) none).getD default =
      overlaid names name value default := by
  unfold overlaid
  split <;> rfl

end

/-! ### Records -/

/-- The members are a choice among the fields, in any order, and others: no field is there twice,
and each has its value. -/
structure Picks (fields members : List (String × Value)) : Prop where
  once : ∀ f ∈ fields, (Entries.names members).count f.1 ≤ 1
  agrees : ∀ name v w, (name, v) ∈ fields → (name, w) ∈ members → w = v

/-- Some of the fields and members of other names, in any order. -/
theorem picks_of_perm {fields chosen others members : List (String × Value)}
    (hnames : (Entries.names fields).Nodup) (hchosen : chosen.Sublist fields)
    (hothers : ∀ m ∈ others, m.1 ∉ Entries.names fields)
    (h : members.Perm (chosen ++ others)) : Picks fields members where
  once f hf := by
    have hother : f.1 ∉ Entries.names others := by
      intro hmem
      obtain ⟨m, hm, hname⟩ := List.mem_map.mp hmem
      exact hothers m hm (hname ▸ List.mem_map_of_mem hf)
    have hcount : (Entries.names members).count f.1 = (Entries.names chosen).count f.1 := by
      rw [Entries.names, (h.map Prod.fst).count_eq, List.map_append, List.count_append]
      exact Nat.add_eq_left.mpr (List.count_eq_zero.mpr hother)
    rw [hcount]
    exact Nat.le_trans ((hchosen.map Prod.fst).count_le f.1)
      (List.nodup_iff_count_le_one.mp hnames f.1)
  agrees name v w hv hw := by
    rcases List.mem_append.mp (h.mem_iff.mp hw) with hw | hw
    · exact (Prod.mk.inj (List.inj_on_of_nodup_map hnames (hchosen.mem hw) hv rfl)).2
    · exact absurd (List.mem_map_of_mem hv) (hothers (name, w) hw)

/-- All fields may be picked. -/
theorem picks_self {fields : List (String × Value)} (h : (Entries.names fields).Nodup) :
    Picks fields fields :=
  picks_of_perm h (List.Sublist.refl fields) (List.forall_mem_nil _) (by simp)

/-- A slot takes its value from a draft that does not know its name to one that does. -/
structure Slot.Tracks (slot : Slot δ) (v : Value) (draft : List String → δ) : Prop where
  filled : ∀ names, slot.name ∉ names → slot.filled (draft names) = false
  read : ∀ names, Takes (slot.read (draft names)) v (draft (names ++ [slot.name]))

theorem Slot.tracks_of {name : String} {get : δ → Option α} {set : δ → α → δ}
    {reader : Reader α} {v : Value} {a : α} {draft : List String → δ}
    (hget : ∀ names, get (draft names) = overlaid names name (some a) none)
    (hset : ∀ names, set (draft names) a = draft (names ++ [name])) (hreader : Takes reader v a) :
    (Slot.of name get set reader).Tracks v draft where
  filled names (hname : name ∉ names) := by
    show (get (draft names)).isSome = false
    rw [hget, overlaid_of_not_mem hname]
    rfl
  read names s rest h := by
    obtain ⟨_, hread⟩ := outcome_eq_some_iff.mp (hreader s rest h)
    simp only [Slot.of, hread]
    rw [← hset names]
    rfl

/-- The draft of a record, by the names of the members that have been read. -/
structure Tracks (slots : List (Slot δ)) (fields : List (String × Value))
    (draft : List String → δ) : Prop where
  known : List.Forall₂ (fun slot field => slot.name = field.1 ∧ slot.Tracks field.2 draft)
    slots fields
  unknown : ∀ names name, (∀ slot ∈ slots, slot.name ≠ name) →
    draft (names ++ [name]) = draft names

namespace Tracks

variable {slots : List (Slot δ)} {fields : List (String × Value)} {draft : List String → δ}

theorem exists_field (h : Tracks slots fields draft) {slot : Slot δ} (hslot : slot ∈ slots) :
    ∃ v, (slot.name, v) ∈ fields ∧ slot.Tracks v draft := by
  obtain ⟨i, hi, rfl⟩ := List.getElem_of_mem hslot
  obtain ⟨hlength, hall⟩ := List.forall₂_iff_get.mp h.known
  obtain ⟨hname, htracks⟩ := hall i hi (hlength ▸ hi)
  exact ⟨_, hname ▸ List.get_mem .., htracks⟩

/-- **One member**: whether it is a field or not, the draft is the one that knows its name. -/
theorem outcome_fieldOf (h : Tracks slots fields draft) {key : String} {v : Value}
    {names : List String} (hkey : ∀ w, (key, w) ∈ fields → key ∉ names ∧ v = w)
    (hcolon : IsBlankUpTo s (':' :: t)) (hv : Spells v t rest) :
    outcome (fieldOf slots key (draft names) s) = some (draft (names ++ [key]), rest) := by
  cases hslot : slots.find? fun slot => slot.name == key with
  | some slot =>
      have hname := List.find?_some hslot
      obtain rfl : slot.name = key := beq_iff_eq.mp hname
      obtain ⟨w, hw, hslotTracks⟩ := h.exists_field (List.mem_of_find?_eq_some hslot)
      obtain ⟨hnew, rfl⟩ := hkey w hw
      exact outcome_fieldOf_slot hslot (hslotTracks.filled names hnew) hcolon
        (hslotTracks.read names t rest hv)
  | none =>
      have hother : ∀ slot ∈ slots, slot.name ≠ key := by
        simpa using List.find?_eq_none.mp hslot
      rw [h.unknown names key hother]
      exact outcome_fieldOf_none hslot hcolon hv

/-- **All members**, from any draft on. -/
theorem outcome_members (h : Tracks slots fields draft) :
    ∀ {members : List (String × Value)} {first : Bool} {s rest : List Char} (names : List String),
      SpellsMembers first members s rest →
      (∀ f ∈ fields, (names ++ Entries.names members).count f.1 ≤ 1) →
      (∀ name v w, (name, v) ∈ fields → (name, w) ∈ members → w = v) →
      outcome (Json.members (fieldOf slots) first (draft names) s) =
        some (draft (names ++ Entries.names members), rest) := by
  intro members
  induction members with
  | nil =>
      intro first s rest names hspells _ _
      cases hspells with
      | close hclose =>
          rw [outcome_members_of_close hclose]
          simp [Entries.names]
  | cons member members ih =>
      intro first s rest names hspells honce hagrees
      cases hspells with
      | @cons _ key v _ _ _ _ _ _ _ _ hcomma hquote hkey hcolon hv hmembers =>
          have hnames : names ++ Entries.names ((String.ofList key, v) :: members) =
              (names ++ [String.ofList key]) ++ Entries.names members := by
            simp [Entries.names]
          -- a field that is named here is not named before, as it is named once at most
          have hfield : ∀ w, (String.ofList key, w) ∈ fields →
              String.ofList key ∉ names ∧ v = w := by
            intro w hw
            refine ⟨fun hmem => ?_, hagrees _ w v hw List.mem_cons_self⟩
            have hcount := honce _ hw
            have hpos := List.count_pos_iff.mpr hmem
            simp only [Entries.names, List.map_cons, List.count_append, List.count_cons_self]
              at hcount
            omega
          rw [outcome_members_of_cons hcomma hquote hkey (h.outcome_fieldOf hfield hcolon hv),
            hnames]
          refine ih _ hmembers (hnames ▸ honce) fun name v w hv hw => ?_
          exact hagrees name v w hv (List.mem_cons_of_mem _ hw)

/-- **A record**, from the empty draft on. -/
theorem takes_record (h : Tracks slots fields draft) (expected : String)
    {members : List (String × Value)} (hpicks : Picks fields members) :
    Takes (record expected slots (draft [])) (.object members)
      (.object, draft (Entries.names members)) := by
  intro s rest hspells
  cases hspells with
  | object hobject hmembers =>
      have hs := hobject.skipBlank_eq rfl
      obtain ⟨_, hread⟩ := outcome_eq_some_iff.mp
        (h.outcome_members [] hmembers hpicks.once hpicks.agrees)
      unfold record
      split
      · next heq => cases hs.symm.trans heq
      · next heq =>
          cases hs.symm.trans heq
          rw [if_pos rfl, hread]
          rfl

end Tracks

end Phrasebook.Json
