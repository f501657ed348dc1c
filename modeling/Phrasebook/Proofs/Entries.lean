import Mathlib.Data.List.Nodup
import Phrasebook.Payload.Basic

/-!
# Proofs — Entries

Inserting keeps the names of entries distinct (`Entries.nodup_names_ofList`), and what has distinct
names is not changed by it (`Entries.ofList_of_nodup`).  Entries can have entries inside of them:
what stands in them, and under which names (`EntryAt`).
-/

namespace Phrasebook

variable {α : Type} {inside? : α → Option (List (String × α))}

/-! ### Distinct names -/

namespace Entries

variable {entries list : Entries α} {name : String} {a : α}

theorem insert_of_notMem (h : name ∉ entries.names) :
    entries.insert name a = entries ++ [(name, a)] := by
  induction entries with
  | nil => rfl
  | cons e rest ih =>
      have hne : e.1 ≠ name ∧ name ∉ names rest := by
        simpa [names, eq_comm] using h
      rw [insert, if_neg hne.1, ih hne.2, List.cons_append]

/-- What is found after an insertion: the new value under its name, and all else as before. -/
theorem get?_insert (entries : Entries α) (name other : String) (a : α) :
    (entries.insert name a).get? other = if name = other then some a else entries.get? other := by
  induction entries with
  | nil => rfl
  | cons e rest ih =>
      rw [insert]
      split
      · next heq =>
          subst heq
          rw [get?, get?]
          split <;> rfl
      · next hne =>
          rw [get?, get?, ih]
          split
          · next hsame =>
              rw [if_neg fun heq => hne (hsame.trans heq.symm)]
          · rfl

theorem get?_eq_none_iff : entries.get? name = none ↔ name ∉ entries.names := by
  induction entries with
  | nil => simp [get?, names]
  | cons e rest ih =>
      rw [get?]
      split
      · next h => simp [names, h]
      · next h => simp [ih, names, Ne.symm h]

theorem names_append (first second : Entries α) :
    names (first ++ second) = first.names ++ second.names :=
  List.map_append

theorem names_insert_of_mem (h : name ∈ entries.names) :
    (entries.insert name a).names = entries.names := by
  induction entries with
  | nil => cases h
  | cons e rest ih =>
      rw [insert]
      split
      · rfl
      next hne =>
        have hrest : name ∈ names rest := by
          simpa [names, Ne.symm hne] using h
        rw [names, List.map_cons, ← names, ih hrest]
        rfl

/-- A new name is put at the end, and one that is there already stays where it is. -/
theorem names_insert (entries : Entries α) (name : String) (a : α) :
    (entries.insert name a).names =
      if name ∈ entries.names then entries.names else entries.names ++ [name] := by
  split
  · next h => exact names_insert_of_mem h
  · next h => rw [insert_of_notMem h, names_append]; rfl

theorem nodup_names_insert (h : entries.names.Nodup) :
    (entries.insert name a).names.Nodup := by
  rw [names_insert]
  split
  · exact h
  · next hname => exact List.nodup_append'.mpr ⟨h, List.nodup_singleton name, by simpa using hname⟩

/-- An insertion brings nothing else. -/
theorem mem_of_mem_insert {e : String × α} (h : e ∈ entries.insert name a) :
    e = (name, a) ∨ e ∈ entries := by
  induction entries with
  | nil => exact .inl (List.mem_singleton.mp h)
  | cons e' rest ih =>
      rw [insert] at h
      split at h
      next heq =>
        rw [heq] at h
        exact (List.mem_cons.mp h).imp_right (List.mem_cons_of_mem _)
      · rcases List.mem_cons.mp h with rfl | h
        · exact .inr List.mem_cons_self
        · exact (ih h).imp_right (List.mem_cons_of_mem _)

/-- **What is inserted under new names** is put at the end. -/
theorem insertAll_of_nodup (h : (names (entries ++ list)).Nodup) :
    entries.insertAll list = entries ++ list := by
  induction list generalizing entries with
  | nil => exact (List.append_nil entries).symm
  | cons e list ih =>
      have happend : entries ++ e :: list = entries ++ [e] ++ list := by simp
      have hname : e.1 ∉ entries.names := by
        rw [names_append, List.nodup_append'] at h
        exact fun hmem => h.2.2 hmem List.mem_cons_self
      rw [insertAll, List.foldl_cons, ← insertAll, insert_of_notMem hname, happend]
      exact ih (happend ▸ h)

theorem ofList_of_nodup (h : (names list).Nodup) : ofList list = list :=
  insertAll_of_nodup h

/-- What all insertions keep, if there is nothing at first. -/
theorem ofList_induction {P : Entries α → Prop} (hnil : P [])
    (hinsert : ∀ entries name a, P entries → (name, a) ∈ list → P (entries.insert name a)) :
    P (ofList list) := by
  have hall : ∀ entries, P entries → P (entries.insertAll list) := by
    induction list with
    | nil => exact fun _ h => h
    | cons e list ih =>
        intro entries h
        have hfirst := hinsert entries e.1 e.2 h List.mem_cons_self
        exact ih (fun found name a h hmem => hinsert found name a h (List.mem_cons_of_mem _ hmem))
          _ hfirst
  exact hall [] hnil

theorem nodup_names_ofList : (ofList list).names.Nodup :=
  ofList_induction (P := fun entries => entries.names.Nodup) List.nodup_nil
    fun _ _ _ h _ => nodup_names_insert h

theorem mem_of_mem_ofList {e : String × α} (h : e ∈ ofList list) : e ∈ list := by
  refine ofList_induction (P := fun entries => ∀ e ∈ entries, e ∈ list) (by simp) ?_ e h
  intro entries name a hentries hmem e he
  rcases mem_of_mem_insert he with rfl | he
  · exact hmem
  · exact hentries e he

end Entries

/-! ### Entries inside of entries -/

/-- What stands in entries, under the names that lead to it; `inside?` gives what has entries inside
of it, and which. -/
inductive EntryAt (inside? : α → Option (List (String × α))) :
    List (String × α) → EntryPath → α → Prop where
  | here {entries : List (String × α)} {name : String} {a : α} (h : (name, a) ∈ entries) :
      EntryAt inside? entries [name] a
  | inside {entries inner : List (String × α)} {name : String} {path : EntryPath} {a b : α}
      (h : (name, a) ∈ entries) (hinner : inside? a = some inner)
      (hb : EntryAt inside? inner path b) : EntryAt inside? entries (name :: path) b

namespace EntryAt

variable {entries : List (String × α)} {name : String} {path : EntryPath} {a b : α}

theorem not_nil : ¬ EntryAt inside? [] path b := by
  intro h
  cases h with
  | here h => cases h
  | inside h _ _ => cases h

/-- What stands in entries is the first of them, or inside of it, or stands in the others. -/
theorem cons_iff :
    EntryAt inside? ((name, a) :: entries) path b ↔
      (path = [name] ∧ b = a) ∨
        (∃ inner rest, inside? a = some inner ∧ path = name :: rest ∧
          EntryAt inside? inner rest b) ∨
          EntryAt inside? entries path b := by
  constructor
  · intro h
    cases h with
    | here h =>
        rcases List.mem_cons.mp h with heq | h
        · cases heq
          exact .inl ⟨rfl, rfl⟩
        · exact .inr (.inr (.here h))
    | inside h hinner hb =>
        rcases List.mem_cons.mp h with heq | h
        · cases heq
          exact .inr (.inl ⟨_, _, hinner, rfl, hb⟩)
        · exact .inr (.inr (.inside h hinner hb))
  · rintro (⟨rfl, rfl⟩ | ⟨inner, rest, hinner, rfl, hb⟩ | h)
    · exact .here List.mem_cons_self
    · exact .inside List.mem_cons_self hinner hb
    · cases h with
      | here h => exact .here (List.mem_cons_of_mem _ h)
      | inside h hinner hb => exact .inside (List.mem_cons_of_mem _ h) hinner hb

/-- The same for what stands below some path. -/
theorem exists_cons_iff {base full : EntryPath} :
    (∃ path, full = base ++ path ∧ EntryAt inside? ((name, a) :: entries) path b) ↔
      ((full = base ++ [name] ∧ b = a) ∨
        ∃ inner rest, inside? a = some inner ∧ full = base ++ [name] ++ rest ∧
          EntryAt inside? inner rest b) ∨
        ∃ path, full = base ++ path ∧ EntryAt inside? entries path b := by
  simp only [cons_iff]
  constructor
  · rintro ⟨_, hfull, ⟨rfl, hb⟩ | ⟨inner, rest, hinner, rfl, hb⟩ | hb⟩
    · exact .inl (.inl ⟨hfull, hb⟩)
    · exact .inl (.inr ⟨inner, rest, hinner, by rw [hfull, List.append_assoc]; rfl, hb⟩)
    · exact .inr ⟨_, hfull, hb⟩
  · rintro ((⟨hfull, hb⟩ | ⟨inner, rest, hinner, hfull, hb⟩) | ⟨path, hfull, hb⟩)
    · exact ⟨[name], hfull, .inl ⟨rfl, hb⟩⟩
    · exact ⟨name :: rest, by rw [hfull, List.append_assoc]; rfl,
        .inr (.inl ⟨inner, rest, hinner, rfl, hb⟩)⟩
    · exact ⟨path, hfull, .inr (.inr hb)⟩

end EntryAt

end Phrasebook
