import Mathlib.Data.Finset.Card
import Phrasebook.Proofs.Payload.RoundTrip

/-!
# Proofs — Payload — History

What entries are after a history of insertions.  They record it: each name that has been inserted
stands once, in the order of the first insertions, and under it stands what was inserted last
(`Entries.IsRecord`).  One more insertion is recorded as well (`Entries.IsRecord.insert`), and so is
every history, if there is nothing at first (`Entries.isRecord_ofList`).  A payload that is built by
insertions, and its nodes in the same way, hence has distinct names at every level
(`Payload.IsBuilt.isProper`).
-/

namespace Phrasebook

variable {α : Type}

namespace Entries

variable {history list entries : Entries α} {name other : String} {a b : α}

/-- In a history of insertions, the value is the last that was inserted under the name. -/
def InsertedLast (history : List (String × α)) (name : String) (a : α) : Prop :=
  ∃ before after, history = before ++ (name, a) :: after ∧ name ∉ names after

/-- The entries are what a history of insertions leaves. -/
structure IsRecord (history : List (String × α)) (entries : Entries α) : Prop where
  nodup_names : entries.names.Nodup
  names_eq : entries.names = (names history).eraseDups
  get?_eq_some_iff : ∀ name a, entries.get? name = some a ↔ InsertedLast history name a

/-! ### One insertion -/

/-- A name that is inserted once more keeps its first place. -/
theorem eraseDups_concat (names : List String) (name : String) :
    (names ++ [name]).eraseDups =
      if name ∈ names.eraseDups then names.eraseDups else names.eraseDups ++ [name] := by
  rw [List.eraseDups_append, List.removeAll]
  split
  · next h => simp [List.mem_eraseDups.mp h]
  · next h => simp [mt List.mem_eraseDups.mpr h, List.eraseDups_cons]

/-- The last insertion of all is the last under its name, and changes nothing for others. -/
theorem insertedLast_concat :
    InsertedLast (history ++ [(name, a)]) other b ↔
      if name = other then a = b else InsertedLast history other b := by
  constructor
  · rintro ⟨before, after, heq, hafter⟩
    rcases after.eq_nil_or_concat' with rfl | ⟨after, e, rfl⟩
    · obtain ⟨-, hlast⟩ := List.append_inj' heq rfl
      obtain ⟨rfl, rfl⟩ := Prod.mk.inj (List.cons.inj hlast).1
      rw [if_pos rfl]
    · rw [← List.cons_append, ← List.append_assoc] at heq
      obtain ⟨rfl, hlast⟩ := List.append_inj' heq rfl
      obtain rfl := (List.cons.inj hlast).1
      rw [names_append, List.mem_append, not_or] at hafter
      rw [if_neg fun hname => hafter.2 (by simp [names, hname])]
      exact ⟨before, after, rfl, hafter.1⟩
  · split
    · next hname =>
        rintro rfl
        exact ⟨history, [], by rw [hname], List.not_mem_nil⟩
    · next hname =>
        rintro ⟨before, after, rfl, hafter⟩
        refine ⟨before, after ++ [(name, a)], by simp, ?_⟩
        rw [names_append, List.mem_append, not_or]
        exact ⟨hafter, by simpa [names, eq_comm] using hname⟩

/-- **One more insertion** is recorded. -/
theorem IsRecord.insert (h : entries.IsRecord history) (name : String) (a : α) :
    (entries.insert name a).IsRecord (history ++ [(name, a)]) where
  nodup_names := nodup_names_insert h.nodup_names
  names_eq := by
    have hnames : names [(name, a)] = [name] := rfl
    rw [names_insert, h.names_eq, names_append, hnames, eraseDups_concat]
  get?_eq_some_iff other b := by
    rw [get?_insert, insertedLast_concat]
    split
    · rw [Option.some.injEq]
    · exact h.get?_eq_some_iff other b

/-! ### Histories -/

theorem isRecord_nil : IsRecord [] ([] : Entries α) where
  nodup_names := List.nodup_nil
  names_eq := rfl
  get?_eq_some_iff name a := by simp [get?, InsertedLast]

theorem IsRecord.insertAll (h : entries.IsRecord history) (list : List (String × α)) :
    (entries.insertAll list).IsRecord (history ++ list) := by
  induction list generalizing entries history with
  | nil => rwa [List.append_nil]
  | cons e list ih =>
      rw [List.append_cons]
      exact ih (h.insert e.1 e.2)

/-- **Every history is recorded** by what it leaves. -/
theorem isRecord_ofList (history : List (String × α)) : (ofList history).IsRecord history :=
  isRecord_nil.insertAll history

/-- Nothing is found under a name that was never inserted. -/
theorem IsRecord.get?_eq_none_iff (h : entries.IsRecord history) :
    entries.get? name = none ↔ name ∉ names history := by
  rw [Entries.get?_eq_none_iff, h.names_eq, List.mem_eraseDups]

/-- There are as many entries as names that were inserted. -/
theorem IsRecord.length_eq (h : entries.IsRecord history) :
    entries.length = (names history).toFinset.card := by
  have hnames : entries.names.toFinset = (names history).toFinset := by
    ext name
    rw [List.mem_toFinset, List.mem_toFinset, h.names_eq, List.mem_eraseDups]
  rw [← hnames, List.toFinset_card_of_nodup h.nodup_names, names, List.length_map]

end Entries

/-! ### Payloads -/

/-- The payload is built by insertions, one by one, and so is every node that is inserted. -/
inductive Payload.IsBuilt : Payload → Prop where
  | empty : IsBuilt []
  | insert {payload : Payload} {name : String} {t : Translation} (h : IsBuilt payload)
      (hnode : ∀ node, t = .node node → IsBuilt node) : IsBuilt (Entries.insert name t payload)

/-- **A payload that is built by insertions** has distinct names at every level. -/
theorem Payload.IsBuilt.isProper {payload : Payload} (h : IsBuilt payload) : payload.IsProper := by
  induction h with
  | empty => exact ⟨List.nodup_nil, everyNode_nil⟩
  | insert _ _ ih ihnode =>
      refine ⟨Entries.nodup_names_insert ih.names, everyNode_iff.mpr fun e he node heq => ?_⟩
      rcases Entries.mem_of_mem_insert he with rfl | he
      · exact ⟨(ihnode node heq).names, (ihnode node heq).nodes⟩
      · exact everyNode_iff.mp ih.nodes e he node heq

end Phrasebook
