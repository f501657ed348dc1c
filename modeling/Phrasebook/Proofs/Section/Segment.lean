import Phrasebook.Section.Identity

/-!
# Proofs — Section — Segment

Which segments an identity can be extended by: those with an ASCII letter or digit, as nothing else
is kept of a segment (`wordsOf_eq_nil_iff`).  So an identity can be extended by a path just if each
of its segments has one (`Identity.exists_extendAll_iff`).
-/

namespace Phrasebook.Section

/-- A segment has an ASCII letter or digit. -/
def HasAlphanum (segment : String) : Prop :=
  ∃ c ∈ segment.toList, c.isAlphanum = true

instance (segment : String) : Decidable (HasAlphanum segment) :=
  inferInstanceAs (Decidable (∃ c ∈ segment.toList, c.isAlphanum = true))

theorem kept_eq_nil_iff {c : Char} : kept c = [] ↔ c.isAlphanum = false := by
  unfold kept
  split
  · next h => simp [h]
  · next h => simp [h]

/-- Nothing is left of characters that are all dropped. -/
theorem piecesFrom_eq_nil_iff {cs current : List Char} {afterSmall : Bool} :
    piecesFrom current afterSmall cs = [] ↔
      current = [] ∧ ∀ c ∈ cs, c.isAlphanum = false := by
  induction cs generalizing current afterSmall with
  | nil => simp [piecesFrom]
  | cons c cs ih =>
      rw [piecesFrom]
      split
      · next hcut =>
          -- a piece is cut off only if it holds something
          have hcurrent : current ≠ [] := by simpa using (Bool.and_eq_true_iff.mp hcut).2
          exact ⟨fun h => absurd h (List.cons_ne_nil _ _), fun h => absurd h.1 hcurrent⟩
      · rw [ih, List.append_eq_nil_iff, kept_eq_nil_iff, List.forall_mem_cons, and_assoc]

theorem wordsOf_eq_nil_iff {segment : String} : wordsOf segment = [] ↔ ¬ HasAlphanum segment := by
  rw [← List.map_eq_nil_iff (f := Word.letters), map_letters_wordsOf, pieces,
    piecesFrom_eq_nil_iff]
  simp [HasAlphanum]

namespace Identity

variable {id extended : Identity} {segment : String} {segments : List String}

/-- **An identity can be extended** by a segment with a letter or digit, and by no other. -/
theorem exists_extend_iff :
    (∃ extended, id.extend segment = .ok extended) ↔ HasAlphanum segment := by
  have hnone : wordsOf segment = [] ↔ ¬ HasAlphanum segment := wordsOf_eq_nil_iff
  unfold extend
  cases hwords : wordsOf segment with
  | nil => simpa using hnone.mp hwords
  | cons w ws =>
      have hsome : HasAlphanum segment :=
        Decidable.not_not.mp fun h => by simp [hnone.mpr h] at hwords
      simpa using hsome

theorem extendAll_cons_eq_ok :
    id.extendAll (segment :: segments) = .ok extended ↔
      ∃ first, id.extend segment = .ok first ∧ first.extendAll segments = .ok extended := by
  rw [extendAll]
  cases id.extend segment <;> simp

theorem extendAll_singleton : id.extendAll [segment] = id.extend segment := by
  rw [extendAll]
  cases id.extend segment <;> rfl

/-- **An identity can be extended by a path** if each segment of it has a letter or digit. -/
theorem exists_extendAll_iff :
    (∃ extended, id.extendAll segments = .ok extended) ↔ ∀ s ∈ segments, HasAlphanum s := by
  induction segments generalizing id with
  | nil => exact ⟨fun _ => nofun, fun _ => ⟨id, rfl⟩⟩
  | cons s ss ih =>
      have hextends : (∃ first, id.extend s = .ok first) ↔ HasAlphanum s := exists_extend_iff
      rw [List.forall_mem_cons, ← hextends]
      constructor
      · rintro ⟨extended, h⟩
        obtain ⟨first, hfirst, hrest⟩ := extendAll_cons_eq_ok.mp h
        exact ⟨⟨first, hfirst⟩, ih.mp ⟨extended, hrest⟩⟩
      · rintro ⟨⟨first, hfirst⟩, hrest⟩
        obtain ⟨extended, hextended⟩ := ih.mpr hrest
        exact ⟨extended, extendAll_cons_eq_ok.mpr ⟨first, hfirst, hextended⟩⟩

end Identity

end Phrasebook.Section
