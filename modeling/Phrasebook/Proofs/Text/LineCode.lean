import Phrasebook.Proofs.Text.Quoted

/-!
# Proofs — Text — Line code

Source that says what was written.  In a `LineCode`, what is written for an item starts with no
blank, and says which item it is and where its text ends.  So does a line that is indented
(`LineCode.line_append_inj`), and a text of lines says which items were written, each with its level
(`LineCode.flatMap_line_inj`).
-/

namespace Phrasebook

theorem toList_concat (texts : List String) :
    (concat texts).toList = texts.flatMap String.toList := by
  induction texts with
  | nil => rfl
  | cons t ts ih => rw [concat, String.toList_append, ih, List.flatMap_cons]

/-- The characters of a line without its end. -/
def Line.chars (line : Line) : List Char :=
  List.replicate (2 * line.depth) ' ' ++ line.content.toList

/-- Source is its lines, each with its end. -/
theorem Source.toList_text (source : Source) :
    source.text.toList = source.flatMap fun line => line.chars ++ ['\n'] := by
  rw [Source.text, toList_concat, List.flatMap_map]
  simp [Line.text, Line.chars]

namespace Text

/-- The name of a property does not start with a blank. -/
theorem exists_cons_property_append (name : String) (c : Char) (r : List Char) :
    ∃ d ds, (property name).toList ++ c :: r = d :: ds ∧ (d == ' ') = false := by
  have hblank : ∀ r', (property name).toList ++ c :: r ≠ ' ' :: r' :=
    fun r' => property_append_ne_cons (by decide) (by decide)
  cases hchars : (property name).toList ++ c :: r with
  | nil => simp at hchars
  | cons d ds =>
      refine ⟨d, ds, rfl, beq_false_of_ne fun hd => ?_⟩
      subst hd
      exact hblank ds hchars

/-- A way to write items so that they are known from their text, and where it ends. -/
structure LineCode (α : Type) where
  /-- What is written for an item, with the end of its line. -/
  chars : α → List Char
  /-- The items that are known from their text. -/
  IsSound : α → Prop
  exists_cons : ∀ a, ∃ c cs, chars a = c :: cs ∧ (c == ' ') = false
  append_inj : ∀ {a b : α} {r r' : List Char}, IsSound a → IsSound b →
    chars a ++ r = chars b ++ r' → a = b ∧ r = r'

namespace LineCode

variable {α : Type} (code : LineCode α)

/-- The line of an item on some level. -/
def line (item : Nat × α) : List Char :=
  List.replicate (2 * item.1) ' ' ++ code.chars item.2

/-- **A line is known from its text**: its level, its item, and where it ends. -/
theorem line_append_inj {m n : Nat × α} {r r' : List Char} (hm : code.IsSound m.2)
    (hn : code.IsSound n.2) (h : code.line m ++ r = code.line n ++ r') : m = n ∧ r = r' := by
  obtain ⟨c, cs, hchars, hc⟩ := code.exists_cons m.2
  obtain ⟨d, ds, hchars', hd⟩ := code.exists_cons n.2
  have hblanks : ∀ n, ∀ x ∈ List.replicate n ' ', (x == ' ') = true := fun n x hx => by
    rw [List.eq_of_mem_replicate hx]
    rfl
  simp only [line, hchars, hchars', List.append_assoc, List.cons_append] at h
  -- no item starts with a blank, so the indentation ends where the item starts
  obtain ⟨hindent, rfl, hrest⟩ := append_cons_inj (hblanks _) (hblanks _) hc hd h
  have hdepth : m.1 = n.1 := by
    have hlength := congrArg List.length hindent
    simp only [List.length_replicate] at hlength
    omega
  have hitem : code.chars m.2 ++ r = code.chars n.2 ++ r' := by
    rw [hchars, hchars', List.cons_append, List.cons_append, hrest]
  obtain ⟨hitem, hrest⟩ := code.append_inj hm hn hitem
  exact ⟨Prod.ext hdepth hitem, hrest⟩

/-- **Lines one after the other are known from their text.** -/
theorem flatMap_line_inj {ms ns : List (Nat × α)} (hms : ∀ m ∈ ms, code.IsSound m.2)
    (hns : ∀ n ∈ ns, code.IsSound n.2) (h : ms.flatMap code.line = ns.flatMap code.line) :
    ms = ns := by
  have hne : ∀ (m : Nat × α) (r : List Char), code.line m ++ r ≠ [] := fun m r heq => by
    obtain ⟨c, cs, hchars, -⟩ := code.exists_cons m.2
    simp [line, hchars] at heq
  induction ms generalizing ns with
  | nil =>
      cases ns with
      | nil => rfl
      | cons n ns => exact absurd h.symm (hne n _)
  | cons m ms ih =>
      cases ns with
      | nil => exact absurd h (hne m _)
      | cons n ns =>
          obtain ⟨rfl, htail⟩ :=
            code.line_append_inj (hms m List.mem_cons_self) (hns n List.mem_cons_self) h
          rw [ih (fun x hx => hms x (List.mem_cons_of_mem _ hx))
            (fun x hx => hns x (List.mem_cons_of_mem _ hx)) htail]

end LineCode

end Text

end Phrasebook
