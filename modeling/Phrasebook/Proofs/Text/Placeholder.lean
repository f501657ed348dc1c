import Mathlib.Data.List.TakeWhile
import Phrasebook.Proofs.Text.Quoted
import Phrasebook.Text.Placeholder

/-!
# Proofs — Text — Placeholder

Where the placeholders of a text stand.  The scan goes on behind each placeholder that it has found,
and so passes over most places of the text without a look at them; `placesFrom` looks at every
place.  In a placeholder nothing else starts, since behind its first brace no two braces stand next
to each other before its end (`placesFrom_braced`).  So the two find the same
(`placeholdersFrom_eq`), and the placeholders are the names that stand somewhere in the text between
double braces, each as often as it does (`placeholders_eq_places`).
-/

namespace Phrasebook.Text

/-- A name between double braces. -/
def braced (name : String) : String :=
  "\x7b\x7b" ++ name ++ "\x7d\x7d"

/-- Behind so many characters of a text, an identifier stands between double braces. -/
def IsPlaceholderAt (text : String) (place : Nat) (name : String) : Prop :=
  isIdentifier name = true ∧
    ∃ before behind, before.length = place ∧ text = before ++ braced name ++ behind

/-! ### One place -/

theorem toList_braced_append (name : String) (behind : List Char) :
    (braced name).toList ++ behind =
      '\x7b' :: '\x7b' :: (name.toList ++ '\x7d' :: '\x7d' :: behind) := by
  simp [braced]

theorem length_braced (name : String) : (braced name).length = name.toList.length + 4 := by
  simp only [braced, String.length_append, String.length_toList]
  rw [show "\x7b\x7b".length = 2 by decide, show "\x7d\x7d".length = 2 by decide]
  omega

/-- An identifier is read up to the brace behind it. -/
theorem span_identifier {name : String} (h : isIdentifier name = true) (rest : List Char) :
    (name.toList ++ '\x7d' :: rest).takeWhile isIdentifierPart = name.toList ∧
      (name.toList ++ '\x7d' :: rest).dropWhile isIdentifierPart = '\x7d' :: rest := by
  have hparts := isIdentifierPart_of_mem h
  have hbrace : ¬ isIdentifierPart '\x7d' = true := by decide
  rw [List.takeWhile_append_of_pos hparts, List.dropWhile_append_of_pos hparts,
    List.takeWhile_cons_of_neg hbrace, List.dropWhile_cons_of_neg hbrace, List.append_nil]
  exact ⟨rfl, rfl⟩

/-- **A placeholder starts at the first character** just if an identifier stands there between
double braces. -/
theorem placeholderAt?_eq_some_iff {cs name : List Char} :
    placeholderAt? cs = some name ↔
      isIdentifier (String.ofList name) = true ∧
        ∃ behind, cs = (braced (String.ofList name)).toList ++ behind := by
  constructor
  · intro h
    unfold placeholderAt? at h
    split at h
    · next rest =>
        split at h
        · next c ds behind htake hdrop =>
            split at h
            · next hstart =>
                obtain rfl := Option.some.inj h
                have hparts : ∀ d ∈ c :: ds, isIdentifierPart d = true := fun d hd =>
                  List.mem_takeWhile_imp (htake ▸ hd)
                refine ⟨?_, behind, ?_⟩
                · rw [isIdentifier, String.toList_ofList]
                  exact Bool.and_eq_true_iff.mpr ⟨hstart, List.all_eq_true.mpr fun d hd =>
                    hparts d (List.mem_cons_of_mem _ hd)⟩
                · rw [toList_braced_append, String.toList_ofList, ← htake, ← hdrop,
                    List.takeWhile_append_dropWhile]
            · cases h
        · cases h
    · cases h
  · rintro ⟨hname, behind, rfl⟩
    obtain ⟨c, ds, hchars, hstart, -⟩ := exists_cons_of_isIdentifier hname
    obtain ⟨htake, hdrop⟩ := span_identifier hname ('\x7d' :: behind)
    rw [toList_braced_append, placeholderAt?, htake, hdrop, hchars]
    rw [String.toList_ofList] at hchars
    simp only [hstart, if_true, hchars]

theorem placeholderAt?_of_ne {c : Char} (h : c ≠ '\x7b') (cs : List Char) :
    placeholderAt? (c :: cs) = none := by
  unfold placeholderAt?
  split
  · next heq => exact absurd (List.cons.inj heq).1 h
  · rfl

/-! ### Every place -/

/-- The placeholders of a text with their places, of which the first has a number. -/
def placesFrom : Nat → List Char → List (Nat × String)
  | _, [] => []
  | place, c :: cs =>
      ((placeholderAt? (c :: cs)).map fun name => (place, String.ofList name)).toList ++
        placesFrom (place + 1) cs

theorem placesFrom_cons_of_none {c : Char} {cs : List Char} (h : placeholderAt? (c :: cs) = none)
    (place : Nat) : placesFrom place (c :: cs) = placesFrom (place + 1) cs := by
  rw [placesFrom, h]
  rfl

theorem placesFrom_cons_of_some {c : Char} {cs name : List Char}
    (h : placeholderAt? (c :: cs) = some name) (place : Nat) :
    placesFrom place (c :: cs) = (place, String.ofList name) :: placesFrom (place + 1) cs := by
  rw [placesFrom, h]
  rfl

/-- **A name is found at a place** just if it stands there. -/
theorem mem_placesFrom_iff {place first : Nat} {name : String} {cs : List Char} :
    (place, name) ∈ placesFrom first cs ↔
      isIdentifier name = true ∧ ∃ before behind, first + before.length = place ∧
        cs = before ++ ((braced name).toList ++ behind) := by
  induction cs generalizing first with
  | nil => simp [placesFrom, toList_braced_append]
  | cons c cs ih =>
      rw [placesFrom, List.mem_append, ih]
      have hfirst : (place, name) ∈ ((placeholderAt? (c :: cs)).map fun name =>
          (first, String.ofList name)).toList ↔
            first = place ∧ placeholderAt? (c :: cs) = some name.toList := by
        simp only [Option.mem_toList, Option.map_eq_some_iff, Prod.mk.injEq]
        constructor
        · rintro ⟨chars, hchars, rfl, rfl⟩
          exact ⟨rfl, by rw [String.toList_ofList, hchars]⟩
        · rintro ⟨rfl, hname⟩
          exact ⟨name.toList, hname, rfl, String.ofList_toList⟩
      rw [hfirst, placeholderAt?_eq_some_iff, String.ofList_toList]
      constructor
      · rintro (⟨rfl, hname, behind, hcs⟩ | ⟨hname, before, behind, rfl, rfl⟩)
        · exact ⟨hname, [], behind, rfl, hcs⟩
        · exact ⟨hname, c :: before, behind, by rw [List.length_cons]; omega, rfl⟩
      · rintro ⟨hname, before, behind, rfl, hcs⟩
        cases before with
        | nil => exact .inl ⟨rfl, hname, behind, hcs⟩
        | cons d before =>
            obtain ⟨rfl, rfl⟩ := List.cons.inj hcs
            exact .inr ⟨hname, before, behind, by rw [List.length_cons]; omega, rfl⟩

theorem placesFrom_append_of_ne {as : List Char} (h : ∀ c ∈ as, c ≠ '\x7b') (first : Nat)
    (bs : List Char) : placesFrom first (as ++ bs) = placesFrom (first + as.length) bs := by
  induction as generalizing first with
  | nil => rfl
  | cons c as ih =>
      obtain ⟨hc, has⟩ := List.forall_mem_cons.mp h
      rw [List.cons_append, placesFrom_cons_of_none (placeholderAt?_of_ne hc _), ih has,
        List.length_cons]
      congr 1
      omega

/-- **In a placeholder no other starts**: what is found from its second character on stands behind
it. -/
theorem placesFrom_behind {c : Char} {cs name : List Char}
    (h : placeholderAt? (c :: cs) = some name) (first : Nat) :
    placesFrom (first + 1) cs =
      placesFrom (first + (name.length + 4)) (cs.drop (name.length + 3)) := by
  obtain ⟨hname, behind, hcs⟩ := placeholderAt?_eq_some_iff.mp h
  rw [toList_braced_append, String.toList_ofList] at hcs
  obtain ⟨-, rfl⟩ := List.cons.inj hcs
  have hparts := isIdentifierPart_of_mem hname
  rw [String.toList_ofList] at hparts
  have hbrace : ∀ d ∈ name ++ ['\x7d', '\x7d'], d ≠ '\x7b' := by
    rintro d hd rfl
    rcases List.mem_append.mp hd with hd | hd
    · exact absurd (hparts _ hd) (by decide)
    · exact absurd hd (by decide)
  have hnone : placeholderAt? ('\x7b' :: (name ++ '\x7d' :: '\x7d' :: behind)) = none := by
    -- the character behind the brace starts the identifier, and so is no second brace
    obtain ⟨d, ds, hchars, -, -⟩ := exists_cons_of_isIdentifier hname
    rw [String.toList_ofList] at hchars
    have hd : d ≠ '\x7b' := hbrace d (by rw [hchars]; exact List.mem_cons_self)
    rw [hchars, List.cons_append]
    unfold placeholderAt?
    split
    · next heq => exact absurd (List.cons.inj (List.cons.inj heq).2).1 hd
    · rfl
  have happend : name ++ '\x7d' :: '\x7d' :: behind = (name ++ ['\x7d', '\x7d']) ++ behind := by
    simp
  have hdrop : ('\x7b' :: ((name ++ ['\x7d', '\x7d']) ++ behind)).drop (name.length + 3) =
      behind := by
    rw [← List.cons_append]
    exact List.drop_left' (by simp)
  rw [happend] at hnone ⊢
  rw [hdrop, placesFrom_cons_of_none hnone, placesFrom_append_of_ne hbrace, List.length_append]
  congr 1
  simp only [List.length_cons, List.length_nil]
  omega

theorem le_of_mem_placesFrom {first : Nat} {cs : List Char} {p : Nat × String}
    (h : p ∈ placesFrom first cs) : first ≤ p.1 := by
  obtain ⟨-, before, behind, hplace, -⟩ := mem_placesFrom_iff.mp h
  omega

/-- **Placeholders do not overlap**: each ends before the next one starts. -/
theorem pairwise_placesFrom (first : Nat) (cs : List Char) :
    (placesFrom first cs).Pairwise fun p q => p.1 + (braced p.2).length ≤ q.1 := by
  induction cs generalizing first with
  | nil => exact .nil
  | cons c cs ih =>
      cases hplace : placeholderAt? (c :: cs) with
      | none =>
          rw [placesFrom_cons_of_none hplace]
          exact ih (first + 1)
      | some name =>
          rw [placesFrom_cons_of_some hplace]
          refine List.pairwise_cons.mpr ⟨fun q hq => ?_, ih (first + 1)⟩
          rw [placesFrom_behind hplace] at hq
          rw [length_braced, String.toList_ofList]
          exact le_of_mem_placesFrom hq

/-! ### The scan -/

/-- **The scan finds what stands at any place**, though it passes over what it has read. -/
theorem placeholdersFrom_eq (skip first : Nat) (cs : List Char) :
    placeholdersFrom skip cs = (placesFrom first (cs.drop skip)).map Prod.snd := by
  induction cs generalizing skip first with
  | nil => cases skip <;> rfl
  | cons c cs ih =>
      cases skip with
      | succ skip => exact ih skip first
      | zero =>
          rw [List.drop_zero, placeholdersFrom]
          cases hplace : placeholderAt? (c :: cs) with
          | none =>
              rw [placesFrom_cons_of_none hplace]
              exact ih 0 (first + 1)
          | some name =>
              rw [placesFrom_cons_of_some hplace, placesFrom_behind hplace, List.map_cons,
                ← ih (name.length + 3)]

/-- **Nothing is missed and nothing is made up.**  The placeholders of a text are the names of a
list of places, in order, in which every place at which some name stands between double braces
appears with the name, and no other; and no two of these overlap. -/
theorem placeholders_eq_places (text : String) :
    ∃ places : List (Nat × String), placeholders text = places.map Prod.snd ∧
      places.Pairwise (fun p q => p.1 + (braced p.2).length ≤ q.1) ∧
      ∀ place name, (place, name) ∈ places ↔ IsPlaceholderAt text place name := by
  refine ⟨placesFrom 0 text.toList, placeholdersFrom_eq 0 0 text.toList,
    pairwise_placesFrom 0 text.toList, fun place name => ?_⟩
  rw [mem_placesFrom_iff, IsPlaceholderAt]
  refine and_congr_right fun _ => ?_
  constructor
  · rintro ⟨before, behind, hplace, htext⟩
    refine ⟨String.ofList before, String.ofList behind, ?_, ?_⟩
    · rw [String.length_ofList]
      omega
    · rw [← String.toList_inj, htext]
      simp
  · rintro ⟨before, behind, hplace, rfl⟩
    refine ⟨before.toList, behind.toList, ?_, ?_⟩
    · rw [String.length_toList]
      omega
    · simp

/-- Braces that do not belong to a placeholder stand around and between the two. -/
example : placeholders
    "\x7b\x7b\x7ba\x7d\x7d\x7d \x7b\x7ba\x7b\x7bb\x7d\x7d \x7b\x7b a \x7d\x7d" = ["a", "b"] := by
  decide

end Phrasebook.Text
