import Phrasebook.Proofs.Syntax.Payload

/-!
# Proofs — Syntax — Shape

The shape of a payload is what is left of it without its texts: names, kinds and parameters, at
every level (`Payload.shape`).  The rows of a section's interface depend on its shape alone: each of
them says one *mark* (`Row.type_eq`, `map_markAt_rowsOf`).  Marks that open and close groups nest in
one way only, so that the marks say what the shape is (`marksOf_append_inj`).
-/

namespace Phrasebook

/-- What is left of a translation without its texts. -/
inductive Shape where
  | text
  | function (params : List String)
  | group (entries : List (String × Shape))

mutual

/-- The shape of a translation. -/
def Translation.shape : Translation → Shape
  | .literal _ => .text
  | .template _ params => .function params
  | .node entries => .group (shapesOf entries)

/-- The shapes of named translations. -/
def shapesOf : List (String × Translation) → List (String × Shape)
  | [] => []
  | (name, t) :: rest => (name, t.shape) :: shapesOf rest

end

mutual

/-- Shapes can be compared. -/
def Shape.decEq : (s t : Shape) → Decidable (s = t)
  | .text, .text => isTrue rfl
  | .function params, .function params' => decidable_of_iff (params = params') (by simp)
  | .group entries, .group entries' =>
      match decEqShapes entries entries' with
      | isTrue h => isTrue (congrArg Shape.group h)
      | isFalse h => isFalse fun heq => h (Shape.group.inj heq)
  | .text, .function _ => isFalse nofun
  | .text, .group _ => isFalse nofun
  | .function _, .text => isFalse nofun
  | .function _, .group _ => isFalse nofun
  | .group _, .text => isFalse nofun
  | .group _, .function _ => isFalse nofun

/-- Lists of named shapes can be compared. -/
def decEqShapes : (es fs : List (String × Shape)) → Decidable (es = fs)
  | [], [] => isTrue rfl
  | [], _ :: _ => isFalse nofun
  | _ :: _, [] => isFalse nofun
  | (name, s) :: es, (name', t) :: fs =>
      match decEq name name', s.decEq t, decEqShapes es fs with
      | isTrue hname, isTrue hs, isTrue hes => isTrue (by rw [hname, hs, hes])
      | isFalse hname, _, _ => isFalse fun heq => by cases heq; exact hname rfl
      | _, isFalse hs, _ => isFalse fun heq => by cases heq; exact hs rfl
      | _, _, isFalse hes => isFalse fun heq => by cases heq; exact hes rfl

end

instance : DecidableEq Shape :=
  Shape.decEq

/-- The shape of a payload. -/
def Payload.shape (payload : Payload) : List (String × Shape) :=
  shapesOf payload

namespace Syntax

mutual

/-- The name and the shape of an entry. -/
def Entry.shape : Entry → String × Shape
  | .literal name _ => (name, .text)
  | .callable name _ params => (name, .function params)
  | .block name entries => (name, .group (entryShapes entries))

/-- The names and shapes of entries. -/
def entryShapes : List Entry → List (String × Shape)
  | [] => []
  | e :: es => e.shape :: entryShapes es

end

mutual

/-- An entry has the name and the shape of its translation. -/
theorem Entry.shape_eq : ∀ e : Entry, e.shape = (e.name, e.translation.shape)
  | .literal _ _ => rfl
  | .callable _ _ _ => rfl
  | .block name entries => by
      rw [Entry.shape, entryShapes_eq entries, Entry.translation, Translation.shape]
      rfl

/-- Entries have the shapes of their translations. -/
theorem entryShapes_eq : ∀ es : List Entry, entryShapes es = shapesOf (payloadOf es)
  | [] => rfl
  | e :: es => by
      rw [entryShapes, Entry.shape_eq e, entryShapes_eq es, payloadOf, shapesOf]

end

/-! ### Marks -/

/-- What the interface says behind a name. -/
inductive Kind where
  | text
  | function (params : List String)
  | opening
  deriving DecidableEq

/-- What the row of an interface says. -/
inductive Mark where
  | entry (name : String) (kind : Kind)
  | closing
  deriving DecidableEq

/-- The mark of a row. -/
def Row.mark : Row → Mark
  | .literal name _ => .entry name .text
  | .callable name _ params => .entry name (.function params)
  | .opening name => .entry name .opening
  | .closing => .closing

/-- The text behind a name. -/
def Kind.type : Kind → String
  | .text => "string;"
  | .function params => "(" ++ typedParams params ++ ") => string;"
  | .opening => "\x7b"

/-- The row of an interface, from its mark. -/
def Mark.type : Mark → String
  | .entry name kind => property name ++ ": " ++ kind.type
  | .closing => "\x7d;"

theorem Row.type_eq (row : Row) : row.type = row.mark.type := by
  cases row with
  | literal | callable | opening =>
      apply String.toList_inj.mp
      simp [Row.type, Row.mark, Mark.type, Kind.type]
  | closing => rfl

mutual

/-- The marks of a shape under a name, each with its level. -/
def marksOfShape (depth : Nat) (name : String) : Shape → List (Nat × Mark)
  | .text => [(depth, .entry name .text)]
  | .function params => [(depth, .entry name (.function params))]
  | .group entries =>
      (depth, .entry name .opening) :: (marksOf (depth + 1) entries ++ [(depth, .closing)])

/-- The marks of named shapes one after the other. -/
def marksOf (depth : Nat) : List (String × Shape) → List (Nat × Mark)
  | [] => []
  | (name, shape) :: rest => marksOfShape depth name shape ++ marksOf depth rest

end

/-- The level and the mark of a row. -/
def markAt (row : Nat × Row) : Nat × Mark :=
  (row.1, row.2.mark)

mutual

/-- The marks of an entry are those of its shape. -/
theorem map_markAt_rows (depth : Nat) :
    ∀ e : Entry, (e.rows depth).map markAt = marksOfShape depth e.shape.1 e.shape.2
  | .literal _ _ => rfl
  | .callable _ _ _ => rfl
  | .block name entries => by
      have ih := map_markAt_rowsOf (depth + 1) entries
      simp only [Entry.rows, Entry.shape, marksOfShape, List.map_cons, List.map_append, ih]
      rfl

/-- The marks of entries are those of their shapes. -/
theorem map_markAt_rowsOf (depth : Nat) :
    ∀ es : List Entry, (rowsOf depth es).map markAt = marksOf depth (entryShapes es)
  | [] => rfl
  | e :: es => by
      simp only [rowsOf, entryShapes, marksOf, List.map_append, map_markAt_rows depth e,
        map_markAt_rowsOf depth es]

end

/-- What comes behind the entries of a group: its closing, or nothing at all. -/
def EndsGroup : List (Nat × Mark) → Prop
  | [] => True
  | m :: _ => m.2 = .closing

/-- The marks of a shape start with its name. -/
theorem exists_cons_marksOfShape (depth : Nat) (name : String) (s : Shape) :
    ∃ kind tail, marksOfShape depth name s = (depth, .entry name kind) :: tail := by
  cases s with
  | text => exact ⟨_, _, rfl⟩
  | function params => exact ⟨_, _, rfl⟩
  | group entries => exact ⟨_, _, rfl⟩

/-- Where a group ends, no entry follows. -/
theorem not_endsGroup_marksOf {depth : Nat} {entry : String × Shape}
    {rest : List (String × Shape)} {r : List (Nat × Mark)} :
    ¬ EndsGroup (marksOf depth (entry :: rest) ++ r) := by
  obtain ⟨kind, tail, hmarks⟩ := exists_cons_marksOfShape depth entry.1 entry.2
  intro h
  rw [marksOf, hmarks] at h
  cases (show Mark.entry entry.1 kind = .closing from h)

mutual

/-- **A shape is known from its marks**, whatever follows them. -/
theorem marksOfShape_append_inj {depth : Nat} {name name' : String} :
    ∀ {s s' : Shape} {r r' : List (Nat × Mark)},
      marksOfShape depth name s ++ r = marksOfShape depth name' s' ++ r' →
        name = name' ∧ s = s' ∧ r = r'
  | .text, s', r, r', h => by
      cases s' with
      | text => simp_all [marksOfShape]
      | function | group => simp [marksOfShape] at h
  | .function params, s', r, r', h => by
      cases s' with
      | function => simp_all [marksOfShape]
      | text | group => simp [marksOfShape] at h
  | .group entries, s', r, r', h => by
      cases s' with
      | group entries' =>
          simp only [marksOfShape, List.cons_append, List.append_assoc, List.cons.injEq,
            Prod.mk.injEq, Mark.entry.injEq, true_and, and_true] at h
          -- the closing mark ends both groups at one place
          have hends : ∀ r, EndsGroup ((depth, .closing) :: r) := fun _ => rfl
          obtain ⟨rfl, hrest⟩ := marksOf_append_inj (s := entries) (hends r) (hends r') h.2
          exact ⟨h.1, rfl, (List.cons.inj hrest).2⟩
      | text | function => simp [marksOfShape] at h

/-- **Shapes are known from their marks**, if these end where their group does. -/
theorem marksOf_append_inj {depth : Nat} :
    ∀ {s s' : List (String × Shape)} {r r' : List (Nat × Mark)}, EndsGroup r → EndsGroup r' →
      marksOf depth s ++ r = marksOf depth s' ++ r' → s = s' ∧ r = r'
  | [], [], _, _, _, _, h => ⟨rfl, h⟩
  | [], _ :: _, _, _, hr, _, h => by
      subst h
      exact absurd hr not_endsGroup_marksOf
  | _ :: _, [], _, _, _, hr', h => by
      subst h
      exact absurd hr' not_endsGroup_marksOf
  | (name, shape) :: rest, (name', shape') :: rest', r, r', hr, hr', h => by
      rw [marksOf, marksOf, List.append_assoc, List.append_assoc] at h
      obtain ⟨rfl, rfl, htail⟩ := marksOfShape_append_inj (s := shape) h
      obtain ⟨rfl, hend⟩ := marksOf_append_inj (s := rest) hr hr' htail
      exact ⟨rfl, hend⟩

end

end Syntax

end Phrasebook
