import Phrasebook.Proofs.Syntax.Shape
import Phrasebook.Proofs.Text.LineCode

/-!
# Proofs — Syntax — Interface

The text of an interface says which shape its section has.  What is written for a mark says which
mark it is, and where it ends (`Mark.code`): names are known by `property_append_inj`, and
parameters because they are identifiers.  Hence the text says which marks there are, and these say
what the shape is.  `Tree.interface_eq_iff_shape_eq` is the outcome for payloads: what makes a
section's tree also makes its parameters identifiers (`Tree.shape_of_ofPayload?`).
-/

namespace Phrasebook.Syntax
open Text

/-! ### The text of a mark -/

/-- Parameters have names that can stand bare. -/
def Mark.IsSound : Mark → Prop
  | .entry _ (.function params) => ∀ p ∈ params, isIdentifier p = true
  | _ => True

theorem toList_typedParams_cons (p : String) (ps : List String) :
    (typedParams (p :: ps)).toList =
      p.toList ++ ':' :: ' ' :: 's' :: 't' :: 'r' :: 'i' :: 'n' :: 'g' ::
        match ps with
        | [] => []
        | ps => ',' :: ' ' :: (typedParams ps).toList := by
  cases ps with
  | nil => simp [typedParams]
  | cons q qs => simp [typedParams, String.intercalate_cons_cons]

/-- Bare parameters are known from their text, up to the parenthesis that closes them. -/
theorem typedParams_append_inj {ps qs : List String} {r r' : List Char}
    (hp : ∀ p ∈ ps, isIdentifier p = true) (hq : ∀ q ∈ qs, isIdentifier q = true)
    (h : (typedParams ps).toList ++ ')' :: r = (typedParams qs).toList ++ ')' :: r') :
    ps = qs ∧ r = r' := by
  have hparen : isIdentifierPart ')' = false := by decide
  have hcolon : isIdentifierPart ':' = false := by decide
  induction ps generalizing qs with
  | nil =>
      cases qs with
      | nil => exact ⟨rfl, (List.cons.inj h).2⟩
      | cons q qs =>
          rw [toList_typedParams_cons, List.append_assoc] at h
          exact absurd h.symm
            (append_ne_cons_of_isIdentifier (hq q List.mem_cons_self) hparen)
  | cons p ps ih =>
      cases qs with
      | nil =>
          rw [toList_typedParams_cons, List.append_assoc] at h
          exact absurd h (append_ne_cons_of_isIdentifier (hp p List.mem_cons_self) hparen)
      | cons q qs =>
          simp only [toList_typedParams_cons, List.append_assoc, List.cons_append] at h
          obtain ⟨hpq, -, htail⟩ := append_cons_inj
            (isIdentifierPart_of_mem (hp p List.mem_cons_self))
            (isIdentifierPart_of_mem (hq q List.mem_cons_self)) hcolon hcolon h
          obtain rfl := String.toList_inj.mp hpq
          -- a comma or the parenthesis comes next, which tells whether there are more parameters
          cases ps <;> cases qs <;>
            simp only [List.cons_append, List.nil_append, List.cons.injEq, true_and] at htail
          · exact ⟨rfl, htail⟩
          · exact absurd htail.1 (by decide)
          · exact absurd htail.1 (by decide)
          · obtain ⟨htail, hrest⟩ := ih (fun x hx => hp x (List.mem_cons_of_mem _ hx))
              (fun x hx => hq x (List.mem_cons_of_mem _ hx)) htail
            exact ⟨by rw [htail], hrest⟩

/-- What the line of a mark says behind a name. -/
def Kind.chars (kind : Kind) : List Char :=
  kind.type.toList ++ ['\n']

theorem Kind.chars_text : Kind.text.chars = "string;\n".toList := by
  decide

theorem Kind.chars_function (params : List String) :
    (Kind.function params).chars =
      '(' :: ((typedParams params).toList ++ ')' :: " => string;\n".toList) := by
  simp [Kind.chars, Kind.type]

theorem Kind.chars_opening : Kind.opening.chars = "\x7b\n".toList := by
  decide

/-- What a mark says behind a name is known from its text. -/
theorem Kind.chars_append_inj {name name' : String} {k k' : Kind} {r r' : List Char}
    (hk : (Mark.entry name k).IsSound) (hk' : (Mark.entry name' k').IsSound)
    (h : k.chars ++ r = k'.chars ++ r') : k = k' ∧ r = r' := by
  cases k with
  | text =>
      cases k' with
      | text => exact ⟨rfl, List.append_cancel_left h⟩
      | function params => simp [Kind.chars_text, Kind.chars_function] at h
      | opening => simp [Kind.chars_text, Kind.chars_opening] at h
  | function params =>
      cases k' with
      | text => simp [Kind.chars_text, Kind.chars_function] at h
      | function params' =>
          rw [Kind.chars_function, Kind.chars_function, List.cons_append, List.cons_append,
            List.append_assoc, List.append_assoc] at h
          obtain ⟨rfl, hrest⟩ := typedParams_append_inj hk hk' (List.cons.inj h).2
          exact ⟨rfl, List.append_cancel_left hrest⟩
      | opening => simp [Kind.chars_function, Kind.chars_opening] at h
  | opening =>
      cases k' with
      | text => simp [Kind.chars_text, Kind.chars_opening] at h
      | function params => simp [Kind.chars_function, Kind.chars_opening] at h
      | opening => exact ⟨rfl, List.append_cancel_left h⟩

/-! ### The text of an interface -/

/-- The characters of a mark's row, with its end. -/
def Mark.chars : Mark → List Char
  | .entry name kind => (property name).toList ++ ':' :: ' ' :: kind.chars
  | .closing => ['\x7d', ';', '\n']

/-- A mark is known from its text. -/
theorem Mark.chars_append_inj {m m' : Mark} {r r' : List Char} (hm : m.IsSound)
    (hm' : m'.IsSound) (h : m.chars ++ r = m'.chars ++ r') : m = m' ∧ r = r' := by
  have hcolon : isIdentifierPart ':' = false := by decide
  have hbrace : isIdentifierPart '\x7d' = false := by decide
  cases m with
  | entry name kind =>
      cases m' with
      | entry name' kind' =>
          simp only [chars, List.append_assoc, List.cons_append] at h
          obtain ⟨rfl, -, htail⟩ := property_append_inj hcolon hcolon h
          obtain ⟨rfl, hrest⟩ := Kind.chars_append_inj hm hm' (List.cons.inj htail).2
          exact ⟨rfl, hrest⟩
      | closing =>
          rw [chars, List.append_assoc] at h
          exact absurd h (property_append_ne_cons (by decide) hbrace)
  | closing =>
      cases m' with
      | entry name' kind' =>
          rw [chars, chars, List.append_assoc] at h
          exact absurd h.symm (property_append_ne_cons (by decide) hbrace)
      | closing => exact ⟨rfl, List.append_cancel_left h⟩

/-- The rows of interfaces are known from their text. -/
def Mark.code : LineCode Mark where
  chars := Mark.chars
  IsSound := Mark.IsSound
  exists_cons
    | .entry name kind => exists_cons_property_append name ':' (' ' :: kind.chars)
    | .closing => ⟨_, _, rfl, by decide⟩
  append_inj := Mark.chars_append_inj

/-- The marks of a section. -/
def Tree.marks (tree : Tree) : List (Nat × Mark) :=
  tree.rows.map markAt

/-- The interface of a section is written from its marks. -/
theorem Tree.toList_interface (tree : Tree) :
    tree.interface.toList = tree.marks.flatMap Mark.code.line := by
  have hline : ∀ row : Nat × Row,
      Line.chars ⟨row.1, row.2.type⟩ ++ ['\n'] = Mark.code.line (markAt row) := fun row => by
    cases hrow : row.2.mark <;>
      simp [Line.chars, Row.type_eq, LineCode.line, Mark.code, markAt, hrow, Mark.type, Mark.chars,
        Kind.chars]
  rw [Tree.interface, Source.toList_text, Tree.interfaceSource_eq, sourceOf, Tree.marks]
  simp only [List.flatMap_map, hline]

theorem Tree.marks_eq (tree : Tree) : tree.marks = marksOf 1 (entryShapes tree) :=
  map_markAt_rowsOf 1 tree

/-- The parameters of all callables have names that can stand bare. -/
def Tree.IsSound (tree : Tree) : Prop :=
  ∀ m ∈ tree.marks, m.2.IsSound

/-- **Interfaces are equal where shapes are**, and nowhere else. -/
theorem Tree.interface_eq_iff {tree tree' : Tree} (h : tree.IsSound) (h' : tree'.IsSound) :
    tree.interface = tree'.interface ↔ entryShapes tree = entryShapes tree' := by
  rw [← String.toList_inj, toList_interface, toList_interface]
  constructor
  · intro heq
    have hmarks := Mark.code.flatMap_line_inj h h' heq
    rw [marks_eq, marks_eq, ← List.append_nil (marksOf 1 (entryShapes tree)),
      ← List.append_nil (marksOf 1 (entryShapes tree'))] at hmarks
    have hends : EndsGroup [] := trivial
    exact (marksOf_append_inj hends hends hmarks).1
  · intro hshapes
    rw [marks_eq, marks_eq, hshapes]

/-! ### Trees of payloads -/

/-- The parameters of a template without a problem are identifiers. -/
theorem isIdentifier_of_templateProblem? {text : String} {params : List String}
    (h : templateProblem? text params = none) : ∀ p ∈ params, isIdentifier p = true :=
  fun p hp => (Bool.and_eq_true_iff.mp ((templateProblem?_eq_none_iff.mp h).1 p hp)).1

theorem Row.IsSound.mark {row : Row} (h : row.IsSound) : row.mark.IsSound := by
  cases row with
  | callable => exact isIdentifier_of_templateProblem? h
  | _ => trivial

/-- **The syntax of a payload** has its shape, and parameters that can stand bare. -/
theorem Tree.shape_of_ofPayload? {payload : Payload} {tree : Tree}
    (h : Tree.ofPayload? payload = .ok tree) :
    entryShapes tree = payload.shape ∧ tree.IsSound := by
  refine ⟨by rw [entryShapes_eq, payload_of_ofPayload? h, Payload.shape], fun m hm => ?_⟩
  obtain ⟨row, hrow, rfl⟩ := List.mem_map.mp hm
  exact (isSound_of_ofPayload? h row hrow).mark

/-- **The text of an interface decides whether shapes are equal.** -/
theorem Tree.interface_eq_iff_shape_eq {p q : Payload} {tree tree' : Tree}
    (h : Tree.ofPayload? p = .ok tree) (h' : Tree.ofPayload? q = .ok tree') :
    tree.interface = tree'.interface ↔ p.shape = q.shape := by
  obtain ⟨hshape, hsound⟩ := shape_of_ofPayload? h
  obtain ⟨hshape', hsound'⟩ := shape_of_ofPayload? h'
  rw [interface_eq_iff hsound hsound', hshape, hshape']

end Phrasebook.Syntax
