import Phrasebook.Proofs.Syntax.Interface

/-!
# Proofs — Syntax — Value

The text of a value says which payload its section has.  What is written for a row says which row it
is, and where it ends (`Row.code`), as a literal says which text it denotes; so the text says which
rows there are.  These say what the shape is, and which texts fill it, and a payload is its shape
and its texts (`eq_of_shapesOf_eq`).  `Tree.value_eq_iff` is the outcome: two payloads have one
value only if they are one.
-/

namespace Phrasebook

/-! ### Texts -/

mutual

/-- The texts of a translation, in document order. -/
def Translation.texts : Translation → List String
  | .literal text => [text]
  | .template text _ => [text]
  | .node entries => textsOf entries

/-- The texts of named translations, in document order. -/
def textsOf : List (String × Translation) → List String
  | [] => []
  | (_, t) :: rest => t.texts ++ textsOf rest

end

mutual

/-- A translation is its shape and its texts, whatever texts follow. -/
theorem Translation.eq_of_shape_eq :
    ∀ {t t' : Translation} {r r' : List String}, t.shape = t'.shape →
      t.texts ++ r = t'.texts ++ r' → t = t' ∧ r = r'
  | .literal text, t', r, r', hshape, htexts => by
      cases t' with
      | literal text' =>
          obtain ⟨rfl, hrest⟩ := List.cons.inj htexts
          exact ⟨rfl, hrest⟩
      | template | node => simp [Translation.shape] at hshape
  | .template text params, t', r, r', hshape, htexts => by
      cases t' with
      | template text' params' =>
          obtain rfl := Shape.function.inj hshape
          obtain ⟨rfl, hrest⟩ := List.cons.inj htexts
          exact ⟨rfl, hrest⟩
      | literal | node => simp [Translation.shape] at hshape
  | .node entries, t', r, r', hshape, htexts => by
      cases t' with
      | node entries' =>
          obtain ⟨rfl, hrest⟩ := eq_of_shapesOf_eq (Shape.group.inj hshape) htexts
          exact ⟨rfl, hrest⟩
      | literal | template => simp [Translation.shape] at hshape

/-- **Named translations are their shapes and their texts**, whatever texts follow. -/
theorem eq_of_shapesOf_eq :
    ∀ {entries entries' : List (String × Translation)} {r r' : List String},
      shapesOf entries = shapesOf entries' → textsOf entries ++ r = textsOf entries' ++ r' →
        entries = entries' ∧ r = r'
  | [], [], _, _, _, htexts => ⟨rfl, htexts⟩
  | [], _ :: _, _, _, hshapes, _ => by simp [shapesOf] at hshapes
  | _ :: _, [], _, _, hshapes, _ => by simp [shapesOf] at hshapes
  | (name, t) :: rest, (name', t') :: rest', r, r', hshapes, htexts => by
      obtain ⟨hentry, htail⟩ := List.cons.inj hshapes
      obtain ⟨rfl, hshape⟩ := Prod.mk.inj hentry
      rw [textsOf, textsOf, List.append_assoc, List.append_assoc] at htexts
      obtain ⟨rfl, hbehind⟩ := Translation.eq_of_shape_eq hshape htexts
      obtain ⟨rfl, hrest⟩ := eq_of_shapesOf_eq htail hbehind
      exact ⟨rfl, hrest⟩

end

namespace Syntax
open Text

/-- The text that a row brings. -/
def Row.text? : Row → Option String
  | .literal _ text => some text
  | .callable _ text _ => some text
  | .opening _ => none
  | .closing => none

mutual

/-- The rows of an entry bring the texts of its translation. -/
theorem filterMap_text?_rows (depth : Nat) :
    ∀ e : Entry, (e.rows depth).filterMap (fun row => row.2.text?) = e.translation.texts
  | .literal _ _ => rfl
  | .callable _ _ _ => rfl
  | .block name entries => by
      rw [Entry.rows, List.filterMap_cons, List.filterMap_append,
        filterMap_text?_rowsOf (depth + 1) entries, Entry.translation, Translation.texts]
      exact List.append_nil _

/-- The rows of entries bring the texts of their translations. -/
theorem filterMap_text?_rowsOf (depth : Nat) :
    ∀ es : List Entry, (rowsOf depth es).filterMap (fun row => row.2.text?) = textsOf (payloadOf es)
  | [] => rfl
  | e :: es => by
      rw [rowsOf, List.filterMap_append, filterMap_text?_rows depth e,
        filterMap_text?_rowsOf depth es, payloadOf, textsOf]

end

/-- **Rows say which payload they were written for.** -/
theorem payloadOf_eq_of_rowsOf_eq {depth : Nat} {es es' : List Entry}
    (h : rowsOf depth es = rowsOf depth es') : payloadOf es = payloadOf es' := by
  have hmarks : marksOf depth (entryShapes es) ++ [] = marksOf depth (entryShapes es') ++ [] := by
    rw [← map_markAt_rowsOf, ← map_markAt_rowsOf, h]
  have hends : EndsGroup [] := trivial
  have hshapes := (marksOf_append_inj hends hends hmarks).1
  have htexts : textsOf (payloadOf es) ++ [] = textsOf (payloadOf es') ++ [] := by
    rw [← filterMap_text?_rowsOf depth, ← filterMap_text?_rowsOf depth, h]
  rw [entryShapes_eq, entryShapes_eq] at hshapes
  exact (eq_of_shapesOf_eq hshapes htexts).1

/-! ### The text of a row -/

/-- What the row of a value says behind its name, with the end of its line. -/
def Row.behind : Row → List Char
  | .literal _ text => quoteChars text.toList ++ [',', '\n']
  | .callable _ text params =>
      '(' :: ((typedParams params).toList ++ ')' :: (" => interpolate(".toList ++
        (quoteChars text.toList ++ (", " ++ argsObject params ++ "),\n").toList)))
  | .opening _ => ['\x7b', '\n']
  | .closing => ['\x7d', ',', '\n']

/-- The characters of a row in a value, with the end of its line. -/
def Row.chars (row : Row) : List Char :=
  match row.name? with
  | some name => (property name).toList ++ ':' :: ' ' :: row.behind
  | none => row.behind

theorem Row.toList_value (row : Row) : row.value.toList ++ ['\n'] = row.chars := by
  cases row <;> simp [Row.value, Row.chars, Row.name?, Row.behind, toList_quote]

/-- What a row says behind its name is known from its text. -/
theorem Row.behind_append_inj {row row' : Row} {r r' : List Char} (hname : row.name? = row'.name?)
    (h : row.IsSound) (h' : row'.IsSound) (heq : row.behind ++ r = row'.behind ++ r') :
    row = row' ∧ r = r' := by
  -- the first character tells the kinds of rows apart
  cases row with
  | literal name text =>
      cases row' with
      | literal name' text' =>
          obtain rfl := Option.some.inj hname
          simp only [behind, List.append_assoc] at heq
          obtain ⟨htext, hrest⟩ := quoteChars_append_inj heq
          obtain rfl := String.toList_inj.mp htext
          exact ⟨rfl, List.append_cancel_left hrest⟩
      | callable | opening | closing => simp [behind, quoteChars] at heq
  | callable name text params =>
      cases row' with
      | callable name' text' params' =>
          obtain rfl := Option.some.inj hname
          simp only [behind, List.cons_append, List.append_assoc] at heq
          obtain ⟨rfl, hcall⟩ := typedParams_append_inj (isIdentifier_of_templateProblem? h)
            (isIdentifier_of_templateProblem? h') (List.cons.inj heq).2
          obtain ⟨htext, hrest⟩ := quoteChars_append_inj (List.append_cancel_left hcall)
          obtain rfl := String.toList_inj.mp htext
          exact ⟨rfl, List.append_cancel_left hrest⟩
      | literal | opening | closing => simp [behind, quoteChars] at heq
  | opening name =>
      cases row' with
      | opening name' =>
          obtain rfl := Option.some.inj hname
          exact ⟨rfl, List.append_cancel_left heq⟩
      | literal | callable | closing => simp [behind, quoteChars] at heq
  | closing =>
      cases row' with
      | closing => exact ⟨rfl, List.append_cancel_left heq⟩
      | literal | callable | opening => cases hname

/-- Where a name stands, no row that has none is written. -/
theorem Row.property_append_ne_behind {row : Row} (hname : row.name? = none) {name : String}
    {r r' : List Char} : (property name).toList ++ r ≠ row.behind ++ r' := by
  rw [name?_eq_none_iff.mp hname]
  exact property_append_ne_cons (by decide) (by decide)

/-- A row is known from its text. -/
theorem Row.chars_append_inj {row row' : Row} {r r' : List Char} (h : row.IsSound)
    (h' : row'.IsSound) (heq : row.chars ++ r = row'.chars ++ r') : row = row' ∧ r = r' := by
  have hcolon : isIdentifierPart ':' = false := by decide
  unfold chars at heq
  cases hname : row.name? with
  | some name =>
      cases hname' : row'.name? with
      | some name' =>
          simp only [hname, hname', List.append_assoc, List.cons_append] at heq
          obtain ⟨rfl, -, htail⟩ := property_append_inj hcolon hcolon heq
          exact behind_append_inj (hname.trans hname'.symm) h h' (List.cons.inj htail).2
      | none =>
          simp only [hname, hname', List.append_assoc] at heq
          exact absurd heq (property_append_ne_behind hname')
  | none =>
      cases hname' : row'.name? with
      | some name' =>
          simp only [hname, hname', List.append_assoc] at heq
          exact absurd heq.symm (property_append_ne_behind hname)
      | none =>
          simp only [hname, hname'] at heq
          exact behind_append_inj (hname.trans hname'.symm) h h' heq

/-- The rows of values are known from their text. -/
def Row.code : LineCode Row where
  chars := Row.chars
  IsSound := Row.IsSound
  exists_cons
    | .literal name _ => exists_cons_property_append name ':' _
    | .callable name _ _ => exists_cons_property_append name ':' _
    | .opening name => exists_cons_property_append name ':' _
    | .closing => ⟨_, _, rfl, by decide⟩
  append_inj := Row.chars_append_inj

/-! ### The text of a value -/

namespace Tree

variable {p q : Payload} {tree tree' : Tree}

/-- The value of a section is written from its rows. -/
theorem toList_value (tree : Tree) : tree.value.toList = tree.rows.flatMap Row.code.line := by
  have hline : ∀ row : Nat × Row,
      Line.chars ⟨row.1, row.2.value⟩ ++ ['\n'] = Row.code.line row := fun row => by
    rw [Line.chars, List.append_assoc, Row.toList_value]
    rfl
  rw [value, Source.toList_text, valueSource_eq, sourceOf]
  simp only [List.flatMap_map, hline]

/-- **A value loses nothing.**  The values of two payloads are the same text only if the payloads
are the same: in names, order and nesting, in texts and in parameters. -/
theorem value_eq_iff (h : ofPayload? p = .ok tree) (h' : ofPayload? q = .ok tree') :
    tree.value = tree'.value ↔ p = q := by
  constructor
  · intro heq
    have hchars := congrArg String.toList heq
    rw [toList_value, toList_value] at hchars
    have hrows : tree.rows = tree'.rows :=
      Row.code.flatMap_line_inj (isSound_of_ofPayload? h) (isSound_of_ofPayload? h') hchars
    rw [← payload_of_ofPayload? h, ← payload_of_ofPayload? h']
    exact payloadOf_eq_of_rowsOf_eq hrows
  · rintro rfl
    rw [Except.ok.inj (h.symm.trans h')]

/-- A text that looks like the end of its line and another entry is none: the value with one entry
is not the value with two. -/
theorem sample_value_ne :
    ∃ tree tree', ofPayload? [("a", .literal "x\",\n  b: \"y")] = .ok tree ∧
      ofPayload? [("a", .literal "x"), ("b", .literal "y")] = .ok tree' ∧
      tree.value ≠ tree'.value := by
  have h : ofPayload? [("a", .literal "x\",\n  b: \"y")] =
      .ok [.literal "a" "x\",\n  b: \"y"] := rfl
  have h' : ofPayload? [("a", .literal "x"), ("b", .literal "y")] =
      .ok [.literal "a" "x", .literal "b" "y"] := rfl
  refine ⟨_, _, h, h', fun heq => ?_⟩
  have hlength := congrArg List.length ((value_eq_iff h h').mp heq)
  exact absurd hlength (by decide)

end Tree

end Syntax

end Phrasebook
