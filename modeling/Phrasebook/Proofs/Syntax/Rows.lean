import Phrasebook.Syntax.Body

/-!
# Proofs — Syntax — Rows

The value and the interface of a section are written apart, and yet have the same lines: one for a
literal, one for a callable, and two around the entries of a block.  `rows` lists what the lines
say, each with its level, and `Row.value` and `Row.type` write one of them.  By induction on the
entries, the lines of the value are the rows in the one writing (`Tree.valueSource_eq`), and those
of the interface are the same rows in the other (`Tree.interfaceSource_eq`).
-/

namespace Phrasebook.Syntax

/-- What one line of a section says. -/
inductive Row where
  | literal (name text : String)
  | callable (name text : String) (params : List String)
  | opening (name : String)
  | closing
  deriving DecidableEq

/-- The row in the value of a section. -/
def Row.value : Row → String
  | .literal name text => property name ++ ": " ++ Text.quote text ++ ","
  | .callable name text params =>
      property name ++ ": (" ++ typedParams params ++ ") => interpolate(" ++ Text.quote text ++
        ", " ++ argsObject params ++ "),"
  | .opening name => property name ++ ": \x7b"
  | .closing => "\x7d,"

/-- The row in the interface of a section. -/
def Row.type : Row → String
  | .literal name _ => property name ++ ": string;"
  | .callable name _ params => property name ++ ": (" ++ typedParams params ++ ") => string;"
  | .opening name => property name ++ ": \x7b"
  | .closing => "\x7d;"

/-! ### Names in rows -/

/-- The name that stands in a row. -/
def Row.name? : Row → Option String
  | .literal name _ => some name
  | .callable name _ _ => some name
  | .opening name => some name
  | .closing => none

/-- The name as it is printed. -/
def Row.printed (row : Row) : String :=
  match row.name? with
  | some name => property name
  | none => ""

/-- What the value says behind the name. -/
def Row.behindInValue : Row → String
  | .literal _ text => ": " ++ Text.quote text ++ ","
  | .callable _ text params =>
      ": (" ++ typedParams params ++ ") => interpolate(" ++ Text.quote text ++ ", " ++
        argsObject params ++ "),"
  | .opening _ => ": \x7b"
  | .closing => "\x7d,"

/-- What the interface says behind the name. -/
def Row.behindInType : Row → String
  | .literal _ _ => ": string;"
  | .callable _ _ params => ": (" ++ typedParams params ++ ") => string;"
  | .opening _ => ": \x7b"
  | .closing => "\x7d;"

theorem Row.value_eq_append (row : Row) : row.value = row.printed ++ row.behindInValue := by
  cases row <;> simp [value, printed, name?, behindInValue, String.append_assoc]

theorem Row.type_eq_append (row : Row) : row.type = row.printed ++ row.behindInType := by
  cases row <;> simp [type, printed, name?, behindInType, String.append_assoc]

theorem Row.name?_eq_none_iff {row : Row} : row.name? = none ↔ row = .closing := by
  cases row <;> simp [name?]

/-- A colon stands behind a name. -/
theorem Row.head?_behind {row : Row} {name : String} (h : row.name? = some name) :
    row.behindInValue.toList.head? = some ':' ∧ row.behindInType.toList.head? = some ':' := by
  cases row with
  | closing => cases h
  | _ => simp [behindInValue, behindInType]

/-! ### The rows of entries -/

mutual

/-- The rows of an entry, each with its level. -/
def Entry.rows (depth : Nat) : Entry → List (Nat × Row)
  | .literal name text => [(depth, .literal name text)]
  | .callable name text params => [(depth, .callable name text params)]
  | .block name entries =>
      (depth, .opening name) :: (rowsOf (depth + 1) entries ++ [(depth, .closing)])

/-- The rows of entries one after the other. -/
def rowsOf (depth : Nat) : List Entry → List (Nat × Row)
  | [] => []
  | e :: es => e.rows depth ++ rowsOf depth es

end

/-- Rows in some writing, each on its level. -/
def sourceOf (write : Row → String) (rows : List (Nat × Row)) : Source :=
  rows.map fun row => ⟨row.1, write row.2⟩

theorem sourceOf_cons (write : Row → String) (row : Nat × Row) (rows : List (Nat × Row)) :
    sourceOf write (row :: rows) = ⟨row.1, write row.2⟩ :: sourceOf write rows :=
  rfl

theorem sourceOf_append (write : Row → String) (first second : List (Nat × Row)) :
    sourceOf write (first ++ second) = sourceOf write first ++ sourceOf write second :=
  List.map_append

mutual

/-- The value of an entry has the entry's rows. -/
theorem Entry.valueLines_eq (depth : Nat) :
    ∀ e : Entry, e.valueLines depth = sourceOf Row.value (e.rows depth)
  | .literal _ _ => rfl
  | .callable _ _ _ => rfl
  | .block name entries => by
      rw [Entry.valueLines, valueLinesOf_eq (depth + 1) entries, Entry.rows, sourceOf_cons,
        sourceOf_append]
      rfl

/-- The value of entries has their rows. -/
theorem valueLinesOf_eq (depth : Nat) :
    ∀ es : List Entry, valueLinesOf depth es = sourceOf Row.value (rowsOf depth es)
  | [] => rfl
  | e :: es => by
      rw [valueLinesOf, Entry.valueLines_eq depth e, valueLinesOf_eq depth es, rowsOf,
        sourceOf_append]

end

mutual

/-- The interface of an entry has the entry's rows. -/
theorem Entry.typeLines_eq (depth : Nat) :
    ∀ e : Entry, e.typeLines depth = sourceOf Row.type (e.rows depth)
  | .literal _ _ => rfl
  | .callable _ _ _ => rfl
  | .block name entries => by
      rw [Entry.typeLines, typeLinesOf_eq (depth + 1) entries, Entry.rows, sourceOf_cons,
        sourceOf_append]
      rfl

/-- The interface of entries has their rows. -/
theorem typeLinesOf_eq (depth : Nat) :
    ∀ es : List Entry, typeLinesOf depth es = sourceOf Row.type (rowsOf depth es)
  | [] => rfl
  | e :: es => by
      rw [typeLinesOf, Entry.typeLines_eq depth e, typeLinesOf_eq depth es, rowsOf,
        sourceOf_append]

end

namespace Tree

/-- The rows of a section. -/
def rows (tree : Tree) : List (Nat × Row) :=
  rowsOf 1 tree

/-- **The value of a section has its rows.** -/
theorem valueSource_eq (tree : Tree) : tree.valueSource = sourceOf Row.value tree.rows :=
  valueLinesOf_eq 1 tree

/-- **The interface of a section has the same rows**, in another writing. -/
theorem interfaceSource_eq (tree : Tree) : tree.interfaceSource = sourceOf Row.type tree.rows :=
  typeLinesOf_eq 1 tree

end Tree

end Phrasebook.Syntax
