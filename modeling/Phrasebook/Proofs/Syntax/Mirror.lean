import Mathlib.Data.List.Forall2
import Phrasebook.Proofs.Syntax.Interface
import Phrasebook.Proofs.Text.Parts

/-!
# Proofs — Syntax — Mirror

The value of a section and its interface as texts, side by side.  Both are written from the same
rows (`Tree.valueSource_eq`, `Tree.interfaceSource_eq`), and what is written for a row is one line,
whatever names and texts it brings; so the texts have as many lines as there are rows.  The two
lines of a row start alike, up to the end of the name (`Row.mirrors`), and what stands behind the
name says the same kind of thing on either side (`Pairs`).
-/

namespace Phrasebook.Syntax
open Text

/-- What the line of a value says behind the name, with what the line of the interface says. -/
inductive Pairs : String → String → Prop
  | literal (text : String) : Pairs (": " ++ quote text ++ ",") ": string;"
  | callable (text : String) {params : List String}
      (hparams : ∀ param ∈ params, isIdentifier param = true) :
      Pairs (": (" ++ typedParams params ++ ") => interpolate(" ++ quote text ++ ", " ++
          argsObject params ++ "),")
        (": (" ++ typedParams params ++ ") => string;")
  | opening : Pairs ": \x7b" ": \x7b"
  | closing : Pairs "\x7d," "\x7d;"

/-- The line of an interface says the type of what the line of a value says. -/
structure Mirrors (value type : String) : Prop where
  indentation : (parts value).indentation = (parts type).indentation
  name : (parts value).name = (parts type).name
  behind : Pairs (parts value).behind (parts type).behind

/-! ### The lines of a row -/

/-- Typed parameters have no characters but those of their names, of the type and in between. -/
theorem not_mem_typedParams {c : Char} (hc : isIdentifierPart c = false)
    (hrest : c ∉ ", : string".toList) {params : List String}
    (h : ∀ param ∈ params, isIdentifier param = true) : c ∉ (typedParams params).toList := by
  have hseparator : c ∉ ", ".toList := fun hmem => hrest (List.mem_append_left _ hmem)
  have htype : c ∉ ": string".toList := fun hmem =>
    hrest (List.mem_append_right (", ".toList) hmem)
  refine not_mem_intercalate hseparator fun t ht => ?_
  obtain ⟨param, hparam, rfl⟩ := List.mem_map.mp ht
  rw [String.toList_append, List.mem_append, not_or]
  exact ⟨not_mem_of_isIdentifier hc (h param hparam), htype⟩

theorem isOneLine_argsObject {params : List String}
    (h : ∀ param ∈ params, isIdentifier param = true) : IsOneLine (argsObject params) := by
  have hparams : IsOneLine (String.intercalate ", " params) :=
    not_mem_intercalate (by decide) fun param hparam =>
      not_mem_of_isIdentifier (by decide) (h param hparam)
  unfold argsObject
  split
  · decide
  · exact (IsOneLine.append (by decide) hparams).append (by decide)

theorem Row.isOneLine_printed (row : Row) : IsOneLine row.printed := by
  unfold printed
  split
  · exact isOneLine_property _
  · decide

/-- What is written for a row is one line. -/
theorem Row.isOneLine {row : Row} (h : row.IsSound) :
    IsOneLine row.value ∧ IsOneLine row.type := by
  rw [value_eq_append, type_eq_append]
  suffices hbehind : IsOneLine row.behindInValue ∧ IsOneLine row.behindInType from
    ⟨row.isOneLine_printed.append hbehind.1, row.isOneLine_printed.append hbehind.2⟩
  cases row with
  | literal name text =>
      exact ⟨(IsOneLine.append (by decide) (isOneLine_quote text)).append (by decide),
        show IsOneLine ": string;" by decide⟩
  | callable name text params =>
      have hparams := isIdentifier_of_templateProblem? h
      have htyped : IsOneLine (": (" ++ typedParams params) :=
        IsOneLine.append (by decide) (not_mem_typedParams (by decide) (by decide) hparams)
      have hcall : IsOneLine (": (" ++ typedParams params ++ ") => interpolate(" ++ quote text) :=
        (htyped.append (by decide)).append (isOneLine_quote text)
      exact ⟨((hcall.append (by decide)).append (isOneLine_argsObject hparams)).append (by decide),
        htyped.append (by decide)⟩
  | opening name =>
      have hbrace : IsOneLine ": \x7b" := by decide
      exact ⟨hbrace, hbrace⟩
  | closing => exact ⟨by decide, by decide⟩

/-- **The parts of a row**, in a value and in an interface. -/
theorem Row.parts_eq (depth : Nat) (row : Row) :
    parts (String.ofList (Line.chars ⟨depth, row.value⟩)) =
        ⟨2 * depth, row.printed, row.behindInValue⟩ ∧
      parts (String.ofList (Line.chars ⟨depth, row.type⟩)) =
        ⟨2 * depth, row.printed, row.behindInType⟩ := by
  rw [value_eq_append, type_eq_append]
  cases hname : row.name? with
  | some name =>
      have hprinted : row.printed = property name := by rw [printed, hname]
      obtain ⟨hvalue, htype⟩ := head?_behind hname
      rw [hprinted]
      exact ⟨parts_property depth name hvalue, parts_property depth name htype⟩
  | none =>
      rw [name?_eq_none_iff.mp hname]
      exact ⟨parts_of_nameless depth rfl (by decide) (by decide) (by decide),
        parts_of_nameless depth rfl (by decide) (by decide) (by decide)⟩

/-- What a row says in a value and in an interface pairs up. -/
theorem Row.pairs {row : Row} (h : row.IsSound) : Pairs row.behindInValue row.behindInType := by
  cases row with
  | literal name text => exact .literal text
  | callable name text params => exact .callable text (isIdentifier_of_templateProblem? h)
  | opening name => exact .opening
  | closing => exact .closing

/-- **The two lines of a row mirror each other.** -/
theorem Row.mirrors (depth : Nat) {row : Row} (h : row.IsSound) :
    Mirrors (String.ofList (Line.chars ⟨depth, row.value⟩))
      (String.ofList (Line.chars ⟨depth, row.type⟩)) where
  indentation := by rw [(parts_eq depth row).1, (parts_eq depth row).2]
  name := by rw [(parts_eq depth row).1, (parts_eq depth row).2]
  behind := by
    rw [(parts_eq depth row).1, (parts_eq depth row).2]
    exact Row.pairs h

/-! ### The two texts -/

namespace Tree

variable {payload : Payload} {tree : Tree}

/-- What is written for the rows of a tree is written on lines. -/
theorem isOneLine_of_mem_source (h : ofPayload? payload = .ok tree) :
    (∀ line ∈ tree.valueSource, IsOneLine line.content) ∧
      ∀ line ∈ tree.interfaceSource, IsOneLine line.content := by
  rw [valueSource_eq, interfaceSource_eq]
  constructor
  · intro line hline
    obtain ⟨row, hrow, rfl⟩ := List.mem_map.mp hline
    exact (Row.isOneLine (isSound_of_ofPayload? h row hrow)).1
  · intro line hline
    obtain ⟨row, hrow, rfl⟩ := List.mem_map.mp hline
    exact (Row.isOneLine (isSound_of_ofPayload? h row hrow)).2

/-- The lines of a value are its rows. -/
theorem lines_value (h : ofPayload? payload = .ok tree) :
    lines tree.value =
      tree.rows.map fun row => String.ofList (Line.chars ⟨row.1, row.2.value⟩) := by
  rw [value, lines_text (isOneLine_of_mem_source h).1, valueSource_eq, sourceOf, List.map_map]
  rfl

/-- The lines of an interface are its rows. -/
theorem lines_interface (h : ofPayload? payload = .ok tree) :
    lines tree.interface =
      tree.rows.map fun row => String.ofList (Line.chars ⟨row.1, row.2.type⟩) := by
  rw [interface, lines_text (isOneLine_of_mem_source h).2, interfaceSource_eq, sourceOf,
    List.map_map]
  rfl

/-- **The interface of a section mirrors its value line by line.**  The two texts have the same
number of lines, and nothing besides their lines; and two lines with one number have the same
indentation and the same printed name, behind which the one says what the other says the type of. -/
theorem value_mirrors_interface (h : ofPayload? payload = .ok tree) :
    (lines tree.value).length = (lines tree.interface).length ∧
      List.Forall₂ Mirrors (lines tree.value) (lines tree.interface) ∧
      concat ((lines tree.value).map (· ++ "\n")) = tree.value ∧
      concat ((lines tree.interface).map (· ++ "\n")) = tree.interface := by
  have hmirrors : List.Forall₂ Mirrors (lines tree.value) (lines tree.interface) := by
    rw [lines_value h, lines_interface h, List.forall₂_map_left_iff, List.forall₂_map_right_iff,
      List.forall₂_same]
    exact fun row hrow => Row.mirrors row.1 (isSound_of_ofPayload? h row hrow)
  exact ⟨hmirrors.length_eq, hmirrors, concat_lines_text (isOneLine_of_mem_source h).1,
    concat_lines_text (isOneLine_of_mem_source h).2⟩

/-- Line feeds and braces in names and texts: the two texts have three lines each. -/
theorem sample_value_mirrors_interface :
    ∃ tree, ofPayload? [("a\n\x7d", .node [("k", .template "x\n\x7b\x7bn\x7d\x7d" ["n"])])] =
        .ok tree ∧
      (lines tree.interface).length = 3 ∧
      List.Forall₂ Mirrors (lines tree.value) (lines tree.interface) := by
  have h : ofPayload? [("a\n\x7d", .node [("k", .template "x\n\x7b\x7bn\x7d\x7d" ["n"])])] =
      .ok [.block "a\n\x7d" [.callable "k" "x\n\x7b\x7bn\x7d\x7d" ["n"]]] := rfl
  obtain ⟨hlength, hmirrors, -, -⟩ := value_mirrors_interface h
  exact ⟨_, h, rfl, hmirrors⟩

end Tree

end Phrasebook.Syntax
