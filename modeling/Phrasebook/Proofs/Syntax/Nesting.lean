import Phrasebook.Proofs.Syntax.Interface
import Phrasebook.Proofs.Text.Nesting

/-!
# Proofs — Syntax — Nesting

The bodies of a section are balanced, whatever its texts and names are.  Value and interface are
written row by row; in both of them the row of a literal or a callable is balanced, and the row that
opens a block leaves one brace open, which the row behind the entries of the block closes (`Nests`).
By induction on the entries, whatever is written in such a way is balanced
(`Nests.isBalanced_writeRows`).  Names and texts stand in literals, if they do not stand bare as
identifiers; the parameters of callables are identifiers in every section without unsound templates.
-/

namespace Phrasebook

open Text

/-! ### Lines -/

theorem isBalanced_indentation (depth : Nat) :
    IsBalanced (String.ofList (List.replicate (2 * depth) ' ')) := by
  refine isBalanced_of_all (p := (· == ' ')) (by decide) fun c hc => ?_
  rw [String.toList_ofList] at hc
  exact beq_iff_eq.mpr (List.eq_of_mem_replicate hc)

/-- A line goes where its content goes. -/
theorem Text.Passes.line {content : String} {opened opened' : List Bracket}
    (h : Passes (.code opened) content (.code opened')) (depth : Nat) :
    Passes (.code opened) (Line.text ⟨depth, content⟩) (.code opened') := by
  have hend : IsBalanced "\n" := by decide
  exact (((isBalanced_indentation depth).passes opened).append h).append (hend.passes opened')

theorem isBalanced_line {content : String} (h : IsBalanced content) (depth : Nat) :
    IsBalanced (Line.text ⟨depth, content⟩) :=
  Passes.line h depth

theorem concat_append (ts us : List String) : concat (ts ++ us) = concat ts ++ concat us := by
  induction ts with
  | nil => simp [concat]
  | cons t ts ih => rw [List.cons_append, concat, concat, ih, String.append_assoc]

namespace Syntax

/-! ### Parameters -/

theorem isBalanced_typedParams {params : List String}
    (h : ∀ p ∈ params, isIdentifier p = true) : IsBalanced (typedParams params) := by
  refine isBalanced_intercalate (by decide) fun t ht => ?_
  obtain ⟨p, hp, rfl⟩ := List.mem_map.mp ht
  exact (isBalanced_of_isIdentifier (h p hp)).append (by decide)

theorem isBalanced_argsObject {params : List String} (h : ∀ p ∈ params, isIdentifier p = true) :
    IsBalanced (argsObject params) := by
  have hnames : IsBalanced (String.intercalate ", " params) :=
    isBalanced_intercalate (by decide) fun p hp => isBalanced_of_isIdentifier (h p hp)
  have hopen : Passes (.code []) "\x7b " (.code [.brace]) := by decide
  have hclose : Passes (.code [.brace]) " \x7d" (.code []) := by decide
  unfold argsObject
  split
  · decide
  · exact (hopen.append (hnames.passes _)).append hclose

/-! ### Rows -/

/-- A way to write rows in which blocks are enclosed by braces and everything else is balanced. -/
structure Nests (write : Row → String) : Prop where
  literal : ∀ name text, IsBalanced (write (.literal name text))
  callable : ∀ name text params, (∀ p ∈ params, isIdentifier p = true) →
    IsBalanced (write (.callable name text params))
  opening : ∀ name, Passes (.code []) (write (.opening name)) (.code [.brace])
  closing : Passes (.code [.brace]) (write .closing) (.code [])

/-- The opening of a block, in values and in interfaces. -/
theorem passes_opening (name : String) :
    Passes (.code []) (property name ++ ": \x7b") (.code [.brace]) :=
  Passes.append (isBalanced_property name) (by decide)

theorem nests_value : Nests Row.value where
  literal name text :=
    (((isBalanced_property name).append (by decide)).append (isBalanced_quote text)).append
      (by decide)
  callable name text params h := by
    have hopen : Passes (.code []) ": (" (.code [.paren]) := by decide
    have hparams : Passes (.code []) (property name ++ ": (" ++ typedParams params)
        (.code [.paren]) :=
      (Passes.append (isBalanced_property name) hopen).append
        ((isBalanced_typedParams h).passes _)
    have hcall : Passes (.code [.paren]) ") => interpolate(" (.code [.paren]) := by decide
    have harguments : IsBalanced (Text.quote text ++ ", " ++ argsObject params) :=
      ((isBalanced_quote text).append (by decide)).append (isBalanced_argsObject h)
    have hend : Passes (.code [.paren]) ")," (.code []) := by decide
    have hall := ((hparams.append hcall).append (harguments.passes _)).append hend
    rw [IsBalanced]
    simpa only [Row.value, String.append_assoc] using hall
  opening := passes_opening
  closing := by decide

theorem nests_type : Nests Row.type where
  literal name _ := (isBalanced_property name).append (by decide)
  callable name _ params h := by
    have hopen : Passes (.code []) ": (" (.code [.paren]) := by decide
    have hend : Passes (.code [.paren]) ") => string;" (.code []) := by decide
    exact ((Passes.append (isBalanced_property name) hopen).append
      ((isBalanced_typedParams h).passes _)).append hend
  opening := passes_opening
  closing := by decide

/-- Rows as text, each on its level. -/
def writeRows (write : Row → String) (rows : List (Nat × Row)) : String :=
  (sourceOf write rows).text

theorem writeRows_append (write : Row → String) (first second : List (Nat × Row)) :
    writeRows write (first ++ second) = writeRows write first ++ writeRows write second := by
  simp only [writeRows, Source.text, sourceOf_append, List.map_append, concat_append]

theorem writeRows_cons (write : Row → String) (row : Nat × Row) (rows : List (Nat × Row)) :
    writeRows write (row :: rows) = Line.text ⟨row.1, write row.2⟩ ++ writeRows write rows :=
  rfl

theorem writeRows_singleton (write : Row → String) (row : Nat × Row) :
    writeRows write [row] = Line.text ⟨row.1, write row.2⟩ :=
  String.append_empty

namespace Nests

variable {write : Row → String}

mutual

/-- The rows of an entry are balanced. -/
theorem isBalanced_entry (h : Nests write) (depth : Nat) :
    ∀ e : Entry, (∀ row ∈ e.rows depth, row.2.mark.IsSound) →
      IsBalanced (writeRows write (e.rows depth))
  | .literal name text, _ => by
      rw [Entry.rows, writeRows_singleton]
      exact isBalanced_line (h.literal name text) depth
  | .callable name text params, hsound => by
      rw [Entry.rows, writeRows_singleton]
      have hparams : ∀ p ∈ params, isIdentifier p = true :=
        hsound (depth, .callable name text params) List.mem_cons_self
      exact isBalanced_line (h.callable name text params hparams) depth
  | .block name entries, hsound => by
      have hentries := isBalanced_writeRows h (depth + 1) entries fun row hrow =>
        hsound row (List.mem_cons_of_mem _ (List.mem_append_left _ hrow))
      rw [Entry.rows, writeRows_cons, writeRows_append, writeRows_singleton]
      exact ((h.opening name).line depth).append
        ((hentries.passes _).append (h.closing.line depth))

/-- **The rows of entries are balanced**, if their parameters can stand bare. -/
theorem isBalanced_writeRows (h : Nests write) (depth : Nat) :
    ∀ es : List Entry, (∀ row ∈ rowsOf depth es, row.2.mark.IsSound) →
      IsBalanced (writeRows write (rowsOf depth es))
  | [], _ => isBalanced_empty
  | e :: es, hsound => by
      rw [rowsOf, writeRows_append]
      exact (isBalanced_entry h depth e fun row hrow =>
          hsound row (List.mem_append_left _ hrow)).append
        (isBalanced_writeRows h depth es fun row hrow =>
          hsound row (List.mem_append_right _ hrow))

end

end Nests

namespace Tree

variable {payload : Payload} {tree : Tree}

/-- The parameters of all rows can stand bare. -/
theorem isSound_of_mem_rows (h : tree.IsSound) :
    ∀ row ∈ rowsOf 1 tree, row.2.mark.IsSound :=
  fun row hrow => h (markAt row) (List.mem_map_of_mem hrow)

/-- **The value of a section is balanced.** -/
theorem isBalanced_value (h : ofPayload? payload = .ok tree) : IsBalanced tree.value := by
  rw [value, valueSource_eq]
  exact nests_value.isBalanced_writeRows 1 tree (isSound_of_mem_rows (shape_of_ofPayload? h).2)

/-- **The interface of a section is balanced.** -/
theorem isBalanced_interface (h : ofPayload? payload = .ok tree) : IsBalanced tree.interface := by
  rw [interface, interfaceSource_eq]
  exact nests_type.isBalanced_writeRows 1 tree (isSound_of_mem_rows (shape_of_ofPayload? h).2)

end Tree

end Syntax

end Phrasebook
