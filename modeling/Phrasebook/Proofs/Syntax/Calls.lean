import Phrasebook.Proofs.Payload.Places
import Phrasebook.Proofs.Syntax.Nesting
import Phrasebook.Proofs.Syntax.Scope
import Phrasebook.Proofs.Text.Calls

/-!
# Proofs — Syntax — Calls

When the value of a section calls `interpolate`.  Whether it does is decided on the entries, by one
recursion over them, and the calls are written by another.  Both go by the templates of the payload:
entries hold a callable just if they come from a template (`anyInterpolates_iff`), and then a call
is written for it, at whatever depth (`calls_writeRows`); without one, every row is quiet, whatever
its names and texts say (`isQuiet_of_mem_rowsOf`).
-/

namespace Phrasebook.Syntax

open Text

/-! ### Callables and templates -/

mutual

/-- An entry is or holds a callable if its translation is or holds a template. -/
theorem Entry.interpolates_iff (path : EntryPath) :
    ∀ e : Entry, e.interpolates = true ↔ e.translation.templates path ≠ []
  | .literal _ _ => by simp [Entry.interpolates, Entry.translation, Translation.templates]
  | .callable _ _ _ => by simp [Entry.interpolates, Entry.translation, Translation.templates]
  | .block _ entries => by
      rw [Entry.interpolates, Entry.translation, Translation.templates,
        anyInterpolates_iff path entries]

/-- **Entries hold a callable if their translations hold a template.** -/
theorem anyInterpolates_iff (path : EntryPath) :
    ∀ es : List Entry, anyInterpolates es = true ↔ templatesOf path (payloadOf es) ≠ []
  | [] => by simp [anyInterpolates, payloadOf, templatesOf]
  | e :: es => by
      rw [anyInterpolates, Bool.or_eq_true, payloadOf, templatesOf, ne_eq, List.append_eq_nil_iff,
        not_and_or, Entry.interpolates_iff (path ++ [e.name]) e, anyInterpolates_iff path es]

end

/-- A template stands somewhere in the payload. -/
def HasTemplate (payload : Payload) : Prop :=
  ∃ path text params, EntryAt Translation.node? payload path (.template text params)

theorem hasTemplate_iff {payload : Payload} : HasTemplate payload ↔ payload.templates ≠ [] := by
  constructor
  · rintro ⟨path, text, params, hat⟩
    have hplaced : (⟨path, text, params⟩ : PlacedTemplate) ∈ payload.templates :=
      Payload.mem_templates_iff.mpr hat
    exact List.ne_nil_of_mem hplaced
  · intro hne
    obtain ⟨placed, hplaced⟩ := List.exists_mem_of_ne_nil _ hne
    exact ⟨_, _, _, Payload.mem_templates_iff.mp hplaced⟩

/-- A section interpolates if a template stands somewhere in its payload. -/
theorem Tree.interpolates_iff {payload : Payload} {tree : Tree}
    (h : ofPayload? payload = .ok tree) : tree.interpolates = true ↔ HasTemplate payload := by
  rw [interpolates, anyInterpolates_iff [], payload_of_ofPayload? h, hasTemplate_iff,
    Payload.templates]

/-! ### Rows without calls -/

/-- A row that defines no function is quiet. -/
theorem Row.isQuiet_value {row : Row} (h : row.arrow? = none) : IsQuiet row.value := by
  have hcolon : IsQuiet ": " := isQuiet_of_plain (by decide) (by decide)
  have hend : IsQuiet "," := isQuiet_of_plain (by decide) (by decide)
  cases row with
  | literal name text =>
      exact (((isQuiet_property name).append hcolon).append (isQuiet_quote text)).append hend
  | callable name text params => cases h
  | opening name => exact (isQuiet_property name).append (isQuiet_of_plain (by decide) (by decide))
  | closing => exact isQuiet_of_plain (by decide) (by decide)

/-- Without a callable all rows are quiet. -/
theorem isQuiet_of_mem_rowsOf {depth : Nat} {es : List Entry} (h : anyInterpolates es = false)
    {row : Nat × Row} (hrow : row ∈ rowsOf depth es) : IsQuiet row.2.value := by
  have hnone : templatesOf [] (payloadOf es) = [] := by
    by_contra hne
    rw [(anyInterpolates_iff [] es).mpr hne] at h
    cases h
  have harrows := filterMap_arrow?_rowsOf [] depth es
  rw [hnone, List.map_nil, List.filterMap_eq_nil_iff] at harrows
  exact Row.isQuiet_value (harrows row hrow)

/-! ### Calls of callables -/

/-- The row of a callable calls `interpolate`. -/
theorem calls_callable (depth : Nat) (name text : String) {params : List String}
    (h : ∀ p ∈ params, isIdentifier p = true) :
    Calls "interpolate" (Line.text ⟨depth, (Row.callable name text params).value⟩) := by
  have hopen : Passes (.code []) ": (" (.code [.paren]) := by decide
  have hclose : Passes (.code [.paren]) ") => " (.code []) := by decide
  have hhead : IsBalanced (property name ++ ": (" ++ typedParams params ++ ") => ") :=
    ((Passes.append (isBalanced_property name) hopen).append
      ((isBalanced_typedParams h).passes _)).append hclose
  refine ⟨String.ofList (List.replicate (2 * depth) ' ') ++
      (property name ++ ": (" ++ typedParams params ++ ") => "),
    Text.quote text ++ ", " ++ argsObject params ++ ")," ++ "\n", [], ?_,
    (isBalanced_indentation depth).append hhead, ?_⟩
  · have hcall : ") => interpolate(" = ") => " ++ "interpolate" ++ "(" := by decide
    simp only [Line.text, Row.value, hcall, String.append_assoc]
  · rw [EndsNoName]
    simp only [String.toList_append, List.getLast?_append]
    rfl

/-- Behind rows, no name goes on. -/
theorem endsNoName_writeRows (write : Row → String) (rows : List (Nat × Row)) :
    EndsNoName (writeRows write rows) := by
  induction rows with
  | nil => exact endsNoName_empty
  | cons row rows ih =>
      rw [writeRows_cons]
      exact (endsNoName_lineEnd _).append ih

mutual

/-- An entry with a callable is written with a call. -/
theorem calls_entry (depth : Nat) :
    ∀ e : Entry, e.interpolates = true → (∀ row ∈ e.rows depth, row.2.mark.IsSound) →
      Calls "interpolate" (writeRows Row.value (e.rows depth))
  | .literal _ _, h, _ => by cases h
  | .callable name text params, _, hsound => by
      rw [Entry.rows, writeRows_singleton]
      exact calls_callable depth name text
        (hsound (depth, .callable name text params) List.mem_cons_self)
  | .block name entries, h, hsound => by
      have hinner := calls_writeRows (depth + 1) entries h fun row hrow =>
        hsound row (List.mem_cons_of_mem _ (List.mem_append_left _ hrow))
      rw [Entry.rows, writeRows_cons, writeRows_append, writeRows_singleton,
        ← String.append_assoc]
      exact hinner.inside ((nests_value.opening name).line depth) (endsNoName_lineEnd _) _

/-- **Entries with a callable are written with a call**, if their parameters can stand bare. -/
theorem calls_writeRows (depth : Nat) :
    ∀ es : List Entry, anyInterpolates es = true →
      (∀ row ∈ rowsOf depth es, row.2.mark.IsSound) →
        Calls "interpolate" (writeRows Row.value (rowsOf depth es))
  | [], h, _ => by cases h
  | e :: es, h, hsound => by
      have hentry := fun row hrow => hsound row (List.mem_append_left _ hrow)
      have hrest := fun row hrow => hsound row (List.mem_append_right _ hrow)
      rw [rowsOf, writeRows_append]
      by_cases he : e.interpolates = true
      · have hcalls := (calls_entry depth e he hentry).inside isBalanced_empty endsNoName_empty
          (writeRows Row.value (rowsOf depth es))
        rwa [String.empty_append] at hcalls
      · rw [anyInterpolates, Bool.not_eq_true _ |>.mp he, Bool.false_or] at h
        have hcalls := (calls_writeRows depth es h hrest).inside
          (nests_value.isBalanced_entry depth e hentry) (endsNoName_writeRows _ _) ""
        rwa [String.append_empty] at hcalls

end

/-! ### The value of a section -/

mutual

/-- The rows of an entry are on its level or deeper. -/
theorem le_of_mem_rows {depth : Nat} {row : Nat × Row} :
    ∀ {e : Entry}, row ∈ e.rows depth → depth ≤ row.1
  | .literal _ _, h => by cases List.mem_singleton.mp h; exact Nat.le_refl _
  | .callable _ _ _, h => by cases List.mem_singleton.mp h; exact Nat.le_refl _
  | .block _ _, h => by
      simp only [Entry.rows, List.mem_cons, List.mem_append, List.not_mem_nil, or_false] at h
      rcases h with rfl | h | rfl
      · exact Nat.le_refl _
      · exact Nat.le_of_succ_le (le_of_mem_rowsOf h)
      · exact Nat.le_refl _

theorem le_of_mem_rowsOf {depth : Nat} {row : Nat × Row} :
    ∀ {es : List Entry}, row ∈ rowsOf depth es → depth ≤ row.1
  | [], h => by cases h
  | _ :: _, h => (List.mem_append.mp h).elim le_of_mem_rows le_of_mem_rowsOf

end

namespace Tree

variable {payload : Payload} {tree : Tree}

/-- **A section that interpolates calls `interpolate` in its value.** -/
theorem calls_value (h : ofPayload? payload = .ok tree) (hcallable : tree.interpolates = true) :
    Calls "interpolate" tree.value := by
  rw [value, valueSource_eq]
  exact calls_writeRows 1 tree hcallable (isSound_of_mem_rows (shape_of_ofPayload? h).2)

/-- The value of a section is written in indented lines, which are all quiet if it does not
interpolate. -/
theorem isWritten_value (h : ofPayload? payload = .ok tree) :
    IsWritten (fun line => 0 < line.depth ∧ (tree.interpolates = false → IsQuiet line.content))
      tree.value := by
  refine ⟨tree.valueSource, rfl, fun line hline => ?_⟩
  have honeline := (isOneLine_of_mem_source h).1 line hline
  rw [valueSource_eq] at hline
  obtain ⟨row, hrow, rfl⟩ := List.mem_map.mp hline
  exact ⟨honeline, le_of_mem_rowsOf hrow, fun hnone => isQuiet_of_mem_rowsOf hnone hrow⟩

/-- The interface of a section is written in indented lines. -/
theorem isWritten_interface (h : ofPayload? payload = .ok tree) :
    IsWritten (fun line => 0 < line.depth) tree.interface := by
  refine ⟨tree.interfaceSource, rfl, fun line hline => ?_⟩
  have honeline := (isOneLine_of_mem_source h).2 line hline
  rw [interfaceSource_eq] at hline
  obtain ⟨row, hrow, rfl⟩ := List.mem_map.mp hline
  exact ⟨honeline, le_of_mem_rowsOf hrow⟩

end Tree

end Phrasebook.Syntax
